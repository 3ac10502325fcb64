import Docsmith.Source.Syntax.Grammar
/-!
# Python — the grammar

Statements and expressions. Operators are not ranked, for no answer
depends on how an expression is put together; definitions, assignments and
what belongs to their headers are marked.
-/

namespace Docsmith.Source.Python

open Syntax Syntax.Grammar

/-- The marked parts. -/
inductive Label where
  | type
  | function
  | decorated
  | decorator
  | target
  | call
  | name
  | bases
  | parameters
  | parameter
  | result
  | body
  | expression
  | assignment
  | typeHint
  | value
  | compound
  | simple
  deriving DecidableEq, Repr

/-- The rules of the grammar. -/
inductive Rule where
  | unit | statement | simpleLine | simple | suite
  | type | function | decorated | decorator | typeParameters | parameters | parameter
  | ifStatement | whileStatement | forStatement | tryStatement | withStatement | withItem
  | matchStatement | caseClause | patterns | pattern | closedPattern | patternArgument
  | expressionStatement | assignmentTail | value | yieldValue
  | importName | imported
  | expressions | starred | named | expression | operation | unary | suffixed | atom | trailer
  | arguments | argument | subscripts | subscript | comprehension | loopTargets | loopTarget
  | lambdaParameter | entry
  deriving DecidableEq, Repr

/-- A piece of this grammar. -/
abbrev Part := Syntax.Grammar Label Rule

/-- Words that are no names. -/
def reserved : List String :=
  ["and", "as", "assert", "break", "class", "continue", "def", "del", "elif", "else", "except",
    "finally", "for", "from", "global", "if", "import", "in", "is", "lambda", "nonlocal", "not",
    "or", "pass", "raise", "return", "try", "while", "with", "yield", "True", "False", "None"]

/-- A name. -/
def ident : Part :=
  let chars := reserved.map (·.toList)
  .token fun t => t.kind == .word && !chars.contains t.text

/-- A name that is marked. -/
def name : Part :=
  .node .name ident

/-- The end of a line. -/
def newline : Part :=
  ofKind .newline

/-- A list with commas between its members and perhaps behind them. -/
def listOf (part : Part) : Part :=
  seq [commaList part, opt (symbol ",")]

/-- A name with qualifiers. -/
def dotted : Part :=
  .both ident (.many (seq [symbol ".", ident]))

/-- An operator between two operands. -/
def binaryOperator : Part :=
  oneOf [
    symbols ["+", "-", "*", "/", "//", "%", "@", "**", "<<", ">>", "&", "|", "^", "<", ">", "==",
      "!=", "<>", "<=", ">="],
    seq [word "not", word "in"],
    seq [word "is", opt (word "not")],
    words ["and", "or", "in"]]

/-- The operators that combine a target with a value. -/
def augmented : List String :=
  ["+=", "-=", "*=", "/=", "//=", "%=", "@=", "&=", "|=", "^=", ">>=", "<<=", "**="]

/-- Members with commas between them, or one member for each round of a
loop. -/
def collected (part : Part) : Part :=
  seq [part, .either (.rule .comprehension)
    (seq [.many (seq [symbol ",", part]), opt (symbol ",")])]

/-- A block behind a header. -/
def blockOf (header : List Part) : Part :=
  seq (header ++ [symbol ":", .node .body (.rule .suite)])

/-- The grammar of each rule. -/
def rules : Rule → Part
  | .unit => .many (.rule .statement)
  | .statement => oneOf [
      .rule .type, .rule .function, .rule .decorated,
      .node .compound (oneOf [.rule .ifStatement, .rule .whileStatement, .rule .forStatement,
        .rule .tryStatement, .rule .withStatement, .rule .matchStatement]),
      .rule .simpleLine]
  | .simpleLine => seq [.rule .simple, .many (seq [symbol ";", .rule .simple]), opt (symbol ";"),
      newline]
  | .suite => oneOf [
      .rule .simpleLine,
      seq [newline, ofKind .indent, .many (.rule .statement), ofKind .dedent],
      newline]
  | .type => .node .type (blockOf [word "class", name, opt (.rule .typeParameters),
      opt (.node .bases (.rule .arguments))])
  | .function => .node .function (blockOf [opt (word "async"), word "def", name,
      opt (.rule .typeParameters), .node .parameters (.rule .parameters),
      opt (seq [symbol "->", .node .result (.rule .starred)])])
  | .decorated => .node .decorated (seq [.rule .decorator, .many (.rule .decorator),
      .either (.rule .type) (.rule .function)])
  | .decorator => .node .decorator (seq [symbol "@", .either
      (seq [.node .target (seq [.rule .atom, .many (.either (.node .call (.rule .arguments))
        (.rule .trailer))]), newline])
      (seq [.node .target (.rule .named), newline])])
  | .typeParameters =>
    let bound := seq [opt (seq [symbol ":", .rule .expression]),
      opt (seq [symbol "=", .rule .starred])]
    seq [symbol "[", listOf (seq [opt (symbols ["*", "**"]), ident, bound]), symbol "]"]
  | .parameters => seq [symbol "(", opt (listOf (.node .parameter (.rule .parameter))), symbol ")"]
  | .parameter =>
    let typed := seq [symbol ":", .rule .starred]
    oneOf [
      seq [symbols ["*", "**"], ident, opt typed],
      symbols ["*", "/"],
      seq [ident, opt typed, opt (seq [symbol "=", .rule .expression])],
      seq [symbol "(", listOf (.rule .parameter), symbol ")"]]
  | .ifStatement => seq [blockOf [word "if", .rule .named],
      .many (blockOf [word "elif", .rule .named]), opt (blockOf [word "else"])]
  | .whileStatement => seq [blockOf [word "while", .rule .named], opt (blockOf [word "else"])]
  | .forStatement => seq [blockOf [opt (word "async"), word "for", .rule .loopTargets, word "in",
      .rule .expressions], opt (blockOf [word "else"])]
  | .tryStatement =>
    let handler := blockOf [word "except", opt (symbol "*"), opt (seq [.rule .expressions,
      opt (seq [word "as", .rule .expression])])]
    let finally_ := blockOf [word "finally"]
    seq [blockOf [word "try"], .either
      (seq [handler, .many handler, opt (blockOf [word "else"]), opt finally_]) finally_]
  | .withStatement => .either
      (blockOf [opt (word "async"), word "with", symbol "(", listOf (.rule .withItem), symbol ")"])
      (blockOf [opt (word "async"), word "with", listOf (.rule .withItem)])
  | .withItem => seq [.rule .named, opt (seq [word "as", .rule .loopTarget])]
  | .matchStatement => seq [word "match", .rule .expressions, symbol ":", newline,
      ofKind .indent, .many (.rule .caseClause), ofKind .dedent]
  | .caseClause => blockOf [word "case", .rule .patterns, opt (seq [word "if", .rule .named])]
  | .patterns => listOf (.rule .pattern)
  | .pattern => seq [.rule .closedPattern, .many (seq [symbol "|", .rule .closedPattern]),
      opt (seq [word "as", ident])]
  | .closedPattern =>
    let number := seq [opt (symbol "-"), ofKind .number, opt (seq [symbols ["+", "-"],
      ofKind .number])]
    oneOf [
      number,
      seq [ofKind .string, .many (ofKind .string)],
      words ["None", "True", "False"],
      seq [symbols ["*", "**"], ident],
      seq [dotted, opt (seq [symbol "(", opt (listOf (.rule .patternArgument)), symbol ")"])],
      seq [symbol "(", opt (.rule .patterns), symbol ")"],
      seq [symbol "[", opt (.rule .patterns), symbol "]"],
      seq [symbol "\x7b", opt (listOf (.either (seq [symbol "**", ident])
        (seq [.rule .closedPattern, symbol ":", .rule .pattern]))), symbol "\x7d"]]
  | .patternArgument => .either (seq [ident, symbol "=", .rule .pattern]) (.rule .pattern)
  | .simple => .either (.node .simple (seq [oneOf [
        words ["pass", "break", "continue"],
        seq [word "return", opt (.rule .expressions)],
        seq [word "raise", opt (seq [.rule .expressions,
          opt (seq [word "from", .rule .expression])])],
        seq [word "del", .rule .expressions],
        seq [words ["global", "nonlocal"], commaList ident],
        seq [word "assert", commaList (.rule .expression)],
        seq [word "import", commaList (.rule .importName)],
        seq [word "from", .either
            (seq [.many (symbols [".", "..."]), dotted])
            (seq [symbols [".", "..."], .many (symbols [".", "..."])]),
          word "import", .rule .imported],
        seq [word "type", ident, opt (.rule .typeParameters), symbol "=", .rule .expression]],
      .ahead (.either newline (symbol ";"))]))
      (.either
        (seq [.node .expression (.rule .expressionStatement),
          .ahead (.either newline (symbol ";"))])
        (.node .simple (seq [word "print", .rule .expressions])))
  | .importName => seq [dotted, opt (seq [word "as", ident])]
  | .imported => oneOf [
      symbol "*",
      seq [symbol "(", listOf (.rule .importName), symbol ")"],
      commaList (.rule .importName)]
  | .expressionStatement => oneOf [
      .node .assignment (seq [name, .rule .assignmentTail]),
      .rule .yieldValue,
      seq [.rule .expressions, opt (.either (.rule .assignmentTail)
        (seq [symbols augmented, .rule .value]))]]
  | .assignmentTail => .either
      (seq [symbol ":", .node .typeHint (.rule .starred),
        opt (seq [symbol "=", .node .value (.rule .value)])])
      (seq [symbol "=", .node .value (.rule .value)])
  | .value => .either (.rule .yieldValue)
      (seq [.rule .expressions, opt (seq [symbols ("=" :: augmented), .rule .value])])
  | .yieldValue => seq [word "yield", .either (seq [word "from", .rule .expression])
      (opt (.rule .expressions))]
  | .expressions => listOf (.rule .starred)
  | .starred => seq [opt (symbol "*"), .rule .named]
  | .named => .either (seq [ident, symbol ":=", .rule .expression]) (.rule .expression)
  | .expression => .either
      (seq [word "lambda", opt (listOf (.rule .lambdaParameter)), symbol ":", .rule .expression])
      (seq [.rule .operation, opt (seq [word "if", .rule .operation, word "else",
        .rule .expression])])
  | .lambdaParameter => oneOf [
      seq [symbols ["*", "**"], ident],
      symbols ["*", "/"],
      seq [ident, opt (seq [symbol "=", .rule .expression])]]
  | .operation => seq [.rule .unary, .many (seq [binaryOperator, .rule .unary])]
  | .unary => oneOf [
      seq [word "not", .rule .unary],
      seq [symbols ["+", "-", "~"], .rule .unary],
      seq [word "await", .rule .unary],
      seq [.ahead (word "lambda"), .rule .expression],
      .rule .suffixed]
  | .suffixed => seq [.rule .atom, .many (.rule .trailer)]
  | .atom => oneOf [
      ident, ofKind .number,
      seq [ofKind .string, .many (ofKind .string)],
      words ["None", "True", "False"], symbol "...",
      seq [symbol "(", opt (.either (.rule .yieldValue) (collected (.rule .starred))), symbol ")"],
      seq [symbol "[", opt (collected (.rule .starred)), symbol "]"],
      seq [symbol "\x7b", opt (collected (.rule .entry)), symbol "\x7d"]]
  | .entry => .either (seq [symbol "**", .rule .operation])
      (seq [.rule .starred, opt (seq [symbol ":", .rule .expression])])
  | .trailer => oneOf [
      seq [symbol ".", ident],
      .rule .arguments,
      seq [symbol "[", .rule .subscripts, symbol "]"]]
  | .arguments => seq [symbol "(", opt (listOf (.rule .argument)), symbol ")"]
  | .argument => oneOf [
      seq [symbols ["*", "**"], .rule .expression],
      seq [ident, symbol "=", .rule .expression],
      seq [.rule .named, opt (.rule .comprehension)]]
  | .subscripts => listOf (.rule .subscript)
  | .subscript =>
    let bounds := seq [symbol ":", opt (.rule .expression),
      opt (seq [symbol ":", opt (.rule .expression)])]
    .either bounds (seq [.rule .starred, opt bounds])
  | .comprehension =>
    let loop := seq [opt (word "async"), word "for", .rule .loopTargets, word "in",
      .rule .operation, opt (seq [word "if", .rule .operation, word "else", .rule .expression])]
    let filter := seq [word "if", .either (seq [ident, symbol ":=", .rule .operation])
      (.either (seq [.ahead (word "lambda"), .rule .expression]) (.rule .operation))]
    seq [loop, .many (.either loop filter)]
  | .loopTargets => listOf (.rule .loopTarget)
  | .loopTarget => seq [opt (symbol "*"), .rule .suffixed]

end Docsmith.Source.Python

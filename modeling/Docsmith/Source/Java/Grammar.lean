import Docsmith.Source.Syntax.Grammar
/-!
# Java — the grammar

Declarations, statements and expressions. Operators are not ranked, for
no answer depends on how an expression is put together; declarations and
what belongs to their headers are marked.
-/

namespace Docsmith.Source.Java

open Syntax Syntax.Grammar

/-- The marked parts. -/
inductive Label where
  | package
  | name
  | type
  | record
  | modifiers
  | annotationMark
  | body
  | method
  | field
  | valueType
  | declarator
  | parameters
  | parameter
  | spread
  | enumConstant
  | code
  deriving DecidableEq, Repr

/-- The rules of the grammar. -/
inductive Rule where
  | unit | topLevel
  | annotationMark | annotationValue | modifiers
  | classType | type | dims | typeArguments | typeArgument | typeParameters
  | typeDeclaration | classBody | member | interfaceBody | interfaceMember | annotationBody
  | annotationMember | enumBody | enumConstant | method | constructor | field | declarators
  | declarator | parameters | parameter | throws
  | block | statement | localVariables | switchBody | caseLabel | pattern | resource
  | expression | operation | unary | suffixed | primary | selector | arguments | creator
  | arrayInit | lambda | balanced
  deriving DecidableEq, Repr

/-- A piece of this grammar. -/
abbrev Part := Syntax.Grammar Label Rule

/-- Words that are no names. -/
def reserved : List String :=
  ["abstract", "assert", "boolean", "break", "byte", "case", "catch", "char", "class", "const",
    "continue", "default", "do", "double", "else", "enum", "extends", "final", "finally", "float",
    "for", "goto", "if", "implements", "import", "instanceof", "int", "interface", "long",
    "native", "new", "package", "private", "protected", "public", "return", "short", "static",
    "strictfp", "super", "switch", "synchronized", "this", "throw", "throws", "transient", "try",
    "void", "volatile", "while", "true", "false", "null"]

/-- A name. -/
def ident : Part :=
  let chars := reserved.map (·.toList)
  .token fun t => t.kind == .word && !chars.contains t.text

/-- A name that is marked. -/
def name : Part :=
  .node .name ident

/-- A name with qualifiers. -/
def qualified : Part :=
  .both ident (.many (seq [symbol ".", ident]))

/-- A part in parentheses. -/
def inParens (part : Part) : Part :=
  seq [symbol "(", part, symbol ")"]

/-- A part in braces. -/
def inBraces (part : Part) : Part :=
  seq [symbol "\x7b", part, symbol "\x7d"]

/-- Annotations. -/
def annotations : Part :=
  .many (.rule .annotationMark)

/-- The types of primitive values. -/
def primitive : Part :=
  words ["boolean", "byte", "char", "double", "float", "int", "long", "short", "void"]

/-- A declaration after its modifiers, which may be missing. -/
def modified (part : Part) : Part :=
  .both (opt (.rule .modifiers)) part

/-- A list of types. -/
def typeList : Part :=
  commaList (.rule .type)

/-- An operator between two operands. -/
def binaryOperator : Part :=
  oneOf [
    symbols ["=", "+=", "-=", "*=", "/=", "%=", "&=", "|=", "^=", "<<=", "||", "&&", "|", "^",
      "&", "==", "!=", "<", "<=", ">=", "<<", "+", "-", "*", "/", "%"],
    seq [symbol ">", symbol ">", symbol ">="],
    seq [symbol ">", symbol ">="],
    seq [symbol ">", symbol ">", symbol ">"],
    seq [symbol ">", symbol ">"],
    symbol ">"]

/-- The start of an operand behind a cast to a class. -/
def castOperand : Part :=
  oneOf [ident, words ["this", "super", "new", "switch", "true", "false", "null", "boolean",
    "byte", "char", "double", "float", "int", "long", "short", "void"], ofKind .string,
    ofKind .number, symbols ["(", "!", "~", "@"]]

/-- Super types behind a word. -/
def superTypes (keyword : String) : Part :=
  opt (seq [word keyword, typeList])

/-- The grammar of each rule. -/
def rules : Rule → Part
  | .unit => .many (.rule .topLevel)
  | .topLevel => oneOf [
      .node .package (seq [annotations, word "package", .node .name qualified, symbol ";"]),
      seq [word "import", opt (word "static"), qualified, opt (seq [symbol ".", symbol "*"]),
        symbol ";"],
      seq [annotations, opt (word "open"), word "module", qualified,
        inBraces (.many (.token fun t => t.text != ['\x7b'] && t.text != ['\x7d']))],
      .rule .typeDeclaration, .rule .method, .node .code (.rule .statement)]
  | .annotationMark => .node .annotationMark (seq [symbol "@", .node .name qualified,
      opt (inParens (opt (commaList (.rule .annotationValue))))])
  | .annotationValue => oneOf [
      seq [ident, symbol "=", .rule .annotationValue],
      .rule .annotationMark,
      inBraces (seq [opt (commaList (.rule .annotationValue)), opt (symbol ",")]),
      .rule .expression]
  | .modifiers =>
    let modifier := oneOf [.rule .annotationMark,
      words ["public", "protected", "private", "abstract", "static", "final", "strictfp",
        "default", "synchronized", "native", "transient", "volatile"],
      seq [word "non", symbol "-", word "sealed"],
      seq [word "sealed", .ahead (oneOf [ofKind .word, symbol "@"])]]
    .node .modifiers (.both modifier (.many modifier))
  | .classType => seq [annotations, ident, opt (.rule .typeArguments),
      .many (seq [symbol ".", annotations, ident, opt (.rule .typeArguments)])]
  | .type => seq [annotations, .either primitive (.rule .classType), .rule .dims]
  | .dims => .many (seq [annotations, symbol "[", symbol "]"])
  | .typeArguments => seq [symbol "<", opt (commaList (.rule .typeArgument)), symbol ">"]
  | .typeArgument => oneOf [
      seq [annotations, symbol "?", opt (seq [words ["extends", "super"], .rule .type])],
      .rule .type]
  | .typeParameters =>
    let bound := seq [word "extends", .rule .type, .many (seq [symbol "&", .rule .type])]
    seq [symbol "<", commaList (seq [annotations, ident, opt bound]), symbol ">"]
  | .typeDeclaration => .node .type <| modified <| oneOf [
      seq [word "class", name, opt (.rule .typeParameters), opt (seq [word "extends", .rule .type]),
        superTypes "implements", superTypes "permits", .node .body (.rule .classBody)],
      seq [word "interface", name, opt (.rule .typeParameters), superTypes "extends",
        superTypes "permits", .node .body (.rule .interfaceBody)],
      seq [word "enum", name, superTypes "implements", .node .body (.rule .enumBody)],
      seq [.node .record (word "record"), name, opt (.rule .typeParameters), .rule .parameters,
        superTypes "implements", .node .body (.rule .classBody)],
      seq [symbol "@", word "interface", name, .node .body (.rule .annotationBody)]]
  | .classBody => inBraces (.many (.rule .member))
  | .member => oneOf [
      symbol ";", .rule .typeDeclaration, .rule .method, .rule .constructor, .rule .field,
      seq [opt (.rule .modifiers), ident, .rule .block],
      seq [opt (word "static"), .rule .block]]
  | .interfaceBody => inBraces (.many (.rule .interfaceMember))
  | .interfaceMember => oneOf [symbol ";", .rule .typeDeclaration, .rule .method, .rule .field]
  | .annotationBody => inBraces (.many (.rule .annotationMember))
  | .annotationMember => oneOf [
      symbol ";", .rule .typeDeclaration,
      seq [opt (.rule .modifiers), .rule .type, ident, symbol "(", symbol ")", .rule .dims,
        opt (seq [word "default", .rule .annotationValue]), symbol ";"],
      .rule .field]
  | .enumBody => inBraces (seq [opt (commaList (.rule .enumConstant)), opt (symbol ","),
      opt (seq [symbol ";", .many (.rule .member)])])
  | .enumConstant => .node .enumConstant (seq [opt (.rule .modifiers), ident,
      opt (.rule .arguments), opt (.rule .classBody)])
  | .method => .node .method (modified (seq [opt (seq [.rule .typeParameters, annotations]),
      .rule .type, name, .rule .parameters, .rule .dims, opt (.rule .throws),
      .either (.node .body (.rule .block)) (symbol ";")]))
  | .constructor => .node .method (modified (seq [opt (.rule .typeParameters), name,
      .rule .parameters, opt (.rule .throws), .node .body (.rule .block)]))
  | .field => .node .field (modified (seq [.node .valueType (.rule .type), .rule .declarators,
      symbol ";"]))
  | .declarators => commaList (.rule .declarator)
  | .declarator => .node .declarator (seq [name, .rule .dims,
      opt (seq [symbol "=", .either (.rule .arrayInit) (.rule .expression)])])
  | .parameters =>
    let receiver := seq [annotations, .rule .type, opt (seq [qualified, symbol "."]), word "this"]
    .node .parameters (inParens (.either
      (seq [receiver, .many (seq [symbol ",", .rule .parameter])])
      (opt (commaList (.rule .parameter)))))
  | .parameter => .either
      (.node .parameter (modified (seq [.node .valueType (.rule .type), name, .rule .dims])))
      (.node .spread (modified (seq [.rule .type, annotations, symbol "...", name, .rule .dims])))
  | .throws => seq [word "throws", typeList]
  | .block => .node .code (inBraces (.many (.rule .statement)))
  | .statement => oneOf [
      symbol ";", .rule .block,
      seq [.rule .typeDeclaration],
      seq [word "if", inParens (.rule .expression), .rule .statement,
        opt (seq [word "else", .rule .statement])],
      seq [word "for", inParens (.either
        (seq [opt (.rule .modifiers), .rule .type, ident, .rule .dims, symbol ":",
          .rule .expression])
        (seq [.either (.rule .localVariables)
            (seq [opt (commaList (.rule .expression)), symbol ";"]),
          opt (.rule .expression), symbol ";", opt (commaList (.rule .expression))])),
        .rule .statement],
      seq [word "while", inParens (.rule .expression), .rule .statement],
      seq [word "do", .rule .statement, word "while", inParens (.rule .expression), symbol ";"],
      seq [word "try", opt (inParens (seq [.rule .resource,
          .many (seq [symbol ";", .rule .resource]), opt (symbol ";")])), .rule .block,
        .many (seq [word "catch", inParens (seq [opt (.rule .modifiers), .rule .type,
          .many (seq [symbol "|", .rule .type]), ident]), .rule .block]),
        opt (seq [word "finally", .rule .block])],
      seq [word "switch", inParens (.rule .expression), .rule .switchBody],
      seq [word "synchronized", inParens (.rule .expression), .rule .block],
      seq [word "return", opt (.rule .expression), symbol ";"],
      seq [word "throw", .rule .expression, symbol ";"],
      seq [words ["break", "continue"], opt ident, symbol ";"],
      seq [word "assert", .rule .expression, opt (seq [symbol ":", .rule .expression]),
        symbol ";"],
      seq [ident, symbol ":", .rule .statement],
      .rule .localVariables,
      seq [word "yield", .rule .expression, symbol ";"],
      seq [.absent (word "switch"), .rule .expression, symbol ";"]]
  | .localVariables => seq [opt (.rule .modifiers), .rule .type, .rule .declarators, symbol ";"]
  | .switchBody => inBraces (.many (.either
      (seq [.rule .caseLabel, symbol "->", oneOf [.rule .block,
        seq [word "throw", .rule .expression, symbol ";"],
        seq [.rule .expression, symbol ";"]]])
      (seq [.rule .caseLabel, symbol ":", .many (.rule .statement)])))
  | .caseLabel =>
    let item := oneOf [seq [.rule .pattern, opt (seq [word "when", .rule .operation])],
      word "default", .rule .operation]
    .either (word "default") (seq [word "case", commaList item])
  | .pattern => .either
      (seq [opt (word "final"), .rule .type, ident,
        .absent (symbol "(")])
      (seq [.rule .classType, inParens (opt (commaList (.rule .pattern))), opt ident,
        .absent (symbols [".", "["])])
  | .resource => .either
      (seq [opt (.rule .modifiers), .rule .type, ident, .rule .dims, symbol "=", .rule .expression])
      (.rule .suffixed)
  | .expression => .either (.rule .lambda) (.rule .operation)
  | .operation => seq [.rule .unary, .many (oneOf [
      seq [word "instanceof", .either (.rule .pattern) (seq [opt (word "final"), .rule .type])],
      seq [symbol "?", .rule .expression, symbol ":", .rule .expression],
      seq [binaryOperator, .either (.rule .lambda) (.rule .unary)]])]
  | .unary => oneOf [
      seq [symbols ["+", "-", "!", "~", "++", "--"], .rule .unary],
      seq [symbol "(", .either (seq [primitive, .rule .dims, symbol ")"])
          (seq [.rule .type, .many (seq [symbol "&", .rule .type]), symbol ")",
            .ahead castOperand]), .either (.rule .lambda) (.rule .unary)],
      .rule .suffixed]
  | .suffixed => seq [.rule .primary, .many (.rule .selector), .many (symbols ["++", "--"])]
  | .primary => oneOf [
      ofKind .string, ofKind .number, words ["true", "false", "null", "this", "super"],
      seq [word "new", .rule .creator],
      seq [word "switch", inParens (.rule .expression), .rule .switchBody],
      inParens (.rule .expression),
      seq [.rule .type, .ahead (symbol "::")],
      seq [.rule .type, symbol ".", word "class"],
      ident]
  | .selector => oneOf [
      seq [symbol ".", oneOf [
        seq [opt (.rule .typeArguments), ident],
        words ["this", "super", "class"],
        seq [word "new", .rule .creator],
        ofKind .string]],
      .rule .arguments,
      seq [symbol "[", .rule .expression, symbol "]"],
      seq [symbol "::", opt (.rule .typeArguments), .either ident (word "new")]]
  | .arguments => inParens (opt (commaList (.rule .expression)))
  | .creator => seq [opt (.rule .typeArguments), annotations, .either primitive (.rule .classType),
      .either
        (seq [.rule .arguments, opt (.rule .classBody)])
        (.either
          (seq [annotations, symbol "[", symbol "]", .rule .dims, .rule .arrayInit])
          (seq [annotations, symbol "[", .rule .expression, symbol "]",
            .many (seq [annotations, symbol "[", .rule .expression, symbol "]"]), .rule .dims]))]
  | .arrayInit => inBraces (seq [opt (commaList (.either (.rule .arrayInit) (.rule .expression))),
      opt (symbol ",")])
  | .lambda => seq [
      .either (seq [ident, symbol "->"])
        (seq [.ahead (seq [.rule .balanced, symbol "->"]),
          .either (inParens (opt (commaList ident))) (.rule .parameters), symbol "->"]),
      .either (.rule .block) (.rule .expression)]
  | .balanced => inParens (.many (.either (.rule .balanced)
      (.token fun t => t.text != ['('] && t.text != [')'])))

end Docsmith.Source.Java

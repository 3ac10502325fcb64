import Docsmith.Proofs.Source.PythonHeader
import Docsmith.Proofs.Source.Runs
import Docsmith.Source.Python.Grammar
/-!
# Python — what is open inside an expression

Brackets stay open up to the bracket that closes them, and a lambda up to its colon
(`nest`). An expression closes all that it opens, and no comma stands in it on the
outside; so it is with every rule that an expression is put together by, some of which
stand inside brackets only (`Stays`, `moves_rules`). So a parameter ends before the
first comma or parenthesis on the outside (`run_parameter`), and where it ends is settled
by the tokens (`segment_unique`).

How deep in brackets a text is can be told by its characters (`depth`), and what is open
between its tokens by the grammar (`nest`). Of brackets both count the same
(`count_of_nest`). So in a text that closes its brackets and has no comma outside them, no
parameter ends early (`AreNested.nest_ne_none`), and none goes on behind it
(`AreNested.not_inside`).
-/

namespace Docsmith.Source.Python

open Syntax Syntax.Grammar

/-- What waits to be closed. -/
inductive Opened where
  | bracket
  | lambda
  deriving DecidableEq, Repr

/-- What is open at a place, the innermost first. -/
abbrev Nest := List Opened

/-- What is open behind a closing bracket, which closes a bracket only. -/
def afterBracket? : Nest → Option Nest
  | .bracket :: outer => some outer
  | _ => none

/-- What is open behind a colon, which closes a lambda if that is the innermost. -/
def afterColon : Nest → Nest
  | .lambda :: outer => outer
  | open_ => open_

/-- What is open behind a token; a comma stands inside something. -/
def nest (open_ : Nest) (t : Token) : Option Nest :=
  if t.kind = .symbol then
    if [['('], ['['], ['\x7b']].contains t.text then some (.bracket :: open_)
    else if [[')'], [']'], ['\x7d']].contains t.text then afterBracket? open_
    else if t.text = [','] then if open_ = [] then none else some open_
    else if t.text = [':'] then some (afterColon open_)
    else some open_
  else if t.kind = .word ∧ t.text = ['l', 'a', 'm', 'b', 'd', 'a'] then some (.lambda :: open_)
  else some open_

/-- The places where a rule closes all that it opens: anywhere, inside a bracket, or
anywhere but in front of a lambda's colon. -/
def Stays : Rule → Nest → Prop
  | .starred, _ | .named, _ | .expression, _ | .operation, _ | .unary, _ | .suffixed, _
  | .atom, _ | .trailer, _ | .arguments, _ | .lambdaParameter, _ | .loopTarget, _ => True
  | .yieldValue, open_ | .expressions, open_ | .argument, open_ | .subscripts, open_
  | .subscript, open_ | .comprehension, open_ | .loopTargets, open_ | .entry, open_ =>
    open_.head? = some .bracket
  | .parameter, open_ => open_.head? ≠ some .lambda
  | _, _ => False

/-- Over what a piece of the grammar reads. -/
abbrev Goes (part : Part) (before after : Nest) : Prop :=
  Moves nest Stays part before after

/-! ## Tokens -/

variable {open_ : Nest} {part : Part} {text : String}

/-- What is open behind tokens is told by what they are. -/
theorem run_congr {segment segment' : List Token}
    (h : segment.map (fun t => (t.kind, t.text)) = segment'.map fun t => (t.kind, t.text)) :
    segment.foldlM nest open_ = segment'.foldlM nest open_ := by
  induction segment generalizing segment' open_ with
  | nil => rw [List.map_eq_nil_iff.1 h.symm]
  | cons t segment ih =>
    obtain ⟨u, segment', rfl, hlook, h⟩ := List.map_eq_cons_iff.1 h.symm
    obtain ⟨hkind, htext⟩ := Prod.mk.inj hlook
    have hnest : nest open_ t = nest open_ u := by rw [nest, nest, hkind, htext]
    rw [List.foldlM_cons, List.foldlM_cons, hnest]
    exact bind_congr fun open_ => ih h.symm

/-- The symbols that open or close, the comma and the colon. -/
def nesting : List (List Char) :=
  [['('], ['['], ['\x7b'], [')'], [']'], ['\x7d'], [','], [':']]

theorem nest_of_not_mem {t : Token} (hkind : t.kind = .symbol) (htext : t.text ∉ nesting) :
    nest open_ t = some open_ := by
  simp only [nesting, List.mem_cons, List.not_mem_nil, or_false, not_or] at htext
  obtain ⟨h1, h2, h3, h4, h5, h6, h7, h8⟩ := htext
  simp [nest, hkind, h1, h2, h3, h4, h5, h6, h7, h8]

/-- Other symbols change nothing. -/
theorem goes_symbols {texts : List String} (h : ∀ text ∈ texts, text.toList ∉ nesting) :
    Goes (symbols texts) open_ open_ :=
  .token fun t ht => by
    simp only [Bool.and_eq_true, beq_iff_eq, List.contains_iff_mem, List.mem_map] at ht
    obtain ⟨hkind, text, htext, heq⟩ := ht
    exact nest_of_not_mem hkind (heq ▸ h text htext)

theorem goes_symbol (h : text.toList ∉ nesting) : Goes (symbol text) open_ open_ :=
  .token fun t ht => by
    simp only [Bool.and_eq_true, beq_iff_eq] at ht
    exact nest_of_not_mem ht.1 (ht.2 ▸ h)

theorem nest_open {t : Token} (hkind : t.kind = .symbol)
    (htext : t.text ∈ [['('], ['['], ['\x7b']]) : nest open_ t = some (.bracket :: open_) := by
  rw [nest, if_pos hkind, if_pos (List.contains_iff_mem.2 htext)]

theorem nest_close {t : Token} (hkind : t.kind = .symbol)
    (htext : t.text ∈ [[')'], [']'], ['\x7d']]) : nest open_ t = afterBracket? open_ := by
  have hnot : t.text ∉ [['('], ['['], ['\x7b']] := by
    revert htext
    generalize t.text = chars
    simp only [List.mem_cons, List.not_mem_nil, or_false]
    rintro (rfl | rfl | rfl) <;> decide
  rw [nest, if_pos hkind, if_neg (mt List.contains_iff_mem.1 hnot),
    if_pos (List.contains_iff_mem.2 htext)]

theorem goes_open (h : text.toList ∈ [['('], ['['], ['\x7b']]) :
    Goes (symbol text) open_ (.bracket :: open_) :=
  .token fun t ht => by
    simp only [Bool.and_eq_true, beq_iff_eq] at ht
    exact nest_open ht.1 (ht.2 ▸ h)

theorem goes_close (h : text.toList ∈ [[')'], [']'], ['\x7d']]) :
    Goes (symbol text) (.bracket :: open_) open_ :=
  .token fun t ht => by
    simp only [Bool.and_eq_true, beq_iff_eq] at ht
    exact nest_close ht.1 (ht.2 ▸ h)

theorem nest_comma {t : Token} (hkind : t.kind = .symbol) (htext : t.text = [',']) :
    nest open_ t = if open_ = [] then none else some open_ := by
  rw [nest, if_pos hkind, htext]
  rfl

theorem goes_comma (h : open_ ≠ []) : Goes (symbol ",") open_ open_ :=
  .token fun t ht => by
    simp only [Bool.and_eq_true, beq_iff_eq] at ht
    rw [nest_comma ht.1 ht.2, if_neg h]

theorem goes_colon (h : open_.head? ≠ some .lambda) : Goes (symbol ":") open_ open_ :=
  .token fun t ht => by
    simp only [Bool.and_eq_true, beq_iff_eq] at ht
    have htext : t.text = [':'] := ht.2
    rw [nest, if_pos ht.1, htext]
    rcases open_ with _ | ⟨_ | _, _⟩
    · rfl
    · rfl
    · exact absurd rfl h

theorem goes_lambda_colon : Goes (symbol ":") (.lambda :: open_) open_ :=
  .token fun t ht => by
    simp only [Bool.and_eq_true, beq_iff_eq] at ht
    have htext : t.text = [':'] := ht.2
    rw [nest, if_pos ht.1, htext]
    rfl

theorem nest_of_kind {t : Token} (hsymbol : t.kind ≠ .symbol)
    (hword : t.kind = .word → t.text ≠ ['l', 'a', 'm', 'b', 'd', 'a']) :
    nest open_ t = some open_ := by
  rw [nest, if_neg hsymbol, if_neg fun h => hword h.1 h.2]

theorem goes_words {texts : List String} (h : "lambda" ∉ texts) : Goes (words texts) open_ open_ :=
  .token fun t ht => by
    simp only [Bool.and_eq_true, beq_iff_eq, List.contains_iff_mem, List.mem_map] at ht
    obtain ⟨hkind, text, htext, heq⟩ := ht
    refine nest_of_kind (by simp [hkind]) fun _ hlambda => h ?_
    rw [hlambda] at heq
    rwa [show text = "lambda" from String.toList_inj.1 heq] at htext

theorem goes_word (h : text ≠ "lambda") : Goes (word text) open_ open_ :=
  .token fun t ht => by
    simp only [Bool.and_eq_true, beq_iff_eq] at ht
    refine nest_of_kind (by simp [ht.1]) fun _ hlambda => h ?_
    exact String.toList_inj.1 (ht.2.symm.trans hlambda)

theorem goes_lambda : Goes (word "lambda") open_ (.lambda :: open_) :=
  .token fun t ht => by
    simp only [Bool.and_eq_true, beq_iff_eq] at ht
    rw [nest, if_neg (by simp [ht.1]), if_pos ⟨ht.1, ht.2⟩]

theorem goes_ident : Goes ident open_ open_ :=
  .token fun t ht => by
    simp only [Bool.and_eq_true, beq_iff_eq, Bool.not_eq_true'] at ht
    refine nest_of_kind (by simp [ht.1]) fun _ hlambda => ?_
    rw [hlambda] at ht
    exact absurd ht.2 (by decide)

theorem goes_literal {kind : Token.Kind} (hsymbol : kind ≠ .symbol) (hword : kind ≠ .word) :
    Goes (ofKind kind) open_ open_ :=
  .token fun t ht => by
    have hkind : t.kind = kind := beq_iff_eq.1 ht
    exact nest_of_kind (hkind ▸ hsymbol) fun h => absurd (hkind.symm.trans h) hword

/-! ## Rules -/

theorem goes_listOf (h : open_ ≠ []) (hpart : Goes part open_ open_) :
    Goes (listOf part) open_ open_ :=
  .both (.commaList hpart (goes_comma h)) (.opt (goes_comma h))

/-- What stands between brackets is inside one. -/
theorem goes_bracketed {left right : String} (hleft : left.toList ∈ [['('], ['['], ['\x7b']])
    (hright : right.toList ∈ [[')'], [']'], ['\x7d']])
    (h : Goes part (.bracket :: open_) (.bracket :: open_)) :
    Goes (seq [symbol left, part, symbol right]) open_ open_ :=
  .both (goes_open hleft) (.both h (goes_close hright))

theorem goes_collected (hpart : Goes part (.bracket :: open_) (.bracket :: open_)) :
    Goes (collected part) (.bracket :: open_) (.bracket :: open_) :=
  have hcomma : Goes (symbol ",") (.bracket :: open_) (.bracket :: open_) :=
    goes_comma (List.cons_ne_nil _ _)
  .both hpart (.either (.rule rfl) (.both (.many (.both hcomma hpart)) (.opt hcomma)))

theorem goes_binaryOperator : Goes binaryOperator open_ open_ :=
  .either (goes_symbols (by decide)) <|
  .either (.both (goes_word (by decide)) (goes_word (by decide))) <|
  .either (.both (goes_word (by decide)) (.opt (goes_word (by decide)))) (goes_words (by decide))

/-- A condition and what holds without it. -/
theorem goes_conditional : Goes (opt (seq [word "if", .rule .operation, word "else",
    .rule .expression])) open_ open_ :=
  .opt (.both (goes_word (by decide)) (.both (.rule trivial)
    (.both (goes_word (by decide)) (.rule trivial))))

theorem goes_expression : Goes (rules .expression) open_ open_ :=
  have hlist : Goes (opt (listOf (.rule .lambdaParameter))) (.lambda :: open_) (.lambda :: open_) :=
    .opt (goes_listOf (List.cons_ne_nil _ _) (.rule trivial))
  .either (.both goes_lambda (.both hlist (.both goes_lambda_colon (.rule trivial))))
    (.both (.rule trivial) goes_conditional)

theorem goes_hasStar : Goes (opt (symbol "*")) open_ open_ :=
  .opt (goes_symbol (by decide))

/-- A value behind an equals sign. -/
theorem goes_assigned : Goes (opt (seq [symbol "=", .rule .expression])) open_ open_ :=
  .opt (.both (goes_symbol (by decide)) (.rule trivial))

/-- The rules that put expressions together by operators. -/
theorem goes_operators {name : Rule}
    (h : name ∈ [.starred, .named, .operation, .unary, .suffixed, .loopTarget]) :
    Goes (rules name) open_ open_ := by
  cases name with
  | starred | loopTarget => exact .both goes_hasStar (.rule trivial)
  | named =>
    exact .either (.both goes_ident (.both (goes_symbol (by decide)) (.rule trivial)))
      (.rule trivial)
  | operation => exact .both (.rule trivial) (.many (.both goes_binaryOperator (.rule trivial)))
  | unary =>
    exact .either (.both (goes_word (by decide)) (.rule trivial)) <|
      .either (.both (goes_symbols (by decide)) (.rule trivial)) <|
      .either (.both (goes_word (by decide)) (.rule trivial)) <|
      .either (.both .ahead (.rule trivial)) (.rule trivial)
  | suffixed => exact .both (.rule trivial) (.many (.rule trivial))
  | _ => exact absurd h (by decide)

/-- Names, literals and what stands in brackets. -/
theorem goes_atom : Goes (rules .atom) open_ open_ := by
  have hyield : Goes (.either (.rule .yieldValue) (collected (.rule .starred)))
      (.bracket :: open_) (.bracket :: open_) :=
    .either (.rule rfl) (goes_collected (.rule trivial))
  refine .either goes_ident <| .either (goes_literal (by decide) (by decide)) <|
    .either (.both (goes_literal (by decide) (by decide))
      (.many (goes_literal (by decide) (by decide)))) <|
    .either (goes_words (by decide)) <| .either (goes_symbol (by decide)) <|
    .either (goes_bracketed (by decide) (by decide) (.opt hyield)) <|
    .either (goes_bracketed (by decide) (by decide) (.opt (goes_collected (.rule trivial))))
      (goes_bracketed (by decide) (by decide) (.opt (goes_collected (.rule rfl))))

/-- What stands behind an atom: a name, arguments or subscripts. -/
theorem goes_trailer : Goes (rules .trailer) open_ open_ :=
  .either (.both (goes_symbol (by decide)) goes_ident) <|
    .either (.rule trivial) (goes_bracketed (by decide) (by decide) (.rule rfl))

theorem goes_arguments : Goes (rules .arguments) open_ open_ :=
  goes_bracketed (by decide) (by decide)
    (.opt (goes_listOf (List.cons_ne_nil _ _) (.rule rfl)))

/-- A part of a subscript, with the bounds that it may have. -/
theorem goes_subscript (h : open_.head? = some .bracket) : Goes (rules .subscript) open_ open_ := by
  have hexpression : Goes (opt (.rule .expression)) open_ open_ := .opt (.rule trivial)
  have hbound : Goes (symbol ":") open_ open_ := goes_colon (by simp [h])
  have hbounds := Moves.both hbound (.both hexpression (.opt (.both hbound hexpression)))
  exact .either hbounds (.both (.rule trivial) (.opt hbounds))

/-- The rules that stand inside brackets, where commas may. -/
theorem goes_inside (h : open_.head? = some .bracket) {name : Rule}
    (hname : name ∈ [.loopTargets, .expressions, .subscripts, .argument, .yieldValue, .entry]) :
    Goes (rules name) open_ open_ := by
  have hne : open_ ≠ [] := by
    rintro rfl
    cases h
  cases name with
  | loopTargets | expressions => exact goes_listOf hne (.rule trivial)
  | subscripts => exact goes_listOf hne (.rule h)
  | argument =>
    exact .either (.both (goes_symbols (by decide)) (.rule trivial)) <|
      .either (.both goes_ident (.both (goes_symbol (by decide)) (.rule trivial)))
        (.both (.rule trivial) (.opt (.rule h)))
  | yieldValue =>
    exact .both (goes_word (by decide))
      (.either (.both (goes_word (by decide)) (.rule trivial)) (.opt (.rule h)))
  | entry =>
    exact .either (.both (goes_symbol (by decide)) (.rule trivial))
      (.both (.rule trivial) (.opt (.both (goes_colon (by simp [h])) (.rule trivial))))
  | _ => exact absurd hname (by decide)

/-- Loops and conditions one after the other. -/
theorem goes_comprehension (h : open_.head? = some .bracket) :
    Goes (rules .comprehension) open_ open_ := by
  have hloop : Goes (seq [opt (word "async"), word "for", .rule .loopTargets, word "in",
      .rule .operation, opt (seq [word "if", .rule .operation, word "else", .rule .expression])])
      open_ open_ :=
    .both (.opt (goes_word (by decide))) (.both (goes_word (by decide)) (.both (.rule h)
      (.both (goes_word (by decide)) (.both (.rule trivial) goes_conditional))))
  have hfilter : Goes (seq [word "if", .either (seq [ident, symbol ":=", .rule .operation])
      (.either (seq [.ahead (word "lambda"), .rule .expression]) (.rule .operation))])
      open_ open_ :=
    .both (goes_word (by decide)) <|
      .either (.both goes_ident (.both (goes_symbol (by decide)) (.rule trivial))) <|
      .either (.both .ahead (.rule trivial)) (.rule trivial)
  exact .both hloop (.many (.either hloop hfilter))

theorem goes_lambdaParameter : Goes (rules .lambdaParameter) open_ open_ :=
  .either (.both (goes_symbols (by decide)) goes_ident) <|
    .either (goes_symbols (by decide)) (.both goes_ident goes_assigned)

/-- A parameter may have a type behind a colon, so it does not stand in a lambda. -/
theorem goes_parameter (h : open_.head? ≠ some .lambda) : Goes (rules .parameter) open_ open_ := by
  have htyped : Goes (opt (seq [symbol ":", .rule .starred])) open_ open_ :=
    .opt (.both (goes_colon h) (.rule trivial))
  exact .either (.both (goes_symbols (by decide)) (.both goes_ident htyped)) <|
    .either (goes_symbols (by decide)) <|
    .either (.both goes_ident (.both htyped goes_assigned)) <|
    goes_bracketed (by decide) (by decide)
      (goes_listOf (List.cons_ne_nil _ _) (.rule (by simp [Stays])))

/-- **Every rule closes all that it opens** where it stays. -/
theorem goes_rules (name : Rule) (open_ : Nest) (h : Stays name open_) :
    Goes (rules name) open_ open_ := by
  cases name with
  | starred | named | operation | unary | suffixed | loopTarget => exact goes_operators (by decide)
  | expression => exact goes_expression
  | atom => exact goes_atom
  | trailer => exact goes_trailer
  | arguments => exact goes_arguments
  | loopTargets | expressions | subscripts | argument | yieldValue | entry =>
    exact goes_inside h (by decide)
  | subscript => exact goes_subscript h
  | comprehension => exact goes_comprehension h
  | lambdaParameter => exact goes_lambdaParameter
  | parameter => exact goes_parameter h
  | _ => exact h.elim

/-! ## Parameters -/

variable {tokens rest : List Token} {trees : List (SyntaxTree Label)}

/-- **A parameter closes all that it opens**, and no comma or closing parenthesis stands in
it on the outside. -/
theorem run_parameter (h : Reads rules (.rule .parameter) tokens trees rest) :
    (SyntaxTree.leavesOf trees).foldlM nest [] = some [] :=
  h.run goes_rules (.rule (by simp [Stays]))

/-- A part that starts with a token has one. -/
theorem leavesOf_ne_nil_of_token {fits : Token → Bool} {after : Part}
    (h : Reads rules (.both (.token fits) after) tokens trees rest) :
    SyntaxTree.leavesOf trees ≠ [] := by
  cases h with
  | both hfirst _ =>
    cases hfirst with
    | token _ => simp

/-- There is something in a parameter. -/
theorem leavesOf_parameter_ne_nil (h : Reads rules (.rule .parameter) tokens trees rest) :
    SyntaxTree.leavesOf trees ≠ [] := by
  cases h with
  | rule h =>
    cases h with
    | left h => exact leavesOf_ne_nil_of_token h
    | right h =>
      cases h with
      | left h =>
        cases h with
        | token _ => simp
      | right h =>
        cases h with
        | left h => exact leavesOf_ne_nil_of_token h
        | right h => exact leavesOf_ne_nil_of_token h

/-- **Where a segment ends is settled by the tokens**: it closes all that it opens,
and the token behind it does not go on. -/
theorem segment_unique {segment segment' more more' : List Token} {stop stop' : Token}
    (h : segment.foldlM nest [] = some []) (h' : segment'.foldlM nest [] = some [])
    (hstop : nest [] stop = none) (hstop' : nest [] stop' = none)
    (heq : segment ++ stop :: more = segment' ++ stop' :: more') :
    segment = segment' ∧ stop = stop' ∧ more = more' := by
  -- neither of the two can go on behind the end of the other
  have hends : ∀ {segment extra : List Token} {stop : Token}, segment.foldlM nest [] = some [] →
      nest [] stop = none → (segment ++ stop :: extra).foldlM nest [] ≠ some [] := by
    intro segment extra stop h hstop hsome
    rw [List.foldlM_append, h] at hsome
    simp [hstop] at hsome
  rcases List.append_eq_append_iff.1 heq with ⟨extra, rfl, hextra⟩ | ⟨extra, rfl, hextra⟩
  · cases extra with
    | nil => simpa using hextra
    | cons t extra =>
      obtain ⟨rfl, -⟩ := List.cons.inj hextra
      exact absurd h' (hends h hstop)
  · cases extra with
    | nil => simpa [eq_comm] using hextra
    | cons t extra =>
      obtain ⟨rfl, -⟩ := List.cons.inj hextra
      exact absurd h (hends h' hstop')

/-! ## Brackets of a text and of its tokens -/

/-- How many square and curly brackets are open behind a character; a comma stands
inside one. -/
def depth (open_ : Nat) (c : Char) : Option Nat :=
  if c = '[' ∨ c = '\x7b' then some (open_ + 1)
  else if c = ']' ∨ c = '\x7d' then if open_ = 0 then none else some (open_ - 1)
  else if c = ',' ∧ open_ = 0 then none
  else some open_

/-- Brackets are balanced in the text, and commas stand only inside them. -/
def IsNested (text : List Char) : Prop :=
  text.foldlM depth 0 = some 0

instance (text : List Char) : Decidable (IsNested text) :=
  inferInstanceAs (Decidable (text.foldlM depth 0 = some 0))

variable {t : Token} {d : Nat}

/-- Only commas and brackets count. -/
theorem depth_of_not_stop {c : Char} (h : c ∉ stops) : depth d c = some d := by
  simp only [stops, List.mem_cons, List.not_mem_nil, or_false, not_or] at h
  obtain ⟨hcomma, -, -, hopen, hclose, hopen', hclose'⟩ := h
  simp [depth, hcomma, hopen, hclose, hopen', hclose']

theorem foldlM_depth_of_clear {text : List Char} (h : ∀ b ∈ stops, b ∉ text) :
    text.foldlM depth d = some d := by
  induction text with
  | nil => rfl
  | cons c text ih =>
    have hc : c ∉ stops := fun hmem => h c hmem List.mem_cons_self
    rw [List.foldlM_cons, depth_of_not_stop hc]
    exact ih fun b hb hmem => h b hb (List.mem_cons_of_mem _ hmem)

/-- What is neither comma nor bracket opens or closes a lambda at most. -/
theorem nest_of_clear (open_ : Nest) (h : ∀ b ∈ stops, b ∉ t.text) :
    ∃ after, nest open_ t = some after ∧ after.count .bracket = open_.count .bracket := by
  have hne : ∀ b ∈ stops, t.text ≠ [b] := fun b hb heq => h b hb (heq ▸ List.mem_singleton_self b)
  have hopen : t.text ∉ [['('], ['['], ['\x7b']] := by
    simp [hne _ (by decide : '(' ∈ stops), hne _ (by decide : '[' ∈ stops),
      hne _ (by decide : '\x7b' ∈ stops)]
  have hclose : t.text ∉ [[')'], [']'], ['\x7d']] := by
    simp [hne _ (by decide : ')' ∈ stops), hne _ (by decide : ']' ∈ stops),
      hne _ (by decide : '\x7d' ∈ stops)]
  unfold nest
  rw [if_neg (mt List.contains_iff_mem.1 hopen), if_neg (mt List.contains_iff_mem.1 hclose),
    if_neg (hne ',' (by decide))]
  split_ifs
  · refine ⟨_, rfl, ?_⟩
    rcases open_ with _ | ⟨_ | _, _⟩ <;> simp [afterColon]
  · exact ⟨_, rfl, rfl⟩
  · exact ⟨_, rfl, by simp⟩
  · exact ⟨_, rfl, rfl⟩

/-- A token of a text without parentheses. -/
structure IsBare (t : Token) : Prop where
  tidy : IsTidy t
  not_open : '(' ∉ t.text
  not_close : ')' ∉ t.text

namespace IsBare

/-- It is a bracket, a comma, or holds none. -/
theorem cases (h : IsBare t) :
    (t.kind = .symbol ∧ t.text ∈ [['['], ['\x7b']]) ∨
      (t.kind = .symbol ∧ t.text ∈ [[']'], ['\x7d']]) ∨
      (t.kind = .symbol ∧ t.text = [',']) ∨ ∀ b ∈ stops, b ∉ t.text := by
  rcases h.tidy with ⟨hkind, b, hb, htext⟩ | hclear
  · have hopen : b ≠ '(' := fun heq => h.not_open (by simp [htext, heq])
    have hclose : b ≠ ')' := fun heq => h.not_close (by simp [htext, heq])
    simp only [stops, List.mem_cons, List.not_mem_nil, or_false, hopen, hclose, false_or] at hb
    rcases hb with rfl | rfl | rfl | rfl | rfl <;> simp [hkind, htext]
  · exact .inr (.inr (.inr hclear))

/-- **As many brackets are open behind it** as its text leaves open. -/
theorem count_of_nest (hbare : IsBare t) {after : Nest} (h : nest open_ t = some after)
    (hdepth : t.text.foldlM depth (open_.count .bracket) = some d) :
    after.count .bracket = d := by
  rcases hbare.cases with ⟨hkind, htext⟩ | ⟨hkind, htext⟩ | ⟨hkind, htext⟩ | hclear
  · rw [nest_open hkind (List.mem_cons_of_mem _ htext)] at h
    obtain rfl : open_.count .bracket + 1 = d := by
      simp only [List.mem_cons, List.not_mem_nil, or_false] at htext
      rcases htext with htext | htext <;> simpa [htext, depth] using hdepth
    cases h
    exact List.count_cons_self
  · rw [nest_close hkind (List.mem_cons_of_mem _ htext)] at h
    rcases open_ with _ | ⟨_ | _, outer⟩
    · cases h
    · cases h
      simp only [List.mem_cons, List.not_mem_nil, or_false] at htext
      rcases htext with htext | htext <;> simpa [htext, depth] using hdepth
    · cases h
  · rw [nest_comma hkind htext] at h
    split_ifs at h
    cases h
    have hkept : depth (open_.count .bracket) ',' = some d := by simpa [htext] using hdepth
    by_contra hne
    simp [depth, hne] at hkept
  · obtain ⟨after', hafter, hcount⟩ := nest_of_clear open_ hclear
    cases hafter.symm.trans h
    rw [foldlM_depth_of_clear hclear, Option.some.injEq] at hdepth
    exact hcount.trans hdepth

/-- On the outside it goes on if its text does. -/
theorem nest_ne_none (hbare : IsBare t) (h : t.text.foldlM depth 0 ≠ none) : nest [] t ≠ none := by
  rcases hbare.cases with ⟨hkind, htext⟩ | ⟨hkind, htext⟩ | ⟨hkind, htext⟩ | hclear
  · rw [nest_open hkind (List.mem_cons_of_mem _ htext)]
    exact Option.some_ne_none _
  · simp only [List.mem_cons, List.not_mem_nil, or_false] at htext
    rcases htext with htext | htext <;> exact absurd (by rw [htext]; rfl) h
  · exact absurd (by rw [htext]; rfl) h
  · obtain ⟨after, hafter, -⟩ := nest_of_clear [] hclear
    rw [hafter]
    exact Option.some_ne_none _

end IsBare

/-- **As many brackets are open behind tokens** as their texts leave open. -/
theorem count_of_nest {segment : List Token} (hbare : ∀ t ∈ segment, IsBare t) {after : Nest}
    (h : segment.foldlM nest open_ = some after)
    (hdepth : segment.foldlM (fun d t => t.text.foldlM depth d) (open_.count .bracket) = some d) :
    after.count .bracket = d := by
  induction segment generalizing open_ with
  | nil =>
    cases h
    cases hdepth
    rfl
  | cons t segment ih =>
    obtain ⟨ht, hsegment⟩ := List.forall_mem_cons.1 hbare
    rw [List.foldlM_cons] at h hdepth
    obtain ⟨between, hbetween, h⟩ := Option.bind_eq_some_iff.1 h
    obtain ⟨d', hd', hdepth⟩ := Option.bind_eq_some_iff.1 hdepth
    rw [← ht.count_of_nest hbetween hd'] at hdepth
    exact ih hsegment h hdepth

/-! ## Texts without parentheses -/

variable {p : List Char} {line offset : Nat} {segment more : List Token} {stop close : Token}

/-- No quote, parenthesis, comment or line feed stands in the text. -/
def IsPlainText (text : List Char) : Prop :=
  ∀ c ∈ text, c ∉ ['"', '\'', '(', ')', '#', '\n']

instance (text : List Char) : Decidable (IsPlainText text) :=
  decidable_of_iff _ List.all_iff_forall_prop

theorem IsPlainText.isInline (h : IsPlainText p) : IsInline p := by
  have hsubset : ['"', '\'', '#', '\n'] ⊆ ['"', '\'', '(', ')', '#', '\n'] := by decide
  exact fun c hc hmem => h c hc (hsubset hmem)

theorem IsPlainText.isBare (h : IsPlainText p) (hlexed : Lexed line offset p segment) :
    ∀ t ∈ segment, IsBare t := fun t ht =>
  ⟨hlexed.isTidy h.isInline.isQuoteFree t ht,
    fun hc => h _ (hlexed.mem_text t ht hc) (by decide),
    fun hc => h _ (hlexed.mem_text t ht hc) (by decide)⟩

/-- Tokens without parentheses that close their brackets, with the commas inside them. -/
structure AreNested (segment : List Token) : Prop where
  bare : ∀ t ∈ segment, IsBare t
  nested : segment.foldlM (fun d t => t.text.foldlM depth d) 0 = some 0

/-- The brackets of a text are those of its tokens. -/
theorem areNested_of_lexed (hplain : IsPlainText p) (hnested : IsNested p)
    (hlexed : Lexed line offset p segment) : AreNested segment where
  bare := hplain.isBare hlexed
  nested := by
    have hstep : ∀ d c, isSkipped c = true → depth d c = some d := by
      intro d c hskip
      refine depth_of_not_stop fun hstop => ?_
      rw [of_mem_stops (fun b => isSkipped b = false) (by decide) hstop] at hskip
      cases hskip
    exact (hlexed.foldlM_text hstep 0).symm.trans hnested

namespace AreNested

/-- No token on the outside ends a parameter. -/
theorem nest_ne_none {front : List Token} (h : AreNested (front ++ stop :: more))
    (hfront : front.foldlM nest [] = some []) : nest [] stop ≠ none := by
  have hnested := h.nested
  rw [List.foldlM_append, Option.bind_eq_bind, Option.bind_eq_some_iff] at hnested
  obtain ⟨d, hd, hstop⟩ := hnested
  obtain rfl : 0 = d := count_of_nest (fun t ht => h.bare t (List.mem_append_left _ ht)) hfront hd
  refine (h.bare stop (by simp)).nest_ne_none fun hnone => ?_
  rw [List.foldlM_cons, hnone] at hstop
  cases hstop

/-- No parenthesis behind them closes one of their brackets. -/
theorem not_inside (h : AreNested segment) (hkind : close.kind = .symbol)
    (htext : close.text = [')']) : (segment ++ close :: more).foldlM nest [] ≠ some [] := by
  intro hrun
  rw [List.foldlM_append, Option.bind_eq_bind, Option.bind_eq_some_iff] at hrun
  obtain ⟨open_, hopen, hrun⟩ := hrun
  have hcount : open_.count .bracket = 0 := count_of_nest h.bare hopen h.nested
  rw [List.foldlM_cons, nest_close hkind (by simp [htext])] at hrun
  rcases open_ with _ | ⟨_ | _, outer⟩
  · cases hrun
  · simp at hcount
  · cases hrun

end AreNested

end Docsmith.Source.Python

import Docsmith.Source.Lines.Python
import Mathlib.Tactic.SplitIfs
import Mathlib.Tactic.Tauto
/-!
# Python — scopes by indentation

The reader of lines keeps a stack of headers and takes from it what a line is
not deeper than. Said without a stack: a header encloses a line if every line
of code after it, up to and with that line, is indented deeper than the header
(`around`). The stack holds, for whatever line may come, the headers that
would enclose it (`Tracks`), and every line of code keeps it so
(`Tracks.concat`). So a line gives an element exactly if it declares a name and
no function header encloses it, and the names of the class headers that do
stand before its own in the qualified name (`mem_read_iff`).
-/


namespace Docsmith.Source.Lines.Python

/-! ## Lines of code -/

/-- A line of code and its number. -/
structure CodeLine where
  number : Nat
  text : List Char
  deriving DecidableEq, Repr

namespace CodeLine

/-- The width of the line's indentation. -/
def indent (l : CodeLine) : Nat :=
  indentation l.text

/-- The line is a class header. -/
def isClass (l : CodeLine) : Bool :=
  (decorator? l.text).isNone && (classHeader? l.text).isSome

/-- The line is a function header. -/
def isFunction (l : CodeLine) : Bool :=
  (decorator? l.text).isNone && (functionHeader? l.text).isSome

/-- The line is a header of either sort. -/
def isHeader (l : CodeLine) : Bool :=
  l.isClass || l.isFunction

/-- The name that the line declares: that of a class, a function or the target
of an assignment. A second equals sign makes no assignment. -/
def declares? (l : CodeLine) : Option String :=
  if (decorator? l.text).isSome then none
  else
    match classHeader? l.text, functionHeader? l.text, assignment? l.text with
    | some h, _, _ => some (String.ofList h.name)
    | none, some h, _ => some (String.ofList h.name)
    | none, none, some (name, value) =>
      if value.head? = some '=' then none else some (String.ofList name)
    | none, none, none => none

/-- The name of a header. -/
def name (l : CodeLine) : String :=
  l.declares?.getD ""

/-- How many lines behind the line are its documentation. -/
def consumed (l : CodeLine) (after : List (List Char)) : Nat :=
  if l.isHeader then (docstring after).2 else 0

end CodeLine

/-- The lines of code among some lines, from a number on: those that are
neither blank nor a comment nor part of a header's documentation. The first
`skip` lines are part of one. -/
def codeFrom : (skip number : Nat) → List (List Char) → List CodeLine
  | _, _, [] => []
  | skip + 1, number, _ :: rest => codeFrom skip (number + 1) rest
  | 0, number, line :: rest =>
    if isSilent line then codeFrom 0 (number + 1) rest
    else
      let l : CodeLine := ⟨number, line⟩
      l :: codeFrom (l.consumed rest) (number + 1) rest

/-- The lines of code of a source. -/
def code (content : List Char) : List CodeLine :=
  codeFrom 0 1 (Text.lines content)

/-! ## Headers around a line -/

/-- The headers among some lines that enclose what follows them at an
indentation, the outermost first: every line after the header and what follows
are deeper than the header. -/
def around (indent : Nat) : List CodeLine → List CodeLine
  | [] => []
  | h :: between =>
    if h.isHeader && between.all (h.indent < ·.indent) && h.indent < indent then
      h :: around indent between
    else around indent between

/-- The entry that a line of code makes behind some others, if it makes one:
its number, the name it declares, and that name behind the names of the
classes around it. Inside a function it makes none. -/
def entryOf? (before : List CodeLine) (l : CodeLine) : Option (Nat × String × String) :=
  if (around l.indent before).any (·.isFunction) then none
  else
    l.declares?.map fun name =>
      let classes := (around l.indent before).filter (·.isClass)
      (l.number, name, ".".intercalate (classes.map (·.name) ++ [name]))

/-- The entries that lines of code make behind some others. -/
def entriesFrom : (before : List CodeLine) → List CodeLine → List (Nat × String × String)
  | _, [] => []
  | before, l :: after => (entryOf? before l).toList ++ entriesFrom (before ++ [l]) after

/-- One line more in between: it is a header itself perhaps, and closes all
that it is not deeper than. -/
theorem around_concat (indent : Nat) (before : List CodeLine) (l : CodeLine) :
    around indent (before ++ [l]) =
      around (min indent l.indent) before ++
        if l.isHeader && l.indent < indent then [l] else [] := by
  induction before with
  | nil =>
    simp only [around, List.nil_append, List.all_nil, Bool.and_true]
  | cons h before ih =>
    have hall : (h.isHeader && (before ++ [l]).all (h.indent < ·.indent) && h.indent < indent) =
        (h.isHeader && before.all (h.indent < ·.indent) && h.indent < min indent l.indent) := by
      rw [Bool.eq_iff_iff]
      simp only [List.all_append, List.all_cons, List.all_nil, Bool.and_true, Bool.and_eq_true,
        decide_eq_true_eq, Nat.lt_min]
      tauto
    simp only [List.cons_append, around, hall, ih]
    split_ifs <;> rfl

/-- **A header encloses what follows if all that stands in between and what
follows are deeper than it.** -/
theorem mem_around_iff {indent : Nat} {before : List CodeLine} {h : CodeLine} :
    h ∈ around indent before ↔ ∃ earlier between, before = earlier ++ h :: between ∧
      h.isHeader = true ∧ (∀ l ∈ between, h.indent < l.indent) ∧ h.indent < indent := by
  induction before with
  | nil => simp [around]
  | cons first rest ih =>
    have hfirst : (first.isHeader && rest.all (first.indent < ·.indent) && first.indent < indent) =
        true ↔ first.isHeader = true ∧ (∀ l ∈ rest, first.indent < l.indent) ∧
          first.indent < indent := by
      simp [and_assoc]
    have hrest : h ∈ around indent (first :: rest) ↔
        (h = first ∧ first.isHeader = true ∧ (∀ l ∈ rest, first.indent < l.indent) ∧
          first.indent < indent) ∨ h ∈ around indent rest := by
      simp only [around, hfirst]
      split_ifs with hencloses
      · rw [List.mem_cons, and_iff_left hencloses]
      · simp only [hencloses, and_false, false_or]
    rw [hrest, ih]
    constructor
    · rintro (⟨rfl, hencloses⟩ | ⟨earlier, between, rfl, hencloses⟩)
      · exact ⟨[], rest, rfl, hencloses⟩
      · exact ⟨first :: earlier, between, rfl, hencloses⟩
    · rintro ⟨earlier, between, hsplit, hencloses⟩
      rcases List.cons_eq_append_iff.1 hsplit with ⟨rfl, hcons⟩ | ⟨earlier, rfl, hrest⟩
      · cases hcons
        exact .inl ⟨rfl, hencloses⟩
      · exact .inr ⟨earlier, between, hrest, hencloses⟩

/-! ## One header at a time -/

variable {line rest keyword : List Char}

theorem head?_of_afterKeyword? {c : Char} (h : afterKeyword? (c :: keyword) line = some rest) :
    line.head? = some c := by
  cases line with
  | nil => cases h
  | cons d line =>
    obtain ⟨after, hafter, -⟩ := Option.bind_eq_some_iff.1 h
    rw [Text.dropStart?] at hafter
    split_ifs at hafter with hc
    rw [hc, List.head?_cons]

/-- No line is a class header and a function header. -/
theorem functionHeader?_of_classHeader? {h : Header} (hclass : classHeader? line = some h) :
    functionHeader? line = none := by
  obtain ⟨after, hafter, -⟩ := Option.bind_eq_some_iff.1 hclass
  cases hfunction : functionHeader? line with
  | none => rfl
  | some h' =>
    obtain ⟨after', hafter', -⟩ := Option.bind_eq_some_iff.1 hfunction
    have hc := head?_of_afterKeyword? hafter
    rw [head?_of_afterKeyword? hafter'] at hc
    exact absurd hc (by decide)

namespace CodeLine

variable {l : CodeLine} {h : Header}

/-- A decorator is no header and declares nothing. -/
theorem of_decorator {name : List Char} (hdecorator : decorator? l.text = some name) :
    l.isHeader = false ∧ l.declares? = none := by
  simp [isHeader, isClass, isFunction, declares?, hdecorator]

/-- A class header declares its name, and is no function's. -/
theorem of_classHeader (hdecorator : decorator? l.text = none)
    (hclass : classHeader? l.text = some h) :
    l.isHeader = true ∧ l.isFunction = false ∧ l.declares? = some (String.ofList h.name) := by
  simp [isHeader, isClass, isFunction, declares?, hdecorator, hclass,
    functionHeader?_of_classHeader? hclass]

/-- So does a function header. -/
theorem of_functionHeader (hdecorator : decorator? l.text = none)
    (hclass : classHeader? l.text = none) (hfunction : functionHeader? l.text = some h) :
    l.isHeader = true ∧ l.isFunction = true ∧ l.declares? = some (String.ofList h.name) := by
  simp [isHeader, isFunction, declares?, hdecorator, hclass, hfunction]

/-- Any other line is no header; it may be an assignment. -/
theorem of_other (hdecorator : decorator? l.text = none) (hclass : classHeader? l.text = none)
    (hfunction : functionHeader? l.text = none) :
    l.isHeader = false ∧ l.declares? = (assignment? l.text).bind fun (name, value) =>
      if value.head? = some '=' then none else some (String.ofList name) := by
  refine ⟨by simp [isHeader, isClass, isFunction, hclass, hfunction], ?_⟩
  simp only [declares?, hdecorator, hclass, hfunction, Option.isSome_none, Bool.false_eq_true,
    if_false]
  cases assignment? l.text <;> rfl

/-- No header is both a class's and a function's. -/
theorem isClass_eq_not_isFunction (h : l.isHeader = true) : l.isClass = !l.isFunction := by
  unfold isHeader at h
  cases hfunction : l.isFunction with
  | false => simpa [hfunction] using h
  | true =>
    simp only [isFunction, Bool.and_eq_true] at hfunction
    cases hclass : classHeader? l.text with
    | none => simp [isClass, hclass]
    | some header => simp [functionHeader?_of_classHeader? hclass] at hfunction

end CodeLine

/-! ## Scopes -/

variable {path : String} {state : State} {scopes : List Scope} {l : CodeLine}
variable {before done : List CodeLine} {after : List (List Char)}

/-- The scope that a header opens inside others: a function's, or that of a
class that no function is around. -/
def scopeOf (l : CodeLine) (outer : List Scope) : Scope :=
  ⟨l.indent,
    if l.isFunction || inFunction outer then none else some (qualify (owner? outer) l.name)⟩

/-- The scopes of some headers, each inside those behind it. -/
def scopesOf : List CodeLine → List Scope
  | [] => []
  | h :: outer => scopeOf h (scopesOf outer) :: scopesOf outer

/-- A line stands in a function where one of the headers is a function's. -/
theorem inFunction_scopesOf (headers : List CodeLine) :
    inFunction (scopesOf headers) = headers.any (·.isFunction) := by
  induction headers with
  | nil => rfl
  | cons h outer ih =>
    have hfirst : (scopeOf h (scopesOf outer)).type.isNone =
        (h.isFunction || inFunction (scopesOf outer)) := by
      unfold scopeOf
      cases h.isFunction || inFunction (scopesOf outer) <;> rfl
    rw [inFunction, scopesOf, List.any_cons, hfirst, ← inFunction, List.any_cons, ih, Bool.or_assoc,
      Bool.or_self]

/-- One piece more in a join. -/
theorem intercalate_concat {pieces : List String} (hne : pieces ≠ []) (name : String) :
    ".".intercalate (pieces ++ [name]) = ".".intercalate pieces ++ "." ++ name := by
  simp [String.intercalate_append_of_ne_nil hne]

/-- **Where no header is a function's, a name's owner is called by the names
of all headers.** -/
theorem qualify_scopesOf (headers : List CodeLine) (name : String)
    (hclasses : headers.any (·.isFunction) = false) :
    qualify (owner? (scopesOf headers)) name =
      ".".intercalate ((headers.map (·.name)).reverse ++ [name]) := by
  induction headers generalizing name with
  | nil => rfl
  | cons h outer ih =>
    rw [List.any_cons, Bool.or_eq_false_iff] at hclasses
    have hscope : owner? (scopesOf (h :: outer)) =
        some (qualify (owner? (scopesOf outer)) h.name) := by
      simp [owner?, scopesOf, scopeOf, inFunction_scopesOf, hclasses]
    rw [hscope, qualify, ih _ hclasses.2, List.map_cons, List.reverse_cons,
      intercalate_concat (List.append_ne_nil_of_right_ne_nil _ (List.cons_ne_nil _ _))]

/-- Closing what one line closes and then what another does. -/
theorem enclosing_enclosing (limit indent : Nat) (scopes : List Scope) :
    enclosing limit (enclosing indent scopes) = enclosing (min limit indent) scopes := by
  induction scopes with
  | nil => rfl
  | cons s scopes ih =>
    simp only [enclosing, List.dropWhile_cons, decide_eq_true_eq] at ih ⊢
    by_cases hs : indent ≤ s.indent
    · rw [if_pos hs, if_pos (by omega), ih]
    · rw [if_neg hs]
      by_cases hlimit : limit ≤ indent
      · rw [Nat.min_eq_left hlimit, List.dropWhile_cons]
        simp only [decide_eq_true_eq]
      · rw [List.dropWhile_cons_of_neg (by simp; omega), if_neg (by omega)]

/-! ## One line -/

/-- What a line of code does inside some scopes: it opens its own if it is a
header, takes its documentation along, and gives an element if it declares a
name outside functions. -/
structure IsStepOf (l : CodeLine) (after : List (List Char)) (outer : List Scope) (s : Step) :
    Prop where
  scopes : s.state.scopes = if l.isHeader then scopeOf l outer :: outer else outer
  consumed : s.consumed = l.consumed after
  element : (s.element.map fun e => (e.line, e.name, e.qualifiedName)) =
    if inFunction outer then none
    else l.declares?.map fun name => (l.number, name, qualify (owner? outer) name)

/-- A class header opens its scope, and gives its class outside functions. -/
theorem isStepOf_stepClass {h : Header} {decorators : List String} (hheader : l.isHeader = true)
    (hclass : l.isFunction = false) (hname : l.declares? = some (String.ofList h.name)) :
    IsStepOf l after scopes (stepClass path l.number l.indent scopes decorators h after) := by
  have hconsumed : l.consumed after = (docstring after).2 := if_pos hheader
  unfold stepClass
  cases hin : inFunction scopes with
  | true => constructor <;> simp [hconsumed, hheader, scopeOf, hin]
  | false => constructor <;> simp [hconsumed, hheader, scopeOf, hin, hclass, CodeLine.name, hname]

/-- A function header opens its scope, and gives its function outside
functions. -/
theorem isStepOf_stepFunction {h : Header} {decorators : List String} (hheader : l.isHeader = true)
    (hfunction : l.isFunction = true) (hname : l.declares? = some (String.ofList h.name)) :
    IsStepOf l after scopes (stepFunction path l.number l.indent scopes decorators h after) := by
  have hconsumed : l.consumed after = (docstring after).2 := if_pos hheader
  unfold stepFunction
  cases hin : inFunction scopes with
  | true => constructor <;> simp [hconsumed, hheader, scopeOf, hfunction, hin]
  | false => constructor <;> simp [hconsumed, hheader, scopeOf, hfunction, hin, hname]

/-- An assignment gives an element under the name of its target. -/
theorem fieldOf?_entry {number : Nat} {line : List Char} :
    ((fieldOf? path number scopes line).map fun e => (e.line, e.name, e.qualifiedName)) =
      if inFunction scopes then none
      else ((assignment? line).bind fun (name, value) =>
        if value.head? = some '=' then none else some (String.ofList name)).map fun name =>
          (number, name, qualify (owner? scopes) name) := by
  unfold fieldOf?
  cases inFunction scopes with
  | true => rfl
  | false =>
    cases assignment? line with
    | none => rfl
    | some found =>
      simp only [Bool.false_eq_true, if_false, Option.bind_eq_bind, Option.bind_some]
      split_ifs <;> rfl

/-- **A line of code closes the scopes it is not deeper than**, and does its
own inside the others. -/
theorem isStepOf_step (hcode : isSilent l.text = false) :
    IsStepOf l after (enclosing l.indent state.scopes)
      (step path state l.number l.text after) := by
  have hindent : indentation l.text = l.indent := rfl
  unfold step
  simp only [hcode, Bool.false_eq_true, if_false, hindent]
  cases hdecorator : decorator? l.text with
  | some name =>
    obtain ⟨hheader, hname⟩ := CodeLine.of_decorator hdecorator
    constructor <;> simp [CodeLine.consumed, hheader, hname]
  | none =>
    cases hclass : classHeader? l.text with
    | some h =>
      obtain ⟨hheader, hfunction, hname⟩ := CodeLine.of_classHeader hdecorator hclass
      exact isStepOf_stepClass hheader hfunction hname
    | none =>
      cases hfunction : functionHeader? l.text with
      | some h =>
        obtain ⟨hheader, hisFunction, hname⟩ :=
          CodeLine.of_functionHeader hdecorator hclass hfunction
        exact isStepOf_stepFunction hheader hisFunction hname
      | none =>
        obtain ⟨hheader, hname⟩ := CodeLine.of_other hdecorator hclass hfunction
        refine ⟨by simp [hheader], by simp [CodeLine.consumed, hheader], ?_⟩
        rw [hname]
        exact fieldOf?_entry

/-! ## All lines -/

/-- The scopes hold the headers of the lines so far that enclose what may
come, at whatever indentation it comes. -/
def Tracks (done : List CodeLine) (scopes : List Scope) : Prop :=
  ∀ limit, enclosing limit scopes = scopesOf (around limit done).reverse

theorem tracks_nil : Tracks [] [] :=
  fun _ => rfl

/-- **The scopes keep track over a line of code.** -/
theorem Tracks.concat (h : Tracks done state.scopes) (hcode : isSilent l.text = false) :
    Tracks (done ++ [l]) (step path state l.number l.text after).state.scopes := by
  intro limit
  rw [(isStepOf_step hcode).scopes, around_concat]
  have hbelow : enclosing limit (enclosing l.indent state.scopes) =
      scopesOf (around (min limit l.indent) done).reverse := by
    rw [enclosing_enclosing, h]
  by_cases hheader : l.isHeader = true
  · rw [if_pos hheader]
    by_cases hopen : l.indent < limit
    · -- the line's own scope is the innermost one
      have hmin : min limit l.indent = l.indent := by omega
      rw [if_pos (by simp [hheader, hopen]), hmin, List.reverse_append, List.reverse_singleton,
        List.singleton_append, scopesOf, ← h l.indent]
      exact List.dropWhile_cons_of_neg (by simp [scopeOf, hopen])
    · -- what comes closes it again
      rw [if_neg (by simp [hopen]), List.append_nil, ← hbelow]
      exact List.dropWhile_cons_of_pos (by simpa [scopeOf] using hopen)
  · rw [if_neg hheader, if_neg (by simp [hheader]), List.append_nil, hbelow]

/-- So the line gives the entry that the lines before it call for. -/
theorem Tracks.entry (h : Tracks done state.scopes) (hcode : isSilent l.text = false) :
    ((step path state l.number l.text after).element.map fun e =>
      (e.line, e.name, e.qualifiedName)) = entryOf? done l := by
  rw [(isStepOf_step hcode).element, h, inFunction_scopesOf, List.any_reverse, entryOf?]
  cases hin : (around l.indent done).any (·.isFunction) with
  | true => rfl
  | false =>
    have hclasses : (around l.indent done).filter (·.isClass) = around l.indent done := by
      refine List.filter_eq_self.2 fun header hmem => ?_
      obtain ⟨-, -, -, hheader, -⟩ := mem_around_iff.1 hmem
      have hclass : header.isFunction = false :=
        Bool.eq_false_iff.2 (List.any_eq_false.1 hin _ hmem)
      rw [CodeLine.isClass_eq_not_isFunction hheader, hclass, Bool.not_false]
    have hqualify (name : String) := qualify_scopesOf (around l.indent done).reverse name
      (by rw [List.any_reverse, hin])
    simp only [hqualify, hclasses, List.map_reverse, List.reverse_reverse]

/-- **What is read of some lines is an entry for each line of code** among them
that makes one, in their order. -/
theorem map_readFrom (path : String) (lines : List (List Char)) :
    ∀ skip state number done, Tracks done state.scopes →
      (readFrom path skip state number lines).map (fun e => (e.line, e.name, e.qualifiedName)) =
        entriesFrom done (codeFrom skip number lines) := by
  induction lines with
  | nil =>
    intro skip state number done h
    cases skip <;> rfl
  | cons line lines ih =>
    intro skip state number done h
    cases skip with
    | succ skip => exact ih _ _ _ _ h
    | zero =>
      rw [readFrom, codeFrom]
      cases hcode : isSilent line with
      | true =>
        have hstep : step path state number line lines = ⟨state, none, 0⟩ := by
          simp [step, hcode]
        rw [hstep]
        exact ih _ _ _ _ h
      | false =>
        let l : CodeLine := ⟨number, line⟩
        have hspec : IsStepOf l lines _ (step path state number line lines) := isStepOf_step hcode
        have hentry : ((step path state number line lines).element.map fun e =>
            (e.line, e.name, e.qualifiedName)) = entryOf? done l := Tracks.entry (l := l) h hcode
        have hrest := ih (l.consumed lines) (step path state number line lines).state (number + 1)
          (done ++ [l]) (h.concat hcode)
        rw [if_neg Bool.false_ne_true, entriesFrom, ← hentry, ← hrest, ← hspec.consumed]
        simp [Option.toList_map]

/-- Each entry is made by a line behind those before it. -/
theorem mem_entriesFrom_iff {entry : Nat × String × String} (ls : List CodeLine) :
    ∀ done, entry ∈ entriesFrom done ls ↔
      ∃ before l after, ls = before ++ l :: after ∧ entryOf? (done ++ before) l = some entry := by
  induction ls with
  | nil => simp [entriesFrom]
  | cons first rest ih =>
    intro done
    rw [entriesFrom, List.mem_append, Option.mem_toList, ih]
    constructor
    · rintro (hfirst | ⟨before, l, after, rfl, hl⟩)
      · exact ⟨[], first, rest, rfl, by rwa [List.append_nil]⟩
      · exact ⟨first :: before, l, after, rfl, by rwa [List.append_assoc] at hl⟩
    · rintro ⟨before, l, after, hsplit, hl⟩
      rcases List.cons_eq_append_iff.1 hsplit with ⟨rfl, hcons⟩ | ⟨before, rfl, rfl⟩
      · cases hcons
        exact .inl (by rwa [List.append_nil] at hl)
      · exact .inr ⟨before, l, after, rfl, by rwa [List.append_assoc]⟩

/-- **Scopes follow the indentation.** An element is read of a line exactly if
the line is code, declares the element's name and no function header encloses
it; the element is qualified by the names of the class headers that do, the
outermost first. -/
theorem mem_read_iff (path : String) (content : List Char) (number : Nat)
    (name qualified : String) :
    (∃ e ∈ read path content, e.line = number ∧ e.name = name ∧ e.qualifiedName = qualified) ↔
    ∃ before l after, code content = before ++ l :: after ∧ l.number = number ∧
      l.declares? = some name ∧ (∀ h ∈ around l.indent before, h.isFunction = false) ∧
      qualified = ".".intercalate
        (((around l.indent before).filter (·.isClass)).map (·.name) ++ [name]) := by
  have hread : (∃ e ∈ read path content,
      e.line = number ∧ e.name = name ∧ e.qualifiedName = qualified) ↔
      (number, name, qualified) ∈ entriesFrom [] (code content) := by
    unfold code
    rw [← map_readFrom path _ 0 {} 1 [] tracks_nil, List.mem_map]
    simp [read]
  rw [hread, mem_entriesFrom_iff]
  refine exists_congr fun before => exists_congr fun l => exists_congr fun after =>
    and_congr_right fun _ => ?_
  rw [List.nil_append, entryOf?]
  cases hin : (around l.indent before).any (·.isFunction) with
  | true =>
    obtain ⟨h, hmem, hfunction⟩ := List.any_eq_true.1 hin
    refine iff_of_false (by simp) fun ⟨_, _, hclasses, _⟩ => ?_
    rw [hclasses h hmem] at hfunction
    cases hfunction
  | false =>
    have hclasses : ∀ h ∈ around l.indent before, h.isFunction = false := fun h hmem =>
      Bool.eq_false_iff.2 (List.any_eq_false.1 hin h hmem)
    simp only [Bool.false_eq_true, if_false, Option.map_eq_some_iff, Prod.mk.injEq]
    constructor
    · rintro ⟨_, hname, rfl, rfl, rfl⟩
      exact ⟨rfl, hname, hclasses, rfl⟩
    · rintro ⟨rfl, hname, -, rfl⟩
      exact ⟨name, hname, rfl, rfl, rfl⟩

end Docsmith.Source.Lines.Python

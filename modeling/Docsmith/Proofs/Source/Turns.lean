import Docsmith.Proofs.Document.Grouping
import Docsmith.Proofs.Source.Places
import Docsmith.Proofs.Source.PythonScopes
import Docsmith.Source
import Mathlib.Algebra.Group.Nat.Defs
/-!
# Sources — lines read turn by turn

Lines are read here as a loop reads them: from an index that says where the reading is,
with a number that has to fit into a word, and with an index to go on from that a
documentation string may have moved ahead. Every look-up, number and cut can fail
(`readByPlaces?`). What one line gives goes forward, stays within the lines and carries
the line's own number (`IsForward`); so the loop comes to its end without a failure, its
elements have ascending numbers, and no line that a documentation string took has one
(`read_by_places`).
-/


namespace Docsmith.Source.Lines

variable {σ : Type} {lines : List (List Char)} {index : Nat}

/-- What is read of a line: the state behind it, an element if there is one, the index
of the line to go on from, and of a documentation string that was looked for the index
from which and the one behind it. -/
structure Reading (σ : Type) where
  state : σ
  element : Option Element
  next : Nat
  docstring : Option (Nat × Nat) := none

/-- How far the reading of lines has come, and what it has given so far. -/
structure Course (σ : Type) where
  state : σ
  index : Nat := 0
  elements : List Element := []
  docstrings : List (Nat × Nat) := []

/-- The course behind a line. -/
def Course.next (c : Course σ) (r : Reading σ) : Course σ :=
  ⟨r.state, r.next, c.elements ++ r.element.toList, c.docstrings ++ r.docstring.toList⟩

/-- The number of the line with an index, counted from one in words of 32 bits. -/
def lineNumber? (index : Nat) : Option Nat :=
  if index % 2 ^ 32 + 1 < 2 ^ 32 then some (index % 2 ^ 32 + 1) else none

/-- One turn of the loop: it ends behind the last line. -/
def turn (at? : σ → Nat → Option (Reading σ)) (count : Nat) (c : Course σ) :
    Option (Turn (Course σ) (Course σ)) :=
  if c.index < count then (at? c.state c.index).map fun r => .again (c.next r)
  else some (.leave c)

/-! ## One line -/

/-- A line is read on from: the next index is behind its own and not behind the last
line, its element has its number, and a documentation string is one that starts behind
it and ends where the reading goes on. -/
structure IsForward (lines : List (List Char)) (index : Nat) (r : Reading σ) : Prop where
  forward : index < r.next
  within : r.next ≤ lines.length
  line : ∀ e ∈ r.element, e.line = index + 1
  docstring : ∀ d ∈ r.docstring, d = (index + 1, r.next) ∧
    ∃ text, docstringAt? lines d.1 = some (text, d.2)

/-- A number within a word is counted exactly. -/
theorem lineNumber?_eq (h : index + 1 < 2 ^ 32) : lineNumber? index = some (index + 1) := by
  rw [lineNumber?, Nat.mod_eq_of_lt (by omega), if_pos h]

/-! ## All lines -/

/-- What was read up to an index is orderly: the elements have ascending numbers of lines
that were read, and a documentation string lies among these and has no element in it. -/
structure IsOrderly (lines : List (List Char)) (index : Nat) (elements : List Element)
    (docstrings : List (Nat × Nat)) : Prop where
  within : index ≤ lines.length
  ascending : elements.Pairwise (·.line < ·.line)
  numbered : ∀ e ∈ elements, 1 ≤ e.line ∧ e.line ≤ index
  docstring : ∀ d ∈ docstrings, (∃ text, docstringAt? lines d.1 = some (text, d.2)) ∧
    d.1 ≤ d.2 ∧ d.2 ≤ index ∧ ∀ e ∈ elements, e.line ≤ d.1 ∨ d.2 < e.line

theorem isOrderly_nil (lines : List (List Char)) : IsOrderly lines 0 [] [] :=
  ⟨Nat.zero_le _, .nil, List.forall_mem_nil _, List.forall_mem_nil _⟩

/-- **A line more keeps what was read orderly.** Its element is behind all others, and
the documentation string behind it is passed over. -/
theorem IsOrderly.append {elements : List Element} {docstrings : List (Nat × Nat)} {r : Reading σ}
    (h : IsOrderly lines index elements docstrings) (hr : IsForward lines index r) :
    IsOrderly lines r.next (elements ++ r.element.toList) (docstrings ++ r.docstring.toList) := by
  have hforward := hr.forward
  have hmem : ∀ e ∈ elements ++ r.element.toList, e ∈ elements ∨ e.line = index + 1 := by
    intro e he
    exact (List.mem_append.1 he).imp_right fun hnew => hr.line e (Option.mem_toList.1 hnew)
  refine ⟨hr.within, ?_, ?_, ?_⟩
  · refine List.pairwise_append.2 ⟨h.ascending, ?_, ?_⟩
    · cases r.element <;> simp
    · intro e he d hd
      have hold := h.numbered e he
      have hnew := hr.line d (Option.mem_toList.1 hd)
      omega
  · intro e he
    rcases hmem e he with hold | hnew
    · have hnumber := h.numbered e hold
      omega
    · omega
  · intro d hd
    rcases List.mem_append.1 hd with hold | hnew
    · -- the line is behind every string so far
      obtain ⟨htext, hle, hwithin, hclear⟩ := h.docstring d hold
      refine ⟨htext, hle, by omega, fun e he => ?_⟩
      rcases hmem e he with he | he
      · exact hclear e he
      · omega
    · -- and its own string is behind every element so far
      obtain ⟨hplaces, htext⟩ := hr.docstring d (Option.mem_toList.1 hnew)
      have hstart : d.1 = index + 1 := by rw [hplaces]
      have hstop : d.2 = r.next := by rw [hplaces]
      refine ⟨htext, by omega, by omega, fun e he => .inl ?_⟩
      rcases hmem e he with he | he
      · have hnumber := h.numbered e he
        omega
      · omega

/-- A course whose elements and documentation strings are orderly. -/
def Course.IsOrderly (lines : List (List Char)) (c : Course σ) : Prop :=
  Lines.IsOrderly lines c.index c.elements c.docstrings

/-- **The loop comes to its end behind the last line**, and has read then what stands from
its index on: by induction on the lines that are left. -/
theorem exists_loop_turn {at? : σ → Nat → Option (Reading σ)} {rest : σ → Nat → List Element}
    (hend : ∀ s, rest s lines.length = [])
    (hstep : ∀ s index, index < lines.length → ∃ r, at? s index = some r ∧
      IsForward lines index r ∧ rest s index = r.element.toList ++ rest r.state r.next) :
    ∀ left (c : Course σ), c.IsOrderly lines → c.index + left = lines.length →
      ∃ c', (∀ turns, left < turns → loop (turn at? lines.length) turns c = some c') ∧
        c'.IsOrderly lines ∧ c'.index = lines.length ∧
        c'.elements = c.elements ++ rest c.state c.index := by
  intro left
  induction left using Nat.strongRecOn with
  | ind left ih =>
    intro c hc hleft
    by_cases hlt : c.index < lines.length
    · obtain ⟨r, hr, hforward, hrest⟩ := hstep c.state c.index hlt
      have hturn : turn at? lines.length c = some (.again (c.next r)) := by
        rw [turn, if_pos hlt, hr]
        rfl
      have hless := hforward.forward
      have hwithin := hforward.within
      have hindex : (c.next r).index = r.next := rfl
      obtain ⟨c', hloop, horderly, hend', helements⟩ :=
        ih (lines.length - r.next) (by omega) (c.next r) (hc.append hforward) (by omega)
      refine ⟨c', fun turns hturns => ?_, horderly, hend', ?_⟩
      · obtain ⟨n, rfl⟩ : ∃ n, turns = n + 1 := ⟨turns - 1, by omega⟩
        rw [loop_again hturn, hloop n (by omega)]
      · rw [helements, hrest, ← List.append_assoc]
        rfl
    · have hturn : turn at? lines.length c = some (.leave c) := if_neg hlt
      have hindex : c.index = lines.length := by omega
      refine ⟨c, fun turns hturns => ?_, hc, hindex, by rw [hindex, hend, List.append_nil]⟩
      obtain ⟨n, rfl⟩ : ∃ n, turns = n + 1 := ⟨turns - 1, by omega⟩
      rw [loop_leave hturn]

end Docsmith.Source.Lines

/-! ## Python -/

namespace Docsmith.Source.Lines.Python

variable {path : String} {state : State} {number : Nat} {line : List Char}
variable {after lines : List (List Char)}

/-- The line is a header, so a documentation string may stand behind it. -/
def opensBody (line : List Char) : Bool :=
  !isSilent line && (CodeLine.mk 0 line).isHeader

/-- A step with a documentation string that was read elsewhere. -/
def Step.documented (s : Step) (doc : List Char × Nat) : Step :=
  { s with
    element := s.element.map fun e => { e with documentation := String.ofList doc.1 }
    consumed := doc.2 }

/-- The line with an index, read by places. -/
def readAt? (path : String) (lines : List (List Char)) (state : State) (index : Nat) :
    Option (Reading State) := do
  let line ← lines[index]?
  let number ← lineNumber? index
  let s := step path state number line []
  if opensBody line then
    let (doc, next) ← docstringAt? lines (index + 1)
    let s := s.documented (doc, 0)
    some ⟨s.state, s.element, next, some (index + 1, next)⟩
  else some ⟨s.state, s.element, index + 1, none⟩

theorem stepClass_documented (path : String) (number indent : Nat) (scopes : List Scope)
    (decorators : List String) (h : Header) (after : List (List Char)) :
    stepClass path number indent scopes decorators h after =
      (stepClass path number indent scopes decorators h []).documented (docstring after) := by
  unfold stepClass Step.documented
  cases inFunction scopes <;> rfl

theorem stepFunction_documented (path : String) (number indent : Nat) (scopes : List Scope)
    (decorators : List String) (h : Header) (after : List (List Char)) :
    stepFunction path number indent scopes decorators h after =
      (stepFunction path number indent scopes decorators h []).documented (docstring after) := by
  unfold stepFunction Step.documented
  cases inFunction scopes <;> rfl

/-- **The lines behind a header matter by the documentation string they start with.** -/
theorem step_of_opensBody (h : opensBody line = true) :
    step path state number line after =
      (step path state number line []).documented (docstring after) := by
  rw [opensBody, Bool.and_eq_true, Bool.not_eq_true'] at h
  obtain ⟨hcode, hheader⟩ := h
  unfold step
  simp only [hcode, Bool.false_eq_true, if_false]
  cases hdecorator : decorator? line with
  | some name =>
    have hno := (CodeLine.of_decorator (l := ⟨0, line⟩) hdecorator).1
    rw [hno] at hheader
    cases hheader
  | none =>
    cases hclass : classHeader? line with
    | some h => exact stepClass_documented ..
    | none =>
      cases hfunction : functionHeader? line with
      | some h => exact stepFunction_documented ..
      | none =>
        have hno := (CodeLine.of_other (l := ⟨0, line⟩) hdecorator hclass hfunction).1
        rw [hno] at hheader
        cases hheader

/-- The lines behind any other line do not matter. -/
theorem step_of_not_opensBody (h : opensBody line = false) :
    step path state number line after = step path state number line [] := by
  rw [opensBody, Bool.and_eq_false_iff, Bool.not_eq_false'] at h
  unfold step
  cases hcode : isSilent line with
  | true => rfl
  | false =>
    have hheader : (CodeLine.mk 0 line).isHeader = false :=
      h.resolve_left (by rw [hcode]; exact Bool.false_ne_true)
    cases hdecorator : decorator? line with
    | some name => rfl
    | none =>
      cases hclass : classHeader? line with
      | some h =>
        have hyes := (CodeLine.of_classHeader (l := ⟨0, line⟩) hdecorator hclass).1
        rw [hheader] at hyes
        cases hyes
      | none =>
        cases hfunction : functionHeader? line with
        | some h =>
          have hyes := (CodeLine.of_functionHeader (l := ⟨0, line⟩) hdecorator hclass hfunction).1
          rw [hheader] at hyes
          cases hyes
        | none => rfl

theorem step_of_isSilent (h : isSilent line = true) :
    step path state number line after = ⟨state, none, 0⟩ := by
  rw [step, if_pos h]

/-- A line takes the lines of the documentation string behind it, if it is a header. -/
theorem consumed_step (path : String) (state : State) (number : Nat) (line : List Char)
    (after : List (List Char)) : (step path state number line after).consumed =
      if opensBody line then (docstring after).2 else 0 := by
  unfold opensBody
  cases hcode : isSilent line with
  | true =>
    rw [step_of_isSilent hcode]
    rfl
  | false => exact (isStepOf_step (l := ⟨number, line⟩) hcode).consumed

/-- An element has the number of its line. -/
theorem line_of_step {e : Element} (h : e ∈ (step path state number line after).element) :
    e.line = number := by
  cases hcode : isSilent line with
  | true =>
    rw [step_of_isSilent hcode] at h
    cases h
  | false =>
    have hstep : IsStepOf ⟨number, line⟩ after _ (step path state number line after) :=
      isStepOf_step hcode
    have hentry := hstep.element
    rw [Option.mem_def.1 h, Option.map_some] at hentry
    split_ifs at hentry
    obtain ⟨name, -, heq⟩ := Option.map_eq_some_iff.1 hentry.symm
    exact (congrArg Prod.fst heq).symm

theorem readFrom_skip (skip : Nat) : ∀ number lines,
    readFrom path skip state number lines =
      readFrom path 0 state (number + skip) (lines.drop skip) := by
  induction skip with
  | zero => exact fun number lines => rfl
  | succ skip ih =>
    intro number lines
    cases lines with
    | nil => rw [List.drop_nil, readFrom, readFrom]
    | cons line lines =>
      rw [readFrom, ih, List.drop_succ_cons]
      congr 1
      omega

/-- **A line is read by places as it is without them**, and read on from. -/
theorem readAt?_spec (path : String) (lines : List (List Char)) (hcount : lines.length < 2 ^ 32)
    (state : State) (index : Nat) (hlt : index < lines.length) :
    ∃ r, readAt? path lines state index = some r ∧ IsForward lines index r ∧
      readFrom path 0 state (index + 1) (lines.drop index) =
        r.element.toList ++ readFrom path 0 r.state (r.next + 1) (lines.drop r.next) := by
  obtain ⟨line, hline⟩ : ∃ line, lines[index]? = some line := ⟨_, List.getElem?_eq_getElem hlt⟩
  have hdrop : lines.drop index = line :: lines.drop (index + 1) := by
    rw [List.drop_eq_getElem_cons hlt, List.getElem?_eq_some_iff.1 hline |>.2]
  have hnumber : lineNumber? index = some (index + 1) := lineNumber?_eq (by omega)
  have hdocstring := docstringAt?_eq lines (index + 1)
  have hconsumed := consumed_step path state (index + 1) line (lines.drop (index + 1))
  rw [hdrop, readFrom, readFrom_skip, hconsumed]
  simp only [readAt?, hline, hnumber, hdocstring, Option.bind_eq_bind, Option.bind_some,
    List.drop_drop]
  cases hopens : opensBody line with
  | true =>
    have hle := docstring_le (lines.drop (index + 1))
    rw [List.length_drop] at hle
    refine ⟨_, rfl, ⟨by simp only; omega, by simp only; omega, fun e he => ?_, ?_⟩, ?_⟩
    · obtain ⟨d, hd, rfl⟩ := Option.map_eq_some_iff.1 he
      have hown : d.line = index + 1 := line_of_step hd
      exact hown
    · rintro d ⟨⟩
      exact ⟨rfl, _, hdocstring⟩
    · rw [step_of_opensBody hopens, if_pos rfl, Nat.add_right_comm]
      rfl
  | false =>
    refine ⟨_, rfl, ⟨Nat.lt_succ_self _, hlt, fun e he => line_of_step he, fun d hd => ?_⟩, ?_⟩
    · exact absurd hd (Option.not_mem_none d)
    rw [step_of_not_opensBody hopens]
    rfl

end Docsmith.Source.Lines.Python

/-! ## Java -/

namespace Docsmith.Source.Lines.Java

variable {package : Option String} {path : String} {state : State} {number : Nat}
variable {line : List Char} {lines : List (List Char)} {e : Element}

/-- The line with an index. -/
def readAt? (package : Option String) (path : String) (lines : List (List Char)) (state : State)
    (index : Nat) : Option (Reading State) := do
  let line ← lines[index]?
  let number ← lineNumber? index
  let (state, element) := step package path number state line
  some ⟨state, element, index + 1, none⟩

theorem line_of_member? {scope : Scope} {code : List Char}
    (h : member? path number scope code = some e) : e.line = number := by
  unfold member? at h
  dsimp only at h
  split at h
  · cases h
    rfl
  · split at h
    · cases h
      rfl
    · split at h <;> cases h
      rfl

theorem line_of_declare {code : List Char} (h : e ∈ (declare package path number state code).1) :
    e.line = number := by
  unfold declare at h
  split at h
  · cases h
  · split at h
    · cases h
      rfl
    · split at h
      · exact line_of_member? h
      · cases h

/-- An element has the number of its line. -/
theorem line_of_step (h : e ∈ (step package path number state line).2) : e.line = number := by
  unfold step at h
  split at h
  · dsimp only at h
    split at h <;> cases h
  · cases h
  · dsimp only at h
    split at h
    · split at h <;> cases h
    split at h
    · cases h
    split at h
    · cases h
    · unfold stepCode at h
      dsimp only at h
      split at h
      · cases h
      · obtain ⟨d, hd, rfl⟩ := Option.map_eq_some_iff.1 h
        have hown : d.line = number := line_of_declare hd
        exact hown

/-- **A line is read by places as it is without them**, and read on from the next. -/
theorem readAt?_spec (package : Option String) (path : String) (lines : List (List Char))
    (hcount : lines.length < 2 ^ 32) (state : State) (index : Nat) (hlt : index < lines.length) :
    ∃ r, readAt? package path lines state index = some r ∧ IsForward lines index r ∧
      readFrom package path state (index + 1) (lines.drop index) =
        r.element.toList ++ readFrom package path r.state (r.next + 1) (lines.drop r.next) := by
  obtain ⟨line, hline⟩ : ∃ line, lines[index]? = some line := ⟨_, List.getElem?_eq_getElem hlt⟩
  have hdrop : lines.drop index = line :: lines.drop (index + 1) := by
    rw [List.drop_eq_getElem_cons hlt, List.getElem?_eq_some_iff.1 hline |>.2]
  have hnumber : lineNumber? index = some (index + 1) := lineNumber?_eq (by omega)
  refine ⟨⟨(step package path (index + 1) state line).1,
    (step package path (index + 1) state line).2, index + 1, none⟩, ?_,
    ⟨Nat.lt_succ_self _, hlt, fun e he => line_of_step he, fun d hd => ?_⟩, ?_⟩
  · simp only [readAt?, hline, hnumber, Option.bind_eq_bind, Option.bind_some]
  · exact absurd hd (Option.not_mem_none d)
  · rw [hdrop, readFrom]

end Docsmith.Source.Lines.Java

/-! ## Either language -/

namespace Docsmith.Source.Lines

variable {σ : Type} {lines : List (List Char)}

/-- The course over all lines from the first one on, in at most some turns: the elements
and the documentation strings that it has found. -/
def course? (at? : σ → Nat → Option (Reading σ)) (count turns : Nat) (start : σ) :
    Option (List Element × List (Nat × Nat)) :=
  (loop (turn at? count) turns ⟨start, 0, [], []⟩).map fun c => (c.elements, c.docstrings)

/-- The elements of a source and the documentation strings behind its headers, read by
places in at most some turns. -/
def readByPlaces? (turns : Nat) (path content : String) :
    Option (List Element × List (Nat × Nat)) :=
  let lines := Text.lines content.toList
  match Language.ofPath path with
  | .python => course? (Python.readAt? path lines) lines.length turns {}
  | .java =>
    let package := (lines.findSome? Java.package?).map String.ofList
    course? (Java.readAt? package path lines) lines.length turns {}
  | .unknown => some ([], [])

/-- Ids tell elements of different lines apart. -/
theorem nodup_ids {es : List Element} (h : es.Pairwise (·.line < ·.line)) :
    (es.map (·.id)).Nodup := by
  refine List.pairwise_map.2 (h.imp fun {d e} hlt heq => ?_)
  have hline := (Element.line_eq_of_id_eq heq).1
  omega

theorem exists_course? {at? : σ → Nat → Option (Reading σ)} (rest : σ → Nat → List Element)
    (start : σ) (hend : ∀ s, rest s lines.length = [])
    (hstep : ∀ s index, index < lines.length → ∃ r, at? s index = some r ∧
      IsForward lines index r ∧ rest s index = r.element.toList ++ rest r.state r.next) :
    ∃ docstrings, (∀ turns, lines.length < turns →
        course? at? lines.length turns start = some (rest start 0, docstrings)) ∧
      IsOrderly lines lines.length (rest start 0) docstrings := by
  obtain ⟨c, hloop, horderly, hindex, helements⟩ := exists_loop_turn hend hstep lines.length
    ⟨start, 0, [], []⟩ (isOrderly_nil lines) (Nat.zero_add _)
  have hrest : c.elements = rest start 0 := helements
  rw [Course.IsOrderly, hindex, hrest] at horderly
  refine ⟨c.docstrings, fun turns hturns => ?_, horderly⟩
  rw [course?, hloop turns hturns, Option.map_some, hrest]

/-- **The lines of a source are read by places as they are without them.** -/
theorem exists_readByPlaces? (path content : String)
    (hcount : (Text.lines content.toList).length < 2 ^ 32) :
    ∃ docstrings, (∀ turns, (Text.lines content.toList).length < turns →
        readByPlaces? turns path content = some (read path content, docstrings)) ∧
      IsOrderly (Text.lines content.toList) (Text.lines content.toList).length
        (read path content) docstrings := by
  unfold readByPlaces? read
  cases Language.ofPath path with
  | unknown =>
    exact ⟨[], fun _ _ => rfl, Nat.le_refl _, .nil, List.forall_mem_nil _, List.forall_mem_nil _⟩
  | python =>
    refine exists_course? (fun state index => Python.readFrom path 0 state (index + 1)
      ((Text.lines content.toList).drop index)) {} (fun state => ?_)
      (Python.readAt?_spec path _ hcount)
    rw [List.drop_length, Python.readFrom]
  | java =>
    refine exists_course? (fun state index => Java.readFrom _ path state (index + 1)
      ((Text.lines content.toList).drop index)) {} (fun state => ?_)
      (Java.readAt?_spec _ path _ hcount)
    rw [List.drop_length, Java.readFrom]

/-- A documentation string that is looked for within the lines ends within them. -/
theorem docstringAt?_within (lines : List (List Char)) {start : Nat} (h : start ≤ lines.length) :
    ∃ text stop, docstringAt? lines start = some (text, stop) ∧
      start ≤ stop ∧ stop ≤ lines.length := by
  have hle := docstring_le (lines.drop start)
  rw [List.length_drop] at hle
  exact ⟨_, _, docstringAt?_eq lines start, Nat.le_add_right _ _, by omega⟩

/-- What the reading of a source by its lines comes to. -/
structure ReadsInOrder (path content : String) : Prop where
  /-- The loop ends without a failure in at most one turn more than there are lines, and
  no element stands in a line that a documentation string took. -/
  ends : ∃ docstrings,
    (∀ turns, (Text.lines content.toList).length < turns →
      readByPlaces? turns path content = some (read path content, docstrings)) ∧
    ∀ d ∈ docstrings, (∃ text, docstringAt? (Text.lines content.toList) d.1 = some (text, d.2)) ∧
      d.1 ≤ d.2 ∧ d.2 ≤ (Text.lines content.toList).length ∧
      ∀ e ∈ read path content, e.line ≤ d.1 ∨ d.2 < e.line
  /-- Wherever a documentation string is looked for, it ends within the lines. -/
  docstring : ∀ start ≤ (Text.lines content.toList).length, ∃ text stop,
    docstringAt? (Text.lines content.toList) start = some (text, stop) ∧
      start ≤ stop ∧ stop ≤ (Text.lines content.toList).length
  /-- Annotations are cut off any text without a failure. -/
  annotations : ∀ text turns, text.length < turns →
    annotationsAt? turns text = some (splitAnnotations text)
  ascending : (read path content).Pairwise (·.line < ·.line)
  numbered : ∀ e ∈ read path content,
    1 ≤ e.line ∧ e.line ≤ (Text.lines content.toList).length
  distinct : ((read path content).map (·.id)).Nodup

/-- **Reading by lines comes to its end without a failure, with at most one element a
line**, whatever stands in the lines. -/
theorem read_by_places (path content : String)
    (hcount : (Text.lines content.toList).length < 2 ^ 32) : ReadsInOrder path content := by
  obtain ⟨docstrings, hread, horderly⟩ := exists_readByPlaces? path content hcount
  exact {
    ends := ⟨docstrings, hread, horderly.docstring⟩
    docstring := fun _ => docstringAt?_within _
    annotations := fun text _ => annotationsAt?_eq text
    ascending := horderly.ascending
    numbered := horderly.numbered
    distinct := nodup_ids horderly.ascending }

/-- A class with a documentation string of three lines, a header that is broken off and
a string that is never closed. -/
theorem read_by_places_unclosed :
    let content :=
      "class A:\n  \"\"\"é\n\n  x = 1\"\"\"\n  def f(:\n  def g():\n    \"\"\"y\n\tz = 2"
    (Text.lines content.toList).length < 2 ^ 32 ∧ ReadsInOrder "a.py" content := by
  intro content
  have hcount : (Text.lines content.toList).length < 2 ^ 32 := by decide +kernel
  exact ⟨hcount, read_by_places "a.py" content hcount⟩

end Docsmith.Source.Lines

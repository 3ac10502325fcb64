import Docsmith.Proofs.Source.JavaOwners
/-!
# Java — what the outline of a source depends on

The outline of an element is all that its own line and the lines around it say
of it, without documentation and annotations (`Element.outline`). Two things
that the reader carries along have no part in it. The package does nothing but
stand in front of every qualified name (`read_eq_within`). And the annotations
and the documentation that wait for a declaration go to that declaration alone:
states that agree in what remains give the same outlines (`outlines_readFrom`).
-/


namespace Docsmith

/-- All of an element but its documentation and annotations. -/
def Element.outline (e : Element) : Element :=
  { e with documentation := "", annotations := [] }

namespace Source.Lines.Java

variable {package : Option String} {path : String} {number depth : Nat} {st st' : State}
variable {scopes : List Scope} {code line : List Char}

/-! ## The package -/

/-- A scope in a package. -/
def Scope.within (package : Option String) (s : Scope) : Scope :=
  { s with qualified := qualify package [] s.qualified }

/-- A state within a package. -/
def State.within (package : Option String) (st : State) : State :=
  { st with scopes := st.scopes.map (Scope.within package) }

/-- An element in a package. -/
def inPackage (package : Option String) (e : Element) : Element :=
  { e with qualifiedName := qualify package [] e.qualifiedName }

/-- The package stands in front of a name and of what is under it. -/
theorem qualify_append (package : Option String) (owner name : String) :
    qualify package [] (owner ++ "." ++ name) = qualify package [] owner ++ "." ++ name := by
  cases package with
  | none => rfl
  | some p => simp [qualify, String.append_assoc]

theorem qualify_within (package : Option String) (scopes : List Scope) (name : String) :
    qualify package (scopes.map (Scope.within package)) name =
      qualify package [] (qualify none scopes name) := by
  cases scopes with
  | nil => rfl
  | cons s scopes => exact (qualify_append package s.qualified name).symm

theorem member?_within (package : Option String) (path : String) (number : Nat) (s : Scope)
    (code : List Char) :
    member? path number (s.within package) code =
      (member? path number s code).map (inPackage package) := by
  simp only [member?, Scope.within]
  split
  · simp [inPackage, qualify_append]
  split
  · simp [inPackage, qualify_append]
  split
  · simp [inPackage, qualify_append]
  · rfl

theorem atMemberLevel_within (package : Option String) (scopes : List Scope) (depth : Nat) :
    atMemberLevel (scopes.map (Scope.within package)) depth = atMemberLevel scopes depth := by
  cases scopes <;> rfl

theorem declare_within (package : Option String) (path : String) (number : Nat) (st : State)
    (code : List Char) :
    declare package path number (st.within package) code =
      ((declare none path number st code).1.map (inPackage package),
        (declare none path number st code).2.map (Scope.within package)) := by
  simp only [declare, State.within, atMemberLevel_within, qualify_within]
  split
  · rfl
  split
  · rfl
  cases st.scopes with
  | nil => rfl
  | cons s scopes => simp [member?_within]

theorem openAt_within (package : Option String) (depth : Nat) (scopes : List Scope) :
    openAt depth (scopes.map (Scope.within package)) =
      (openAt depth scopes).map (Scope.within package) := by
  cases scopes with
  | nil => rfl
  | cons s scopes =>
    simp only [openAt, List.map_cons, Scope.within]
    split <;> rfl

theorem braces_within (package : Option String) (text : List Char) :
    ∀ depth scopes, braces text (depth, scopes.map (Scope.within package)) =
      ((braces text (depth, scopes)).1, (braces text (depth, scopes)).2.map (.within package)) := by
  induction text with
  | nil => exact fun depth scopes => rfl
  | cons c text ih =>
    intro depth scopes
    simp only [braces, openAt_within]
    split_ifs <;> exact ih _ _

theorem leave_within (package : Option String) (depth : Nat) (scopes : List Scope) :
    leave depth (scopes.map (Scope.within package)) =
      (leave depth scopes).map (Scope.within package) := by
  rw [leave, leave, List.dropWhile_map]
  rfl

/-- **A line within a package** does what it does without one, with the package
in front of the names. -/
theorem step_within (package : Option String) (path : String) (number : Nat) (st : State)
    (line : List Char) :
    step package path number (st.within package) line =
      ((step none path number st line).1.within package,
        (step none path number st line).2.map (inPackage package)) := by
  have hmode : (st.within package).mode = st.mode := rfl
  cases h : st.mode with
  | documentation lines =>
    simp only [step, hmode, h]
    split <;> rfl
  | comment =>
    simp only [step, hmode, h]
    rfl
  | code =>
    simp only [step, hmode, h]
    split
    · split <;> rfl
    split
    · rfl
    split
    · rfl
    simp only [stepCode, declare_within]
    split
    · rfl
    · simp only [State.within, braces_within, leave_within, Option.map_map]
      rfl

/-- By induction on the lines: so does a whole reading. -/
theorem readFrom_within (package : Option String) (path : String) (lines : List (List Char)) :
    ∀ st number, readFrom package path (st.within package) number lines =
      (readFrom none path st number lines).map (inPackage package) := by
  induction lines with
  | nil => exact fun st number => rfl
  | cons line lines ih =>
    intro st number
    rw [readFrom_cons, readFrom_cons, step_within, ih, List.map_append, Option.toList_map]

theorem run_within (package : Option String) (path : String) (lines : List (List Char)) :
    ∀ st number, run package path (st.within package) number lines =
      (run none path st number lines).within package := by
  induction lines with
  | nil => exact fun st number => rfl
  | cons line lines ih =>
    intro st number
    rw [run, run, step_within, ih]

/-- **The package of a source stands in front of its qualified names** and
changes nothing else. -/
theorem read_eq_within (path : String) (content : List Char) :
    read path content =
      (readFrom none path {} 1 (Text.lines content)).map (inPackage (packageOf content)) :=
  readFrom_within (packageOf content) path (Text.lines content) {} 1

theorem stateAfter_within (package : Option String) (path : String) (lines : List (List Char))
    (n : Nat) :
    stateAfter package path lines n = (stateAfter none path lines n).within package :=
  run_within package path (lines.take n) {} 1

/-! ## What waits for a declaration -/

/-- The states differ at most in what waits for a declaration. -/
structure Agree (st st' : State) : Prop where
  mode : st.mode = st'.mode
  scopes : st.scopes = st'.scopes
  depth : st.depth = st'.depth

theorem Agree.refl (st : State) : Agree st st :=
  ⟨rfl, rfl, rfl⟩

/-- **States that agree do so over a line**, and the line gives the same
outline. -/
theorem Agree.step (h : Agree st st') (package : Option String) (path : String) (number : Nat)
    (line : List Char) :
    Agree (step package path number st line).1 (step package path number st' line).1 ∧
      (Java.step package path number st line).2.map Element.outline =
        (Java.step package path number st' line).2.map Element.outline := by
  obtain ⟨mode, scopes, depth, annotations, documentation⟩ := st
  obtain ⟨_, _, _, annotations', documentation'⟩ := st'
  obtain ⟨rfl, rfl, rfl⟩ := h
  cases mode with
  | documentation lines =>
    simp only [Java.step]
    split <;> exact ⟨⟨rfl, rfl, rfl⟩, rfl⟩
  | comment => exact ⟨⟨rfl, rfl, rfl⟩, rfl⟩
  | code =>
    simp only [Java.step]
    split
    · split <;> exact ⟨⟨rfl, rfl, rfl⟩, rfl⟩
    split
    · exact ⟨⟨rfl, rfl, rfl⟩, rfl⟩
    split
    · exact ⟨⟨rfl, rfl, rfl⟩, rfl⟩
    simp only [stepCode]
    split
    · exact ⟨⟨rfl, rfl, rfl⟩, rfl⟩
    · exact ⟨⟨rfl, rfl, rfl⟩, by simp only [Option.map_map]; rfl⟩

/-- **What waits for a declaration has no part in an outline.** -/
theorem outlines_readFrom (package : Option String) (path : String) (lines : List (List Char)) :
    ∀ {st st'} number, Agree st st' →
      (readFrom package path st number lines).map Element.outline =
        (readFrom package path st' number lines).map Element.outline := by
  induction lines with
  | nil => exact fun number h => rfl
  | cons line lines ih =>
    intro st st' number h
    obtain ⟨hnext, helement⟩ := h.step package path number line
    rw [readFrom_cons, readFrom_cons, List.map_append, List.map_append, ih _ hnext,
      ← Option.toList_map, ← Option.toList_map, helement]

end Source.Lines.Java

end Docsmith

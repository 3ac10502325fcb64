import Docsmith.Proofs.Element.Ownership
import Docsmith.Proofs.Text.Lines
import Docsmith.Source.Lines.Python
import Mathlib.Tactic.SplitIfs
/-!
# Python — elements read by lines

A line gives at most one element, under the class of the innermost scope that
stays open before it, and a class's scope opens only with the class. So what a
line and the lines after it give is in order behind the classes whose scopes
are open before it (`inOrder_step`), and so are the elements of a whole source
(`inOrder_read`).
-/


namespace Docsmith.Source.Lines.Python

variable {line name rest : List Char} {c : Char}

/-! ## Names -/

/-- No blank may start a name. -/
theorem isBlank_of_startsName (h : startsName c = true) : Text.isBlank c = false := by
  simp only [startsName, Bool.or_eq_true, beq_iff_eq] at h
  rcases h with h | rfl
  · exact isBlank_of_toNat (toNat_of_isAlpha h).1 (toNat_of_isAlpha h).2
  · decide

theorem isSimpleName_of_name? {text : List Char} (h : name? text = some (name, rest)) :
    IsSimpleName (String.ofList name) := by
  cases text with
  | nil => cases h
  | cons c text =>
    simp only [name?] at h
    split_ifs at h with hstarts
    cases h
    refine .ofList_cons (isBlank_of_startsName hstarts) ?_ fun hdot => ?_
    · rintro rfl
      cases hstarts
    · have hpart := List.all_eq_true.1 List.all_takeWhile _ hdot
      exact absurd hpart (by decide +kernel)

/-! ## Forms -/

/-- A header is called by a simple name, and its text is on the line. -/
structure IsHeaderOf (line : List Char) (h : Header) : Prop where
  named : IsSimpleName (String.ofList h.name)
  text : h.text ⊆ line

theorem isHeaderOf_of_classHeader? {h : Header} (hclass : classHeader? line = some h) :
    IsHeaderOf line h := by
  simp only [classHeader?, Option.bind_eq_bind, Option.bind_eq_some_iff, Prod.exists] at hclass
  obtain ⟨_, -, name, rest, hname, hcolon⟩ := hclass
  split at hcolon
  · cases hcolon
    exact ⟨isSimpleName_of_name? hname, List.take_subset _ _⟩
  · cases hcolon

theorem isHeaderOf_of_functionHeader? {h : Header} (hfunction : functionHeader? line = some h) :
    IsHeaderOf line h := by
  simp only [functionHeader?, Option.bind_eq_bind, Option.bind_eq_some_iff, Prod.exists]
    at hfunction
  obtain ⟨_, -, name, rest, hname, _, _, -, _, -, hheader⟩ := hfunction
  cases hheader
  exact ⟨isSimpleName_of_name? hname, List.take_subset _ _⟩

theorem isSimpleName_of_assignment? {value : List Char}
    (h : assignment? line = some (name, value)) : IsSimpleName (String.ofList name) := by
  simp only [assignment?, Option.bind_eq_bind, Option.bind_eq_some_iff, Prod.exists] at h
  obtain ⟨name, rest, hname, _, -, hvalue⟩ := h
  split at hvalue <;> cases hvalue <;> exact isSimpleName_of_name? hname

theorem feed_not_mem_trimmed {text : List Char} (htext : text ⊆ line) (h : '\n' ∉ line) :
    '\n' ∉ (trimmed text).toList := by
  rw [trimmed, String.toList_ofList]
  exact fun hmem => h (htext (Text.mem_of_mem_trim hmem))

/-! ## One line -/

variable {path : String} {number count indent : Nat} {state : State} {scopes : List Scope}
variable {e : Element} {es : List Element} {decorators : List String} {after : List (List Char)}

/-- The qualified names of the classes whose scopes are open. -/
def classes (scopes : List Scope) : List String :=
  scopes.filterMap (·.type)

/-- The class of the innermost scope is open. -/
theorem owner?_subset_classes (scopes : List Scope) : (owner? scopes).toList ⊆ classes scopes := by
  cases scopes with
  | nil => exact List.nil_subset _
  | cons s scopes =>
    cases htype : s.type with
    | none => simp [owner?, htype]
    | some q => simp [owner?, classes, htype]

/-- Closing scopes closes classes. -/
theorem classes_enclosing_subset (indent : Nat) (scopes : List Scope) :
    classes (enclosing indent scopes) ⊆ classes scopes :=
  ((List.dropWhile_suffix _).sublist.filterMap _).subset

/-- What is read of a line inside some scopes: it is sound, and called by its
name in the innermost one. -/
structure IsReadIn (path : String) (count : Nat) (scopes : List Scope) (e : Element) : Prop where
  sound : e.IsSound path count
  called : e.IsCalledIn (owner? scopes)

/-- So it stands under an open class, or alone. -/
theorem IsReadIn.isUnder (h : IsReadIn path count scopes e) :
    e.qualifiedName = e.name ∨ ∃ owner ∈ classes scopes, e.IsUnder owner :=
  (h.called.isUnder h.sound.named).imp_right fun ⟨owner, ho, hu⟩ =>
    ⟨owner, owner?_subset_classes scopes ho, hu⟩

/-- A class that is read is known to what stands in its body. -/
theorem IsReadIn.inOrder_cons (h : IsReadIn path count scopes e) (hkind : e.kind = .type)
    (hes : InOrder path count (fun e => e.qualifiedName = e.name)
      (e.qualifiedName :: classes scopes) es) :
    InOrder path count (fun e => e.qualifiedName = e.name) (classes scopes) (e :: es) :=
  .cons_type hkind h.sound h.isUnder hes

/-- What stands behind another element that is read. -/
theorem IsReadIn.inOrder_append {element : Option Element}
    (h : ∀ e ∈ element, IsReadIn path count scopes e)
    (hes : InOrder path count (fun e => e.qualifiedName = e.name) (classes scopes) es) :
    InOrder path count (fun e => e.qualifiedName = e.name) (classes scopes)
      (element.toList ++ es) :=
  .append (.of_forall fun e he =>
    have hread := h e (Option.mem_toList.1 he)
    ⟨hread.sound, hread.isUnder⟩) hes

section

variable (hline : '\n' ∉ line) (hpos : 1 ≤ number) (hle : number ≤ count)

include hline hpos hle

/-- What is made of a text on the line. -/
theorem isReadIn_of {text : List Char} (hname : IsSimpleName e.name) (htext : text ⊆ line)
    (hfile : e.file = path) (hnumber : e.line = number) (hsignature : e.signature = trimmed text)
    (hq : e.qualifiedName = qualify (owner? scopes) e.name) :
    IsReadIn path count scopes e := by
  have hcalled : e.IsCalledIn (owner? scopes) := hq.trans (by cases owner? scopes <;> rfl)
  refine ⟨⟨hfile, hname, hcalled.exists_before, hnumber ▸ hpos, hnumber ▸ hle, ?_⟩, hcalled⟩
  rw [hsignature]
  exact feed_not_mem_trimmed htext hline

theorem isReadIn_fieldOf? (h : fieldOf? path number scopes line = some e) :
    IsReadIn path count scopes e := by
  unfold fieldOf? at h
  split at h
  · cases h
  · obtain ⟨⟨name, value⟩, hname, hfield⟩ := Option.bind_eq_some_iff.1 h
    dsimp only at hfield
    split at hfield
    · cases hfield
    · cases hfield
      exact isReadIn_of hline hpos hle (isSimpleName_of_assignment? hname) (List.Subset.refl _)
        rfl rfl rfl rfl

theorem inOrder_stepClass {h : Header} (hheader : IsHeaderOf line h)
    (hes : InOrder path count (fun e => e.qualifiedName = e.name)
      (classes (stepClass path number indent scopes decorators h after).state.scopes) es) :
    InOrder path count (fun e => e.qualifiedName = e.name) (classes scopes)
      ((stepClass path number indent scopes decorators h after).element.toList ++ es) := by
  unfold stepClass at hes ⊢
  dsimp only at hes ⊢
  split_ifs at hes ⊢
  · exact hes
  · refine IsReadIn.inOrder_cons ?_ rfl hes
    exact isReadIn_of hline hpos hle hheader.named hheader.text rfl rfl rfl rfl

theorem isReadIn_stepFunction {h : Header} (hheader : IsHeaderOf line h) :
    ∀ e ∈ (stepFunction path number indent scopes decorators h after).element,
      IsReadIn path count scopes e := by
  unfold stepFunction
  dsimp only
  split_ifs
  · exact nofun
  · rintro e ⟨⟩
    exact isReadIn_of hline hpos hle hheader.named hheader.text rfl rfl rfl rfl

/-- **What a line gives, and what is read after it, is in order** behind the
classes that were open before it. -/
theorem inOrder_step
    (hes : InOrder path count (fun e => e.qualifiedName = e.name)
      (classes (step path state number line after).state.scopes) es) :
    InOrder path count (fun e => e.qualifiedName = e.name) (classes state.scopes)
      ((step path state number line after).element.toList ++ es) := by
  generalize hstep : step path state number line after = s at hes ⊢
  unfold step at hstep
  dsimp only at hstep
  split at hstep
  · subst hstep
    exact hes
  · -- what the line closes was open before it
    refine InOrder.mono ?_ (classes_enclosing_subset (indentation line) state.scopes)
    split at hstep
    · subst hstep
      exact hes
    · split at hstep
      · next h hclass =>
        subst hstep
        exact inOrder_stepClass hline hpos hle (isHeaderOf_of_classHeader? hclass) hes
      · split at hstep
        · next h hfunction =>
          subst hstep
          exact IsReadIn.inOrder_append (isReadIn_stepFunction hline hpos hle
            (isHeaderOf_of_functionHeader? hfunction)) hes
        · subst hstep
          exact IsReadIn.inOrder_append (fun e he => isReadIn_fieldOf? hline hpos hle he) hes

end

/-! ## All lines -/

/-- By induction on the lines: those from any state on. -/
theorem inOrder_readFrom (lines : List (List Char)) (hlines : ∀ line ∈ lines, '\n' ∉ line) :
    ∀ skip state number, 1 ≤ number → number + lines.length ≤ count + 1 →
      InOrder path count (fun e => e.qualifiedName = e.name) (classes state.scopes)
        (readFrom path skip state number lines) := by
  induction lines with
  | nil =>
    intro skip state number _ _
    cases skip <;> exact .nil
  | cons line lines ih =>
    intro skip state number hpos hle
    rw [List.length_cons] at hle
    have hrest := ih fun l hl => hlines l (List.mem_cons_of_mem _ hl)
    cases skip with
    | succ skip => exact hrest skip state (number + 1) (by omega) (by omega)
    | zero =>
      exact inOrder_step (hlines line List.mem_cons_self) hpos (by omega)
        (hrest _ _ _ (by omega) (by omega))

/-- **What is read of a source by its lines is in order.** -/
theorem inOrder_read (path : String) (content : List Char) :
    InOrder path (Text.lines content).length (fun e => e.qualifiedName = e.name) []
      (read path content) :=
  inOrder_readFrom _ (fun _ => Text.feed_not_mem_of_mem_lines) 0 {} 1 (Nat.le_refl 1) (by omega)

end Docsmith.Source.Lines.Python

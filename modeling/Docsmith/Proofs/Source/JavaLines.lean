import Docsmith.Proofs.Element.Ownership
import Docsmith.Proofs.Text.Lines
import Docsmith.Source.Lines.Java
import Mathlib.Tactic.SplitIfs
/-!
# Java — elements read by lines

The reader of lines keeps a stack of the types whose bodies are open. A
line declares nothing, a type, which goes on the stack, or a member of the
type on top (`Declares`); following the braces only takes types off again.
A type is declared before its body is open, so what a line and the lines
after it give is in order behind the types on the stack before it
(`inOrder_step`), and so are the elements of a whole source
(`inOrder_read`).
-/


namespace Docsmith.Source.Lines.Java

/-! ## Names -/

/-- No blank may start a name. -/
theorem isBlank_of_startsName {c : Char} (h : startsName c = true) : Text.isBlank c = false := by
  simp only [startsName, Bool.or_eq_true, beq_iff_eq] at h
  rcases h with (h | rfl) | rfl
  · exact isBlank_of_toNat (toNat_of_isAlpha h).1 (toNat_of_isAlpha h).2
  · decide
  · decide

theorem isNameChar_dot : isNameChar '.' = false := by decide +kernel

/-- A start and characters of a name make a simple name. -/
theorem isSimpleName_cons {c : Char} {text : List Char} (hc : startsName c = true)
    (htext : ∀ d ∈ text, isNameChar d = true) : IsSimpleName (String.ofList (c :: text)) := by
  refine .ofList_cons (isBlank_of_startsName hc) ?_ fun hdot => ?_
  · rintro rfl
    cases hc
  · have := htext _ hdot
    rw [isNameChar_dot] at this
    cases this

theorem isSimpleName_of_isName {text : List Char} (h : isName text = true) :
    IsSimpleName (String.ofList text) := by
  cases text with
  | nil => cases h
  | cons c text =>
    simp only [isName, Bool.and_eq_true, List.all_eq_true] at h
    exact isSimpleName_cons h.1 h.2

theorem isSimpleName_of_name? {text name rest : List Char} (h : name? text = some (name, rest)) :
    IsSimpleName (String.ofList name) := by
  cases text with
  | nil => cases h
  | cons c text =>
    simp only [name?] at h
    split_ifs at h with hc
    cases h
    exact isSimpleName_cons hc (List.all_eq_true.1 List.all_takeWhile)

/-! ## Forms -/

variable {code text type name : List Char} {f : Form}

theorem isSimpleName_of_typeForm? (h : typeForm? code = some f) :
    IsSimpleName (String.ofList f.name) := by
  simp only [typeForm?, Option.bind_eq_bind, Option.bind_eq_some_iff, Option.some.injEq,
    Prod.exists] at h
  obtain ⟨_, _, name, rest, hname, rfl⟩ := h
  exact isSimpleName_of_name? hname

theorem isSimpleName_of_typeAndName? (h : typeAndName? text = some (type, name)) :
    IsSimpleName (String.ofList name) := by
  simp only [typeAndName?] at h
  split_ifs at h with hname
  have hlast : name = (lastWord text).1 := by
    split at h
    · split at h <;> cases h
      rfl
    · split_ifs at h
      cases h
      rfl
  rw [hlast]
  exact isSimpleName_of_isName (by simpa using hname)

theorem isSimpleName_of_methodBody? (h : methodBody? code text = some f) :
    IsSimpleName (String.ofList f.name) := by
  simp only [methodBody?, Option.bind_eq_bind, Option.bind_eq_some_iff, Option.some.injEq,
    Prod.exists] at h
  obtain ⟨_, _, _, _, _, _, name, hname, rfl⟩ := h
  exact isSimpleName_of_typeAndName? hname

theorem isSimpleName_of_methodForm? (h : methodForm? code = some f) :
    IsSimpleName (String.ofList f.name) := by
  simp only [methodForm?] at h
  split at h
  · next form hgeneric =>
    cases h
    obtain ⟨spaced, -, hbody⟩ := Option.bind_eq_some_iff.1 hgeneric
    dsimp only at hbody
    split at hbody
    · next hform =>
      cases hbody
      exact isSimpleName_of_methodBody? hform
    · obtain ⟨_, _, hform⟩ := List.exists_of_findSome?_eq_some hbody
      exact isSimpleName_of_methodBody? hform
  · exact isSimpleName_of_methodBody? h

theorem isSimpleName_of_fieldForm? (h : fieldForm? code = some f) :
    IsSimpleName (String.ofList f.name) := by
  simp only [fieldForm?] at h
  split_ifs at h
  obtain ⟨⟨type, name⟩, hname, hform⟩ := Option.bind_eq_some_iff.1 h
  cases hform
  exact isSimpleName_of_typeAndName? hname

/-! ## One line -/

variable {path : String} {number : Nat} {package : Option String} {st : State}
variable {scope : Scope} {scopes before after : List Scope} {e : Element} {element : Option Element}

/-- The element stands in a line with a number: it has a simple name, and a
signature of one line. -/
structure IsAt (path : String) (number : Nat) (e : Element) : Prop where
  file : e.file = path
  line : e.line = number
  named : IsSimpleName e.name
  signature : '\n' ∉ e.signature.toList

/-- All that a line can declare at a depth, and the scopes behind it: nothing; a
type, whose scope waits for the next depth; or a member of the scope on top,
whose body is at the line's depth. -/
inductive Declares (package : Option String) (path : String) (number depth : Nat) :
    List Scope → Option Element → List Scope → Prop where
  | nothing {scopes : List Scope} : Declares package path number depth scopes none scopes
  | type {scopes : List Scope} {c : Element} (kind : c.kind = .type) (isAt : IsAt path number c)
      (qualified : c.qualifiedName = qualify package scopes c.name)
      (level : atMemberLevel scopes depth = true) :
      Declares package path number depth scopes (some c)
        (⟨c.qualifiedName, c.name, depth + 1, false⟩ :: scopes)
  | member {scope : Scope} {rest : List Scope} {e : Element} (kind : e.kind ≠ .type)
      (isAt : IsAt path number e) (qualified : e.qualifiedName = scope.qualified ++ "." ++ e.name)
      (level : scope.bodyDepth = depth) :
      Declares package path number depth (scope :: rest) (some e) (scope :: rest)

/-- The names of all scopes are simple. -/
def AreNamed (scopes : List Scope) : Prop :=
  ∀ s ∈ scopes, IsSimpleName s.name

/-- A qualified name ends with the name. -/
theorem exists_qualify (package : Option String) (scopes : List Scope) (name : String) :
    ∃ before, qualify package scopes name = before ++ name := by
  unfold qualify
  split
  · exact ⟨_, rfl⟩
  · exact ⟨_, rfl⟩
  · exact ⟨"", String.empty_append.symm⟩

/-- A text in single spaces is a signature of one line. -/
theorem feed_not_mem_collapsed (text : List Char) :
    '\n' ∉ (String.ofList (Text.collapse text)).toList := by
  rw [String.toList_ofList]
  exact Text.feed_not_mem_collapse text

/-- What a line declares as a member is declared in the scope. -/
theorem isAt_of_member? (hscope : IsSimpleName scope.name)
    (h : member? path number scope code = some e) :
    e.kind ≠ .type ∧ IsAt path number e ∧ e.qualifiedName = scope.qualified ++ "." ++ e.name := by
  unfold member? at h
  dsimp only at h
  split at h
  · cases h
    exact ⟨nofun, ⟨rfl, rfl, hscope, feed_not_mem_collapsed _⟩, rfl⟩
  · split at h
    · next hform =>
      cases h
      have hname := isSimpleName_of_methodForm? (Option.eq_some_of_filter_eq_some hform)
      exact ⟨nofun, ⟨rfl, rfl, hname, feed_not_mem_collapsed _⟩, rfl⟩
    · split at h
      · next hform =>
        cases h
        have hname := isSimpleName_of_fieldForm? (Option.eq_some_of_filter_eq_some hform)
        exact ⟨nofun, ⟨rfl, rfl, hname, feed_not_mem_collapsed _⟩, rfl⟩
      · cases h

theorem declares_declare (hnamed : AreNamed st.scopes) :
    Declares package path number st.depth st.scopes (declare package path number st code).1
      (declare package path number st code).2 := by
  unfold declare
  split
  · exact .nothing
  · next hlevel =>
    rw [Bool.not_eq_true, Bool.not_eq_false'] at hlevel
    split
    · next f hf =>
      exact .type rfl ⟨rfl, rfl, isSimpleName_of_typeForm? hf, feed_not_mem_collapsed _⟩ rfl hlevel
    · split
      · next scope rest hscopes =>
        rw [hscopes] at hnamed hlevel ⊢
        cases hmember : member? path number scope code with
        | none => exact .nothing
        | some e =>
          obtain ⟨hkind, hat, hq⟩ := isAt_of_member? (hnamed _ List.mem_cons_self) hmember
          exact .member hkind hat hq (beq_iff_eq.1 hlevel)
      · next hscopes =>
        rw [hscopes]
        exact .nothing

variable {depth : Nat}

theorem Declares.isAt (h : Declares package path number depth before (some e) after) :
    IsAt path number e := by
  cases h with
  | type _ isAt _ _ => exact isAt
  | member _ isAt _ _ => exact isAt

/-- Annotations and a comment are no part of what is declared. -/
theorem Declares.annotated (h : Declares package path number depth before element after)
    (annotations : List String) (documentation : String) :
    Declares package path number depth before
      (element.map fun e => { e with annotations, documentation }) after := by
  cases h with
  | nothing => exact .nothing
  | @type _ c kind isAt qualified level =>
    exact .type (c := { c with annotations, documentation }) kind
      ⟨isAt.file, isAt.line, isAt.named, isAt.signature⟩ qualified level
  | member kind isAt qualified level =>
    exact .member kind ⟨isAt.file, isAt.line, isAt.named, isAt.signature⟩ qualified level

/-- The text of a line is a comment as far as its start tells. -/
def isComment (text : List Char) : Bool :=
  ['/', '*'].isPrefixOf text || ['/', '/'].isPrefixOf text

/-- The code of a line, of which the braces are followed: what remains of it
without literals, a comment at its end and annotations in front. Comments have
none. -/
def codeOf (st : State) (line : List Char) : List Char :=
  let text := Text.trim line
  if st.mode = .code ∧ isComment text = false then
    Text.trim (splitAnnotations (stripNoise none text)).2
  else []

/-- A documentation comment is a comment. -/
theorem isComment_of_documentation {text : List Char} (h : ['/', '*', '*'].isPrefixOf text = true) :
    isComment text = true := by
  obtain ⟨rest, rfl⟩ := List.isPrefixOf_iff_prefix.1 h
  rfl

/-- **All that a line can do.** Without code it leaves the scopes and the depth
as they are; with code it declares something perhaps, and then its braces are
followed and the scopes left that they close. -/
theorem step_cases (package : Option String) (path : String) (number : Nat)
    (hnamed : AreNamed st.scopes) (line : List Char) :
    (codeOf st line = [] ∧ (step package path number st line).2 = none ∧
      (step package path number st line).1.scopes = st.scopes ∧
      (step package path number st line).1.depth = st.depth) ∨
    ∃ scopes, Declares package path number st.depth st.scopes
        (step package path number st line).2 scopes ∧
      (step package path number st line).1.depth = (braces (codeOf st line) (st.depth, scopes)).1 ∧
      (step package path number st line).1.scopes =
        leave (braces (codeOf st line) (st.depth, scopes)).1
          (braces (codeOf st line) (st.depth, scopes)).2 := by
  cases hmode : st.mode with
  | documentation lines =>
    left
    refine ⟨by simp [codeOf, hmode], ?_⟩
    simp only [step, hmode]
    split <;> exact ⟨rfl, rfl, rfl⟩
  | comment =>
    left
    simp [codeOf, step, hmode]
  | code =>
    have hcomment (h : isComment (Text.trim line) = true) : codeOf st line = [] := by
      simp [codeOf, h]
    simp only [step, hmode]
    split
    · next h =>
      left
      refine ⟨hcomment (isComment_of_documentation h), ?_⟩
      split <;> exact ⟨rfl, rfl, rfl⟩
    split
    · next h =>
      left
      exact ⟨hcomment (by simp [isComment, h]), rfl, rfl, rfl⟩
    split
    · next h =>
      left
      refine ⟨?_, rfl, rfl, rfl⟩
      rcases Bool.or_eq_true_iff.1 h with h | h
      · rw [codeOf, List.isEmpty_iff.1 h]
        split_ifs <;> rfl
      · exact hcomment (by simp [isComment, h])
    · next hblock hline =>
      have hcode : codeOf st line =
          Text.trim (splitAnnotations (stripNoise none (Text.trim line))).2 := by
        have hnot : isComment (Text.trim line) = false := by
          rw [Bool.or_eq_true, not_or] at hline
          rw [isComment, Bool.or_eq_false_iff]
          exact ⟨Bool.eq_false_iff.2 hblock, Bool.eq_false_iff.2 hline.2⟩
        simp [codeOf, hmode, hnot]
      simp only [stepCode, ← hcode]
      split
      · next hempty => exact .inl ⟨List.isEmpty_iff.1 hempty, rfl, rfl, rfl⟩
      · exact .inr ⟨_, (declares_declare hnamed).annotated _ _, rfl, rfl⟩

/-! ## Braces -/

/-- The scopes after are scopes before, some of them opened since. -/
def Keeps (before after : List Scope) : Prop :=
  ∀ s ∈ after, ∃ t ∈ before, t.qualified = s.qualified ∧ t.name = s.name

theorem Keeps.refl (scopes : List Scope) : Keeps scopes scopes :=
  fun s hs => ⟨s, hs, rfl, rfl⟩

theorem Keeps.trans {middle : List Scope} (h : Keeps before middle) (h' : Keeps middle after) :
    Keeps before after := by
  intro s hs
  obtain ⟨t, ht, hq, hn⟩ := h' s hs
  obtain ⟨u, hu, hq', hn'⟩ := h t ht
  exact ⟨u, hu, hq'.trans hq, hn'.trans hn⟩

theorem keeps_openAt (depth : Nat) (scopes : List Scope) : Keeps scopes (openAt depth scopes) := by
  intro s hs
  cases scopes with
  | nil => cases hs
  | cons first rest =>
    rcases List.mem_cons.1 hs with rfl | hs
    · refine ⟨first, List.mem_cons_self, ?_⟩
      split <;> exact ⟨rfl, rfl⟩
    · exact ⟨s, List.mem_cons_of_mem _ hs, rfl, rfl⟩

/-- **Following the braces of a line** opens bodies and closes none. -/
theorem keeps_braces (text : List Char) :
    ∀ depth scopes, Keeps scopes (braces text (depth, scopes)).2 := by
  induction text with
  | nil => exact fun depth scopes => .refl scopes
  | cons c text ih =>
    intro depth scopes
    simp only [braces]
    split_ifs
    · exact (keeps_openAt _ scopes).trans (ih _ _)
    · exact ih _ _
    · exact ih _ _

theorem keeps_leave (depth : Nat) (scopes : List Scope) : Keeps scopes (leave depth scopes) :=
  fun s hs => ⟨s, (List.dropWhile_suffix _).subset hs, rfl, rfl⟩

theorem AreNamed.of_keeps (h : AreNamed before) (hkeeps : Keeps before after) : AreNamed after := by
  intro s hs
  obtain ⟨t, ht, -, hname⟩ := hkeeps s hs
  exact hname ▸ h t ht

/-! ## Order -/

/-- The qualified names of the types whose bodies are open. -/
def outside (scopes : List Scope) : List String :=
  scopes.map (·.qualified)

theorem Keeps.outside_subset (h : Keeps before after) : outside after ⊆ outside before := by
  intro owner howner
  obtain ⟨s, hs, rfl⟩ := List.mem_map.1 howner
  obtain ⟨t, ht, hq, -⟩ := h s hs
  exact List.mem_map.2 ⟨t, ht, hq⟩

/-- The scopes stay named over what a line declares. -/
theorem Declares.areNamed (h : Declares package path number depth before element after)
    (hnamed : AreNamed before) : AreNamed after := by
  cases h with
  | nothing => exact hnamed
  | type _ isAt _ _ => exact List.forall_mem_cons.2 ⟨isAt.named, hnamed⟩
  | member _ _ _ _ => exact hnamed

/-- **What follows a declaration is in order behind it.** -/
theorem Declares.inOrder {count : Nat} (h : Declares package path number depth before element after)
    (hpos : 1 ≤ number) (hle : number ≤ count) {es : List Element}
    (hes : InOrder path count (·.kind = .type) (outside after) es) :
    InOrder path count (·.kind = .type) (outside before) (element.toList ++ es) := by
  have hsound {e : Element} (hat : IsAt path number e)
      (hq : ∃ before, e.qualifiedName = before ++ e.name) : e.IsSound path count :=
    ⟨hat.file, hat.named, hq, hat.line ▸ hpos, hat.line ▸ hle, hat.signature⟩
  cases h with
  | nothing => exact hes
  | @type _ c kind isAt qualified _ =>
    exact .cons_type kind (hsound isAt (qualified ▸ exists_qualify _ _ _)) (.inl kind) hes
  | @member scope rest e kind isAt qualified _ =>
    refine .append (.of_forall fun d hd => ?_) hes
    obtain rfl : d = e := List.mem_singleton.1 hd
    exact ⟨hsound isAt ⟨_, qualified⟩,
      .inr ⟨scope.qualified, List.mem_cons_self, _, isAt.named, qualified⟩⟩

/-- A line declares something perhaps; then some scopes are left. -/
theorem step_declares (package : Option String) (path : String) (number : Nat)
    (hnamed : AreNamed st.scopes) (line : List Char) :
    ∃ scopes, Declares package path number st.depth st.scopes
        (step package path number st line).2 scopes ∧
      Keeps scopes (step package path number st line).1.scopes := by
  rcases step_cases package path number hnamed line with
    ⟨-, hnone, hscopes, -⟩ | ⟨scopes, hdeclares, -, hleave⟩
  · rw [hnone, hscopes]
    exact ⟨st.scopes, .nothing, .refl _⟩
  · rw [hleave]
    exact ⟨scopes, hdeclares, (keeps_braces _ _ _).trans (keeps_leave _ _)⟩

/-- One line keeps the stack named. -/
theorem areNamed_step (package : Option String) (path : String) (number : Nat)
    (hnamed : AreNamed st.scopes) (line : List Char) :
    AreNamed (step package path number st line).1.scopes := by
  obtain ⟨scopes, hdeclares, hkeeps⟩ := step_declares package path number hnamed line
  exact (hdeclares.areNamed hnamed).of_keeps hkeeps

/-- **What one line gives, and what is read after it, is in order** behind the
types that were open before it. -/
theorem inOrder_step {count : Nat} (package : Option String) (hnamed : AreNamed st.scopes)
    (hpos : 1 ≤ number) (hle : number ≤ count) (line : List Char) {es : List Element}
    (hes : InOrder path count (·.kind = .type)
      (outside (step package path number st line).1.scopes) es) :
    InOrder path count (·.kind = .type) (outside st.scopes)
      ((step package path number st line).2.toList ++ es) := by
  obtain ⟨scopes, hdeclares, hkeeps⟩ := step_declares package path number hnamed line
  exact hdeclares.inOrder hpos hle (hes.mono hkeeps.outside_subset)

/-- By induction on the lines: those from any state on. -/
theorem inOrder_readFrom {count : Nat} (lines : List (List Char)) :
    ∀ st number, AreNamed st.scopes → 1 ≤ number → number + lines.length ≤ count + 1 →
      InOrder path count (·.kind = .type) (outside st.scopes)
        (readFrom package path st number lines) := by
  induction lines with
  | nil => exact fun st number hnamed hpos hle => .nil
  | cons line lines ih =>
    intro st number hnamed hpos hle
    rw [List.length_cons] at hle
    exact inOrder_step package hnamed hpos (by omega) line
      (ih _ _ (areNamed_step package path number hnamed line) (by omega) (by omega))

/-- **What is read of a source by its lines is in order.** -/
theorem inOrder_read (path : String) (content : List Char) :
    InOrder path (Text.lines content).length (·.kind = .type) [] (read path content) := by
  have hnamed : AreNamed ({} : State).scopes := List.forall_mem_nil _
  exact inOrder_readFrom _ _ _ hnamed (Nat.le_refl 1) (by omega)

end Docsmith.Source.Lines.Java

import Docsmith.Element.Basic
import Docsmith.Proofs.Text.Split
/-!
# Elements — names, owners and their order

Readers of sources declare a class before what stands in its body, so an
element that is declared under a class comes behind that class. This is said
along a list of elements, with the classes that are known before it
(`InOrder`): the known classes of a stretch may be those of the stretches before
it (`InOrder.append`), and in a list that began with none an element's class
stands in front of the element (`InOrder.preceded`). What an element is on its
own, whatever stands around it, is a structure of its own
(`Element.IsSound`).
-/


namespace Docsmith

/-! ## Simple names and owners

Readers of sources give a declaration a simple name, and one that is declared
under an owner the owner's name with a dot and its own behind it. The dot that
an owner is told by is then the last one, so the owner of the element is what
it was declared under (`Element.IsUnder.owner?_eq`).
-/

/-- A name as sources declare it: one word, so neither blank nor cut by a
dot. -/
structure IsSimpleName (name : String) : Prop where
  notBlank : Text.isBlankText name.toList = false
  noDot : '.' ∉ name.toList

/-- Letters stand between the dollar sign and `z`. -/
theorem toNat_of_isAlpha {c : Char} (h : c.isAlpha = true) : 36 ≤ c.toNat ∧ c.toNat ≤ 122 := by
  rcases Bool.or_eq_true_iff.1 h with hcase | hcase
  · have hupper : 'A'.val ≤ c.val ∧ c.val ≤ 'Z'.val := of_decide_eq_true hcase
    have hlow : 65 ≤ c.toNat := hupper.1
    have hhigh : c.toNat ≤ 90 := hupper.2
    omega
  · obtain ⟨hlower, hupper⟩ := Bool.and_eq_true_iff.1 hcase
    have hlow : 97 ≤ c.toNat := (of_decide_eq_true hlower : c.val ≥ 'a'.val)
    have hhigh : c.toNat ≤ 122 := (of_decide_eq_true hupper : c.val ≤ 'z'.val)
    omega

/-- No blank stands there. -/
theorem isBlank_of_toNat {c : Char} (hlow : 36 ≤ c.toNat) (hhigh : c.toNat ≤ 122) :
    Text.isBlank c = false := by
  have hne : ∀ d : Char, d.toNat < 36 ∨ 122 < d.toNat → c ≠ d := by
    rintro d hd rfl
    omega
  have hup : ∀ d : Char, d.toNat < 36 → ¬ c ≤ d := fun d hd (hle : c.toNat ≤ d.toNat) => by omega
  have hdown : ∀ d : Char, 122 < d.toNat → ¬ d ≤ c := fun d hd (hle : d.toNat ≤ c.toNat) => by omega
  simp only [Text.isBlank, Bool.or_eq_false_iff, Bool.and_eq_false_iff, beq_eq_false_iff_ne,
    decide_eq_false_iff_not]
  refine ⟨⟨⟨⟨⟨⟨⟨⟨⟨⟨hne _ ?_, .inr (hup _ ?_)⟩, hne _ ?_⟩, hne _ ?_⟩, hne _ ?_⟩,
    .inl (hdown _ ?_)⟩, hne _ ?_⟩, hne _ ?_⟩, hne _ ?_⟩, hne _ ?_⟩, hne _ ?_⟩ <;> decide

namespace IsSimpleName

variable {name : String} {c : Char} {text : List Char}

/-- A name starts with a character that is no blank, and holds no dot. -/
theorem ofList_cons (hc : Text.isBlank c = false) (hdot : c ≠ '.') (htext : '.' ∉ text) :
    IsSimpleName (String.ofList (c :: text)) := by
  constructor
  · simp [Text.isBlankText, hc]
  · rw [String.toList_ofList, List.mem_cons, not_or]
    exact ⟨Ne.symm hdot, htext⟩

theorem ne_empty (h : IsSimpleName name) : name ≠ "" := by
  rintro rfl
  cases h.notBlank

end IsSimpleName

namespace Element

variable {e : Element} {owner : String}

/-- **The owner is what stands in front of the last dot**, unless nothing does. -/
theorem owner?_eq_some_iff : e.owner? = some owner ↔
    owner ≠ "" ∧ ∃ name : String, '.' ∉ name.toList ∧ e.qualifiedName = owner ++ "." ++ name := by
  have hjoined : ∀ name : String, e.qualifiedName = owner ++ "." ++ name ↔
      e.qualifiedName.toList = owner.toList ++ '.' :: name.toList := by
    intro name
    rw [← String.toList_inj, String.toList_append, String.toList_append, List.append_assoc]
    rfl
  unfold owner?
  constructor
  · intro h
    cases hcut : Text.splitLast? ['.'] e.qualifiedName.toList with
    | none =>
      rw [hcut] at h
      cases h
    | some halves =>
      obtain ⟨before, after⟩ := halves
      rw [hcut] at h
      dsimp only at h
      split at h
      · cases h
      · next hempty =>
        obtain rfl := Option.some.inj h
        obtain ⟨hq, hafter⟩ := Text.splitLast?_singleton hcut
        refine ⟨fun hnone => hempty ?_, String.ofList after, ?_, (hjoined _).2 ?_⟩
        · rw [List.isEmpty_iff]
          simpa using congrArg String.toList hnone
        · rwa [String.toList_ofList]
        · rw [hq, String.toList_ofList, String.toList_ofList]
  · rintro ⟨hne, name, hdot, hq⟩
    have hempty : owner.toList.isEmpty = false := by
      simpa [List.isEmpty_eq_false_iff] using hne
    rw [(hjoined name).1 hq, Text.splitLast?_append_cons _ hdot]
    simp [hempty]

/-- The element is declared directly under a qualified name. -/
def IsUnder (e : Element) (owner : String) : Prop :=
  ∃ name, IsSimpleName name ∧ e.qualifiedName = owner ++ "." ++ name

/-- **The owner is what the element was declared under.** -/
theorem IsUnder.owner?_eq (h : e.IsUnder owner) (hne : owner ≠ "") : e.owner? = some owner := by
  obtain ⟨name, hname, hq⟩ := h
  exact owner?_eq_some_iff.2 ⟨hne, name, hname.noDot, hq⟩

end Element

/-! ## Owners that stand before -/

namespace Element

/-- What an element of a source is on its own: it has the source's path, a line
of the source, a simple name that its qualified name ends with, and a signature
of one line. -/
structure IsSound (path : String) (lineCount : Nat) (e : Element) : Prop where
  file : e.file = path
  named : IsSimpleName e.name
  qualified : ∃ before, e.qualifiedName = before ++ e.name
  line_pos : 1 ≤ e.line
  line_le : e.line ≤ lineCount
  signature : '\n' ∉ e.signature.toList

variable {path owner name : String} {count : Nat} {e : Element}

theorem IsSound.qualifiedName_ne_empty (h : e.IsSound path count) : e.qualifiedName ≠ "" := by
  obtain ⟨before, hq⟩ := h.qualified
  rw [hq]
  exact fun hempty => h.named.ne_empty (String.append_eq_empty_iff.1 hempty).2

/-- The element is called by its name behind that of its owner, or by its name
alone where it has none. -/
def IsCalledIn (owner : Option String) (e : Element) : Prop :=
  e.qualifiedName = owner.elim e.name (· ++ "." ++ e.name)

namespace IsCalledIn

variable {outer : Option String}

/-- So its qualified name ends with its name. -/
theorem exists_before (h : e.IsCalledIn outer) : ∃ before, e.qualifiedName = before ++ e.name := by
  cases outer with
  | none => exact ⟨"", h.trans String.empty_append.symm⟩
  | some owner => exact ⟨owner ++ ".", h⟩

/-- And it stands under the owner, or alone. -/
theorem isUnder (h : e.IsCalledIn outer) (hname : IsSimpleName e.name) :
    e.qualifiedName = e.name ∨ ∃ owner ∈ outer.toList, e.IsUnder owner := by
  cases outer with
  | none => exact .inl h
  | some owner => exact .inr ⟨owner, List.mem_singleton_self owner, e.name, hname, h⟩

end IsCalledIn

/-- An element that is called by a simple name alone has no owner. -/
theorem owner?_of_qualifiedName (h : e.qualifiedName = name) (hname : IsSimpleName name) :
    e.owner? = none := by
  refine Option.eq_none_iff_forall_ne_some.2 fun owner howner => hname.noDot ?_
  obtain ⟨-, last, -, hq⟩ := owner?_eq_some_iff.1 howner
  rw [← h, hq, String.toList_append, String.toList_append]
  simp

end Element

/-- Elements in their order, behind some classes that are known: each one is
sound, and it is `free` or declared under a class that is known or stands
before it. -/
def InOrder (path : String) (count : Nat) (free : Element → Prop) :
    (known : List String) → List Element → Prop
  | _, [] => True
  | known, e :: es =>
    e.IsSound path count ∧ (free e ∨ ∃ owner ∈ known, e.IsUnder owner) ∧
      InOrder path count free (if e.kind = .type then e.qualifiedName :: known else known) es

namespace InOrder

variable {path : String} {count : Nat} {free : Element → Prop} {known more : List String}
variable {es others before after : List Element} {e c : Element}

theorem nil : InOrder path count free known [] :=
  trivial

/-- More classes may be known. -/
theorem mono (h : InOrder path count free known es) (hsub : known ⊆ more) :
    InOrder path count free more es := by
  induction es generalizing known more with
  | nil => trivial
  | cons e es ih =>
    obtain ⟨hsound, howner, hrest⟩ := h
    refine ⟨hsound, howner.imp_right fun ⟨owner, ho, hu⟩ => ⟨owner, hsub ho, hu⟩, ih hrest ?_⟩
    split
    · exact List.cons_subset_cons _ hsub
    · exact hsub

/-- What the first stretch declares, the second may know. -/
theorem append (h : InOrder path count free known es) (h' : InOrder path count free known others) :
    InOrder path count free known (es ++ others) := by
  induction es generalizing known with
  | nil => exact h'
  | cons e es ih =>
    obtain ⟨hsound, howner, hrest⟩ := h
    refine ⟨hsound, howner, ih hrest (h'.mono ?_)⟩
    split
    · exact List.subset_cons_self _ _
    · exact List.Subset.refl _

/-- **A class is known to what stands in its body.** -/
theorem cons_type (hkind : c.kind = .type) (hsound : c.IsSound path count)
    (hc : free c ∨ ∃ owner ∈ known, c.IsUnder owner)
    (h : InOrder path count free (c.qualifiedName :: known) es) :
    InOrder path count free known (c :: es) :=
  ⟨hsound, hc, by rwa [if_pos hkind]⟩

/-- Elements of which each stands under what was known to begin with. -/
theorem of_forall
    (h : ∀ e ∈ es, e.IsSound path count ∧ (free e ∨ ∃ owner ∈ known, e.IsUnder owner)) :
    InOrder path count free known es := by
  induction es with
  | nil => trivial
  | cons e es ih =>
    obtain ⟨hsound, howner⟩ := h e List.mem_cons_self
    refine ⟨hsound, howner, (ih fun d hd => h d (List.mem_cons_of_mem _ hd)).mono ?_⟩
    split
    · exact List.subset_cons_self _ _
    · exact List.Subset.refl _

theorem isSound (h : InOrder path count free known es) : ∀ e ∈ es, e.IsSound path count := by
  induction es generalizing known with
  | nil => exact List.forall_mem_nil _
  | cons e es ih => exact List.forall_mem_cons.2 ⟨h.1, ih h.2.2⟩

/-- **An element's class is known or stands before the element.** -/
theorem preceded (h : InOrder path count free known (before ++ e :: after)) :
    free e ∨ ∃ owner, e.IsUnder owner ∧
      (owner ∈ known ∨ ∃ c ∈ before, c.kind = .type ∧ c.qualifiedName = owner) := by
  induction before generalizing known with
  | nil => exact h.2.1.imp_right fun ⟨owner, ho, hu⟩ => ⟨owner, hu, .inl ho⟩
  | cons c before ih =>
    -- a class that is known behind `c` was known before it, or is `c`
    refine (ih h.2.2).imp_right fun ⟨owner, hu, ho⟩ => ⟨owner, hu, ?_⟩
    rcases ho with ho | ⟨d, hd, hkind, hq⟩
    · split at ho
      · next hkind =>
        rcases List.mem_cons.1 ho with rfl | ho
        · exact .inr ⟨c, List.mem_cons_self, hkind, rfl⟩
        · exact .inl ho
      · exact .inl ho
    · exact .inr ⟨d, List.mem_cons_of_mem _ hd, hkind, hq⟩

/-- **Where no class was known, an element that is not free has an owner, and
a class of that name stands before it.** -/
theorem exists_owner (h : InOrder path count free [] (before ++ e :: after)) (hfree : ¬ free e) :
    ∃ c ∈ before, c.kind = .type ∧ c.file = e.file ∧ e.owner? = some c.qualifiedName := by
  have hsound := h.isSound
  obtain ⟨owner, hu, ho | ⟨c, hc, hkind, rfl⟩⟩ := h.preceded.resolve_left hfree
  · exact absurd ho List.not_mem_nil
  · have hclass := hsound c (List.mem_append_left _ hc)
    have he := hsound e (List.mem_append_right _ List.mem_cons_self)
    exact ⟨c, hc, hkind, hclass.file.trans he.file.symm,
      hu.owner?_eq hclass.qualifiedName_ne_empty⟩

end InOrder

end Docsmith

import Docsmith.Document.Group
import Docsmith.Proofs.Path.Name
import Mathlib.Data.List.Perm.Subperm
import Mathlib.Data.List.Forall2
/-!
# Documents — every element has its place

The groups of an analysis take up its elements and lose none. A member stands in the
group of each of its classes, and which elements belong to no class is told by their ids:
that is the same question as long as an id tells file, qualified name and line apart
(`Element.id_inj`), which it does where no qualified name holds a colon
(`standalone_eq`).

The elements of all groups are then those of the analysis, where those that are members
of several classes come more than once (`subperm_elements`). If no two classes share file
and qualified name no element has more than one class, and each comes once
(`perm_elements`).
-/


namespace Docsmith

namespace Element

variable {e f c d : Element}

theorem toList_id (e : Element) : e.id.toList =
    (e.file.toList ++ ':' :: e.qualifiedName.toList) ++ ':' :: (toString e.line).toList := by
  simp [id]

/-- The line stands behind the last colon of an id, so it is the same where ids are. -/
theorem line_eq_of_id_eq (h : e.id = f.id) :
    e.line = f.line ∧ e.file.toList ++ ':' :: e.qualifiedName.toList =
      f.file.toList ++ ':' :: f.qualifiedName.toList := by
  have hdigits : ∀ n : Nat, ':' ∉ (toString n).toList := by
    intro n hmem
    exact absurd (Path.isDigit_of_mem_toString hmem) (by decide)
  have hnumber : ∀ n : Nat, Nat.ofDigitChars 10 (toString n).toList 0 = n := by
    intro n
    rw [Nat.toString_eq_repr, Nat.toList_repr]
    exact Nat.ofDigitChars_toDigits (by decide) (by decide)
  have heq := congrArg String.toList h
  rw [toList_id, toList_id] at heq
  obtain ⟨hfront, hline⟩ := Text.append_cons_inj (hdigits _) (hdigits _) heq
  have hlines := hnumber e.line
  rw [hline, hnumber] at hlines
  exact ⟨hlines.symm, hfront⟩

/-- **Ids tell elements apart** by file, qualified name and line, as long as there is no
colon in the qualified names. There may be some in the names of files. -/
theorem id_inj (he : ':' ∉ e.qualifiedName.toList) (hf : ':' ∉ f.qualifiedName.toList) :
    e.id = f.id ↔ e.file = f.file ∧ e.qualifiedName = f.qualifiedName ∧ e.line = f.line := by
  constructor
  · intro hid
    -- the qualified name stands behind the colon before the last one
    obtain ⟨hline, hfront⟩ := line_eq_of_id_eq hid
    obtain ⟨hfile, hname⟩ := Text.append_cons_inj he hf hfront
    exact ⟨String.toList_inj.1 hfile, String.toList_inj.1 hname, hline⟩
  · rintro ⟨hfile, hname, hline⟩
    rw [id, id, hfile, hname, hline]

theorem isMemberOf_iff : e.isMemberOf c = true ↔
    e.kind ≠ .type ∧ e.file = c.file ∧ e.owner? = some c.qualifiedName := by
  simp only [isMemberOf, Bool.and_eq_true, bne_iff_ne, beq_iff_eq, and_assoc]

/-- Whose member a declaration is does not depend on its line or its texts. -/
theorem isMemberOf_congr (hkind : e.kind ≠ .type) (hfile : e.file = f.file)
    (hname : e.qualifiedName = f.qualifiedName) (h : f.isMemberOf c = true) :
    e.isMemberOf c = true := by
  obtain ⟨-, hclass, howner⟩ := isMemberOf_iff.1 h
  refine isMemberOf_iff.2 ⟨hkind, hfile.trans hclass, ?_⟩
  rw [← howner, owner?, owner?, hname]

/-- Two classes of one member share file and qualified name. -/
theorem same_of_isMemberOf (hc : e.isMemberOf c = true) (hd : e.isMemberOf d = true) :
    c.file = d.file ∧ c.qualifiedName = d.qualifiedName := by
  obtain ⟨-, hfile, howner⟩ := isMemberOf_iff.1 hc
  obtain ⟨-, hfile', howner'⟩ := isMemberOf_iff.1 hd
  rw [howner'] at howner
  exact ⟨hfile.symm.trans hfile', (Option.some.inj howner).symm⟩

end Element

/-! ## Lists and their parts -/

section Parts

variable {α β : Type} {xs : List α} {cs : List β}

/-- What has one property or the other: all of the one kind, and of the other kind what
is left. -/
theorem filter_or_perm (p q : α → Bool) (xs : List α) :
    (xs.filter fun x => p x || q x).Perm (xs.filter p ++ xs.filter fun x => !p x && q x) := by
  have hsplit := List.filter_append_perm p (xs.filter fun x => p x || q x)
  rw [List.filter_filter, List.filter_filter] at hsplit
  have hp : ∀ x, (p x && (p x || q x)) = p x := by
    intro x
    cases p x <;> rfl
  have hq : ∀ x, (!p x && (p x || q x)) = (!p x && q x) := by
    intro x
    cases p x <;> rfl
  simp only [hp, hq] at hsplit
  exact hsplit.symm

/-- Parts that may overlap hold everything that is in one of them. -/
theorem subperm_flatMap_filter (p : β → α → Bool) (xs : List α) (cs : List β) :
    (xs.filter fun x => cs.any (p · x)).Subperm (cs.flatMap fun c => xs.filter (p c)) := by
  induction cs with
  | nil => simp
  | cons c cs ih =>
    have hrest : (xs.filter fun x => !p c x && cs.any (p · x)).Subperm
        (xs.filter fun x => cs.any (p · x)) := by
      rw [← List.filter_filter]
      exact List.filter_sublist.subperm
    have hsplit := filter_or_perm (p c) (fun x => cs.any (p · x)) xs
    rw [List.flatMap_cons]
    exact hsplit.subperm.trans ((List.subperm_append_left _).2 (hrest.trans ih))

/-- Parts that do not overlap hold it once. -/
theorem perm_flatMap_filter {p : β → α → Bool}
    (h : cs.Pairwise fun c d => ∀ x, p c x = true → p d x = false) :
    (xs.filter fun x => cs.any (p · x)).Perm (cs.flatMap fun c => xs.filter (p c)) := by
  induction cs with
  | nil => simp
  | cons c cs ih =>
    obtain ⟨hhead, htail⟩ := List.pairwise_cons.1 h
    have hrest : (xs.filter fun x => !p c x && cs.any (p · x)) =
        xs.filter fun x => cs.any (p · x) := by
      refine List.filter_congr fun x _ => ?_
      cases hx : cs.any (p · x) with
      | false => rw [Bool.and_false]
      | true =>
        obtain ⟨d, hd, hpd⟩ := List.any_eq_true.1 hx
        have hpc : p c x = false := by
          cases hpc : p c x with
          | false => rfl
          | true => exact absurd hpd (by simp [hhead d hd x hpc])
        rw [hpc, Bool.not_false, Bool.true_and]
    have hsplit := filter_or_perm (p c) (fun x => cs.any (p · x)) xs
    rw [hrest] at hsplit
    rw [List.flatMap_cons]
    exact hsplit.trans ((ih htail).append_left _)

/-- Of lists without common elements one holds what some of them holds. -/
theorem countP_mem_eq_one [DecidableEq α] {f : β → List α} {x : α}
    (h : cs.Pairwise fun c d => (f c).Disjoint (f d)) (hx : ∃ c ∈ cs, x ∈ f c) :
    cs.countP (fun c => x ∈ f c) = 1 := by
  induction cs with
  | nil => simp at hx
  | cons c cs ih =>
    obtain ⟨hhead, htail⟩ := List.pairwise_cons.1 h
    by_cases hc : x ∈ f c
    · have hnone : cs.countP (fun d => x ∈ f d) = 0 := by
        refine List.countP_eq_zero.2 fun d hd hmem => ?_
        exact hhead d hd hc (of_decide_eq_true hmem)
      rw [List.countP_cons_of_pos (by simpa using hc), hnone]
    · obtain ⟨d, hd, hmem⟩ := hx
      have hrest : d ∈ cs := (List.mem_cons.1 hd).resolve_left fun heq => hc (heq ▸ hmem)
      rw [List.countP_cons_of_neg (by simpa using hc)]
      exact ih htail ⟨d, hrest, hmem⟩

end Parts

namespace Document.Group

variable {a : Analysis} {e c : Element} {g : Group}

/-! ## Elements without a class -/

/-- No qualified name of the analysis holds a colon. -/
def HasPlainNames (a : Analysis) : Prop :=
  ∀ e ∈ a.elements, ':' ∉ e.qualifiedName.toList

instance (a : Analysis) : Decidable (HasPlainNames a) :=
  inferInstanceAs (Decidable (∀ e ∈ a.elements, _))

/-- The element is a member of a class of the analysis. -/
def hasClass (a : Analysis) (e : Element) : Bool :=
  a.classes.any (e.isMemberOf ·)

/-- The elements of a kind that are members of no class. -/
def loose (a : Analysis) (kind : Element.Kind) : List Element :=
  a.elements.filter fun e => e.kind = kind ∧ ∀ c ∈ a.classes, e.isMemberOf c = false

theorem hasClass_eq_false_iff :
    hasClass a e = false ↔ ∀ c ∈ a.classes, e.isMemberOf c = false := by
  rw [hasClass, List.any_eq_false]
  simp only [Bool.not_eq_true]

theorem mem_loose {kind : Element.Kind} : e ∈ loose a kind ↔
    e ∈ a.elements ∧ e.kind = kind ∧ hasClass a e = false := by
  rw [loose, List.mem_filter, decide_eq_true_iff, hasClass_eq_false_iff]

/-- **An id among those of members is the id of a member.** -/
theorem id_mem_attached_iff (h : HasPlainNames a) (he : e ∈ a.elements) (hkind : e.kind ≠ .type) :
    e.id ∈ attached a ↔ hasClass a e = true := by
  rw [hasClass, List.any_eq_true]
  constructor
  · intro hid
    obtain ⟨c, hc, hmem⟩ := List.mem_flatMap.1 hid
    obtain ⟨f, hf, heq⟩ := List.mem_map.1 hmem
    obtain ⟨hfound, hmember⟩ := List.mem_filter.1 hf
    -- the member that has the id may be another element, but not of another class
    obtain ⟨hfile, hname, -⟩ := (Element.id_inj (h f hfound) (h e he)).1 heq
    exact ⟨c, hc, Element.isMemberOf_congr hkind hfile.symm hname.symm hmember⟩
  · rintro ⟨c, hc, hmember⟩
    have hmem : e ∈ a.elements.filter (·.isMemberOf c) := List.mem_filter.2 ⟨he, hmember⟩
    exact List.mem_flatMap.2 ⟨c, hc, List.mem_map_of_mem hmem⟩

/-- **The elements listed as having no class have none.** -/
theorem standalone_eq (h : HasPlainNames a) {kind : Element.Kind} (hkind : kind ≠ .type) :
    standalone a kind = loose a kind := by
  rw [standalone, loose, Analysis.ofKind, List.filter_filter]
  refine List.filter_congr fun e he => ?_
  by_cases heq : e.kind = kind
  · have hid := id_mem_attached_iff h he (heq ▸ hkind)
    rw [Bool.eq_iff_iff]
    simp only [heq, Bool.and_eq_true, Bool.not_eq_true', List.contains_eq_mem, decide_eq_false_iff_not,
      hid, Bool.not_eq_true, hasClass_eq_false_iff, beq_self_eq_true, and_true, true_and,
      decide_eq_true_iff]
  · simp [heq]

/-! ## The group of a class -/

/-- The group of a class: its fields and its methods, each in the order of the analysis. -/
structure IsGroupOf (a : Analysis) (c : Element) (g : Group) : Prop where
  type : g.type = some c
  fields : g.fields = a.elements.filter fun e => e.kind = .field ∧ e.isMemberOf c = true
  methods : g.methods = a.elements.filter fun e => e.kind = .method ∧ e.isMemberOf c = true

theorem isGroupOf_ofClass (a : Analysis) (c : Element) : IsGroupOf a c (ofClass a c) where
  type := rfl
  fields := by
    rw [ofClass, List.filter_filter]
    refine List.filter_congr fun e _ => ?_
    rw [Bool.eq_iff_iff]
    simp
  methods := by
    rw [ofClass]
    dsimp only
    rw [List.filter_filter]
    refine List.filter_congr fun e _ => ?_
    rw [Bool.eq_iff_iff]
    simp only [Bool.and_eq_true, bne_iff_ne, decide_eq_true_iff]
    -- a member is no class, so it is a method if it is no field
    constructor
    · rintro ⟨hkind, hmember⟩
      have hclass := (Element.isMemberOf_iff.1 hmember).1
      refine ⟨?_, hmember⟩
      cases he : e.kind with
      | type => exact absurd he hclass
      | method => rfl
      | field => exact absurd he hkind
    · rintro ⟨hkind, hmember⟩
      exact ⟨by rw [hkind]; exact nofun, hmember⟩

/-- The group of a class holds the class and its members. -/
theorem perm_elements_ofClass (a : Analysis) (c : Element) :
    (ofClass a c).elements.Perm (c :: a.elements.filter (·.isMemberOf c)) := by
  have hmembers := List.filter_append_perm (fun e : Element => e.kind == .field)
    (a.elements.filter (·.isMemberOf c))
  exact hmembers.cons c

theorem mem_elements_ofClass : e ∈ (ofClass a c).elements ↔
    e = c ∨ e ∈ a.elements ∧ e.isMemberOf c = true := by
  rw [(perm_elements_ofClass a c).mem_iff, List.mem_cons, List.mem_filter]

/-! ## All groups -/

/-- The groups for what has no class. -/
def ofLoose (a : Analysis) : List Group :=
  (if loose a .method = [] then [] else [⟨none, [], loose a .method, "standalone-methods.md"⟩]) ++
    (if loose a .field = [] then [] else [⟨none, loose a .field, [], "standalone-fields.md"⟩])

theorem ofAnalysis_eq (h : HasPlainNames a) :
    ofAnalysis a = a.classes.map (ofClass a) ++ ofLoose a := by
  have hmethods := standalone_eq h (by decide : Element.Kind.method ≠ .type)
  have hfields := standalone_eq h (by decide : Element.Kind.field ≠ .type)
  rw [ofAnalysis, hmethods, hfields, ofLoose, List.append_assoc]
  simp only [List.isEmpty_iff]

theorem elements_ofLoose (a : Analysis) :
    (ofLoose a).flatMap elements = loose a .method ++ loose a .field := by
  rw [ofLoose, List.flatMap_append]
  split_ifs with hmethods hfields hfields
  all_goals simp [elements, *]

/-- The elements of all groups: the classes, the members of each class, and what has no
class. -/
theorem perm_elements_ofAnalysis (h : HasPlainNames a) :
    ((ofAnalysis a).flatMap elements).Perm (a.classes ++
      (a.classes.flatMap fun c => a.elements.filter (·.isMemberOf c)) ++
        (loose a .method ++ loose a .field)) := by
  have hclasses : (a.classes.flatMap fun c => (ofClass a c).elements).Perm
      (a.classes.flatMap fun c => [c] ++ a.elements.filter (·.isMemberOf c)) :=
    List.Perm.flatMap_left _ fun c _ => perm_elements_ofClass a c
  have hsplit := List.flatMap_append_perm a.classes (fun c => [c])
    fun c => a.elements.filter (·.isMemberOf c)
  rw [List.flatMap_singleton'] at hsplit
  rw [ofAnalysis_eq h, List.flatMap_append, List.flatMap_map, elements_ofLoose]
  exact (hclasses.trans hsplit.symm).append_right _

/-- The elements of an analysis: the classes, what has a class, and what has none. -/
theorem perm_elements_analysis (a : Analysis) :
    a.elements.Perm (a.classes ++ a.elements.filter (hasClass a) ++
      (loose a .method ++ loose a .field)) := by
  have hcount : ∀ (p : Element → Bool) (e : Element),
      (a.elements.filter p).count e = if p e then a.elements.count e else 0 := by
    intro p e
    split_ifs with hp
    · exact List.count_filter hp
    · exact List.count_eq_zero.2 fun hmem => hp (List.mem_filter.1 hmem).2
  refine List.perm_iff_count.2 fun e => ?_
  have hmember : hasClass a e = true → e.kind ≠ .type := by
    intro hclass
    obtain ⟨c, -, hc⟩ := List.any_eq_true.1 hclass
    exact (Element.isMemberOf_iff.1 hc).1
  have hloose : ∀ kind, (loose a kind).count e =
      if e.kind = kind ∧ hasClass a e = false then a.elements.count e else 0 := by
    intro kind
    rw [loose, hcount]
    simp only [decide_eq_true_iff, hasClass_eq_false_iff]
  rw [List.count_append, List.count_append, List.count_append, Analysis.classes, Analysis.ofKind,
    hcount, hcount, hloose, hloose]
  cases hkind : e.kind with
  | type =>
    have hnone : hasClass a e = false := Bool.eq_false_iff.2 fun hclass => hmember hclass hkind
    simp [hnone]
  | method => cases hasClass a e <;> simp
  | field => cases hasClass a e <;> simp

/-- **No element is lost**: with every copy that the analysis has, it is in the groups. -/
theorem subperm_elements (h : HasPlainNames a) :
    a.elements.Subperm ((ofAnalysis a).flatMap elements) := by
  have hmembers := subperm_flatMap_filter (fun c e : Element => e.isMemberOf c) a.elements a.classes
  have hall : (a.classes ++ a.elements.filter (hasClass a)).Subperm (a.classes ++
      a.classes.flatMap fun c => a.elements.filter (·.isMemberOf c)) :=
    (List.subperm_append_left _).2 hmembers
  exact (perm_elements_analysis a).subperm.trans
    (((List.subperm_append_right _).2 hall).trans (perm_elements_ofAnalysis h).symm.subperm)

theorem exists_group (h : HasPlainNames a) (he : e ∈ a.elements) :
    ∃ g ∈ ofAnalysis a, e ∈ g.elements :=
  List.mem_flatMap.1 ((subperm_elements h).subset he)

/-! ## One class for each member -/

/-- No two classes of the analysis share file and qualified name. -/
def HasDistinctClasses (a : Analysis) : Prop :=
  a.classes.Pairwise fun c d => ¬ (c.file = d.file ∧ c.qualifiedName = d.qualifiedName)

instance (a : Analysis) : Decidable (HasDistinctClasses a) :=
  inferInstanceAs (Decidable (List.Pairwise _ a.classes))

/-- **No element comes twice** unless the analysis has it twice. -/
theorem perm_elements (h : HasPlainNames a) (hdistinct : HasDistinctClasses a) :
    ((ofAnalysis a).flatMap elements).Perm a.elements := by
  have hparts : a.classes.Pairwise fun c d => ∀ e : Element,
      e.isMemberOf c = true → e.isMemberOf d = false := by
    refine List.Pairwise.imp ?_ hdistinct
    intro c d hne e hc
    exact Bool.eq_false_iff.2 fun hd => hne (Element.same_of_isMemberOf hc hd)
  have hall : (a.classes ++ a.elements.filter (hasClass a)).Perm (a.classes ++
      a.classes.flatMap fun c => a.elements.filter (·.isMemberOf c)) :=
    (perm_flatMap_filter hparts).append_left _
  exact (perm_elements_ofAnalysis h).trans
    ((hall.symm.append_right _).trans (perm_elements_analysis a).symm)

theorem kind_of_mem_classes (hc : c ∈ a.classes) : c.kind = .type :=
  beq_iff_eq.1 (List.mem_filter.1 hc).2

theorem disjoint_ofClass {d : Element} (hc : c ∈ a.classes) (hd : d ∈ a.classes)
    (hne : ¬ (c.file = d.file ∧ c.qualifiedName = d.qualifiedName)) :
    (ofClass a c).elements.Disjoint (ofClass a d).elements := by
  intro e hec hed
  rcases mem_elements_ofClass.1 hec with rfl | ⟨-, hmember⟩
  · rcases mem_elements_ofClass.1 hed with rfl | ⟨-, hmember⟩
    · exact hne ⟨rfl, rfl⟩
    · exact (Element.isMemberOf_iff.1 hmember).1 (kind_of_mem_classes hc)
  · rcases mem_elements_ofClass.1 hed with rfl | ⟨-, hmember'⟩
    · exact (Element.isMemberOf_iff.1 hmember).1 (kind_of_mem_classes hd)
    · exact hne (Element.same_of_isMemberOf hmember hmember')

/-- What stands in a group without a class is no class and has none. -/
theorem of_mem_ofLoose (hg : g ∈ ofLoose a) (he : e ∈ g.elements) :
    e.kind ≠ .type ∧ hasClass a e = false := by
  have hmem := List.mem_flatMap.2 ⟨g, hg, he⟩
  rw [elements_ofLoose, List.mem_append] at hmem
  rcases hmem with hmem | hmem
  · obtain ⟨-, hkind, hnone⟩ := mem_loose.1 hmem
    exact ⟨by rw [hkind]; exact nofun, hnone⟩
  · obtain ⟨-, hkind, hnone⟩ := mem_loose.1 hmem
    exact ⟨by rw [hkind]; exact nofun, hnone⟩

theorem pairwise_disjoint_ofLoose (a : Analysis) :
    (ofLoose a).Pairwise fun g g' => g.elements.Disjoint g'.elements := by
  have hkinds : (loose a .method).Disjoint (loose a .field) := by
    intro e hmethod hfield
    have hkind := (mem_loose.1 hmethod).2.1
    rw [(mem_loose.1 hfield).2.1] at hkind
    cases hkind
  rw [ofLoose]
  split_ifs
  · exact List.Pairwise.nil
  · exact List.pairwise_singleton _ _
  · exact List.pairwise_singleton _ _
  · simpa [elements] using hkinds

/-- **Groups share no elements** if no two classes share file and qualified name. -/
theorem pairwise_disjoint (h : HasPlainNames a) (hdistinct : HasDistinctClasses a) :
    (ofAnalysis a).Pairwise fun g g' => g.elements.Disjoint g'.elements := by
  rw [ofAnalysis_eq h, List.pairwise_append, List.pairwise_map]
  refine ⟨hdistinct.imp_of_mem fun hc hd hne => disjoint_ofClass hc hd hne,
    pairwise_disjoint_ofLoose a, ?_⟩
  intro g hg g' hg' e he he'
  obtain ⟨c, hc, rfl⟩ := List.mem_map.1 hg
  obtain ⟨hkind, hnone⟩ := of_mem_ofLoose hg' he'
  rcases mem_elements_ofClass.1 he with rfl | ⟨-, hmember⟩
  · exact hkind (kind_of_mem_classes hc)
  · exact absurd hmember (by simp [hasClass_eq_false_iff.1 hnone c hc])

/-! ## The groups of an analysis -/

/-- **Grouping loses nothing and doubles nothing.** As long as no qualified name holds a
colon, there is one group for each class, in the order of the classes, with its fields
and its methods, and behind these one for the methods and one for the fields that are
members of no class, where there are any. So every element of the analysis is in some
group, with every copy, and in one only, and as often as in the analysis, if no two
classes share file and qualified name. -/
theorem grouping_is_faithful (h : HasPlainNames a) :
    (∃ own, ofAnalysis a = own ++
        (if loose a .method = [] then []
          else [⟨none, [], loose a .method, "standalone-methods.md"⟩]) ++
        (if loose a .field = [] then []
          else [⟨none, loose a .field, [], "standalone-fields.md"⟩]) ∧
      List.Forall₂ (IsGroupOf a) a.classes own) ∧
    a.elements.Subperm ((ofAnalysis a).flatMap elements) ∧
    (∀ e ∈ a.elements, ∃ g ∈ ofAnalysis a, e ∈ g.elements) ∧
    (HasDistinctClasses a → ((ofAnalysis a).flatMap elements).Perm a.elements ∧
      ∀ e ∈ a.elements, (ofAnalysis a).countP (fun g => e ∈ g.elements) = 1) := by
  refine ⟨⟨a.classes.map (ofClass a), ?_, ?_⟩, subperm_elements h,
    fun e he => exists_group h he, fun hdistinct => ⟨perm_elements h hdistinct, fun e he => ?_⟩⟩
  · rw [ofAnalysis_eq h, ofLoose, List.append_assoc]
  · rw [List.forall₂_map_right_iff, List.forall₂_same]
    exact fun c _ => isGroupOf_ofClass a c
  · exact countP_mem_eq_one (pairwise_disjoint h hdistinct) (exists_group h he)

/-- A class with a field and a method, a method of a nested class that is not in the
analysis, and a variable beside them. -/
def assorted : Analysis :=
  ⟨"shop",
    [⟨.field, "DEBUG", "DEBUG", "shop/C:cart.py", 1, "DEBUG = 0", "", [], []⟩,
      ⟨.type, "Cart", "Cart", "shop/C:cart.py", 2, "class Cart", "", [], []⟩,
      ⟨.method, "add", "Cart.add", "shop/C:cart.py", 3, "def add(self)", "", [], []⟩,
      ⟨.field, "items", "Cart.items", "shop/C:cart.py", 5, "items = []", "", [], []⟩,
      ⟨.method, "run", "Cart.Inner.run", "shop/C:cart.py", 7, "def run(self)", "", [], []⟩]⟩

/-- Its groups hold its five elements, and each of them is in one. -/
theorem grouping_is_faithful_assorted :
    HasPlainNames assorted ∧ HasDistinctClasses assorted ∧
      (loose assorted .method).map (·.name) = ["run"] ∧
      (loose assorted .field).map (·.name) = ["DEBUG"] ∧
      ((ofAnalysis assorted).flatMap elements).Perm assorted.elements ∧
      ∀ e ∈ assorted.elements, (ofAnalysis assorted).countP (fun g => e ∈ g.elements) = 1 := by
  have hplain : HasPlainNames assorted := by decide +kernel
  have hdistinct : HasDistinctClasses assorted := by decide +kernel
  obtain ⟨hperm, hone⟩ := (grouping_is_faithful hplain).2.2.2 hdistinct
  exact ⟨hplain, hdistinct, by decide +kernel, by decide +kernel, hperm, hone⟩

/-- With a colon in a qualified name a method that has no class is lost: its id is that
of a method of another file, which has one. -/
example :
    let stray : Element := ⟨.method, "m", "C.m", "a:b", 1, "m()", "", [], []⟩
    stray ∉ (ofAnalysis ⟨"p", [⟨.type, "C", "b:C", "a", 1, "class C", "", [], []⟩,
      ⟨.method, "m", "b:C.m", "a", 1, "m()", "", [], []⟩, stray]⟩).flatMap elements := by
  decide +kernel

end Document.Group

end Docsmith

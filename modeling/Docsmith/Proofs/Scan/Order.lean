import Docsmith.Proofs.Source.Elements
import Docsmith.Scan.Project
import Mathlib.Data.List.Lex
import Mathlib.Data.String.Basic
import Mathlib.Tactic.SplitIfs
/-!
# Scans — the order of the elements

The elements of a scan are sorted by their files and stay as they stand in each. So
it makes no difference if the files are sorted and read one after the other
(`mergeSort_flatMap`): a stable sort is told by its keys and by what has each key
(`eq_of_filter_eq`). What an analysis shows is therefore what each file shows
(`elements_conclude`).

Texts are in the order of their characters' codes, and that is the order of their
bytes in UTF-8 (`bytes_le_iff`): a character with a greater code is written with bytes
that are greater at the first place where they differ.
-/

/-! ## The order of bytes -/

namespace Docsmith.Text

variable {c d : Char} {xs ys : List UInt8} {s t : String}

/-- The bytes of a text. -/
def bytes (s : String) : List UInt8 :=
  s.toList.flatMap String.utf8EncodeChar

theorem toUTF8_eq_bytes (s : String) : s.toUTF8 = (bytes s).toByteArray :=
  String.utf8Encode_toList.symm

theorem ofNat_lt_ofNat {a b : Nat} (ha : a < 256) (hb : b < 256) :
    UInt8.ofNat a < UInt8.ofNat b ↔ a < b :=
  UInt8.ofNat_lt_iff_lt ha hb

theorem ofNat_eq_ofNat {a b : Nat} (ha : a < 256) (hb : b < 256) :
    UInt8.ofNat a = UInt8.ofNat b ↔ a = b := by
  rw [← UInt8.toNat_inj, UInt8.toNat_ofNat', UInt8.toNat_ofNat', Nat.mod_eq_of_lt ha,
    Nat.mod_eq_of_lt hb]

/-- A greater character has greater bytes, whatever comes behind them. -/
theorem utf8EncodeChar_append_lt (h : c < d) (xs ys : List UInt8) :
    String.utf8EncodeChar c ++ xs < String.utf8EncodeChar d ++ ys := by
  have hlt : c.val.toNat < d.val.toNat := h
  have hd : d.val.toNat < 0x110000 := by
    rcases d.valid with hd | hd
    · have : d.val.toNat < 0xd800 := hd
      omega
    · exact hd.2
  unfold String.utf8EncodeChar
  generalize c.val.toNat = v at *
  generalize d.val.toNat = w at *
  -- quotients by quotients, so that digits are told apart one by one
  have htwice (n : Nat) : n / 4096 = n / 64 / 64 := by rw [Nat.div_div_eq_div_mul]
  have hthrice (n : Nat) : n / 262144 = n / 64 / 64 / 64 := by
    rw [Nat.div_div_eq_div_mul, Nat.div_div_eq_div_mul]
  simp only [htwice, hthrice]
  split_ifs
  all_goals
    simp only [List.cons_append, List.nil_append, List.cons_lt_cons_iff]
    simp (disch := omega) only [ofNat_lt_ofNat, ofNat_eq_ofNat]
    omega

/-- By induction on what makes the characters come before the others. -/
theorem flatMap_lt_of_lt {text more : List Char} (h : text < more) :
    text.flatMap String.utf8EncodeChar < more.flatMap String.utf8EncodeChar := by
  induction text generalizing more with
  | nil =>
    cases more with
    | nil => exact absurd h (List.not_lt_nil _)
    | cons d more =>
      rw [List.flatMap_nil, List.flatMap_cons]
      obtain ⟨x, xs, hd⟩ := List.exists_cons_of_ne_nil String.utf8EncodeChar_ne_nil
      rw [hd]
      exact List.nil_lt_cons _ _
  | cons c text ih =>
    cases more with
    | nil => exact absurd h (List.not_lt_nil _)
    | cons d more =>
      rw [List.flatMap_cons, List.flatMap_cons]
      rcases List.cons_lt_cons_iff.1 h with hlt | ⟨rfl, hlt⟩
      · exact utf8EncodeChar_append_lt hlt _ _
      · exact List.append_left_lt (ih hlt)

theorem bytes_lt_of_lt (h : s < t) : bytes s < bytes t :=
  flatMap_lt_of_lt (String.lt_iff_toList_lt.1 h)

/-- **Texts are in the order of their bytes.** -/
theorem bytes_le_iff : bytes s ≤ bytes t ↔ s ≤ t := by
  constructor
  · intro h
    by_contra hnot
    exact List.not_lt.2 h (bytes_lt_of_lt (not_le.1 hnot))
  · intro h
    rcases h.lt_or_eq with hlt | rfl
    · exact List.le_of_lt (bytes_lt_of_lt hlt)
    · exact List.le_refl _

end Docsmith.Text

namespace Docsmith.Scan

variable {α β : Type} {key : β → String} {l m : List β}

/-! ## Stable sorts -/

/-- Sorted lists are the same if each key has the same entries in the same order. -/
theorem eq_of_filter_eq (hl : l.Pairwise (key · ≤ key ·)) (hm : m.Pairwise (key · ≤ key ·))
    (h : ∀ x, l.filter (key · == x) = m.filter (key · == x)) : l = m := by
  induction l generalizing m with
  | nil =>
    cases m with
    | nil => rfl
    | cons b m => simpa using h (key b)
  | cons a l ih =>
    cases m with
    | nil => simpa using h (key a)
    | cons b m =>
      obtain ⟨hal, hltail⟩ := List.pairwise_cons.1 hl
      obtain ⟨hbm, hmtail⟩ := List.pairwise_cons.1 hm
      -- each of the first entries stands in the other list too
      have ha : a ∈ (b :: m).filter (key · == key a) := by
        rw [← h]
        simp
      have hb : b ∈ (a :: l).filter (key · == key b) := by
        rw [h]
        simp
      have hkey : key a = key b := by
        refine le_antisymm ?_ ?_
        · rcases List.mem_cons.1 (List.mem_filter.1 hb).1 with rfl | hb
          · exact le_rfl
          · exact hal b hb
        · rcases List.mem_cons.1 (List.mem_filter.1 ha).1 with rfl | ha
          · exact le_rfl
          · exact hbm a ha
      have hhead := h (key a)
      rw [List.filter_cons_of_pos (by simp), List.filter_cons_of_pos (by simp [hkey])] at hhead
      obtain rfl := (List.cons.inj hhead).1
      refine congrArg (a :: ·) (ih hltail hmtail fun x => ?_)
      have hx := h x
      rw [List.filter_cons, List.filter_cons] at hx
      split_ifs at hx
      · exact (List.cons.inj hx).2
      · exact hx

theorem pairwise_mergeSort_key (key : β → String) (l : List β) :
    (l.mergeSort fun a b => key a ≤ key b).Pairwise (key · ≤ key ·) :=
  (List.pairwise_mergeSort (fun a b c => by simpa using le_trans)
    (fun a b => by simpa using le_total _ _) l).imp of_decide_eq_true

/-- Sorting leaves the entries of one key in their order. -/
theorem filter_mergeSort (key : β → String) (l : List β) (x : String) :
    (l.mergeSort fun a b => key a ≤ key b).filter (key · == x) = l.filter (key · == x) := by
  have hequal : (l.filter (key · == x)).Pairwise fun a b => decide (key a ≤ key b) = true := by
    refine List.pairwise_of_forall_mem_list fun a ha b hb => decide_eq_true ?_
    rw [beq_iff_eq.1 (List.mem_filter.1 ha).2, beq_iff_eq.1 (List.mem_filter.1 hb).2]
  have hsublist := (List.sublist_mergeSort (fun a b c => by simpa using le_trans)
    (fun a b => by simpa using le_total _ _) hequal List.filter_sublist).filter (key · == x)
  rw [List.filter_filter, List.filter_congr fun a _ => Bool.and_self _] at hsublist
  refine (hsublist.eq_of_length ?_).symm
  exact ((List.mergeSort_perm l _).filter _).length_eq.symm

/-- **Sorting what comes of files is sorting the files**, if each entry has the key of
its file. -/
theorem mergeSort_flatMap (name : α → String) {f : α → List β} {files : List α}
    (h : ∀ a ∈ files, ∀ b ∈ f a, key b = name a) :
    (files.flatMap f).mergeSort (fun a b => key a ≤ key b) =
      (files.mergeSort fun a b => name a ≤ name b).flatMap f := by
  have hsorted : ∀ a ∈ files.mergeSort (fun a b => name a ≤ name b), ∀ b ∈ f a,
      key b = name a := fun a ha => h a (List.mem_mergeSort.1 ha)
  -- what has one key comes of the files of that name
  have hfilter : ∀ (x : String) (part : List α), (∀ a ∈ part, ∀ b ∈ f a, key b = name a) →
      (part.flatMap f).filter (key · == x) = (part.filter (name · == x)).flatMap f := by
    intro x part hpart
    induction part with
    | nil => rfl
    | cons a part ih =>
      obtain ⟨ha, hpart⟩ := List.forall_mem_cons.1 hpart
      rw [List.flatMap_cons, List.filter_append, ih hpart, List.filter_cons]
      split_ifs with hname
      · rw [List.flatMap_cons, List.filter_eq_self.2 fun b hb => by rwa [ha b hb]]
      · rw [List.filter_eq_nil_iff.2 fun b hb => by rwa [ha b hb], List.nil_append]
  refine eq_of_filter_eq (pairwise_mergeSort_key key _) ?_ fun x => ?_
  · rw [List.pairwise_flatMap]
    refine ⟨fun a ha => List.pairwise_of_forall_mem_list fun b hb c hc => ?_,
      (pairwise_mergeSort_key name files).imp_of_mem fun {a b} ha hb hle c hc d hd => ?_⟩
    · rw [hsorted a ha b hb, hsorted a ha c hc]
    · rwa [hsorted a ha c hc, hsorted b hb d hd]
  · rw [filter_mergeSort, hfilter x _ h, hfilter x _ hsorted, filter_mergeSort]

/-! ## The elements of a scan -/

variable {t : FileTree} {here : Place} {root : String} {settings : Config.Sources}
variable {read : SourceFile → Option String}

/-- The elements of a file, given what can be read of it. -/
def analyze (read : SourceFile → Option String) (file : SourceFile) : List Element :=
  match read file with
  | some content => Source.elements file.path content
  | none => []

theorem elementsOf_eq_analyze (t : FileTree) (here : Place) :
    elementsOf t here = analyze fun file => t.readText? here file.path :=
  rfl

/-- The files that can be read, by their paths and contents. -/
def readable (read : SourceFile → Option String) (files : List SourceFile) :
    List (String × String) :=
  files.filterMap fun file => (read file).map fun content => (file.path, content)

/-- An analysis shows the element: it has a name and may be shown. -/
def isShown (settings : Config.Sources) (e : Element) : Bool :=
  e.visibility.isKept settings.includePrivate && Analysis.isNamed e

/-- The analysis of a project with some elements. -/
def conclude (root : String) (settings : Config.Sources) (elements : List Element) : Analysis :=
  let kept := elements.filter fun e => e.visibility.isKept settings.includePrivate
  .ofElements root (kept.mergeSort fun a b => a.file ≤ b.file)

theorem project_eq (t : FileTree) (here : Place) (root : String) (settings : Config.Sources) :
    project t here root settings =
      if !t.isPresent here root then .error (.notFound root)
      else .ok (conclude root settings
        ((sourceFiles t here root (.ofSources settings)).flatMap (elementsOf t here))) :=
  rfl

theorem flatMap_analyze (files : List SourceFile) :
    files.flatMap (analyze read) =
      (readable read files).flatMap fun source => Source.elements source.1 source.2 := by
  induction files with
  | nil => rfl
  | cons file files ih =>
    rw [List.flatMap_cons, ih, analyze]
    unfold readable
    rw [List.filterMap_cons]
    cases read file with
    | none => rfl
    | some content => rfl

/-- A file's elements are told to stand in it. -/
theorem file_of_mem {path content : String} {e : Element} (he : e ∈ Source.elements path content) :
    e.file = path :=
  ((Source.inOrder_elements path content).isSound e he).file

/-- **The elements of an analysis are those of its files**, in the order of the files'
paths by their bytes, as they stand in each file. What cannot be read is as good as
missing. -/
theorem elements_conclude (root : String) (settings : Config.Sources) (files : List SourceFile) :
    (conclude root settings (files.flatMap (analyze read))).elements =
      ((readable read files).mergeSort fun a b => Text.bytes a.1 ≤ Text.bytes b.1).flatMap
        fun source => (Source.elements source.1 source.2).filter (isShown settings) := by
  have hbytes : (fun a b : String × String => decide (Text.bytes a.1 ≤ Text.bytes b.1)) =
      fun a b => decide (a.1 ≤ b.1) :=
    funext₂ fun a b => decide_eq_decide.2 Text.bytes_le_iff
  unfold conclude Analysis.ofElements
  dsimp only
  rw [flatMap_analyze, List.filter_flatMap, hbytes, mergeSort_flatMap Prod.fst
    fun source _ e he => file_of_mem (List.mem_filter.1 he).1, List.filter_flatMap]
  refine List.flatMap_congr fun source _ => ?_
  rw [List.filter_filter]
  exact List.filter_congr fun e _ => Bool.and_comm _ _

end Docsmith.Scan

import Docsmith.Proofs.Source.Places
import Docsmith.Proofs.Text.Lines
import Docsmith.Proofs.Text.Spacing
import Docsmith.Proofs.Text.Trim
import Mathlib.Data.Bool.AllAny
import Mathlib.Tactic.SplitIfs
/-!
# Java — annotations and parameters

An annotation is written as a sign with a name, arguments in parentheses perhaps, and
blanks up to what follows (`Annotation`). One reading takes just this much
(`annotation?_append`), since the parentheses of the arguments are balanced and the name
ends where they or the blanks start. So of any number of annotations the names are split
off and the code stays (`annotationsFrom_append`). Whatever the text is, the reading ends,
cuts only between characters, and leaves an end of the text (`annotations_split_off`).

A parameter list is cut at the commas that stand outside angle brackets, so texts that are
balanced and have their commas inside come back from their join (`cutParameters_join`).
What stands in front of a parameter, annotations and the word `final`, has neither commas
nor angle brackets, and is taken off each piece (`cleanParameter_chars`). So the parameters
of a list are those it was joined from, however they are spaced and marked
(`parameters_of_join`).
-/


namespace Docsmith.Source.Lines

variable {p : Char → Bool} {text code rest : List Char}

/-! ## Brackets -/

/-- How many brackets are open behind a character, if it may stand there: a bracket that
closes needs one that is open, and the inner characters stand inside brackets only. -/
def level? (opens closes : Char) (inner : List Char) (level : Nat) (c : Char) : Option Nat :=
  if c = opens then some (level + 1)
  else if c = closes then if level = 0 then none else some (level - 1)
  else if c ∈ inner ∧ level = 0 then none
  else some level

/-- Brackets are balanced in the text: none is closed that is not open, and all are closed
in the end. The inner characters stand inside them. -/
def IsBalanced (opens closes : Char) (inner text : List Char) : Prop :=
  text.foldlM (level? opens closes inner) 0 = some 0

instance (opens closes : Char) (inner text : List Char) :
    Decidable (IsBalanced opens closes inner text) :=
  inferInstanceAs (Decidable (text.foldlM (level? opens closes inner) 0 = some 0))

/-- **All that a character can do**: it opens a bracket, closes one that is open, or stands
where it may. -/
theorem level?_cases {opens closes c : Char} {inner : List Char} {n m : Nat}
    (h : level? opens closes inner n c = some m) :
    (c = opens ∧ m = n + 1) ∨ (c ≠ opens ∧ c = closes ∧ n = m + 1) ∨
      (c ≠ opens ∧ c ≠ closes ∧ (c ∈ inner → n ≠ 0) ∧ m = n) := by
  rw [level?] at h
  split_ifs at h with hopen hclose hzero hinner
  · cases h
    exact .inl ⟨hopen, rfl⟩
  · cases h
    exact .inr (.inl ⟨hopen, hclose, by omega⟩)
  · cases h
    exact .inr (.inr ⟨hopen, hclose, fun hc hn => hinner ⟨hc, hn⟩, rfl⟩)

/-- **Behind a text that leads from one level to another** the search for the closing
parenthesis goes on at that level. -/
theorem afterClosing_append {n m : Nat} (h : text.foldlM (level? '(' ')' []) n = some m)
    (rest : List Char) : afterClosing (n + 1) (text ++ rest) = afterClosing (m + 1) rest := by
  induction text generalizing n with
  | nil =>
    cases h
    rfl
  | cons c text ih =>
    rw [List.foldlM_cons] at h
    obtain ⟨next, hnext, h⟩ := Option.bind_eq_some_iff.1 h
    rw [← ih h, List.cons_append]
    rcases level?_cases hnext with ⟨rfl, rfl⟩ | ⟨-, rfl, rfl⟩ | ⟨hopen, hclose, -, rfl⟩
    · rfl
    · rfl
    · simp [afterClosing]

/-! ## Annotations -/

/-- The arguments of an annotation: blanks in front, and a text in parentheses. -/
structure Arguments where
  blanks : List Char := []
  text : List Char
  blank : ∀ c ∈ blanks, Text.isBlank c = true
  balanced : IsBalanced '(' ')' [] text

/-- The arguments as they are written. -/
def Arguments.chars (a : Arguments) : List Char :=
  a.blanks ++ '(' :: (a.text ++ [')'])

/-- An annotation in front of something, with the blanks between them. -/
structure Annotation where
  name : List Char
  arguments : Option Arguments := none
  blanks : List Char := [' ']
  name_ne_nil : name ≠ []
  name_chars : ∀ c ∈ name, isAnnotationChar c = true
  not_interface : ¬ "interface".toList <+: name
  blanks_ne_nil : blanks ≠ []
  blank : ∀ c ∈ blanks, Text.isBlank c = true

/-- No blank stands in a name. -/
theorem isAnnotationChar_of_isBlank {c : Char} (h : Text.isBlank c = true) :
    isAnnotationChar c = false := by
  have hall : (Text.blanks.all (!isAnnotationChar ·)) = true := by decide +kernel
  simpa using List.all_eq_true.1 hall c (Text.mem_blanks_of_isBlank h)

/-- A word that stands in front of a text stands in its first part, if what is behind that
part starts with no character of a word. -/
theorem prefix_of_prefix_append {word front behind : List Char} (hword : ∀ c ∈ word, p c = true)
    (hbehind : ∀ c ∈ behind.head?, p c = false) (h : word <+: front ++ behind) :
    word <+: front := by
  induction word generalizing front with
  | nil => exact List.nil_prefix
  | cons c word ih =>
    obtain ⟨hc, hword⟩ := List.forall_mem_cons.1 hword
    cases front with
    | nil =>
      obtain ⟨more, rfl⟩ := h
      rw [hbehind c rfl] at hc
      cases hc
    | cons d front =>
      rw [List.cons_append, List.cons_prefix_cons] at h
      exact List.cons_prefix_cons.2 ⟨h.1, ih hword h.2⟩

namespace Annotation

variable (a : Annotation)

/-- The sign and the name. -/
def sign : List Char :=
  '@' :: a.name

/-- What stands behind the name. -/
def behind : List Char :=
  a.arguments.elim [] Arguments.chars ++ a.blanks

/-- The annotation as it is written. -/
def chars : List Char :=
  a.sign ++ a.behind

/-- A name ends where its arguments or the blanks start. -/
theorem exists_behind : ∃ c rest, a.behind = c :: rest ∧ isAnnotationChar c = false := by
  have hparenthesis : isAnnotationChar '(' = false := by decide +kernel
  rw [behind]
  cases a.arguments with
  | none =>
    obtain ⟨c, blanks, hblanks⟩ := List.exists_cons_of_ne_nil a.blanks_ne_nil
    exact ⟨c, blanks, hblanks, isAnnotationChar_of_isBlank (a.blank c (by simp [hblanks]))⟩
  | some arguments =>
    rw [Option.elim_some, Arguments.chars]
    cases hblanks : arguments.blanks with
    | nil => exact ⟨_, _, rfl, hparenthesis⟩
    | cons c blanks =>
      exact ⟨c, _, rfl, isAnnotationChar_of_isBlank (arguments.blank c (by simp [hblanks]))⟩

/-- **The arguments are passed**, and the blanks are left for the trimming. -/
theorem trimStart_afterArguments
    (hrest : ∀ c ∈ rest.head?, Text.isBlank c = false ∧ c ≠ '(') :
    Text.trimStart (afterArguments (a.behind ++ rest)) = rest := by
  have hblank : ∀ c ∈ rest.head?, Text.isBlank c = false := fun c hc => (hrest c hc).1
  rw [behind]
  cases a.arguments with
  | none =>
    have hnone : afterArguments (a.blanks ++ rest) = rest := by
      rw [afterArguments, Text.trimStart_append a.blank hblank]
      split
      · next heq => exact absurd rfl (hrest '(' (by simp)).2
      · rfl
    rw [Option.elim_none, List.nil_append, hnone]
    exact Text.trimStart_append (List.forall_mem_nil _) hblank
  | some arguments =>
    have hparenthesis : ∀ text : List Char, ∀ c ∈ ('(' :: text).head?, Text.isBlank c = false := by
      rintro text c ⟨⟩
      decide
    rw [Option.elim_some, Arguments.chars, List.append_assoc, List.append_assoc, List.cons_append,
      List.append_assoc, afterArguments, Text.trimStart_append arguments.blank (hparenthesis _)]
    change Text.trimStart (afterClosing 1 (arguments.text ++ ([')'] ++ (a.blanks ++ rest)))) = rest
    rw [afterClosing_append arguments.balanced]
    exact Text.trimStart_append a.blank hblank

/-- **An annotation is read as it is written**, up to what follows it. -/
theorem annotation?_append (hrest : ∀ c ∈ rest.head?, Text.isBlank c = false ∧ c ≠ '(') :
    annotation? (a.chars ++ rest) = some (a.sign, rest) := by
  obtain ⟨c, behind, hbehind, hc⟩ := a.exists_behind
  have hinterface : "interface".toList.isPrefixOf (a.name ++ (a.behind ++ rest)) = false := by
    rw [← Bool.not_eq_true, List.isPrefixOf_iff_prefix]
    intro hprefix
    refine a.not_interface (prefix_of_prefix_append (p := isAnnotationChar) ?_ ?_ hprefix)
    · have hall : "interface".toList.all isAnnotationChar = true := by decide +kernel
      exact List.all_eq_true.1 hall
    · rw [hbehind]
      rintro d ⟨⟩
      exact hc
  have htake : (a.name ++ (a.behind ++ rest)).takeWhile isAnnotationChar = a.name := by
    rw [hbehind, List.cons_append]
    exact Text.takeWhile_append_cons _ a.name_chars hc
  have hdrop : (a.name ++ (a.behind ++ rest)).dropWhile isAnnotationChar = a.behind ++ rest := by
    rw [hbehind, List.cons_append]
    exact Text.dropWhile_append_cons _ a.name_chars hc
  rw [chars, sign, List.append_assoc, List.cons_append, annotation?, hinterface, htake, hdrop,
    if_neg Bool.false_ne_true, a.trimStart_afterArguments hrest]
  split
  · next heq => exact absurd heq a.name_ne_nil
  · rfl

end Annotation

/-! ## Any number of them -/

/-- Code behind annotations starts with no blank, no sign and no parenthesis. -/
def StartsCode (code : List Char) : Prop :=
  ∀ c ∈ code.head?, Text.isBlank c = false ∧ c ≠ '@' ∧ c ≠ '('

instance (code : List Char) : Decidable (StartsCode code) :=
  Option.decidableForallMem code.head?

/-- Nor does what is behind one of them. -/
theorem StartsCode.head?_append (hcode : StartsCode code) (as : List Annotation) :
    ∀ c ∈ (as.flatMap Annotation.chars ++ code).head?, Text.isBlank c = false ∧ c ≠ '(' := by
  cases as with
  | nil => exact fun c hc => ⟨(hcode c hc).1, (hcode c hc).2.2⟩
  | cons a as =>
    rintro c ⟨⟩
    decide

/-- **The names of annotations are split off and the code stays**: by induction on the
annotations. -/
theorem annotationsFrom_append (hcode : StartsCode code) (as : List Annotation) {fuel : Nat}
    (hfuel : as.length ≤ fuel) :
    annotationsFrom fuel (as.flatMap Annotation.chars ++ code) =
      (as.map Annotation.sign, code) := by
  induction as generalizing fuel with
  | nil =>
    have hnone : annotation? code = none := by
      unfold annotation?
      split
      · next text => exact absurd rfl (hcode '@' (by simp)).2.1
      · rfl
    cases fuel with
    | zero => rfl
    | succ fuel =>
      rw [List.flatMap_nil, List.nil_append, annotationsFrom, hnone]
      rfl
  | cons a as ih =>
    obtain ⟨fuel, rfl⟩ : ∃ n, fuel = n + 1 := ⟨fuel - 1, by simp at hfuel; omega⟩
    rw [List.flatMap_cons, List.append_assoc, annotationsFrom,
      a.annotation?_append (hcode.head?_append as)]
    dsimp only
    rw [ih (Nat.le_of_succ_le_succ hfuel)]
    rfl

/-- No annotation is without characters. -/
theorem length_le_length_flatMap_chars (as : List Annotation) :
    as.length ≤ (as.flatMap Annotation.chars).length := by
  induction as with
  | nil => exact Nat.le_refl 0
  | cons a as ih =>
    rw [List.flatMap_cons, List.length_append, List.length_cons, Annotation.chars,
      Annotation.sign, List.cons_append, List.length_cons]
    omega

/-- Blanks in front of the annotations are passed too. -/
theorem splitAnnotations_append {lead : List Char} (hlead : ∀ c ∈ lead, Text.isBlank c = true)
    (as : List Annotation) (hcode : StartsCode code) :
    splitAnnotations (lead ++ (as.flatMap Annotation.chars ++ code)) =
      (as.map Annotation.sign, code) := by
  have hstart := Text.trimStart_append hlead fun c hc => (hcode.head?_append as c hc).1
  have hlength := length_le_length_flatMap_chars as
  rw [splitAnnotations, hstart]
  refine annotationsFrom_append hcode as ?_
  simp only [List.length_append]
  omega

/-- What is behind the annotations is an end of the text. -/
theorem annotationsFrom_suffix (fuel : Nat) :
    ∀ text, (annotationsFrom fuel text).2 <:+ text := by
  induction fuel with
  | zero => exact fun text => List.suffix_rfl
  | succ fuel ih =>
    intro text
    rw [annotationsFrom]
    cases hnext : annotation? text with
    | none => exact List.suffix_rfl
    | some next =>
      obtain ⟨tail, rfl, hsuffix⟩ := annotation?_suffix hnext
      exact ((ih next.2).trans hsuffix).trans (List.suffix_cons _ _)

theorem splitAnnotations_suffix (text : List Char) : (splitAnnotations text).2 <:+ text :=
  (annotationsFrom_suffix _ _).trans (List.dropWhile_suffix _)

/-- **Annotations are split off completely.** Of annotations in front of code all names
are found, and the code is what is left. Of any text at all, read by places in bytes with
cuts that can fail, the reading ends after fewer turns than there are characters, no cut
fails, and what is left is an end of the text. -/
theorem annotations_split_off :
    (∀ (lead : List Char) (as : List Annotation) (code : List Char),
      (∀ c ∈ lead, Text.isBlank c = true) → StartsCode code →
      splitAnnotations (lead ++ (as.flatMap Annotation.chars ++ code)) =
        (as.map Annotation.sign, code)) ∧
    ∀ (text : List Char) (turns : Nat), text.length < turns →
      annotationsAt? turns text = some (splitAnnotations text) ∧
        (splitAnnotations text).2 <:+ text :=
  ⟨fun _ as _ hlead hcode => splitAnnotations_append hlead as hcode,
    fun text _ hturns => ⟨annotationsAt?_eq text hturns, splitAnnotations_suffix text⟩⟩

/-- A plain annotation. -/
def overrideMark : Annotation where
  name := "Override".toList
  name_ne_nil := by decide
  name_chars := List.all_iff_forall_prop.1 (by decide +kernel)
  not_interface := by decide
  blanks_ne_nil := by decide
  blank := List.all_iff_forall_prop.1 (by decide)

/-- An annotation with parentheses in its arguments, and blanks in front of them. -/
def pathMark : Annotation where
  name := "web.Path".toList
  arguments := some
    ⟨[' '], "f(x)+(g())".toList, List.all_iff_forall_prop.1 (by decide), by decide +kernel⟩
  blanks := ['\t', ' ']
  name_ne_nil := by decide
  name_chars := List.all_iff_forall_prop.1 (by decide +kernel)
  not_interface := by decide
  blanks_ne_nil := by decide
  blank := List.all_iff_forall_prop.1 (by decide)

/-- Both of them in front of a method, and a text whose arguments are not closed. -/
theorem annotations_split_off_marks :
    splitAnnotations " @Override @web.Path (f(x)+(g()))\t void run()".toList =
      (["@Override".toList, "@web.Path".toList], "void run()".toList) ∧
    annotationsAt? 8 "@A(é".toList = some (["@A".toList], []) := by
  have hmarks := annotations_split_off.1 [' '] [overrideMark, pathMark] "void run()".toList
    (List.all_iff_forall_prop.1 (by decide)) (by decide +kernel)
  have hopen := (annotations_split_off.2 "@A(é".toList 8 (by decide)).1
  have htext : [' '] ++ ([overrideMark, pathMark].flatMap Annotation.chars ++ "void run()".toList) =
      " @Override @web.Path (f(x)+(g()))\t void run()".toList := by decide +kernel
  have hrest : splitAnnotations "@A(é".toList = (["@A".toList], []) := by decide +kernel
  rw [htext] at hmarks
  rw [hrest] at hopen
  exact ⟨hmarks, hopen⟩

end Docsmith.Source.Lines

namespace Docsmith.Source.Lines.Java

variable {text : List Char} {pieces : List (List Char)} {n m : Nat}

/-! ## Commas on the outside -/

/-- The characters that a list is cut by: angle brackets and commas. -/
def cutting : List Char :=
  ['<', '>', ',']

/-- Every comma stands inside angle brackets, which are balanced. -/
abbrev IsWhole (text : List Char) : Prop :=
  IsBalanced '<' '>' [','] text

/-- Only angle brackets and commas count. -/
theorem foldlM_level?_of_clear (h : ∀ c ∈ text, c ∉ cutting) :
    text.foldlM (level? '<' '>' [',']) n = some n := by
  induction text with
  | nil => rfl
  | cons c text ih =>
    obtain ⟨hc, htext⟩ := List.forall_mem_cons.1 h
    simp only [cutting, List.mem_cons, List.not_mem_nil, or_false, not_or] at hc
    rw [List.foldlM_cons]
    simp only [level?, hc, List.mem_singleton, false_and, if_false]
    exact ih htext

theorem isWhole_append_clear {before after : List Char} (hbefore : ∀ c ∈ before, c ∉ cutting)
    (h : IsWhole text) (hafter : ∀ c ∈ after, c ∉ cutting) :
    IsWhole (before ++ (text ++ after)) := by
  have htext : text.foldlM (level? '<' '>' [',']) 0 = some 0 := h
  have hmore : (text ++ after).foldlM (level? '<' '>' [',']) 0 = some 0 := by
    rw [List.foldlM_append, htext]
    exact foldlM_level?_of_clear hafter
  change (before ++ (text ++ after)).foldlM (level? '<' '>' [',']) 0 = some 0
  rw [List.foldlM_append, foldlM_level?_of_clear hbefore]
  exact hmore

/-- **A text that leads from one level to another is not cut**: by induction on the text,
of which no comma stands at level zero. -/
theorem cutParameters_append (h : text.foldlM (level? '<' '>' [',']) n = some m)
    (current rest : List Char) :
    cutParameters n current (text ++ rest) = cutParameters m (text.reverse ++ current) rest := by
  induction text generalizing n current with
  | nil =>
    cases h
    rfl
  | cons c text ih =>
    rw [List.foldlM_cons] at h
    obtain ⟨next, hnext, h⟩ := Option.bind_eq_some_iff.1 h
    have hgoes : cutParameters n current (c :: (text ++ rest)) =
        cutParameters next (c :: current) (text ++ rest) := by
      rcases level?_cases hnext with ⟨rfl, rfl⟩ | ⟨-, rfl, rfl⟩ | ⟨hopen, hclose, hinner, rfl⟩
      · rfl
      · have hlevel : ((next + 1 : Nat) : Int) - 1 = next := by omega
        simp only [cutParameters, hlevel]
        rfl
      · have hstays : ¬ (decide (c = ',') && decide ((next : Int) = 0)) = true := by
          rw [Bool.and_eq_true, decide_eq_true_eq, decide_eq_true_eq]
          rintro ⟨rfl, hzero⟩
          exact hinner (List.mem_singleton_self _) (by omega)
        rw [cutParameters, if_neg hstays, if_neg hopen, if_neg hclose]
    rw [List.cons_append, hgoes, ih h, List.reverse_cons, List.append_assoc,
      List.singleton_append]

/-- **Pieces come back from their join.** -/
theorem cutParameters_join (hne : pieces ≠ []) (h : ∀ piece ∈ pieces, IsWhole piece) :
    cutParameters 0 [] (Text.join [','] pieces) = pieces := by
  induction pieces with
  | nil => exact absurd rfl hne
  | cons piece pieces ih =>
    obtain ⟨hpiece, hpieces⟩ := List.forall_mem_cons.1 h
    have hcut : ∀ rest, cutParameters 0 [] (piece ++ rest) =
        cutParameters 0 piece.reverse rest := by
      intro rest
      have happend := cutParameters_append hpiece [] rest
      rwa [List.append_nil] at happend
    cases pieces with
    | nil =>
      rw [Text.join, List.intercalate_singleton, ← List.append_nil piece, hcut, cutParameters,
        List.reverse_reverse, List.append_nil]
    | cons next more =>
      have hcomma : ∀ rest, cutParameters 0 piece.reverse (',' :: rest) =
          piece :: cutParameters 0 [] rest := by
        intro rest
        simp [cutParameters]
      rw [Text.join, List.intercalate_cons_cons, List.append_assoc, hcut, List.singleton_append,
        hcomma, ← Text.join, ih (List.cons_ne_nil _ _) hpieces]

/-! ## Parameters -/

/-- A text to stand for a parameter: in single spaces, without annotations, parentheses or
the word `final` in front, and whole. -/
structure IsParameter (text : List Char) : Prop where
  ne_nil : text ≠ []
  spaced : Text.collapse text = text
  starts : ∀ c ∈ text.head?, c ≠ '@' ∧ c ≠ '('
  not_final : ¬ "final ".toList <+: text
  whole : IsWhole text

/-- A parameter as it stands in a list: between blanks, behind annotations and the word
`final` perhaps. The arguments of its annotations have no commas and no angle brackets. -/
structure Parameter where
  text : List Char
  annotations : List Annotation := []
  isFinal : Bool := false
  before : List Char := []
  after : List Char := []
  isParameter : IsParameter text
  clear : ∀ a ∈ annotations, ∀ arguments ∈ a.arguments, ∀ c ∈ arguments.text, c ∉ cutting
  before_blank : ∀ c ∈ before, Text.isBlank c = true
  after_blank : ∀ c ∈ after, Text.isBlank c = true

theorem not_mem_cutting_of_isBlank {c : Char} (h : Text.isBlank c = true) : c ∉ cutting := by
  have hall : ∀ d ∈ cutting, Text.isBlank d = false := List.all_iff_forall_prop.1 (by decide)
  exact fun hc => Text.ne_of_isBlank h (hall c hc) rfl

/-- An annotation is as clear as its arguments are. -/
theorem not_mem_cutting_of_mem_chars {a : Annotation} {c : Char}
    (h : ∀ arguments ∈ a.arguments, ∀ c ∈ arguments.text, c ∉ cutting) (hc : c ∈ a.chars) :
    c ∉ cutting := by
  have hname : ∀ d ∈ a.name, d ∉ cutting := by
    have hall : cutting.all (!isAnnotationChar ·) = true := by decide +kernel
    intro d hd hcut
    simpa [a.name_chars d hd] using List.all_eq_true.1 hall d hcut
  have harguments : ∀ d ∈ a.arguments.elim [] Arguments.chars, d ∉ cutting := by
    cases hopt : a.arguments with
    | none => exact List.forall_mem_nil _
    | some arguments =>
      have hends : '(' ∉ cutting ∧ ')' ∉ cutting := by decide
      have htext := h arguments hopt
      refine List.forall_mem_append.2
        ⟨fun d hd => not_mem_cutting_of_isBlank (arguments.blank d hd), ?_⟩
      exact List.forall_mem_cons.2
        ⟨hends.1, List.forall_mem_append.2 ⟨htext, List.forall_mem_singleton.2 hends.2⟩⟩
  have hblanks : ∀ d ∈ a.blanks, d ∉ cutting := fun d hd =>
    not_mem_cutting_of_isBlank (a.blank d hd)
  unfold Annotation.chars Annotation.sign Annotation.behind at hc
  rcases List.mem_append.1 hc with hc | hc
  · rcases List.mem_cons.1 hc with rfl | hc
    · decide
    · exact hname c hc
  · exact List.forall_mem_append.2 ⟨harguments, hblanks⟩ c hc

namespace Parameter

variable (p : Parameter)

/-- The word `final` with a space, where it is written. -/
def finalWord : List Char :=
  if p.isFinal then "final ".toList else []

/-- The parameter as it is written. -/
def chars : List Char :=
  p.before ++ (p.annotations.flatMap Annotation.chars ++ (p.finalWord ++ (p.text ++ p.after)))

/-- What stands in front of a parameter's text cuts no list. -/
theorem isWhole_chars : IsWhole p.chars := by
  have hannotations : ∀ c ∈ p.annotations.flatMap Annotation.chars, c ∉ cutting := by
    intro c hc
    obtain ⟨a, ha, hc⟩ := List.mem_flatMap.1 hc
    exact not_mem_cutting_of_mem_chars (p.clear a ha) hc
  have hfinal : ∀ c ∈ p.finalWord, c ∉ cutting := by
    rw [finalWord]
    split
    · exact List.all_iff_forall_prop.1 (by decide)
    · exact List.forall_mem_nil _
  have hfront : ∀ c ∈ p.before ++ (p.annotations.flatMap Annotation.chars ++ p.finalWord),
      c ∉ cutting :=
    List.forall_mem_append.2 ⟨fun c hc => not_mem_cutting_of_isBlank (p.before_blank c hc),
      List.forall_mem_append.2 ⟨hannotations, hfinal⟩⟩
  have hwhole := isWhole_append_clear hfront p.isParameter.whole fun c hc =>
    not_mem_cutting_of_isBlank (p.after_blank c hc)
  rwa [List.append_assoc, List.append_assoc] at hwhole

theorem isCollapsed_text : Text.IsCollapsed p.text :=
  Text.collapse_eq_self_iff.1 p.isParameter.spaced

/-- The text, with or without the word in front, is code behind the annotations. -/
theorem startsCode : StartsCode (p.finalWord ++ (p.text ++ p.after)) := by
  rw [finalWord]
  split
  · rintro c ⟨⟩
    decide
  · obtain ⟨c, text, htext⟩ := List.exists_cons_of_ne_nil p.isParameter.ne_nil
    have hhead : c ∈ p.text.head? := by simp [htext]
    rw [htext]
    rintro d ⟨⟩
    exact ⟨p.isCollapsed_text.first c hhead, p.isParameter.starts c hhead⟩

/-- The blanks behind the text are trimmed, and nothing of what is in front. -/
theorem trim_finalWord : Text.trim (p.finalWord ++ (p.text ++ p.after)) =
    p.finalWord ++ p.text := by
  have hlast : ∀ c ∈ (p.finalWord ++ p.text).getLast?, Text.isBlank c = false := by
    rw [List.getLast?_append_of_ne_nil _ p.isParameter.ne_nil]
    exact p.isCollapsed_text.last
  have hfirst : ∀ c ∈ (p.finalWord ++ p.text).head?, Text.isBlank c = false := by
    rw [finalWord]
    split
    · rintro c ⟨⟩
      decide
    · exact p.isCollapsed_text.first
  rw [← List.append_assoc, Text.trim_append_blanks p.after_blank, Text.trim_eq_self hfirst hlast]

/-- **Of a parameter its text remains.** -/
theorem cleanParameter_chars : cleanParameter p.chars = p.text := by
  have hdrop : (Text.dropStart? ['f', 'i', 'n', 'a', 'l', ' '] (p.finalWord ++ p.text)).getD
      (p.finalWord ++ p.text) = p.text := by
    rw [finalWord]
    split
    · have hword : Text.dropStart? "final ".toList ("final ".toList ++ p.text) = some p.text :=
        Text.dropStart?_eq_some.2 rfl
      exact congrArg (Option.getD · _) hword
    · have hnone : Text.dropStart? ['f', 'i', 'n', 'a', 'l', ' '] p.text = none := by
        rw [Option.eq_none_iff_forall_ne_some]
        intro rest hrest
        exact p.isParameter.not_final ⟨rest, (Text.dropStart?_eq_some.1 hrest).symm⟩
      rw [List.nil_append, hnone]
      rfl
  rw [cleanParameter, chars, splitAnnotations_append p.before_blank _ p.startsCode]
  dsimp only
  rw [p.trim_finalWord, hdrop, p.isParameter.spaced]

end Parameter

/-- **The parameters of a list are those it was joined from**, whatever blanks stand around
its commas and whether annotations or the word `final` stand in front of a parameter. -/
theorem parameters_of_join (ps : List Parameter) :
    javaParameters (Text.join [','] (ps.map Parameter.chars)) = ps.map Parameter.text := by
  have hclean : (ps.map Parameter.chars).map cleanParameter = ps.map Parameter.text := by
    rw [List.map_map]
    exact List.map_congr_left fun p _ => p.cleanParameter_chars
  have hkept : (ps.map Parameter.text).filter (!·.isEmpty) = ps.map Parameter.text := by
    rw [List.filter_eq_self]
    refine List.forall_mem_map.2 fun p _ => ?_
    simpa using p.isParameter.ne_nil
  cases ps with
  | nil => rfl
  | cons p ps =>
    have hcut : cutParameters 0 [] (Text.join [','] ((p :: ps).map Parameter.chars)) =
        (p :: ps).map Parameter.chars :=
      cutParameters_join (List.cons_ne_nil _ _)
        (List.forall_mem_map.2 fun q _ => q.isWhole_chars)
    rw [javaParameters, hcut, hclean, hkept]

/-- A parameter with a comma inside nested angle brackets. -/
theorem isParameter_map : IsParameter "Map<K, List<V>> source".toList where
  ne_nil := by decide
  spaced := by decide +kernel
  starts := by
    rintro c ⟨⟩
    decide
  not_final := by decide
  whole := by decide

/-- A parameter whose name starts with the word `final`. -/
theorem isParameter_finals : IsParameter "int finals".toList where
  ne_nil := by decide
  spaced := by decide +kernel
  starts := by
    rintro c ⟨⟩
    decide
  not_final := by decide
  whole := by decide

/-- Behind the word `final`. -/
def mapParameter : Parameter where
  text := "Map<K, List<V>> source".toList
  isFinal := true
  after := [' ']
  isParameter := isParameter_map
  clear := by simp
  before_blank := List.all_iff_forall_prop.1 (by decide)
  after_blank := List.all_iff_forall_prop.1 (by decide)

/-- Behind two annotations. -/
def finalsParameter : Parameter where
  text := "int finals".toList
  annotations := [overrideMark, pathMark]
  before := ['\t']
  isParameter := isParameter_finals
  clear := by
    have hmarks : ∀ c ∈ "f(x)+(g())".toList, c ∉ cutting := List.all_iff_forall_prop.1 (by decide)
    refine List.forall_mem_cons.2 ⟨?_, List.forall_mem_singleton.2 ?_⟩
    · rintro arguments ⟨⟩
    · rintro arguments ⟨⟩
      exact hmarks
  before_blank := List.all_iff_forall_prop.1 (by decide)
  after_blank := List.all_iff_forall_prop.1 (by decide)

/-- Both of them in a list. -/
theorem parameters_of_join_marked :
    javaParameters ("final Map<K, List<V>> source ,".toList ++
        "\t@Override @web.Path (f(x)+(g()))\t int finals".toList) =
      ["Map<K, List<V>> source".toList, "int finals".toList] := by
  have hjoin := parameters_of_join [mapParameter, finalsParameter]
  have htext : Text.join [','] ([mapParameter, finalsParameter].map Parameter.chars) =
      "final Map<K, List<V>> source ,".toList ++
        "\t@Override @web.Path (f(x)+(g()))\t int finals".toList := by
    decide +kernel
  rw [htext] at hjoin
  exact hjoin

end Docsmith.Source.Lines.Java

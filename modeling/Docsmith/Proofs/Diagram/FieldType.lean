import Docsmith.Proofs.Diagram.MemberText
import Docsmith.Proofs.Diagram.Qualifiers
import Mathlib.Data.List.TakeWhile
/-!
# Diagrams — the type of an assigned field

The signature of a field is its name, its annotation if it has one, and its
value if it has one. The diagram shows the annotation without type arguments and
qualifiers (`shownType`), unless the value speaks in its place: an arrow in the
value counts as one in front of a result, and in a field without annotation a
word of the value that is the field's name counts as the name itself, with the
type before it (`Shows`). So a field is shown by its annotation exactly if its
value shows the same (`memberType_eq_shownType_iff`).
-/


namespace Docsmith.Diagram

open Docsmith.Text Docsmith.Unicode

variable {text before after name word : List Char} {c : Char}

/-! ## Spaces around types -/

/-- Spaces around a type do not show. -/
theorem typeOr_spaced (default : String) (text : List Char) :
    PlantUml.typeOr default (' ' :: text) = PlantUml.typeOr default text ∧
      PlantUml.typeOr default (text ++ [' ']) = PlantUml.typeOr default text := by
  have hof : ∀ text more : List Char,
      words (dropQualifiers false (dropGenerics 0 text)) =
        words (dropQualifiers false (dropGenerics 0 more)) →
      PlantUml.typeOr default text = PlantUml.typeOr default more := fun text more h => by
    simp only [PlantUml.typeOr, simplify, stripQualifiers, stripGenerics, String.toList_ofList,
      collapse, h]
  have hblank : isBlank ' ' = true := by decide
  constructor
  · refine hof _ _ ?_
    have hgenerics : dropGenerics 0 ([' '] ++ text) = [' '] ++ dropGenerics 0 text :=
      dropGenerics_append_of_not_mem text (by decide)
    have hqualifiers := dropQualifiers_append_space false [] (dropGenerics 0 text)
    rw [dropQualifiers_nil, List.nil_append, List.nil_append] at hqualifiers
    rw [List.singleton_append, List.singleton_append] at hgenerics
    rw [hgenerics, hqualifiers]
    exact words_append_cons [] _ hblank
  · refine hof _ _ ?_
    obtain ⟨deep, hdeep⟩ := dropGenerics_append 0 text
    rw [hdeep [' ']]
    -- the space is dropped with the brackets that are left open, if any are
    cases deep with
    | zero =>
      have hspace : dropGenerics 0 [' '] = [' '] := rfl
      rw [hspace, dropQualifiers_append_space, words_append_cons _ _ hblank, dropQualifiers_nil]
      exact List.append_nil _
    | succ deep =>
      have hspace : dropGenerics (deep + 1) [' '] = [] := rfl
      rw [hspace, List.append_nil]

/-! ## Names -/

/-- No word character is a blank. -/
theorem isWordChar_of_isBlank (h : isBlank c = true) : isWordChar c = false := by
  have hall : (blanks.all (!isWordChar ·)) = true := by decide +kernel
  simpa using List.all_eq_true.1 hall c (mem_blanks_of_isBlank h)

/-- A name: word characters, and there is one. -/
structure IsName (name : List Char) : Prop where
  ne_nil : name ≠ []
  word : ∀ c ∈ name, isWordChar c = true

namespace IsName

theorem not_mem (h : IsName name) (hc : isWordChar c = false) : c ∉ name := fun hmem => by
  rw [h.word c hmem] at hc
  cases hc

theorem isBlank (h : IsName name) (hc : c ∈ name) : Text.isBlank c = false := by
  rw [← Bool.not_eq_true]
  exact fun hblank => h.not_mem (isWordChar_of_isBlank hblank) hc

end IsName

/-! ## Arrows -/

/-- No arrow stands in the text. -/
def IsArrowFree (text : List Char) : Prop :=
  ∀ before after, text ≠ before ++ ['-', '>'] ++ after

theorem isArrowFree_of_not_mem (h : '>' ∉ text) : IsArrowFree text := by
  rintro before after rfl
  exact h (by simp)

/-- An arrow does not reach across another character. -/
theorem isArrowFree_append_cons (hdash : c ≠ '-') (htip : c ≠ '>') :
    IsArrowFree (before ++ c :: after) ↔ IsArrowFree before ∧ IsArrowFree after := by
  constructor
  · refine fun h => ⟨?_, ?_⟩ <;> rintro first second rfl
    · exact h first (second ++ c :: after) (by simp)
    · exact h (before ++ c :: first) second (by simp)
  · rintro ⟨hbefore, hafter⟩ first second heq
    rw [List.append_assoc] at heq
    rcases List.append_eq_append_iff.1 heq with ⟨more, rfl, hm⟩ | ⟨more, rfl, hm⟩
    · rcases more with _ | ⟨d, more⟩
      · exact hdash (List.cons.inj hm).1
      · obtain ⟨-, rfl⟩ := List.cons.inj hm
        exact hafter more second (by simp)
    · rcases more with _ | ⟨d, _ | ⟨e, more⟩⟩
      · exact hdash (List.cons.inj hm).1.symm
      · exact htip (by simp_all)
      · obtain ⟨rfl, rfl, -⟩ : '-' = d ∧ '>' = e ∧ second = more ++ c :: after := by simpa using hm
        exact hbefore first more (by simp)

/-- No arrow comes after one behind which there is none. -/
theorem length_le_of_isArrowFree {before' after' : List Char} (h : IsArrowFree after)
    (heq : before ++ ['-', '>'] ++ after = before' ++ ['-', '>'] ++ after') :
    before'.length ≤ before.length := by
  rw [List.append_assoc, List.append_assoc] at heq
  rcases List.append_eq_append_iff.1 heq with ⟨more, rfl, hm⟩ | ⟨more, rfl, -⟩
  · rcases more with _ | ⟨d, _ | ⟨e, more⟩⟩
    · simp
    · simp at hm
    · obtain ⟨-, -, hm⟩ : '-' = d ∧ '>' = e ∧ after = more ++ '-' :: '>' :: after' := by
        simpa using hm
      exact absurd (by simpa using hm) (h more after')
  · simp

/-- **What stands behind the last arrow** of a text. -/
theorem splitLast?_arrow : splitLast? ['-', '>'] text = some (before, after) ↔
    text = before ++ ['-', '>'] ++ after ∧ IsArrowFree after := by
  have hlast : ∀ {before after}, splitLast? ['-', '>'] text = some (before, after) →
      text = before ++ ['-', '>'] ++ after ∧ IsArrowFree after := fun {before after} h => by
    obtain ⟨heq, hmin⟩ := splitLast?_eq_some h
    refine ⟨heq, fun first second hafter => ?_⟩
    have hle := hmin (before ++ ['-', '>'] ++ first) second (by rw [heq, hafter]; simp)
    rw [hafter] at hle
    simp only [List.length_append, List.length_cons, List.length_nil] at hle
    omega
  refine ⟨hlast, fun ⟨heq, hfree⟩ => ?_⟩
  cases hsplit : splitLast? ['-', '>'] text with
  | none => exact absurd heq (splitLast?_eq_none.1 hsplit before after)
  | some halves =>
    obtain ⟨before', after'⟩ := halves
    obtain ⟨heq', hfree'⟩ := hlast hsplit
    have hsame := heq'.symm.trans heq
    have hlength : before'.length = before.length :=
      Nat.le_antisymm (length_le_of_isArrowFree hfree hsame.symm)
        (length_le_of_isArrowFree hfree' hsame)
    rw [List.append_assoc, List.append_assoc] at hsame
    obtain ⟨rfl, harrow⟩ := List.append_inj hsame hlength
    rw [List.append_cancel_left harrow]

theorem splitLast?_arrow_eq_none : splitLast? ['-', '>'] text = none ↔ IsArrowFree text :=
  splitLast?_eq_none

/-- A text either has no arrow or a last one. -/
theorem isArrowFree_or_last (text : List Char) : IsArrowFree text ∨
    ∃ before after, text = before ++ ['-', '>'] ++ after ∧ IsArrowFree after := by
  cases hsplit : splitLast? ['-', '>'] text with
  | none => exact .inl (splitLast?_arrow_eq_none.1 hsplit)
  | some halves => exact .inr ⟨halves.1, halves.2, splitLast?_arrow.1 hsplit⟩

namespace PlantUml

/-! ## Words in front of a parenthesis -/

/-- The words of a text up to its first parenthesis, without type arguments and
qualifiers. -/
def headWords (text : List Char) : List String :=
  (words (stripQualifiers (stripGenerics (String.ofList (text.takeWhile (· != '('))))).toList).map
    String.ofList

/-- A word that may be a type: neither a modifier nor an annotation. -/
def IsPlainWord (word : String) : Prop :=
  word.toList.head? ≠ some '@' ∧ word ∉ modifiers

instance (word : String) : Decidable (IsPlainWord word) :=
  inferInstanceAs (Decidable (_ ∧ _))

theorem isPlainWord_iff {word : String} :
    (word.toList.head? != some '@' && !modifiers.contains word) = true ↔ IsPlainWord word := by
  simp [IsPlainWord]

/-- A word in which nothing is cut or stripped. -/
structure IsWhole (word : List Char) : Prop where
  ne_nil : word ≠ []
  blank : ∀ c ∈ word, isBlank c = false
  bracket : '(' ∉ word
  angle : '<' ∉ word
  dot : '.' ∉ word

theorem isWhole_of_isName (h : IsName name) : IsWhole name where
  ne_nil := h.ne_nil
  blank _ hc := h.isBlank hc
  bracket := h.not_mem (by decide +kernel)
  angle := h.not_mem (by decide +kernel)
  dot := h.not_mem (by decide +kernel)

theorem IsWhole.ne_bracket (h : IsWhole word) : ∀ c ∈ word, (c != '(') = true := by
  intro c hc
  have : c ≠ '(' := fun heq => h.bracket (heq ▸ hc)
  simpa using this

/-- It is a word of its own. -/
theorem headWords_of_isWhole (h : IsWhole word) : headWords word = [String.ofList word] := by
  have hhead : word.takeWhile (· != '(') = word := List.takeWhile_eq_self_iff.2 h.ne_bracket
  have hgenerics : dropGenerics 0 word = word := dropGenerics_of_not_mem h.angle
  simp only [headWords, stripQualifiers, stripGenerics, String.toList_ofList, hhead, hgenerics,
    dropQualifiers_of_not_mem false h.dot, words_of_forall h.ne_nil h.blank]
  rfl

/-- **So it is in front of a space.** -/
theorem headWords_append_space (h : IsWhole word) (more : List Char) :
    headWords (word ++ ' ' :: more) = String.ofList word :: headWords more := by
  have hhead : (word ++ ' ' :: more).takeWhile (· != '(') =
      word ++ ' ' :: more.takeWhile (· != '(') := by
    rw [List.takeWhile_append_of_pos h.ne_bracket]
    rfl
  have hgenerics : dropGenerics 0 (word ++ ' ' :: more.takeWhile (· != '(')) =
      word ++ ' ' :: dropGenerics 0 (more.takeWhile (· != '(')) :=
    dropGenerics_append_of_not_mem _ h.angle
  have hblank : isBlank ' ' = true := by decide
  simp only [headWords, stripQualifiers, stripGenerics, String.toList_ofList, hhead, hgenerics,
    dropQualifiers_append_space, dropQualifiers_of_not_mem false h.dot,
    words_append_cons _ _ hblank, words_of_forall h.ne_nil h.blank]
  rfl

/-- **The words of an assignment** are the name, the equals sign and those of
the value. -/
theorem headWords_assigned (hname : IsName name) (value : List Char) :
    headWords (name ++ ' ' :: '=' :: ' ' :: value) =
      String.ofList name :: "=" :: headWords value := by
  have hequals : IsWhole ['='] :=
    ⟨by decide, List.forall_mem_singleton.2 (by decide), by decide, by decide, by decide⟩
  have hvalue := headWords_append_space hequals value
  rw [List.singleton_append] at hvalue
  rw [headWords_append_space (isWhole_of_isName hname), hvalue]

/-- The type before a name is the last word that may be one before the last
occurrence of the name. -/
theorem declaredType?_eq {name : String} {signature : List Char} {before after : List String}
    (h : headWords signature = before ++ name :: after) (hlast : name ∉ after) :
    declaredType? name signature =
      before.reverse.find? fun w => w.toList.head? != some '@' && !modifiers.contains w := by
  have hwords : (headWords signature).reverse.dropWhile (· != name) = name :: before.reverse := by
    rw [h, List.reverse_append, List.reverse_cons, List.append_assoc, List.singleton_append,
      List.dropWhile_append_of_pos (fun w hw => ?_), List.dropWhile_cons_of_neg (by simp)]
    have : w ≠ name := fun e => hlast (e ▸ List.mem_reverse.1 hw)
    simpa using this
  simp only [headWords] at hwords
  simp only [declaredType?, hwords]

/-! ## What a field shows -/

/-- What an annotation shows: its type without type arguments and qualifiers, in
single spaces, and an object where nothing is left or there is none. -/
def shownType : Option String → String
  | some type => typeOr "Object" type.toList
  | none => "Object"

/-- A field with the signature of an assignment: the name, the annotation and
the value, where there are such. No arrow or equals sign stands in the
annotation. -/
structure IsField (m : Element) (type? value? : Option String) : Prop where
  kind : m.kind = .field
  name : IsName m.name.toList
  type : ∀ type ∈ type?, '=' ∉ type.toList ∧ IsArrowFree type.toList
  signature : m.signature =
    m.name ++ (type?.map (": " ++ ·)).getD "" ++ (value?.map (" = " ++ ·)).getD ""

/-- What a field with a value shows: the text behind the last arrow in the
value; without an arrow the annotation; without an annotation the word before
the last one in the value that is the name. -/
inductive Shows (name : String) (type? : Option String) (value : String) : String → Prop where
  | arrow {before after : List Char} (h : value.toList = before ++ ['-', '>'] ++ after)
      (hlast : IsArrowFree after) :
      Shows name type? value (typeOr "Object" (trim (dropAllEnd ':' (trim after))))
  | hinted (hfree : IsArrowFree value.toList) (htype : type?.isSome) :
      Shows name type? value (shownType type?)
  | word {before between after : List String} {word : String} (hfree : IsArrowFree value.toList)
      (htype : type? = none)
      (h : "=" :: headWords value.toList = before ++ word :: between ++ name :: after)
      (hlast : name ∉ after) (hword : IsPlainWord word)
      (hbetween : ∀ w ∈ between, ¬ IsPlainWord w) : Shows name type? value word
  | nothing (hfree : IsArrowFree value.toList) (htype : type? = none)
      (h : name ∉ headWords value.toList) : Shows name type? value "Object"

variable {m : Element} {type? value? : Option String} {value shown : String}

/-- What stands in front of a value. -/
def target (name : String) (type? : Option String) : List Char :=
  name.toList ++ (type?.map fun type => ':' :: ' ' :: type.toList).getD []

/-- A value behind its equals sign. -/
def assigned (value? : Option String) : List Char :=
  (value?.map fun value => ' ' :: '=' :: ' ' :: value.toList).getD []

/-- The last word before the last occurrence of a name, where there is one. -/
theorem exists_plainWord {name : String} {words : List String} (h : name ∈ words) :
    ∃ before word between after, "=" :: words = before ++ word :: between ++ name :: after ∧
      name ∉ after ∧ IsPlainWord word ∧ ∀ w ∈ between, ¬ IsPlainWord w := by
  obtain ⟨after, before, hsplit, hafter⟩ := List.eq_append_cons_of_mem (List.mem_reverse.2 h)
  -- the equals sign counts as such a word
  have hplain : (("=" :: before.reverse).reverse.find? fun w =>
      w.toList.head? != some '@' && !modifiers.contains w).isSome := by
    refine List.find?_isSome.2 ⟨"=", by simp, isPlainWord_iff.2 (by decide)⟩
  obtain ⟨word, hword⟩ := Option.isSome_iff_exists.1 hplain
  obtain ⟨hword, behind, front, hfind, hbehind⟩ := List.find?_eq_some_iff_append.1 hword
  refine ⟨front.reverse, word, behind.reverse, after.reverse, ?_, by simpa using hafter,
    isPlainWord_iff.1 hword, fun w hw hplain => ?_⟩
  · have hwords : "=" :: words = "=" :: before.reverse ++ name :: after.reverse := by
      rw [← List.reverse_reverse words, hsplit]
      simp
    have hfront : "=" :: before.reverse = front.reverse ++ word :: behind.reverse := by
      rw [← List.reverse_reverse ("=" :: before.reverse), hfind]
      simp
    rw [hwords, hfront]
  · have hnot := hbehind w (List.mem_reverse.1 hw)
    rw [isPlainWord_iff.2 hplain] at hnot
    cases hnot

/-- Every value makes something of a field. -/
theorem exists_shows (name : String) (type? : Option String) (value : String) :
    ∃ shown, Shows name type? value shown := by
  rcases isArrowFree_or_last value.toList with hfree | ⟨before, after, hvalue, hlast⟩
  · cases type? with
    | some type => exact ⟨_, .hinted hfree rfl⟩
    | none =>
      by_cases hname : name ∈ headWords value.toList
      · obtain ⟨before, word, between, after, hwords, hlast, hword, hbetween⟩ :=
          exists_plainWord hname
        exact ⟨word, .word hfree rfl hwords hlast hword hbetween⟩
      · exact ⟨_, .nothing hfree rfl hname⟩
  · exact ⟨_, .arrow hvalue hlast⟩

namespace IsField

theorem toList_signature (h : IsField m type? value?) :
    m.signature.toList = target m.name type? ++ assigned value? := by
  rw [h.signature, String.toList_append, String.toList_append, target, assigned]
  cases type? <;> cases value? <;> simp

theorem isArrowFree_target (h : IsField m type? value?) : IsArrowFree (target m.name type?) := by
  have hname : IsArrowFree m.name.toList :=
    isArrowFree_of_not_mem (h.name.not_mem (by decide +kernel))
  cases type? with
  | none => simpa [target] using hname
  | some type =>
    have htype : IsArrowFree ([] ++ ' ' :: type.toList) :=
      (isArrowFree_append_cons (by decide) (by decide)).2
        ⟨isArrowFree_of_not_mem (by decide), (h.type type rfl).2⟩
    exact (isArrowFree_append_cons (by decide) (by decide)).2 ⟨hname, htype⟩

/-- **Only the value of a field holds arrows.** -/
theorem isArrowFree_signature (h : IsField m type? value?)
    (hfree : ∀ value ∈ value?, IsArrowFree value.toList) : IsArrowFree m.signature.toList := by
  rw [h.toList_signature]
  cases value? with
  | none => simpa [assigned] using h.isArrowFree_target
  | some value =>
    have hvalue : IsArrowFree (['='] ++ ' ' :: value.toList) :=
      (isArrowFree_append_cons (by decide) (by decide)).2
        ⟨isArrowFree_of_not_mem (by decide), hfree value rfl⟩
    exact (isArrowFree_append_cons (by decide) (by decide)).2 ⟨h.isArrowFree_target, hvalue⟩

/-- An annotation is found behind the name. -/
theorem annotation?_some {type : String} (h : IsField m (some type) value?) :
    annotation? m.name.toList m.signature.toList =
      some (' ' :: type.toList ++ assigned value?) := by
  have hstart : m.signature.toList =
      m.name.toList ++ ':' :: (' ' :: type.toList ++ assigned value?) := by
    simpa [target] using h.toList_signature
  rw [annotation?, dropStart?_eq_some.2 hstart]
  rfl

/-- No annotation is found where there is none. -/
theorem annotation?_none (h : IsField m none value?) :
    annotation? m.name.toList m.signature.toList = none := by
  have hstart : m.signature.toList = m.name.toList ++ assigned value? := by
    simpa [target] using h.toList_signature
  rw [annotation?, dropStart?_eq_some.2 hstart]
  cases value? <;> rfl

/-- The annotation ends at the equals sign. -/
theorem typeOr_hint {type : String} (h : IsField m (some type) value?) :
    typeOr "Object" ((' ' :: type.toList ++ assigned value?).takeWhile (· != '=')) =
      typeOr "Object" type.toList := by
  have htype : ∀ c ∈ ' ' :: type.toList, (c != '=') = true := by
    intro c hc
    have : c ≠ '=' := by
      rintro rfl
      exact absurd hc (by simpa using (h.type type rfl).1)
    simpa using this
  rw [List.takeWhile_append_of_pos htype]
  cases value? with
  | none =>
    rw [assigned, Option.map_none, Option.getD_none, List.takeWhile_nil, List.append_nil]
    exact (typeOr_spaced _ _).1
  | some value =>
    have hspace : (assigned (some value)).takeWhile (· != '=') = [' '] := rfl
    rw [hspace]
    exact ((typeOr_spaced _ _).2).trans (typeOr_spaced _ _).1

/-- The default of a field is an object. -/
theorem memberType_eq (h : IsField m type? value?) : memberType m =
    match splitLast? ['-', '>'] m.signature.toList with
    | some (_, result) => typeOr "Object" (trim (dropAllEnd ':' (trim result)))
    | none =>
      match annotation? m.name.toList m.signature.toList with
      | some annotated => typeOr "Object" (annotated.takeWhile (· != '='))
      | none => (declaredType? m.name m.signature.toList).getD "Object" := by
  have hkind : (m.kind == .method) = false := by
    rw [h.kind]
    rfl
  rw [memberType, hkind]
  rfl

/-- Without arrows a field shows its annotation. -/
theorem memberType_of_hint {type : String} (h : IsField m (some type) value?)
    (hfree : ∀ value ∈ value?, IsArrowFree value.toList) :
    memberType m = shownType (some type) := by
  rw [h.memberType_eq, splitLast?_arrow_eq_none.2 (h.isArrowFree_signature hfree),
    h.annotation?_some]
  exact h.typeOr_hint

/-- Without arrows and without an annotation it shows the type before its
name. -/
theorem memberType_of_none (h : IsField m none value?)
    (hfree : ∀ value ∈ value?, IsArrowFree value.toList) :
    memberType m = (declaredType? m.name m.signature.toList).getD "Object" := by
  rw [h.memberType_eq, splitLast?_arrow_eq_none.2 (h.isArrowFree_signature hfree),
    h.annotation?_none]

/-- The words of a field that is assigned to without an annotation. -/
theorem headWords_signature (h : IsField m none (some value)) :
    headWords m.signature.toList = m.name :: "=" :: headWords value.toList := by
  have hassigned := headWords_assigned h.name value.toList
  rw [String.ofList_toList] at hassigned
  rw [h.toList_signature]
  simpa [target, assigned] using hassigned

/-- **What a field with a value shows** is what its value makes of it. -/
theorem memberType_of_shows (h : IsField m type? (some value))
    (hshows : Shows m.name type? value shown) : memberType m = shown := by
  cases hshows with
  | @arrow before after hvalue hlast =>
    have hsignature : m.signature.toList =
        (target m.name type? ++ ' ' :: '=' :: ' ' :: before) ++ ['-', '>'] ++ after := by
      rw [h.toList_signature, assigned, Option.map_some, Option.getD_some, hvalue]
      simp
    rw [h.memberType_eq, splitLast?_arrow.2 ⟨hsignature, hlast⟩]
  | hinted hfree htype =>
    obtain ⟨type, rfl⟩ := Option.isSome_iff_exists.1 htype
    exact h.memberType_of_hint (by simpa using hfree)
  | @word before between after _ hfree htype hwords hlast hword hbetween =>
    subst htype
    have hhead : headWords m.signature.toList =
        (m.name :: before ++ shown :: between) ++ m.name :: after := by
      rw [h.headWords_signature, hwords]
      simp
    have hfind : (m.name :: before ++ shown :: between).reverse.find? (fun w =>
        w.toList.head? != some '@' && !modifiers.contains w) = some shown := by
      refine List.find?_eq_some_iff_append.2 ⟨isPlainWord_iff.2 hword, between.reverse,
        (m.name :: before).reverse, by simp, fun w hw => ?_⟩
      rw [Bool.not_eq_true', ← Bool.not_eq_true, isPlainWord_iff]
      exact hbetween w (List.mem_reverse.1 hw)
    rw [h.memberType_of_none (by simpa using hfree), declaredType?_eq hhead hlast, hfind]
    rfl
  | nothing hfree htype hname =>
    subst htype
    -- the name stands nowhere but in front, and it is no equals sign
    have hequals : m.name ≠ "=" := fun heq =>
      h.name.not_mem (by decide +kernel : isWordChar '=' = false) (by simp [heq])
    have hlast : m.name ∉ "=" :: headWords value.toList := by simp [hequals, hname]
    have hhead : headWords m.signature.toList = [] ++ m.name :: "=" :: headWords value.toList :=
      h.headWords_signature
    rw [h.memberType_of_none (by simpa using hfree), declaredType?_eq hhead hlast]
    rfl

/-- A field without a value shows its annotation. -/
theorem memberType_of_no_value (h : IsField m type? none) : memberType m = shownType type? := by
  cases type? with
  | some type => exact h.memberType_of_hint (by simp)
  | none =>
    have hhead : headWords m.signature.toList = [] ++ m.name :: [] := by
      rw [h.toList_signature]
      simpa [target, assigned] using headWords_of_isWhole (isWhole_of_isName h.name)
    rw [h.memberType_of_none (by simp), declaredType?_eq hhead (by simp)]
    rfl

end IsField

/-- A value without arrows does not show, unless the field has no annotation and
the name is one of the value's words. -/
theorem shows_of_unnamed {name : String} (hfree : IsArrowFree value.toList)
    (hname : type? = none → name ∉ headWords value.toList) :
    Shows name type? value (shownType type?) := by
  cases type? with
  | some type => exact .hinted hfree rfl
  | none => exact .nothing hfree rfl (hname rfl)

/-- Behind an arrow nothing else counts. -/
theorem Shows.eq_of_arrow {name : String} (h : Shows name type? value shown)
    (hsplit : splitLast? ['-', '>'] value.toList = some (before, after)) :
    shown = typeOr "Object" (trim (dropAllEnd ':' (trim after))) := by
  have hnot : ¬ IsArrowFree value.toList := fun hfree => by
    rw [splitLast?_arrow_eq_none.2 hfree] at hsplit
    cases hsplit
  cases h with
  | arrow hvalue hlast =>
    rw [splitLast?_arrow.2 ⟨hvalue, hlast⟩] at hsplit
    cases hsplit
    rfl
  | hinted hfree _ => exact absurd hfree hnot
  | word hfree _ _ _ _ _ => exact absurd hfree hnot
  | nothing hfree _ _ => exact absurd hfree hnot

/-- **No field is shown by its annotation whatever its value is.** -/
theorem exists_misleading_value (name : String) (type? : Option String) :
    ∃ value, ¬ Shows name type? value (shownType type?) := by
  by_contra hall
  rw [not_exists] at hall
  have hsplit : ∀ c, c = 'A' ∨ c = 'B' → splitLast? ['-', '>'] ['-', '>', c] = some ([], [c]) := by
    rintro c (rfl | rfl) <;> rfl
  have hfirst := (not_not.1 (hall "->A")).eq_of_arrow (hsplit 'A' (.inl rfl))
  have hsecond := (not_not.1 (hall "->B")).eq_of_arrow (hsplit 'B' (.inr rfl))
  exact absurd (hfirst.symm.trans hsecond) (by decide +kernel)

/-- **A field is shown by its annotation** exactly if it has no value, or a
value that shows the same. -/
theorem memberType_eq_shownType_iff (m : Element) (type? value? : Option String)
    (h : IsField m type? value?) : memberType m = shownType type? ↔
      ∀ value ∈ value?, Shows m.name type? value (shownType type?) := by
  cases value? with
  | none => simpa using h.memberType_of_no_value
  | some value =>
    obtain ⟨shown, hshows⟩ := exists_shows m.name type? value
    rw [h.memberType_of_shows hshows]
    constructor
    · rintro rfl _ ⟨rfl⟩
      exact hshows
    · intro hsame
      exact (h.memberType_of_shows hshows).symm.trans (h.memberType_of_shows (hsame value rfl))

/-- A field of a class. -/
def member (name signature : String) : Element :=
  { kind := .field, name, qualifiedName := "A." ++ name, file := "a.py", line := 2, signature }

theorem isField_member_int (name value : String) (hname : IsName name.toList) :
    IsField (member name (name ++ ": int" ++ " = " ++ value)) (some "int") (some value) where
  kind := rfl
  name := hname
  type := by
    rintro _ ⟨rfl⟩
    exact ⟨by decide, isArrowFree_of_not_mem (by decide)⟩
  signature := by
    have htype : ": " ++ "int" = ": int" := by decide
    rw [member, Option.map_some, Option.getD_some, Option.map_some, Option.getD_some, htype,
      String.append_assoc]

/-- A number does not show. -/
theorem memberType_eq_shownType_iff_number :
    IsField (member "count" "count: int = 0") (some "int") (some "0") ∧
      memberType (member "count" "count: int = 0") = "int" := by
  have hfield : IsField (member "count" "count: int = 0") (some "int") (some "0") :=
    isField_member_int "count" "0" ⟨by decide, List.all_eq_true.1 (by decide +kernel)⟩
  have hshown : shownType (some "int") = "int" := by decide +kernel
  refine ⟨hfield, ?_⟩
  rw [← hshown, memberType_eq_shownType_iff _ _ _ hfield]
  rintro _ ⟨rfl⟩
  exact shows_of_unnamed (isArrowFree_of_not_mem (by decide)) nofun

/-- An arrow in a text that is assigned counts as one in front of a result. -/
theorem arrow_in_value_shown :
    IsField (member "x" "x: int = \"a -> b\"") (some "int") (some "\"a -> b\"") ∧
      shownType (some "int") = "int" ∧
      memberType (member "x" "x: int = \"a -> b\"") = "b\"" :=
  ⟨isField_member_int "x" "\"a -> b\"" ⟨by decide, List.all_eq_true.1 (by decide +kernel)⟩,
    by decide +kernel, by decide +kernel⟩

/-- A word of the value that is the name counts as the name, and the one before it
as its type. -/
example : memberType (member "x" "x = 1 if y else x") = "else" := by
  decide +kernel

end PlantUml

end Docsmith.Diagram

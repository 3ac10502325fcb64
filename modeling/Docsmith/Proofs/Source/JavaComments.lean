import Docsmith.Proofs.Source.JavaProbes
import Docsmith.Proofs.Text.Insertion
/-!
# Java — comments in front of code

A line that starts with a comment is taken for a comment whole. So a comment in
front of a line's code hides the code: what is read is what is read with the
line commented out. It makes no difference, whatever lines follow, exactly if
the line does nothing where it stands (`IsSilent`): it declares no package that
counts, no element, and leaves the depth and the open types as they are. Where
it does something, lines can follow that tell (`comment_hides_code`).
-/


namespace Docsmith.Source.Lines.Java

variable {package : Option String} {path : String} {number n : Nat} {st : State}
variable {line content : List Char} {done rest : List (List Char)}

/-! ## Comments -/

/-- A complete comment within a line, plain or of documentation. -/
structure InlineComment where
  documents : Bool
  text : List Char
  not_closed : Text.occurs commentEnd text = false
  feed_not_mem : '\n' ∉ text
  plain : documents = false → text.head? ≠ some '*'

namespace InlineComment

/-- The comment's text up to its end. -/
def opening (comment : InlineComment) : List Char :=
  (if comment.documents then ['/', '*', '*'] else ['/', '*']) ++ comment.text

/-- The comment, with a space behind it. -/
def chars (comment : InlineComment) : List Char :=
  comment.opening ++ (commentEnd ++ [' '])

theorem exists_chars (comment : InlineComment) : ∃ rest, comment.chars = '/' :: '*' :: rest := by
  rw [chars, opening]
  split <;> exact ⟨_, rfl⟩

theorem feed_not_mem_chars (comment : InlineComment) : '\n' ∉ comment.chars := by
  have := comment.feed_not_mem
  rw [chars, opening, commentEnd]
  split <;> simp [this]

end InlineComment

/-- The outlines of the elements of a source. -/
def outlines (path : String) (content : List Char) : List Element :=
  (read path content).map Element.outline

/-! ## Lines that do nothing -/

/-- A line behind other lines does nothing there: it declares no package, or
those lines declare one already; it declares no element; and it leaves the
reader as it is but for what waits for a declaration. -/
structure IsSilent (package : Option String) (path : String) (done : List (List Char))
    (line : List Char) : Prop where
  names : (done ++ [line]).findSome? package? = done.findSome? package?
  element : (step package path (done.length + 1) (run package path {} 1 done) line).2 = none
  agree : Agree (step package path (done.length + 1) (run package path {} 1 done) line).1
    (run package path {} 1 done)

/-- What is read of some lines and of the lines behind the next one. -/
def readAround (path : String) (done rest : List (List Char)) : List Element :=
  ((readFrom none path {} 1 done ++
      readFrom none path (run none path {} 1 done) (done.length + 2) rest).map Element.outline).map
    (inPackage (((done ++ rest).findSome? package?).map String.ofList))

/-- What is read around a line and of it. -/
theorem readFrom_around (path : String) (done rest : List (List Char)) (line : List Char) :
    readFrom none path {} 1 (done ++ line :: rest) = readFrom none path {} 1 done ++
      ((step none path (done.length + 1) (run none path {} 1 done) line).2.toList ++
        readFrom none path (step none path (done.length + 1) (run none path {} 1 done) line).1
          (done.length + 2) rest) := by
  rw [readFrom_append, readFrom_cons, Nat.add_comm 1 done.length]

theorem findSome?_around (done rest : List (List Char)) (line : List Char) :
    (done ++ line :: rest).findSome? package? =
      ((done ++ [line]).findSome? package?).or (rest.findSome? package?) := by
  rw [← List.findSome?_append, List.append_assoc, List.singleton_append]

/-- What is read of all of some lines. -/
def readAll (path : String) (lines : List (List Char)) : List Element :=
  ((readFrom none path {} 1 lines).map Element.outline).map
    (inPackage ((lines.findSome? package?).map String.ofList))

/-- The outlines of a source are read of all its lines. -/
theorem outlines_eq (path : String) (content : List Char) :
    outlines path content = readAll path (Text.lines content) := by
  rw [outlines, read_eq_within, List.map_map, readAll, List.map_map]
  rfl

/-- **A line that does nothing is as good as missing.** -/
theorem IsSilent.readAll_eq (h : IsSilent none path done line) (rest : List (List Char)) :
    readAll path (done ++ line :: rest) = readAround path done rest := by
  rw [readAll, findSome?_around, h.names, readFrom_around, h.element, readAround,
    List.findSome?_append]
  simp only [List.map_append, Option.toList_none, List.nil_append,
    outlines_readFrom none path rest _ h.agree]

theorem qualify_injective (package : Option String) : Function.Injective (qualify package []) := by
  intro a b h
  cases package with
  | none => exact h
  | some p => exact (String.append_right_inj _).1 h

theorem Scope.within_injective (package : Option String) :
    Function.Injective (Scope.within package) := by
  rintro ⟨q, name, depth, opened⟩ ⟨q', name', depth', opened'⟩ h
  simp only [Scope.within, Scope.mk.injEq] at h
  obtain ⟨hq, rfl, rfl, rfl⟩ := h
  rw [qualify_injective package hq]

theorem inPackage_injective (package : Option String) :
    Function.Injective (inPackage package) := by
  intro e e' h
  cases e
  cases e'
  simp only [inPackage, Element.mk.injEq] at h ⊢
  exact ⟨h.1, h.2.1, qualify_injective package h.2.2.1, h.2.2.2⟩

/-- The package has no part in whether a line does anything. -/
theorem isSilent_iff (package : Option String) (path : String) (done : List (List Char))
    (line : List Char) : IsSilent package path done line ↔ IsSilent none path done line := by
  have hrun : run package path {} 1 done = (run none path {} 1 done).within package :=
    run_within package path done {} 1
  constructor
  · rintro ⟨hnames, helement, hmode, hscopes, hdepth⟩
    rw [hrun, step_within] at helement hmode hscopes hdepth
    exact ⟨hnames, Option.map_eq_none_iff.1 helement, hmode,
      (List.map_inj_right fun _ _ hs => Scope.within_injective package hs).1 hscopes, hdepth⟩
  · rintro ⟨hnames, helement, hmode, hscopes, hdepth⟩
    refine ⟨hnames, ?_, ?_⟩
    · rw [hrun, step_within, helement]
      rfl
    · rw [hrun, step_within]
      exact ⟨hmode, congrArg (List.map _) hscopes, hdepth⟩

/-! ## A line with a comment -/

/-- A line of a source that is read as code: it stands outside comments, is not
blank and does not start with a comment. -/
structure IsCode (path : String) (content : List Char) (n : Nat) (line : List Char) : Prop where
  stands : (Text.lines content)[n]? = some line
  mode : (stateAfter (packageOf content) path (Text.lines content) n).mode = .code
  notBlank : Text.isBlankText line = false
  notComment : isComment (Text.trim line) = false

/-- A line that starts with a comment names no package. -/
theorem package?_lineInFront (piece line : List Char) :
    package? (Text.lineInFront ('/' :: piece) line) = none := by
  have htrim : Text.trimStart (Text.lineInFront ('/' :: piece) line) =
      '/' :: (piece ++ line.dropWhile Text.isBlank) := by
    have hblank : Text.isBlank '/' = false := by decide
    have hall : ∀ c ∈ line.takeWhile Text.isBlank, Text.isBlank c = true :=
      List.all_eq_true.1 List.all_takeWhile
    exact Text.dropWhile_append_cons _ hall hblank
  rw [package?, htrim]
  rfl

theorem findSome?_concat_of_none (done : List (List Char)) (h : package? line = none) :
    (done ++ [line]).findSome? package? = done.findSome? package? := by
  rw [List.findSome?_append, List.findSome?_cons, h]
  simp

/-- **A line with a comment in front does nothing** but leave documentation. -/
theorem isSilent_commented (comment : InlineComment)
    (hmode : (run none path {} 1 done).mode = .code) (hblank : Text.isBlankText line = false) :
    IsSilent none path done (Text.lineInFront comment.chars line) := by
  obtain ⟨text, hchars⟩ := comment.exists_chars
  have htrim : Text.trim (Text.lineInFront comment.chars line) =
      comment.chars ++ Text.trim line := by
    rw [hchars]
    exact Text.trim_lineInFront (by decide) hblank
  have hends : Text.occurs commentEnd (comment.chars ++ Text.trim line) = true := by
    rw [InlineComment.chars, List.append_assoc, List.append_assoc]
    exact Text.occurs_append _ _ _
  have hopens : ['/', '*'].isPrefixOf (comment.chars ++ Text.trim line) = true := by
    rw [hchars]
    rfl
  refine ⟨findSome?_concat_of_none done ?_, ?_, ?_⟩
  · rw [hchars]
    exact package?_lineInFront _ _
  · simp only [step, hmode, htrim, hends, hopens, if_true]
    split <;> rfl
  · simp only [step, hmode, htrim, hends, hopens, if_true]
    split <;> exact ⟨hmode.symm, rfl, rfl⟩

/-- A line that is commented out does nothing. -/
theorem isSilent_slashes (hmode : (run none path {} 1 done).mode = .code)
    (hblank : Text.isBlankText line = false) :
    IsSilent none path done (Text.lineInFront ['/', '/'] line) := by
  have htrim : Text.trim (Text.lineInFront ['/', '/'] line) = '/' :: '/' :: Text.trim line :=
    Text.trim_lineInFront (by decide) hblank
  have hstep : step none path (done.length + 1) (run none path {} 1 done)
      (Text.lineInFront ['/', '/'] line) = (run none path {} 1 done, none) := by
    simp only [step, hmode, htrim]
    rfl
  refine ⟨findSome?_concat_of_none done (package?_lineInFront _ _), ?_, ?_⟩
  · rw [hstep]
  · rw [hstep]
    exact .refl _

/-- The lines of a source around one that is read as code. -/
theorem IsCode.exists_around (h : IsCode path content n line) :
    ∃ done rest, Text.lines content = done ++ line :: rest ∧ done.length = n := by
  obtain ⟨hlt, hline⟩ := List.getElem?_eq_some_iff.1 h.stands
  refine ⟨(Text.lines content).take n, (Text.lines content).drop (n + 1), ?_,
    List.length_take_of_le (Nat.le_of_lt hlt)⟩
  rw [← hline, List.getElem_cons_drop, List.take_append_drop]

section

variable (h : IsCode path content done.length line)
variable (hlines : Text.lines content = done ++ line :: rest)

include h hlines

/-- The lines with a piece in front of the line's code. -/
theorem IsCode.lines_inFront {piece : List Char} (hpiece : '\n' ∉ piece) :
    Text.lines (Text.inFront piece done.length content) =
      done ++ Text.lineInFront piece line :: rest := by
  rw [Text.lines_inFront hpiece h.notBlank h.stands, hlines,
    List.set_append_right _ _ (Nat.le_refl _), Nat.sub_self]
  rfl

/-- Outside comments with the package is outside comments without it. -/
theorem IsCode.mode_run : (run none path {} 1 done).mode = .code := by
  have hmode := h.mode
  rw [stateAfter_within, stateAfter, hlines, List.take_left] at hmode
  exact hmode

/-- **What is read with a comment in front of a line's code** is what is read
around the line. -/
theorem IsCode.outlines_commented (comment : InlineComment) :
    outlines path (Text.inFront comment.chars done.length content) = readAround path done rest := by
  rw [outlines_eq, h.lines_inFront hlines comment.feed_not_mem_chars]
  exact (isSilent_commented comment (h.mode_run hlines) h.notBlank).readAll_eq rest

/-- So is what is read with the line commented out. -/
theorem IsCode.outlines_slashes :
    outlines path (Text.inFront ['/', '/'] done.length content) = readAround path done rest := by
  rw [outlines_eq, h.lines_inFront hlines (by decide)]
  exact (isSilent_slashes (h.mode_run hlines) h.notBlank).readAll_eq rest

end

/-! ## Lines that follow -/

/-- Behind a line of code there is code. -/
theorem mode_step (hmode : st.mode = .code) (hcomment : isComment (Text.trim line) = false)
    (package : Option String) (path : String) (number : Nat) :
    (step package path number st line).1.mode = .code := by
  have hdocumentation : ['/', '*', '*'].isPrefixOf (Text.trim line) = false := by
    rw [← Bool.not_eq_true]
    intro h
    rw [isComment_of_documentation h] at hcomment
    cases hcomment
  rw [isComment, Bool.or_eq_false_iff] at hcomment
  simp only [step, hmode, hdocumentation, hcomment.1, hcomment.2, Bool.false_eq_true, if_false]
  split
  · exact hmode
  · simp only [stepCode]
    split
    · exact hmode
    · rfl

/-- What is read around a line is what is read of all lines, whatever lines
follow. -/
def IsUnseen (path : String) (done : List (List Char)) (line : List Char) : Prop :=
  ∀ rest : List (List Char), (∀ l ∈ rest, '\n' ∉ l) →
    readAround path done rest = readAll path (done ++ line :: rest)

namespace IsUnseen

/-- No element is read of the line, or there would be one more. -/
theorem element (h : IsUnseen path done line) :
    (step none path (done.length + 1) (run none path {} 1 done) line).2 = none := by
  have hnil := congrArg List.length (h [] (List.forall_mem_nil _))
  rw [readAround, readAll, readFrom_around] at hnil
  simp only [readFrom, List.append_nil, List.length_map, List.length_append] at hnil
  rw [← Option.toList_eq_nil_iff]
  exact List.eq_nil_of_length_eq_zero (by omega)

/-- A package that counts shows in the name of a class outside all others. -/
theorem names (h : IsUnseen path done line) (hmode : (run none path {} 1 done).mode = .code)
    (hcomment : isComment (Text.trim line) = false)
    (hsettled : IsSettled (run none path {} 1 done))
    (hafter : IsSettled
      (step none path (done.length + 1) (run none path {} 1 done) line).1) :
    (done ++ [line]).findSome? package? = done.findSome? package? := by
  rw [List.findSome?_append]
  cases hdone : done.findSome? package? with
  | some p => rfl
  | none =>
  cases hpackage : package? line with
  | none => simp [hpackage]
  | some p =>
  -- from the states with the line and without it
  obtain ⟨out, hout, hbefore, hbehind⟩ := exists_way_out hsettled hafter
  have hclass := h [out, classLine] (List.forall_mem_cons.2 ⟨hout.feed_not_mem,
    List.forall_mem_singleton.2 (by decide +kernel)⟩)
  have hnone : [out, classLine].findSome? package? = none := by
    have hbraces : package? out = none := by
      rw [package?, trimStart_braces hout, afterKeyword?_braces hout ⟨'p', rfl, rfl⟩]
      rfl
    have hplain : package? classLine = none := by decide +kernel
    simp [hbraces, hplain]
  have hleft := outlines_class hsettled hmode hout (by rw [hbefore]) path (done.length + 2)
  have hright := outlines_class hafter (mode_step hmode hcomment none path _) hout
    (by rw [hbehind]) path (done.length + 2)
  rw [hbefore, if_pos rfl] at hleft
  rw [hbehind, if_pos rfl] at hright
  rw [readAround, readAll, readFrom_around, List.findSome?_append, findSome?_around,
    List.findSome?_append, hdone, hnone, List.findSome?_cons, hpackage] at hclass
  simp only [List.map_append, hleft, hright, Option.toList_some, List.map_singleton,
    ← List.append_assoc] at hclass
  have hlast := List.singleton_inj.1 (List.append_inj' hclass rfl).2
  have hlength := congrArg (String.length ∘ Element.qualifiedName) hlast
  simp [inPackage, classOf, qualify] at hlength

end IsUnseen

/-- What declares nothing opens no scope. -/
theorem Declares.eq_of_none {depth : Nat} {before after : List Scope} {element : Option Element}
    (h : Declares package path number depth before element after) (hnone : element = none) :
    after = before := by
  cases h with
  | nothing => rfl
  | type => cases hnone
  | member => cases hnone

/-- **A line makes no difference exactly if it does nothing.** -/
theorem isUnseen_iff (hmode : (run none path {} 1 done).mode = .code)
    (hcomment : isComment (Text.trim line) = false)
    (hnamed : AreNamed (run none path {} 1 done).scopes)
    (hsettled : IsSettled (run none path {} 1 done))
    (hafter : IsSettled (step none path (done.length + 1) (run none path {} 1 done) line).1) :
    IsUnseen path done line ↔ IsSilent none path done line := by
  constructor
  · intro h
    have helement := h.element
    have hnames := h.names hmode hcomment hsettled hafter
    have halike : AreAlike path (done.length + 2) (run none path {} 1 done)
        (step none path (done.length + 1) (run none path {} 1 done) line).1 := by
      intro rest hrest
      have hread := h rest hrest
      rw [readAround, readAll, readFrom_around, helement, findSome?_around, hnames,
        List.findSome?_append] at hread
      have hmap := (List.map_inj_right fun _ _ he => inPackage_injective _ he).1 hread
      simpa only [List.map_append, Option.toList_none, List.nil_append,
        List.append_cancel_left_eq] using hmap
    obtain ⟨scopes, hdeclares, hdepth, hleave⟩ := step_leaves none path (done.length + 1) hnamed
      hsettled.leave_eq line
    rw [hdeclares.eq_of_none helement] at hleave
    exact ⟨hnames, helement, halike.eq hsettled hafter hmode
      (mode_step hmode hcomment none path _) hdepth hleave⟩
  · exact fun h rest _ => (h.readAll_eq rest).symm

/-- A line is code by the lines up to it. -/
theorem IsCode.later {later : List Char} {others : List (List Char)}
    (h : IsCode path content done.length line)
    (hlines : Text.lines content = done ++ line :: rest)
    (hlater : Text.lines later = done ++ line :: others) : IsCode path later done.length line where
  stands := by simp [hlater]
  mode := by
    rw [stateAfter_within, stateAfter, hlater, List.take_left]
    exact h.mode_run hlines
  notBlank := h.notBlank
  notComment := h.notComment

/-- Any lines follow in some source. -/
theorem exists_later {others : List (List Char)}
    (hlines : Text.lines content = done ++ line :: rest) (hothers : ∀ l ∈ others, '\n' ∉ l) :
    ∃ later, Text.lines later = done ++ line :: others := by
  have hfeed : ∀ l ∈ done ++ line :: rest, '\n' ∉ l := fun l hl =>
    Text.feed_not_mem_of_mem_lines (hlines ▸ hl)
  refine ⟨Text.unlines _, Text.lines_unlines fun l hl => ?_⟩
  rcases List.mem_append.1 hl with hl | hl
  · exact hfeed l (List.mem_append_left _ hl)
  · rcases List.mem_cons.1 hl with rfl | hl
    · exact hfeed l (by simp)
    · exact hothers l hl

/-- The first lines are the same exactly if the line follows the same lines. -/
theorem take_eq_iff {later : List (List Char)} :
    later.take (done.length + 1) = (done ++ line :: rest).take (done.length + 1) ↔
      ∃ others, later = done ++ line :: others := by
  have hfirst (others : List (List Char)) :
      (done ++ line :: others).take (done.length + 1) = done ++ [line] := by
    rw [List.take_length_add_append, List.take_one, List.head?_cons, Option.toList_some]
  rw [hfirst]
  constructor
  · intro h
    refine ⟨later.drop (done.length + 1), ?_⟩
    rw [← List.singleton_append, ← List.append_assoc, ← h, List.take_append_drop]
  · rintro ⟨others, rfl⟩
    exact hfirst others

/-- **A comment in front of code hides it.** What is read is what is read with
the line commented out; and that is what is read of the line without the
comment, whatever lines follow, exactly if the line does nothing. -/
theorem comment_hides_code (h : IsCode path content n line) (comment : InlineComment) :
    outlines path (Text.inFront comment.chars n content) =
        outlines path (Text.inFront ['/', '/'] n content) ∧
      ((∀ later : List Char,
          (Text.lines later).take (n + 1) = (Text.lines content).take (n + 1) →
          outlines path (Text.inFront comment.chars n later) = outlines path later) ↔
        IsSilent (packageOf content) path ((Text.lines content).take n) line) := by
  obtain ⟨done, rest, hlines, rfl⟩ := h.exists_around
  refine ⟨(h.outlines_commented hlines comment).trans (h.outlines_slashes hlines).symm, ?_⟩
  have hdone : (Text.lines content).take done.length = done := by rw [hlines, List.take_left]
  have hlt : done.length < (Text.lines content).length := by simp [hlines]
  have hstate : stateAfter none path (Text.lines content) done.length =
      run none path {} 1 done := by rw [stateAfter, hdone]
  have hnamed : AreNamed (run none path {} 1 done).scopes := hstate ▸ areNamed_stateAfter _
  have hsettled : IsSettled (run none path {} 1 done) :=
    hstate ▸ isSettled_stateAfter none path (Nat.le_of_lt hlt)
  have hafter : IsSettled (stateAfter none path (Text.lines content) (done.length + 1)) :=
    isSettled_stateAfter none path hlt
  rw [stateAfter_succ none path h.stands, hstate] at hafter
  rw [hdone, isSilent_iff,
    ← isUnseen_iff (h.mode_run hlines) h.notComment hnamed hsettled hafter, hlines]
  constructor
  · intro hsame others hothers
    obtain ⟨later, hlater⟩ := exists_later hlines hothers
    have hread := hsame later (take_eq_iff.2 ⟨others, hlater⟩)
    rwa [(h.later hlines hlater).outlines_commented hlater, outlines_eq, hlater] at hread
  · intro hunseen later htake
    obtain ⟨others, hlater⟩ := take_eq_iff.1 htake
    have hothers : ∀ l ∈ others, '\n' ∉ l := fun l hl =>
      Text.feed_not_mem_of_mem_lines (by rw [hlater]; simp [hl])
    rw [(h.later hlines hlater).outlines_commented hlater, outlines_eq, hlater]
    exact hunseen others hothers

/-- A class with a field. -/
def fieldClass : List Char :=
  "class A \x7b\n    int x;\n\x7d\n".toList

/-- A comment of one word. -/
def wordComment : InlineComment where
  documents := false
  text := " model ".toList
  not_closed := by decide +kernel
  feed_not_mem := by decide
  plain := by decide

theorem isCode_fieldClass : IsCode "A.java" fieldClass 0 "class A \x7b".toList where
  stands := by decide +kernel
  mode := by decide +kernel
  notBlank := by decide +kernel
  notComment := by decide +kernel

/-- A comment in front of the class does what commenting it out does. -/
theorem comment_hides_code_fieldClass :
    IsCode "A.java" fieldClass 0 "class A \x7b".toList ∧
      outlines "A.java" (Text.inFront wordComment.chars 0 fieldClass) =
        outlines "A.java" (Text.inFront ['/', '/'] 0 fieldClass) :=
  ⟨isCode_fieldClass, (comment_hides_code isCode_fieldClass wordComment).1⟩

/-- **A comment in front of code is not neutral**: with one in front of the
class nothing is read of the class and its field. -/
theorem commented_class_is_lost :
    ¬ ∀ (path : String) (content : List Char) (n : Nat) (line : List Char)
      (comment : InlineComment), IsCode path content n line →
      outlines path (Text.inFront comment.chars n content) = outlines path content := by
  intro h
  have hlost : outlines "A.java" (Text.inFront wordComment.chars 0 fieldClass) = [] := by
    decide +kernel
  have hread : outlines "A.java" fieldClass ≠ [] := by decide +kernel
  exact hread ((h _ _ _ _ wordComment isCode_fieldClass).symm.trans hlost)

end Docsmith.Source.Lines.Java

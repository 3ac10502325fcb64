import Docsmith.Diagram.Mermaid
import Docsmith.Proofs.Diagram.MemberText
/-!
# Diagrams — the lines of a Mermaid page

A page is laid out in lines: a title, one fenced block with the class, a line for each
member and a line for each use, and a stamp (`lines`). Free text is shown in the lines of
members only, and none of it ends a line or stands for one of the others, so the layout
is the same whatever the source says (`isLaidOut_render`). The class's name is shown as
it is; it must not end a line itself.
-/


namespace Docsmith.Diagram.Mermaid

open Docsmith.Text

variable {p : Char → Bool} {v : View} {names : List String} {generatedOn line : String}

/-! ## Lines -/

/-- The line of a member. -/
def memberLine (m : Element) : String :=
  "        " ++ shorten m.signature

/-- The line that opens the class. -/
def classLine (v : View) : String :=
  "    class " ++ identifier v.type.name ++ " \x7b"

/-- What the line of a use begins with. -/
def arrow (v : View) : String :=
  "    " ++ identifier v.type.name ++ " --> "

/-- The line of a use. -/
def useLine (v : View) (name : String) : String :=
  arrow v ++ identifier name ++ " : uses"

/-- The lines before the members. -/
def head (v : View) : List String :=
  ["# " ++ v.type.name ++ " Class Diagram", "", "```mermaid", "classDiagram", classLine v]

/-- The lines between the members and the uses. -/
def close : List String :=
  ["    \x7d", ""]

/-- The lines behind the uses. -/
def foot (generatedOn : String) : List String :=
  ["```", "", "Generated on: " ++ generatedOn]

/-- All lines. -/
def lines (v : View) (names : List String) (generatedOn : String) : List String :=
  head v ++ v.members.map memberLine ++ close ++ names.map (useLine v) ++ foot generatedOn

/-- **How a page is laid out**: one fenced block, and in it one class with a line for each
member, fields first, and the lines of its uses. -/
structure IsLaidOut (v : View) (names : List String) (page : List String) : Prop where
  opens : page.count "```mermaid" = 1
  closes : page.count "```" = 1
  classOpens : page.count (classLine v) = 1
  classCloses : page.count "    \x7d" = 1
  /-- The class stands inside the block, and nothing but its members stands inside it. -/
  members : ∃ before after, "```mermaid" ∈ before ∧ "```" ∈ after ∧
    page = before ++ classLine v ::
      (v.fields.map memberLine ++ v.methods.map memberLine ++ "    \x7d" :: after)
  short : ∀ m ∈ v.members, (memberLine m).length ≤ 58
  /-- The lines that begin like uses are those of the uses. -/
  uses : page.filter (begins (arrow v)) = names.map (useLine v)

theorem render_eq_ofLines (v : View) (u : Uses) (generatedOn : String) :
    render v u generatedOn = ofLines (lines v (u.namesUsed v.type.qualifiedName) generatedOn) := by
  simp only [lines, ofLines_append]
  simp [render, ofLines, head, close, foot, memberLine, classLine, useLine, arrow,
    List.flatMap_map, ← String.toList_inj]

theorem isSpaced_arrow (v : View) : IsSpaced (arrow v) :=
  isSpaced_append.2 ⟨isSpaced_append.2 ⟨by decide, isSpaced_identifier _⟩, by decide⟩

/-- No line ends early. -/
theorem isLine_of_mem_lines (hp : IsLineBreak p) (hname : IsLine p v.type.name)
    (hstamp : IsLine p generatedOn) : ∀ line ∈ lines v names generatedOn, IsLine p line := by
  have hclass : IsSpaced (classLine v) :=
    isSpaced_append.2 ⟨isSpaced_append.2 ⟨by decide, isSpaced_identifier _⟩, by decide⟩
  have hhead : ∀ line ∈ head v, IsLine p line := by
    simp only [head, List.forall_mem_cons, isLine_append]
    exact ⟨⟨⟨hp.isLine (by decide), hname⟩, hp.isLine (by decide)⟩, hp.isLine (by decide),
      hp.isLine (by decide), hp.isLine (by decide), hp.isLine hclass, List.forall_mem_nil _⟩
  -- a member's whole text is free, and shortened
  have hmember : ∀ m ∈ v.members, IsLine p (memberLine m) := fun m _ =>
    hp.isLine (isSpaced_append.2 ⟨by decide, isSpaced_shorten _⟩)
  have hclose : ∀ line ∈ close, IsSpaced line := by decide
  have huse : ∀ name ∈ names, IsLine p (useLine v name) := fun name _ => hp.isLine <|
    isSpaced_append.2 ⟨isSpaced_append.2 ⟨isSpaced_arrow v, isSpaced_identifier _⟩, by decide⟩
  have hfoot : ∀ line ∈ foot generatedOn, IsLine p line := by
    simp only [foot, List.forall_mem_cons, isLine_append]
    exact ⟨hp.isLine (by decide), hp.isLine (by decide), ⟨hp.isLine (by decide), hstamp⟩,
      List.forall_mem_nil _⟩
  simp only [lines, List.forall_mem_append, List.forall_mem_map]
  exact ⟨⟨⟨⟨hhead, hmember⟩, fun line hline => hp.isLine (hclose line hline)⟩, huse⟩, hfoot⟩

/-- The lines of members and uses do not count where they are told apart from those that
do: a member is indented by more than four spaces, a use ends in an `s`. -/
theorem count_lines (hmember : begins "     " line = false)
    (huse : line.toList.getLast? ≠ some 's') : (lines v names generatedOn ++ [""]).count line =
      (head v).count line + close.count line + (foot generatedOn).count line +
        [""].count line := by
  have hmembers : (v.members.map memberLine).count line = 0 :=
    countP_map_eq_zero fun m _ => beq_eq_false_of_begins (by simp [begins, memberLine]) hmember
  have huses : (names.map (useLine v)).count line = 0 :=
    countP_map_eq_zero fun name _ => beq_eq_false_of_getLast? (by decide) huse
  simp only [lines, List.count_append, hmembers, huses, Nat.add_zero]

theorem length_memberLine_le (m : Element) : (memberLine m).length ≤ 58 := by
  have hshort := length_shorten_le m.signature
  have hindent : "        ".length = 8 := by decide
  rw [memberLine, String.length_append, hindent]
  simp only [maxMember] at hshort
  omega

/-- What a use begins with: four spaces, the class's identifier and a hyphen. -/
theorem toList_arrow (v : View) : (arrow v).toList =
    [' ', ' ', ' ', ' '] ++ ((identifier v.type.name).toList ++ ' ' :: ['-', '-', '>', ' ']) := by
  simp [arrow]

/-- What is indented by four spaces and goes on with a word and a space does not begin like
a use, unless the word is the class's identifier and a hyphen stands behind it. -/
theorem begins_arrow_eq_false (word text : List Char) (hword : ' ' ∉ word)
    (hline : line.toList = [' ', ' ', ' ', ' '] ++ (word ++ ' ' :: text))
    (htext : word = (identifier v.type.name).toList → text.head? ≠ some '-') :
    begins (arrow v) line = false := by
  refine Bool.eq_false_iff.2 fun h => ?_
  rw [begins_iff, hline, toList_arrow, List.prefix_append_right_inj] at h
  obtain ⟨he, more, rfl⟩ := eq_of_prefix (space_not_mem_identifier _) hword h
  exact htext he.symm rfl

/-- Nor does a line that is not indented. -/
theorem begins_arrow_of_head? (h : line.toList.head? ≠ some ' ') :
    begins (arrow v) line = false := by
  refine Bool.eq_false_iff.2 fun harrow => h ?_
  obtain ⟨more, hmore⟩ := begins_iff.1 harrow
  rw [← hmore, toList_arrow]
  rfl

theorem begins_arrow_memberLine (m : Element) : begins (arrow v) (memberLine m) = false :=
  begins_arrow_eq_false [] ([' ', ' ', ' '] ++ (shorten m.signature).toList) List.not_mem_nil
    (by simp [memberLine]) (by simp)

theorem begins_arrow_classLine : begins (arrow v) (classLine v) = false := by
  refine begins_arrow_eq_false ['c', 'l', 'a', 's', 's']
    ((identifier v.type.name).toList ++ [' ', '\x7b']) (by decide) ?_ fun he => ?_
  · simp [classLine]
  · simp [← he]

/-- The closing brace is too short. -/
theorem begins_arrow_brace : begins (arrow v) "    \x7d" = false := by
  refine Bool.eq_false_iff.2 fun h => ?_
  have hlength := (begins_iff.1 h).length_le
  have hbrace : "    \x7d".toList.length = 5 := rfl
  rw [toList_arrow] at hlength
  simp only [List.length_append, List.length_cons, List.length_nil] at hlength
  omega

/-- **The lines that begin like uses are those of the uses.** -/
theorem filter_lines : (lines v names generatedOn ++ [""]).filter (begins (arrow v)) =
    names.map (useLine v) := by
  have hhead : ∀ line ∈ head v, begins (arrow v) line = false := by
    simp only [head, List.forall_mem_cons]
    exact ⟨begins_arrow_of_head? (by simp), begins_arrow_of_head? (by decide),
      begins_arrow_of_head? (by decide), begins_arrow_of_head? (by decide),
      begins_arrow_classLine, List.forall_mem_nil _⟩
  have hclose : ∀ line ∈ close, begins (arrow v) line = false := by
    simp only [close, List.forall_mem_cons]
    exact ⟨begins_arrow_brace, begins_arrow_of_head? (by decide), List.forall_mem_nil _⟩
  have huse : ∀ name ∈ names, begins (arrow v) (useLine v name) = true := fun name _ => by
    simp [begins_iff, useLine]
  have hfoot : ∀ line ∈ foot generatedOn ++ [""], begins (arrow v) line = false := by
    simp only [foot, List.forall_mem_append, List.forall_mem_cons]
    exact ⟨⟨begins_arrow_of_head? (by decide), begins_arrow_of_head? (by decide),
      begins_arrow_of_head? (by simp), List.forall_mem_nil _⟩, begins_arrow_of_head? (by decide),
      List.forall_mem_nil _⟩
  have hpage : lines v names generatedOn ++ [""] =
      (head v ++ v.members.map memberLine ++ close) ++ names.map (useLine v) ++
        (foot generatedOn ++ [""]) := by
    simp [lines]
  rw [hpage]
  refine filter_block ?_ (List.forall_mem_map.2 huse) hfoot
  simp only [List.forall_mem_append, List.forall_mem_map]
  exact ⟨⟨hhead, fun m _ => begins_arrow_memberLine m⟩, hclose⟩

theorem isLaidOut_lines : IsLaidOut v names (lines v names generatedOn ++ [""]) where
  opens := by
    rw [count_lines (by decide) (by decide)]
    simp [head, close, foot, classLine, ← String.toList_inj, -String.toList_eq_nil_iff]
  closes := by
    rw [count_lines (by decide) (by decide)]
    simp [head, close, foot, classLine, ← String.toList_inj, -String.toList_eq_nil_iff]
  classOpens := by
    have hindent : begins "     " (classLine v) = false := by
      simp [begins, classLine, List.isPrefixOf]
    have hlast : (classLine v).toList.getLast? ≠ some 's' := by
      rw [classLine, String.toList_append, List.getLast?_append]
      simp
    rw [count_lines hindent hlast]
    simp [head, close, foot, classLine, ← String.toList_inj, -String.toList_eq_nil_iff]
  classCloses := by
    rw [count_lines (by decide) (by decide)]
    simp [head, close, foot, classLine, ← String.toList_inj, -String.toList_eq_nil_iff]
  members := by
    refine ⟨["# " ++ v.type.name ++ " Class Diagram", "", "```mermaid", "classDiagram"],
      "" :: (names.map (useLine v) ++ foot generatedOn ++ [""]), by simp, by simp [foot], ?_⟩
    simp [lines, head, close, View.members]
  short m _ := length_memberLine_le m
  uses := filter_lines

/-- **The layout of a page withstands the source.** -/
theorem isLaidOut_render (hp : IsLineBreak p) (hname : IsLine p v.type.name)
    (hstamp : IsLine p generatedOn) (u : Uses) :
    IsLaidOut v (u.namesUsed v.type.qualifiedName) (linesBy p (render v u generatedOn)) := by
  rw [render_eq_ofLines, linesBy_ofLines hp (isLine_of_mem_lines hp hname hstamp)]
  exact isLaidOut_lines

end Docsmith.Diagram.Mermaid

import Docsmith.Proofs.Diagram.MemberText
import Docsmith.Proofs.Diagram.Privacy
/-!
# Diagrams — the lines of a PlantUML diagram

A diagram is laid out in lines: it is started, themed and titled, then come the class
with a line for each field, a rule, a line for each method, and a line for each use
(`lines`). Whatever the source says, none of its texts ends a line or stands for one of
the others (`isLaidOut_render`). The names of the class and of its members are shown as
they are; they must not end a line themselves.
-/


namespace Docsmith.Diagram.PlantUml

open Docsmith.Text

variable {p : Char → Bool} {has : String → Bool} {v : View} {names : List String}
variable {line t : String}

/-! ## Lines -/

/-- What the line of a member begins with: its mark, its type and its name. -/
def entry (m : Element) : String :=
  "  " ++ m.visibility.symbol ++ " " ++ memberType m ++ " " ++ m.name

/-- The line of a method. -/
def methodLine (m : Element) : String :=
  entry m ++ "(" ++ shorten (", ".intercalate m.parameters) ++ ")"

/-- The line between fields and methods, if there are both. -/
def rule (v : View) : List String :=
  if v.fields ≠ [] ∧ v.methods ≠ [] then ["  --"] else []

/-- The line that opens the class. -/
def classLine (v : View) : String :=
  keyword v.type ++ " " ++ identifier v.type.name ++ " \x7b"

/-- What the line of a use begins with. -/
def arrow (v : View) : String :=
  identifier v.type.name ++ " ..> "

/-- The line of a use. -/
def useLine (v : View) (name : String) : String :=
  arrow v ++ identifier name ++ " : uses"

/-- The lines before the members. -/
def head (v : View) : List String :=
  ["@startuml " ++ v.type.name, "!theme plain", "title " ++ v.type.name ++ " Class Diagram", "",
    classLine v]

/-- The lines of the members. -/
def body (v : View) : List String :=
  v.fields.map entry ++ rule v ++ v.methods.map methodLine

/-- The lines between the members and the uses. -/
def close : List String :=
  ["\x7d", ""]

/-- The lines behind the uses. -/
def foot : List String :=
  ["", "@enduml"]

/-- All lines. -/
def lines (v : View) (names : List String) : List String :=
  head v ++ body v ++ close ++ names.map (useLine v) ++ foot

/-- **How a diagram is laid out**: it is started and ended once, and has one class with a
line for each field, a rule if there are fields and methods, a line for each method, and
the lines of its uses. -/
structure IsLaidOut (v : View) (names : List String) (sheet : List String) : Prop where
  opens : sheet.countP (begins "@startuml") = 1
  closes : sheet.countP (begins "@enduml") = 1
  classOpens : sheet.count (classLine v) = 1
  classCloses : sheet.count "\x7d" = 1
  /-- The class stands behind the start and before the end, and nothing but its members and
  the rule stands inside it. -/
  members : ∃ before after, "@startuml " ++ v.type.name ∈ before ∧ "@enduml" ∈ after ∧
    sheet = before ++ classLine v ::
      (v.fields.map entry ++ rule v ++ v.methods.map methodLine ++ "\x7d" :: after)
  rules : sheet.count "  --" = if v.fields ≠ [] ∧ v.methods ≠ [] then 1 else 0
  /-- The lines that begin like uses are those of the uses. -/
  uses : sheet.filter (begins (arrow v)) = names.map (useLine v)

theorem ofLines_methods (methods : List Element) : ofLines (methods.map methodLine) =
    String.join (methods.map fun m =>
      "  " ++ m.visibility.symbol ++ " " ++ memberType m ++ " " ++ m.name ++ "(" ++
        shorten (", ".intercalate m.parameters) ++ ")\n") := by
  rw [ofLines_map]
  refine congrArg String.join (List.map_congr_left fun m _ => ?_)
  simp [methodLine, entry, ← String.toList_inj]

theorem ofLines_rule (v : View) : ofLines (rule v) =
    if v.fields.isEmpty || v.methods.isEmpty then "" else "  --\n" := by
  unfold rule
  cases v.fields <;> cases v.methods <;> simp [ofLines]

theorem ofLines_uses (v : View) (names : List String) : ofLines (names.map (useLine v)) =
    String.join (names.map fun name =>
      identifier v.type.name ++ " ..> " ++ identifier name ++ " : uses\n") := by
  rw [ofLines_map]
  refine congrArg String.join (List.map_congr_left fun name _ => ?_)
  simp [useLine, arrow, ← String.toList_inj]

theorem render_eq_ofLines (v : View) (u : Uses) :
    render v u = ofLines (lines v (u.namesUsed v.type.qualifiedName)) := by
  have hhead : ofLines (head v) = "@startuml " ++ v.type.name ++ "\n!theme plain\ntitle " ++
      v.type.name ++ " Class Diagram\n\n" ++ keyword v.type ++ " " ++ identifier v.type.name ++
        " \x7b\n" := by
    simp [ofLines, head, classLine, ← String.toList_inj]
  have hfields : ofLines (v.fields.map entry) = String.join (v.fields.map fun f =>
      "  " ++ f.visibility.symbol ++ " " ++ memberType f ++ " " ++ f.name ++ "\n") :=
    ofLines_map _ _
  have hclose : ofLines close = "\x7d\n\n" := by decide
  have hfoot : ofLines foot = "\n@enduml\n" := by decide
  rw [lines, body, ofLines_append, ofLines_append, ofLines_append, ofLines_append, ofLines_append,
    ofLines_append, hhead, hfields, ofLines_rule, ofLines_methods, hclose, ofLines_uses, hfoot]
  unfold render
  simp only [String.append_assoc]

theorem isSpaced_arrow (v : View) : IsSpaced (arrow v) :=
  isSpaced_append.2 ⟨isSpaced_identifier _, by decide⟩

/-- No line ends early. -/
theorem isLine_of_mem_lines (hp : IsLineBreak p) (hname : IsLine p v.type.name)
    (hnames : ∀ m ∈ v.members, IsLine p m.name) : ∀ line ∈ lines v names, IsLine p line := by
  -- names may have blanks of their own; all else that is free text has spaces only
  have hclass : IsSpaced (classLine v) := by
    simp only [classLine, isSpaced_append]
    exact ⟨⟨⟨isSpaced_keyword _, by decide⟩, isSpaced_identifier _⟩, by decide⟩
  have hhead : ∀ line ∈ head v, IsLine p line := by
    simp only [head, List.forall_mem_cons, isLine_append]
    exact ⟨⟨hp.isLine (by decide), hname⟩, hp.isLine (by decide),
      ⟨⟨hp.isLine (by decide), hname⟩, hp.isLine (by decide)⟩, hp.isLine (by decide),
      hp.isLine hclass, List.forall_mem_nil _⟩
  have hentry : ∀ m ∈ v.members, IsLine p (entry m) := by
    intro m hm
    have hbefore : IsSpaced ("  " ++ m.visibility.symbol ++ " " ++ memberType m ++ " ") := by
      simp only [isSpaced_append]
      exact ⟨⟨⟨⟨by decide, isSpaced_symbol _⟩, by decide⟩, isSpaced_memberType m⟩, by decide⟩
    exact isLine_append.2 ⟨hp.isLine hbefore, hnames m hm⟩
  have hmethod : ∀ m ∈ v.methods, IsLine p (methodLine m) := by
    intro m hm
    have hparameters : IsSpaced ("(" ++ shorten (", ".intercalate m.parameters) ++ ")") :=
      isSpaced_append.2 ⟨isSpaced_append.2 ⟨by decide, isSpaced_shorten _⟩, by decide⟩
    have hsplit : methodLine m =
        entry m ++ ("(" ++ shorten (", ".intercalate m.parameters) ++ ")") := by
      simp only [methodLine, String.append_assoc]
    rw [hsplit]
    exact isLine_append.2 ⟨hentry m (List.mem_append_right _ hm), hp.isLine hparameters⟩
  have hrule : ∀ line ∈ rule v, IsSpaced line := by
    unfold rule
    split_ifs <;> decide
  have hclose : ∀ line ∈ close, IsSpaced line := by decide
  have huse : ∀ name, IsSpaced (useLine v name) := fun name =>
    isSpaced_append.2 ⟨isSpaced_append.2 ⟨isSpaced_arrow v, isSpaced_identifier _⟩, by decide⟩
  have hfoot : ∀ line ∈ foot, IsSpaced line := by decide
  simp only [lines, body, List.forall_mem_append, List.forall_mem_map]
  exact ⟨⟨⟨⟨hhead, ⟨fun m hm => hentry m (List.mem_append_left _ hm),
    fun line hline => hp.isLine (hrule line hline)⟩, hmethod⟩,
    fun line hline => hp.isLine (hclose line hline)⟩, fun name _ => hp.isLine (huse name)⟩,
    fun line hline => hp.isLine (hfoot line hline)⟩

/-- The lines of the members are indented. -/
theorem begins_of_mem_body : ∀ line ∈ body v, begins "  " line = true := by
  simp only [body, List.forall_mem_append, List.forall_mem_map]
  refine ⟨⟨fun m _ => ?_, ?_⟩, fun m _ => ?_⟩
  · simp [begins, entry]
  · unfold rule
    split_ifs <;> decide
  · simp [begins, methodLine, entry]

theorem countP_lines (huse : ∀ name, has (useLine v name) = false) :
    (lines v names ++ [""]).countP has =
      (head v).countP has + (body v).countP has + close.countP has + foot.countP has +
        [""].countP has := by
  have huses : (names.map (useLine v)).countP has = 0 :=
    countP_map_eq_zero fun name _ => huse name
  simp only [lines, List.countP_append, huses, Nat.add_zero]

/-- The lines of uses do not count where they are told apart from those that do: a use ends
in an `s`. -/
theorem count_lines (huse : line.toList.getLast? ≠ some 's') :
    (lines v names ++ [""]).count line =
      (head v).count line + (body v).count line + close.count line + foot.count line +
        [""].count line :=
  countP_lines fun _ => beq_eq_false_of_getLast? (by decide) huse

/-- Nor do the lines of members: they are indented. -/
theorem countP_body (h : ∀ line, begins "  " line = true → has line = false) :
    (body v).countP has = 0 := by
  refine List.countP_eq_zero.2 fun line hline => ?_
  rw [h line (begins_of_mem_body line hline)]
  exact Bool.false_ne_true

theorem count_body (h : begins "  " line = false) : (body v).count line = 0 :=
  countP_body fun _ hother => beq_eq_false_of_begins hother h

/-- A use does not begin like a command. -/
theorem begins_useLine (name : String) (ht : t.toList.head? = some '@') :
    begins t (useLine v name) = false := by
  refine Bool.eq_false_iff.2 fun h => ?_
  have hfirst := head?_of_begins ht h
  simp only [useLine, arrow, String.toList_append, List.append_assoc, List.head?_append] at hfirst
  cases hnode : (identifier v.type.name).toList with
  | nil =>
    rw [hnode] at hfirst
    simp at hfirst
  | cons c rest =>
    rw [hnode] at hfirst
    -- no identifier has an at sign
    obtain rfl : c = '@' := by simpa using hfirst
    have hmem : '@' ∈ (identifier v.type.name).toList := hnode ▸ List.mem_cons_self
    rcases mem_identifier hmem with h | h <;> exact absurd h (by decide)

/-! ### Uses -/

/-- What goes on with a space behind its first word does not begin like a use, unless the
word is the class's identifier and a dot stands behind the space. -/
theorem begins_arrow_eq_false (word text : List Char) (hword : ' ' ∉ word)
    (hline : line.toList = word ++ ' ' :: text)
    (htext : word = (identifier v.type.name).toList → text.head? ≠ some '.') :
    begins (arrow v) line = false := by
  refine Bool.eq_false_iff.2 fun h => ?_
  have harrow : (arrow v).toList =
      (identifier v.type.name).toList ++ ' ' :: ['.', '.', '>', ' '] := by
    simp [arrow]
  rw [begins_iff, hline, harrow] at h
  obtain ⟨he, more, rfl⟩ := eq_of_prefix (space_not_mem_identifier _) hword h
  exact htext he.symm rfl

/-- Nor does a line without a space. -/
theorem begins_arrow_of_not_mem (h : ' ' ∉ line.toList) : begins (arrow v) line = false := by
  refine Bool.eq_false_iff.2 fun harrow => h ((begins_iff.1 harrow).subset ?_)
  simp [arrow]

/-- A word with a character that no identifier has is not the class's identifier. -/
theorem ne_identifier {c : Char} {word : List Char} (hc : c ∈ word) (hplain : isPlain c = false)
    (hline : c ≠ '_') : word ≠ (identifier v.type.name).toList := by
  rintro rfl
  rcases mem_identifier hc with h | h
  · rw [hplain] at h
    cases h
  · exact hline h

/-- The title does not begin like a use: the dots of a name are not in its identifier. -/
theorem begins_arrow_title :
    begins (arrow v) ("title " ++ v.type.name ++ " Class Diagram") = false := by
  refine begins_arrow_eq_false ['t', 'i', 't', 'l', 'e']
    (v.type.name.toList ++ " Class Diagram".toList) (by decide) (by simp) fun he => ?_
  rw [List.head?_append, head?_eq_of_identifier (by decide) he.symm]
  simp

theorem begins_arrow_classLine : begins (arrow v) (classLine v) = false := by
  have hone (word : List Char) (hword : ' ' ∉ word) (hkeyword : (keyword v.type).toList = word)
      (hdot : word.head? ≠ some '.') : begins (arrow v) (classLine v) = false := by
    refine begins_arrow_eq_false word ((identifier v.type.name).toList ++ [' ', '\x7b']) hword
      (by simp [classLine, hkeyword]) fun he => ?_
    rw [← he, List.head?_append]
    cases word with
    | nil => simp
    | cons c word => simpa using hdot
  have hkeyword := keyword_mem v.type
  simp only [List.mem_cons, List.not_mem_nil, or_false] at hkeyword
  rcases hkeyword with h | h | h | h
  · exact hone "interface".toList (by decide) (by rw [h]) (by decide)
  · -- two words: the second one stands behind the first space
    exact begins_arrow_eq_false "abstract".toList
      ("class ".toList ++ (identifier v.type.name).toList ++ [' ', '\x7b']) (by decide)
      (by simp [classLine, h]) (by simp)
  · exact hone "enum".toList (by decide) (by rw [h]) (by decide)
  · exact hone "class".toList (by decide) (by rw [h]) (by decide)

/-- Two spaces do not begin like a use. -/
theorem begins_arrow_of_indented (h : begins "  " line = true) :
    begins (arrow v) line = false := by
  obtain ⟨rest, hrest⟩ := begins_iff.1 h
  exact begins_arrow_eq_false [] (' ' :: rest) List.not_mem_nil hrest.symm (by simp)

/-- **The lines that begin like uses are those of the uses.** -/
theorem filter_lines : (lines v names ++ [""]).filter (begins (arrow v)) =
    names.map (useLine v) := by
  have hhead : ∀ line ∈ head v, begins (arrow v) line = false := by
    simp only [head, List.forall_mem_cons]
    refine ⟨?_, ?_, begins_arrow_title, begins_arrow_of_not_mem (by decide),
      begins_arrow_classLine, List.forall_mem_nil _⟩
    · exact begins_arrow_eq_false "@startuml".toList v.type.name.toList (by decide) (by simp)
        fun he => absurd he (ne_identifier (List.mem_cons_self : '@' ∈ _) (by decide) (by decide))
    · exact begins_arrow_eq_false "!theme".toList "plain".toList (by decide) (by decide) (by simp)
  have hclose : ∀ line ∈ close, begins (arrow v) line = false := by
    simp only [close, List.forall_mem_cons]
    exact ⟨begins_arrow_of_not_mem (by decide), begins_arrow_of_not_mem (by decide),
      List.forall_mem_nil _⟩
  have huse : ∀ name ∈ names, begins (arrow v) (useLine v name) = true := fun name _ => by
    simp [begins_iff, useLine]
  have hfoot : ∀ line ∈ foot ++ [""], begins (arrow v) line = false := by
    simp only [foot, List.forall_mem_append, List.forall_mem_cons]
    exact ⟨⟨begins_arrow_of_not_mem (by decide), begins_arrow_of_not_mem (by decide),
      List.forall_mem_nil _⟩, begins_arrow_of_not_mem (by decide), List.forall_mem_nil _⟩
  have hpage : lines v names ++ [""] =
      (head v ++ body v ++ close) ++ names.map (useLine v) ++ (foot ++ [""]) := by
    simp [lines]
  rw [hpage]
  refine filter_block ?_ (List.forall_mem_map.2 huse) hfoot
  simp only [List.forall_mem_append]
  exact ⟨⟨hhead, fun line hline => begins_arrow_of_indented (begins_of_mem_body line hline)⟩,
    hclose⟩

/-! ### Members and other lines -/

/-- A member that is shown is no rule: its mark is no hyphen. -/
theorem entry_append_ne {m : Element} (hm : isVisible m = true) (rest : String) :
    entry m ++ rest ≠ "  --" := by
  have hmark : m.visibility ≠ .isPrivate := bne_iff_ne.1 hm
  cases hvisibility : m.visibility with
  | isPrivate => exact absurd hvisibility hmark
  | _ => simp [entry, hvisibility, Visibility.symbol, ← String.toList_inj,
      -String.toList_eq_nil_iff]

/-- The line that opens the class begins with its keyword. -/
theorem head?_classLine (v : View) :
    ∃ c ∈ ['i', 'a', 'e', 'c'], (classLine v).toList.head? = some c := by
  have hkeyword := keyword_mem v.type
  simp only [List.mem_cons, List.not_mem_nil, or_false] at hkeyword
  rcases hkeyword with h | h | h | h <;> simp [classLine, h]

theorem ne_classLine (h : ∀ c ∈ ['i', 'a', 'e', 'c'], line.toList.head? ≠ some c) :
    line ≠ classLine v := by
  rintro rfl
  obtain ⟨c, hc, hfirst⟩ := head?_classLine v
  exact h c hc hfirst

theorem begins_classLine {c : Char} (ht : t.toList.head? = some c) (hc : c ∉ ['i', 'a', 'e', 'c']) :
    begins t (classLine v) = false := by
  refine Bool.eq_false_iff.2 fun h => ?_
  obtain ⟨d, hd, hfirst⟩ := head?_classLine v
  rw [head?_of_begins ht h] at hfirst
  obtain rfl : c = d := Option.some.inj hfirst
  exact hc hd

/-- **Commands** are the first line and the last one. -/
theorem countP_lines_command (ht : t.toList.head? = some '@') :
    (lines v names ++ [""]).countP (begins t) =
      [("@startuml " ++ v.type.name), "@enduml"].countP (begins t) := by
  have hnone (line : String) (h : line.toList.head? ≠ some '@') : begins t line = false :=
    Bool.eq_false_iff.2 fun hbegins => h (head?_of_begins ht hbegins)
  -- what is indented is no command, whatever the members are called
  have hbody : (body v).countP (begins t) = 0 := by
    refine countP_body fun line h => hnone line ?_
    rw [head?_of_begins (c := ' ') (by decide) h]
    decide
  rw [countP_lines fun name => begins_useLine name ht, hbody]
  simp only [head, close, foot, List.countP_cons, List.countP_nil, hnone "" (by decide),
    hnone "!theme plain" (by decide), hnone ("title " ++ v.type.name ++ " Class Diagram") (by simp),
    begins_classLine ht (by decide), hnone "\x7d" (by decide)]
  simp [Nat.add_comm]

/-- The class is opened once. -/
theorem count_classLine : (lines v names ++ [""]).count (classLine v) = 1 := by
  have hindent : begins "  " (classLine v) = false :=
    begins_classLine (c := ' ') (by decide) (by decide)
  have hlast : (classLine v).toList.getLast? ≠ some 's' := by
    rw [classLine, String.toList_append, List.getLast?_append]
    simp
  have hstart : "@startuml " ++ v.type.name ≠ classLine v := ne_classLine (by simp)
  have htheme : "!theme plain" ≠ classLine v := ne_classLine (by simp)
  have htitle : "title " ++ v.type.name ++ " Class Diagram" ≠ classLine v := ne_classLine (by simp)
  have hempty : "" ≠ classLine v := ne_classLine (by simp)
  have hbrace : "\x7d" ≠ classLine v := ne_classLine (by simp)
  have hend : "@enduml" ≠ classLine v := ne_classLine (by simp)
  rw [count_lines hlast, count_body hindent]
  simp [head, close, foot, hstart, htheme, htitle, hempty, hbrace, hend]

/-- And closed once. -/
theorem count_brace : (lines v names ++ [""]).count "\x7d" = 1 := by
  have hclass : classLine v ≠ "\x7d" := (ne_classLine (by simp)).symm
  have hstart : "@startuml " ++ v.type.name ≠ "\x7d" := by simp [← String.toList_inj]
  have htitle : "title " ++ v.type.name ++ " Class Diagram" ≠ "\x7d" := by
    simp [← String.toList_inj]
  rw [count_lines (by decide), count_body (by decide)]
  simp [head, close, foot, hstart, htitle, hclass]

/-- A rule stands between fields and methods only. -/
theorem count_rule (hvisible : ∀ m ∈ v.members, isVisible m = true) :
    (lines v names ++ [""]).count "  --" = if v.fields ≠ [] ∧ v.methods ≠ [] then 1 else 0 := by
  have hclass : classLine v ≠ "  --" := (ne_classLine (by simp)).symm
  have hstart : "@startuml " ++ v.type.name ≠ "  --" := by simp [← String.toList_inj]
  have htitle : "title " ++ v.type.name ++ " Class Diagram" ≠ "  --" := by
    simp [← String.toList_inj]
  -- the mark of a private member would make its line begin like a rule
  have hfields : (v.fields.map entry).count "  --" = 0 := by
    refine countP_map_eq_zero fun m hm => beq_eq_false_iff_ne.2 ?_
    have hne := entry_append_ne (hvisible m (List.mem_append_left _ hm)) ""
    rwa [String.append_empty] at hne
  have hmethods : (v.methods.map methodLine).count "  --" = 0 := by
    refine countP_map_eq_zero fun m hm => beq_eq_false_iff_ne.2 ?_
    rw [methodLine, String.append_assoc, String.append_assoc]
    exact entry_append_ne (hvisible m (List.mem_append_right _ hm)) _
  have hbody : (body v).count "  --" = if v.fields ≠ [] ∧ v.methods ≠ [] then 1 else 0 := by
    rw [body, List.count_append, List.count_append, hfields, hmethods]
    unfold rule
    split_ifs <;> rfl
  rw [count_lines (by decide), hbody]
  simp [head, close, foot, hstart, htitle, hclass]

theorem isLaidOut_lines (hvisible : ∀ m ∈ v.members, isVisible m = true) :
    IsLaidOut v names (lines v names ++ [""]) where
  opens := by
    rw [countP_lines_command (by decide)]
    simp [begins]
  closes := by
    rw [countP_lines_command (by decide)]
    simp [begins]
  classOpens := count_classLine
  classCloses := count_brace
  members := by
    refine ⟨["@startuml " ++ v.type.name, "!theme plain",
      "title " ++ v.type.name ++ " Class Diagram", ""],
      "" :: (names.map (useLine v) ++ foot ++ [""]), by simp, by simp [foot], ?_⟩
    simp [lines, head, body, close]
  rules := count_rule hvisible
  uses := filter_lines

/-- **The layout of a diagram withstands the source.** -/
theorem isLaidOut_render (hp : IsLineBreak p) (hname : IsLine p v.type.name)
    (hnames : ∀ m ∈ v.members, IsLine p m.name) (hvisible : ∀ m ∈ v.members, isVisible m = true)
    (u : Uses) : IsLaidOut v (u.namesUsed v.type.qualifiedName) (linesBy p (render v u)) := by
  rw [render_eq_ofLines, linesBy_ofLines hp (isLine_of_mem_lines hp hname hnames)]
  exact isLaidOut_lines hvisible

end Docsmith.Diagram.PlantUml

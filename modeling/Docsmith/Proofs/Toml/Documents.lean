import Docsmith.Proofs.Toml.Sections
import Docsmith.Proofs.Toml.Values
/-!
# TOML — documents come back

The text of a table is read line by line, a header or a key with its value at a
time, and the lines of a section do what the section does. A rendered table is read
back if its lines fit the reader (`parse?_render?`), and refused if one does not.
-/


namespace Docsmith.Toml

open Json (Number reread readWithin? EveryObject nesting)

variable {num : Number → Number} {d : Draft}

/-! ## Lines -/

/-- A line of a document. -/
inductive Line where
  | header (array : Bool) (path : List String)
  | pair (name : String) (v : Json)

/-- The text of a line. -/
def Line.text : Line → List Char
  | .header true path => '[' :: '[' :: (dotted path ++ [']', ']'])
  | .header false path => '[' :: (dotted path ++ [']'])
  | .pair name v => quoteKey name.toList ++ " = ".toList ++ valueText v

/-- A line nests no deeper than the reader goes. -/
def Line.Fits : Line → Prop
  | .header _ path => path.length ≤ maxDepth
  | .pair _ v => nesting v ≤ maxDepth

instance : DecidablePred Line.Fits
  | .header _ path => inferInstanceAs (Decidable (path.length ≤ maxDepth))
  | .pair _ v => inferInstanceAs (Decidable (nesting v ≤ maxDepth))

/-- What a line does to a document so far. -/
def Line.apply (num : Number → Number) (d : Draft) : Line → Option Draft
  | .header array path => d.header array path
  | .pair name v => d.put [name] (reread num v)

/-- The path of the line leads somewhere, and its value is read back. -/
def Line.Reads (num : Number → Number) : Line → Prop
  | .header _ path => path ≠ []
  | .pair _ v => Returns num v

/-- What is read of a line. -/
def Line.read? (num : Number → Number) (d : Draft) (l : Line) : Option Draft :=
  if l.Fits then l.apply num d else none

theorem Line.exists_text_head {l : Line} (h : l.Reads num) :
    ∃ c more, l.text = c :: more ∧ c ∉ [' ', '\t', '\n', '#', '\ufeff'] := by
  cases l with
  | header array path => cases array <;> exact ⟨'[', _, rfl, by decide⟩
  | pair name v =>
    obtain ⟨c, more, hhead, hc⟩ := exists_quoteKey_head name.toList
    have hne := ne_of_key_head hc
    simp only [List.mem_cons, List.not_mem_nil, or_false, not_or] at hne ⊢
    obtain ⟨hspace, htab, hbreak, hcomment, -, -, -, -, hmark⟩ := hne
    exact ⟨c, _, by rw [text, hhead]; rfl, hspace, htab, hbreak, hcomment, hmark⟩

/-- A path in brackets is read if it has no more parts than a key may have. -/
theorem key?_closed {path : List String} (hpath : path ≠ []) (rest : List Char) :
    key? (dotted path ++ ']' :: rest) =
      if path.length ≤ maxDepth then some (path, ']' :: rest) else none := by
  obtain ⟨name, path, rfl⟩ := List.exists_cons_of_ne_nil hpath
  refine key?_dotted (fun c hc => ?_) rfl (fun c hc => ?_) (skipSpace_dotted name path _)
  all_goals obtain rfl : ']' = c := Option.some.inj hc
  · rfl
  · decide

theorem Line.read?_header (array : Bool) (path : List String) :
    (Line.header array path).read? num d =
      if path.length ≤ maxDepth then d.header array path else none := rfl

theorem Line.read?_pair (name : String) (v : Json) :
    (Line.pair name v).read? num d =
      (readWithin? num maxDepth v).bind fun v => d.put [name] v := by
  rw [readWithin?]
  split_ifs with hfits
  · exact if_pos hfits
  · exact if_neg hfits

/-- **A line is read back** unless it nests too deep. -/
theorem statement?_text {l : Line} (h : l.Reads num) (rest : List Char) :
    statement? d (l.text ++ '\n' :: rest) = (l.read? num d).map (·, '\n' :: rest) := by
  cases l with
  | header array path =>
    rw [Line.read?_header]
    cases array with
    | true =>
      rw [Line.text, List.cons_append, List.cons_append, List.append_assoc, statement?,
        List.cons_append, List.cons_append, List.nil_append, key?_closed h]
      split_ifs
      · dsimp only [Option.bind_eq_bind, Option.bind_some]
        cases d.header true path <;> rfl
      · rfl
    | false =>
      obtain ⟨name, path, rfl⟩ := List.exists_cons_of_ne_nil h
      obtain ⟨c, more, hhead, hc⟩ := exists_dotted_head name path
      have hopen : c ≠ '[' := fun heq => ne_of_key_head hc (by simp [heq])
      rw [Line.text, List.cons_append, List.append_assoc, List.singleton_append, statement?]
      · rw [key?_closed h]
        split_ifs
        · dsimp only [Option.bind_eq_bind, Option.bind_some]
          cases d.header false (name :: path) <;> rfl
        · rfl
      · rw [hhead]
        exact fun _ heq => hopen (List.cons.inj heq).1
  | pair name v =>
    obtain ⟨c, more, hhead, hc⟩ := exists_quoteKey_head name.toList
    have hopen : c ≠ '[' := fun heq => ne_of_key_head hc (by simp [heq])
    have hskip (text : List Char) : skipSpace (quoteKey name.toList ++ text) =
        quoteKey name.toList ++ text := by
      rw [← dotted_singleton]
      exact skipSpace_dotted name [] _
    have hpair := pair?_quoteKey (value? maxDepth) (h.starts.append ('\n' :: rest)) (hskip _)
    rw [h.read maxDepth _ (endsValue_cons (by decide) rest)] at hpair
    rw [Line.text, List.append_assoc, List.append_assoc, statement?, hpair, Line.read?_pair]
    · cases readWithin? num maxDepth v with
      | none => rfl
      | some v =>
        dsimp only [Option.map_some, Option.bind_eq_bind, Option.bind_some]
        cases d.put [name] v <;> rfl
    all_goals
      rw [hhead]
      exact fun _ heq => hopen (List.cons.inj heq).1

/-! ## Texts -/

/-- The text of some lines. -/
def linesText (lines : List Line) : List Char :=
  lines.flatMap fun l => l.text ++ ['\n']

theorem linesText_cons (l : Line) (lines : List Line) (rest : List Char) :
    linesText (l :: lines) ++ rest = l.text ++ '\n' :: (linesText lines ++ rest) := by
  rw [linesText, List.flatMap_cons, List.append_assoc, List.append_assoc, List.singleton_append]
  rfl

theorem length_le_linesText (lines : List Line) : lines.length ≤ (linesText lines).length := by
  induction lines with
  | nil => exact Nat.le_refl 0
  | cons l lines ih =>
    rw [← List.append_nil (linesText (l :: lines)), linesText_cons, List.append_nil,
      List.length_append, List.length_cons, List.length_cons]
    omega

theorem skipLines_newline (text : List Char) : skipLines ('\n' :: text) = skipLines text := by
  rw [skipLines, List.length_cons, skipGap]
  rfl

theorem statements?_congr {text other : List Char} (h : skipLines text = skipLines other)
    (fuel : Nat) (d : Draft) : statements? (fuel + 1) d text = statements? (fuel + 1) d other := by
  rw [statements?, statements?, h]

theorem statements?_text {l : Line} (h : l.Reads num) (fuel : Nat) (d : Draft)
    (rest : List Char) :
    statements? (fuel + 1) d (l.text ++ '\n' :: rest) =
      (l.read? num d).bind fun d => statements? fuel d rest := by
  have hread := statement?_text (d := d) h rest
  obtain ⟨c, more, hhead, hc⟩ := l.exists_text_head h
  simp only [List.mem_cons, List.not_mem_nil, or_false, not_or] at hc
  rw [hhead, List.cons_append] at hread ⊢
  have hspace : isSpace c = false := by simp [isSpace, hc.1, hc.2.1]
  rw [statements?, skipLines_of_ne hc.2.2.2.1 hc.2.2.1 hspace]
  simp only [hread]
  cases l.read? num d <;> rfl

/-- Lines are read one after the other. -/
theorem statements?_linesText {lines : List Line} (h : ∀ l ∈ lines, l.Reads num) (fuel : Nat) :
    ∀ d rest, statements? (fuel + lines.length) d (linesText lines ++ rest) =
      (lines.foldlM (Line.read? num) d).bind fun d => statements? fuel d rest := by
  induction lines with
  | nil => exact fun d rest => rfl
  | cons l lines ih =>
    intro d rest
    obtain ⟨hl, hlines⟩ := List.forall_mem_cons.1 h
    rw [linesText_cons, List.length_cons, ← Nat.add_assoc, statements?_text hl, List.foldlM_cons]
    cases l.read? num d with
    | none => rfl
    | some d => exact ih hlines d rest

/-- Lines with empty ones between some of them are read one after the other. -/
theorem statements?_join {groups : List (List Line)} (h : ∀ l ∈ groups.flatten, l.Reads num)
    (fuel : Nat) :
    ∀ d, statements? (fuel + 1 + groups.flatten.length) d
        (Text.join ['\n'] (groups.map linesText)) =
      groups.flatten.foldlM (Line.read? num) d := by
  induction groups with
  | nil => exact fun d => rfl
  | cons lines groups ih =>
    intro d
    rw [List.flatten_cons, List.forall_mem_append] at h
    rw [List.flatten_cons, List.length_append, List.foldlM_append]
    cases groups with
    | nil =>
      have hread := statements?_linesText h.1 (fuel + 1) d []
      rw [List.append_nil] at hread
      rw [List.map_cons, List.map_nil, Text.join, List.intercalate_singleton]
      refine hread.trans ?_
      cases lines.foldlM (Line.read? num) d <;> rfl
    | cons next groups =>
      have hread := statements?_linesText h.1 (fuel + 1 + (next :: groups).flatten.length) d
        ('\n' :: Text.join ['\n'] ((next :: groups).map linesText))
      rw [List.map_cons, List.map_cons, Text.join, List.intercalate_cons_cons, List.append_assoc,
        Nat.add_comm lines.length, ← Nat.add_assoc]
      refine hread.trans (congrArg _ (funext fun d => ?_))
      have hmore := ih h.2 d
      rw [Nat.add_right_comm] at hmore ⊢
      rw [statements?_congr (skipLines_newline _)]
      exact hmore

theorem length_le_join (groups : List (List Line)) :
    groups.flatten.length ≤ (Text.join ['\n'] (groups.map linesText)).length := by
  induction groups with
  | nil => exact Nat.le_refl 0
  | cons lines groups ih =>
    have hlines := length_le_linesText lines
    rw [List.flatten_cons, List.length_append]
    cases groups with
    | nil =>
      rw [List.map_cons, List.map_nil, Text.join, List.intercalate_singleton]
      exact hlines
    | cons next groups =>
      have hjoin : (Text.join ['\n'] ((lines :: next :: groups).map linesText)).length =
          (linesText lines).length + 1 +
            (Text.join ['\n'] ((next :: groups).map linesText)).length := by
        rw [List.map_cons, List.map_cons, Text.join, List.intercalate_cons_cons,
          List.length_append, List.length_append, List.length_singleton]
        rfl
      omega

/-! ## The lines of sections -/

/-- The lines of a section: its header, unless it is the whole document, and its
fields. -/
def Section.lines (s : Section) : List Line :=
  (if s.path = [] then [] else [.header s.array s.path]) ++
    (onLines s.fields).map fun field => .pair field.1 field.2

theorem Section.block_text (s : Section) : s.block.text = linesText s.lines := by
  have hown : ownLines s.fields =
      linesText ((onLines s.fields).map fun field => .pair field.1 field.2) := by
    rw [linesText, List.flatMap_map]
    rfl
  rw [Block.text, block, Block.ofFields, lines, hown]
  by_cases hpath : s.path = []
  · simp [hpath]
  · rw [if_neg hpath, List.singleton_append, if_neg (by simpa using hpath)]
    rw [← List.append_nil (linesText (_ :: _)), linesText_cons, List.append_nil]
    cases s.array <;> simp [Line.text, dotted]

/-- The lines of a section do what the section does. -/
theorem Section.foldlM_lines (s : Section) {d : Draft} (h : s.path ≠ [] ∨ d.path = []) :
    s.lines.foldlM (Line.apply num) d =
      (s.apply num d.root).map fun root => ⟨root, s.path⟩ := by
  have hfilled (root : Fields) :
      ((onLines s.fields).map fun field => Line.pair field.1 field.2).foldlM (Line.apply num)
          ⟨root, s.path⟩ = (s.filled num root).map fun root => ⟨root, s.path⟩ := by
    rw [List.foldlM_map]
    refine foldlM_map (e := fun root => (⟨root, s.path⟩ : Draft)) (fun root field => ?_) _ root
    rw [Line.apply, Draft.put]
    cases Fields.inside (fun fields => fields.put (reread num field.2) false false [field.1])
      s.path root <;> rfl
  rw [lines, List.foldlM_append, apply]
  cases hlast : s.path.getLast? with
  | none =>
    have hpath := List.getLast?_eq_none_iff.1 hlast
    have hdraft : d = ⟨d.root, s.path⟩ := by
      rw [hpath, ← h.resolve_left (not_not_intro hpath)]
    have hopened : s.opened d.root = some d.root := by rw [opened, hlast]
    rw [if_pos hpath, hopened, hdraft]
    exact hfilled d.root
  | some name =>
    have hpath : s.path ≠ [] := by
      rintro hnil
      rw [hnil] at hlast
      cases hlast
    have hheader : d.header s.array s.path = (s.opened d.root).map fun root => ⟨root, s.path⟩ := by
      rw [Draft.header, opened, hlast]
      dsimp only
      cases d.root.inside _ s.path.dropLast <;> rfl
    rw [if_neg hpath, List.foldlM_cons, Line.apply, hheader]
    cases s.opened d.root with
    | none => rfl
    | some root => exact hfilled root

/-- The lines of sections build what the sections build. -/
theorem foldlM_sections {sections : List Section} (h : ∀ s ∈ sections, s.path ≠ []) (d : Draft) :
    ((sections.flatMap Section.lines).foldlM (Line.apply num) d).map (·.root) =
      build num sections d.root := by
  induction sections generalizing d with
  | nil => rfl
  | cons s sections ih =>
    obtain ⟨hs, hsections⟩ := List.forall_mem_cons.1 h
    rw [List.flatMap_cons, List.foldlM_append, s.foldlM_lines (.inl hs), build, List.foldlM_cons]
    cases s.apply num d.root with
    | none => rfl
    | some root => exact ih hsections ⟨root, s.path⟩

/-- The written sections of a value. -/
def shownSections (v : Json) : List Section :=
  (sections [] v).filter Section.isShown

/-- Only the first section of a table is the whole document. -/
theorem foldlM_shownSections (fields : List (String × Json)) (h : d.path = []) :
    (((shownSections (.object fields)).flatMap Section.lines).foldlM (Line.apply num) d).map
        (·.root) = build num (shownSections (.object fields)) d.root := by
  have hbelow : ∀ s ∈ shownBelow fields, s.path ≠ [] := fun s hs =>
    ne_nil_of_mem_fieldSections [] _ s
      (List.mem_filter.1 hs).1
  rw [shownSections, sections, List.filter_cons]
  split_ifs
  · rw [List.flatMap_cons, List.foldlM_append, Section.foldlM_lines _ (.inr h), build,
      List.foldlM_cons]
    cases Section.apply num ⟨[], false, fields⟩ d.root with
    | none => rfl
    | some root => exact foldlM_sections hbelow _
  · exact foldlM_sections hbelow _

/-! ## Limits -/

/-- The lines of a value fit the reader: no header has too many parts, and no value on
its line nests too deep. -/
def Fits (v : Json) : Prop :=
  ∀ s ∈ shownSections v, s.path.length ≤ maxDepth ∧
    ∀ field ∈ onLines s.fields, nesting field.2 ≤ maxDepth

instance (v : Json) : Decidable (Fits v) :=
  inferInstanceAs (Decidable (∀ s ∈ shownSections v, _))

theorem Section.fits_lines (s : Section) :
    (∀ l ∈ s.lines, l.Fits) ↔
      s.path.length ≤ maxDepth ∧ ∀ field ∈ onLines s.fields, nesting field.2 ≤ maxDepth := by
  rw [lines, List.forall_mem_append, List.forall_mem_map]
  refine and_congr_left fun _ => ?_
  split_ifs with hpath
  · simp [hpath]
  · exact List.forall_mem_singleton

/-- Lines that fit are read as they are meant; others are refused. -/
theorem foldlM_read? (lines : List Line) (d : Draft) :
    lines.foldlM (Line.read? num) d =
      if ∀ l ∈ lines, l.Fits then lines.foldlM (Line.apply num) d else none := by
  induction lines generalizing d with
  | nil => rfl
  | cons l lines ih =>
    rw [List.foldlM_cons, List.foldlM_cons, Line.read?]
    by_cases hl : l.Fits
    · rw [if_pos hl]
      have hfits : (∀ m ∈ l :: lines, m.Fits) ↔ ∀ m ∈ lines, m.Fits := by
        rw [List.forall_mem_cons, and_iff_right hl]
      simp only [hfits]
      cases l.apply num d with
      | none => split_ifs <;> rfl
      | some d => exact ih d
    · rw [if_neg hl, if_neg fun h => hl (List.forall_mem_cons.1 h).1]
      rfl

/-! ## Rendered tables -/

/-- The fields of the sections of a value can be read as the value can. -/
theorem isReadable_of_mem_sections {v : Json} (h : IsReadable num v) (path : List String) :
    ∀ s ∈ sections path v, ∀ field ∈ s.fields, IsReadable num field.2 := by
  induction v using Json.parts_induction generalizing path with
  | null => simp [sections]
  | bool b => simp [sections]
  | number n => simp [sections]
  | string s => simp [sections]
  | array items ih =>
    rw [sections]
    split_ifs
    · exact forall_mem_itemSections (fun _ h => h) fun item hitem =>
        ih item hitem (h.item hitem) path
    · simp
  | object fields ih =>
    rw [sections, List.forall_mem_cons]
    exact ⟨fun field hfield => h.field hfield, forall_mem_fieldSections fun field hfield =>
      ih field hfield (h.field hfield) _⟩

/-- The lines of a value. -/
def documentLines (v : Json) : List Line :=
  (shownSections v).flatMap Section.lines

/-- The values on the lines of a value can be read as the value can. -/
theorem forall_mem_documentLines {v : Json} (h : IsReadable num v) {l : Line}
    (hl : l ∈ documentLines v) :
    (∃ array path, path ≠ [] ∧ l = .header array path) ∨
      ∃ name own, IsReadable num own ∧ l = .pair name own := by
  obtain ⟨s, hs, hl⟩ := List.mem_flatMap.1 hl
  have hfields := isReadable_of_mem_sections h [] s (List.mem_filter.1 hs).1
  rcases List.mem_append.1 hl with hl | hl
  · split_ifs at hl with hpath
    · cases hl
    · exact .inl ⟨s.array, s.path, hpath, List.mem_singleton.1 hl⟩
  · obtain ⟨field, hfield, rfl⟩ := List.mem_map.1 hl
    exact .inr ⟨field.1, field.2, hfields field (List.mem_filter.1 hfield).1, rfl⟩

theorem reads_of_mem_documentLines {v : Json} (h : IsReadable num v) :
    ∀ l ∈ documentLines v, l.Reads num := by
  intro l hl
  rcases forall_mem_documentLines h hl with ⟨array, path, hpath, rfl⟩ | ⟨name, own, hown, rfl⟩
  · exact hpath
  · exact returns hown

theorem return_not_mem_dotted (path : List String) : '\r' ∉ dotted path := by
  intro hr
  rcases Text.mem_of_mem_join hr with hr | ⟨part, hpart, hr⟩
  · exact absurd hr (by decide)
  · obtain ⟨name, -, rfl⟩ := List.mem_map.1 hpart
    exact return_not_mem_quoteKey _ hr

theorem return_not_mem_text {v : Json} (h : IsReadable num v) {l : Line}
    (hl : l ∈ documentLines v) : '\r' ∉ l.text := by
  rcases forall_mem_documentLines h hl with ⟨array, path, -, rfl⟩ | ⟨name, own, hown, rfl⟩
  · cases array <;> simp [Line.text, return_not_mem_dotted]
  · simp [Line.text, return_not_mem_quoteKey, return_not_mem_valueText hown]

theorem unifyBreaks_of_not_mem {text : List Char} (h : '\r' ∉ text) : unifyBreaks text = text := by
  induction text with
  | nil => rfl
  | cons c text ih =>
    obtain ⟨hc, htext⟩ := not_or.1 (mt List.mem_cons.2 h)
    rw [unifyBreaks, ih htext]
    exact fun rest heq => absurd heq.symm hc

/-- The text of a value. -/
def documentText (v : Json) : List Char :=
  Text.join ['\n'] ((shownSections v).map fun s => linesText s.lines)

theorem render?_eq {v : Json} (h : hasNull v = false) :
    render? v = some (String.ofList (documentText v)) := by
  have hblocks : (blocks [] v).filter (·.isShown) = (shownSections v).map Section.block := by
    have hall := blocks_eq [] v
    rw [List.map_nil] at hall
    rw [hall, List.filter_map]
    rfl
  have htexts : ((shownSections v).map Section.block).map (·.text) =
      (shownSections v).map fun s => linesText s.lines := by
    rw [List.map_map]
    exact List.map_congr_left fun s _ => s.block_text
  rw [render?, h, if_neg Bool.false_ne_true, hblocks, htexts]
  rfl

theorem head?_linesText {lines : List Line} {rest : List Char} {c : Char}
    (h : c ∈ (linesText lines ++ rest).head?) :
    c = '\n' ∨ (∃ l ∈ lines, c ∈ l.text.head?) ∨ c ∈ rest.head? := by
  cases lines with
  | nil => exact .inr (.inr h)
  | cons l lines =>
    rw [linesText_cons, List.head?_append] at h
    cases hl : l.text.head? with
    | none =>
      rw [hl] at h
      exact .inl (Option.some.inj h).symm
    | some d =>
      rw [hl] at h
      exact .inr (.inl ⟨l, List.mem_cons_self, hl.trans h⟩)

/-- The text of a value starts with a line break or with one of its lines. -/
theorem head?_documentText {v : Json} {c : Char} (h : c ∈ (documentText v).head?) :
    c = '\n' ∨ ∃ l ∈ documentLines v, c ∈ l.text.head? := by
  rw [documentText] at h
  rw [documentLines]
  cases hsections : shownSections v with
  | nil => rw [hsections] at h; cases h
  | cons s sections =>
    have hhead (rest : List Char) (hrest : ∀ c ∈ rest.head?, c = '\n')
        (h : c ∈ (linesText s.lines ++ rest).head?) :
        c = '\n' ∨ ∃ l ∈ (s :: sections).flatMap Section.lines, c ∈ l.text.head? := by
      rcases head?_linesText h with h | ⟨l, hl, h⟩ | h
      · exact .inl h
      · exact .inr ⟨l, List.mem_flatMap_of_mem List.mem_cons_self hl, h⟩
      · exact .inl (hrest c h)
    rw [hsections, List.map_cons] at h
    cases sections with
    | nil =>
      rw [List.map_nil, Text.join, List.intercalate_singleton, ← List.append_nil (linesText _)] at h
      exact hhead [] (fun c hc => by cases hc) h
    | cons next sections =>
      rw [List.map_cons, Text.join, List.intercalate_cons_cons, List.append_assoc] at h
      exact hhead ('\n' :: Text.join ['\n'] _) (fun c hc => (Option.some.inj hc).symm) h

theorem dropMark_of_head {text : List Char} (h : ∀ c ∈ text.head?, c ≠ '\ufeff') :
    dropMark text = text := by
  unfold dropMark
  split
  · exact absurd rfl (h _ rfl)
  · rfl

/-- The text of a value is read as it stands: it has no carriage return and no byte
order mark. -/
theorem unifyBreaks_documentText {v : Json} (h : IsReadable num v) :
    unifyBreaks (dropMark (documentText v)) = documentText v := by
  rw [dropMark_of_head, unifyBreaks_of_not_mem]
  · intro hr
    rcases Text.mem_of_mem_join hr with hr | ⟨text, htext, hr⟩
    · exact absurd hr (by decide)
    · obtain ⟨s, hs, rfl⟩ := List.mem_map.1 htext
      obtain ⟨l, hl, hr⟩ := List.mem_flatMap.1 hr
      rcases List.mem_append.1 hr with hr | hr
      · exact return_not_mem_text h (List.mem_flatMap_of_mem hs hl) hr
      · exact absurd hr (by decide)
  · intro c hc
    rcases head?_documentText hc with rfl | ⟨l, hl, hc⟩
    · decide
    · obtain ⟨d, more, hhead, hd⟩ := l.exists_text_head (reads_of_mem_documentLines h l hl)
      rw [hhead] at hc
      rintro rfl
      obtain rfl : d = '\ufeff' := Option.some.inj hc
      exact hd (by decide)

theorem fits_iff (v : Json) : (∀ l ∈ documentLines v, l.Fits) ↔ Fits v := by
  rw [documentLines, Fits]
  refine (List.forall_mem_flatMap).trans (forall₂_congr fun s _ => s.fits_lines)

/-- **A table is read back from its text** if its lines fit the reader, and refused if
they do not. -/
theorem parse?_documentText {fields : List (String × Json)} (h : IsReadable num (.object fields)) :
    parse? (String.ofList (documentText (.object fields))) =
      if Fits (.object fields) then some (reread num (.object fields)) else none := by
  have hflatten : ((shownSections (.object fields)).map Section.lines).flatten =
      documentLines (.object fields) := List.flatMap_def.symm
  have hread : statements? ((documentText (.object fields)).length + 1) {}
      (documentText (.object fields)) =
        (documentLines (.object fields)).foldlM (Line.read? num) {} := by
    have hlength := length_le_join ((shownSections (.object fields)).map Section.lines)
    rw [hflatten, List.map_map] at hlength
    obtain ⟨fuel, hfuel⟩ := Nat.exists_eq_add_of_le hlength
    have hreads : ∀ l ∈ ((shownSections (.object fields)).map Section.lines).flatten,
        l.Reads num := by
      rw [hflatten]
      exact reads_of_mem_documentLines h
    have hjoin := statements?_join hreads fuel {}
    rw [hflatten, List.map_map, Nat.add_right_comm, Nat.add_comm fuel, ← hfuel] at hjoin
    exact hjoin
  obtain ⟨nodes, hfinish, hbuild⟩ : ∃ nodes : Fields,
      nodes.finish = reread num (.object fields) ∧
        build num (shownSections (.object fields)) [] = some nodes := build_sections h.distinct
  have hfold : ((documentLines (.object fields)).foldlM (Line.apply num) {}).map (·.root) =
      some nodes := (foldlM_shownSections fields rfl).trans hbuild
  rw [parse?, String.toList_ofList, unifyBreaks_documentText h, hread, foldlM_read?]
  simp only [fits_iff]
  split_ifs
  · obtain ⟨d, hd, hroot⟩ := Option.map_eq_some_iff.1 hfold
    rw [hd, Option.map_some, hroot, hfinish]
  · rfl

end Docsmith.Toml

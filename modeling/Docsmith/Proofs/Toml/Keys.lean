import Docsmith.Toml.Reader
import Docsmith.Proofs.Toml.Strings
import Docsmith.Proofs.Toml.Words
/-!
# TOML — keys come back

A part of a key is read back from its text (`keyPart?_quoteKey`), and so are several
with dots between them (`key?_join`), unless they are too many. What comes under
a key in a table under construction is found there again (`Holds`).
-/


namespace Docsmith.Toml

variable {c : Char} {text rest : List Char}

/-! ## One part -/

theorem keyPart?_bare (hc : isBareChar c = true) (text : List Char) :
    keyPart? (c :: text) =
      some (String.ofList ((c :: text).takeWhile isBareChar),
        (c :: text).dropWhile isBareChar) := by
  have hne : ∀ d, isBareChar d = false → c ≠ d := by
    rintro d hd rfl
    rw [hc] at hd
    cases hd
  rw [keyPart?]
  · simp [hc]
  · exact fun rest heq => hne '"' rfl (List.cons.inj heq).1
  · exact fun rest heq => hne '\'' rfl (List.cons.inj heq).1

/-- A key is written as it is, between single quotes, or escaped between double ones. -/
theorem quoteKey_cases (text : List Char) :
    (text ≠ [] ∧ (∀ c ∈ text, isBareChar c = true) ∧ quoteKey text = text) ∨
      (Form.ofText text = .literal ∧ quoteKey text = '\'' :: (text ++ ['\''])) ∨
      quoteKey text = '"' :: (escape false 0 0 text ++ ['"']) := by
  unfold quoteKey
  split_ifs with hbare
  · obtain ⟨hne, hall⟩ : text ≠ [] ∧ text.all isBareChar = true := by
      simpa [isBareChar] using hbare
    exact .inl ⟨hne, List.all_eq_true.1 hall, rfl⟩
  · split
    · next hform => exact .inr (.inl ⟨hform, rfl⟩)
    · exact .inr (.inr rfl)

/-- **One part of a key is read back from its text**, unless more letters
follow. -/
theorem keyPart?_quoteKey (text : List Char) (h : ∀ c ∈ rest.head?, isBareChar c = false) :
    keyPart? (quoteKey text ++ rest) = some (String.ofList text, rest) := by
  rcases quoteKey_cases text with ⟨hne, hbare, hkey⟩ | ⟨hform, hkey⟩ | hkey
  · rw [hkey]
    obtain ⟨c, more, rfl⟩ := List.exists_cons_of_ne_nil hne
    rw [List.cons_append, keyPart?_bare (hbare c List.mem_cons_self), ← List.cons_append,
      Text.takeWhile_append_of_all hbare h, Text.dropWhile_append_of_all hbare h]
  · have hread := literal?_append (forall_of_ofText_literal hform) rest
    rw [hkey, List.cons_append, List.append_assoc, List.singleton_append, keyPart?, hread]
    rfl
  · have hread := basic?_escape text rest
    rw [hkey, List.cons_append, List.append_assoc, List.singleton_append, keyPart?, hread]
    rfl

/-- A key starts with a letter or a quote. -/
theorem exists_quoteKey_head (text : List Char) :
    ∃ c more, quoteKey text = c :: more ∧ (isBareChar c || c == '"' || c == '\'') = true := by
  rcases quoteKey_cases text with ⟨hne, hbare, hkey⟩ | ⟨-, hkey⟩ | hkey
  · obtain ⟨c, more, rfl⟩ := List.exists_cons_of_ne_nil hne
    exact ⟨c, more, hkey, by rw [hbare c List.mem_cons_self]; rfl⟩
  · exact ⟨_, _, hkey, rfl⟩
  · exact ⟨_, _, hkey, rfl⟩

theorem return_not_mem_quoteKey (text : List Char) : '\r' ∉ quoteKey text := by
  rcases quoteKey_cases text with ⟨-, hbare, hkey⟩ | ⟨hform, hkey⟩ | hkey
  · rw [hkey]
    intro h
    cases hbare '\r' h
  · have hreturn : '\r' ∉ text := fun h => by
      have := (forall_of_ofText_literal hform '\r' h).2
      cases this
    simp [hkey, hreturn]
  · simp [hkey, return_not_mem_escape]

/-! ## Several parts -/

/-- Parts of a key with dots between them. -/
def dotted (path : List String) : List Char :=
  Text.join ['.'] (path.map fun name => quoteKey name.toList)

theorem dotted_cons_cons (name next : String) (path : List String) :
    dotted (name :: next :: path) = quoteKey name.toList ++ '.' :: dotted (next :: path) := by
  rw [dotted, List.map_cons, List.map_cons, Text.join, List.intercalate_cons_cons,
    List.append_assoc]
  rfl

theorem dotted_singleton (name : String) : dotted [name] = quoteKey name.toList := by
  rw [dotted, List.map_cons, List.map_nil, Text.join, List.intercalate_singleton]

theorem exists_dotted_head (name : String) (path : List String) :
    ∃ c more, dotted (name :: path) = c :: more ∧
      (isBareChar c || c == '"' || c == '\'') = true := by
  obtain ⟨c, more, hkey, hc⟩ := exists_quoteKey_head name.toList
  cases path with
  | nil => exact ⟨c, more, (dotted_singleton name).trans hkey, hc⟩
  | cons next path =>
    rw [dotted_cons_cons, hkey]
    exact ⟨c, _, rfl, hc⟩

/-- No key starts with white space or what stands for something else. -/
theorem ne_of_key_head (h : (isBareChar c || c == '"' || c == '\'') = true) :
    c ∉ [' ', '\t', '\n', '#', ']', '[', '.', '\x7d', '\ufeff'] := by
  intro hc
  have hall : ∀ c ∈ [' ', '\t', '\n', '#', ']', '[', '.', '\x7d', '\ufeff'],
      (isBareChar c || c == '"' || c == '\'') = false :=
    List.all_iff_forall_prop.1 (by decide)
  rw [hall c hc] at h
  cases h

theorem skipSpace_dotted (name : String) (path : List String) (rest : List Char) :
    skipSpace (dotted (name :: path) ++ rest) = dotted (name :: path) ++ rest := by
  obtain ⟨c, more, hhead, hc⟩ := exists_dotted_head name path
  have hne := ne_of_key_head hc
  rw [hhead]
  refine List.dropWhile_cons_of_neg ?_
  simp only [isSpace, Bool.or_eq_true, beq_iff_eq]
  rintro (rfl | rfl) <;> exact hne (by decide)

/-- **Parts with dots between them are read back**, by induction on them. -/
theorem keyParts?_dotted {after : List Char} (hbare : ∀ c ∈ rest.head?, isBareChar c = false)
    (hafter : skipSpace rest = after) (hdot : ∀ c ∈ after.head?, c ≠ '.') (path : List String) :
    ∀ name text fuel, path.length < fuel → skipSpace text = dotted (name :: path) ++ rest →
      keyParts? fuel text = some (name :: path, after) := by
  induction path with
  | nil =>
    intro name text fuel hfuel htext
    obtain ⟨fuel, rfl⟩ := Nat.exists_eq_add_of_lt hfuel
    rw [keyParts?, htext, dotted_singleton, keyPart?_quoteKey _ hbare]
    simp only [Option.bind_eq_bind, Option.bind_some, hafter, String.ofList_toList]
    split
    · exact absurd rfl (hdot '.' rfl)
    · rfl
  | cons next path ih =>
    intro name text fuel hfuel htext
    obtain ⟨fuel, rfl⟩ : ∃ fuel', fuel = fuel' + 1 := ⟨fuel - 1, by omega⟩
    have hmore := ih next (dotted (next :: path) ++ rest) fuel (by simpa using hfuel)
      (skipSpace_dotted next path rest)
    have hpoint : skipSpace ('.' :: (dotted (next :: path) ++ rest)) =
        '.' :: (dotted (next :: path) ++ rest) := List.dropWhile_cons_of_neg (by decide)
    rw [keyParts?, htext, dotted_cons_cons, List.append_assoc, List.cons_append,
      keyPart?_quoteKey _ (by simp [isBareChar, Char.isAlphanum])]
    simp only [Option.bind_eq_bind, Option.bind_some, hpoint, hmore, String.ofList_toList]
    rfl

theorem length_le_dotted (name : String) (path : List String) :
    path.length ≤ (dotted (name :: path)).length := by
  induction path generalizing name with
  | nil => exact Nat.zero_le _
  | cons next path ih =>
    have hnext := ih next
    rw [dotted_cons_cons, List.length_append, List.length_cons, List.length_cons]
    omega

/-- **A key is read back** unless it has too many parts. -/
theorem key?_dotted {after : List Char} {name : String} {path : List String}
    (hbare : ∀ c ∈ rest.head?, isBareChar c = false) (hafter : skipSpace rest = after)
    (hdot : ∀ c ∈ after.head?, c ≠ '.') (htext : skipSpace text = dotted (name :: path) ++ rest) :
    key? text = if (name :: path).length ≤ maxDepth then some (name :: path, after) else none := by
  have hlength : path.length < text.length + 1 := by
    have hskip := (List.dropWhile_sublist (p := isSpace) (l := text)).length_le
    have hdotted := length_le_dotted name path
    rw [← skipSpace, htext, List.length_append] at hskip
    omega
  rw [key?, keyParts?_dotted hbare hafter hdot path name text _ hlength htext, Option.filter_some]
  simp

/-! ## Tables under construction

What comes under a name that is not there yet stands last in its table
(`change_of_lacks`), and is found again through the header that leads to it
(`Holds`).
-/

variable {name : String} {before : Fields}

/-! ## Entries at the end -/

/-- Nothing stands under a name yet. -/
def Lacks (name : String) (fields : Fields) : Prop :=
  ∀ entry ∈ fields, entry.1 ≠ name

theorem Lacks.concat (h : Lacks name before) {other : String} (hother : other ≠ name)
    (node : Node) :
    Lacks name (before ++ [(other, node)]) :=
  List.forall_mem_append.2 ⟨h, List.forall_mem_singleton.2 hother⟩

theorem change_of_lacks (h : Lacks name before) (f : Option Node → Option Node) :
    before.change name f = (f none).map fun node => before ++ [(name, node)] := by
  induction before with
  | nil => rfl
  | cons entry before ih =>
    obtain ⟨other, node⟩ := entry
    obtain ⟨hentry, hbefore⟩ := List.forall_mem_cons.1 h
    rw [Fields.change, if_neg hentry, ih hbefore, Option.map_map]
    rfl

theorem change_last (h : Lacks name before) (node : Node) (f : Option Node → Option Node) :
    Fields.change name f (before ++ [(name, node)]) =
      (f (some node)).map fun node => before ++ [(name, node)] := by
  induction before with
  | nil => rw [List.nil_append, Fields.change, if_pos rfl]; rfl
  | cons entry before ih =>
    obtain ⟨other, old⟩ := entry
    obtain ⟨hentry, hbefore⟩ := List.forall_mem_cons.1 h
    rw [List.cons_append, Fields.change, if_neg hentry, ih hbefore, Option.map_map]
    rfl

theorem put_of_lacks (h : Lacks name before) (v : Json) :
    before.put v false false [name] = some (before ++ [(name, .value v)]) := by
  rw [Fields.put, if_pos (beq_self_eq_true false), change_of_lacks h]
  rfl

/-- What holds the fields of a table whose name stands last: its header's path leads
into them. -/
def Holds (name : String) (hold : Fields → Fields) : Prop :=
  ∀ f path inner, Fields.inside f (name :: path) (hold inner) = (inner.inside f path).map hold

theorem holds_table (h : Lacks name before) (origin : Origin) :
    Holds name fun inner => before ++ [(name, .table origin inner)] := by
  intro f path inner
  rw [Fields.inside, change_last h, Option.map_map]
  rfl

theorem holds_tables (h : Lacks name before) (closed : List Json) :
    Holds name fun last => before ++ [(name, .tables closed last)] := by
  intro f path inner
  rw [Fields.inside, change_last h, Option.map_map]
  rfl

/-- A path that leads through a name that is not there makes a table on the way. -/
theorem inside_of_lacks (h : Lacks name before) (f : Fields → Option Fields)
    (path : List String) :
    before.inside f (name :: path) =
      (Fields.inside f path []).map fun inner => before ++ [(name, .table .implied inner)] := by
  rw [Fields.inside, change_of_lacks h, Option.map_map]
  rfl

/-! ## Finished entries -/

/-- A finished field. -/
def finished (field : String × Json) : String × Node :=
  (field.1, .value field.2)

theorem finishFields_finished (fields : List (String × Json)) :
    finishFields (fields.map finished) = fields := by
  induction fields with
  | nil => rfl
  | cons field fields ih => rw [List.map_cons, finished, finishFields, ih]; rfl

theorem finishFields_append (first second : Fields) :
    finishFields (first ++ second) = finishFields first ++ finishFields second := by
  induction first with
  | nil => rfl
  | cons entry first ih =>
    obtain ⟨name, node⟩ := entry
    rw [List.cons_append, finishFields, finishFields, ih, List.cons_append]

end Docsmith.Toml

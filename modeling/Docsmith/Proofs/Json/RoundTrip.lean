import Docsmith.Proofs.Json.Parts
import Docsmith.Proofs.Json.Tokens
/-!
# JSON — values come back

A value is read back from its text, whatever white space stands between its parts
(`Json.Spacing`), with its numbers as they read and its objects in order
(`Json.reread`), if it nests no deeper than the reader goes; otherwise it is refused
(`parse?_writeWith`). Its lines (`parse?_pretty`) and the text without any space
(`parse?_compact`) are two such texts.
-/


namespace Docsmith.Json

open Decimal

variable {c : Char} {text rest : List Char} {depth : Nat}

/-! ## White space -/

theorem isSpace_of_isDigit (h : c.isDigit = true) : isSpace c = false := by
  rw [← Bool.not_eq_true]
  intro hspace
  simp only [isSpace, Bool.or_eq_true, beq_iff_eq] at hspace
  rcases hspace with ((rfl | rfl) | rfl) | rfl <;> cases h

theorem skipSpace_of_not (h : isSpace c = false) (text : List Char) :
    skipSpace (c :: text) = c :: text :=
  List.dropWhile_cons_of_neg (by simp [h])

theorem value?_congr {other : List Char} (h : skipSpace text = skipSpace other) (depth : Nat) :
    value? depth text = value? depth other := by
  cases depth <;> simp only [value?, h]

/-- White space only. -/
def IsBlank (text : List Char) : Prop :=
  ∀ c ∈ text, isSpace c = true

theorem IsBlank.skipSpace_append {blank : List Char} (h : IsBlank blank) (text : List Char) :
    skipSpace (blank ++ text) = skipSpace text :=
  List.dropWhile_append_of_pos h

theorem IsBlank.value?_append {blank : List Char} (h : IsBlank blank) (depth : Nat)
    (text : List Char) : value? depth (blank ++ text) = value? depth text :=
  value?_congr (h.skipSpace_append text) depth

/-! ## Values without parts -/

theorem value?_scalar (hspace : isSpace c = false) (harray : c ≠ '[') (hobject : c ≠ '\x7b')
    (depth : Nat) (text : List Char) : value? depth (c :: text) = scalar? (c :: text) := by
  cases depth with
  | zero => rw [value?, skipSpace_of_not hspace]
  | succ depth =>
    rw [value?, skipSpace_of_not hspace]
    split
    · next heq => exact absurd (List.cons.inj heq).1 harray
    · next heq => exact absurd (List.cons.inj heq).1 hobject
    · rfl

theorem value?_string (depth : Nat) (s : String) (rest : List Char) :
    value? depth (quote s ++ rest) = some (.string s, rest) := by
  have hbody := stringBody?_escape s.toList rest
  rw [quote, List.cons_append, List.cons_append, List.append_assoc, List.singleton_append,
    value?_scalar (by decide) (by decide) (by decide), scalar?, hbody, Option.map_some]
  dsimp only
  rw [String.ofList_toList]

theorem scalar?_digit (h : c.isDigit = true) (text : List Char) :
    scalar? (c :: text) =
      (magnitude? false (c :: text)).map fun (n, rest) => (.number n, rest) := by
  unfold scalar?
  split
  case h_6 => rfl
  all_goals
    next heq =>
      obtain ⟨rfl, -⟩ := List.cons.inj heq
      cases h

/-- A number starts with a digit or a minus. -/
theorem exists_number_head {result : Number × List Char} (h : number? text = some result) :
    ∃ c more, text = c :: more ∧ (c = '-' ∨ c.isDigit = true) := by
  cases text with
  | nil => cases h
  | cons c more =>
    refine ⟨c, more, rfl, ?_⟩
    by_cases hminus : c = '-'
    · exact .inl hminus
    · rw [number?_of_ne hminus] at h
      exact .inr (isDigit_of_magnitude? h)

theorem value?_number {n : Number} (h : number? text = some (n, rest)) (depth : Nat) :
    value? depth text = some (.number n, rest) := by
  obtain ⟨c, more, rfl, hc⟩ := exists_number_head h
  rcases hc with rfl | hdigit
  · have hmagnitude : magnitude? true more = some (n, rest) := h
    rw [value?_scalar (by decide) (by decide) (by decide), scalar?, hmagnitude, Option.map_some]
  · have hne : ∀ d, d.isDigit = false → c ≠ d := by
      rintro d hd rfl
      rw [hdigit] at hd
      cases hd
    rw [number?_of_ne (hne _ rfl)] at h
    rw [value?_scalar (isSpace_of_isDigit hdigit) (hne _ rfl) (hne _ rfl), scalar?_digit hdigit, h,
      Option.map_some]

theorem value?_null (depth : Nat) (rest : List Char) :
    value? depth ("null".toList ++ rest) = some (.null, rest) :=
  value?_scalar (by decide) (by decide) (by decide) depth _

theorem value?_bool (depth : Nat) (b : Bool) (rest : List Char) :
    value? depth ((if b then "true" else "false").toList ++ rest) = some (.bool b, rest) := by
  cases b <;> exact value?_scalar (by decide) (by decide) (by decide) depth _

/-! ## Arrays and objects -/

section Members

variable {α β : Type} {closing : Char} {member : List Char → Option (α × List Char)}
  {first : α} {more : List Char}

theorem members?_none (h : member text = none) (fuel : Nat) :
    members? closing member (fuel + 1) text = none := by
  rw [members?, h]
  rfl

theorem members?_more (h : member text = some (first, rest)) (hrest : skipSpace rest = ',' :: more)
    (fuel : Nat) :
    members? closing member (fuel + 1) text =
      (members? closing member fuel more).map fun (others, rest) => (first :: others, rest) := by
  rw [members?, h]
  simp only [Option.bind_eq_bind, Option.bind_some, hrest]
  cases members? closing member fuel more <;> rfl

theorem members?_last (h : member text = some (first, rest)) (hne : closing ≠ ',')
    (hrest : skipSpace rest = closing :: more) (fuel : Nat) :
    members? closing member (fuel + 1) text = some ([first], more) := by
  rw [members?, h]
  simp only [Option.bind_eq_bind, Option.bind_some, hrest, if_true]

theorem endsNumber_cons (h : c ∉ ['.', 'e', 'E', '+', '-']) (hdigit : c.isDigit = false)
    (text : List Char) : EndsNumber (c :: text) := by
  intro d hd
  obtain rfl : c = d := by simpa using hd
  simp only [List.mem_cons, List.not_mem_nil, or_false, not_or] at h
  exact ⟨hdigit, h⟩

/-- The text of the members after the first. -/
def afterFirst (write : β → List Char) (others : List β) : List Char :=
  others.flatMap fun other => ',' :: write other

theorem endsNumber_afterFirst {close : List Char} (h : EndsNumber close) (write : β → List Char)
    (others : List β) : EndsNumber (afterFirst write others ++ close) := by
  cases others with
  | nil => exact h
  | cons other others => exact endsNumber_cons (by decide) (by decide) _

/-- **Members are read back where each is**, by induction on those after the
first. -/
theorem members?_write {write : β → List Char} {read : β → Option α} {close : List Char}
    (hcomma : closing ≠ ',') (hclose : skipSpace close = closing :: rest)
    (hends : EndsNumber close) (others : List β) :
    ∀ first fuel, others.length < fuel →
      (∀ x ∈ first :: others, ∀ rest, EndsNumber rest →
        member (write x ++ rest) = (read x).map (·, rest)) →
      members? closing member fuel (write first ++ (afterFirst write others ++ close)) =
        ((first :: others).mapM read).map (·, rest) := by
  induction others with
  | nil =>
    intro first fuel hfuel h
    obtain ⟨fuel, rfl⟩ := Nat.exists_eq_add_of_lt hfuel
    have hfirst := h first List.mem_cons_self _ (endsNumber_afterFirst hends write [])
    cases hread : read first with
    | none =>
      rw [hread] at hfirst
      simp [members?_none hfirst, hread]
    | some y =>
      rw [hread] at hfirst
      simp [members?_last hfirst hcomma hclose, hread]
  | cons next others ih =>
    intro first fuel hfuel h
    obtain ⟨fuel, rfl⟩ := Nat.exists_eq_add_of_lt hfuel
    obtain ⟨hhead, htail⟩ := List.forall_mem_cons.1 h
    have hfirst := hhead _ (endsNumber_afterFirst hends write (next :: others))
    have hmore := ih next ((next :: others).length + fuel) (by simp; omega) htail
    have hskip : skipSpace (afterFirst write (next :: others) ++ close) =
        ',' :: (write next ++ (afterFirst write others ++ close)) := by
      rw [afterFirst, List.flatMap_cons, List.cons_append, List.cons_append, List.append_assoc]
      exact skipSpace_of_not rfl _
    cases hread : read first with
    | none =>
      rw [hread] at hfirst
      simp [members?_none hfirst, hread]
    | some y =>
      rw [hread] at hfirst
      rw [members?_more hfirst hskip, hmore, List.mapM_cons (a := first), hread]
      cases (next :: others).mapM read <;> rfl

end Members

/-! ## Layouts -/

/-- The white space of a text: in front of the members of an array or an object, by the
arrays and objects around them, and in front of a field's value. -/
structure Spacing where
  gap : Nat → List Char
  colon : List Char
  isBlank_gap : ∀ level, IsBlank (gap level)
  isBlank_colon : IsBlank colon

/-- A line for each member. -/
def Spacing.lines : Spacing where
  gap := newLine
  colon := [' ']
  isBlank_gap := by
    intro level c hc
    rcases List.mem_cons.1 hc with rfl | hc
    · rfl
    · rw [List.eq_of_mem_replicate hc]
      rfl
  isBlank_colon := List.forall_mem_singleton.2 rfl

/-- No white space at all. -/
def Spacing.none : Spacing where
  gap := fun _ => []
  colon := []
  isBlank_gap := fun _ => List.forall_mem_nil _
  isBlank_colon := List.forall_mem_nil _

mutual

/-- The text of a value inside `level` others. -/
def writeWith (s : Spacing) (level : Nat) : Json → List Char
  | .array (item :: items) =>
    '[' :: s.gap (level + 1) ++ writeWith s (level + 1) item ++
      writeItemsWith s (level + 1) items ++ s.gap level ++ [']']
  | .object ((name, value) :: fields) =>
    '\x7b' :: s.gap (level + 1) ++ quote name ++ ':' :: s.colon ++ writeWith s (level + 1) value ++
      writeFieldsWith s (level + 1) fields ++ s.gap level ++ ['\x7d']
  | .array [] => ['[', ']']
  | .object [] => ['\x7b', '\x7d']
  | .null => "null".toList
  | .bool b => (if b then "true" else "false").toList
  | .number n => n.write
  | .string s => quote s

/-- The items after the first. -/
def writeItemsWith (s : Spacing) (level : Nat) : List Json → List Char
  | [] => []
  | item :: items => ',' :: s.gap level ++ writeWith s level item ++ writeItemsWith s level items

/-- The fields after the first. -/
def writeFieldsWith (s : Spacing) (level : Nat) : List (String × Json) → List Char
  | [] => []
  | (name, value) :: fields =>
    ',' :: s.gap level ++ quote name ++ ':' :: s.colon ++ writeWith s level value ++
      writeFieldsWith s level fields

end

/-- An item with the space in front of it. -/
def itemWith (s : Spacing) (level : Nat) (item : Json) : List Char :=
  s.gap level ++ writeWith s level item

/-- A field with the space in front of it. -/
def fieldWith (s : Spacing) (level : Nat) (field : String × Json) : List Char :=
  s.gap level ++ (quote field.1 ++ ':' :: (s.colon ++ writeWith s level field.2))

theorem writeItemsWith_eq (s : Spacing) (level : Nat) (items : List Json) :
    writeItemsWith s level items = afterFirst (itemWith s level) items := by
  induction items with
  | nil => rfl
  | cons item items ih =>
    rw [writeItemsWith, ih, afterFirst, afterFirst, List.flatMap_cons]
    rfl

theorem writeFieldsWith_eq (s : Spacing) (level : Nat) (fields : List (String × Json)) :
    writeFieldsWith s level fields = afterFirst (fieldWith s level) fields := by
  induction fields with
  | nil => rfl
  | cons field fields ih =>
    rw [writeFieldsWith, ih, afterFirst, afterFirst, List.flatMap_cons, fieldWith]
    simp only [List.cons_append, List.append_assoc]

mutual

theorem writeWith_lines (level : Nat) : ∀ v, writeWith .lines level v = writeAt level v
  | .array (item :: items) => by
    rw [writeWith, writeAt, writeWith_lines, writeItemsWith_lines]
    rfl
  | .object ((name, value) :: fields) => by
    rw [writeWith, writeAt, writeWith_lines, writeFieldsWith_lines]
    simp only [Spacing.lines, List.cons_append, List.nil_append, List.append_assoc]
  | .array [] => rfl
  | .object [] => rfl
  | .null => rfl
  | .bool _ => rfl
  | .number _ => rfl
  | .string _ => rfl

theorem writeItemsWith_lines (level : Nat) :
    ∀ items, writeItemsWith .lines level items = writeItemsAt level items
  | [] => rfl
  | item :: items => by
    rw [writeItemsWith, writeItemsAt, writeWith_lines, writeItemsWith_lines]
    rfl

theorem writeFieldsWith_lines (level : Nat) :
    ∀ fields, writeFieldsWith .lines level fields = writeFieldsAt level fields
  | [] => rfl
  | (name, value) :: fields => by
    rw [writeFieldsWith, writeFieldsAt, writeWith_lines, writeFieldsWith_lines]
    simp only [Spacing.lines, List.cons_append, List.nil_append, List.append_assoc]

end

mutual

theorem writeWith_none (level : Nat) : ∀ v, writeWith .none level v = write v
  | .array (item :: items) => by
    rw [writeWith, write, writeWith_none, writeItemsWith_none]
    simp only [Spacing.none, List.append_nil, List.cons_append, List.nil_append]
  | .object ((name, value) :: fields) => by
    rw [writeWith, write, writeWith_none, writeFieldsWith_none]
    simp only [Spacing.none, List.append_nil, List.cons_append, List.nil_append,
      List.append_assoc]
  | .array [] => rfl
  | .object [] => rfl
  | .null => rfl
  | .bool _ => rfl
  | .number _ => rfl
  | .string _ => rfl

theorem writeItemsWith_none (level : Nat) :
    ∀ items, writeItemsWith .none level items = writeItems items
  | [] => rfl
  | item :: items => by
    rw [writeItemsWith, writeItems, writeWith_none, writeItemsWith_none]
    rfl

theorem writeFieldsWith_none (level : Nat) :
    ∀ fields, writeFieldsWith .none level fields = writeFields fields
  | [] => rfl
  | (name, value) :: fields => by
    rw [writeFieldsWith, writeFields, writeWith_none, writeFieldsWith_none]
    simp only [Spacing.none, List.cons_append, List.nil_append, List.append_assoc]

end

/-! ## All values -/

theorem IsBlank.endsNumber_append {blank : List Char} (h : IsBlank blank)
    (hends : EndsNumber text) : EndsNumber (blank ++ text) := by
  cases blank with
  | nil => exact hends
  | cons c blank =>
    have hspace : isSpace c = true := h c List.mem_cons_self
    simp only [isSpace, Bool.or_eq_true, beq_iff_eq] at hspace
    rcases hspace with ((rfl | rfl) | rfl) | rfl <;> exact endsNumber_cons (by decide) (by decide) _

/-- The numbers of a value are read back as `num` says. -/
def NumbersRead (num : Number → Number) (v : Json) : Prop :=
  ∀ n ∈ numbers v, number? n.write = some (num n, [])

/-- A value does not start with white space or a closing bracket. -/
theorem exists_writeWith_head {num : Number → Number} {v : Json} (h : NumbersRead num v)
    (s : Spacing) (level : Nat) :
    ∃ c more, writeWith s level v = c :: more ∧ isSpace c = false ∧ c ≠ ']' := by
  cases v with
  | null => exact ⟨_, _, rfl, rfl, by decide⟩
  | bool b => cases b <;> exact ⟨_, _, rfl, rfl, by decide⟩
  | string s => exact ⟨_, _, rfl, rfl, by decide⟩
  | array items => cases items <;> exact ⟨_, _, rfl, rfl, by decide⟩
  | object fields => cases fields <;> exact ⟨_, _, rfl, rfl, by decide⟩
  | number n =>
    obtain ⟨c, more, htext, rfl | hdigit⟩ := exists_number_head (h n (List.mem_singleton_self n))
    · exact ⟨_, _, htext, rfl, by decide⟩
    · refine ⟨c, more, htext, isSpace_of_isDigit hdigit, ?_⟩
      rintro rfl
      cases hdigit

/-- A field is read up to its value. -/
theorem field?_quote (value : List Char → Option (Json × List Char)) {blank : List Char}
    (h : IsBlank blank) (name : String) (text : List Char) :
    field? value (blank ++ (quote name ++ ':' :: text)) =
      (value text).map fun (item, rest) => ((name, item), rest) := by
  have hbody := stringBody?_escape name.toList (':' :: text)
  rw [field?, h.skipSpace_append, quote, List.cons_append, List.cons_append, List.append_assoc,
    List.singleton_append, skipSpace_of_not (by decide)]
  simp only [hbody, Option.bind_eq_bind, Option.bind_some, skipSpace_of_not (c := ':') rfl,
    String.ofList_toList]
  cases value text <;> rfl

theorem value?_openArray (depth : Nat) (text : List Char) :
    value? (depth + 1) ('[' :: text) = array? (value? depth) text := by
  rw [value?, skipSpace_of_not rfl]
  rfl

theorem value?_openObject (depth : Nat) (text : List Char) :
    value? (depth + 1) ('\x7b' :: text) = object? (value? depth) text := by
  rw [value?, skipSpace_of_not rfl]
  rfl

theorem array?_append (value : List Char → Option (Json × List Char)) {blank more : List Char}
    (h : IsBlank blank) (htext : text = c :: more) (hspace : isSpace c = false)
    (hclosing : c ≠ ']') :
    array? value (blank ++ text) =
      (members? ']' value ((blank ++ text).length + 1) (blank ++ text)).map
        fun (items, rest) => (.array items, rest) := by
  subst htext
  rw [array?, h.skipSpace_append, skipSpace_of_not hspace]
  split
  · next heq => exact absurd (List.cons.inj heq).1 hclosing
  · rfl

theorem object?_append (value : List Char → Option (Json × List Char)) {blank : List Char}
    (h : IsBlank blank) (name : String) (text : List Char) :
    object? value (blank ++ (quote name ++ text)) =
      (members? '\x7d' (field? value) ((blank ++ (quote name ++ text)).length + 1)
        (blank ++ (quote name ++ text))).map
        fun (fields, rest) => (ofFields fields, rest) := by
  rw [object?, h.skipSpace_append, quote, List.cons_append, List.cons_append, skipSpace_of_not rfl]
  rfl

/-- A value is read back from its text, unless it nests too deep. -/
def Returns (num : Number → Number) (s : Spacing) (v : Json) : Prop :=
  ∀ depth level rest, EndsNumber rest →
    value? depth (writeWith s level v ++ rest) = (readWithin? num depth v).map (·, rest)

theorem length_le_afterFirst {α : Type} (write : α → List Char) (others : List α) :
    others.length ≤ (afterFirst write others).length := by
  induction others with
  | nil => exact Nat.le_refl 0
  | cons other others ih =>
    rw [afterFirst, List.flatMap_cons, ← afterFirst, List.length_append, List.length_cons,
      List.length_cons]
    omega

/-- The closing of a value with the space in front of it. -/
theorem endsNumber_gap (s : Spacing) (level : Nat) {close : Char}
    (h : close ∉ ['.', 'e', 'E', '+', '-']) (hdigit : close.isDigit = false) (rest : List Char) :
    EndsNumber (s.gap level ++ close :: rest) :=
  (s.isBlank_gap level).endsNumber_append (endsNumber_cons h hdigit rest)

theorem skipSpace_gap (s : Spacing) (level : Nat) {close : Char} (h : isSpace close = false)
    (rest : List Char) : skipSpace (s.gap level ++ close :: rest) = close :: rest := by
  rw [(s.isBlank_gap level).skipSpace_append, skipSpace_of_not h]

theorem returns_array {num : Number → Number} {s : Spacing} {items : List Json}
    (hnumbers : NumbersRead num (.array items)) (h : ∀ item ∈ items, Returns num s item) :
    Returns num s (.array items) := by
  intro depth level rest hrest
  cases items with
  | nil => cases depth <;> rfl
  | cons item items =>
    cases depth with
    | zero => rfl
    | succ depth =>
      have hitem : NumbersRead num item := fun n hn => hnumbers n (List.mem_append_left _ hn)
      obtain ⟨c, more, hhead, hspace, hclosing⟩ := exists_writeWith_head hitem s (level + 1)
      have htext : writeWith s level (.array (item :: items)) ++ rest =
          '[' :: (s.gap (level + 1) ++ (writeWith s (level + 1) item ++
            (afterFirst (itemWith s (level + 1)) items ++ (s.gap level ++ ']' :: rest)))) := by
        rw [writeWith, writeItemsWith_eq]
        simp only [List.cons_append, List.append_assoc, List.nil_append]
      have hread : ∀ other ∈ item :: items, ∀ rest, EndsNumber rest →
          value? depth (itemWith s (level + 1) other ++ rest) =
            (readWithin? num depth other).map (·, rest) := by
        intro other hother rest hrest
        rw [itemWith, List.append_assoc, (s.isBlank_gap _).value?_append]
        exact h other hother depth (level + 1) rest hrest
      have hclose : skipSpace (s.gap level ++ ']' :: rest) = ']' :: rest :=
        skipSpace_gap s level rfl rest
      have hends : EndsNumber (s.gap level ++ ']' :: rest) :=
        endsNumber_gap s level (by decide) rfl rest
      have hmembers := fun fuel hfuel =>
        members?_write (by decide) hclose hends items item fuel hfuel hread
      have hlength := length_le_afterFirst (itemWith s (level + 1)) items
      simp only [itemWith, List.append_assoc] at hmembers
      have hhead := congrArg (· ++ (afterFirst (itemWith s (level + 1)) items ++
        (s.gap level ++ ']' :: rest))) hhead
      rw [htext, value?_openArray, array?_append _ (s.isBlank_gap _) hhead hspace hclosing,
        hmembers, readWithin?_array, Option.map_map, Option.map_map]
      · rfl
      · simp only [List.length_append]
        omega

theorem returns_object {num : Number → Number} {s : Spacing} {fields : List (String × Json)}
    (h : ∀ field ∈ fields, Returns num s field.2) : Returns num s (.object fields) := by
  intro depth level rest hrest
  cases fields with
  | nil => cases depth <;> rfl
  | cons field fields =>
    cases depth with
    | zero => rfl
    | succ depth =>
      have htext : writeWith s level (.object (field :: fields)) ++ rest =
          '\x7b' :: (s.gap (level + 1) ++ (quote field.1 ++ ':' :: (s.colon ++
            (writeWith s (level + 1) field.2 ++ (afterFirst (fieldWith s (level + 1)) fields ++
              (s.gap level ++ '\x7d' :: rest)))))) := by
        rw [writeWith, writeFieldsWith_eq]
        simp only [List.cons_append, List.append_assoc, List.nil_append]
      have hread : ∀ other ∈ field :: fields, ∀ rest, EndsNumber rest →
          field? (value? depth) (fieldWith s (level + 1) other ++ rest) =
            (fieldWithin? num depth other).map (·, rest) := by
        intro other hother rest hrest
        have hvalue := h other hother depth (level + 1) rest hrest
        simp only [fieldWith, List.append_assoc, List.cons_append]
        rw [field?_quote _ (s.isBlank_gap _), s.isBlank_colon.value?_append, hvalue, fieldWithin?,
          Option.map_map, Option.map_map]
        rfl
      have hclose : skipSpace (s.gap level ++ '\x7d' :: rest) = '\x7d' :: rest :=
        skipSpace_gap s level rfl rest
      have hends : EndsNumber (s.gap level ++ '\x7d' :: rest) :=
        endsNumber_gap s level (by decide) rfl rest
      have hmembers := fun fuel hfuel =>
        members?_write (by decide) hclose hends fields field fuel hfuel hread
      have hlength := length_le_afterFirst (fieldWith s (level + 1)) fields
      simp only [fieldWith, List.append_assoc, List.cons_append] at hmembers
      rw [htext, value?_openObject, object?_append _ (s.isBlank_gap _), hmembers,
        readWithin?_object, Option.map_map, Option.map_map]
      · rfl
      · simp only [List.length_append, List.length_cons]
        omega

/-- **A value is read back from its text** unless it nests too deep, by
induction on its parts. -/
theorem returns {num : Number → Number} {v : Json} (h : NumbersRead num v) (s : Spacing) :
    Returns num s v := by
  induction v using parts_induction with
  | null => exact fun depth level rest _ => value?_null depth rest
  | bool b => exact fun depth level rest _ => value?_bool depth b rest
  | string text => exact fun depth level rest _ => value?_string depth text rest
  | number n =>
    intro depth level rest hrest
    refine value?_number ?_ depth
    rw [writeWith, number?_append hrest, h n (List.mem_singleton_self n)]
    rfl
  | array items ih =>
    refine returns_array h fun item hitem => ih item hitem fun n hn => h n ?_
    rw [numbers, itemNumbers_eq]
    exact List.mem_flatMap_of_mem hitem hn
  | object fields ih =>
    refine returns_object fun field hfield => ih field hfield fun n hn => h n ?_
    rw [numbers, fieldNumbers_eq]
    exact List.mem_flatMap_of_mem hfield hn

/-- **The text of a value is read back** exactly if the value nests no deeper than the
reader goes. -/
theorem parse?_writeWith {num : Number → Number} {v : Json} (h : NumbersRead num v) (s : Spacing) :
    parse? (String.ofList (writeWith s 0 v)) =
      if nesting v ≤ maxDepth then some (reread num v) else none := by
  have hvalue := returns h s maxDepth 0 [] (by simp [EndsNumber])
  rw [List.append_nil] at hvalue
  rw [parse?, String.toList_ofList, hvalue, readWithin?]
  split_ifs <;> rfl

theorem parse?_pretty {num : Number → Number} {v : Json} (h : NumbersRead num v) :
    parse? (pretty v) = if nesting v ≤ maxDepth then some (reread num v) else none := by
  rw [pretty, ← writeWith_lines]
  exact parse?_writeWith h .lines

theorem parse?_compact {num : Number → Number} {v : Json} (h : NumbersRead num v) :
    parse? (compact v) = if nesting v ≤ maxDepth then some (reread num v) else none := by
  rw [compact, ← writeWith_none 0]
  exact parse?_writeWith h .none

end Docsmith.Json

import Docsmith.Proofs.Json.Parts
import Docsmith.Proofs.Text.Lines
import Docsmith.Proofs.Toml.Keys
/-!
# TOML — values come back

A value on the line of its key is read back (`value?_valueText`), if it nests no
deeper than the reader goes: arrays over lines, tables in braces, and everything
without parts.
-/


namespace Docsmith.Toml

open Json (Number reread readWithin? fieldWithin? EveryObject)

variable {c : Char} {text rest : List Char} {num : Number → Number} {depth : Nat}

/-- The numbers of a value are read back as `num` says. -/
def NumbersRead (num : Number → Number) (v : Json) : Prop :=
  ∀ n ∈ v.numbers, IsNumeral (numberText n) ∧ Number.read? (numberText n) = some (num n)

/-! ## White space -/

/-- A value starts with no white space, comment or closing bracket. -/
def StartsValue (text : List Char) : Prop :=
  ∃ c more, text = c :: more ∧ c ∉ [' ', '\t', '\n', '#', ']']

theorem skipSpace_of_startsValue (h : StartsValue text) : skipSpace text = text := by
  obtain ⟨c, more, rfl, hc⟩ := h
  refine List.dropWhile_cons_of_neg ?_
  simp only [isSpace, Bool.or_eq_true, beq_iff_eq]
  rintro (rfl | rfl) <;> exact hc (by decide)

theorem skipComment_of_ne (h : c ≠ '#') (text : List Char) :
    skipComment (c :: text) = c :: text := by
  unfold skipComment
  split
  · next heq => exact absurd (List.cons.inj heq).1 h
  · rfl

theorem skipGap_of_ne (fuel : Nat) (hcomment : c ≠ '#') (hbreak : c ≠ '\n')
    (h : skipSpace text = c :: rest) : skipGap (fuel + 1) text = c :: rest := by
  rw [skipGap, h, skipComment_of_ne hcomment]
  split
  · next heq => exact absurd (List.cons.inj heq).1 hbreak
  · rfl

theorem skipLines_of_ne (hcomment : c ≠ '#') (hbreak : c ≠ '\n') (hspace : isSpace c = false)
    (text : List Char) : skipLines (c :: text) = c :: text :=
  skipGap_of_ne _ hcomment hbreak (List.dropWhile_cons_of_neg (by simp [hspace]))

theorem skipLines_of_startsValue (h : StartsValue text) : skipLines text = text := by
  have hskip := skipSpace_of_startsValue h
  obtain ⟨c, more, rfl, hc⟩ := h
  simp only [List.mem_cons, List.not_mem_nil, or_false, not_or] at hc
  exact skipGap_of_ne _ hc.2.2.2.1 hc.2.2.1 hskip

/-- A line break and the white space after it are dropped. -/
theorem skipLines_break (hcomment : c ≠ '#') (hbreak : c ≠ '\n')
    (h : skipSpace text = c :: rest) : skipLines ('\n' :: text) = c :: rest := by
  rw [skipLines, List.length_cons, skipGap]
  exact skipGap_of_ne _ hcomment hbreak h

theorem skipLines_indent (h : StartsValue text) : skipLines ("\n    ".toList ++ text) = text := by
  have hskip : skipSpace ("    ".toList ++ text) = text :=
    skipSpace_of_startsValue h
  obtain ⟨c, more, rfl, hc⟩ := h
  simp only [List.mem_cons, List.not_mem_nil, or_false, not_or] at hc
  exact skipLines_break hc.2.2.2.1 hc.2.2.1 hskip

/-! ## Arrays -/

section Items

variable {value : List Char → Option (Json × List Char)} {item : Json} {word more : List Char}

theorem items?_none (hskip : skipLines text = word) (hstart : StartsValue word)
    (h : value word = none) (fuel : Nat) : items? value (fuel + 1) text = none := by
  obtain ⟨c, tail, rfl, hc⟩ := hstart
  rw [items?, hskip]
  split
  · next heq => exact absurd (by simp [(List.cons.inj heq).1]) hc
  · rw [h]
    rfl

theorem items?_more (hskip : skipLines text = word) (hstart : StartsValue word)
    (h : value word = some (item, rest)) (hrest : skipLines rest = ',' :: more) (fuel : Nat) :
    items? value (fuel + 1) text =
      (items? value fuel more).map fun (items, rest) => (item :: items, rest) := by
  obtain ⟨c, tail, rfl, hc⟩ := hstart
  rw [items?, hskip]
  split
  · next heq => exact absurd (by simp [(List.cons.inj heq).1]) hc
  · simp only [h, Option.bind_eq_bind, Option.bind_some, hrest]
    cases items? value fuel more <;> rfl

theorem items?_last (hskip : skipLines text = word) (hstart : StartsValue word)
    (h : value word = some (item, rest)) (hrest : skipLines rest = ']' :: more) (fuel : Nat) :
    items? value (fuel + 1) text = some ([item], more) := by
  obtain ⟨c, tail, rfl, hc⟩ := hstart
  rw [items?, hskip]
  split
  · next heq => exact absurd (by simp [(List.cons.inj heq).1]) hc
  · simp only [h, Option.bind_eq_bind, Option.bind_some, hrest]
    rfl

theorem items?_closed (hskip : skipLines text = ']' :: rest) (fuel : Nat) :
    items? value (fuel + 1) text = some ([], rest) := by
  rw [items?, hskip]
  rfl

end Items

theorem endsValue_cons (h : c ∈ [' ', ',', ']', '\x7d', '\n']) (text : List Char) :
    EndsValue (c :: text) := by
  intro d hd
  obtain rfl : c = d := by simpa using hd
  exact h

theorem StartsValue.append (h : StartsValue text) (rest : List Char) :
    StartsValue (text ++ rest) := by
  obtain ⟨c, more, rfl, hc⟩ := h
  exact ⟨c, more ++ rest, rfl, hc⟩

/-- A value is read back from its text, unless it nests too deep. -/
structure Returns (num : Number → Number) (v : Json) : Prop where
  starts : StartsValue (valueText v)
  read : ∀ depth rest, EndsValue rest →
    value? depth (valueText v ++ rest) = (readWithin? num depth v).map (·, rest)

theorem itemTexts_eq (items : List Json) : itemTexts items = items.map valueText := by
  induction items with
  | nil => rfl
  | cons item items ih => rw [itemTexts, ih, List.map_cons]

theorem fieldTexts_eq (fields : List (String × Json)) :
    fieldTexts fields = fields.map fun field =>
      quoteKey field.1.toList ++ " = ".toList ++ valueText field.2 := by
  induction fields with
  | nil => rfl
  | cons field fields ih => rw [fieldTexts, ih, List.map_cons]

theorem itemLines_cons (item : List Char) (items : List (List Char)) :
    itemLines (item :: items) = "\n    ".toList ++ (item ++ ',' :: itemLines items) := by
  rw [itemLines, itemLines, List.flatMap_cons]
  simp only [List.append_assoc, List.cons_append, List.nil_append]

/-- Items on lines of their own are read back, by induction on them. -/
theorem items?_itemLines {items : List Json} (rest : List Char) :
    ∀ fuel, items.length < fuel → (∀ item ∈ items, Returns num item) →
      items? (value? depth) fuel (itemLines (items.map valueText) ++ ']' :: rest) =
        (items.mapM (readWithin? num depth)).map (·, rest) := by
  induction items with
  | nil =>
    intro fuel hfuel _
    obtain ⟨fuel, rfl⟩ := Nat.exists_eq_add_of_lt hfuel
    exact items?_closed (skipLines_break (by decide) (by decide) rfl) _
  | cons item items ih =>
    intro fuel hfuel h
    obtain ⟨fuel, rfl⟩ : ∃ fuel', fuel = fuel' + 1 := ⟨fuel - 1, by omega⟩
    obtain ⟨hitem, hitems⟩ := List.forall_mem_cons.1 h
    have hmore := ih fuel (by simpa using hfuel) hitems
    have hread := hitem.read depth (',' :: (itemLines (items.map valueText) ++ ']' :: rest))
      (endsValue_cons (by decide) _)
    have hstart := hitem.starts.append (',' :: (itemLines (items.map valueText) ++ ']' :: rest))
    have hskip : skipLines (itemLines ((item :: items).map valueText) ++ ']' :: rest) =
        valueText item ++ ',' :: (itemLines (items.map valueText) ++ ']' :: rest) := by
      rw [List.map_cons, itemLines_cons, List.append_assoc, List.append_assoc, List.cons_append]
      exact skipLines_indent hstart
    have hcomma : skipLines (',' :: (itemLines (items.map valueText) ++ ']' :: rest)) =
        ',' :: (itemLines (items.map valueText) ++ ']' :: rest) :=
      skipLines_of_ne (by decide) (by decide) rfl _
    rw [List.mapM_cons]
    cases hwithin : readWithin? num depth item with
    | none =>
      rw [hwithin] at hread
      rw [items?_none hskip hstart hread]
      rfl
    | some v =>
      rw [hwithin] at hread
      rw [items?_more hskip hstart hread hcomma, hmore]
      cases items.mapM (readWithin? num depth) <;> rfl

theorem items?_single {item : Json} (h : Returns num item) (rest : List Char) (fuel : Nat) :
    items? (value? depth) (fuel + 1) (valueText item ++ ']' :: rest) =
      ([item].mapM (readWithin? num depth)).map (·, rest) := by
  have hread := h.read depth (']' :: rest) (endsValue_cons (by decide) _)
  have hstart := h.starts.append (']' :: rest)
  have hclose : skipLines (']' :: rest) = ']' :: rest :=
    skipLines_of_ne (by decide) (by decide) rfl _
  rw [List.mapM_cons]
  cases hwithin : readWithin? num depth item with
  | none =>
    rw [hwithin] at hread
    rw [items?_none (skipLines_of_startsValue hstart) hstart hread]
    rfl
  | some v =>
    rw [hwithin] at hread
    rw [items?_last (skipLines_of_startsValue hstart) hstart hread hclose]
    rfl

theorem length_le_itemLines (items : List (List Char)) :
    items.length ≤ (itemLines items).length := by
  induction items with
  | nil => exact Nat.zero_le _
  | cons item items ih =>
    rw [itemLines_cons, List.length_append, List.length_append, List.length_cons, List.length_cons]
    omega

/-- The items of an array are read back in either layout. -/
theorem items?_bracketed {items : List Json} (h : ∀ item ∈ items, Returns num item) (depth : Nat)
    (rest : List Char) :
    ∃ body, bracketed (items.map valueText) ++ rest = '[' :: body ∧
      items? (value? depth) (body.length + 1) body =
        (items.mapM (readWithin? num depth)).map (·, rest) := by
  rcases items with - | ⟨item, - | ⟨next, items⟩⟩
  · exact ⟨']' :: rest, rfl, items?_closed (skipLines_of_ne (by decide) (by decide) rfl _) _⟩
  · refine ⟨valueText item ++ ']' :: rest, ?_, items?_single (h item List.mem_cons_self) rest _⟩
    simp [bracketed]
  · refine ⟨itemLines ((item :: next :: items).map valueText) ++ ']' :: rest, ?_, ?_⟩
    · simp [bracketed]
    · refine items?_itemLines rest _ ?_ h
      have hlength := length_le_itemLines ((item :: next :: items).map valueText)
      rw [List.length_map] at hlength
      rw [List.length_append]
      omega

theorem returns_array {items : List Json} (h : ∀ item ∈ items, Returns num item) :
    Returns num (.array items) := by
  have htext : valueText (.array items) = bracketed (items.map valueText) := by
    rw [valueText, itemTexts_eq]
  constructor
  · rw [htext]
    rcases items with - | ⟨item, - | ⟨next, items⟩⟩ <;> exact ⟨'[', _, rfl, by decide⟩
  intro depth rest hrest
  rw [htext]
  cases depth with
  | zero => rcases items with - | ⟨item, - | ⟨next, items⟩⟩ <;> rfl
  | succ depth =>
    obtain ⟨body, hbody, hitems⟩ := items?_bracketed h depth rest
    rw [hbody, value?, array?, hitems, Json.readWithin?_array, Option.map_map, Option.map_map]
    rfl

/-! ## Tables in braces -/

/-- A key, and its value as the reader of values takes it. -/
theorem pair?_quoteKey (value : List Char → Option (Json × List Char)) {name : String}
    {body : List Char} (hstart : StartsValue body)
    (htext : skipSpace text = quoteKey name.toList ++ (" = ".toList ++ body)) :
    pair? value text = (value body).map fun (v, rest) => ([name], v, rest) := by
  have hkey : key? text = some ([name], '=' :: ' ' :: body) := by
    rw [← dotted_singleton] at htext
    refine key?_dotted (fun c hc => ?_) rfl (fun c hc => ?_) htext
    · obtain rfl : ' ' = c := Option.some.inj hc
      rfl
    · obtain rfl : '=' = c := Option.some.inj hc
      decide
  have hskip : skipSpace (' ' :: body) = body := skipSpace_of_startsValue hstart
  rw [pair?, hkey]
  simp only [Option.bind_eq_bind, Option.bind_some, hskip]
  cases value body <;> rfl

section InlineFields

variable {value : List Char → Option (Json × List Char)} {name : String} {body more : List Char}
  {v : Json} {fields : Fields}

theorem inlineFields?_none (hstart : StartsValue body)
    (htext : skipSpace text = quoteKey name.toList ++ (" = ".toList ++ body))
    (h : value body = none) (fuel : Nat) (fields : Fields) :
    inlineFields? value (fuel + 1) fields text = none := by
  rw [inlineFields?, pair?_quoteKey value hstart htext, h]
  rfl

theorem inlineFields?_more (hstart : StartsValue body)
    (htext : skipSpace text = quoteKey name.toList ++ (" = ".toList ++ body))
    (h : value body = some (v, rest)) (hfresh : Lacks name fields)
    (hrest : skipSpace rest = ',' :: more) (fuel : Nat) :
    inlineFields? value (fuel + 1) fields text =
      inlineFields? value fuel (fields ++ [(name, .value v)]) more := by
  rw [inlineFields?, pair?_quoteKey value hstart htext, h]
  simp only [Option.map_some, Option.bind_eq_bind, Option.bind_some, put_of_lacks hfresh, hrest]

theorem inlineFields?_last (hstart : StartsValue body)
    (htext : skipSpace text = quoteKey name.toList ++ (" = ".toList ++ body))
    (h : value body = some (v, rest)) (hfresh : Lacks name fields)
    (hrest : skipSpace rest = '\x7d' :: more) (fuel : Nat) :
    inlineFields? value (fuel + 1) fields text = some (fields ++ [(name, .value v)], more) := by
  rw [inlineFields?, pair?_quoteKey value hstart htext, h]
  simp only [Option.map_some, Option.bind_eq_bind, Option.bind_some, put_of_lacks hfresh, hrest]
  rfl

end InlineFields

/-- A field in braces. -/
def fieldText (field : String × Json) : List Char :=
  quoteKey field.1.toList ++ (" = ".toList ++ valueText field.2)

/-- What stands behind the first field in braces. -/
def afterField (others : List (String × Json)) (rest : List Char) : List Char :=
  match others with
  | [] => ' ' :: '\x7d' :: rest
  | other :: others => ',' :: ' ' :: (fieldText other ++ afterField others rest)

theorem skipSpace_fieldText (field : String × Json) (text : List Char) :
    skipSpace (' ' :: (fieldText field ++ text)) =
      quoteKey field.1.toList ++ (" = ".toList ++ (valueText field.2 ++ text)) := by
  have hskip := skipSpace_dotted field.1 [] (" = ".toList ++ (valueText field.2 ++ text))
  rw [dotted_singleton] at hskip
  rw [fieldText, List.append_assoc, List.append_assoc]
  exact hskip

/-- Fields in braces are read back, by induction on those after the first. -/
theorem inlineFields?_write (depth : Nat) (rest : List Char) (others : List (String × Json)) :
    ∀ field fuel (before : Fields), others.length < fuel →
      (∀ f ∈ field :: others, Returns num f.2) →
      Ordered.HasDistinctKeys (field :: others) →
      (∀ f ∈ field :: others, Lacks f.1 before) →
      inlineFields? (value? depth) fuel before
          (' ' :: (fieldText field ++ afterField others rest)) =
        ((field :: others).mapM (fieldWithin? num depth)).map fun fields =>
          (before ++ fields.map finished, rest) := by
  induction others with
  | nil =>
    intro field fuel before hfuel h hdistinct hbefore
    obtain ⟨fuel, rfl⟩ := Nat.exists_eq_add_of_lt hfuel
    have hfield := h field List.mem_cons_self
    have hread := hfield.read depth (afterField [] rest) (endsValue_cons (by decide) _)
    have hstart := hfield.starts.append (afterField [] rest)
    have hfresh : Lacks field.1 before := hbefore field List.mem_cons_self
    have hclose : skipSpace (afterField [] rest) = '\x7d' :: rest := rfl
    rw [List.mapM_cons, fieldWithin?]
    cases hwithin : readWithin? num depth field.2 with
    | none =>
      rw [hwithin] at hread
      rw [inlineFields?_none hstart (skipSpace_fieldText _ _) hread]
      rfl
    | some v =>
      rw [hwithin] at hread
      rw [inlineFields?_last hstart (skipSpace_fieldText _ _) hread hfresh hclose]
      rfl
  | cons other others ih =>
    intro field fuel before hfuel h hdistinct hbefore
    obtain ⟨fuel, rfl⟩ : ∃ fuel', fuel = fuel' + 1 := ⟨fuel - 1, by omega⟩
    obtain ⟨hfield, hothers⟩ := List.forall_mem_cons.1 h
    obtain ⟨hhead, htail⟩ := List.pairwise_cons.1 hdistinct
    have hread := hfield.read depth (afterField (other :: others) rest)
      (endsValue_cons (by decide) _)
    have hstart := hfield.starts.append (afterField (other :: others) rest)
    have hfresh : Lacks field.1 before := hbefore field List.mem_cons_self
    have hcomma : skipSpace (afterField (other :: others) rest) =
        ',' :: ' ' :: (fieldText other ++ afterField others rest) := rfl
    rw [List.mapM_cons, fieldWithin?]
    cases hwithin : readWithin? num depth field.2 with
    | none =>
      rw [hwithin] at hread
      rw [inlineFields?_none hstart (skipSpace_fieldText _ _) hread]
      rfl
    | some v =>
      rw [hwithin] at hread
      have hmore := ih other fuel (before ++ [(field.1, .value v)]) (by simpa using hfuel) hothers
        htail ?_
      · rw [inlineFields?_more hstart (skipSpace_fieldText _ _) hread hfresh hcomma, hmore]
        simp only [Option.map_some, Option.bind_eq_bind, Option.bind_some, List.append_assoc]
        cases (other :: others).mapM (fieldWithin? num depth) <;> rfl
      · exact fun f hf => (hbefore f (List.mem_cons_of_mem field hf)).concat (hhead f hf) _

theorem join_fieldText (rest : List Char) (others : List (String × Json)) :
    ∀ field, Text.join [',', ' '] ((field :: others).map fieldText) ++ ' ' :: '\x7d' :: rest =
      fieldText field ++ afterField others rest := by
  induction others with
  | nil =>
    intro field
    rw [List.map_cons, List.map_nil, Text.join, List.intercalate_singleton, afterField]
  | cons other others ih =>
    intro field
    have hmore := ih other
    rw [Text.join, List.map_cons] at hmore
    rw [List.map_cons, List.map_cons, Text.join, List.intercalate_cons_cons, List.append_assoc,
      List.append_assoc, hmore, afterField]
    rfl

theorem inlineTable?_of_ne (value : List Char → Option (Json × List Char))
    (hskip : skipSpace text = c :: rest) (hc : c ≠ '\x7d') :
    inlineTable? value text =
      (inlineFields? value (text.length + 1) [] text).map fun (fields, rest) =>
        (Fields.finish fields, rest) := by
  rw [inlineTable?, hskip]
  split
  · next heq => exact absurd (List.cons.inj heq).1 hc
  · rfl

theorem length_le_afterField (others : List (String × Json)) (rest : List Char) :
    others.length ≤ (afterField others rest).length := by
  induction others with
  | nil => exact Nat.zero_le _
  | cons other others ih =>
    rw [afterField, List.length_cons, List.length_cons, List.length_cons, List.length_append]
    omega

theorem returns_object {fields : List (String × Json)} (hdistinct : Ordered.HasDistinctKeys fields)
    (h : ∀ field ∈ fields, Returns num field.2) : Returns num (.object fields) := by
  have htexts : fieldTexts fields = fields.map fieldText := by
    rw [fieldTexts_eq]
    simp only [List.append_assoc]
    rfl
  constructor
  · rw [valueText, htexts]
    cases fields <;> exact ⟨'\x7b', _, rfl, by decide⟩
  intro depth rest hrest
  rw [valueText, htexts]
  cases fields with
  | nil =>
    cases depth with
    | zero => rfl
    | succ depth => rfl
  | cons field fields =>
    have htext : braced ((field :: fields).map fieldText) ++ rest =
        '\x7b' :: ' ' :: (fieldText field ++ afterField fields rest) := by
      rw [← join_fieldText rest fields field]
      simp [braced]
    cases depth with
    | zero => rfl
    | succ depth =>
      obtain ⟨c, more, hkey, hc⟩ := exists_quoteKey_head field.1.toList
      have hskip := skipSpace_fieldText field (afterField fields rest)
      rw [hkey, List.cons_append] at hskip
      have hlength := length_le_afterField fields rest
      have hfields := fun fuel hfuel =>
        inlineFields?_write depth rest fields field fuel [] hfuel h hdistinct
          fun _ _ => List.forall_mem_nil _
      rw [htext, value?, inlineTable?_of_ne _ hskip (fun heq => ne_of_key_head hc (by simp [heq])),
        hfields, Json.readWithin?_object, Option.map_map, Option.map_map]
      · congr 1
        funext read
        simp only [Function.comp, List.nil_append, Fields.finish, finishFields_finished]
      · rw [List.length_cons, List.length_append]
        omega

/-! ## All values -/

theorem value?_scalar (harray : c ≠ '[') (htable : c ≠ '\x7b') (depth : Nat) (text : List Char) :
    value? depth (c :: text) = scalar? (c :: text) := by
  unfold value?
  split
  · next heq => exact absurd (List.cons.inj heq).1 harray
  · next heq => exact absurd (List.cons.inj heq).1 htable
  · next heq => exact absurd (List.cons.inj heq).1 harray
  · next heq => exact absurd (List.cons.inj heq).1 htable
  · rfl

theorem scalar?_word (hdouble : c ≠ '"') (hsingle : c ≠ '\'') (text : List Char) :
    scalar? (c :: text) = word? (c :: text) := by
  unfold scalar?
  split
  · next heq => exact absurd (List.cons.inj heq).1 hdouble
  · next heq => exact absurd (List.cons.inj heq).1 hsingle
  · rfl

theorem exists_quote_head (text : List Char) :
    ∃ c more, quote text = c :: more ∧ (c = '"' ∨ c = '\'') := by
  rw [quote]
  cases Form.ofText text with
  | basic => exact ⟨_, _, rfl, .inl rfl⟩
  | literal => exact ⟨_, _, rfl, .inr rfl⟩
  | basicLines => exact ⟨_, _, rfl, .inl rfl⟩
  | literalLines => exact ⟨_, _, rfl, .inr rfl⟩

theorem EndsValue.not_quote (h : EndsValue rest) : ∀ c ∈ rest.head?, c ≠ '"' ∧ c ≠ '\'' := by
  have hall : ∀ c ∈ [' ', ',', ']', '\x7d', '\n'], c ≠ '"' ∧ c ≠ '\'' :=
    List.all_iff_forall_prop.1 (by decide)
  exact fun c hc => hall c (h c hc)

theorem returns_string (s : String) : Returns num (.string s) := by
  obtain ⟨c, more, hhead, hc⟩ := exists_quote_head s.toList
  constructor
  · refine ⟨c, more, by rw [valueText, hhead], ?_⟩
    rcases hc with rfl | rfl <;> decide
  · intro depth rest hrest
    have hread := string?_quote s.toList hrest.not_quote
    rw [hhead, List.cons_append] at hread
    rw [valueText, hhead, List.cons_append]
    rcases hc with rfl | rfl
    all_goals
      rw [value?_scalar (by decide) (by decide), scalar?, hread, Option.map_some]
      dsimp only
      rw [String.ofList_toList]
      rfl

theorem returns_bool (b : Bool) : Returns num (.bool b) := by
  constructor
  · cases b <;> exact ⟨_, _, rfl, by decide⟩
  · intro depth rest hrest
    have hread := word?_bool b hrest
    have hscalar : value? depth (valueText (.bool b) ++ rest) =
        word? (valueText (.bool b) ++ rest) := by
      cases b <;> exact value?_scalar (by decide) (by decide) depth _
    rw [hscalar, valueText, hread]
    rfl

theorem returns_number {n : Number} (h : NumbersRead num (.number n)) :
    Returns num (.number n) := by
  obtain ⟨hnumeral, hread⟩ := h n (List.mem_singleton_self n)
  obtain ⟨c, hc, hstart⟩ := hnumeral.starts
  obtain ⟨more, hhead⟩ : ∃ more, numberText n = c :: more := List.head?_eq_some_iff.1 hc
  have hne : ∀ d, d ≠ '-' → d.isDigit = false → c ≠ d := by
    rintro d hminus hdigit rfl
    rcases hstart with rfl | hd
    · exact hminus rfl
    · rw [hdigit] at hd
      cases hd
  constructor
  · refine ⟨c, more, by rw [valueText, hhead], ?_⟩
    simp only [List.mem_cons, List.not_mem_nil, or_false, not_or]
    exact ⟨hne _ (by decide) rfl, hne _ (by decide) rfl, hne _ (by decide) rfl,
      hne _ (by decide) rfl, hne _ (by decide) rfl⟩
  · intro depth rest hrest
    have hword := word?_numeral hnumeral hrest
    rw [hread, Option.map_some, hhead, List.cons_append] at hword
    rw [valueText, hhead, List.cons_append,
      value?_scalar (hne _ (by decide) rfl) (hne _ (by decide) rfl),
      scalar?_word (hne _ (by decide) rfl) (hne _ (by decide) rfl), hword]
    rfl

theorem itemsHaveNull_eq (items : List Json) : itemsHaveNull items = items.any hasNull := by
  induction items with
  | nil => rfl
  | cons item items ih => rw [itemsHaveNull, ih, List.any_cons]

theorem fieldsHaveNull_eq (fields : List (String × Json)) :
    fieldsHaveNull fields = fields.any fun field => hasNull field.2 := by
  induction fields with
  | nil => rfl
  | cons field fields ih => rw [fieldsHaveNull, ih, List.any_cons]

/-- A value that TOML can hold: no `null`, and no name twice in a table. -/
structure IsPlain (v : Json) : Prop where
  noNull : hasNull v = false
  distinct : EveryObject Ordered.HasDistinctKeys v

@[simp] theorem isPlain_bool (b : Bool) : IsPlain (.bool b) := ⟨rfl, trivial⟩

@[simp] theorem isPlain_number (n : Number) : IsPlain (.number n) := ⟨rfl, trivial⟩

@[simp] theorem isPlain_string (s : String) : IsPlain (.string s) := ⟨rfl, trivial⟩

theorem isPlain_array {items : List Json} :
    IsPlain (.array items) ↔ ∀ item ∈ items, IsPlain item := by
  have hnull : hasNull (.array items) = false ↔ ∀ item ∈ items, hasNull item = false := by
    rw [hasNull, itemsHaveNull_eq, List.any_eq_false]
    simp only [Bool.not_eq_true]
  constructor
  · rintro ⟨hno, hdistinct⟩ item hitem
    exact ⟨hnull.1 hno item hitem, Json.everyItem_iff.1 hdistinct item hitem⟩
  · exact fun h => ⟨hnull.2 fun item hitem => (h item hitem).noNull,
      Json.everyItem_iff.2 fun item hitem => (h item hitem).distinct⟩

theorem isPlain_object {fields : List (String × Json)} :
    IsPlain (.object fields) ↔
      Ordered.HasDistinctKeys fields ∧ ∀ field ∈ fields, IsPlain field.2 := by
  have hnull : hasNull (.object fields) = false ↔ ∀ field ∈ fields, hasNull field.2 = false := by
    rw [hasNull, fieldsHaveNull_eq, List.any_eq_false]
    simp only [Bool.not_eq_true]
  constructor
  · rintro ⟨hno, hdistinct, hfields⟩
    exact ⟨hdistinct, fun field hfield =>
      ⟨hnull.1 hno field hfield, Json.everyField_iff.1 hfields field hfield⟩⟩
  · rintro ⟨hdistinct, hfields⟩
    exact ⟨hnull.2 fun field hfield => (hfields field hfield).noNull, hdistinct,
      Json.everyField_iff.2 fun field hfield => (hfields field hfield).distinct⟩

/-- A value that can be written and read: its numbers are read back as `num` says. -/
structure IsReadable (num : Number → Number) (v : Json) : Prop extends IsPlain v where
  numbers : NumbersRead num v

theorem IsReadable.item {items : List Json} (h : IsReadable num (.array items)) {item : Json}
    (hitem : item ∈ items) : IsReadable num item := by
  refine ⟨isPlain_array.1 h.toIsPlain item hitem, fun n hn => h.numbers n ?_⟩
  rw [Json.numbers, Json.itemNumbers_eq]
  exact List.mem_flatMap_of_mem hitem hn

theorem IsReadable.field {fields : List (String × Json)} (h : IsReadable num (.object fields))
    {field : String × Json} (hfield : field ∈ fields) : IsReadable num field.2 := by
  refine ⟨(isPlain_object.1 h.toIsPlain).2 field hfield, fun n hn => h.numbers n ?_⟩
  rw [Json.numbers, Json.fieldNumbers_eq]
  exact List.mem_flatMap_of_mem hfield hn

/-- **A value is read back from its text** unless it nests too deep, by induction
on its parts. -/
theorem returns {v : Json} (h : IsReadable num v) : Returns num v := by
  induction v using Json.parts_induction with
  | null => cases h.noNull
  | bool b => exact returns_bool b
  | string s => exact returns_string s
  | number n => exact returns_number h.numbers
  | array items ih => exact returns_array fun item hitem => ih item hitem (h.item hitem)
  | object fields ih =>
    exact returns_object h.distinct.1 fun field hfield => ih field hfield (h.field hfield)

/-! ## No carriage returns -/

theorem return_not_mem_bracketed {items : List (List Char)} (h : ∀ item ∈ items, '\r' ∉ item) :
    '\r' ∉ bracketed items := by
  have hlines : '\r' ∉ itemLines items := by
    simp only [itemLines, List.mem_append, List.mem_flatMap]
    rintro (⟨item, hitem, (hr | hr) | hr⟩ | hr)
    · exact absurd hr (by decide)
    · exact h item hitem hr
    · exact absurd hr (by decide)
    · exact absurd hr (by decide)
  unfold bracketed
  split
  · decide
  · simpa using h
  · simpa using hlines

theorem return_not_mem_braced {fields : List (List Char)} (h : ∀ field ∈ fields, '\r' ∉ field) :
    '\r' ∉ braced fields := by
  have hjoin : '\r' ∉ Text.join [',', ' '] fields := by
    intro hr
    rcases Text.mem_of_mem_join hr with hr | ⟨field, hfield, hr⟩
    · exact absurd hr (by decide)
    · exact h field hfield hr
  unfold braced
  split
  · decide
  · simpa using hjoin

/-- The text of a value has no carriage return. -/
theorem return_not_mem_valueText {v : Json} (h : IsReadable num v) : '\r' ∉ valueText v := by
  induction v using Json.parts_induction with
  | null => cases h.noNull
  | bool b => cases b <;> decide
  | string s => exact return_not_mem_quote s.toList
  | number n =>
    intro hr
    have hpart := List.all_eq_true.1 (h.numbers n (List.mem_singleton_self n)).1.parts _ hr
    cases hpart
  | array items ih =>
    rw [valueText, itemTexts_eq]
    refine return_not_mem_bracketed (List.forall_mem_map.2 fun item hitem => ?_)
    exact ih item hitem (h.item hitem)
  | object fields ih =>
    rw [valueText, fieldTexts_eq]
    refine return_not_mem_braced (List.forall_mem_map.2 fun field hfield => ?_)
    have hvalue := ih field hfield (h.field hfield)
    simp [return_not_mem_quoteKey, hvalue]

end Docsmith.Toml

import Docsmith.Json.Value
import Docsmith.Proofs.Ordered
/-!
# JSON — the parts of a value

The numbers in a value, how deep it nests, and what is left of it when it has
been written and read: other numbers perhaps, and its objects in order
(`Json.reread`). A value in order whose numbers stay is left as it was
(`reread_of_isAscending`).
-/


namespace Docsmith.Json

variable {depth : Nat}

mutual

/-- The numbers in a value. -/
def numbers : Json → List Number
  | .number n => [n]
  | .array items => itemNumbers items
  | .object fields => fieldNumbers fields
  | _ => []

/-- The numbers in some values. -/
def itemNumbers : List Json → List Number
  | [] => []
  | item :: items => numbers item ++ itemNumbers items

/-- The numbers in some fields. -/
def fieldNumbers : List (String × Json) → List Number
  | [] => []
  | (_, value) :: fields => numbers value ++ fieldNumbers fields

end

mutual

/-- How deep arrays and objects stand in each other. -/
def nesting : Json → Nat
  | .array items => itemNesting items + 1
  | .object fields => fieldNesting fields + 1
  | _ => 0

/-- The nesting of the deepest of some values. -/
def itemNesting : List Json → Nat
  | [] => 0
  | item :: items => max (nesting item) (itemNesting items)

/-- The nesting of the deepest of some fields. -/
def fieldNesting : List (String × Json) → Nat
  | [] => 0
  | (_, value) :: fields => max (nesting value) (fieldNesting fields)

end

mutual

/-- A value with other numbers and its objects in order. -/
def reread (num : Number → Number) : Json → Json
  | .number n => .number (num n)
  | .array items => .array (rereadItems num items)
  | .object fields => ofFields (rereadFields num fields)
  | value => value

/-- Some values with other numbers and their objects in order. -/
def rereadItems (num : Number → Number) : List Json → List Json
  | [] => []
  | item :: items => reread num item :: rereadItems num items

/-- Some fields with other numbers and their objects in order. -/
def rereadFields (num : Number → Number) : List (String × Json) → List (String × Json)
  | [] => []
  | (name, value) :: fields => (name, reread num value) :: rereadFields num fields

end

theorem itemNumbers_eq (items : List Json) : itemNumbers items = items.flatMap numbers := by
  induction items with
  | nil => rfl
  | cons item items ih => rw [itemNumbers, ih, List.flatMap_cons]

theorem fieldNumbers_eq (fields : List (String × Json)) :
    fieldNumbers fields = fields.flatMap fun field => numbers field.2 := by
  induction fields with
  | nil => rfl
  | cons field fields ih => rw [fieldNumbers, ih, List.flatMap_cons]

@[simp] theorem reread_null (num : Number → Number) : reread num .null = .null := rfl

@[simp] theorem reread_bool (num : Number → Number) (b : Bool) : reread num (.bool b) = .bool b :=
  rfl

@[simp] theorem reread_string (num : Number → Number) (s : String) :
    reread num (.string s) = .string s := rfl

theorem rereadItems_eq (num : Number → Number) (items : List Json) :
    rereadItems num items = items.map (reread num) := by
  induction items with
  | nil => rfl
  | cons item items ih => rw [rereadItems, ih, List.map_cons]

theorem rereadFields_eq (num : Number → Number) (fields : List (String × Json)) :
    rereadFields num fields = fields.map fun field => (field.1, reread num field.2) := by
  induction fields with
  | nil => rfl
  | cons field fields ih => rw [rereadFields, ih, List.map_cons]

/-- What holds of an array or an object where it holds of its parts, and of all
other values, holds of every value. -/
@[elab_as_elim]
theorem parts_induction {motive : Json → Prop} (null : motive .null) (bool : ∀ b, motive (.bool b))
    (number : ∀ n, motive (.number n)) (string : ∀ s, motive (.string s))
    (array : ∀ items, (∀ item ∈ items, motive item) → motive (.array items))
    (object : ∀ fields, (∀ field ∈ fields, motive field.2) → motive (.object fields)) (v : Json) :
    motive v :=
  @Json.rec motive (fun items => ∀ item ∈ items, motive item)
    (fun fields => ∀ field ∈ fields, motive field.2) (fun field => motive field.2)
    null bool number string array object
    (fun _ h => absurd h List.not_mem_nil)
    (fun _ _ head tail => List.forall_mem_cons.2 ⟨head, tail⟩)
    (fun _ h => absurd h List.not_mem_nil)
    (fun _ _ head tail => List.forall_mem_cons.2 ⟨head, tail⟩)
    (fun _ _ value => value) v

/-! ## Values within a depth -/

/-- What is read of a value within a depth. -/
def readWithin? (num : Number → Number) (depth : Nat) (v : Json) : Option Json :=
  if nesting v ≤ depth then some (reread num v) else none

theorem mapM_readWithin? (num : Number → Number) (depth : Nat) (items : List Json) :
    items.mapM (readWithin? num depth) =
      if itemNesting items ≤ depth then some (rereadItems num items) else none := by
  induction items with
  | nil => rfl
  | cons item items ih =>
    rw [List.mapM_cons, ih, readWithin?]
    simp only [itemNesting, rereadItems, Nat.max_le]
    by_cases hitem : nesting item ≤ depth <;> by_cases hitems : itemNesting items ≤ depth <;>
      simp [hitem, hitems]

/-- What is read of a field whose value nests within a depth. -/
def fieldWithin? (num : Number → Number) (depth : Nat) (field : String × Json) :
    Option (String × Json) :=
  (readWithin? num depth field.2).map fun value => (field.1, value)

theorem mapM_fieldWithin? (num : Number → Number) (depth : Nat) (fields : List (String × Json)) :
    fields.mapM (fieldWithin? num depth) =
      if fieldNesting fields ≤ depth then some (rereadFields num fields) else none := by
  induction fields with
  | nil => rfl
  | cons field fields ih =>
    rw [List.mapM_cons, ih, fieldWithin?, readWithin?]
    simp only [fieldNesting, rereadFields, Nat.max_le]
    by_cases hfield : nesting field.2 ≤ depth <;> by_cases hfields : fieldNesting fields ≤ depth <;>
      simp [hfield, hfields]

theorem readWithin?_array (num : Number → Number) (depth : Nat) (items : List Json) :
    readWithin? num (depth + 1) (.array items) =
      (items.mapM (readWithin? num depth)).map .array := by
  simp only [mapM_readWithin?, readWithin?, nesting, reread, Nat.add_le_add_iff_right]
  split_ifs <;> rfl

theorem readWithin?_object (num : Number → Number) (depth : Nat) (fields : List (String × Json)) :
    readWithin? num (depth + 1) (.object fields) =
      (fields.mapM (fieldWithin? num depth)).map ofFields := by
  simp only [mapM_fieldWithin?, readWithin?, nesting, reread, Nat.add_le_add_iff_right]
  split_ifs <;> rfl

/-! ## Objects in a value -/

mutual

/-- Every object in a value has fields with a property. -/
def EveryObject (p : List (String × Json) → Prop) : Json → Prop
  | .array items => EveryItem p items
  | .object fields => p fields ∧ EveryField p fields
  | _ => True

/-- Every object in some values has fields with a property. -/
def EveryItem (p : List (String × Json) → Prop) : List Json → Prop
  | [] => True
  | item :: items => EveryObject p item ∧ EveryItem p items

/-- Every object below some fields has fields with a property. -/
def EveryField (p : List (String × Json) → Prop) : List (String × Json) → Prop
  | [] => True
  | (_, value) :: fields => EveryObject p value ∧ EveryField p fields

end

variable {p q : List (String × Json) → Prop}

theorem everyItem_iff {items : List Json} :
    EveryItem p items ↔ ∀ item ∈ items, EveryObject p item := by
  induction items with
  | nil => simp [EveryItem]
  | cons item items ih => rw [EveryItem, ih, List.forall_mem_cons]

theorem everyField_iff {fields : List (String × Json)} :
    EveryField p fields ↔ ∀ field ∈ fields, EveryObject p field.2 := by
  induction fields with
  | nil => simp [EveryField]
  | cons field fields ih => rw [EveryField, ih, List.forall_mem_cons]

theorem EveryObject.imp {v : Json} (himp : ∀ fields, p fields → q fields) (h : EveryObject p v) :
    EveryObject q v := by
  induction v using parts_induction with
  | null => trivial
  | bool b => trivial
  | number n => trivial
  | string s => trivial
  | array items ih =>
    exact everyItem_iff.2 fun item hitem => ih item hitem (everyItem_iff.1 h item hitem)
  | object fields ih =>
    exact ⟨himp fields h.1, everyField_iff.2 fun field hfield =>
      ih field hfield (everyField_iff.1 h.2 field hfield)⟩

/-- **A value in order is left as it was** where its numbers are. -/
theorem reread_of_isAscending {num : Number → Number} {v : Json}
    (h : EveryObject Ordered.IsAscending v) (hnum : ∀ n ∈ numbers v, num n = n) :
    reread num v = v := by
  induction v using parts_induction with
  | null => rfl
  | bool b => rfl
  | string s => rfl
  | number n => rw [reread, hnum n (List.mem_singleton_self n)]
  | array items ih =>
    rw [numbers, itemNumbers_eq] at hnum
    have hitems : items.map (reread num) = items := by
      refine (List.map_congr_left fun item hitem => ?_).trans (List.map_id _)
      exact ih item hitem (everyItem_iff.1 h item hitem) fun n hn =>
        hnum n (List.mem_flatMap_of_mem hitem hn)
    rw [reread, rereadItems_eq, hitems]
  | object fields ih =>
    rw [numbers, fieldNumbers_eq] at hnum
    have hfields : (fields.map fun field => (field.1, reread num field.2)) = fields := by
      refine (List.map_congr_left fun field hfield => ?_).trans (List.map_id _)
      rw [ih field hfield (everyField_iff.1 h.2 field hfield) fun n hn =>
        hnum n (List.mem_flatMap_of_mem hfield hn)]
      rfl
    rw [reread, rereadFields_eq, hfields, ofFields, Ordered.ofList_of_isAscending h.1]

end Docsmith.Json

import Docsmith.Decimal.Binary
import Docsmith.Ordered
/-!
# JSON — values

A number is whole or floating-point, as it was written: `1` and `1.0`
are different values and print differently. A floating-point number of
thirty-two bits is kept apart from one of sixty-four, because it has
shorter decimals. The fields of an object that was read stand in ascending
order of their names, each name once; an object that is to be written may
have any order.
-/

namespace Docsmith

/-- A JSON number. -/
inductive Json.Number where
  | whole (n : Int)
  | float (x : Decimal.Binary)
  | single (x : Decimal.Binary)
  deriving DecidableEq, Repr

/-- A JSON value. -/
inductive Json where
  | null
  | bool (b : Bool)
  | number (n : Json.Number)
  | string (s : String)
  | array (items : List Json)
  | object (fields : List (String × Json))
  deriving Repr

namespace Json

instance : Inhabited Json := ⟨.null⟩

/-- An object of the given fields; a later field replaces an earlier one. -/
def ofFields (fields : List (String × Json)) : Json :=
  .object (Ordered.ofList fields)

/-- A field of an object; no field where the value is no object. -/
def get? (name : String) : Json → Option Json
  | .object fields => Ordered.find? name fields
  | _ => none

/-- An item of an array. -/
def item? (index : Nat) : Json → Option Json
  | .array items => items[index]?
  | _ => none

/-- A whole number as the name of an array's item: digits only and no zero
before others. -/
def itemIndex? (name : String) : Option Nat :=
  match name.toList with
  | [] => none
  | '0' :: _ :: _ => none
  | digits =>
    if digits.all Char.isDigit then
      some (digits.foldl (fun n c => 10 * n + (c.toNat - '0'.toNat)) 0)
    else none

/-- The value below a path of field names and item numbers. -/
def at? : List String → Json → Option Json
  | [], value => some value
  | name :: path, .object fields => (Ordered.find? name fields).bind (at? path)
  | name :: path, .array items => ((itemIndex? name).bind (items[·]?)).bind (at? path)
  | _ :: _, _ => none

/-- The text of a string value. -/
def text? : Json → Option String
  | .string s => some s
  | _ => none

/-- A whole number as a value. -/
def ofNat (n : Nat) : Json :=
  .number (.whole n)

end Json

end Docsmith

/-!
# Ordered tables

Lists of keyed values in strictly ascending order of their keys, each key
once. Inserting puts an entry in its place and replaces an entry of the
same key.
-/

namespace Docsmith.Ordered

variable {α : Type}

/-- Puts an entry in its place; an entry of the same key is replaced. -/
def insert (key : String) (value : α) : List (String × α) → List (String × α)
  | [] => [(key, value)]
  | (other, old) :: rest =>
    if key < other then (key, value) :: (other, old) :: rest
    else if key = other then (key, value) :: rest
    else (other, old) :: insert key value rest

/-- The value under a key. -/
def find? (key : String) : List (String × α) → Option α
  | [] => none
  | (other, value) :: rest => if key = other then some value else find? key rest

/-- The table of the given entries; a later one replaces an earlier one of
its key. -/
def ofList (entries : List (String × α)) : List (String × α) :=
  entries.foldl (fun table (key, value) => insert key value table) []

/-- Adds a key to a strictly ascending list of keys. -/
def insertKey (key : String) : List String → List String
  | [] => [key]
  | other :: rest =>
    if key < other then key :: other :: rest
    else if key = other then other :: rest
    else other :: insertKey key rest

end Docsmith.Ordered

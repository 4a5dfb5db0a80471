import AiBackend.Support.Json
import Mathlib.Data.List.Sort
import Mathlib.Data.String.Basic

/-!
# Equality of JSON values

`==` on values as `json.loads` makes them: numbers are compared by their
value, a Boolean counts as 0 or 1, and the order of the entries of a
dictionary does not matter.  Values are equal if they have one normal form.
-/

namespace AiBackend.Json

/-- Entries in the order of their keys. -/
def sortEntries (entries : List (String × Json)) : List (String × Json) :=
  entries.insertionSort fun a b => a.1 ≤ b.1

mutual

/-- The number for a Boolean, a float for every number, sorted entries. -/
def normal : Json → Json
  | .null => .null
  | .bool b => .float (if b then 1 else 0)
  | .int n => .float n
  | .float q => .float q
  | .str s => .str s
  | .list xs => .list (normalElements xs)
  | .dict entries => .dict (sortEntries (normalEntries entries))

def normalElements : List Json → List Json
  | [] => []
  | x :: xs => normal x :: normalElements xs

def normalEntries : List (String × Json) → List (String × Json)
  | [] => []
  | (key, value) :: entries => (key, normal value) :: normalEntries entries

end

example : normal (.dict [("b", .int 1), ("a", .float 2)]) =
    normal (.dict [("a", .int 2), ("b", .bool true)]) := rfl

end AiBackend.Json

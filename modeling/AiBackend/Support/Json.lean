import AiBackend.Support.KeyedList
import Mathlib.Data.Rat.Defs

/-!
# JSON values and dictionaries

Dictionaries keep the order in which their keys were inserted, and replacing
a value keeps its position, as in Python.
-/

namespace AiBackend

/-- A Python dictionary with string keys. -/
abbrev Dict (ν : Type) := KeyedList (Prod.fst : String × ν → String)

namespace Dict

variable {ν : Type}

/-- `d.get(k)`. -/
def get? (d : Dict ν) (k : String) : Option ν := (d.find? k).map Prod.snd

/-- `d[k] = v`. -/
def set (d : Dict ν) (k : String) (v : ν) : Dict ν := d.upsert (k, v)

/-- `dict(pairs)`. -/
def ofPairs (pairs : List (String × ν)) : Dict ν :=
  pairs.foldl (fun d pair => d.set pair.1 pair.2) KeyedList.empty

/-- Pairs with distinct keys are taken over as they are. -/
theorem items_ofPairs {pairs : List (String × ν)} (h : (pairs.map Prod.fst).Nodup) :
    (ofPairs pairs).items = pairs := by
  have hfold : ∀ (pairs : List (String × ν)) (d : Dict ν),
      ((d.items ++ pairs).map Prod.fst).Nodup →
        (pairs.foldl (fun d pair => d.set pair.1 pair.2) d).items =
          d.items ++ pairs := by
    intro pairs
    induction pairs with
    | nil => simp
    | cons pair rest ih =>
        intro d hnodup
        have hnew : pair.1 ∉ d.items.map Prod.fst := by
          rw [List.map_append, List.nodup_append] at hnodup
          intro hmem
          exact hnodup.2.2 pair.1 hmem pair.1 (by simp) rfl
        have hset : (d.set pair.1 pair.2).items = d.items ++ [pair] := if_neg hnew
        rw [List.foldl_cons, ih _ (by rw [hset]; simpa using hnodup), hset,
          List.append_assoc]
        rfl
  exact hfold pairs KeyedList.empty h

end Dict

/-- A JSON value; numbers with a fraction are read as the rationals they
denote. -/
inductive Json where
  | null
  | bool (b : Bool)
  | int (n : ℤ)
  | float (q : ℚ)
  | str (s : String)
  | list (xs : List Json)
  | dict (entries : List (String × Json))
  deriving Repr

end AiBackend

import Mathlib.Data.List.Basic
import Mathlib.Logic.Function.Basic

/-!
# Redis lists

Lists under keys, where a key without elements does not exist.  Positions
count from zero, negative ones from the end.  Together `RPUSH` and `LTRIM`
keep the last elements of an ever growing list, and `LRANGE` reads the last of
those.
-/

namespace AiBackend

/-- The lists of a Redis database. -/
abbrev RedisLists := String → List String

namespace RedisLists

variable {α : Type}

/-- The elements between two positions, both included. -/
def range (xs : List α) (start stop : Int) : List α :=
  let start := max 0 (if start < 0 then start + xs.length else start)
  let stop := if stop < 0 then stop + xs.length else stop
  if stop < start ∨ xs.length ≤ start then []
  else (xs.take (stop + 1).toNat).drop start.toNat

/-- `RPUSH` of one element. -/
def rpush (lists : RedisLists) (key value : String) : RedisLists :=
  Function.update lists key (lists key ++ [value])

/-- `LTRIM`. -/
def ltrim (lists : RedisLists) (key : String) (start stop : Int) : RedisLists :=
  Function.update lists key (range (lists key) start stop)

/-- `LRANGE`. -/
def lrange (lists : RedisLists) (key : String) (start stop : Int) : List String :=
  range (lists key) start stop

/-- `DEL`. -/
def del (lists : RedisLists) (key : String) : RedisLists :=
  Function.update lists key []

/-! ## The last elements -/

/-- The last `n` elements, or all if there are fewer. -/
def lastN (n : Nat) (xs : List α) : List α := xs.drop (xs.length - n)

section LastN

variable {n m : Nat} {xs : List α}

theorem length_lastN (n : Nat) (xs : List α) : (lastN n xs).length = min n xs.length := by
  rw [lastN, List.length_drop]
  omega

/-- The range from the `n`-th last element to the last. -/
theorem range_neg (hn : 1 ≤ n) (xs : List α) : range xs (-n) (-1) = lastN n xs := by
  cases xs with
  | nil => simp [range, lastN]
  | cons x xs =>
      have hstart : ¬ ((-1 : Int) + (x :: xs).length <
          max 0 (-(n : Int) + (x :: xs).length) ∨
          ((x :: xs).length : Int) ≤ max 0 (-(n : Int) + (x :: xs).length)) := by
        rw [List.length_cons]
        omega
      have hstop : ((-1 : Int) + (x :: xs).length + 1).toNat = (x :: xs).length := by
        omega
      have hdrop : (max 0 (-(n : Int) + (x :: xs).length)).toNat =
          (x :: xs).length - n := by
        omega
      have hneg : -(n : Int) < 0 := by omega
      unfold range
      simp only [if_pos hneg, if_neg hstart, hstop, hdrop, List.take_length,
        Int.reduceNeg, Int.reduceLT, ↓reduceIte]
      rfl

theorem lastN_of_length_le {xs : List α} (h : xs.length ≤ n) : lastN n xs = xs := by
  rw [lastN, Nat.sub_eq_zero_of_le h, List.drop_zero]

theorem lastN_lastN (n m : Nat) (xs : List α) :
    lastN n (lastN m xs) = lastN (min n m) xs := by
  unfold lastN
  rw [List.drop_drop, List.length_drop]
  congr 1
  omega

/-- What is pushed out before is pushed out after. -/
theorem lastN_lastN_append (n : Nat) (xs : List α) (x : α) :
    lastN n (lastN n xs ++ [x]) = lastN n (xs ++ [x]) := by
  unfold lastN
  have hle : xs.length - n ≤ xs.length := Nat.sub_le _ _
  rw [← List.drop_append_of_le_length hle, List.drop_drop, List.length_drop,
    List.length_append, List.length_singleton]
  congr 1
  omega

theorem lastN_map {β : Type} (f : α → β) (n : Nat) (xs : List α) :
    lastN n (xs.map f) = (lastN n xs).map f := by
  rw [lastN, lastN, List.length_map, List.map_drop]

theorem mem_of_mem_lastN {x : α} (h : x ∈ lastN n xs) : x ∈ xs :=
  List.mem_of_mem_drop h

end LastN

end RedisLists
end AiBackend

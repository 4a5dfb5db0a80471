import AiBackend.Support.KeyedList
import Mathlib.Algebra.Order.Ring.Rat

/-!
# Redis sorted sets

A member occurs once and carries a score.  The commands are read on the value
of one key.
-/

namespace AiBackend

/-- The members of a sorted set with their scores. -/
abbrev SortedSet (μ : Type) := KeyedList (Prod.fst : μ × ℚ → μ)

namespace SortedSet

variable {μ : Type}

/-- `ZADD`: a member already present is only re-scored. -/
def zadd [DecidableEq μ] (z : SortedSet μ) (member : μ) (score : ℚ) :
    SortedSet μ :=
  z.upsert (member, score)

/-- `ZCARD`. -/
def zcard (z : SortedSet μ) : ℕ := z.items.length

/-- `ZREMRANGEBYSCORE key -inf max`. -/
def zremrangebyscore (z : SortedSet μ) (max : ℚ) : SortedSet μ :=
  z.filter fun entry => max < entry.2

/-- A new member is one more entry; the others stay. -/
theorem zadd_items_of_notMem [DecidableEq μ] {z : SortedSet μ} {member : μ}
    (score : ℚ) (h : member ∉ z.keys) :
    (z.zadd member score).items = z.items ++ [(member, score)] := by
  unfold KeyedList.keys at h
  simp [zadd, KeyedList.upsert, h]

/-- Evicting up to a score keeps the number of entries above any higher one. -/
theorem countP_zremrangebyscore (z : SortedSet μ) {max c : ℚ} (h : max ≤ c) :
    (z.zremrangebyscore max).items.countP (fun entry => c < entry.2) =
      z.items.countP fun entry => c < entry.2 := by
  simp only [zremrangebyscore, KeyedList.filter, List.countP_filter]
  apply List.countP_congr
  intro entry _
  simp only [Bool.and_eq_true, decide_eq_true_eq, and_iff_left_iff_imp]
  exact fun hc => lt_of_le_of_lt h hc

/-- An eviction up to one score and then up to a higher one is the second
eviction. -/
theorem zremrangebyscore_zremrangebyscore (z : SortedSet μ) {max later : ℚ}
    (h : max ≤ later) :
    (z.zremrangebyscore max).zremrangebyscore later = z.zremrangebyscore later := by
  apply KeyedList.ext
  simp only [zremrangebyscore, KeyedList.filter, List.filter_filter]
  apply List.filter_congr
  intro entry _
  rw [Bool.eq_iff_iff]
  simp only [Bool.and_eq_true, decide_eq_true_eq, and_iff_left_iff_imp]
  exact fun hlater => lt_of_le_of_lt h hlater

/-- Adding a member or scoring it again gives at most one entry more above a
bound, and none unless the new score is above it. -/
theorem countP_zadd_le [DecidableEq μ] (z : SortedSet μ) (member : μ) (score c : ℚ) :
    (z.zadd member score).items.countP (fun entry => c < entry.2) ≤
      z.items.countP (fun entry => c < entry.2) + if c < score then 1 else 0 := by
  have hupsert := KeyedList.countP_upsert_le z (member, score) fun entry => c < entry.2
  simpa only [decide_eq_true_eq, zadd] using hupsert

/-- All that remains after an eviction lies above the bound. -/
theorem zcard_zremrangebyscore (z : SortedSet μ) (max : ℚ) :
    (z.zremrangebyscore max).zcard = z.items.countP fun entry => max < entry.2 := by
  simp [zcard, zremrangebyscore, KeyedList.filter, List.countP_eq_length_filter]

end SortedSet
end AiBackend

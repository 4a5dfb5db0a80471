import Mathlib.Algebra.BigOperators.Group.List.Basic
import Mathlib.Data.List.Chain
import Mathlib.Data.Int.Order.Basic
import Mathlib.Tactic.Linarith
import Mathlib.Tactic.Ring

/-!
# A window that slides with an overlap

The windows of one size over a range of positions, each beginning the overlap
before the end of the one before it.  The first window that reaches the end of
the range is the last one, and may be shorter.
-/

namespace AiBackend

/-- The windows from `start` on, as pairs of a start and a stop. -/
inductive Slide (length size overlap : ℤ) : ℤ → List (ℤ × ℤ) → Prop
  | last {start : ℤ} (hstart : start < length) (hlast : length ≤ start + size) :
      Slide length size overlap start [(start, length)]
  | next {start : ℤ} {windows : List (ℤ × ℤ)} (hmore : start + size < length)
      (hrest : Slide length size overlap (start + size - overlap) windows) :
      Slide length size overlap start ((start, start + size) :: windows)

namespace Slide

variable {length size overlap start : ℤ} {windows : List (ℤ × ℤ)}

/-- The first window begins at the start. -/
theorem exists_cons (h : Slide length size overlap start windows) :
    ∃ stop rest, windows = (start, stop) :: rest := by
  cases h with
  | last => exact ⟨_, _, rfl⟩
  | next => exact ⟨_, _, rfl⟩

/-- A run of at most one position more than the overlap lies inside one
window. -/
theorem run_inside (h : Slide length size overlap start windows) {i j : ℤ}
    (hi : start ≤ i) (hj : j ≤ length) (hrun : j - i ≤ overlap + 1) :
    ∃ window ∈ windows, window.1 ≤ i ∧ j ≤ window.2 := by
  induction h with
  | last => exact ⟨_, List.mem_singleton_self _, hi, hj⟩
  | @next start windows hmore _ ih =>
      by_cases hlater : start + size - overlap ≤ i
      · obtain ⟨window, hmem, hinside⟩ := ih hlater
        exact ⟨window, List.mem_cons_of_mem _ hmem, hinside⟩
      · -- what begins before the next window ends with this one
        have hinside : j ≤ start + size := by omega
        exact ⟨_, List.mem_cons_self, hi, hinside⟩

/-- Of two windows in a row the second begins the overlap before the end of
the first. -/
theorem isChain (h : Slide length size overlap start windows) :
    windows.IsChain fun window following => window.2 - following.1 = overlap := by
  induction h with
  | last => exact List.isChain_singleton _
  | next _ hrest ih =>
      obtain ⟨stop, rest, rfl⟩ := hrest.exists_cons
      rw [List.isChain_cons_cons]
      exact ⟨by omega, ih⟩

theorem within (h : Slide length size overlap start windows) (hsize : 0 < size)
    (hoverlap : overlap < size) (hstart : 0 ≤ start) :
    ∀ window ∈ windows, 0 ≤ window.1 ∧ window.1 < window.2 ∧ window.2 ≤ length := by
  induction h with
  | last hbefore =>
      intro window hmem
      obtain rfl := List.mem_singleton.mp hmem
      exact ⟨hstart, hbefore, le_refl _⟩
  | next hmore _ ih =>
      intro window hmem
      rcases List.mem_cons.mp hmem with rfl | hmem
      · exact ⟨hstart, by omega, by omega⟩
      · exact ih (by omega) window hmem

theorem size_le (h : Slide length size overlap start windows) :
    ∀ window ∈ windows, window.2 - window.1 ≤ size := by
  induction h with
  | last _ hlast =>
      intro window hmem
      obtain rfl := List.mem_singleton.mp hmem
      omega
  | next _ _ ih =>
      intro window hmem
      rcases List.mem_cons.mp hmem with rfl | hmem
      · omega
      · exact ih window hmem

/-- All windows but the last have the full size. -/
theorem size_eq (h : Slide length size overlap start windows) :
    ∀ window ∈ windows.dropLast, window.2 - window.1 = size := by
  induction h with
  | last =>
      intro window hmem
      cases hmem
  | next _ hrest ih =>
      obtain ⟨stop, rest, rfl⟩ := hrest.exists_cons
      intro window hmem
      rw [List.dropLast_cons_cons] at hmem
      rcases List.mem_cons.mp hmem with rfl | hmem
      · omega
      · exact ih window hmem

/-! ## How many windows there are -/

/-- The windows add up to the range and one overlap for each further window. -/
theorem sum_sizes (h : Slide length size overlap start windows) :
    (windows.map fun window => window.2 - window.1).sum =
      length - start + (windows.length - 1) * overlap := by
  induction h with
  | last => simp
  | next _ _ ih =>
      rw [List.map_cons, List.sum_cons, ih, List.length_cons]
      push_cast
      ring

/-- The slide takes the least number of windows that can reach the end. -/
theorem length_le_iff (h : Slide length size overlap start windows) (hoverlap : overlap ≤ size)
    {n : ℕ} (hn : 1 ≤ n) :
    windows.length ≤ n ↔ length - start ≤ n * (size - overlap) + overlap := by
  induction h generalizing n with
  | last _ hlast =>
      rw [List.length_singleton]
      refine iff_of_true hn ?_
      have hfirst : (1 : ℤ) * (size - overlap) ≤ n * (size - overlap) :=
        mul_le_mul_of_nonneg_right (by exact_mod_cast hn) (by omega)
      omega
  | next hmore hrest ih =>
      obtain ⟨m, rfl⟩ : ∃ m, n = m + 1 := ⟨n - 1, by omega⟩
      obtain ⟨stop, rest, rfl⟩ := hrest.exists_cons
      rw [List.length_cons, Nat.add_le_add_iff_right]
      push_cast
      cases m with
      | zero =>
          refine iff_of_false (by simp) ?_
          rw [Nat.cast_zero, zero_add, one_mul]
          omega
      | succ m =>
          rw [ih (by omega), add_mul]
          omega

theorem start_le (h : Slide length size overlap start windows) (hoverlap : overlap ≤ size) :
    ∀ window ∈ windows, start ≤ window.1 := by
  induction h with
  | last =>
      intro window hmem
      rw [List.mem_singleton.mp hmem]
  | next _ _ ih =>
      intro window hmem
      rcases List.mem_cons.mp hmem with rfl | hmem
      · exact le_refl _
      · exact le_trans (by omega) (ih window hmem)

/-- A position that the second window does not reach is in one window. -/
theorem countP_le_one (h : Slide length size overlap start windows) (hoverlap : overlap ≤ size)
    {i : ℤ} (hi : i < start + size - overlap) :
    windows.countP (fun window => window.1 ≤ i ∧ i < window.2) ≤ 1 := by
  cases h with
  | last => exact List.countP_le_length
  | next _ hrest =>
      have hnone : List.countP (fun window : ℤ × ℤ => window.1 ≤ i ∧ i < window.2) _ = 0 :=
        List.countP_eq_zero.mpr fun window hmem => by
          have hstart := hrest.start_le hoverlap window hmem
          simpa using fun hle => by omega
      rw [List.countP_cons, hnone]
      split
      · exact le_refl 1
      · exact Nat.zero_le 1

/-- No position is in three windows, if they overlap by half their size at
most. -/
theorem countP_le_two (h : Slide length size overlap start windows)
    (hhalf : 2 * overlap ≤ size) (hpositive : 0 ≤ size) (i : ℤ) :
    windows.countP (fun window => window.1 ≤ i ∧ i < window.2) ≤ 2 := by
  induction h with
  | last => exact List.countP_le_length.trans (by simp)
  | @next start windows _ hrest ih =>
      rw [List.countP_cons]
      split
      next hfirst =>
        -- what is in the first window is before the end of the overlap
        have hbefore : i < start + size := by simpa using (of_decide_eq_true hfirst).2
        have hone := hrest.countP_le_one (i := i) (by omega) (by omega)
        omega
      next => omega

end Slide
end AiBackend

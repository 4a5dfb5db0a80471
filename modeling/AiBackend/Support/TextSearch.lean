import Mathlib.Data.Int.Notation
import Mathlib.Data.List.Basic
import Mathlib.Tactic.Common
import Mathlib.Algebra.Order.Ring.Int

/-!
# Searching from the right

`str.rfind` for one character, with bounds as Python reads them.
-/

namespace AiBackend.Text

/-- The last index of `c` from `low` on and before a bound, and `-1` if there
is none. -/
def lastIndex (c : Char) (cs : List Char) (low : ℕ) : ℕ → ℤ
  | 0 => -1
  | high + 1 =>
      if high < low then -1
      else if cs[high]? = some c then high
      else lastIndex c cs low high

/-- `text.rfind(c, start, stop)`; a negative bound counts from the end. -/
def rfind (c : Char) (cs : List Char) (start stop : ℤ) : ℤ :=
  let position (i : ℤ) : ℤ :=
    if i < 0 then max (i + cs.length) 0 else min i cs.length
  lastIndex c cs (position start).toNat (position stop).toNat

/-- The character is at the index. -/
def At (c : Char) (cs : List Char) (i : ℤ) : Prop :=
  ∃ n : ℕ, (n : ℤ) = i ∧ cs[n]? = some c

theorem At.within {c : Char} {cs : List Char} {i : ℤ} (h : At c cs i) :
    0 ≤ i ∧ i < cs.length := by
  obtain ⟨n, rfl, hn⟩ := h
  obtain ⟨hlt, _⟩ := List.getElem?_eq_some_iff.mp hn
  omega

/-- The last index of the character from `start` on and before `stop`. -/
structure LastAt (c : Char) (cs : List Char) (start stop i : ℤ) : Prop where
  at_index : At c cs i
  start_le : start ≤ i
  lt_stop : i < stop
  not_later : ∀ j, i < j → j < stop → ¬ At c cs j

theorem LastAt.unique {c : Char} {cs : List Char} {start stop i j : ℤ}
    (hi : LastAt c cs start stop i) (hj : LastAt c cs start stop j) : i = j := by
  rcases lt_trichotomy i j with hlt | heq | hgt
  · exact absurd hj.at_index (hi.not_later j hlt hj.lt_stop)
  · exact heq
  · exact absurd hi.at_index (hj.not_later i hgt hi.lt_stop)

theorem lastIndex_cases (c : Char) (cs : List Char) (low high : ℕ) :
    (lastIndex c cs low high = -1 ∧ ∀ i : ℤ, low ≤ i → i < high → ¬ At c cs i) ∨
      LastAt c cs low high (lastIndex c cs low high) := by
  induction high with
  | zero =>
      refine Or.inl ⟨rfl, ?_⟩
      intro i hlow hhigh
      omega
  | succ high ih =>
      rw [lastIndex]
      split
      next hlt =>
        refine Or.inl ⟨rfl, ?_⟩
        intro i hlow hhigh
        omega
      next hle =>
        split
        next hat =>
          refine Or.inr ⟨⟨high, rfl, hat⟩, by omega, by omega, ?_⟩
          intro j hj hhigh
          omega
        next hnot =>
          have hhere : ¬ At c cs high := by
            intro h
            obtain ⟨n, hn, hat⟩ := h
            rw [Nat.cast_inj.mp hn] at hat
            exact hnot hat
          rcases ih with ⟨hnone, hall⟩ | hlast
          · refine Or.inl ⟨hnone, ?_⟩
            intro i hlow hhigh
            rcases eq_or_ne i high with rfl | hne
            · exact hhere
            · exact hall i hlow (by omega)
          · refine Or.inr ⟨hlast.at_index, hlast.start_le, ?_, ?_⟩
            · have hlt := hlast.lt_stop
              omega
            · intro j hj hhigh
              rcases eq_or_ne j high with rfl | hne
              · exact hhere
              · exact hlast.not_later j hj (by omega)

theorem lastIndex_of_le (c : Char) (cs : List Char) {low high : ℕ}
    (h : high ≤ low) : lastIndex c cs low high = -1 := by
  cases high with
  | zero => rfl
  | succ high => rw [lastIndex, if_pos (Nat.lt_of_succ_le h)]

/-- A start counted from the end that lies behind the stop finds nothing. -/
theorem rfind_of_neg (c : Char) {cs : List Char} {start stop : ℤ}
    (hstart : start < 0) (hstop : 0 ≤ stop) (h : stop ≤ start + cs.length) :
    rfind c cs start stop = -1 := by
  simp only [rfind, if_pos hstart, if_neg (not_lt.mpr hstop)]
  apply lastIndex_of_le
  omega

/-- Within the text the bounds of a search mean what they say. -/
theorem rfind_cases (c : Char) {cs : List Char} {start stop : ℤ}
    (hstart : 0 ≤ start) (hle : start ≤ stop) (hstop : stop ≤ cs.length) :
    (rfind c cs start stop = -1 ∧ ∀ i, start ≤ i → i < stop → ¬ At c cs i) ∨
      LastAt c cs start stop (rfind c cs start stop) := by
  have hposition : ∀ i : ℤ, 0 ≤ i → i ≤ cs.length →
      (((if i < 0 then max (i + cs.length) 0 else min i cs.length).toNat : ℕ) : ℤ) =
        i := by
    intro i hi hlength
    rw [if_neg (not_lt.mpr hi), min_eq_left hlength, Int.toNat_of_nonneg hi]
  have hcases := lastIndex_cases c cs
    (if start < 0 then max (start + cs.length) 0 else min start cs.length).toNat
    (if stop < 0 then max (stop + cs.length) 0 else min stop cs.length).toNat
  rw [hposition start hstart (by omega), hposition stop (by omega) hstop] at hcases
  exact hcases

end AiBackend.Text

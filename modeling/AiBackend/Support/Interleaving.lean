import Mathlib.Algebra.BigOperators.Group.Finset.Basic
import Mathlib.Algebra.Order.Ring.Int
import Mathlib.Logic.Function.Basic

/-!
# Parties that share a state

Any number of parties, each at a stage of its own, act one at a time on a
state they share.  A party that raises stops.
-/

namespace AiBackend.Interleaving

variable {ι ς σ ε : Type}

/-- The stage of every party, and what they share. -/
structure System (ι ς σ : Type) where
  stages : ι → ς
  shared : σ

variable [DecidableEq ι]

/-- One party takes its next step. -/
def step (advance : ι → ς → EStateM ε σ ς) (raised : ε → ς) (m : System ι ς σ) (i : ι) :
    System ι ς σ :=
  match (advance i (m.stages i)).run m.shared with
  | .ok stage s => ⟨Function.update m.stages i stage, s⟩
  | .error e s => ⟨Function.update m.stages i (raised e), s⟩

section Step

variable {advance : ι → ς → EStateM ε σ ς} {raised : ε → ς} {m : System ι ς σ} {i : ι}

theorem step_of_ok {stage : ς} {s : σ}
    (h : (advance i (m.stages i)).run m.shared = .ok stage s) :
    step advance raised m i = ⟨Function.update m.stages i stage, s⟩ := by
  rw [step, h]

theorem step_of_error {e : ε} {s : σ}
    (h : (advance i (m.stages i)).run m.shared = .error e s) :
    step advance raised m i = ⟨Function.update m.stages i (raised e), s⟩ := by
  rw [step, h]

end Step

/-- What holds of every party holds again after one has moved, if it holds of
the one at its new stage and the others do not lose it to the new state. -/
theorem forall_update {P : ι → ς → Prop} {stages : ι → ς} {i : ι} {stage : ς}
    (hself : P i stage) (hothers : ∀ j, j ≠ i → P j (stages j)) :
    ∀ j, P j (Function.update stages i stage j) := by
  intro j
  by_cases hj : j = i
  · rwa [hj, Function.update_self]
  · rw [Function.update_of_ne hj]
    exact hothers j hj

/-- What the parties add up to changes by what the one that has moved changes. -/
theorem sum_update [Fintype ι] (share : ι → ς → ℤ) (stages : ι → ς) (i : ι) (stage : ς) :
    ∑ j, share j (Function.update stages i stage j) =
      ∑ j, share j (stages j) + (share i stage - share i (stages i)) := by
  have hothers : ∑ j ∈ Finset.univ.erase i, share j (Function.update stages i stage j) =
      ∑ j ∈ Finset.univ.erase i, share j (stages j) := by
    refine Finset.sum_congr rfl fun j hj => ?_
    rw [Function.update_of_ne (Finset.ne_of_mem_erase hj)]
  have hafter := Finset.add_sum_erase Finset.univ
    (fun j => share j (Function.update stages i stage j)) (Finset.mem_univ i)
  have hbefore := Finset.add_sum_erase Finset.univ
    (fun j => share j (stages j)) (Finset.mem_univ i)
  rw [Function.update_self] at hafter
  omega

/-- A party that has not moved is where it was. -/
theorem exists_update {P : ς → Prop} {stages : ι → ς} {i : ι} {stage : ς}
    (h : ∃ j, P (stages j)) (hmoved : ¬ P (stages i)) :
    ∃ j, P (Function.update stages i stage j) := by
  obtain ⟨j, hj⟩ := h
  have hji : j ≠ i := by
    rintro rfl
    exact hmoved hj
  exact ⟨j, by rwa [Function.update_of_ne hji]⟩

end AiBackend.Interleaving

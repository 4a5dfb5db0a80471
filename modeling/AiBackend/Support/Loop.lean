import Mathlib.Data.List.Basic

/-!
# Loops that may not end

A loop is a step on states that gives no next state when the loop is over.
The states that a loop goes through are determined, all different, and exist
exactly if the loop ends.
-/

namespace AiBackend.Loop

variable {σ : Type}

/-- The loop that begins in a state goes through these states and ends. -/
inductive Passes (step : σ → Option σ) : σ → List σ → Prop
  | done {s : σ} (h : step s = none) : Passes step s []
  | next {s s' : σ} {later : List σ} (h : step s = some s')
      (hrest : Passes step s' later) : Passes step s (s :: later)

variable {step : σ → Option σ}

theorem Passes.unique {s : σ} {states states' : List σ}
    (h : Passes step s states) (h' : Passes step s states') : states = states' := by
  induction h generalizing states' with
  | done hdone =>
      cases h' with
      | done => rfl
      | next hnext => rw [hdone] at hnext; cases hnext
  | next hnext _ ih =>
      cases h' with
      | done hdone => rw [hdone] at hnext; cases hnext
      | next hnext' hrest' =>
          rw [hnext] at hnext'
          cases hnext'
          rw [ih hrest']

/-- From every state that a loop goes through it goes on to its end. -/
theorem Passes.of_mem {s t : σ} {states : List σ} (h : Passes step s states)
    (ht : t ∈ states) :
    ∃ later, Passes step t later ∧ later.length ≤ states.length := by
  induction h with
  | done => cases ht
  | @next s s' rest hnext hrest ih =>
      rcases List.mem_cons.mp ht with rfl | ht
      · exact ⟨t :: rest, Passes.next hnext hrest, Nat.le_refl _⟩
      · obtain ⟨later, hlater, hlength⟩ := ih ht
        exact ⟨later, hlater, Nat.le_succ_of_le hlength⟩

/-- It is not over in a state that it goes through. -/
theorem Passes.step_of_mem {s t : σ} {states : List σ} (h : Passes step s states)
    (ht : t ∈ states) : ∃ t', step t = some t' := by
  induction h with
  | done => cases ht
  | next hnext _ ih =>
      rcases List.mem_cons.mp ht with rfl | ht
      · exact ⟨_, hnext⟩
      · exact ih ht

/-- A loop that ends is never twice in the same state. -/
theorem Passes.not_mem {s : σ} {later : List σ} (h : Passes step s (s :: later)) :
    s ∉ later := by
  intro hmem
  cases h with
  | next hnext hrest =>
      obtain ⟨again, hagain, hlength⟩ := hrest.of_mem hmem
      have hsame : again = s :: later := hagain.unique (Passes.next hnext hrest)
      rw [hsame, List.length_cons] at hlength
      exact absurd hlength (Nat.not_succ_le_self _)

/-- A loop does not end from a set of states that it cannot leave. -/
theorem not_passes_of_trap {T : σ → Prop}
    (hT : ∀ s, T s → ∃ s', step s = some s' ∧ T s') {s : σ} (hs : T s)
    (states : List σ) : ¬ Passes step s states := by
  intro h
  induction h with
  | done hdone =>
      obtain ⟨s', hnext, _⟩ := hT _ hs
      rw [hdone] at hnext
      cases hnext
  | next hnext _ ih =>
      obtain ⟨s', hnext', hs'⟩ := hT _ hs
      rw [hnext] at hnext'
      cases hnext'
      exact ih hs'

/-- A loop ends if a measure falls with every round. -/
theorem exists_passes {I : σ → Prop} (m : σ → ℕ)
    (hstep : ∀ s s', I s → step s = some s' → I s' ∧ m s' < m s) {s : σ}
    (hs : I s) : ∃ states, Passes step s states := by
  induction hm : m s using Nat.strongRecOn generalizing s with
  | ind n ih =>
      cases hnext : step s with
      | none => exact ⟨[], Passes.done hnext⟩
      | some s' =>
          obtain ⟨hs', hlt⟩ := hstep s s' hs hnext
          obtain ⟨states, hstates⟩ := ih (m s') (hm ▸ hlt) hs' rfl
          exact ⟨s :: states, Passes.next hnext hstates⟩

end AiBackend.Loop

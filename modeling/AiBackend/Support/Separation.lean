import AiBackend.Support.Fault
import AiBackend.Support.Run

/-!
# What an observer sees

Two runs of a program from states that an observer cannot tell apart end alike.
If the steps of others change nothing that the observer sees, a run shows what
the observer's own steps alone would show.
-/

namespace AiBackend

/-! ## Programs -/

namespace Program

variable {ε σ τ α β κ : Type} {R : σ → σ → Prop}

/-- Runs from related states end alike, in related states. -/
def Respects (R : σ → σ → Prop) (prog : EStateM ε σ α) : Prop :=
  ∀ s t, R s t →
    match prog.run s, prog.run t with
    | .ok a s', .ok b t' => a = b ∧ R s' t'
    | .error e s', .error f t' => e = f ∧ R s' t'
    | _, _ => False

theorem Respects.finalState {prog : EStateM ε σ α} (h : Respects R prog) {s t : σ}
    (hst : R s t) : R (finalState (prog.run s)) (finalState (prog.run t)) := by
  have hruns := h s t hst
  cases hs : prog.run s with
  | ok a s' =>
      cases ht : prog.run t with
      | ok b t' =>
          rw [hs, ht] at hruns
          exact hruns.2
      | error f t' =>
          rw [hs, ht] at hruns
          exact hruns.elim
  | error e s' =>
      cases ht : prog.run t with
      | ok b t' =>
          rw [hs, ht] at hruns
          exact hruns.elim
      | error f t' =>
          rw [hs, ht] at hruns
          exact hruns.2

theorem Respects.pure (a : α) : Respects R (Pure.pure a : EStateM ε σ α) :=
  fun _ _ h => ⟨rfl, h⟩

theorem Respects.throw (e : ε) : Respects R (MonadExcept.throw e : EStateM ε σ α) :=
  fun _ _ h => ⟨rfl, h⟩

theorem Respects.bind {prog : EStateM ε σ α} {next : α → EStateM ε σ β}
    (h : Respects R prog) (hnext : ∀ a, Respects R (next a)) :
    Respects R (prog >>= next) := by
  intro s t hst
  have hruns := h s t hst
  rw [EStateM.run_bind, EStateM.run_bind]
  cases hs : prog.run s with
  | ok a s' =>
      cases ht : prog.run t with
      | ok b t' =>
          rw [hs, ht] at hruns
          obtain ⟨rfl, hst'⟩ := hruns
          exact hnext a s' t' hst'
      | error f t' =>
          rw [hs, ht] at hruns
          exact hruns.elim
  | error e s' =>
      cases ht : prog.run t with
      | ok b t' =>
          rw [hs, ht] at hruns
          exact hruns.elim
      | error f t' =>
          rw [hs, ht] at hruns
          exact hruns

theorem Respects.modify {f : σ → σ} (h : ∀ s t, R s t → R (f s) (f t)) :
    Respects R (modify f : EStateM ε σ PUnit) :=
  fun s t hst => ⟨rfl, h s t hst⟩

/-- What is read of the state is the same on both sides. -/
theorem Respects.read {f : σ → α} (h : ∀ s t, R s t → f s = f t) :
    Respects R (do
      let s ← get
      Pure.pure (f s) : EStateM ε σ α) :=
  fun s t hst => ⟨h s t hst, hst⟩

theorem Respects.ofExcept (result : Except ε α) :
    Respects R (ofExcept result : EStateM (Raised ε) σ α) := by
  cases result with
  | ok a => exact Respects.pure a
  | error e => exact Respects.throw _

theorem Respects.perform {faults : Faults κ ε} {site : κ}
    {action : EStateM (Raised ε) σ α} (h : Respects R action) :
    Respects R (perform faults site action) := by
  cases hsite : faults site with
  | none => rwa [perform_of_none hsite]
  | some fault =>
      intro s t hst
      rw [run_perform_of_some hsite, run_perform_of_some hsite]
      refine ⟨rfl, ?_⟩
      split
      · exact h.finalState hst
      · exact hst

/-- A program on a component that is the same on both sides. -/
theorem Respects.focus {get : σ → τ} {put : τ → σ → σ} (prog : EStateM ε τ α)
    (hget : ∀ s t, R s t → get s = get t)
    (hput : ∀ s t c, R s t → R (put c s) (put c t)) :
    Respects R (focus get put prog) := by
  intro s t hst
  cases h : prog.run (get t) with
  | ok a c =>
      have hrun : ∀ u, get u = get t →
          (Program.focus get put prog).run u = .ok a (put c u) := by
        intro u hu
        rw [← hu] at h
        simp only [EStateM.run, Program.focus] at h ⊢
        rw [h]
      rw [hrun s (hget s t hst), hrun t rfl]
      exact ⟨rfl, hput s t c hst⟩
  | error e c =>
      have hrun : ∀ u, get u = get t →
          (Program.focus get put prog).run u = .error e (put c u) := by
        intro u hu
        rw [← hu] at h
        simp only [EStateM.run, Program.focus] at h ⊢
        rw [h]
      rw [hrun s (hget s t hst), hrun t rfl]
      exact ⟨rfl, hput s t c hst⟩

end Program

/-! ## Machines -/

namespace Run

variable {σ ι τ : Type}

/-- A step of the observer's own depends on what the observer sees only, and a
step of another one does not change it. -/
structure Separates (step : σ → ι → σ) (Own : ι → Prop) (view : σ → τ) : Prop where
  own : ∀ s t i, Own i → view s = view t → view (step s i) = view (step t i)
  other : ∀ s i, ¬ Own i → view (step s i) = view s

/-- What the observer sees of a run is what its own steps alone would show. -/
theorem Separates.final_filter {step : σ → ι → σ} {Own : ι → Prop} [DecidablePred Own]
    {view : σ → τ} (h : Separates step Own view) {s t : σ} (hst : view s = view t)
    (inputs : List ι) :
    view (final step s inputs) = view (final step t (inputs.filter fun i => Own i)) := by
  induction inputs generalizing s t with
  | nil => exact hst
  | cons i inputs ih =>
      by_cases hi : Own i
      · rw [List.filter_cons_of_pos (by simpa using hi)]
        exact ih (h.own s t i hi hst)
      · rw [List.filter_cons_of_neg (by simpa using hi)]
        exact ih ((h.other s i hi).trans hst)

end Run
end AiBackend

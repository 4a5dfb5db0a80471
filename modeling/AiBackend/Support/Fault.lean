import AiBackend.Support.Program

/-!
# Fault injection

A program talks to its dependencies at named call sites.  An oracle decides
for every site whether that call succeeds or raises, and whether a raising
call had nevertheless taken effect on the remote side.  Quantifying over all
oracles quantifies over every pattern of dependency failures.
-/

namespace AiBackend.Program

variable {ε σ α κ : Type}

/-- What a failing call does: the exception it raises, and whether its effect
was carried out before the failure reached the caller. -/
structure Fault (ε : Type) where
  raised : Raised ε
  landed : Bool
  deriving DecidableEq, Repr

/-- A failure pattern: which call sites fail, and how. -/
abbrev Faults (κ ε : Type) := κ → Option (Fault ε)

/-- No call fails. -/
def Faults.none : Faults κ ε := fun _ => Option.none

/-- Every failure is an ordinary exception; nothing is cancelled. -/
def Faults.ExceptionsOnly (faults : Faults κ ε) : Prop :=
  ∀ site fault, faults site = some fault → fault.raised.IsException

theorem Faults.none_exceptionsOnly :
    (Faults.none : Faults κ ε).ExceptionsOnly := by
  intro site fault h
  cases h

/-- A call takes effect: it succeeds, or fails only afterwards. -/
def Faults.Lands (faults : Faults κ ε) (site : κ) : Prop :=
  ∀ fault, faults site = some fault → fault.landed = true

theorem Faults.lands_of_none {faults : Faults κ ε} {site : κ}
    (h : faults site = Option.none) : faults.Lands site := by
  simp [Lands, h]

theorem Faults.lands_iff_of_some {faults : Faults κ ε} {site : κ}
    {fault : Fault ε} (h : faults site = some fault) :
    faults.Lands site ↔ fault.landed = true := by
  simp [Lands, h]

/-- Carry out `action` at `site`, subject to the failure pattern. -/
def perform (faults : Faults κ ε) (site : κ)
    (action : EStateM (Raised ε) σ α) : EStateM (Raised ε) σ α :=
  match faults site with
  | some fault => fun s =>
      .error fault.raised (if fault.landed then finalState (action.run s) else s)
  | Option.none => action

theorem perform_of_none {faults : Faults κ ε} {site : κ}
    {action : EStateM (Raised ε) σ α} (h : faults site = Option.none) :
    perform faults site action = action := by
  simp [perform, h]

/-- A call that fails raises, and has had its effect or none. -/
theorem run_perform_of_some {faults : Faults κ ε} {site : κ} {fault : Fault ε}
    (h : faults site = some fault) (action : EStateM (Raised ε) σ α) (s : σ) :
    (perform faults site action).run s = .error fault.raised
      (if fault.landed then finalState (action.run s) else s) := by
  rw [perform, h]
  rfl

/-- If a program goes on with a part of a call's result only, another result with
the same part makes no difference. -/
theorem perform_ofExcept_bind_congr {β γ : Type} {faults : Faults κ ε} {site : κ}
    {x y : Except ε α} {part : α → β} (h : x.map part = y.map part)
    (next : β → EStateM (Raised ε) σ γ) :
    (perform faults site (ofExcept x) >>= fun a => next (part a)) =
      perform faults site (ofExcept y) >>= fun a => next (part a) := by
  have hmap : ∀ z : Except ε α, (perform faults site (ofExcept z) >>= fun a => next (part a)) =
      perform faults site (ofExcept (z.map part)) >>= next := by
    intro z
    cases hsite : faults site with
    | none =>
        rw [perform_of_none hsite, perform_of_none hsite]
        cases z <;> rfl
    | some fault =>
        funext s
        unfold perform
        rw [hsite]
        cases z <;> rfl
  rw [hmap, hmap, h]

/-- A call that returns did not fail. -/
theorem none_of_run_perform_ok {faults : Faults κ ε} {site : κ}
    {action : EStateM (Raised ε) σ α} {a : α} {s s' : σ}
    (h : (perform faults site action).run s = .ok a s') : faults site = Option.none := by
  cases hsite : faults site with
  | none => rfl
  | some fault =>
      simp only [perform, hsite] at h
      cases h

@[simp] theorem perform_none {site : κ} {action : EStateM (Raised ε) σ α} :
    perform Faults.none site action = action := rfl

/-- A call that only returns a value does not show in the final state. -/
theorem finalState_bind_perform_pure {β : Type} (faults : Faults κ ε) (site : κ)
    (prog : EStateM (Raised ε) σ β) (f : β → α) (s : σ) :
    finalState ((prog >>= fun b => perform faults site (pure (f b))).run s) =
      finalState (prog.run s) := by
  rw [EStateM.run_bind]
  cases prog.run s with
  | error r s' => rfl
  | ok b s' =>
      cases hsite : faults site with
      | none =>
          simp only [perform, hsite]
          rfl
      | some fault =>
          simp only [perform, hsite]
          exact ite_self _

/-- A call site contributes two cases: the action itself, and a raise whose
state is the old one or the one the action would have reached. -/
theorem ensures_perform {faults : Faults κ ε} {site : κ}
    {action : EStateM (Raised ε) σ α} {P : σ → Prop}
    {Q : α → σ → Prop} {E : Raised ε → σ → Prop}
    (hok : faults site = Option.none → Ensures P action Q E)
    (hfault : ∀ fault, faults site = some fault → ∀ s, P s →
      E fault.raised (if fault.landed then finalState (action.run s) else s)) :
    Ensures P (perform faults site action) Q E := by
  cases hsite : faults site with
  | none =>
      rw [perform_of_none hsite]
      exact hok hsite
  | some fault =>
      intro s hs
      have hrun : (perform faults site action).run s = .error fault.raised
          (if fault.landed then finalState (action.run s) else s) := by
        simp only [perform, hsite]
        rfl
      rw [hrun]
      exact hfault fault hsite s hs

/-- A call whose action cannot raise by itself: a raise is the fault's, and
the action has happened exactly if the fault landed. -/
theorem ensures_perform_effect {faults : Faults κ ε} {site : κ}
    {action : EStateM (Raised ε) σ α} {P : σ → Prop} {Q : α → σ → Prop}
    (haction : Ensures P action Q fun _ _ => False) :
    Ensures P (perform faults site action)
      (fun a s => faults site = Option.none ∧ Q a s)
      (fun r s => ∃ fault, faults site = some fault ∧ r = fault.raised ∧
        if fault.landed then ∃ a, Q a s else P s) := by
  refine ensures_perform (fun hsite => ?_) fun fault hsite s hs => ?_
  · exact haction.imp (fun _ _ h => ⟨hsite, h⟩)
      (fun _ _ h => h.elim)
  · refine ⟨fault, hsite, rfl, ?_⟩
    by_cases hlanded : fault.landed
    · have hrun := haction s hs
      cases haction' : action.run s with
      | ok a s' =>
          rw [haction'] at hrun
          simp only [hlanded, ↓reduceIte, finalState_ok]
          exact ⟨a, hrun⟩
      | error r s' =>
          rw [haction'] at hrun
          exact hrun.elim
    · simpa only [hlanded, Bool.false_eq_true, ↓reduceIte] using hs

/-- A call that only returns a value leaves the state alone either way. -/
theorem ensures_perform_pure {faults : Faults κ ε} {site : κ} {a : α}
    {P : σ → Prop} :
    Ensures P (perform faults site (pure a))
      (fun b s => P s ∧ b = a ∧ faults site = Option.none)
      (fun r s => P s ∧ ∃ fault, faults site = some fault ∧ r = fault.raised) := by
  have hpure : Ensures P (pure a : EStateM (Raised ε) σ α)
      (fun b s => b = a ∧ P s) fun _ _ => False :=
    ensures_pure fun _ hs => ⟨rfl, hs⟩
  refine (ensures_perform_effect hpure).imp (fun _ _ h => ⟨h.2.2, h.2.1, h.1⟩) ?_
  intro r s hs
  obtain ⟨fault, hsite, hr, hs⟩ := hs
  refine ⟨?_, fault, hsite, hr⟩
  split at hs
  · obtain ⟨_, _, hP⟩ := hs
    exact hP
  · exact hs

/-- When only ordinary exceptions are raised, a call ends with its effect and
without a fault, or with an exception in the state before or after the
effect. -/
theorem ensures_call {faults : Faults κ ε} (hexc : faults.ExceptionsOnly)
    {site : κ} {action : EStateM (Raised ε) σ α} {P : σ → Prop}
    {Q : α → σ → Prop} {E : Raised ε → σ → Prop}
    (haction : Ensures P action Q fun _ _ => False)
    (hE : ∀ r s, r.IsException → faults site ≠ Option.none →
      (∃ a, Q a s) ∨ P s → E r s) :
    Ensures P (perform faults site action)
      (fun a s => Q a s ∧ faults site = Option.none) E := by
  apply (ensures_perform_effect haction).imp (fun _ _ h => ⟨h.2, h.1⟩)
  intro r s hs
  obtain ⟨fault, hfault, rfl, hs⟩ := hs
  apply hE _ _ (hexc _ fault hfault) (by simp [hfault])
  split at hs
  · exact Or.inl hs
  · exact Or.inr hs

/-- In particular a call whose effect keeps the precondition. -/
theorem ensures_call_keeping {faults : Faults κ ε} (hexc : faults.ExceptionsOnly)
    {site : κ} {action : EStateM (Raised ε) σ α} {P : σ → Prop}
    {E : Raised ε → σ → Prop}
    (haction : Ensures P action (fun _ => P) fun _ _ => False)
    (hE : ∀ r s, P s → r.IsException → faults site ≠ Option.none → E r s) :
    Ensures P (perform faults site action)
      (fun _ s => P s ∧ faults site = Option.none) E := by
  apply ensures_call hexc haction
  intro r s hr hsite hs
  rcases hs with ⟨_, hs⟩ | hs
  · exact hE r s hs hr hsite
  · exact hE r s hs hr hsite

/-- A failing call keeps whatever its action keeps. -/
theorem Preserves.perform {faults : Faults κ ε} {site : κ}
    {action : EStateM (Raised ε) σ α} {I : σ → Prop}
    (haction : Preserves I action) :
    Preserves I (Program.perform faults site action) := by
  apply ensures_perform (fun _ => haction)
  intro fault _ s hs
  split
  · exact Ensures.final haction hs
  · exact hs

end AiBackend.Program

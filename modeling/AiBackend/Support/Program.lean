import Mathlib.Logic.Basic

/-!
# Effectful programs that raise

Programs act on a state and either return or raise; a raise keeps the state
reached so far, as an exception does in an imperative language.  The core
monad `EStateM` is that model.  This file adds the rules by which such
programs are reasoned about: the four-place predicate `Ensures` relates a
precondition to one postcondition for normal exits and one for raises, and
there is one rule for each construct, the accumulator loop included.

A raise is either an ordinary exception, which `tryExcept` can intercept, or a
cancellation, which passes through every such handler.
-/

namespace AiBackend.Program

variable {ε σ τ α β ι : Type}

/-- What a program can raise: an ordinary exception, or the cancellation of
the surrounding task. -/
inductive Raised (ε : Type) where
  | exception (e : ε)
  | cancelled
  deriving DecidableEq, Repr

/-- The raise is an ordinary exception. -/
def Raised.IsException (r : Raised ε) : Prop := ∃ e, r = .exception e

/-- The state in which a run ends, whether it returned or raised. -/
def finalState : EStateM.Result ε σ α → σ
  | .ok _ s => s
  | .error _ s => s

@[simp] theorem finalState_ok (a : α) (s : σ) :
    finalState (.ok a s : EStateM.Result ε σ α) = s := rfl

@[simp] theorem finalState_error (e : ε) (s : σ) :
    finalState (.error e s : EStateM.Result ε σ α) = s := rfl

/-- What a run that does not raise returns. -/
def returned : EStateM.Result ε σ α → Option α
  | .ok a _ => some a
  | .error _ _ => none

/-- Run `body`, and on an ordinary exception continue with `handler` in the
state the exception left behind.  Cancellations are not intercepted. -/
def tryExcept (body : EStateM (Raised ε) σ α)
    (handler : ε → EStateM (Raised ε) σ α) : EStateM (Raised ε) σ α :=
  fun s =>
    match body.run s with
    | .ok a s' => .ok a s'
    | .error (.exception e) s' => (handler e).run s'
    | .error .cancelled s' => .error .cancelled s'

theorem run_tryExcept (body : EStateM (Raised ε) σ α)
    (handler : ε → EStateM (Raised ε) σ α) (s : σ) :
    (tryExcept body handler).run s =
      match body.run s with
      | .ok a s' => .ok a s'
      | .error (.exception e) s' => (handler e).run s'
      | .error .cancelled s' => .error .cancelled s' := rfl

/-- Run `body`, and if it is cancelled run `handler` before the cancellation
goes on. -/
def onCancelled (body : EStateM (Raised ε) σ α)
    (handler : EStateM (Raised ε) σ Unit) : EStateM (Raised ε) σ α :=
  fun s =>
    match body.run s with
    | .ok a s' => .ok a s'
    | .error (.exception e) s' => .error (.exception e) s'
    | .error .cancelled s' => (handler *> throw .cancelled).run s'

/-- Run a program on one component of the state. -/
def focus (get : σ → τ) (put : τ → σ → σ) (prog : EStateM ε τ α) :
    EStateM ε σ α :=
  fun s =>
    match prog.run (get s) with
    | .ok a t => .ok a (put t s)
    | .error e t => .error e (put t s)

/-- Return the value of a computation without a state, or raise what it
raised. -/
def ofExcept (result : Except ε α) : EStateM (Raised ε) σ α :=
  match result with
  | .ok a => pure a
  | .error e => throw (.exception e)

@[simp] theorem run_ofExcept_ok (a : α) (s : σ) :
    (ofExcept (.ok a) : EStateM (Raised ε) σ α).run s = .ok a s := rfl

theorem finalState_bind_pure (prog : EStateM ε σ α) (f : α → β) (s : σ) :
    finalState ((prog >>= fun a => pure (f a)).run s) = finalState (prog.run s) := by
  rw [EStateM.run_bind]
  cases prog.run s with
  | ok a s' => rfl
  | error e s' => rfl

/-- A program that returns has returned from its first part. -/
theorem exists_of_run_bind_ok {prog : EStateM ε σ α} {next : α → EStateM ε σ β}
    {b : β} {s s'' : σ} (h : (prog >>= next).run s = .ok b s'') :
    ∃ a s', prog.run s = .ok a s' ∧ (next a).run s' = .ok b s'' := by
  rw [EStateM.run_bind] at h
  cases hprog : prog.run s with
  | ok a s' =>
      rw [hprog] at h
      exact ⟨a, s', rfl, h⟩
  | error e s' =>
      rw [hprog] at h
      cases h

/-- A computation without a state returns if both its parts do. -/
theorem except_bind_eq_ok_iff {x : Except ε α} {next : α → Except ε β} {b : β} :
    (x >>= next) = .ok b ↔ ∃ a, x = .ok a ∧ next a = .ok b := by
  cases x with
  | ok a => simp [bind, Except.bind]
  | error e => simp [bind, Except.bind]

/-- Run a method of one component of the state; its exceptions become
exceptions of the whole program. -/
def zoom (get : σ → τ) (put : τ → σ → σ) (method : EStateM ε τ α) :
    EStateM (Raised ε) σ α :=
  fun s =>
    match method.run (get s) with
    | .ok a t => .ok a (put t s)
    | .error e t => .error (.exception e) (put t s)

/-! ## Pre- and postconditions -/

/-- Every run of `prog` from a state satisfying `P` either returns with `Q` or
raises with `E`. -/
def Ensures (P : σ → Prop) (prog : EStateM ε σ α)
    (Q : α → σ → Prop) (E : ε → σ → Prop) : Prop :=
  ∀ s, P s →
    match prog.run s with
    | .ok a s' => Q a s'
    | .error e s' => E e s'

/-- A run that satisfies the same condition on both exits ends in it. -/
theorem Ensures.final {P R : σ → Prop} {prog : EStateM ε σ α}
    (h : Ensures P prog (fun _ => R) (fun _ => R)) {s : σ} (hs : P s) :
    R (finalState (prog.run s)) := by
  have hrun := h s hs
  cases hprog : prog.run s with
  | ok a s' => simpa [hprog] using hrun
  | error e s' => simpa [hprog] using hrun

theorem Ensures.ok {P : σ → Prop} {prog : EStateM ε σ α} {Q : α → σ → Prop}
    {E : ε → σ → Prop} (h : Ensures P prog Q E) {s s' : σ} {a : α} (hs : P s)
    (hrun : prog.run s = .ok a s') : Q a s' := by
  have hends := h s hs
  rwa [hrun] at hends

theorem Ensures.consequence {P P' : σ → Prop} {prog : EStateM ε σ α}
    {Q Q' : α → σ → Prop} {E E' : ε → σ → Prop}
    (h : Ensures P prog Q E) (hP : ∀ s, P' s → P s)
    (hQ : ∀ a s, Q a s → Q' a s) (hE : ∀ e s, E e s → E' e s) :
    Ensures P' prog Q' E' := by
  intro s hs
  have hrun := h s (hP s hs)
  cases hprog : prog.run s with
  | ok a s' => simpa [hprog] using hQ a s' (by simpa [hprog] using hrun)
  | error e s' => simpa [hprog] using hE e s' (by simpa [hprog] using hrun)

theorem Ensures.imp {P : σ → Prop} {prog : EStateM ε σ α}
    {Q Q' : α → σ → Prop} {E E' : ε → σ → Prop} (h : Ensures P prog Q E)
    (hQ : ∀ a s, Q a s → Q' a s) (hE : ∀ e s, E e s → E' e s) :
    Ensures P prog Q' E' :=
  h.consequence (fun _ hs => hs) hQ hE

theorem Ensures.impReturn {P : σ → Prop} {prog : EStateM ε σ α}
    {Q Q' : α → σ → Prop} {E : ε → σ → Prop} (h : Ensures P prog Q E)
    (hQ : ∀ a s, Q a s → Q' a s) : Ensures P prog Q' E :=
  h.imp hQ fun _ _ hs => hs

theorem Ensures.impRaise {P : σ → Prop} {prog : EStateM ε σ α}
    {Q : α → σ → Prop} {E E' : ε → σ → Prop} (h : Ensures P prog Q E)
    (hE : ∀ e s, E e s → E' e s) : Ensures P prog Q E' :=
  h.imp (fun _ _ hs => hs) hE

/-- A program that meets two specifications meets both on either exit. -/
theorem Ensures.and {P P' : σ → Prop} {prog : EStateM ε σ α}
    {Q Q' : α → σ → Prop} {E E' : ε → σ → Prop} (h : Ensures P prog Q E)
    (h' : Ensures P' prog Q' E') :
    Ensures (fun s => P s ∧ P' s) prog (fun a s => Q a s ∧ Q' a s)
      fun e s => E e s ∧ E' e s := by
  intro s hs
  have hrun := h s hs.1
  have hrun' := h' s hs.2
  cases hprog : prog.run s with
  | ok a s' =>
      rw [hprog] at hrun hrun'
      exact ⟨hrun, hrun'⟩
  | error e s' =>
      rw [hprog] at hrun hrun'
      exact ⟨hrun, hrun'⟩

/-- A program that cannot raise returns. -/
theorem Ensures.exists_ok {P : σ → Prop} {prog : EStateM ε σ α}
    {Q : α → σ → Prop} (h : Ensures P prog Q fun _ _ => False) {s : σ} (hs : P s) :
    ∃ a s', prog.run s = .ok a s' ∧ Q a s' := by
  have hrun := h s hs
  cases hprog : prog.run s with
  | ok a s' =>
      rw [hprog] at hrun
      exact ⟨a, s', rfl, hrun⟩
  | error e s' =>
      rw [hprog] at hrun
      exact hrun.elim

/-- Every program meets the specification that asks for nothing. -/
theorem ensures_trivial {P : σ → Prop} {prog : EStateM ε σ α} :
    Ensures P prog (fun _ _ => True) fun _ _ => True := by
  intro s _
  split
  · trivial
  · trivial

/-- What a precondition says apart from the state may be assumed outright. -/
theorem ensures_of_fact {P : σ → Prop} {prog : EStateM ε σ α} {fact : Prop}
    {Q : α → σ → Prop} {E : ε → σ → Prop} (h : fact → Ensures P prog Q E) :
    Ensures (fun s => P s ∧ fact) prog Q E :=
  fun s hs => h hs.2 s hs.1

/-- A precondition with an unknown is one precondition for each of its
values. -/
theorem ensures_exists {P : β → σ → Prop} {prog : EStateM ε σ α}
    {Q : α → σ → Prop} {E : ε → σ → Prop} (h : ∀ b, Ensures (P b) prog Q E) :
    Ensures (fun s => ∃ b, P b s) prog Q E := by
  intro s hs
  obtain ⟨b, hs⟩ := hs
  exact h b s hs

/-- A specification may be proved for one initial state at a time. -/
theorem ensures_pointwise {P : σ → Prop} {prog : EStateM ε σ α}
    {Q : α → σ → Prop} {E : ε → σ → Prop}
    (h : ∀ s, P s → Ensures (· = s) prog Q E) : Ensures P prog Q E :=
  fun s hs => h s hs s rfl

theorem ensures_pure {P : σ → Prop} {a : α} {Q : α → σ → Prop}
    {E : ε → σ → Prop} (h : ∀ s, P s → Q a s) :
    Ensures P (pure a : EStateM ε σ α) Q E :=
  fun s hs => h s hs

theorem ensures_throw {P : σ → Prop} {e : ε} {Q : α → σ → Prop}
    {E : ε → σ → Prop} (h : ∀ s, P s → E e s) :
    Ensures P (throw e : EStateM ε σ α) Q E :=
  fun s hs => h s hs

theorem ensures_get {P : σ → Prop} {Q : σ → σ → Prop} {E : ε → σ → Prop}
    (h : ∀ s, P s → Q s s) :
    Ensures P (get : EStateM ε σ σ) Q E :=
  fun s hs => h s hs

theorem ensures_modify {P : σ → Prop} {f : σ → σ} {Q : PUnit → σ → Prop}
    {E : ε → σ → Prop} (h : ∀ s, P s → Q ⟨⟩ (f s)) :
    Ensures P (modify f : EStateM ε σ PUnit) Q E :=
  fun s hs => h s hs

theorem ensures_ofExcept {P : σ → Prop} (result : Except ε α) :
    Ensures P (ofExcept result : EStateM (Raised ε) σ α)
      (fun a s => P s ∧ result = .ok a)
      (fun _ s => P s ∧ ∃ e, result = .error e) := by
  cases result with
  | ok a => exact ensures_pure fun _ hs => ⟨hs, rfl⟩
  | error e => exact ensures_throw fun _ hs => ⟨hs, e, rfl⟩

theorem ensures_ofExcept_ok {P : σ → Prop} {result : Except ε α} {a : α}
    {E : Raised ε → σ → Prop} (h : result = .ok a) :
    Ensures P (ofExcept result) (fun b s => P s ∧ b = a) E := by
  subst h
  exact ensures_pure fun _ hs => ⟨hs, rfl⟩

theorem Ensures.bind {P : σ → Prop} {prog : EStateM ε σ α}
    {next : α → EStateM ε σ β} {M : α → σ → Prop}
    {Q : β → σ → Prop} {E : ε → σ → Prop}
    (h : Ensures P prog M E) (hnext : ∀ a, Ensures (M a) (next a) Q E) :
    Ensures P (prog >>= next) Q E := by
  intro s hs
  have hrun := h s hs
  rw [EStateM.run_bind]
  cases hprog : prog.run s with
  | ok a s' => exact hnext a s' (by simpa [hprog] using hrun)
  | error e s' => simpa [hprog] using hrun

/-- A returned value of which something is known, whatever the state. -/
theorem Ensures.bind_fact {P : σ → Prop} {prog : EStateM ε σ α}
    {next : α → EStateM ε σ β} {fact : α → Prop}
    {Q : β → σ → Prop} {E : ε → σ → Prop}
    (h : Ensures P prog (fun a _ => fact a) E)
    (hnext : ∀ a, fact a → Ensures (fun _ => True) (next a) Q E) :
    Ensures P (prog >>= next) Q E :=
  h.bind fun a s ha => hnext a ha s trivial

/-- The handler takes over exactly the ordinary exceptions of the body. -/
theorem Ensures.tryExcept {P : σ → Prop} {body : EStateM (Raised ε) σ α}
    {handler : ε → EStateM (Raised ε) σ α} {M : ε → σ → Prop}
    {Q : α → σ → Prop} {E : Raised ε → σ → Prop}
    (hbody : Ensures P body Q fun r s =>
      match r with
      | .exception e => M e s
      | .cancelled => E .cancelled s)
    (hhandler : ∀ e, Ensures (M e) (handler e) Q E) :
    Ensures P (tryExcept body handler) Q E := by
  intro s hs
  have hrun := hbody s hs
  rw [run_tryExcept]
  cases hprog : body.run s with
  | ok a s' => simpa [hprog] using hrun
  | error r s' =>
      cases r with
      | exception e => exact hhandler e s' (by simpa [hprog] using hrun)
      | cancelled => simpa [hprog] using hrun

/-- A body that is never cancelled hands every raise to the handler. -/
theorem Ensures.tryExcept_exceptions {P M : σ → Prop} {body : EStateM (Raised ε) σ α}
    {handler : ε → EStateM (Raised ε) σ α} {Q : α → σ → Prop}
    {E : Raised ε → σ → Prop} (hbody : Ensures P body Q fun r s => r.IsException ∧ M s)
    (hhandler : ∀ e, Ensures M (handler e) Q E) :
    Ensures P (Program.tryExcept body handler) Q E := by
  refine Ensures.tryExcept (M := fun _ => M) (hbody.impRaise ?_) hhandler
  intro r s h
  obtain ⟨⟨e, rfl⟩, hs⟩ := h
  exact hs

/-- What the body reaches on either exit and the handler keeps is reached on
both exits. -/
theorem Ensures.tryExcept_keeping {P I : σ → Prop} {body : EStateM (Raised ε) σ α}
    {handler : ε → EStateM (Raised ε) σ α}
    (hbody : Ensures P body (fun _ => I) fun _ => I)
    (hhandler : ∀ e, Ensures I (handler e) (fun _ => I) fun _ => I) :
    Ensures P (Program.tryExcept body handler) (fun _ => I) fun _ => I := by
  refine Ensures.tryExcept (M := fun _ => I) (hbody.impRaise ?_) hhandler
  intro r s hs
  cases r with
  | exception e => exact hs
  | cancelled => exact hs

/-- A program on one component keeps whatever does not depend on that
component, and returns or raises what it does there. -/
theorem ensures_focus {get : σ → τ} {put : τ → σ → σ} {prog : EStateM ε τ α}
    {F : σ → Prop} {R : α → Prop} {E : ε → Prop}
    (hprog : Ensures (fun _ => True) prog (fun a _ => R a) fun e _ => E e)
    (hF : ∀ t s, F s → F (put t s)) :
    Ensures F (focus get put prog) (fun a s => F s ∧ R a)
      fun e s => F s ∧ E e := by
  intro s hs
  have hrun := hprog (get s) trivial
  simp only [EStateM.run, focus] at hrun ⊢
  cases hresult : prog (get s) with
  | ok a t => exact ⟨hF t s hs, by simpa [hresult] using hrun⟩
  | error e t => exact ⟨hF t s hs, by simpa [hresult] using hrun⟩

/-- Loop rule: an invariant over the accumulator that one iteration preserves
holds when the loop is done. -/
theorem ensures_foldlM {I : α → σ → Prop} {E : ε → σ → Prop}
    {step : α → ι → EStateM ε σ α} {xs : List ι}
    (hstep : ∀ a, ∀ x ∈ xs, Ensures (I a) (step a x) I E) :
    ∀ a, Ensures (I a) (xs.foldlM step a) I E := by
  induction xs with
  | nil => exact fun a => ensures_pure fun _ hs => hs
  | cons x xs ih =>
      intro a
      rw [List.foldlM_cons]
      exact (hstep a x (by simp)).bind fun b =>
        ih (fun c y hy => hstep c y (by simp [hy])) b

/-- Loop rule for an invariant that looks at the part of the list already
visited. -/
theorem ensures_foldlM_visited {I : List ι → α → σ → Prop} {E : ε → σ → Prop}
    {step : α → ι → EStateM ε σ α} {xs : List ι}
    (hstep : ∀ done x rest a, xs = done ++ x :: rest →
      Ensures (I done a) (step a x) (I (done ++ [x])) E) (a : α) :
    Ensures (I [] a) (xs.foldlM step a) (I xs) E := by
  have hrest : ∀ rest done a, xs = done ++ rest →
      Ensures (I done a) (rest.foldlM step a) (I xs) E := by
    intro rest
    induction rest with
    | nil =>
        intro done a hxs
        rw [List.append_nil] at hxs
        exact hxs ▸ ensures_pure fun _ hs => hs
    | cons x rest ih =>
        intro done a hxs
        rw [List.foldlM_cons]
        exact (hstep done x rest a hxs).bind fun b => ih (done ++ [x]) b (by simp [hxs])
  exact hrest xs [] a rfl

/-! ## What a program leaves alone -/

/-- A condition that every run keeps, however it ends. -/
def Preserves (I : σ → Prop) (prog : EStateM ε σ α) : Prop :=
  Ensures I prog (fun _ => I) fun _ => I

namespace Preserves

variable {I : σ → Prop}

theorem bind {prog : EStateM ε σ α} {next : α → EStateM ε σ β}
    (h : Preserves I prog) (hnext : ∀ a, Preserves I (next a)) :
    Preserves I (prog >>= next) :=
  Ensures.bind h hnext

theorem pure (a : α) : Preserves (ε := ε) I (Pure.pure a : EStateM ε σ α) :=
  ensures_pure fun _ hs => hs

theorem throw (e : ε) : Preserves I (throw e : EStateM ε σ α) :=
  ensures_throw fun _ hs => hs

theorem ofExcept (result : Except ε α) :
    Preserves I (Program.ofExcept result : EStateM (Raised ε) σ α) :=
  (ensures_ofExcept result).imp (fun _ _ h => h.1) fun _ _ h => h.1

theorem tryExcept {body : EStateM (Raised ε) σ α}
    {handler : ε → EStateM (Raised ε) σ α} (hbody : Preserves I body)
    (hhandler : ∀ e, Preserves I (handler e)) :
    Preserves I (Program.tryExcept body handler) :=
  Ensures.tryExcept_keeping hbody hhandler

end Preserves

end AiBackend.Program

import AiBackend.Api.RateLimitMiddleware

/-!
# The steps of the rate limit middleware

Where a request can go from each stage, and what that does to Redis, for every
way in which the awaited call can end.
-/

namespace AiBackend
namespace RateLimitMiddleware

open Program Python RedisRateLimiter ErrorHandler Interleaving

variable {β : Type}

/-- The stages at which the call of the rest of the application runs. -/
def Stage.isForwarded : Stage β → Bool
  | .forwarded _ => true
  | _ => false

/-- A call is awaited. -/
def Stage.Awaits : Stage β → Prop
  | .arrived => False
  | .done _ => False
  | .raised _ => False
  | _ => True

section Steps

variable (limit : ℤ) (render : ErrorResponse → β) (request : Request) (moment : Moment β)

/-- The call of the script. -/
def Request.call (now : ℚ) : Call := ⟨request.rateKey, now, moment.random, none⟩

/-- What the awaited call does to Redis. -/
def Stage.effect (space : Keyspace) : Stage β → Keyspace
  | .checking now => (isAllowed limit space (request.call moment now)).2
  | .trimming now _ => trim space now (rateKey request.rateKey)
  | _ => space

/-- What is left in Redis: a call that fails has had its effect or not. -/
def Moment.leaves (space after : Keyspace) : Keyspace :=
  match moment.fault with
  | none => after
  | some fault => if fault.landed then after else space

/-- Where a request goes from a stage. -/
inductive Goes (space : Keyspace) : Stage β → Stage β → Prop
  | health (h : request.isHealth = true) : Goes space .arrived (.forwarded false)
  | check (h : request.isHealth = false) : Goes space .arrived (.checking moment.time)
  | allowed (now : ℚ) (hfault : moment.fault = none)
      (h : (isAllowed limit space (request.call moment now)).1 = true) :
      Goes space (.checking now) (.forwarded true)
  | denied (now : ℚ) (hfault : moment.fault = none)
      (h : (isAllowed limit space (request.call moment now)).1 = false) :
      Goes space (.checking now) .exceeded
  | scriptFailed (now : ℚ) (fault : Fault PyExc) (hfault : moment.fault = some fault) :
      Goes space (.checking now) .scriptFailed
  | failedOpen (hfault : moment.fault = none) : Goes space .scriptFailed (.forwarded true)
  | refused (hfault : moment.fault = none) :
      Goes space .exceeded (.done (tooManyRequests render))
  | logFailed (stage : Stage β) (hstage : stage = .scriptFailed ∨ stage = .exceeded)
      (fault : Fault PyExc) (hfault : moment.fault = some fault) :
      Goes space stage .unavailable
  | unchecked (hfault : moment.fault = none) : Goes space .unavailable (.forwarded false)
  | answered (hfault : moment.fault = none) :
      Goes space (.forwarded true) (.trimming moment.time moment.response)
  | passed (hfault : moment.fault = none) :
      Goes space (.forwarded false) (.done moment.response)
  | trimmed (now : ℚ) (response : HttpResponse β) (hfault : moment.fault = none) :
      Goes space (.trimming now response) (.counting now response)
  | told (now : ℚ) (response : HttpResponse β) (hfault : moment.fault = none) :
      Goes space (.counting now response) (.done (withRemaining limit
        (remainingOf limit (card space moment.time (rateKey request.rateKey))) response))
  | untold (now : ℚ) (response : HttpResponse β) (stage : Stage β)
      (hstage : stage = .trimming now response ∨ stage = .counting now response)
      (fault : Fault PyExc) (hfault : moment.fault = some fault) :
      Goes space stage (.done (withRemaining limit limit response))
  | raised (stage : Stage β) (hstage : stage.Awaits) (fault : Fault PyExc)
      (hfault : moment.fault = some fault) : Goes space stage (.raised fault.raised)
  | ended (stage : Stage β) (hstage : ¬ stage.Awaits) (harrived : stage ≠ .arrived) :
      Goes space stage stage

end Steps

section Runs

variable {limit : ℤ} {render : ErrorResponse → β} {request : Request} {moment : Moment β}
  {space : Keyspace}

theorem run_await_of_none {α : Type} (hfault : moment.fault = none) (action : Prog α) :
    moment.await action = action := by
  exact perform_of_none (show (fun _ : Unit => moment.fault) () = none from hfault)

theorem run_await_of_some {α : Type} {fault : Fault PyExc} (hfault : moment.fault = some fault)
    (action : Prog α) (s : Keyspace) :
    (moment.await action).run s =
      .error fault.raised (moment.leaves s (finalState (action.run s))) := by
  rw [Moment.leaves, hfault]
  exact run_perform_of_some (show (fun _ : Unit => moment.fault) () = some fault from hfault)
    action s

/-- A step of a request leads where `Goes` says, and has the effect of the call
that it awaits. -/
def Leads (limit : ℤ) (render : ErrorResponse → β) (request : Request) (moment : Moment β)
    (space : Keyspace) (stage : Stage β) (prog : Prog (Stage β)) : Prop :=
  ∃ next, Goes limit render request moment space stage next ∧
    (prog.run space =
        .ok next (moment.leaves space (stage.effect limit request moment space)) ∨
      ∃ r, next = .raised r ∧ prog.run space =
        .error r (moment.leaves space (stage.effect limit request moment space)))

section Leads

variable {α : Type} {stage : Stage β} {action : Prog α} {next : α → Stage β} {a : α}

/-- An awaited call whose failure nobody handles. -/
theorem leads_await
    (haction : action.run space = .ok a (stage.effect limit request moment space))
    (hawaits : stage.Awaits)
    (hnext : moment.fault = none → Goes limit render request moment space stage (next a)) :
    Leads limit render request moment space stage
      (do
        let x ← moment.await action
        pure (next x)) := by
  cases hfault : moment.fault with
  | none =>
      refine ⟨next a, hnext hfault, .inl ?_⟩
      rw [run_await_of_none hfault, EStateM.run_bind, haction, Moment.leaves, hfault]
      rfl
  | some fault =>
      refine ⟨.raised fault.raised, .raised stage hawaits fault hfault, .inr ⟨_, rfl, ?_⟩⟩
      rw [EStateM.run_bind, run_await_of_some hfault, haction]
      rfl

/-- An awaited call with a handler for its exceptions. -/
theorem leads_tryExcept {other : Stage β}
    (haction : action.run space = .ok a (stage.effect limit request moment space))
    (hawaits : stage.Awaits)
    (hnext : moment.fault = none → Goes limit render request moment space stage (next a))
    (hother : ∀ fault, moment.fault = some fault →
      Goes limit render request moment space stage other) :
    Leads limit render request moment space stage
      (tryExcept (do
        let x ← moment.await action
        pure (next x))
        fun _ => pure other) := by
  cases hfault : moment.fault with
  | none =>
      refine ⟨next a, hnext hfault, .inl ?_⟩
      rw [run_tryExcept, run_await_of_none hfault, EStateM.run_bind, haction, Moment.leaves,
        hfault]
      rfl
  | some fault =>
      have hbody : (do
          let x ← moment.await action
          pure (next x)).run space = .error fault.raised
            (moment.leaves space (stage.effect limit request moment space)) := by
        rw [EStateM.run_bind, run_await_of_some hfault, haction]
        rfl
      cases hraised : fault.raised with
      | exception e =>
          refine ⟨other, hother fault hfault, .inl ?_⟩
          rw [run_tryExcept, hbody, hraised]
          rfl
      | cancelled =>
          refine ⟨.raised fault.raised, .raised stage hawaits fault hfault, .inr ⟨_, rfl, ?_⟩⟩
          rw [run_tryExcept, hbody, hraised]

end Leads

theorem leaves_self (moment : Moment β) (space : Keyspace) : moment.leaves space space = space := by
  unfold Moment.leaves
  split
  · rfl
  · exact ite_self space

/-- A call has had its effect or none. -/
theorem leaves_cases (moment : Moment β) (space after : Keyspace) :
    moment.leaves space after = after ∨ moment.leaves space after = space := by
  unfold Moment.leaves
  split
  · exact .inl rfl
  · split
    · exact .inl rfl
    · exact .inr rfl

theorem leads_advance (limit : ℤ) (render : ErrorResponse → β) (request : Request)
    (moment : Moment β) (space : Keyspace) (stage : Stage β) :
    Leads limit render request moment space stage
      (advance limit render request moment stage) := by
  cases stage with
  | arrived =>
      have hleaves : moment.leaves space
          (Stage.arrived.effect limit request moment space) = space :=
        leaves_self moment space
      cases hhealth : request.isHealth with
      | true =>
          refine ⟨.forwarded false, .health hhealth, .inl ?_⟩
          rw [advance, hhealth, hleaves]
          rfl
      | false =>
          refine ⟨.checking moment.time, .check hhealth, .inl ?_⟩
          rw [advance, hhealth, hleaves]
          rfl
  | checking now =>
      have hgoes : moment.fault = none →
          Goes limit render request moment space (.checking now)
            (if (isAllowed limit space (request.call moment now)).1 then .forwarded true
              else .exceeded) := by
        intro hfault
        cases hallowed : (isAllowed limit space (request.call moment now)).1 with
        | true => exact .allowed now hfault hallowed
        | false => exact .denied now hfault hallowed
      exact leads_tryExcept rfl trivial hgoes fun fault hfault => .scriptFailed now fault hfault
  | scriptFailed =>
      exact leads_tryExcept rfl trivial .failedOpen fun fault hfault =>
        .logFailed _ (.inl rfl) fault hfault
  | exceeded =>
      exact leads_tryExcept rfl trivial .refused fun fault hfault =>
        .logFailed _ (.inr rfl) fault hfault
  | unavailable => exact leads_await rfl trivial .unchecked
  | forwarded told =>
      refine leads_await rfl trivial fun hfault => ?_
      cases told with
      | true => exact .answered hfault
      | false => exact .passed hfault
  | trimming now response =>
      exact leads_tryExcept rfl trivial (.trimmed now response) fun fault hfault =>
        .untold now response _ (.inl rfl) fault hfault
  | counting now response =>
      exact leads_tryExcept rfl trivial (.told now response) fun fault hfault =>
        .untold now response _ (.inr rfl) fault hfault
  | done response =>
      exact ⟨.done response, .ended _ id (by simp), .inl
        (congrArg (EStateM.Result.ok _) (leaves_self moment space).symm)⟩
  | raised r =>
      exact ⟨.raised r, .ended _ id (by simp), .inl
        (congrArg (EStateM.Result.ok _) (leaves_self moment space).symm)⟩

end Runs

section Machine

variable {ι : Type} [DecidableEq ι] (limit : ℤ) (render : ErrorResponse → β)
  (requests : ι → Request) (m : System ι (Stage β) Keyspace) (i : ι) (moment : Moment β)

/-- One step of the machine. -/
theorem step_eq :
    ∃ next, Goes limit render (requests i) moment m.shared (m.stages i) next ∧
      step limit render requests m (i, moment) =
        ⟨Function.update m.stages i next, moment.leaves m.shared
          ((m.stages i).effect limit (requests i) moment m.shared)⟩ := by
  obtain ⟨next, hgoes, hrun | ⟨r, rfl, hrun⟩⟩ :=
    leads_advance limit render (requests i) moment m.shared (m.stages i)
  · exact ⟨next, hgoes, Interleaving.step_of_ok hrun⟩
  · exact ⟨_, hgoes, Interleaving.step_of_error hrun⟩

theorem goes_step :
    Goes limit render (requests i) moment m.shared (m.stages i)
      ((step limit render requests m (i, moment)).stages i) := by
  obtain ⟨next, hgoes, hstep⟩ := step_eq limit render requests m i moment
  have hnext : (step limit render requests m (i, moment)).stages i = next := by
    rw [hstep]
    exact Function.update_self ..
  rwa [hnext]

theorem stages_step_of_ne {j : ι} (h : j ≠ i) :
    (step limit render requests m (i, moment)).stages j = m.stages j := by
  obtain ⟨next, -, hstep⟩ := step_eq limit render requests m i moment
  rw [hstep]
  exact Function.update_of_ne h ..

theorem shared_step :
    (step limit render requests m (i, moment)).shared =
      moment.leaves m.shared ((m.stages i).effect limit (requests i) moment m.shared) := by
  obtain ⟨next, -, hstep⟩ := step_eq limit render requests m i moment
  rw [hstep]

end Machine

end RateLimitMiddleware
end AiBackend

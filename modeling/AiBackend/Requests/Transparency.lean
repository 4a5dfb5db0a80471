import AiBackend.Requests.MiddlewareSteps
import AiBackend.Support.Run

/-!
# What the rate limit middleware does to a request

However the requests interleave and whatever fails, the application behind the
middleware sees a request once at most.  A request that it does not see gets the
answer 429; any other answer is the application's, but for the two headers about
the rate limit.  Health checks pass untouched and do not reach Redis.
-/

namespace AiBackend

/-! ## Headers -/

/-- Setting a header leaves the headers of other names as they are. -/
theorem filter_setHeader {p : String → Bool} {name : String} (h : p name = false)
    (headers : List (String × String)) (value : String) :
    (setHeader headers name value).filter (fun header => p header.1) =
      headers.filter fun header => p header.1 := by
  induction headers with
  | nil => simp [setHeader, h]
  | cons header rest ih =>
      rw [setHeader]
      by_cases hname : header.1 = name
      · rw [if_pos hname, List.filter_cons_of_neg (by simpa using h),
          List.filter_cons_of_neg (by simpa [hname] using h), List.filter_filter]
        refine List.filter_congr fun other _ => ?_
        by_cases hother : other.1 = name
        · simp [hother, h]
        · simp [hother]
      · rw [if_neg hname, List.filter_cons, List.filter_cons, ih]

namespace RateLimitMiddleware

open Program Python RedisRateLimiter ErrorHandler Interleaving Run

variable {β : Type} {ι : Type} [DecidableEq ι]

/-! ## What has become of a request -/

/-- A header that is not about the rate limit. -/
def IsOther (header : String × String) : Bool :=
  header.1 ≠ "x-ratelimit-remaining" ∧ header.1 ≠ "x-ratelimit-limit"

/-- The response is what the application answered, but for the headers about
the rate limit; for a health check it is that answer. -/
structure PassesOn (request : Request) (answer response : HttpResponse β) : Prop where
  statusCode : response.statusCode = answer.statusCode
  body : response.body = answer.body
  headers : response.headers.filter IsOther = answer.headers.filter IsOther
  health : request.isHealth = true → response = answer

theorem passesOn_refl (request : Request) (answer : HttpResponse β) :
    PassesOn request answer answer :=
  ⟨rfl, rfl, rfl, fun _ => rfl⟩

theorem passesOn_withRemaining {request : Request} (h : request.isHealth = false)
    (limit remaining : ℤ) (answer : HttpResponse β) :
    PassesOn request answer (withRemaining limit remaining answer) where
  statusCode := rfl
  body := rfl
  headers := by
    change (setHeader (setHeader answer.headers _ _) _ _).filter IsOther = _
    exact (filter_setHeader (p := fun name =>
      name ≠ "x-ratelimit-remaining" ∧ name ≠ "x-ratelimit-limit") (by decide) _ _).trans
      (filter_setHeader (p := fun name =>
        name ≠ "x-ratelimit-remaining" ∧ name ≠ "x-ratelimit-limit") (by decide) _ _)
  health := fun hhealth => absurd (h.symm.trans hhealth) Bool.false_ne_true

abbrev Served (β ι : Type) :=
  Transition (System ι (Stage β) Keyspace) (ι × Moment β)

/-- The transition hands the request on to the application. -/
def Enters (i : ι) (t : Served β ι) : Bool :=
  t.input.1 = i ∧ (t.before.stages i).isForwarded = false ∧
    (t.after.stages i).isForwarded = true

/-- How often the application sees the request. -/
def entries (i : ι) (past : List (Served β ι)) : ℕ := past.countP (Enters i)

/-- The answer of the application to the request, if the transition brings it. -/
def answer? (i : ι) (t : Served β ι) : Option (HttpResponse β) :=
  if t.input.1 = i ∧ (t.before.stages i).isForwarded = true then
    match t.input.2.fault with
    | none => some t.input.2.response
    | some _ => none
  else none

def answers (i : ι) (past : List (Served β ι)) : List (HttpResponse β) :=
  past.filterMap (answer? i)

/-- What a stage says about how often the application has seen the request, and
what it has answered. -/
def Accounts (render : ErrorResponse → β) (request : Request) (entered : ℕ)
    (answered : List (HttpResponse β)) : Stage β → Prop
  | .arrived => entered = 0 ∧ answered = []
  | .checking _ => request.isHealth = false ∧ entered = 0 ∧ answered = []
  | .scriptFailed => request.isHealth = false ∧ entered = 0 ∧ answered = []
  | .exceeded => request.isHealth = false ∧ entered = 0 ∧ answered = []
  | .unavailable => request.isHealth = false ∧ entered = 0 ∧ answered = []
  | .forwarded told => (told = true → request.isHealth = false) ∧ entered = 1 ∧ answered = []
  | .trimming _ response => request.isHealth = false ∧ entered = 1 ∧ answered = [response]
  | .counting _ response => request.isHealth = false ∧ entered = 1 ∧ answered = [response]
  | .done response =>
      (request.isHealth = false ∧ entered = 0 ∧ response = tooManyRequests render) ∨
        (entered = 1 ∧ ∃ answer, answered = [answer] ∧ PassesOn request answer response)
  | .raised _ => entered ≤ 1

section Accounts

variable {limit : ℤ} {render : ErrorResponse → β} {request : Request} {moment : Moment β}
  {space : Keyspace} {stage next : Stage β} {entered : ℕ} {answered : List (HttpResponse β)}

theorem Accounts.entered_le (h : Accounts render request entered answered stage) :
    entered ≤ 1 := by
  cases stage with
  | arrived => exact h.1.le.trans (Nat.zero_le 1)
  | forwarded told => exact h.2.1.le
  | trimming now response => exact h.2.1.le
  | counting now response => exact h.2.1.le
  | done response => exact h.elim (fun h => h.2.1.le.trans (Nat.zero_le 1)) fun h => h.1.le
  | raised r => exact h
  | _ => exact h.2.1.le.trans (Nat.zero_le 1)

/-- One step keeps the account, with what it adds. -/
theorem accounts_goes (hgoes : Goes limit render request moment space stage next)
    (h : Accounts render request entered answered stage) :
    Accounts render request
      (entered + if stage.isForwarded = false ∧ next.isForwarded = true then 1 else 0)
      (answered ++ (if stage.isForwarded = true then
        match moment.fault with
        | none => [moment.response]
        | some _ => []
        else [])) next := by
  cases hgoes with
  | health hhealth =>
      obtain ⟨rfl, rfl⟩ := h
      exact ⟨fun hfalse => absurd hfalse Bool.false_ne_true, rfl, rfl⟩
  | check hhealth =>
      obtain ⟨rfl, rfl⟩ := h
      exact ⟨hhealth, rfl, rfl⟩
  | allowed now hfault hallowed =>
      obtain ⟨hhealth, rfl, rfl⟩ := h
      exact ⟨fun _ => hhealth, rfl, rfl⟩
  | denied now hfault hdenied =>
      obtain ⟨hhealth, rfl, rfl⟩ := h
      exact ⟨hhealth, rfl, rfl⟩
  | scriptFailed now fault hfault =>
      obtain ⟨hhealth, rfl, rfl⟩ := h
      exact ⟨hhealth, rfl, rfl⟩
  | failedOpen hfault =>
      obtain ⟨hhealth, rfl, rfl⟩ := h
      exact ⟨fun _ => hhealth, rfl, rfl⟩
  | refused hfault =>
      obtain ⟨hhealth, rfl, rfl⟩ := h
      exact .inl ⟨hhealth, rfl, rfl⟩
  | logFailed stage hstage fault hfault =>
      rcases hstage with rfl | rfl
      · obtain ⟨hhealth, rfl, rfl⟩ := h
        exact ⟨hhealth, rfl, rfl⟩
      · obtain ⟨hhealth, rfl, rfl⟩ := h
        exact ⟨hhealth, rfl, rfl⟩
  | unchecked hfault =>
      obtain ⟨hhealth, rfl, rfl⟩ := h
      exact ⟨fun _ => hhealth, rfl, rfl⟩
  | answered hfault =>
      obtain ⟨hhealth, rfl, rfl⟩ := h
      rw [hfault]
      exact ⟨hhealth rfl, rfl, rfl⟩
  | passed hfault =>
      obtain ⟨-, rfl, rfl⟩ := h
      rw [hfault]
      exact .inr ⟨rfl, moment.response, rfl, passesOn_refl _ _⟩
  | trimmed now response hfault =>
      obtain ⟨hhealth, rfl, rfl⟩ := h
      exact ⟨hhealth, rfl, rfl⟩
  | told now response hfault =>
      obtain ⟨hhealth, rfl, rfl⟩ := h
      exact .inr ⟨rfl, response, rfl, passesOn_withRemaining hhealth _ _ _⟩
  | untold now response stage hstage fault hfault =>
      rcases hstage with rfl | rfl
      · obtain ⟨hhealth, rfl, rfl⟩ := h
        exact .inr ⟨rfl, response, rfl, passesOn_withRemaining hhealth _ _ _⟩
      · obtain ⟨hhealth, rfl, rfl⟩ := h
        exact .inr ⟨rfl, response, rfl, passesOn_withRemaining hhealth _ _ _⟩
  | raised stage hstage fault hfault =>
      have hnone : ¬ (stage.isForwarded = false ∧
          (Stage.raised fault.raised : Stage β).isForwarded = true) := by
        rintro ⟨-, hforwarded⟩
        cases hforwarded
      rw [if_neg hnone]
      exact h.entered_le
  | ended stage hstage harrived =>
      cases stage with
      | done response => simpa [Stage.isForwarded] using h
      | raised r => simpa [Stage.isForwarded] using h
      | arrived => exact absurd rfl harrived
      | _ => exact absurd trivial hstage

end Accounts

/-! ## Runs -/

section Runs

variable (limit : ℤ) (render : ErrorResponse → β) (requests : ι → Request) (space : Keyspace)
  (inputs : List (ι × Moment β))

/-- The transitions of a run from the first request on. -/
abbrev served : List (Served β ι) := trace (step limit render requests) (start space) inputs

/-- After a run the stage of every request accounts for it. -/
theorem accounts_final (i : ι) :
    Accounts render (requests i) (entries i (served limit render requests space inputs))
      (answers i (served limit render requests space inputs))
      ((final (step limit render requests) (start space) inputs).stages i) := by
  have hstart : Accounts render (requests i) (entries i ([] : List (Served β ι)))
      (answers i []) .arrived := ⟨rfl, rfl⟩
  refine history_of_steps (G := fun _ => True)
    (I := fun past m => Accounts render (requests i) (entries i past) (answers i past)
      (m.stages i)) (fun _ _ _ => trivial) ?_ hstart inputs trivial
  rintro past m ⟨j, moment⟩ h -
  rw [entries, answers, List.countP_append, List.filterMap_append, List.countP_singleton,
    List.filterMap_cons, List.filterMap_nil, ← entries, ← answers]
  by_cases hij : j = i
  · subst hij
    have hnext := accounts_goes (goes_step limit render requests m j moment) h
    convert hnext using 2
    · simp [Enters]
    · by_cases hforwarded : (m.stages j).isForwarded = true
      · cases hfault : moment.fault with
        | none => simp [answer?, hforwarded, hfault]
        | some fault => simp [answer?, hforwarded, hfault]
      · simp [answer?, hforwarded]
  · have hafter := stages_step_of_ne limit render requests m j moment (Ne.symm hij)
    simpa [hafter, Enters, answer?, hij] using h

/-- A stage that a health check is never at changes Redis, and no other. -/
theorem effect_of_health {request : Request} {entered : ℕ} {answered : List (HttpResponse β)}
    {stage : Stage β} (h : Accounts render request entered answered stage)
    (hhealth : request.isHealth = true) (moment : Moment β) :
    stage.effect limit request moment space = space := by
  cases stage with
  | checking now => exact absurd (h.1.symm.trans hhealth) Bool.false_ne_true
  | trimming now response => exact absurd (h.1.symm.trans hhealth) Bool.false_ne_true
  | _ => rfl

/-- However the requests interleave and whatever fails, the application sees
each of them once at most; a response is the application's, but for the headers
about the rate limit, or 429 and the application has not seen the request.  A
health check gets the answer of the application, and does not touch Redis. -/
theorem application_sees_once (i : ι) :
    entries i (served limit render requests space inputs) ≤ 1 ∧
      (∀ response,
        (final (step limit render requests) (start space) inputs).stages i = .done response →
          ((requests i).isHealth = false ∧
              entries i (served limit render requests space inputs) = 0 ∧
              response = tooManyRequests render) ∨
            (entries i (served limit render requests space inputs) = 1 ∧
              ∃ answer, answers i (served limit render requests space inputs) = [answer] ∧
                PassesOn (requests i) answer response)) ∧
      ((requests i).isHealth = true → ∀ moment : Moment β,
        (final (step limit render requests) (start space)
          (inputs ++ [(i, moment)])).shared =
        (final (step limit render requests) (start space) inputs).shared) := by
  have haccounts := accounts_final limit render requests space inputs i
  refine ⟨haccounts.entered_le, fun response hdone => ?_, fun hhealth moment => ?_⟩
  · rw [hdone] at haccounts
    exact haccounts
  · rw [final_append]
    change (step limit render requests _ (i, moment)).shared = _
    rw [shared_step, effect_of_health limit render _ haccounts hhealth, leaves_self]

end Runs

end RateLimitMiddleware
end AiBackend

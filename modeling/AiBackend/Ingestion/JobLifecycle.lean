import AiBackend.Domain.IngestionJob
import AiBackend.Support.Run

/-!
# The life of an ingestion job

Arbitrary sequences of method calls on one job.  A call is lawful when it
moves the status along an edge of the transition table, changes nothing if it
raises, and leaves `completed_at` and `error_message` set exactly in the
statuses they belong to.  Only `advance_status` consults the table, and it
sets neither field; `fail` and `complete` set the fields and skip the table.
A job's life is lawful exactly when no call meets one of these gaps.
-/

namespace AiBackend

open Program Python Run

/-- A method call on a job, with its arguments. -/
inductive JobCall where
  | advanceStatus (newStatus : IngestionStatus)
  | recordProgress (processed total : ℤ)
  | fail (error : String)
  | complete
  deriving DecidableEq, Repr

namespace JobCall

/-- The method a call runs. -/
def method (now : ℕ → Timestamp) : JobCall → EStateM PyExc IngestionJob Unit
  | .advanceStatus newStatus => IngestionJob.advanceStatus newStatus now
  | .recordProgress processed total =>
      IngestionJob.recordProgress processed total now
  | .fail error => IngestionJob.fail error now
  | .complete => IngestionJob.complete now

/-- Whether the call raises. -/
def raises (call : JobCall) (now : ℕ → Timestamp) (job : IngestionJob) : Prop :=
  ∃ e job', (call.method now).run job = .error e job'

/-- The calls that are lawful in a given status: an advance that the table
rejects or that leads to a status without a field of its own, progress at any
time, a failure before completion, and completion from the last stage. -/
def Admissible (status : IngestionStatus) : JobCall → Prop
  | .advanceStatus newStatus => newStatus ∈ validTransitions status →
      newStatus ∈ [IngestionStatus.extracting, .chunking, .embedding, .storing]
  | .recordProgress _ _ => True
  | .fail _ => status ≠ .completed
  | .complete => status = .storing ∨ status = .completed

end JobCall

/-- The job a call leaves behind; a raising call leaves what it had written. -/
def IngestionJob.after (job : IngestionJob)
    (input : JobCall × (ℕ → Timestamp)) : IngestionJob :=
  finalState ((input.1.method input.2).run job)

/-- The two optional fields are set exactly in their own statuses. -/
structure IngestionJob.FieldsAgree (job : IngestionJob) : Prop where
  completedAt : job.completedAt.isSome ↔ job.status = .completed
  errorMessage : job.errorMessage.isSome ↔ job.status = .failed

/-- What every call should do to the job. -/
structure LawfulCall
    (t : Transition IngestionJob (JobCall × (ℕ → Timestamp))) : Prop where
  edge : t.after.status ≠ t.before.status →
    t.after.status ∈ validTransitions t.before.status
  unchanged : t.input.1.raises t.input.2 t.before → t.after = t.before
  fields : t.after.FieldsAgree

/-! ## One call -/

section OneCall

variable {job : IngestionJob} (now : ℕ → Timestamp)

theorem not_raises_of_run_eq_ok {call : JobCall} {job' : IngestionJob}
    (h : (call.method now).run job = .ok () job') : ¬ call.raises now job := by
  intro h
  obtain ⟨e, job'', herror⟩ := h
  rw [h] at herror
  cases herror

/-- A call that raises is an advance the table rejects, and it changes no
field. -/
theorem after_eq_self_of_raises {call : JobCall}
    (h : call.raises now job) : job.after (call, now) = job := by
  cases call with
  | advanceStatus newStatus =>
      by_cases hmem : newStatus ∈ validTransitions job.status
      · obtain ⟨_, hrun⟩ := IngestionJob.advanceStatus_of_mem now hmem
        exact absurd h (not_raises_of_run_eq_ok now hrun)
      · simp [IngestionJob.after, JobCall.method,
          IngestionJob.advanceStatus_of_notMem now hmem]
  | recordProgress processed total =>
      exact absurd h (not_raises_of_run_eq_ok now (by rfl))
  | fail error => exact absurd h (not_raises_of_run_eq_ok now (by rfl))
  | complete => exact absurd h (not_raises_of_run_eq_ok now (by rfl))

/-- An accepted advance changes the status and neither optional field. -/
theorem after_advanceStatus {newStatus : IngestionStatus}
    (h : newStatus ∈ validTransitions job.status) :
    (job.after (.advanceStatus newStatus, now)).status = newStatus ∧
      (job.after (.advanceStatus newStatus, now)).completedAt = job.completedAt ∧
      (job.after (.advanceStatus newStatus, now)).errorMessage =
        job.errorMessage := by
  obtain ⟨startedAt, hrun⟩ := IngestionJob.advanceStatus_of_mem now h
  simp [IngestionJob.after, JobCall.method, hrun]

/-- Where the fields agree before a call, the call is lawful exactly when it
is admissible. -/
theorem lawfulCall_iff_admissible (call : JobCall) (hjob : job.FieldsAgree) :
    LawfulCall ⟨job, (call, now), job.after (call, now)⟩ ↔
      call.Admissible job.status := by
  have hraise : call.raises now job → job.after (call, now) = job :=
    after_eq_self_of_raises now
  obtain ⟨hcompleted, herror⟩ := hjob
  cases call with
  | advanceStatus newStatus =>
      by_cases hmem : newStatus ∈ validTransitions job.status
      · obtain ⟨hstatus, hcompletedAt, herrorMessage⟩ :=
          after_advanceStatus now hmem
        constructor
        · rintro ⟨-, -, hfields⟩ -
          have hc := hfields.completedAt
          have he := hfields.errorMessage
          simp only [hstatus, hcompletedAt, herrorMessage] at hc he
          -- an accepted target with a field of its own finds that field unset,
          -- and leaving FAILED finds the error message still set
          rw [hcompleted] at hc
          rw [herror] at he
          revert hmem hc he
          cases job.status <;> cases newStatus <;> decide
        · intro hadmissible
          have htarget := hadmissible hmem
          refine ⟨fun _ => by simpa only [hstatus] using hmem, hraise,
            ⟨?_, ?_⟩⟩
          · rw [hcompletedAt, hstatus, hcompleted]
            revert hmem htarget
            cases job.status <;> cases newStatus <;> decide
          · rw [herrorMessage, hstatus, herror]
            revert hmem htarget
            cases job.status <;> cases newStatus <;> decide
      · have hself : job.after (.advanceStatus newStatus, now) = job := by
          simp [IngestionJob.after, JobCall.method,
            IngestionJob.advanceStatus_of_notMem now hmem]
        rw [hself]
        exact ⟨fun _ h => absurd h hmem,
          fun _ => ⟨fun h => absurd rfl h, fun _ => rfl,
            ⟨hcompleted, herror⟩⟩⟩
  | recordProgress processed total =>
      exact ⟨fun _ => trivial, fun _ => ⟨fun h => absurd rfl h, hraise,
        ⟨hcompleted, herror⟩⟩⟩
  | fail error =>
      constructor
      · rintro ⟨-, -, hfields⟩ hstatus
        have hc : job.completedAt.isSome ↔
            (IngestionStatus.failed = .completed) := hfields.completedAt
        rw [hcompleted, hstatus] at hc
        exact absurd (hc.mp rfl) (by decide)
      · intro hstatus
        have hstatus' : job.status ≠ .completed := hstatus
        refine ⟨fun hne => ?_, hraise, ⟨?_, ?_⟩⟩
        · change IngestionStatus.failed ≠ job.status at hne
          change IngestionStatus.failed ∈ validTransitions job.status
          revert hne hstatus'
          cases job.status <;> decide
        · change job.completedAt.isSome ↔ IngestionStatus.failed = .completed
          rw [hcompleted]
          exact ⟨fun h => absurd h hstatus', fun h => by cases h⟩
        · exact ⟨fun _ => rfl, fun _ => rfl⟩
  | complete =>
      constructor
      · intro h
        obtain ⟨hedge, -, -⟩ := h
        change IngestionStatus.completed ≠ job.status →
          IngestionStatus.completed ∈ validTransitions job.status at hedge
        change job.status = .storing ∨ job.status = .completed
        revert hedge
        cases job.status <;> decide
      · intro hstatus
        change job.status = .storing ∨ job.status = .completed at hstatus
        refine ⟨fun hne => ?_, hraise, ⟨⟨fun _ => rfl, fun _ => rfl⟩,
          ⟨fun h => (by cases h), fun h => (by cases h)⟩⟩⟩
        change IngestionStatus.completed ≠ job.status at hne
        change IngestionStatus.completed ∈ validTransitions job.status
        rcases hstatus with hstatus | hstatus
        · simp [hstatus, validTransitions]
        · exact absurd hstatus.symm hne

end OneCall

/-! ## A whole life -/

/-- A job as its constructor leaves it. -/
structure IngestionJob.Fresh (job : IngestionJob) : Prop where
  status : job.status = .queued
  errorMessage : job.errorMessage = none
  completedAt : job.completedAt = none

theorem IngestionJob.Fresh.fieldsAgree {job : IngestionJob} (h : job.Fresh) :
    job.FieldsAgree where
  completedAt := by simp [h.status, h.completedAt]
  errorMessage := by simp [h.status, h.errorMessage]

/-- Every call in the life of a queued job is lawful if and only if every call
is admissible in the status it finds. -/
theorem job_life_lawful_iff (job : IngestionJob) (hjob : job.Fresh)
    (calls : List (JobCall × (ℕ → Timestamp))) :
    (∀ t ∈ trace IngestionJob.after job calls, LawfulCall t) ↔
      ∀ t ∈ trace IngestionJob.after job calls,
        t.input.1.Admissible t.before.status :=
  trace_forall_iff
    (fun (job : IngestionJob) (input : JobCall × (ℕ → Timestamp)) =>
      input.1.Admissible job.status)
    (fun _ input hfields =>
      lawfulCall_iff_admissible input.2 input.1 hfields)
    (fun _ _ _ hlaw => hlaw.fields) hjob.fieldsAgree calls

theorem IngestionJob.construct_fresh (id jobId : Uuid)
    (documentId : DocumentId) (now : ℕ → Timestamp) :
    (IngestionJob.construct id jobId documentId now).Fresh :=
  ⟨rfl, rfl, rfl⟩

/-- The calls of a pipeline run whose last document update fails: the job has
been completed when the error handler fails it. -/
def failedAfterCompletion : List JobCall :=
  [.advanceStatus .extracting, .advanceStatus .chunking, .recordProgress 0 0,
    .advanceStatus .embedding, .advanceStatus .storing, .complete,
    .fail "Pipeline failed: connection lost"]

/-- The calls of a pipeline run that goes through. -/
def completedRun : List JobCall :=
  [.advanceStatus .extracting, .advanceStatus .chunking, .recordProgress 0 3,
    .advanceStatus .embedding, .recordProgress 3 3, .advanceStatus .storing,
    .complete]

/-- The first job of a new deployment. -/
def firstJob : IngestionJob := .construct ⟨1⟩ ⟨2⟩ ⟨3⟩ fun _ => 0

theorem job_life_lawful_iff_completedRun :
    firstJob.Fresh ∧
      ((∀ t ∈ trace IngestionJob.after firstJob
          (completedRun.map fun call => (call, fun _ => 0)), LawfulCall t) ↔
        ∀ t ∈ trace IngestionJob.after firstJob
          (completedRun.map fun call => (call, fun _ => 0)),
          t.input.1.Admissible t.before.status) :=
  ⟨IngestionJob.construct_fresh _ _ _ _,
    job_life_lawful_iff firstJob (IngestionJob.construct_fresh _ _ _ _) _⟩

/-- A completed job can fail: the status then moves along no edge of the
table, and `completed_at` stays set on a failed job. -/
theorem job_life_not_always_lawful :
    ¬ ∀ (job : IngestionJob) (calls : List (JobCall × (ℕ → Timestamp))),
      job.Fresh → ∀ t ∈ trace IngestionJob.after job calls, LawfulCall t := by
  intro hall
  let calls := failedAfterCompletion.map fun call =>
    (call, fun _ : ℕ => (0 : Timestamp))
  have hlast : (trace IngestionJob.after firstJob calls)[6]? =
      some ⟨final IngestionJob.after firstJob (calls.take 6),
        (.fail "Pipeline failed: connection lost", fun _ => 0),
        final IngestionJob.after firstJob calls⟩ := rfl
  have hlawful := hall firstJob calls (IngestionJob.construct_fresh _ _ _ _) _
    (List.mem_of_getElem? hlast)
  have hbefore :
      (final IngestionJob.after firstJob (calls.take 6)).status = .completed :=
    rfl
  have hafter : (final IngestionJob.after firstJob calls).status = .failed :=
    rfl
  have hedge := hlawful.edge
  simp only [hbefore, hafter] at hedge
  exact absurd (hedge (by decide)) (by decide)

end AiBackend

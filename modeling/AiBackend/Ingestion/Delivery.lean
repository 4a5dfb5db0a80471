import AiBackend.Infrastructure.ArqWorker
import AiBackend.Ingestion.RunGuarantees

/-!
# What the attempts of a job achieve

Once the queue makes no further attempt, a document should be completed with
no dead letter, or failed with exactly one.  The task's call of the use case
does not bind: it passes a keyword the use case does not have.  So no attempt
ever reaches the pipeline, and no attempt touches the documents table.
-/

namespace AiBackend
namespace ArqWorker

open Program Python PostgresDocumentRepository

/-- The document's row and the dead-letter queue agree that the job is over. -/
def Settled (documentId : DocumentId) (s : State) : Prop :=
  (storedStatus s.run.documents documentId = some .completed ∧
      (deadLetters s.dlq documentId).length = 0) ∨
    (storedStatus s.run.documents documentId = some .failed ∧
      (deadLetters s.dlq documentId).length = 1)

/-- What the worker's call of the use case raises. -/
def unexpectedTenant : PyExc :=
  .typeError ("ProcessDocumentUseCase.execute() got an unexpected keyword " ++
    "argument 'tenant_id'")

section Attempts

variable {env : ProcessDocument.Env} {faults : Faults Site PyExc}
  {table : DocumentTable}

/-- The call of the use case raises in the worker, before any of its body
runs. -/
theorem callExecute_eq_throw (env : ProcessDocument.Env)
    (faults : Faults Site PyExc) (docId : DocumentId) (job : IngestionJob)
    (tId : TenantId) :
    callExecute env faults docId job tId =
      throw (.exception unexpectedTenant) := by
  have habsent : "tenant_id" ∉ executeSignature.params := by decide
  have hbind := executeSignature.bind_unexpected_keyword
    [.documentId docId, .job job] (Argument.tenantId tId) [] habsent
  simp only [callExecute, hbind]
  rfl

/-- Nothing the task does to the run's state outside the pipeline concerns
the documents. -/
theorem preserves_onRun {α : Type} {prog : ProcessDocument.Prog α}
    (h : Preserves (fun run => run.documents = table) prog) :
    Preserves (fun s : State => s.run.documents = table) (onRun prog) := by
  intro s hs
  have hrun := h s.run hs
  unfold onRun focus
  simp only [EStateM.run] at hrun ⊢
  cases hprog : prog s.run with
  | ok a run => simpa [hprog] using hrun
  | error e run => simpa [hprog] using hrun

theorem preserves_log (site : Site) :
    Preserves (fun s : State => s.run.documents = table) (log faults site) :=
  (Preserves.pure ()).perform

theorem preserves_writeToDlq (tenantId documentId jobId error : String) :
    Preserves (fun s : State => s.run.documents = table)
      (writeToDlq env faults tenantId documentId jobId error) := by
  refine Preserves.tryExcept ?_ fun _ => preserves_log _
  apply (preserves_onRun fun s hs => hs).bind
  intro now
  refine Preserves.bind (Preserves.perform ?_) fun _ => preserves_log _
  exact fun s hs => hs

/-- One attempt leaves the documents alone, however it ends. -/
theorem preserves_processDocumentTask (maxRetries jobTry : ℕ)
    (tenantId documentId jobId : String) :
    Preserves (fun s : State => s.run.documents = table)
      (processDocumentTask env faults maxRetries jobTry tenantId documentId
        jobId) := by
  unfold processDocumentTask
  -- what the identifiers read as does not matter
  generalize Uuid.fromStr documentId = docId?
  generalize Uuid.fromStr tenantId = tId?
  generalize Uuid.fromStr jobId = jId?
  apply (Preserves.ofExcept _).bind
  intro docId
  apply (Preserves.ofExcept _).bind
  intro tId
  apply (Preserves.ofExcept _).bind
  intro jId
  apply (preserves_onRun fun s hs => hs).bind
  intro uuid4
  apply (preserves_onRun fun s hs => hs).bind
  intro now
  apply Preserves.bind (fun s hs => hs)
  intro _
  apply (preserves_log _).bind
  intro _
  refine Preserves.tryExcept ?_ fun exc => ?_
  · apply (preserves_log _).bind
    intro _
    rw [callExecute_eq_throw]
    exact (Preserves.throw _).bind fun _ =>
      (preserves_log _).bind fun _ => Preserves.pure _
  · refine (preserves_log _).bind fun _ => (preserves_log _).bind fun _ => ?_
    split
    · exact (preserves_writeToDlq _ _ _ _).bind fun _ => Preserves.throw _
    · exact (Preserves.pure _).bind fun _ => Preserves.throw _

/-- No number of attempts touches the documents. -/
theorem attempts_documents (maxRetries : ℕ) (args : Enqueued)
    (history : List Attempt) (jobTry : ℕ) (s : State) :
    (attempts maxRetries args jobTry history s).run.documents =
      s.run.documents := by
  induction history generalizing jobTry s with
  | nil => rfl
  | cons attempt rest ih =>
      rw [attempts, ih]
      exact Ensures.final (preserves_processDocumentTask maxRetries jobTry _ _ _)
        rfl

end Attempts

/-- A document that waits for its job is never settled, however many attempts
are made and whatever happens during them. -/
theorem attempts_not_settled (maxRetries : ℕ) (args : Enqueued)
    (history : List Attempt) (s : State)
    (hprocessing : storedStatus s.run.documents args.documentId =
      some .processing) :
    ¬ Settled args.documentId (attempts maxRetries args 1 history s) := by
  unfold Settled
  rw [attempts_documents, hprocessing]
  rintro (⟨h, -⟩ | ⟨h, -⟩)
  · cases h
  · cases h

/-- The greeting, waiting for its job, and an empty dead-letter queue. -/
def greetingQueued : State where
  run := ProcessDocument.greetingState .processing KeyedList.empty
  dlq := KeyedList.empty

def greetingArgs : Enqueued := ⟨⟨2⟩, ⟨1⟩, ⟨5⟩⟩

/-- An attempt in which nothing fails. -/
def smoothAttempt : Attempt :=
  ⟨ProcessDocument.greetingEnv [ProcessDocument.greetingChunk], Faults.none⟩

theorem attempts_not_settled_greeting :
    storedStatus greetingQueued.run.documents ⟨1⟩ = some .processing ∧
      ¬ Settled ⟨1⟩ (attempts 3 greetingArgs 1 (List.replicate 3 smoothAttempt)
        greetingQueued) :=
  ⟨rfl, attempts_not_settled 3 greetingArgs (List.replicate 3 smoothAttempt)
    greetingQueued rfl⟩

/-- The writes of an attempt to the document's row and to the dead-letter
queue succeed. -/
structure WritesSucceed (attempt : Attempt) : Prop where
  updateEmpty : attempt.faults (.pipeline .updateEmpty) = none
  updateCompleted : attempt.faults (.pipeline .updateCompleted) = none
  handlerUpdate : attempt.faults (.pipeline .handlerUpdate) = none
  zadd : attempt.faults .zadd = none

/-- One attempt at the greeting, out of three and without any failure, leaves
the document as it was. -/
theorem attempts_not_always_settled :
    ¬ ∀ (maxRetries : ℕ) (args : Enqueued) (history : List Attempt) (s : State),
      1 ≤ history.length → history.length ≤ maxRetries →
      (∀ last ∈ history.getLast?, WritesSucceed last) →
      storedStatus s.run.documents args.documentId = some .processing →
      deadLetters s.dlq args.documentId = [] →
      Settled args.documentId (attempts maxRetries args 1 history s) := by
  intro hall
  have hlast : ∀ last ∈ [smoothAttempt].getLast?, WritesSucceed last := by
    intro last hmem
    obtain rfl : smoothAttempt = last := by simpa using hmem
    exact ⟨rfl, rfl, rfl, rfl⟩
  have hsettled := hall 3 greetingArgs [smoothAttempt] greetingQueued
    (by decide) (by decide) hlast rfl rfl
  have hprocessing : storedStatus (attempts 3 greetingArgs 1 [smoothAttempt]
      greetingQueued).run.documents greetingArgs.documentId =
        some .processing := by
    rw [attempts_documents]
    rfl
  unfold Settled at hsettled
  rw [hprocessing] at hsettled
  rcases hsettled with ⟨h, -⟩ | ⟨h, -⟩
  · cases h
  · cases h

end ArqWorker
end AiBackend

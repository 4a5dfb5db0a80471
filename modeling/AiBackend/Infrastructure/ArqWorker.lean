import AiBackend.Application.ProcessDocument
import AiBackend.Support.Python
import AiBackend.Support.SortedSet

/-!
# The ARQ worker

`process_document_task`, the function the queue calls once for every attempt
of a job, and the dead-letter queue it writes to on the last one.  The task
calls the use case with a keyword argument; the call is bound against the
parameters the use case really has.  A timeout cancels the task at any of its
calls, and a cancellation is not an `Exception`.
-/

namespace AiBackend

open Program Python

namespace ArqWorker

/-- The calls of the task that can raise or be cancelled. -/
inductive Site where
  | logStarted
  | container
  | pipeline (site : ProcessDocument.Site)
  | logCompleted
  | getSettings
  | logFailed
  | zadd
  | logDeadLetter
  | logWriteFailed
  deriving DecidableEq, Repr

/-- A member of the sorted set `dlq:document_processing`. -/
structure DeadLetter where
  tenantId : String
  documentId : String
  jobId : String
  error : String
  failedAt : Timestamp
  deriving DecidableEq, Repr

/-- The sorted set under that key. -/
abbrev DeadLetterQueue := SortedSet DeadLetter

/-- The state the attempts of a job share; `run.job` is the job object of the
current attempt. -/
structure State where
  run : ProcessDocument.State
  dlq : DeadLetterQueue

abbrev Prog (α : Type) := EStateM (Raised PyExc) State α

/-- What the task returns; the elapsed time is left out. -/
structure TaskResult where
  documentId : String
  status : String
  deriving DecidableEq, Repr

/-- The parameters of `ProcessDocumentUseCase.execute`. -/
def executeSignature : Signature where
  qualname := "ProcessDocumentUseCase.execute"
  params := ["document_id", "job"]

/-- The arguments the task passes to it. -/
inductive Argument where
  | documentId (d : DocumentId)
  | job (j : IngestionJob)
  | tenantId (t : TenantId)

variable (env : ProcessDocument.Env) (faults : Faults Site PyExc)

/-- Run a part of the pipeline on the stores. -/
def onRun {α : Type} (prog : ProcessDocument.Prog α) : Prog α :=
  focus State.run (fun run s => { s with run := run }) prog

/-- `process_use_case.execute(doc_id, ingestion_job, tenant_id=t_id)`. -/
def callExecute (docId : DocumentId) (job : IngestionJob) (tId : TenantId) :
    Prog Unit :=
  match executeSignature.bind [.documentId docId, .job job]
      [("tenant_id", Argument.tenantId tId)] with
  | .error e => throw (.exception e)
  | .ok _ =>
      onRun (ProcessDocument.execute env (fun site => faults (.pipeline site))
        docId)

def log (site : Site) : Prog Unit := perform faults site (pure ())

/-- `_write_to_dlq`. -/
def writeToDlq (tenantId documentId jobId error : String) : Prog Unit :=
  tryExcept (do
      let now ← onRun (ProcessDocument.readings env 2)
      perform faults .zadd (modify fun s => { s with
        dlq := SortedSet.zadd s.dlq ⟨tenantId, documentId, jobId, error, now 0⟩
          (now 1) })
      log faults .logDeadLetter)
    fun _ => log faults .logWriteFailed

/-- `process_document_task` on its `jobTry`-th attempt. -/
def processDocumentTask (maxRetries jobTry : ℕ)
    (tenantId documentId jobId : String) : Prog TaskResult := do
  let docId ← ofExcept (Uuid.fromStr documentId)
  let tId ← ofExcept (Uuid.fromStr tenantId)
  let jId ← ofExcept (Uuid.fromStr jobId)
  let uuid4 ← onRun (ProcessDocument.draws env 1)
  let now ← onRun (ProcessDocument.readings env 2)
  let job := IngestionJob.construct (uuid4 0) jId docId now
  modify fun s => { s with run := { s.run with job := job } }
  log faults .logStarted
  tryExcept (do
      log faults .container
      callExecute env faults docId job tId
      log faults .logCompleted
      pure ⟨documentId, "completed"⟩)
    fun exc => do
      log faults .getSettings
      log faults .logFailed
      if maxRetries ≤ jobTry then
        writeToDlq env faults tenantId documentId jobId exc.str
      throw (.exception exc)

/-- What happens during one attempt. -/
structure Attempt where
  env : ProcessDocument.Env
  faults : Faults Site PyExc

/-- The arguments the job was enqueued with. -/
structure Enqueued where
  tenantId : TenantId
  documentId : DocumentId
  jobId : IngestionJobId

/-- The state after a number of attempts, the first of which has the number
`jobTry`. -/
def attempts (maxRetries : ℕ) (args : Enqueued) :
    ℕ → List Attempt → State → State
  | _, [], s => s
  | jobTry, attempt :: rest, s =>
      attempts maxRetries args (jobTry + 1) rest
        (finalState ((processDocumentTask attempt.env attempt.faults maxRetries
          jobTry args.tenantId.str args.documentId.str args.jobId.str).run s))

/-- The entries of a document in the dead-letter queue. -/
def deadLetters (dlq : DeadLetterQueue) (documentId : DocumentId) :
    List DeadLetter :=
  dlq.keys.filter fun entry => entry.documentId = documentId.str

end ArqWorker
end AiBackend

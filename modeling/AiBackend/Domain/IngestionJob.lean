import AiBackend.Domain.Values
import AiBackend.Support.Program

/-!
# The ingestion job

The entity that tracks one pipeline run.  Its methods mutate the job object
in place, so they are programs on the job; `now i` is the `i`-th reading of
the clock within one call.
-/

namespace AiBackend

open Python

/-- Ingestion pipeline stages. -/
inductive IngestionStatus where
  | queued
  | extracting
  | chunking
  | embedding
  | storing
  | completed
  | failed
  deriving DecidableEq, Repr

def IngestionStatus.value : IngestionStatus → String
  | .queued => "queued"
  | .extracting => "extracting"
  | .chunking => "chunking"
  | .embedding => "embedding"
  | .storing => "storing"
  | .completed => "completed"
  | .failed => "failed"

/-- `_VALID_TRANSITIONS`. -/
def validTransitions : IngestionStatus → List IngestionStatus
  | .queued => [.extracting, .failed]
  | .extracting => [.chunking, .failed]
  | .chunking => [.embedding, .failed]
  | .embedding => [.storing, .failed]
  | .storing => [.completed, .failed]
  | .completed => []
  | .failed => [.queued]

structure IngestionJob extends Entity where
  jobId : IngestionJobId
  documentId : DocumentId
  status : IngestionStatus := .queued
  totalChunks : ℤ := 0
  processedChunks : ℤ := 0
  errorMessage : Option String := none
  startedAt : Option Timestamp := none
  completedAt : Option Timestamp := none
  deriving DecidableEq, Repr

namespace IngestionJob

/-- `IngestionJob(document_id=...)`: a queued job with drawn identifiers. -/
def construct (id jobId : Uuid) (documentId : DocumentId)
    (now : ℕ → Timestamp) : IngestionJob where
  id := id
  createdAt := now 0
  updatedAt := now 1
  jobId := jobId
  documentId := documentId

/-- The only method that consults the transition table. -/
def advanceStatus (newStatus : IngestionStatus) (now : ℕ → Timestamp) :
    EStateM PyExc IngestionJob Unit := do
  let self ← get
  if newStatus ∉ validTransitions self.status then
    throw (.valueError ("Invalid transition: " ++ self.status.value ++ " → " ++
      newStatus.value))
  modify fun job => { job with status := newStatus }
  if newStatus = .extracting ∧ self.startedAt = none then
    modify fun job => { job with startedAt := some (now 0) }
  modify fun job => { job with updatedAt := now 1 }

def recordProgress (processed total : ℤ) (now : ℕ → Timestamp) :
    EStateM PyExc IngestionJob Unit :=
  modify fun job => { job with
    processedChunks := processed
    totalChunks := total
    updatedAt := now 0 }

def fail (error : String) (now : ℕ → Timestamp) :
    EStateM PyExc IngestionJob Unit :=
  modify fun job => { job with
    status := .failed
    errorMessage := some error
    updatedAt := now 0 }

def complete (now : ℕ → Timestamp) : EStateM PyExc IngestionJob Unit :=
  modify fun job => { job with
    status := .completed
    completedAt := some (now 0)
    errorMessage := none
    updatedAt := now 1 }

/-- The processed fraction, `0` while no chunk is known. -/
def progress (job : IngestionJob) : ℚ :=
  if job.totalChunks = 0 then 0 else job.processedChunks / job.totalChunks

/-- A transition the table admits is carried out, whatever the clock says. -/
theorem advanceStatus_of_mem {job : IngestionJob} {newStatus : IngestionStatus}
    (now : ℕ → Timestamp) (h : newStatus ∈ validTransitions job.status) :
    ∃ startedAt, (advanceStatus newStatus now).run job =
      .ok () { job with
        status := newStatus
        startedAt := startedAt
        updatedAt := now 1 } := by
  by_cases hstart : newStatus = .extracting ∧ job.startedAt = none
  · obtain ⟨rfl, hnone⟩ := hstart
    exact ⟨some (now 0), by simp [advanceStatus, h, hnone]⟩
  · exact ⟨job.startedAt, by simp [advanceStatus, h, hstart]⟩

/-- A transition the table does not admit raises and changes nothing. -/
theorem advanceStatus_of_notMem {job : IngestionJob}
    {newStatus : IngestionStatus} (now : ℕ → Timestamp)
    (h : newStatus ∉ validTransitions job.status) :
    (advanceStatus newStatus now).run job =
      .error (.valueError ("Invalid transition: " ++ job.status.value ++ " → " ++
        newStatus.value)) job := by
  simp [advanceStatus, h]

end IngestionJob
end AiBackend

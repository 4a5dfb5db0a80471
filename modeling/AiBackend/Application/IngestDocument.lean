import AiBackend.Domain.IngestionJob
import AiBackend.Infrastructure.DocumentTable
import AiBackend.Support.Fault

/-!
# Document ingestion

`IngestDocumentUseCase`: look for a duplicate, insert the document, mark it as
processing, enqueue its job.  Each of these is one statement to the database
or the queue, and `execute` is cut at them, so that the same segments can also
be interleaved with those of other calls.
-/

namespace AiBackend

open Program Python

namespace IngestDocument

structure Request where
  title : String
  content : String
  collectionId : Option String := none
  contentType : String := "text/plain"
  metadata : Dict Json := KeyedList.empty

structure Response where
  documentId : String
  jobId : String
  status : String := "processing"
  deriving DecidableEq, Repr

/-- A job of `process_document_task`: the arguments it was enqueued with, and
whether the worker is done with it. -/
structure QueuedJob where
  tenantId : String
  documentId : String
  jobId : String
  ended : Bool := false
  deriving DecidableEq, Repr

/-- The calls that can raise. -/
inductive Site where
  | findDuplicate
  | logDuplicate
  | save
  | update
  | enqueue
  | logIngested
  deriving DecidableEq, Repr

/-- The clock, the identifier generator and the content hash. -/
structure Env where
  now : ℕ → Timestamp
  uuid4 : ℕ → Uuid
  contentHash : String → String

/-- What the database and the queue are free to decide in one call: the order
in which the rows are visited, and whether `enqueue_job` takes the job or
returns `None`. -/
structure Outside where
  scan : List DocumentRow → List DocumentRow
  accepts : Bool

/-- What the calls share. -/
structure State where
  documents : DocumentTable
  jobs : List QueuedJob := []
  clock : ℕ := 0
  uuids : ℕ := 0

abbrev Prog (α : Type) := EStateM (Raised PyExc) State α

variable (env : Env) (outside : Outside) (faults : Faults Site PyExc)

/-- The clock from its next reading on; a step reads it at most `n` times. -/
def readings (n : ℕ) : Prog (ℕ → Timestamp) :=
  modifyGet fun s =>
    (fun i => env.now (s.clock + i), { s with clock := s.clock + n })

/-- The generator from its next identifier on; a step draws at most `n`. -/
def draws (n : ℕ) : Prog (ℕ → Uuid) :=
  modifyGet fun s =>
    (fun i => env.uuid4 (s.uuids + i), { s with uuids := s.uuids + n })

/-! ## Statements -/

def findDuplicate (tenantId : TenantId) (content : String) :
    Prog (Option Document) := do
  let uuid4 ← draws env 1
  let s ← get
  pure (PostgresDocumentRepository.findDuplicate env.contentHash outside.scan
    s.documents tenantId content (uuid4 0))

def save (document : Document) : Prog Unit :=
  modify fun s => { s with
    documents :=
      PostgresDocumentRepository.save env.contentHash s.documents document }

def update (document : Document) : Prog Unit := do
  let now ← readings env 1
  modify fun s => { s with
    documents := PostgresDocumentRepository.update s.documents document (now 0) }

/-- `enqueue_job("process_document_task", ...)`. -/
def enqueueJob (tenantId documentId jobId : String) : Prog Unit :=
  modify fun s =>
    if outside.accepts then
      { s with jobs := s.jobs ++ [⟨tenantId, documentId, jobId, false⟩] }
    else s

/-! ## The segments of a call -/

/-- The collection of a request: a fresh one if it names none, and an empty
text names none. -/
def collectionIdOf (request : Request) (fresh : Uuid) : Except PyExc CollectionId :=
  match request.collectionId with
  | some text => if text = "" then .ok fresh else Uuid.fromStr text
  | none => .ok fresh

/-- Read the collection identifier and look for a duplicate. -/
def checkSegment (request : Request) (tenantId : TenantId) :
    Prog (CollectionId × Option Document) := do
  let uuid4 ← draws env 1
  let collectionId ← ofExcept (collectionIdOf request (uuid4 0))
  let existing ← perform faults .findDuplicate
    (findDuplicate env outside tenantId request.content)
  pure (collectionId, existing)

def duplicateSegment (existing : Document) : Prog Response := do
  perform faults .logDuplicate (pure ())
  pure ⟨existing.documentId.str, "duplicate", "duplicate"⟩

/-- Build the document and insert it. -/
def saveSegment (request : Request) (tenantId : TenantId)
    (collectionId : CollectionId) : Prog Document := do
  let uuid4 ← draws env 2
  let now ← readings env 2
  let document : Document := {
    id := uuid4 0
    createdAt := now 0
    updatedAt := now 1
    tenantId := tenantId
    documentId := uuid4 1
    collectionId := collectionId
    title := request.title
    content := request.content
    contentType := request.contentType
    metadata := request.metadata }
  perform faults .save (save env document)
  pure document

/-- Build the job and mark the document as processing. -/
def updateSegment (document : Document) : Prog (Document × IngestionJob) := do
  let uuid4 ← draws env 2
  let now ← readings env 3
  let job := IngestionJob.construct (uuid4 0) (uuid4 1) document.documentId now
  let document := document.markProcessing (now 2)
  perform faults .update (update env document)
  pure (document, job)

/-- Enqueue the job and answer. -/
def enqueueSegment (tenantId : TenantId) (document : Document)
    (job : IngestionJob) : Prog Response := do
  perform faults .enqueue
    (enqueueJob outside tenantId.str document.documentId.str job.jobId.str)
  perform faults .logIngested (pure ())
  pure ⟨document.documentId.str, job.jobId.str, "processing"⟩

/-- `IngestDocumentUseCase.execute`. -/
def execute (request : Request) (tenantId : TenantId) : Prog Response := do
  let (collectionId, existing) ← checkSegment env outside faults request tenantId
  match existing with
  | some document => duplicateSegment faults document
  | none =>
      let document ← saveSegment env faults request tenantId collectionId
      let (document, job) ← updateSegment env faults document
      enqueueSegment outside faults tenantId document job

end IngestDocument
end AiBackend

import AiBackend.Domain.Values
import AiBackend.Support.Json

/-!
# Documents

The document entity and its status changes.  The methods overwrite fields
without looking at the current status.
-/

namespace AiBackend

/-- Document processing status. -/
inductive DocumentStatus where
  | pending
  | processing
  | completed
  | failed
  deriving DecidableEq, Repr

namespace DocumentStatus

/-- `status.value`. -/
def value : DocumentStatus → String
  | .pending => "pending"
  | .processing => "processing"
  | .completed => "completed"
  | .failed => "failed"

/-- `DocumentStatus(text)`. -/
def ofValue (text : String) : Option DocumentStatus :=
  [pending, processing, completed, failed].find? fun status => status.value = text

theorem ofValue_value (status : DocumentStatus) : ofValue status.value = some status := by
  cases status with
  | pending => decide
  | processing => decide
  | completed => decide
  | failed => decide

end DocumentStatus

structure Document extends Entity where
  tenantId : TenantId
  documentId : DocumentId
  collectionId : CollectionId
  title : String
  content : String
  contentType : String := "text/plain"
  metadata : Dict Json := KeyedList.empty
  status : DocumentStatus := .pending
  chunkCount : ℤ := 0
  tokenCount : ℤ := 0
  errorMessage : Option String := none

namespace Document

def markProcessing (document : Document) (now : Timestamp) : Document :=
  { document with
    status := .processing
    errorMessage := none
    updatedAt := now }

def markCompleted (document : Document) (chunkCount tokenCount : ℤ)
    (now : Timestamp) : Document :=
  { document with
    status := .completed
    chunkCount := chunkCount
    tokenCount := tokenCount
    errorMessage := none
    updatedAt := now }

def markFailed (document : Document) (error : String) (now : Timestamp) :
    Document :=
  { document with
    status := .failed
    errorMessage := some error
    updatedAt := now }

/-- Whether the document can be processed: pending or failed. -/
def isProcessable (document : Document) : Bool :=
  document.status = .pending || document.status = .failed

end Document
end AiBackend

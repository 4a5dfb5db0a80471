import AiBackend.Domain.Values
import AiBackend.Support.Json

/-!
# Search results

A search result is immutable and its constructor validates every field, so
the admitted score range is part of the type.
-/

namespace AiBackend

open Python

structure SearchResult where
  chunkId : ChunkId
  documentId : DocumentId
  collectionId : CollectionId
  content : String
  score : ℚ
  metadata : Dict Json
  documentTitle : String
  chunkIndex : ℤ
  score_nonneg : 0 ≤ score
  score_le_one : score ≤ 1

namespace SearchResult

/-- A field declared `str` takes a string and nothing else. -/
def strField : Json → Option String
  | .str s => some s
  | _ => none

/-- A field declared `int` also takes a Boolean, a float without a fraction that
fits 64 bits, and the strings pydantic reads as integers; `intFromStr` is that
reader. -/
def intField (intFromStr : String → Option ℤ) : Json → Option ℤ
  | .int n => some n
  | .bool b => some (if b then 1 else 0)
  | .float q => if q.den = 1 ∧ -2 ^ 63 < q ∧ q < 2 ^ 63 then some q.num else none
  | .str s => intFromStr s
  | _ => none

/-- Why a value is not taken. -/
def intFieldError : Json → String
  | .float q =>
      if q.den = 1 then "Unable to parse input string as an integer, exceeded maximum size"
      else "Input should be a valid integer, got a number with a fractional part"
  | .str _ => "Input should be a valid integer, unable to parse string as an integer"
  | _ => "Input should be a valid integer"

/-- What pydantic rejects in the fields that come from outside, in the order
of their declaration. -/
def errors (intFromStr : String → Option ℤ) (content : Json) (score : ℚ)
    (documentTitle chunkIndex : Json) : List (String × String) :=
  [(strField content).elim (some ("content", "Input should be a valid string"))
      fun _ => none,
    if score < 0 then
      some ("score", "Input should be greater than or equal to 0")
    else none,
    if 1 < score then
      some ("score", "Input should be less than or equal to 1")
    else none,
    (strField documentTitle).elim
      (some ("document_title", "Input should be a valid string"))
      fun _ => none,
    (intField intFromStr chunkIndex).elim
      (some ("chunk_index", intFieldError chunkIndex))
      fun _ => none].filterMap id

/-- `SearchResult(...)`. -/
def construct (intFromStr : String → Option ℤ) (chunkId : ChunkId)
    (documentId : DocumentId) (collectionId : CollectionId) (content : Json)
    (score : ℚ) (metadata : Dict Json) (documentTitle chunkIndex : Json) :
    Except PyExc SearchResult :=
  match strField content, strField documentTitle,
      intField intFromStr chunkIndex with
  | some contentText, some title, some index =>
      if h : 0 ≤ score ∧ score ≤ 1 then
        .ok {
          chunkId := chunkId
          documentId := documentId
          collectionId := collectionId
          content := contentText
          score := score
          metadata := metadata
          documentTitle := title
          chunkIndex := index
          score_nonneg := h.1
          score_le_one := h.2 }
      else
        .error (.validationError "SearchResult"
          (errors intFromStr content score documentTitle chunkIndex))
  | _, _, _ =>
      .error (.validationError "SearchResult"
        (errors intFromStr content score documentTitle chunkIndex))

section Construct

variable {intFromStr : String → Option ℤ} {chunkId : ChunkId}
  {documentId : DocumentId} {collectionId : CollectionId}
  {content documentTitle chunkIndex : Json} {score : ℚ} {metadata : Dict Json}
  {result : SearchResult}

theorem chunkId_of_construct
    (h : construct intFromStr chunkId documentId collectionId content score
      metadata documentTitle chunkIndex = .ok result) :
    result.chunkId = chunkId := by
  unfold construct at h
  split at h
  · split at h
    · cases h
      rfl
    · cases h
  · cases h

theorem score_of_construct
    (h : construct intFromStr chunkId documentId collectionId content score
      metadata documentTitle chunkIndex = .ok result) :
    result.score = score := by
  unfold construct at h
  split at h
  · split at h
    · cases h
      rfl
    · cases h
  · cases h

/-- The fields are checked one by one, the identifiers not at all. -/
theorem construct_ok_of_ok
    (h : construct intFromStr chunkId documentId collectionId content score
      metadata documentTitle chunkIndex = .ok result)
    (collectionId' : CollectionId) {score' : ℚ}
    (hscore' : 0 ≤ score' ∧ score' ≤ 1) :
    ∃ result', construct intFromStr chunkId documentId collectionId' content
        score' metadata documentTitle chunkIndex = .ok result' ∧
      result'.score = score' := by
  unfold construct at h ⊢
  split at h
  · rw [dif_pos hscore']
    exact ⟨_, rfl, rfl⟩
  · cases h

/-- Another collection changes nothing else. -/
theorem construct_collection
    (h : construct intFromStr chunkId documentId collectionId content score
      metadata documentTitle chunkIndex = .ok result)
    (collectionId' : CollectionId) :
    construct intFromStr chunkId documentId collectionId' content score metadata
      documentTitle chunkIndex = .ok { result with collectionId := collectionId' } := by
  unfold construct at h ⊢
  split at h
  · split at h
    next hscore =>
      cases h
      rw [dif_pos hscore]
    next => cases h
  · cases h

/-- Rebuilding a result from its own fields changes at most the collection. -/
theorem construct_self (result : SearchResult) (collectionId : CollectionId) :
    construct intFromStr result.chunkId result.documentId collectionId
        (.str result.content) result.score result.metadata
        (.str result.documentTitle) (.int result.chunkIndex) =
      .ok { result with collectionId := collectionId } := by
  simp only [construct, strField, intField,
    dif_pos (And.intro result.score_nonneg result.score_le_one)]

end Construct
end SearchResult
end AiBackend

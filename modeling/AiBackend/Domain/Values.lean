import AiBackend.Support.Uuid
import Mathlib.Data.Rat.Defs

/-!
# Value objects

Identifiers, instants and embedding vectors.  The identifier classes of the
source wrap one UUID each and differ only in name.
-/

namespace AiBackend

open Python

abbrev TenantId := Uuid
abbrev DocumentId := Uuid
abbrev ChunkId := Uuid
abbrev CollectionId := Uuid
abbrev UserId := Uuid
abbrev IngestionJobId := Uuid

/-- An aware `datetime`, in microseconds since the epoch. -/
abbrev Timestamp := ℤ

/-- The identity and timestamps every entity starts with. -/
structure Entity where
  id : Uuid
  createdAt : Timestamp
  updatedAt : Timestamp
  deriving DecidableEq, Repr

/-- `__eq__`: equality of entities is identity. -/
def Entity.IsEqual (a b : Entity) : Prop := a.id = b.id

instance Entity.decidableIsEqual (a b : Entity) : Decidable (a.IsEqual b) :=
  inferInstanceAs (Decidable (_ = _))

/-- Pagination parameters with their bounds. -/
structure PaginationParams where
  offset : ℕ := 0
  limit : ℕ := 10
  one_le_limit : 1 ≤ limit := by decide
  limit_le_hundred : limit ≤ 100 := by decide

/-- `xs[start : start + limit]` from the offset on. -/
def PaginationParams.page {α : Type} (pagination : PaginationParams) (xs : List α) : List α :=
  (xs.drop pagination.offset).take pagination.limit

/-- An embedding together with the check its validator makes. -/
structure EmbeddingVector where
  values : List ℚ
  model : String
  dimensions : ℤ
  valid : (values.length : ℤ) = dimensions
  deriving DecidableEq, Repr

/-- `EmbeddingVector(values=..., model=..., dimensions=...)`. -/
def EmbeddingVector.construct (values : List ℚ) (model : String)
    (dimensions : ℤ) : Except PyExc EmbeddingVector :=
  if h : (values.length : ℤ) = dimensions then
    .ok ⟨values, model, dimensions, h⟩
  else
    .error (.validationError "EmbeddingVector"
      [("", "Value error, Expected " ++ toString dimensions ++
        " dimensions, got " ++ toString values.length)])

end AiBackend

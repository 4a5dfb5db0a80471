import AiBackend.Domain.Values
import AiBackend.Support.Json

/-!
# Chunks

The chunk entity, and what its constructor accepts.
-/

namespace AiBackend

open Python

/-- Output of the chunking process. -/
structure ChunkData where
  content : String
  startChar : ℤ
  endChar : ℤ
  chunkIndex : ℤ
  tokenCount : ℤ
  deriving DecidableEq, Repr

structure Chunk extends Entity where
  tenantId : TenantId
  chunkId : ChunkId
  documentId : DocumentId
  collectionId : CollectionId
  content : String
  chunkIndex : ℤ
  startChar : ℤ
  endChar : ℤ
  tokenCount : ℤ := 0
  embedding : Option EmbeddingVector := none
  metadata : Dict Json := KeyedList.empty

/-- The keyword arguments of one constructor call.  `none` is an argument that
was not passed. -/
structure ChunkArgs where
  tenantId : Option TenantId := none
  chunkId : Option ChunkId := none
  documentId : Option DocumentId := none
  collectionId : Option CollectionId := none
  content : Option String := none
  chunkIndex : Option ℤ := none
  startChar : Option ℤ := none
  endChar : Option ℤ := none
  tokenCount : ℤ := 0

namespace ChunkArgs

/-- The fields without a default that were not passed, in declaration order. -/
def missing (args : ChunkArgs) : List String :=
  [("tenant_id", args.tenantId.isNone),
    ("document_id", args.documentId.isNone),
    ("collection_id", args.collectionId.isNone),
    ("content", args.content.isNone),
    ("chunk_index", args.chunkIndex.isNone),
    ("start_char", args.startChar.isNone),
    ("end_char", args.endChar.isNone)].filterMap fun field =>
      if field.2 then some field.1 else none

end ChunkArgs

namespace Chunk

/-- `Chunk(...)`: every field without a default has to be passed.  The
generators supply the two identifiers and the two timestamps. -/
def construct (args : ChunkArgs) (uuid4 : ℕ → Uuid) (now : ℕ → Timestamp) :
    Except PyExc Chunk :=
  match args.tenantId, args.documentId, args.collectionId, args.content,
      args.chunkIndex, args.startChar, args.endChar with
  | some tenantId, some documentId, some collectionId, some content,
      some chunkIndex, some startChar, some endChar =>
      .ok {
        id := uuid4 0
        createdAt := now 0
        updatedAt := now 1
        tenantId := tenantId
        chunkId := args.chunkId.getD (uuid4 1)
        documentId := documentId
        collectionId := collectionId
        content := content
        chunkIndex := chunkIndex
        startChar := startChar
        endChar := endChar
        tokenCount := args.tokenCount }
  | _, _, _, _, _, _, _ =>
      .error (.validationError "Chunk"
        (args.missing.map fun field => (field, "Field required")))

/-- The constructor accepts its arguments exactly when no required one is
missing. -/
theorem construct_isOk_iff (args : ChunkArgs) (uuid4 : ℕ → Uuid)
    (now : ℕ → Timestamp) :
    (∃ chunk, construct args uuid4 now = .ok chunk) ↔ args.missing = [] := by
  have hmissing : args.missing = [] ↔
      args.tenantId.isSome ∧ args.documentId.isSome ∧
        args.collectionId.isSome ∧ args.content.isSome ∧
        args.chunkIndex.isSome ∧ args.startChar.isSome ∧ args.endChar.isSome := by
    simp [ChunkArgs.missing, Option.isSome_iff_ne_none]
  rw [hmissing]
  unfold construct
  split
  next htenant hdocument hcollection hcontent hindex hstart hend =>
    simp [htenant, hdocument, hcollection, hcontent, hindex, hstart, hend]
  next hnone =>
    simp only [reduceCtorEq, exists_false, false_iff,
      Option.isSome_iff_exists]
    intro h
    obtain ⟨⟨t, ht⟩, ⟨d, hd⟩, ⟨c, hc⟩, ⟨x, hx⟩, ⟨i, hi⟩, ⟨s, hs⟩, ⟨e, he⟩⟩ := h
    exact hnone t d c x i s e ht hd hc hx hi hs he

/-- Attach an embedding.  The assignment is not validated, so `None` is one,
too. -/
def setEmbedding (chunk : Chunk) (embedding : Option EmbeddingVector)
    (now : Timestamp) : Chunk :=
  { chunk with embedding := embedding, updatedAt := now }

def hasEmbedding (chunk : Chunk) : Bool := chunk.embedding.isSome

end Chunk
end AiBackend

import AiBackend.Domain.Chunk
import AiBackend.Support.KeyedList

/-!
# The chunk repository

`InMemoryChunkRepository`: a dictionary from the text of the identifier to the
chunk.  It holds the objects it was given and gives the same objects back.
-/

namespace AiBackend
namespace InMemoryChunkRepository

/-- `str(chunk.chunk_id.value)`. -/
def key (chunk : Chunk) : String := chunk.chunkId.str

/-- `_store`. -/
abbrev Store := KeyedList key

def getById (store : Store) (chunkId : ChunkId) : Option Chunk := store.find? chunkId.str

/-- The chunks of a document, sorted by their index. -/
def getByDocument (store : Store) (documentId : DocumentId) : List Chunk :=
  (store.items.filter fun chunk => chunk.documentId = documentId).mergeSort
    fun a b => decide (a.chunkIndex ≤ b.chunkIndex)

def saveMany (store : Store) (chunks : List Chunk) : Store :=
  chunks.foldl KeyedList.upsert store

/-- `delete_by_document`; how many chunks it deleted. -/
def deleteByDocument (store : Store) (documentId : DocumentId) : ℤ × Store :=
  (((store.items.filter fun chunk => chunk.documentId = documentId).length : ℤ),
    store.filter fun chunk => decide (chunk.documentId ≠ documentId))

def countByDocument (store : Store) (documentId : DocumentId) : ℤ :=
  (store.items.filter fun chunk => chunk.documentId = documentId).length

/-! ## What was saved -/

/-- What a save leaves in the store is one of its chunks or was there before. -/
theorem mem_of_mem_saveMany {store : Store} {chunks : List Chunk} {chunk : Chunk}
    (h : chunk ∈ (saveMany store chunks).items) :
    chunk ∈ chunks ∨
      (chunk ∈ store.items ∧ ∀ saved ∈ chunks, key saved ≠ key chunk) := by
  induction chunks generalizing store with
  | nil => exact Or.inr ⟨h, by simp⟩
  | cons first rest ih =>
      rcases ih h with hrest | ⟨hold, hnew⟩
      · exact Or.inl (List.mem_cons_of_mem first hrest)
      · rcases (KeyedList.mem_upsert _ _ _).mp hold with rfl | ⟨hmem, hkey⟩
        · exact Or.inl List.mem_cons_self
        · refine Or.inr ⟨hmem, ?_⟩
          simp only [List.forall_mem_cons]
          exact ⟨fun heq => hkey heq.symm, hnew⟩

theorem mem_keys_saveMany (store : Store) (chunks : List Chunk) (k : String) :
    k ∈ (saveMany store chunks).keys ↔ k ∈ store.keys ∨ ∃ chunk ∈ chunks, key chunk = k := by
  induction chunks generalizing store with
  | nil => simp [saveMany]
  | cons chunk chunks ih =>
      have hrest := ih (store.upsert chunk)
      rw [KeyedList.mem_keys_upsert] at hrest
      rw [saveMany, List.foldl_cons, ← saveMany, hrest]
      simp only [List.exists_mem_cons_iff]
      rw [or_assoc, eq_comm (a := k)]

/-- Every chunk of a save is found under its identifier, unless a later chunk
of the same save took it. -/
theorem exists_getById_saveMany (store : Store) {chunks : List Chunk} {chunk : Chunk}
    (h : chunk ∈ chunks) :
    ∃ saved ∈ chunks, saved.chunkId = chunk.chunkId ∧
      getById (saveMany store chunks) chunk.chunkId = some saved := by
  have hkey : key chunk ∈ (saveMany store chunks).keys :=
    (mem_keys_saveMany store chunks _).mpr (Or.inr ⟨chunk, h, rfl⟩)
  obtain ⟨saved, hsaved⟩ := Option.isSome_iff_exists.mp
    ((KeyedList.isSome_find?_iff _).mpr hkey)
  obtain ⟨hmem, hsame⟩ := (KeyedList.find?_eq_some_iff _).mp hsaved
  refine ⟨saved, ?_, Uuid.str_injective hsame, hsaved⟩
  rcases mem_of_mem_saveMany hmem with hchunks | ⟨-, hnew⟩
  · exact hchunks
  · exact absurd hsame.symm (hnew chunk h)

end InMemoryChunkRepository
end AiBackend

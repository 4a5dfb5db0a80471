import AiBackend.Domain.Chunk
import AiBackend.Domain.IngestionJob
import AiBackend.Infrastructure.DocumentTable
import AiBackend.Infrastructure.MemoryChunks
import AiBackend.Infrastructure.VectorStore
import AiBackend.Support.Fault

/-!
# The document processing pipeline

`ProcessDocumentUseCase`: extract, chunk, embed, store, complete, with the
error handler around all five stages.  Every call to a dependency is a site
of the failure pattern.  The chunk repository keeps and hands back the very
objects it was given: the state has its dictionary as the save left it, and
what has become of the objects of the run since.
-/

namespace AiBackend

open Program Python

namespace ProcessDocument

/-- `_EMBEDDING_BATCH_SIZE`. -/
def embeddingBatchSize : ℕ := 50

/-- The calls that can raise, in program order.  Token counts and chunk
constructions are numbered by chunk, embedding calls by the offset of their
batch. -/
inductive Site where
  | getById
  | updateEmpty
  | logExtracting
  | chunk
  | countTokens (i : ℕ)
  | newChunk (i : ℕ)
  | saveMany
  | logChunked
  | embedBatch (batchStart : ℕ)
  | logEmbedded
  | upsertMany
  | logUpsert
  | logStored
  | updateCompleted
  | logCompleted
  | handlerGetById
  | handlerUpdate
  | logFailed
  deriving DecidableEq, Repr

/-- What the dependencies return when they do not raise: the clock, the
identifier generator, the chunking strategy, the token counter and the
embedding provider, whose list can have gaps. -/
structure Env where
  now : ℕ → Timestamp
  uuid4 : ℕ → Uuid
  chunk : String → ℤ → ℤ → List ChunkData
  countTokens : String → String → ℤ
  embedBatch : ℕ → List String → List (Option EmbeddingVector)
  chunkSize : ℤ := 1000
  chunkOverlap : ℤ := 200

/-- Calls that reached a dependency or the job's progress counter. -/
inductive Event where
  | recordProgress (processed total : ℤ)
  | embedBatch (texts : List String)
  | upsertMany (entries : List QdrantVectorRepository.Entry)

/-- The state of a run: the stores, the job and the chunk objects, what has
been called so far, and how far the clock and the generator have been read. -/
structure State where
  documents : DocumentTable
  points : PointStore
  chunkRepo : InMemoryChunkRepository.Store := KeyedList.empty
  job : IngestionJob
  chunks : List Chunk := []
  events : List Event := []
  clock : ℕ := 0
  uuids : ℕ := 0

/-- A part of the pipeline. -/
abbrev Prog (α : Type) := EStateM (Raised PyExc) State α

variable (env : Env) (faults : Faults Site PyExc)

/-! ## Primitive actions -/

/-- The clock from its next reading on; a step reads it at most `n` times. -/
def readings (n : ℕ) : Prog (ℕ → Timestamp) :=
  modifyGet fun s =>
    (fun i => env.now (s.clock + i), { s with clock := s.clock + n })

/-- The generator from its next identifier on; a step draws at most `n`. -/
def draws (n : ℕ) : Prog (ℕ → Uuid) :=
  modifyGet fun s =>
    (fun i => env.uuid4 (s.uuids + i), { s with uuids := s.uuids + n })

/-- Call a method of the job. -/
def onJob (method : (ℕ → Timestamp) → EStateM PyExc IngestionJob Unit) :
    Prog Unit := do
  let now ← readings env 2
  zoom State.job (fun job s => { s with job := job }) (method now)

def record (event : Event) : Prog Unit :=
  modify fun s => { s with events := s.events ++ [event] }

/-- A log call does nothing the pipeline depends on. -/
def log (site : Site) : Prog Unit := perform faults site (pure ())

def recordProgress (processed total : ℤ) : Prog Unit := do
  onJob env (IngestionJob.recordProgress processed total)
  record (.recordProgress processed total)

def getById (documentId : DocumentId) : Prog (Option Document) := do
  let uuid4 ← draws env 1
  let s ← get
  pure (PostgresDocumentRepository.getById s.documents documentId (uuid4 0))

def update (document : Document) : Prog Unit := do
  let now ← readings env 1
  modify fun s => { s with
    documents := PostgresDocumentRepository.update s.documents document (now 0) }

/-! ## Stage 2: chunking -/

/-- `Chunk(...)` as the pipeline calls it. -/
def newChunk (document : Document) (cd : ChunkData) (tokenCount : ℤ) :
    Prog Chunk := do
  let uuid4 ← draws env 2
  let now ← readings env 2
  match Chunk.construct {
      documentId := some document.documentId
      collectionId := some document.collectionId
      content := some cd.content
      chunkIndex := some cd.chunkIndex
      startChar := some cd.startChar
      endChar := some cd.endChar
      tokenCount := tokenCount } uuid4 now with
  | .ok chunk => pure chunk
  | .error e => throw (.exception e)

/-- The chunk entities of a list of chunk data, from the `i`-th on. -/
def newChunks (document : Document) : ℕ → List ChunkData → Prog (List Chunk)
  | _, [] => pure []
  | i, cd :: rest => do
      let tokenCount ← perform faults (.countTokens i)
        (pure (env.countTokens cd.content "gpt-4o"))
      let chunk ← perform faults (.newChunk i)
        (newChunk env document cd tokenCount)
      let chunks ← newChunks document (i + 1) rest
      pure (chunk :: chunks)

def chunkStage (document : Document) : Prog Unit := do
  onJob env (IngestionJob.advanceStatus .chunking)
  let chunkDataList ← perform faults .chunk
    (pure (env.chunk document.content env.chunkSize env.chunkOverlap))
  let chunks ← newChunks env faults document 0 chunkDataList
  perform faults .saveMany (modify fun s => { s with
    chunkRepo := InMemoryChunkRepository.saveMany s.chunkRepo chunks
    chunks := chunks })
  recordProgress env 0 chunks.length
  log faults .logChunked

/-! ## Stage 3: embedding -/

/-- `range(0, n, _EMBEDDING_BATCH_SIZE)`. -/
def batchStarts (n : ℕ) : List ℕ :=
  (List.range ((n + (embeddingBatchSize - 1)) / embeddingBatchSize)).map
    (· * embeddingBatchSize)

/-- `batch[i].set_embedding(embeddings[i])` for every `i` that both have. -/
def attach (now : ℕ → Timestamp) :
    List Chunk → List (Option EmbeddingVector) → List Chunk
  | chunk :: chunks, embedding :: embeddings =>
      chunk.setEmbedding embedding (now 0) ::
        attach (fun i => now (i + 1)) chunks embeddings
  | chunks, _ => chunks

/-- `zip(batch, embeddings, strict=True)` raises when one side runs out, after
the common part has been processed. -/
def checkLengths (batch embeddings : ℕ) : Prog Unit :=
  if embeddings < batch then
    throw (.exception (.valueError "zip() argument 2 is shorter than argument 1"))
  else if batch < embeddings then
    throw (.exception (.valueError "zip() argument 2 is longer than argument 1"))
  else pure ()

/-- One iteration of the embedding loop; returns the new token total. -/
def embedBatchAt (totalTokens : ℤ) (batchStart : ℕ) : Prog ℤ := do
  let s ← get
  let batch := (s.chunks.drop batchStart).take embeddingBatchSize
  let texts := batch.map Chunk.content
  let embeddings ← perform faults (.embedBatch batchStart) (do
    record (.embedBatch texts)
    pure (env.embedBatch batchStart texts))
  let now ← readings env batch.length
  modify fun s => { s with
    chunks := s.chunks.take batchStart ++ attach now batch embeddings ++
      s.chunks.drop (batchStart + batch.length) }
  checkLengths batch.length embeddings.length
  recordProgress env (min (batchStart + batch.length) s.chunks.length : ℕ)
    s.chunks.length
  pure (totalTokens + (batch.map Chunk.tokenCount).sum)

/-- Returns the token total of all chunks. -/
def embedStage : Prog ℤ := do
  onJob env (IngestionJob.advanceStatus .embedding)
  let s ← get
  let totalTokens ← (batchStarts s.chunks.length).foldlM
    (embedBatchAt env faults) 0
  log faults .logEmbedded
  pure totalTokens

/-! ## Stage 4: storing -/

/-- The payload of a chunk's point. -/
def payload (title : String) (chunk : Chunk) : Dict Json where
  items := [("document_id", .str chunk.documentId.str),
    ("collection_id", .str chunk.collectionId.str),
    ("content", .str chunk.content),
    ("chunk_index", .int chunk.chunkIndex),
    ("document_title", .str title)]
  nodup := by simp

/-- The entry of a chunk; a chunk without an embedding has none. -/
def entry (title : String) (chunk : Chunk) :
    Option QdrantVectorRepository.Entry :=
  chunk.embedding.map fun embedding =>
    (chunk.chunkId, embedding, payload title chunk)

/-- `upsert_many`: an empty batch does not reach the server. -/
def upsertMany (entries : List QdrantVectorRepository.Entry) : Prog Unit :=
  if entries.isEmpty then pure ()
  else do
    perform faults .upsertMany (do
      record (.upsertMany entries)
      modify fun s => { s with
        points := QdrantVectorRepository.upsertPoints s.points entries })
    log faults .logUpsert

def storeStage (document : Document) : Prog Unit := do
  onJob env (IngestionJob.advanceStatus .storing)
  let s ← get
  upsertMany faults (s.chunks.filterMap (entry document.title))
  log faults .logStored

/-! ## Stage 5: completion -/

def completeStage (document : Document) (totalTokens : ℤ) : Prog Unit := do
  onJob env IngestionJob.complete
  let now ← readings env 1
  let s ← get
  perform faults .updateCompleted
    (update env (document.markCompleted s.chunks.length totalTokens (now 0)))
  log faults .logCompleted

/-! ## The use case -/

/-- Stages 2 to 5, on a document with content. -/
def stages (document : Document) : Prog Unit := do
  log faults .logExtracting
  chunkStage env faults document
  let totalTokens ← embedStage env faults
  storeStage env faults document
  completeStage env faults document totalTokens

/-- The body of the `try` statement. -/
def pipeline (documentId : DocumentId) : Prog Unit := do
  onJob env (IngestionJob.advanceStatus .extracting)
  match ← perform faults .getById (getById env documentId) with
  | none =>
      onJob env (IngestionJob.fail ("Document " ++ documentId.str ++ " not found"))
  | some document =>
      if Text.isBlank document.content then do
        onJob env (IngestionJob.fail "Document content is empty")
        let now ← readings env 1
        perform faults .updateEmpty
          (update env (document.markFailed "Document content is empty" (now 0)))
      else stages env faults document

/-- The nested `try`: mark the stored document as failed, if that works. -/
def markStoredFailed (documentId : DocumentId) (errorMsg : String) : Prog Unit :=
  tryExcept (do
      match ← perform faults .handlerGetById (getById env documentId) with
      | none => pure ()
      | some document =>
          let now ← readings env 1
          perform faults .handlerUpdate
            (update env (document.markFailed errorMsg (now 0))))
    fun _ => pure ()

/-- The `except Exception` branch. -/
def handler (documentId : DocumentId) (exc : PyExc) : Prog Unit := do
  onJob env (IngestionJob.fail ("Pipeline failed: " ++ exc.str))
  markStoredFailed env faults documentId ("Pipeline failed: " ++ exc.str)
  log faults .logFailed

/-- `ProcessDocumentUseCase.execute`. -/
def execute (documentId : DocumentId) : Prog Unit :=
  tryExcept (pipeline env faults documentId) (handler env faults documentId)

end ProcessDocument
end AiBackend

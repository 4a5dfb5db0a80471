import AiBackend.Ingestion.PipelineOutcome

/-!
# What a pipeline run guarantees

Three properties of `ProcessDocumentUseCase.execute`.  When it exits, the job
and the stored document agree on how the run ended, provided the error
handler's own calls work.  It never completes a document for which the chunker
returns anything, because the chunk entities are built without the tenant they
require.  And running it again on a completed document therefore leaves the
document completed only in exceptional circumstances, which are spelled out.
-/

namespace AiBackend
namespace ProcessDocument

open Program Python PostgresDocumentRepository

/-- The state in which a run exits, whether it returns or raises. -/
def exit (env : Env) (faults : Faults Site PyExc) (documentId : DocumentId)
    (s : State) : State :=
  finalState ((execute env faults documentId).run s)

section Runs

variable (env : Env) {faults : Faults Site PyExc} {s : State}

theorem exit_stored (hexc : faults.ExceptionsOnly) {row : DocumentRow}
    (hrow : s.documents.find? row.documentId = some row)
    (hjob : s.job.status = .queued) :
    RunEnd env faults row s.points (exit env faults row.documentId s) :=
  (ensures_execute_stored hexc hrow).final
    ⟨s.chunks.length, hjob, rfl, rfl, rfl⟩

theorem exit_absent (hexc : faults.ExceptionsOnly) {documentId : DocumentId}
    (habsent : storedStatus s.documents documentId = none)
    (hjob : s.job.status = .queued) :
    FailedAt documentId none s.points (exit env faults documentId s) :=
  (ensures_execute_absent hexc habsent).final
    ⟨s.chunks.length, hjob, rfl, rfl, rfl⟩

/-- A run never changes the points: it fails before it could store any, or has
none to store. -/
theorem RunEnd.points_eq {env : Env} {row : DocumentRow} {points : PointStore}
    (h : RunEnd env faults row points s) : s.points = points := by
  cases h with
  | completed _ _ _ kept => exact kept
  | failed _ _ state => exact state.points
  | silent _ _ _ _ _ state => exact state.points

end Runs

/-! ## A small deployment -/

/-- The row of a one-line document. -/
def greetingRow (status : DocumentStatus) : DocumentRow where
  documentId := ⟨1⟩
  tenantId := ⟨2⟩
  collectionId := ⟨3⟩
  title := "Greeting"
  content := "hello"
  contentType := "text/plain"
  contentHash := "2cf24dba"
  status := status
  chunkCount := 0
  tokenCount := 0
  errorMessage := none
  metadata := KeyedList.empty
  createdAt := 0
  updatedAt := 0

/-- The whole line as one chunk. -/
def greetingChunk : ChunkData := ⟨"hello", 0, 5, 0, 1⟩

/-- One-dimensional embeddings. -/
def greetingEmbedding (_ : String) : EmbeddingVector := ⟨[1], "small", 1, rfl⟩

/-- Services that answer with given chunks, one token a text, and the
embedding above. -/
def greetingEnv (chunks : List ChunkData) : Env where
  now := fun i => i
  uuid4 := fun i => ⟨Fin.ofNat _ (100 + i)⟩
  chunk := fun _ _ _ => chunks
  countTokens := fun _ _ => 1
  embedBatch := fun _ texts => texts.map fun text => some (greetingEmbedding text)

/-- The stores before a run on the greeting with a fresh job. -/
def greetingState (status : DocumentStatus) (points : PointStore) : State where
  documents := ⟨[greetingRow status], List.nodup_singleton _⟩
  points := points
  job := IngestionJob.construct ⟨4⟩ ⟨5⟩ ⟨1⟩ fun _ => 0

/-! ## Job and document agree -/

/-- Whatever raises during a run with a queued job: if the error handler's
read and write go through, the job and the document are both completed, or the
job has failed with a message and the document has failed or is not there. -/
theorem exit_statuses_agree (env : Env) (faults : Faults Site PyExc)
    (hexc : faults.ExceptionsOnly) (hread : faults .handlerGetById = none)
    (hwrite : faults .handlerUpdate = none) (documentId : DocumentId) (s : State)
    (hjob : s.job.status = .queued) :
    ((exit env faults documentId s).job.status = .completed ∧
        storedStatus (exit env faults documentId s).documents documentId =
          some .completed) ∨
      (FailedWithMessage (exit env faults documentId s).job ∧
        (storedStatus (exit env faults documentId s).documents documentId =
            some .failed ∨
          storedStatus (exit env faults documentId s).documents documentId =
            none)) := by
  cases hrow : s.documents.find? documentId with
  | none =>
      have habsent : storedStatus s.documents documentId = none := by
        simp [storedStatus, hrow]
      have hend := exit_absent env hexc habsent hjob
      exact Or.inr ⟨hend.job, Or.inr hend.stored⟩
  | some row =>
      obtain rfl := s.documents.find?_key hrow
      cases exit_stored env hexc hrow hjob with
      | completed _ job stored _ => exact Or.inl ⟨job, stored⟩
      | failed _ _ state => exact Or.inr ⟨state.job, Or.inl state.stored⟩
      | silent _ _ handler _ _ _ =>
          exact absurd ⟨hread, Faults.lands_of_none hwrite⟩ handler

/-- A chunker that rejects its arguments. -/
def chunkerRejects : Faults Site PyExc := fun site =>
  if site = .chunk then
    some ⟨.exception (.valueError "chunk_size must be positive"), false⟩
  else none

theorem chunkerRejects_exceptionsOnly : chunkerRejects.ExceptionsOnly := by
  intro site fault h
  unfold chunkerRejects at h
  split at h
  · cases h
    exact ⟨_, rfl⟩
  · cases h

theorem exit_statuses_agree_chunkerRejects :
    ((exit (greetingEnv []) chunkerRejects ⟨1⟩
          (greetingState .processing KeyedList.empty)).job.status = .completed ∧
        storedStatus (exit (greetingEnv []) chunkerRejects ⟨1⟩
          (greetingState .processing KeyedList.empty)).documents ⟨1⟩ =
          some .completed) ∨
      (FailedWithMessage (exit (greetingEnv []) chunkerRejects ⟨1⟩
          (greetingState .processing KeyedList.empty)).job ∧
        (storedStatus (exit (greetingEnv []) chunkerRejects ⟨1⟩
            (greetingState .processing KeyedList.empty)).documents ⟨1⟩ =
            some .failed ∨
          storedStatus (exit (greetingEnv []) chunkerRejects ⟨1⟩
            (greetingState .processing KeyedList.empty)).documents ⟨1⟩ =
            none)) :=
  exit_statuses_agree (greetingEnv []) chunkerRejects
    chunkerRejects_exceptionsOnly rfl rfl ⟨1⟩
    (greetingState .processing KeyedList.empty) rfl

/-! ## Completion -/

/-- The batch of an `upsert_many` call. -/
def Event.upserted? : Event → Option (List QdrantVectorRepository.Entry)
  | .upsertMany entries => some entries
  | .recordProgress _ _ => none
  | .embedBatch _ => none

/-- The entry of a point store carries a chunk of the document. -/
structure Carries (embedding : String → EmbeddingVector) (row : DocumentRow)
    (cd : ChunkData) (entry : QdrantVectorRepository.Entry) : Prop where
  embedding : entry.2.1 = embedding cd.content
  content : entry.2.2.get? "content" = some (.str cd.content)
  chunkIndex : entry.2.2.get? "chunk_index" = some (.int cd.chunkIndex)
  documentId : entry.2.2.get? "document_id" = some (.str row.documentId.str)
  collectionId : entry.2.2.get? "collection_id" = some (.str row.collectionId.str)
  title : entry.2.2.get? "document_title" = some (.str row.title)

/-- What a run should leave behind that found the given chunks in a document
and met no failing call. -/
structure FullyProcessed (env : Env) (embedding : String → EmbeddingVector)
    (row : DocumentRow) (chunkDataList : List ChunkData) (s : State) : Prop where
  job : s.job.status = .completed
  processed : s.job.processedChunks = chunkDataList.length
  total : s.job.totalChunks = chunkDataList.length
  document : ∃ row', s.documents.find? row.documentId = some row' ∧
    row'.status = .completed ∧ row'.chunkCount = chunkDataList.length ∧
      row'.tokenCount =
        (chunkDataList.map fun cd => env.countTokens cd.content "gpt-4o").sum
  upserted : ∃ entries, s.events.filterMap Event.upserted? = [entries] ∧
    List.Forall₂ (Carries embedding row) chunkDataList entries

/-- A run that finds a chunk fails its job, whatever else happens. -/
theorem job_failed_of_chunks (env : Env) {faults : Faults Site PyExc}
    (hexc : faults.ExceptionsOnly) {row : DocumentRow} {s : State}
    (hrow : s.documents.find? row.documentId = some row)
    (hjob : s.job.status = .queued)
    (hchunks : env.chunk row.content env.chunkSize env.chunkOverlap ≠ []) :
    (exit env faults row.documentId s).job.status = .failed := by
  cases exit_stored env hexc hrow hjob with
  | completed uneventful _ _ _ => exact absurd uneventful.chunks hchunks
  | failed _ _ state => exact state.job.1
  | silent _ _ _ _ _ state => exact state.job.1

/-- No document with chunks is ever fully processed, even when every call
succeeds. -/
theorem exit_not_fullyProcessed (env : Env)
    (embedding : String → EmbeddingVector) (row : DocumentRow) (s : State)
    (hrow : s.documents.find? row.documentId = some row)
    (hjob : s.job.status = .queued)
    (hchunks : env.chunk row.content env.chunkSize env.chunkOverlap ≠ []) :
    ¬ FullyProcessed env embedding row
      (env.chunk row.content env.chunkSize env.chunkOverlap)
      (exit env Faults.none row.documentId s) := by
  intro h
  have hfailed := job_failed_of_chunks env Faults.none_exceptionsOnly hrow hjob
    hchunks
  rw [h.job] at hfailed
  cases hfailed

theorem exit_not_fullyProcessed_greeting :
    ¬ FullyProcessed (greetingEnv [greetingChunk]) greetingEmbedding
      (greetingRow .processing) [greetingChunk]
      (exit (greetingEnv [greetingChunk]) Faults.none ⟨1⟩
        (greetingState .processing KeyedList.empty)) :=
  exit_not_fullyProcessed (greetingEnv [greetingChunk]) greetingEmbedding
    (greetingRow .processing) (greetingState .processing KeyedList.empty)
    rfl rfl (by simp [greetingEnv])

/-- The greeting is a stored document with content and one chunk, and every
service answers; its run does not process it. -/
theorem not_always_fullyProcessed :
    ¬ ∀ (env : Env) (embedding : String → EmbeddingVector) (row : DocumentRow)
        (s : State),
      s.documents.find? row.documentId = some row →
      Text.isBlank row.content = false → s.job.status = .queued →
      s.events = [] → 1 ≤ env.chunkSize → 0 ≤ env.chunkOverlap →
      env.chunk row.content env.chunkSize env.chunkOverlap ≠ [] →
      (∀ start texts, env.embedBatch start texts =
        texts.map fun text => some (embedding text)) →
      FullyProcessed env embedding row
        (env.chunk row.content env.chunkSize env.chunkOverlap)
        (exit env Faults.none row.documentId s) := by
  intro hall
  have hprocessed := hall (greetingEnv [greetingChunk]) greetingEmbedding
    (greetingRow .processing) (greetingState .processing KeyedList.empty)
    rfl (by decide) rfl rfl (by decide) (by decide) (by simp [greetingEnv])
    (fun _ _ => rfl)
  have hfailed : (exit (greetingEnv [greetingChunk]) Faults.none ⟨1⟩
      (greetingState .processing KeyedList.empty)).job.status = .failed := rfl
  rw [show (⟨1⟩ : Uuid) = (greetingRow .processing).documentId from rfl,
    hprocessed.job] at hfailed
  cases hfailed

/-! ## Running again -/

/-- A point belongs to a document and carries a chunk index. -/
def IsChunkPoint (documentId : DocumentId) (index : ℤ) (point : Point) : Prop :=
  point.payload.get? "document_id" = some (.str documentId.str) ∧
    point.payload.get? "chunk_index" = some (.int index)

/-- The store holds exactly one point of the document for each chunk index and
no other point of the document. -/
structure OnePointPerChunk (indices : List ℤ) (documentId : DocumentId)
    (points : PointStore) : Prop where
  unique : ∀ i ∈ indices, ∃! point, point ∈ points.items ∧
    IsChunkPoint documentId i point
  covered : ∀ point ∈ points.items,
    point.payload.get? "document_id" = some (.str documentId.str) →
      ∃ i ∈ indices, IsChunkPoint documentId i point

/-- A run on a completed document leaves it completed exactly in two cases:
there is nothing to chunk and no call fails, or something fails and neither
the error handler nor the branch for empty documents gets to write. -/
theorem rerun_keeps_completed_iff (env : Env) (faults : Faults Site PyExc)
    (hexc : faults.ExceptionsOnly) (row : DocumentRow) (indices : List ℤ)
    (s : State) (hrow : s.documents.find? row.documentId = some row)
    (hstatus : row.status = .completed) (hjob : s.job.status = .queued)
    (hpoints : OnePointPerChunk indices row.documentId s.points) :
    (storedStatus (exit env faults row.documentId s).documents row.documentId =
          some .completed ∧
        OnePointPerChunk indices row.documentId
          (exit env faults row.documentId s).points) ↔
      Uneventful env faults row.content ∨
        (¬ HandlerWrites faults ∧ ¬ WritesEmpty faults row.content) := by
  have hend := exit_stored env hexc hrow hjob
  have hkept : OnePointPerChunk indices row.documentId
      (exit env faults row.documentId s).points := by
    rw [hend.points_eq]
    exact hpoints
  rw [and_iff_left hkept]
  cases hend with
  | completed uneventful _ stored _ =>
      exact ⟨fun _ => Or.inl uneventful, fun _ => stored⟩
  | failed eventful written state =>
      rw [state.stored]
      constructor
      · intro h
        cases h
      · rintro (huneventful | ⟨hhandler, hempty⟩)
        · exact absurd huneventful eventful
        · exact absurd written (not_or.mpr ⟨hempty, hhandler⟩)
  | silent eventful unwritten handler status old state =>
      have hcompleted : status = .completed := by
        rcases old with hold | hold
        · exact hold.trans hstatus
        · exact hold
      rw [state.stored, hcompleted]
      exact ⟨fun _ => Or.inr ⟨handler, unwritten⟩, fun _ => rfl⟩

/-- The greeting's chunk, as it would be stored. -/
def greetingPoint : Point where
  id := .uuid ⟨7⟩
  vector := [1]
  payload := ⟨[("document_id", .str (⟨1⟩ : Uuid).str),
    ("collection_id", .str (⟨3⟩ : Uuid).str), ("content", .str "hello"),
    ("chunk_index", .int 0), ("document_title", .str "Greeting")], by decide⟩

def greetingPoints : PointStore := ⟨[greetingPoint], List.nodup_singleton _⟩

theorem greetingPoints_onePointPerChunk :
    OnePointPerChunk [0] ⟨1⟩ greetingPoints := by
  have hpoint : IsChunkPoint ⟨1⟩ 0 greetingPoint := ⟨rfl, rfl⟩
  constructor
  · intro i hi
    rw [List.mem_singleton] at hi
    subst hi
    exact ⟨greetingPoint, ⟨by simp [greetingPoints], hpoint⟩,
      fun point hmem => by simpa [greetingPoints] using hmem.1⟩
  · intro point hmem _
    rw [show point = greetingPoint by simpa [greetingPoints] using hmem]
    exact ⟨0, by simp, hpoint⟩

theorem rerun_keeps_completed_iff_greeting :
    (storedStatus (exit (greetingEnv [greetingChunk]) chunkerRejects ⟨1⟩
            (greetingState .completed greetingPoints)).documents ⟨1⟩ =
          some .completed ∧
        OnePointPerChunk [0] ⟨1⟩
          (exit (greetingEnv [greetingChunk]) chunkerRejects ⟨1⟩
            (greetingState .completed greetingPoints)).points) ↔
      Uneventful (greetingEnv [greetingChunk]) chunkerRejects "hello" ∨
        (¬ HandlerWrites chunkerRejects ∧
          ¬ WritesEmpty chunkerRejects "hello") :=
  rerun_keeps_completed_iff (greetingEnv [greetingChunk]) chunkerRejects
    chunkerRejects_exceptionsOnly (greetingRow .completed) [0]
    (greetingState .completed greetingPoints) rfl rfl rfl
    greetingPoints_onePointPerChunk

/-- A second delivery of the greeting's job, with every service answering,
turns the completed document into a failed one. -/
theorem rerun_not_idempotent :
    ¬ ∀ (env : Env) (faults : Faults Site PyExc), faults.ExceptionsOnly →
      ∀ (row : DocumentRow) (indices : List ℤ) (s : State),
        s.documents.find? row.documentId = some row →
        row.status = .completed → s.job.status = .queued →
        OnePointPerChunk indices row.documentId s.points →
        storedStatus (exit env faults row.documentId s).documents
            row.documentId = some .completed ∧
          OnePointPerChunk indices row.documentId
            (exit env faults row.documentId s).points := by
  intro hall
  obtain ⟨hcompleted, -⟩ := hall (greetingEnv [greetingChunk]) Faults.none
    Faults.none_exceptionsOnly (greetingRow .completed) [0]
    (greetingState .completed greetingPoints) rfl rfl rfl
    greetingPoints_onePointPerChunk
  have hfailed : storedStatus (exit (greetingEnv [greetingChunk]) Faults.none
      (greetingRow .completed).documentId
      (greetingState .completed greetingPoints)).documents
      (greetingRow .completed).documentId = some .failed := rfl
  rw [hcompleted] at hfailed
  cases hfailed

end ProcessDocument
end AiBackend

import AiBackend.Infrastructure.MemoryChunks
import AiBackend.Ingestion.LaterStages

/-!
# What a run leaves in the two stores

Nothing takes back what a stage has stored.  However stages 3 to 5 end, the
chunk repository holds the chunks of the run, and the vector store holds their
points if the upsert took effect and is as before if it did not.
-/

namespace AiBackend
namespace ProcessDocument

open Program Python PostgresDocumentRepository QdrantVectorRepository

/-- The batches that an `upsert_many` call sends to the server. -/
def sent (entries : List Entry) : List (List Entry) :=
  if entries.isEmpty then [] else [entries]

/-- The points of the run have been written. -/
structure Written (env : Env) (title : String) (s₀ s : State) : Prop where
  embedded : Embedded env s₀.chunks s.chunks
  points : s.points = upsertPoints s₀.points (s.chunks.filterMap (entry title))
  upserts : upserts s = upserts s₀ ++ sent (s.chunks.filterMap (entry title))

/-- No point of the run has been written, and nothing has been completed. -/
structure Unwritten (documentId : DocumentId) (s₀ s : State) : Prop where
  saved : s.chunks.map saved = s₀.chunks.map saved
  points : s.points = s₀.points
  upserts : upserts s = upserts s₀
  completed : storedStatus s.documents documentId = some .completed →
    storedStatus s₀.documents documentId = some .completed

/-- What stages 3 to 5 leave of a run. -/
structure Leaves (env : Env) (faults : Faults Site PyExc) (documentId : DocumentId)
    (title : String) (s₀ s : State) : Prop where
  repo : s.chunkRepo = s₀.chunkRepo
  written : Stores env faults s₀.chunks → Written env title s₀ s
  unwritten : ¬ Stores env faults s₀.chunks → Unwritten documentId s₀ s

section Leaving

variable {env : Env} {faults : Faults Site PyExc} {documentId : DocumentId}
  {title : String} {s₀ : State}

theorem Leaves.of_written (hstores : Stores env faults s₀.chunks) {s : State}
    (hrepo : s.chunkRepo = s₀.chunkRepo) (h : Written env title s₀ s) :
    Leaves env faults documentId title s₀ s :=
  ⟨hrepo, fun _ => h, fun hno => absurd hstores hno⟩

theorem Leaves.of_stands (hno : ¬ Stores env faults s₀.chunks) {stage : IngestionStatus}
    {chunks : List Chunk} (hsaved : chunks.map saved = s₀.chunks.map saved) {s : State}
    (h : Stands stage s₀ chunks s) : Leaves env faults documentId title s₀ s :=
  ⟨h.repo, fun hstores => absurd hstores hno, fun _ => ⟨by rw [h.chunks, hsaved], h.points,
    h.upserts, by rw [h.documents]; exact id⟩⟩

theorem Leaves.chunks {s : State} (h : Leaves env faults documentId title s₀ s) :
    s.chunks.map saved = s₀.chunks.map saved := by
  by_cases hstores : Stores env faults s₀.chunks
  · exact (h.written hstores).embedded.saved
  · exact (h.unwritten hstores).saved

/-- Whatever happens to the job and to other data, and a document that is not
completed, makes no difference. -/
theorem Leaves.congr {s s' : State} (h : Leaves env faults documentId title s₀ s)
    (hrepo : s'.chunkRepo = s.chunkRepo) (hchunks : s'.chunks = s.chunks)
    (hpoints : s'.points = s.points) (hevents : s'.events = s.events)
    (hdocuments : Stores env faults s₀.chunks ∨
      (storedStatus s'.documents documentId = some .completed →
        storedStatus s.documents documentId = some .completed)) :
    Leaves env faults documentId title s₀ s' := by
  have hupserts : upserts s' = upserts s := by rw [upserts, hevents, upserts]
  refine ⟨hrepo.trans h.repo, ?_, ?_⟩
  · intro hstores
    have hs := h.written hstores
    exact ⟨by rw [hchunks]; exact hs.embedded, by rw [hpoints, hchunks]; exact hs.points,
      by rw [hupserts, hchunks]; exact hs.upserts⟩
  · intro hno
    have hs := h.unwritten hno
    have hcompleted := hdocuments.resolve_left hno
    exact ⟨by rw [hchunks]; exact hs.saved, hpoints.trans hs.points,
      hupserts.trans hs.upserts, fun hs' => hs.completed (hcompleted hs')⟩

/-! ## Storing -/

/-- A chunk has an entry if and only if the provider returned something for
it. -/
theorem entries_eq_nil_iff (title : String) {before chunks : List Chunk}
    (h : Embedded env before chunks) :
    chunks.filterMap (entry title) = [] ↔
      ¬ ∃ b ∈ batchStarts before.length, ∃ embedding,
        some embedding ∈ answer env before b := by
  have hentry : ∀ chunk : Chunk, entry title chunk = none ↔ chunk.embedding = none := by
    simp [entry]
  have hmem : ∀ embedding : EmbeddingVector, (∃ b ∈ batchStarts before.length,
      some embedding ∈ answer env before b) ↔
        ∃ chunk ∈ chunks, chunk.embedding = some embedding := by
    intro embedding
    rw [← List.mem_flatMap, ← h.embeddings, List.mem_map]
  simp only [List.filterMap_eq_nil_iff, hentry]
  constructor
  · rintro hnone ⟨b, hb, embedding, hanswer⟩
    obtain ⟨chunk, hchunk, hembedding⟩ := (hmem embedding).mp ⟨b, hb, hanswer⟩
    rw [hnone chunk hchunk] at hembedding
    cases hembedding
  · intro hno chunk hchunk
    by_contra hsome
    obtain ⟨embedding, hembedding⟩ := Option.ne_none_iff_exists'.mp hsome
    obtain ⟨b, hb, hanswer⟩ := (hmem embedding).mpr ⟨chunk, hchunk, hembedding⟩
    exact hno ⟨b, hb, embedding, hanswer⟩

/-- Without an entry there is nothing to write. -/
theorem written_of_nil {stage : IngestionStatus} {chunks : List Chunk} {s : State}
    (hembedded : Embedded env s₀.chunks chunks)
    (hnil : chunks.filterMap (entry title) = []) (hs : Stands stage s₀ chunks s) :
    Written env title s₀ s := by
  have hchunks := hs.chunks
  refine ⟨by rw [hchunks]; exact hembedded, ?_, ?_⟩
  · rw [hchunks, hnil, hs.points]
    rfl
  · rw [hchunks, hnil, hs.upserts]
    simp [sent]

/-- What the server does with the entries. -/
theorem ensures_upsert {chunks : List Chunk} (hembedded : Embedded env s₀.chunks chunks)
    (hne : (chunks.filterMap (entry title)).isEmpty = false) :
    Ensures (Stands .storing s₀ chunks)
      (do
        record (.upsertMany (chunks.filterMap (entry title)))
        modify fun s : State => { s with
          points := upsertPoints s.points (chunks.filterMap (entry title)) })
      (fun _ s => s.chunkRepo = s₀.chunkRepo ∧ Written env title s₀ s)
      fun _ _ => False := by
  intro s hs
  have hpoints := hs.points
  have hupserts := hs.upserts
  have hrepo := hs.repo
  obtain rfl := hs.chunks
  refine ⟨hrepo, hembedded, congrArg (upsertPoints · _) hpoints, ?_⟩
  rw [← hupserts]
  simp [upserts, Event.upserted?, sent, hne]

/-- The upsert leaves the points of the run if it takes effect. -/
theorem ensures_upsertMany_leaves {chunks : List Chunk}
    (harrives : ∀ b ∈ batchStarts s₀.chunks.length, Arrives env faults s₀.chunks b)
    (hlogged : faults .logEmbedded = none) (hembedded : Embedded env s₀.chunks chunks) :
    Ensures (Stands .storing s₀ chunks)
      (upsertMany faults (chunks.filterMap (entry title)))
      (fun _ s => Leaves env faults documentId title s₀ s ∧ Stores env faults s₀.chunks)
      (fun _ => Leaves env faults documentId title s₀) := by
  have hentries := entries_eq_nil_iff title hembedded
  unfold upsertMany
  split
  next hempty =>
    have hnil : chunks.filterMap (entry title) = [] := List.isEmpty_iff.mp hempty
    have hstores : Stores env faults s₀.chunks :=
      ⟨harrives, hlogged, fun hsome => absurd hsome (hentries.mp hnil)⟩
    exact ensures_pure fun s hs =>
      ⟨.of_written hstores hs.repo (written_of_nil hembedded hnil hs), hstores⟩
  next hne =>
    rw [Bool.not_eq_true] at hne
    have hsome : ∃ b ∈ batchStarts s₀.chunks.length, ∃ embedding,
        some embedding ∈ answer env s₀.chunks b := by
      by_contra hno
      rw [hentries.mpr hno] at hne
      cases hne
    refine Ensures.bind ((ensures_perform_effect (ensures_upsert hembedded hne)).imp
      ?_ ?_) fun _ => (preserves_log_of .logUpsert).impRaise fun _ _ hs => hs.1
    · intro _ s hs
      obtain ⟨hsite, hrepo, hs⟩ := hs
      have hstores : Stores env faults s₀.chunks :=
        ⟨harrives, hlogged, fun _ => Faults.lands_of_none hsite⟩
      exact ⟨.of_written hstores hrepo hs, hstores⟩
    · intro _ s hs
      obtain ⟨fault, hfault, -, hs⟩ := hs
      have hlands := Faults.lands_iff_of_some hfault
      by_cases hlanded : fault.landed
      · simp only [hlanded, ↓reduceIte] at hs
        obtain ⟨_, hrepo, hs⟩ := hs
        exact .of_written ⟨harrives, hlogged, fun _ => hlands.mpr hlanded⟩ hrepo hs
      · simp only [hlanded, Bool.false_eq_true, ↓reduceIte] at hs
        exact .of_stands (fun h => hlanded (hlands.mp (h.upserted hsome)))
          hembedded.saved hs

theorem ensures_storeStage_leaves {document : Document} {chunks : List Chunk}
    (harrives : ∀ b ∈ batchStarts s₀.chunks.length, Arrives env faults s₀.chunks b)
    (hlogged : faults .logEmbedded = none) (hembedded : Embedded env s₀.chunks chunks) :
    Ensures (Stands .embedding s₀ chunks) (storeStage env faults document)
      (fun _ s => Leaves env faults documentId document.title s₀ s ∧
        Stores env faults s₀.chunks)
      (fun _ => Leaves env faults documentId document.title s₀) := by
  apply (stands_advance .storing (by decide)).bind
  intro _
  refine (ensures_get (Q := fun s₁ s => Stands .storing s₀ chunks s ∧
    s₁.chunks = chunks) fun s hs => ⟨hs, hs.chunks⟩).bind fun s₁ => ?_
  apply ensures_of_fact
  intro hs₁
  rw [hs₁]
  exact (ensures_upsertMany_leaves harrives hlogged hembedded).bind fun _ =>
    (preserves_log_of .logStored).impRaise fun _ _ hs => hs.1

/-! ## What comes after -/

/-- Once the points are written, completing the document leaves them there. -/
theorem preserves_completeStage_leaves (hstores : Stores env faults s₀.chunks)
    (document : Document) (totalTokens : ℤ) :
    Preserves (Leaves env faults documentId title s₀)
      (completeStage env faults document totalTokens) := by
  apply (preserves_onJob_of (fun s _ _ hs => hs.congr rfl rfl rfl rfl (Or.inl hstores)) _).bind
  intro _
  apply Preserves.bind (fun s hs => hs.congr rfl rfl rfl rfl (Or.inl hstores))
  intro now
  apply Preserves.bind (fun s hs => hs)
  intro s
  refine Preserves.bind (Preserves.perform ?_) fun _ => preserves_log_of _
  exact fun s hs => hs.congr rfl rfl rfl rfl (Or.inl hstores)

/-- The error handler touches neither the chunks nor the points. -/
theorem preserves_handler_leaves (exc : PyExc) :
    Preserves (Leaves env faults documentId title s₀)
      (handler env faults documentId exc) := by
  apply (preserves_onJob_of (fun s _ _ hs => hs.congr rfl rfl rfl rfl (Or.inr id)) _).bind
  intro _
  refine Preserves.bind (Preserves.tryExcept ?_ fun _ => Preserves.pure _)
    fun _ => preserves_log_of _
  refine Preserves.bind (Preserves.perform fun s hs => hs.congr rfl rfl rfl rfl (Or.inr id))
    fun found => ?_
  cases found with
  | none => exact Preserves.pure _
  | some document =>
      apply Preserves.bind (fun s hs => hs.congr rfl rfl rfl rfl (Or.inr id))
      intro now
      refine Preserves.perform fun s hs => hs.congr rfl rfl rfl rfl (Or.inr ?_)
      -- the status it writes is another one
      dsimp only
      rw [storedStatus_update]
      split
      · intro hcompleted
        obtain ⟨_, _, hstatus⟩ := Option.map_eq_some_iff.mp hcompleted
        cases hstatus
      · exact id

/-- A run that goes on with its chunks saved leaves these chunks, and all of
their points or none. -/
theorem leaves_resume (document : Document) (hjob : s₀.job.status = .chunking) :
    Leaves env faults documentId document.title s₀
      (finalState ((resume env faults documentId document).run s₀)) := by
  have hstages : Ensures (Stands .chunking s₀ s₀.chunks) (laterStages env faults document)
      (fun _ => Leaves env faults documentId document.title s₀)
      (fun _ => Leaves env faults documentId document.title s₀) := by
    refine (ensures_embedStage_chunks.impRaise ?_).bind fun totalTokens => ?_
    · rintro _ s ⟨hno, chunks, hsaved, stage, hs⟩
      exact .of_stands hno hsaved hs
    apply ensures_pointwise
    intro s hs
    obtain ⟨⟨harrives, hlogged⟩, chunks, hembedded, hs⟩ := hs
    have hrest : Ensures (Stands .embedding s₀ chunks)
        (do
          storeStage env faults document
          completeStage env faults document totalTokens)
        (fun _ => Leaves env faults documentId document.title s₀)
        (fun _ => Leaves env faults documentId document.title s₀) :=
      (ensures_storeStage_leaves harrives hlogged hembedded).bind fun _ =>
        ensures_of_fact fun hstores =>
          preserves_completeStage_leaves hstores document totalTokens
    exact hrest.consequence (fun t ht => ht ▸ hs) (fun _ _ h => h) (fun _ _ h => h)
  have hrun : Ensures (Stands .chunking s₀ s₀.chunks)
      (resume env faults documentId document)
      (fun _ => Leaves env faults documentId document.title s₀)
      (fun _ => Leaves env faults documentId document.title s₀) :=
    hstages.tryExcept_keeping preserves_handler_leaves
  exact hrun.final ⟨hjob, rfl, rfl, rfl, rfl, rfl⟩

end Leaving

/-! ## The two stores after a run -/

/-- The state in which a run ends that goes on with its chunks saved. -/
def resumed (env : Env) (faults : Faults Site PyExc) (documentId : DocumentId)
    (document : Document) (s : State) : State :=
  finalState ((resume env faults documentId document).run s)

/-- Neither store holds anything of the run that went on from `s`. -/
structure TakenBack (s s' : State) : Prop where
  chunks : ∀ chunk ∈ s.chunks,
    InMemoryChunkRepository.getById s'.chunkRepo chunk.chunkId = none
  points : ∀ chunk ∈ s.chunks, s'.points.find? (.uuid chunk.chunkId) = none

/-- The repository holds all chunks of the run, with whatever embeddings they
got; the vector store holds an entry for each of them that has one, or is as
before. -/
structure Remains (env : Env) (faults : Faults Site PyExc) (title : String)
    (s s' : State) : Prop where
  repo : s'.chunkRepo = s.chunkRepo
  found : ∀ chunk ∈ s.chunks, ∃ kept ∈ s.chunks, kept.chunkId = chunk.chunkId ∧
    InMemoryChunkRepository.getById s'.chunkRepo chunk.chunkId = some kept
  saved : s'.chunks.map saved = s.chunks.map saved
  stored : Stores env faults s.chunks → Embedded env s.chunks s'.chunks ∧
    s'.points = upsertPoints s.points (s'.chunks.filterMap (entry title))
  unstored : ¬ Stores env faults s.chunks → s'.points = s.points

/-- However stages 3 to 5 end, and a failed document is no exception, what has
been stored remains. -/
theorem resumed_remains (env : Env) (faults : Faults Site PyExc)
    (documentId : DocumentId) (document : Document)
    (before : InMemoryChunkRepository.Store) (s : State)
    (hjob : s.job.status = .chunking)
    (hrepo : s.chunkRepo = InMemoryChunkRepository.saveMany before s.chunks) :
    Remains env faults document.title s
      (resumed env faults documentId document s) := by
  have hleaves : Leaves env faults documentId document.title s
      (resumed env faults documentId document s) := leaves_resume document hjob
  refine ⟨hleaves.repo, fun chunk hchunk => ?_, hleaves.chunks, fun hstores => ?_,
    fun hno => (hleaves.unwritten hno).points⟩
  · rw [hleaves.repo, hrepo]
    exact InMemoryChunkRepository.exists_getById_saveMany before hchunk
  · exact ⟨(hleaves.written hstores).embedded, (hleaves.written hstores).points⟩

/-- The greeting's chunk, saved. -/
def greetingEntity : Chunk where
  id := ⟨8⟩
  createdAt := 0
  updatedAt := 0
  tenantId := ⟨2⟩
  chunkId := ⟨9⟩
  documentId := ⟨1⟩
  collectionId := ⟨3⟩
  content := "hello"
  chunkIndex := 0
  startChar := 0
  endChar := 5

/-- The stores before the third stage of a run on the greeting. -/
def greetingSaved : State where
  documents := ⟨[greetingRow .processing], List.nodup_singleton _⟩
  points := KeyedList.empty
  chunkRepo := InMemoryChunkRepository.saveMany KeyedList.empty [greetingEntity]
  job := { IngestionJob.construct ⟨4⟩ ⟨5⟩ ⟨1⟩ fun _ => 0 with status := .chunking }
  chunks := [greetingEntity]

/-- The document as the run has read it. -/
def greetingDocument : Document :=
  PostgresDocumentRepository.rowToDocument (greetingRow .processing) ⟨6⟩

/-- A database that does not take the completed document. -/
def updateFails : Faults Site PyExc := fun site =>
  if site = .updateCompleted then
    some ⟨.exception (.other "OperationalError" "connection lost"), false⟩
  else none

theorem resumed_remains_greeting :
    Remains (greetingEnv []) updateFails "Greeting" greetingSaved
      (resumed (greetingEnv []) updateFails ⟨1⟩ greetingDocument greetingSaved) :=
  resumed_remains (greetingEnv []) updateFails ⟨1⟩ greetingDocument KeyedList.empty
    greetingSaved rfl rfl

/-- The greeting's only point stays in the vector store although its document
has failed. -/
theorem not_takenBack :
    ¬ ∀ (env : Env) (faults : Faults Site PyExc) (documentId : DocumentId)
        (document : Document) (before : InMemoryChunkRepository.Store) (s : State),
      s.job.status = .chunking →
      s.chunkRepo = InMemoryChunkRepository.saveMany before s.chunks →
      document.documentId = documentId →
      (∀ chunk ∈ s.chunks, chunk.documentId = documentId) →
      (∀ chunk ∈ s.chunks, InMemoryChunkRepository.getById before chunk.chunkId = none ∧
        s.points.find? (.uuid chunk.chunkId) = none) →
      storedStatus (resumed env faults documentId document s).documents documentId =
        some .failed →
      TakenBack s (resumed env faults documentId document s) := by
  intro hall
  have htaken := hall (greetingEnv []) updateFails ⟨1⟩ greetingDocument KeyedList.empty
    greetingSaved rfl rfl rfl (by simp [greetingSaved, greetingEntity])
    (fun _ _ => ⟨rfl, rfl⟩) rfl
  have hpoint := htaken.points greetingEntity List.mem_cons_self
  have hstays : ((resumed (greetingEnv []) updateFails ⟨1⟩ greetingDocument
      greetingSaved).points.find? (.uuid greetingEntity.chunkId)).isSome = true := rfl
  rw [hpoint] at hstays
  cases hstays

end ProcessDocument
end AiBackend

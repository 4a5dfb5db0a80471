import AiBackend.Application.ProcessDocument

/-!
# What one pipeline run does

Specifications of the stages of `ProcessDocumentUseCase`, for every pattern of
failing calls.  Between two calls only four things matter for the outcome: the
job's status, the documents table, the points and the number of chunk objects.
A stage either hands the next one the following status, or it is interrupted
by an ordinary exception, which the error handler then turns into a failed job
and, unless the handler fails too, a failed document.
-/

namespace AiBackend
namespace ProcessDocument

open Program Python PostgresDocumentRepository

/-! ## The job inside the pipeline -/

/-- A method call that cannot raise on the job it finds changes the job and
reads the clock, nothing else. -/
theorem ensures_onJob (env : Env)
    (method : (ℕ → Timestamp) → EStateM PyExc IngestionJob Unit)
    {J K : IngestionJob → Prop} {F : State → Prop}
    {E : Raised PyExc → State → Prop}
    (hF : ∀ s job clock, F s → F { s with job := job, clock := clock })
    (hmethod : ∀ now job, J job →
      ∃ job', (method now).run job = .ok () job' ∧ K job') :
    Ensures (fun s => J s.job ∧ F s) (onJob env method)
      (fun _ s => K s.job ∧ F s) E := by
  intro s hs
  obtain ⟨hjob, hs⟩ := hs
  obtain ⟨job', hrun, hjob'⟩ :=
    hmethod (fun i => env.now (s.clock + i)) s.job hjob
  have honJob : (onJob env method).run s =
      .ok () { s with job := job', clock := s.clock + 2 } := by
    simp only [onJob, readings, EStateM.run_bind, EStateM.run_modifyGet]
    simp only [EStateM.run, zoom] at hrun ⊢
    rw [hrun]
  rw [honJob]
  exact ⟨hjob', hF s job' (s.clock + 2) hs⟩

/-- Where a run stands between two calls. -/
structure At (stage : IngestionStatus) (table : DocumentTable)
    (Points : PointStore → Prop) (n : ℕ) (s : State) : Prop where
  status : s.job.status = stage
  documents : s.documents = table
  points : Points s.points
  chunks : s.chunks.length = n

/-- The calls of a run on a document without chunks, up to the error
handler. -/
def emptyRunSites : List Site :=
  [.getById, .logExtracting, .chunk, .saveMany, .logChunked, .logEmbedded,
    .logStored, .updateCompleted, .logCompleted]

/-- How a run stands that an exception has interrupted: the document's row has
its old status unless the last update went through, and a run without chunks
can only have been interrupted by a failing call. -/
structure Interrupted (faults : Faults Site PyExc) (documentId : DocumentId)
    (table : DocumentTable) (Points : PointStore → Prop) (n : ℕ)
    (r : Raised PyExc) (s : State) : Prop where
  exception : r.IsException
  stored : storedStatus s.documents documentId = storedStatus table documentId ∨
    storedStatus s.documents documentId = some .completed
  points : Points s.points
  cause : n = 0 → ∃ site ∈ emptyRunSites, faults site ≠ none

section Stages

variable {env : Env} {faults : Faults Site PyExc} {documentId : DocumentId}
  {table : DocumentTable} {Points : PointStore → Prop} {n : ℕ}

theorem At.interrupted {stage : IngestionStatus} {k : ℕ} {s : State}
    (h : At stage table Points k s) {r : Raised PyExc} (hr : r.IsException)
    (hcause : n = 0 → ∃ site ∈ emptyRunSites, faults site ≠ none) :
    Interrupted faults documentId table Points n r s :=
  ⟨hr, Or.inl (by rw [h.documents]), h.points, hcause⟩

/-- A method that takes the job from one status to another, without raising,
takes the run along. -/
theorem ensures_onJob_at {stage stage' : IngestionStatus}
    {method : (ℕ → Timestamp) → EStateM PyExc IngestionJob Unit}
    {E : Raised PyExc → State → Prop}
    (hmethod : ∀ now job, job.status = stage →
      ∃ job', (method now).run job = .ok () job' ∧ job'.status = stage') :
    Ensures (At stage table Points n) (onJob env method)
      (fun _ => At stage' table Points n) E := by
  refine (ensures_onJob env method (E := E)
    (F := fun s => s.documents = table ∧ Points s.points ∧ s.chunks.length = n)
    (fun _ _ _ hs => hs) hmethod).consequence ?_ ?_ (fun _ _ h => h)
  · exact fun s hs => ⟨hs.status, hs.documents, hs.points, hs.chunks⟩
  · exact fun _ s hs => ⟨hs.1, hs.2.1, hs.2.2.1, hs.2.2.2⟩

/-- An advance along the table goes through. -/
theorem ensures_advance {stage : IngestionStatus} (next : IngestionStatus)
    {E : Raised PyExc → State → Prop} (h : next ∈ validTransitions stage) :
    Ensures (At stage table Points n)
      (onJob env (IngestionJob.advanceStatus next))
      (fun _ => At next table Points n) E := by
  apply ensures_onJob_at
  rintro now job rfl
  obtain ⟨startedAt, hrun⟩ := IngestionJob.advanceStatus_of_mem now h
  exact ⟨_, hrun, rfl⟩

/-- A record of progress leaves the run where it is. -/
theorem ensures_recordProgress {stage : IngestionStatus} (processed total : ℤ)
    {E : Raised PyExc → State → Prop} :
    Ensures (At stage table Points n) (recordProgress env processed total)
      (fun _ => At stage table Points n) E := by
  have hrecord : Ensures (At stage table Points n)
      (onJob env (IngestionJob.recordProgress processed total))
      (fun _ => At stage table Points n) E :=
    ensures_onJob_at fun _ _ hjob => ⟨_, rfl, hjob⟩
  exact hrecord.bind fun _ => ensures_modify fun s hs =>
    ⟨hs.status, hs.documents, hs.points, hs.chunks⟩

/-- A log call of a run without chunks: it passes, or it is the failing
call. -/
theorem ensures_log (hexc : faults.ExceptionsOnly) {stage : IngestionStatus}
    (site : Site) (hsite : site ∈ emptyRunSites) :
    Ensures (At stage table Points n) (log faults site)
      (fun _ s => At stage table Points n s ∧ faults site = none)
      (Interrupted faults documentId table Points n) := by
  refine ensures_call_keeping hexc (ensures_pure fun _ hs => hs) ?_
  exact fun r s hs hr hfault => hs.interrupted hr fun _ => ⟨site, hsite, hfault⟩

/-! ## Chunking -/

/-- The constructor call leaves out the tenant, so it raises. -/
theorem newChunk_raises (env : Env) (document : Document) (cd : ChunkData)
    (tokenCount : ℤ) (s : State) :
    ∃ e, (newChunk env document cd tokenCount).run s =
      .error (.exception e)
        { s with uuids := s.uuids + 2, clock := s.clock + 2 } :=
  ⟨_, rfl⟩

/-- No list of chunk entities but the empty one is ever built. -/
theorem ensures_newChunks (env : Env) (hexc : faults.ExceptionsOnly) {F : State → Prop}
    (hF : ∀ s uuids clock, F s → F { s with uuids := uuids, clock := clock })
    (document : Document) (i : ℕ) (chunkDataList : List ChunkData) :
    Ensures F (newChunks env faults document i chunkDataList)
      (fun chunks s => (F s ∧ chunks = []) ∧ chunkDataList = [])
      (fun r s => F s ∧ r.IsException ∧ chunkDataList ≠ []) := by
  cases chunkDataList with
  | nil => exact ensures_pure fun s hs => ⟨⟨hs, rfl⟩, rfl⟩
  | cons cd rest =>
      have hcount : Ensures F
          (perform faults (.countTokens i)
            (pure (env.countTokens cd.content "gpt-4o")))
          (fun _ => F)
          (fun r s => F s ∧ r.IsException ∧ cd :: rest ≠ []) := by
        refine ensures_perform_pure.imp (fun _ _ h => h.1) ?_
        intro r s h
        obtain ⟨hs, fault, hfault, rfl⟩ := h
        exact ⟨hs, hexc _ fault hfault, by simp⟩
      have hnew : ∀ tokenCount, Ensures F
          (perform faults (.newChunk i) (newChunk env document cd tokenCount))
          (fun _ _ => False)
          (fun r s => F s ∧ r.IsException ∧ cd :: rest ≠ []) := by
        intro tokenCount
        refine ensures_perform (fun _ s hs => ?_) fun fault hfault s hs => ?_
        · obtain ⟨e, hrun⟩ := newChunk_raises env document cd tokenCount s
          rw [hrun]
          exact ⟨hF s _ _ hs, ⟨e, rfl⟩, by simp⟩
        · refine ⟨?_, hexc _ fault hfault, by simp⟩
          split
          · obtain ⟨e, hrun⟩ := newChunk_raises env document cd tokenCount s
            rw [hrun]
            exact hF s _ _ hs
          · exact hs
      exact hcount.bind fun tokenCount =>
        (hnew tokenCount).bind fun _ _ hfalse => hfalse.elim

/-- Chunking passes on a run whose chunker found no chunk. -/
theorem ensures_chunkStage (hexc : faults.ExceptionsOnly) (document : Document)
    (hn : (env.chunk document.content env.chunkSize env.chunkOverlap).length = n) :
    Ensures (fun s => ∃ k, At .extracting table Points k s)
      (chunkStage env faults document)
      (fun _ s => At .chunking table Points n s ∧ n = 0 ∧
        faults .chunk = none ∧ faults .saveMany = none ∧
        faults .logChunked = none)
      (Interrupted faults documentId table Points n) := by
  apply ensures_exists
  intro k
  apply (ensures_advance .chunking (by decide)).bind
  intro _
  have hchunk : Ensures (At .chunking table Points k)
      (perform faults .chunk
        (pure (env.chunk document.content env.chunkSize env.chunkOverlap)))
      (fun list s => At .chunking table Points k s ∧ (list.length = n ∧
        faults .chunk = none))
      (Interrupted faults documentId table Points n) := by
    apply ensures_perform_pure.imp
    · intro list s hs
      obtain ⟨hs, rfl, hsite⟩ := hs
      exact ⟨hs, hn, hsite⟩
    · intro r s h
      obtain ⟨hs, fault, hfault, rfl⟩ := h
      exact hs.interrupted (hexc _ fault hfault)
        fun _ => ⟨.chunk, by decide, by simp [hfault]⟩
  refine hchunk.bind fun list => ensures_of_fact ?_
  intro h
  obtain ⟨hlist, hchunkSite⟩ := h
  have hnew : Ensures (At .chunking table Points k)
      (newChunks env faults document 0 list)
      (fun chunks s => (At .chunking table Points k s ∧ chunks = []) ∧ n = 0)
      (Interrupted faults documentId table Points n) := by
    refine (ensures_newChunks env hexc
      (F := At .chunking table Points k)
      (fun s _ _ hs => ⟨hs.status, hs.documents, hs.points, hs.chunks⟩)
      document 0 list).imp ?_ ?_
    · intro chunks s h
      obtain ⟨hs, rfl⟩ := h
      exact ⟨hs, hlist.symm⟩
    · intro r s hs
      obtain ⟨hs, hr, hne⟩ := hs
      exact hs.interrupted hr
        fun hzero => absurd (List.length_eq_zero_iff.mp (hlist.trans hzero)) hne
  refine hnew.bind fun chunks => ensures_of_fact fun hzero => ?_
  apply ensures_of_fact
  intro hchunks
  have hsave : Ensures (At .chunking table Points k)
      (perform faults .saveMany
        (modify fun s => { s with
          chunkRepo := InMemoryChunkRepository.saveMany s.chunkRepo chunks
          chunks := chunks }))
      (fun _ s => At .chunking table Points n s ∧ faults .saveMany = none)
      (Interrupted faults documentId table Points n) := by
    have hmodify : Ensures (ε := Raised PyExc) (At .chunking table Points k)
        (modify fun s : State => { s with
          chunkRepo := InMemoryChunkRepository.saveMany s.chunkRepo chunks
          chunks := chunks })
        (fun _ => At .chunking table Points n) fun _ _ => False :=
      ensures_modify fun s hs =>
        ⟨hs.status, hs.documents, hs.points, by simp [hchunks, hzero]⟩
    refine ensures_call hexc hmodify fun r s hr hsite hs => ?_
    have hcause : ∃ site ∈ emptyRunSites, faults site ≠ none :=
      ⟨.saveMany, by decide, hsite⟩
    rcases hs with ⟨_, hs⟩ | hs
    · exact hs.interrupted hr fun _ => hcause
    · exact hs.interrupted hr fun _ => hcause
  refine hsave.bind fun _ => ensures_of_fact fun hsaveSite => ?_
  apply (ensures_recordProgress 0 _).bind
  intro _
  refine (ensures_log hexc .logChunked (by decide)).impReturn ?_
  exact fun _ s hs => ⟨hs.1, hzero, hchunkSite, hsaveSite, hs.2⟩

/-! ## Embedding -/

theorem length_attach (now : ℕ → Timestamp) (batch : List Chunk)
    (embeddings : List (Option EmbeddingVector)) :
    (attach now batch embeddings).length = batch.length := by
  induction batch generalizing now embeddings with
  | nil => cases embeddings <;> rfl
  | cons chunk batch ih =>
      cases embeddings with
      | nil => rfl
      | cons embedding embeddings => simp [attach, ih]

/-- One iteration changes no number of chunks; any exception in it comes from
a run that has chunks. -/
theorem ensures_embedBatchAt (hexc : faults.ExceptionsOnly) (hn : n ≠ 0)
    (totalTokens : ℤ) (batchStart : ℕ) :
    Ensures (At .embedding table Points n)
      (embedBatchAt env faults totalTokens batchStart)
      (fun _ => At .embedding table Points n)
      (Interrupted faults documentId table Points n) := by
  have hcause : n = 0 → ∃ site ∈ emptyRunSites, faults site ≠ none :=
    fun hzero => absurd hzero hn
  refine (ensures_get (Q := fun s₀ s =>
    At .embedding table Points n s ∧ s₀.chunks.length = n)
    fun s hs => ⟨hs, hs.chunks⟩).bind fun s₀ => ?_
  apply ensures_of_fact
  intro hs₀
  have hembed : ∀ texts, Ensures (At .embedding table Points n)
      (perform faults (.embedBatch batchStart) (do
        record (.embedBatch texts)
        pure (env.embedBatch batchStart texts)))
      (fun _ => At .embedding table Points n)
      (Interrupted faults documentId table Points n) := by
    intro texts
    have haction : Ensures (At .embedding table Points n)
        (do
          record (.embedBatch texts)
          pure (env.embedBatch batchStart texts))
        (fun _ => At .embedding table Points n) fun _ _ => False :=
      (ensures_modify (Q := fun _ => At .embedding table Points n) fun s hs =>
        ⟨hs.status, hs.documents, hs.points, hs.chunks⟩).bind fun _ =>
          ensures_pure fun _ hs => hs
    exact (ensures_call_keeping hexc haction
      fun _ _ hs hr _ => hs.interrupted hr hcause).impReturn fun _ _ h => h.1
  apply (hembed _).bind
  intro embeddings
  refine Ensures.bind (M := fun _ => At .embedding table Points n)
    (fun s hs => ⟨hs.status, hs.documents, hs.points, hs.chunks⟩) fun now => ?_
  refine (ensures_modify (Q := fun _ => At .embedding table Points n)
    fun s hs => ⟨hs.status, hs.documents, hs.points, ?_⟩).bind fun _ => ?_
  · have hlength := hs.chunks
    simp only [List.length_append, length_attach, List.length_take,
      List.length_drop]
    omega
  have hcheck : ∀ batch embedded, Ensures (At .embedding table Points n)
      (checkLengths batch embedded) (fun _ => At .embedding table Points n)
      (Interrupted faults documentId table Points n) := by
    intro batch embedded
    unfold checkLengths
    split
    · exact ensures_throw fun s hs => hs.interrupted ⟨_, rfl⟩ hcause
    · split
      · exact ensures_throw fun s hs => hs.interrupted ⟨_, rfl⟩ hcause
      · exact ensures_pure fun _ hs => hs
  apply (hcheck _ _).bind
  intro _
  exact (ensures_recordProgress _ _).bind fun _ => ensures_pure fun _ hs => hs

theorem ensures_embedStage (hexc : faults.ExceptionsOnly) :
    Ensures (At .chunking table Points n) (embedStage env faults)
      (fun _ s => At .embedding table Points n s ∧ faults .logEmbedded = none)
      (Interrupted faults documentId table Points n) := by
  apply (ensures_advance .embedding (by decide)).bind
  intro _
  refine (ensures_get (Q := fun s₀ s =>
    At .embedding table Points n s ∧ s₀.chunks.length = n)
    fun s hs => ⟨hs, hs.chunks⟩).bind fun s₀ => ?_
  apply ensures_of_fact
  intro hs₀
  have hloop : Ensures (At .embedding table Points n)
      ((batchStarts s₀.chunks.length).foldlM (embedBatchAt env faults) 0)
      (fun _ => At .embedding table Points n)
      (Interrupted faults documentId table Points n) := by
    -- the loop over no chunk has no iteration
    refine ensures_foldlM (I := fun _ => At .embedding table Points n)
      (fun total start hstart => ?_) 0
    refine ensures_embedBatchAt hexc ?_ total start
    rintro rfl
    rw [hs₀] at hstart
    simp [batchStarts, embeddingBatchSize] at hstart
  apply hloop.bind
  intro totalTokens
  apply (ensures_log hexc .logEmbedded (by decide)).bind
  intro _
  exact ensures_pure fun _ hs => hs

/-! ## Storing -/

/-- Storing keeps what holds of the points if an upsert of at most `n` entries
does. -/
theorem ensures_storeStage (hexc : faults.ExceptionsOnly) (document : Document)
    (hPoints : ∀ points (entries : List QdrantVectorRepository.Entry),
      entries.length ≤ n → Points points →
        Points (QdrantVectorRepository.upsertPoints points entries)) :
    Ensures (At .embedding table Points n) (storeStage env faults document)
      (fun _ s => At .storing table Points n s ∧ faults .logStored = none)
      (Interrupted faults documentId table Points n) := by
  apply (ensures_advance .storing (by decide)).bind
  intro _
  refine (ensures_get (Q := fun s₀ s =>
    At .storing table Points n s ∧ s₀.chunks.length = n)
    fun s hs => ⟨hs, hs.chunks⟩).bind fun s₀ => ?_
  apply ensures_of_fact
  intro hs₀
  have hupsert : ∀ entries : List QdrantVectorRepository.Entry,
      entries.length ≤ n → Ensures (At .storing table Points n)
        (upsertMany faults entries) (fun _ => At .storing table Points n)
        (Interrupted faults documentId table Points n) := by
    intro entries hlength
    unfold upsertMany
    split
    · exact ensures_pure fun _ hs => hs
    next hentries =>
      have hcause : n = 0 → ∃ site ∈ emptyRunSites, faults site ≠ none := by
        rintro rfl
        simp at hlength
        simp [hlength] at hentries
      have haction : Ensures (At .storing table Points n)
          (do
            record (.upsertMany entries)
            modify fun s : State => { s with
              points := QdrantVectorRepository.upsertPoints s.points entries })
          (fun _ => At .storing table Points n) fun _ _ => False :=
        (ensures_modify (Q := fun _ => At .storing table Points n) fun s hs =>
          ⟨hs.status, hs.documents, hs.points, hs.chunks⟩).bind fun _ =>
            ensures_modify fun s hs => ⟨hs.status, hs.documents,
              hPoints s.points entries hlength hs.points, hs.chunks⟩
      have hlog : Ensures (At .storing table Points n) (log faults .logUpsert)
          (fun _ => At .storing table Points n)
          (Interrupted faults documentId table Points n) :=
        (ensures_call_keeping hexc (ensures_pure fun _ hs => hs)
          fun _ _ hs hr _ => hs.interrupted hr hcause).impReturn fun _ _ h => h.1
      exact ((ensures_call_keeping hexc haction
        fun _ _ hs hr _ => hs.interrupted hr hcause).impReturn
          fun _ _ h => h.1).bind fun _ => hlog
  refine (hupsert _ ?_).bind fun _ => ensures_log hexc .logStored (by decide)
  exact (List.length_filterMap_le _ _).trans hs₀.le

/-! ## Completion -/

/-- The last stage completes the job and then the document. -/
theorem ensures_completeStage (hexc : faults.ExceptionsOnly)
    {document : Document} {id : Uuid} (totalTokens : ℤ)
    (hdocument : PostgresDocumentRepository.getById table documentId id =
      some document) :
    Ensures (At .storing table Points n)
      (completeStage env faults document totalTokens)
      (fun _ s => (s.job.status = .completed ∧
          storedStatus s.documents documentId = some .completed ∧
          Points s.points) ∧
        faults .updateCompleted = none ∧ faults .logCompleted = none)
      (Interrupted faults documentId table Points n) := by
  refine Ensures.bind (M := fun _ => At .completed table Points n)
    (ensures_onJob_at fun _ _ _ => ⟨_, rfl, rfl⟩) fun _ => ?_
  refine Ensures.bind (M := fun _ => At .completed table Points n)
    (fun s hs => ⟨hs.status, hs.documents, hs.points, hs.chunks⟩) fun now => ?_
  refine (ensures_get (Q := fun _ => At .completed table Points n)
    fun s hs => hs).bind fun s₀ => ?_
  -- after the update the row is completed, whatever interrupts the run
  let Done : State → Prop := fun s => s.job.status = .completed ∧
    storedStatus s.documents documentId = some .completed ∧ Points s.points
  have hinterrupted : ∀ {r : Raised PyExc} {s : State}, Done s →
      r.IsException → (∃ site ∈ emptyRunSites, faults site ≠ none) →
      Interrupted faults documentId table Points n r s :=
    fun hs hr hcause => ⟨hr, Or.inr hs.2.1, hs.2.2, fun _ => hcause⟩
  let completed := document.markCompleted s₀.chunks.length totalTokens (now 0)
  have hupdate : Ensures (At .completed table Points n) (update env completed)
      (fun _ => Done) fun _ _ => False := by
    intro s hs
    refine ⟨hs.status, ?_, hs.points⟩
    rw [← hs.documents] at hdocument
    have hid := getById_documentId hdocument
    exact storedStatus_update_of_getById _ hdocument hid
  refine (ensures_call hexc hupdate ?_).bind fun _ => ?_
  · intro r s hr hsite hs
    have hcause : ∃ site ∈ emptyRunSites, faults site ≠ none :=
      ⟨.updateCompleted, by decide, hsite⟩
    rcases hs with ⟨_, hs⟩ | hs
    · exact hinterrupted hs hr hcause
    · exact hs.interrupted hr fun _ => hcause
  apply ensures_of_fact
  intro hupdateSite
  refine (ensures_call_keeping hexc (ensures_pure fun _ hs => hs) ?_).impReturn
    fun _ _ h => ⟨h.1, hupdateSite, h.2⟩
  exact fun r s hs hr hsite => hinterrupted hs hr ⟨.logCompleted, by decide, hsite⟩

/-! ## The stages together -/

/-- The stages 2 to 5 only pass on a run that finds no chunk and meets no
failing call. -/
theorem ensures_stages (hexc : faults.ExceptionsOnly) {document : Document}
    {id : Uuid} {points : PointStore}
    (hdocument : PostgresDocumentRepository.getById table documentId id =
      some document)
    (hn : (env.chunk document.content env.chunkSize env.chunkOverlap).length = n)
    (hget : faults .getById = none) :
    Ensures (fun s => ∃ k, At .extracting table (· = points) k s)
      (stages env faults document)
      (fun _ s => (s.job.status = .completed ∧
          storedStatus s.documents documentId = some .completed ∧
          s.points = points) ∧
        n = 0 ∧ ∀ site ∈ emptyRunSites, faults site = none)
      (Interrupted faults documentId table (· = points) n) := by
  have hlog : Ensures (fun s => ∃ k, At .extracting table (· = points) k s)
      (log faults .logExtracting)
      (fun _ s => (∃ k, At .extracting table (· = points) k s) ∧
        faults .logExtracting = none)
      (Interrupted faults documentId table (· = points) n) := by
    refine ensures_call_keeping hexc (ensures_pure fun _ hs => hs) ?_
    intro r s hs hr hsite
    obtain ⟨k, hs⟩ := hs
    exact hs.interrupted hr fun _ => ⟨.logExtracting, by decide, hsite⟩
  refine hlog.bind fun _ => ensures_of_fact fun hextracting => ?_
  refine (ensures_chunkStage hexc document hn).bind fun _ =>
    ensures_of_fact ?_
  intro h
  obtain ⟨rfl, hchunk, hsave, hchunked⟩ := h
  refine (ensures_embedStage hexc).bind fun totalTokens =>
    ensures_of_fact fun hembedded => ?_
  have hPoints : ∀ found (entries : List QdrantVectorRepository.Entry),
      entries.length ≤ 0 → found = points →
        QdrantVectorRepository.upsertPoints found entries = points := by
    intro found entries hlength hfound
    rw [List.length_eq_zero_iff.mp (Nat.le_zero.mp hlength)]
    exact hfound
  refine (ensures_storeStage hexc document hPoints).bind fun _ =>
    ensures_of_fact fun hstored => ?_
  refine (ensures_completeStage hexc totalTokens hdocument).impReturn ?_
  intro _ s hs
  obtain ⟨hs, hupdate, hcompleted⟩ := hs
  refine ⟨hs, rfl, ?_⟩
  simp [emptyRunSites, hget, hextracting, hchunk, hsave, hchunked, hembedded,
    hstored, hupdate, hcompleted]

end Stages

/-! ## How a run ends -/

/-- The chunker finds nothing in a document with content, and no call of the
run fails. -/
structure Uneventful (env : Env) (faults : Faults Site PyExc)
    (content : String) : Prop where
  notBlank : Text.isBlank content = false
  chunks : env.chunk content env.chunkSize env.chunkOverlap = []
  calls : ∀ site ∈ emptyRunSites, faults site = none

/-- The run writes the failure of an empty document itself. -/
structure WritesEmpty (faults : Faults Site PyExc) (content : String) : Prop where
  blank : Text.isBlank content = true
  read : faults .getById = none
  write : faults.Lands .updateEmpty

/-- The write of the error handler takes effect. -/
structure HandlerWrites (faults : Faults Site PyExc) : Prop where
  read : faults .handlerGetById = none
  write : faults.Lands .handlerUpdate

/-- The job failed and says why. -/
def FailedWithMessage (job : IngestionJob) : Prop :=
  job.status = .failed ∧ ∃ message, job.errorMessage = some message ∧ message ≠ ""

/-! ## The error handler -/

section Handler

variable {env : Env} {faults : Faults Site PyExc} {documentId : DocumentId}

/-- A failed job, a given stored status and given points. -/
structure FailedAt (documentId : DocumentId) (stored : Option DocumentStatus)
    (points : PointStore) (s : State) : Prop where
  job : FailedWithMessage s.job
  stored : storedStatus s.documents documentId = stored
  points : s.points = points

/-- What the error handler does to the stored status, if there is one. -/
def Handled (faults : Faults Site PyExc)
    (before after : Option DocumentStatus) : Prop :=
  (HandlerWrites faults ∧ after = before.map fun _ => .failed) ∨
    (¬ HandlerWrites faults ∧ after = before)

/-- The handler's read: the status stays, and what is found is the document. -/
theorem ensures_handlerRead (hexc : faults.ExceptionsOnly)
    {before : Option DocumentStatus} {points : PointStore} :
    Ensures (FailedAt documentId before points)
      (perform faults .handlerGetById (getById env documentId))
      (fun found s => (FailedAt documentId before points s ∧
          ∃ id, PostgresDocumentRepository.getById s.documents documentId id = found) ∧
        faults .handlerGetById = none)
      (fun r s => r.IsException ∧ ∃ after, Handled faults before after ∧
        FailedAt documentId after points s) := by
  have hget : Ensures (FailedAt documentId before points)
      (getById env documentId)
      (fun found s => FailedAt documentId before points s ∧
        ∃ id, PostgresDocumentRepository.getById s.documents documentId id = found)
      fun _ _ => False :=
    fun s hs => ⟨⟨hs.job, hs.stored, hs.points⟩, _, rfl⟩
  refine ensures_call hexc hget fun r s hr hsite hs => ?_
  have hsilent : ¬ HandlerWrites faults := fun h => hsite h.read
  refine ⟨hr, before, Or.inr ⟨hsilent, rfl⟩, ?_⟩
  rcases hs with ⟨_, hs, -⟩ | hs
  · exact hs
  · exact hs

/-- The handler's write of a document that it has read. -/
theorem ensures_handlerWrite (hexc : faults.ExceptionsOnly)
    {before : Option DocumentStatus} {points : PointStore} {document : Document}
    (hread : faults .handlerGetById = none) (errorMsg : String) (now : Timestamp) :
    Ensures (fun s => FailedAt documentId before points s ∧
        ∃ id, PostgresDocumentRepository.getById s.documents documentId id = some document)
      (perform faults .handlerUpdate (update env (document.markFailed errorMsg now)))
      (fun _ s => ∃ after, Handled faults before after ∧ FailedAt documentId after points s)
      (fun r s => r.IsException ∧ ∃ after, Handled faults before after ∧
        FailedAt documentId after points s) := by
  have hupdate : Ensures (fun s => FailedAt documentId before points s ∧
        ∃ id, PostgresDocumentRepository.getById s.documents documentId id = some document)
      (update env (document.markFailed errorMsg now))
      (fun _ => FailedAt documentId (before.map fun _ => .failed) points)
      fun _ _ => False := by
    intro s hs
    obtain ⟨hs, id, hfound⟩ := hs
    have hid := getById_documentId hfound
    refine ⟨hs.job, ?_, hs.points⟩
    have hbefore : before ≠ none := by
      intro hnone
      rw [← hs.stored] at hnone
      rw [getById_eq_none_iff.mpr hnone] at hfound
      cases hfound
    obtain ⟨status, rfl⟩ := Option.ne_none_iff_exists'.mp hbefore
    exact storedStatus_update_of_getById _ hfound hid
  apply (ensures_perform_effect hupdate).imp
  · intro _ s hs
    obtain ⟨hwrite, hs⟩ := hs
    exact ⟨_, Or.inl ⟨⟨hread, Faults.lands_of_none hwrite⟩, rfl⟩, hs⟩
  · intro r s hs
    obtain ⟨fault, hfault, rfl, hs⟩ := hs
    refine ⟨hexc _ fault hfault, ?_⟩
    by_cases hlanded : fault.landed
    · simp only [hlanded, ↓reduceIte] at hs
      obtain ⟨_, hs⟩ := hs
      have hlands := (Faults.lands_iff_of_some hfault).mpr hlanded
      exact ⟨_, Or.inl ⟨⟨hread, hlands⟩, rfl⟩, hs⟩
    · simp only [hlanded, Bool.false_eq_true, ↓reduceIte] at hs
      exact ⟨_, Or.inr ⟨fun h => hlanded (h.write fault hfault), rfl⟩, hs.1⟩

/-- The nested `try` never raises: its write takes effect or it does not. -/
theorem ensures_markStoredFailed (hexc : faults.ExceptionsOnly)
    {before : Option DocumentStatus} {points : PointStore} (errorMsg : String) :
    Ensures (FailedAt documentId before points)
      (markStoredFailed env faults documentId errorMsg)
      (fun _ s => ∃ after, Handled faults before after ∧
        FailedAt documentId after points s)
      fun _ _ => False := by
  refine Ensures.tryExcept_exceptions (M := fun s => ∃ after,
    Handled faults before after ∧ FailedAt documentId after points s)
    ((ensures_handlerRead hexc).bind fun found => ensures_of_fact fun hread => ?_)
    fun _ => ensures_pure fun _ hs => hs
  cases found with
  | none =>
      apply ensures_pure
      intro s h
      obtain ⟨hs, id, hfound⟩ := h
      have habsent : before = none := by
        rw [← hs.stored]
        exact getById_eq_none_iff.mp hfound
      by_cases hwrites : HandlerWrites faults
      · exact ⟨before, Or.inl ⟨hwrites, by simp [habsent]⟩, hs⟩
      · exact ⟨before, Or.inr ⟨hwrites, rfl⟩, hs⟩
  | some document =>
      refine Ensures.bind (M := fun _ s => FailedAt documentId before points s ∧
        ∃ id, PostgresDocumentRepository.getById s.documents documentId id = some document)
        (fun s hs => ⟨⟨hs.1.job, hs.1.stored, hs.1.points⟩, hs.2⟩) fun now => ?_
      exact ensures_handlerWrite hexc hread errorMsg (now 0)

/-- After the handler the job has failed with a message, also when the closing
log call fails. -/
theorem ensures_handler (hexc : faults.ExceptionsOnly)
    {before : Option DocumentStatus} {points : PointStore} (exc : PyExc) :
    Ensures
      (fun s => storedStatus s.documents documentId = before ∧ s.points = points)
      (handler env faults documentId exc)
      (fun _ s => ∃ after, Handled faults before after ∧
        FailedAt documentId after points s)
      fun _ s => ∃ after, Handled faults before after ∧
        FailedAt documentId after points s := by
  have hfail : Ensures (ε := Raised PyExc)
      (fun s => storedStatus s.documents documentId = before ∧ s.points = points)
      (onJob env (IngestionJob.fail ("Pipeline failed: " ++ exc.str)))
      (fun _ => FailedAt documentId before points) fun _ s =>
        ∃ after, Handled faults before after ∧
          FailedAt documentId after points s := by
    refine (ensures_onJob env _ (J := fun _ => True) (K := FailedWithMessage)
      (F := fun s => storedStatus s.documents documentId = before ∧
        s.points = points) (fun _ _ _ hs => hs) ?_).consequence
      (fun _ hs => ⟨trivial, hs⟩) (fun _ s hs => ⟨hs.1, hs.2.1, hs.2.2⟩)
      (fun _ _ hs => hs)
    exact fun now job _ => ⟨_, rfl, rfl, _, rfl, by simp⟩
  refine hfail.bind fun _ => ((ensures_markStoredFailed hexc _).impRaise
    fun _ _ h => h.elim).bind fun _ => ?_
  exact ensures_perform_pure.imp (fun _ _ h => h.1)
    (fun _ _ h => h.1)

end Handler

/-! ## The use case -/

section Execute

variable {env : Env} {faults : Faults Site PyExc} {documentId : DocumentId}
  {table : DocumentTable} {points : PointStore}

/-- How a run on a stored document ends. -/
inductive RunEnd (env : Env) (faults : Faults Site PyExc) (row : DocumentRow)
    (points : PointStore) (s : State) : Prop
  /-- Nothing to store and nothing failed. -/
  | completed (uneventful : Uneventful env faults row.content)
      (job : s.job.status = .completed)
      (stored : storedStatus s.documents row.documentId = some .completed)
      (kept : s.points = points)
  /-- The run failed and the document with it. -/
  | failed (eventful : ¬ Uneventful env faults row.content)
      (written : WritesEmpty faults row.content ∨ HandlerWrites faults)
      (state : FailedAt row.documentId (some .failed) points s)
  /-- The run failed and so did the error handler's write. -/
  | silent (eventful : ¬ Uneventful env faults row.content)
      (unwritten : ¬ WritesEmpty faults row.content)
      (handler : ¬ HandlerWrites faults) (status : DocumentStatus)
      (old : status = row.status ∨ status = .completed)
      (state : FailedAt row.documentId (some status) points s)

/-- How the body of the `try` leaves a stored document when it raises. -/
structure BodyRaised (env : Env) (faults : Faults Site PyExc)
    (row : DocumentRow) (points : PointStore) (r : Raised PyExc) (s : State) :
    Prop where
  exception : r.IsException
  eventful : ¬ Uneventful env faults row.content
  kept : s.points = points
  stored : (WritesEmpty faults row.content ∧
      storedStatus s.documents row.documentId = some .failed) ∨
    (¬ WritesEmpty faults row.content ∧
      ∃ status, (status = row.status ∨ status = .completed) ∧
        storedStatus s.documents row.documentId = some status)

/-- Reading the document changes nothing but the generator. -/
theorem ensures_getById (hexc : faults.ExceptionsOnly)
    {stage : IngestionStatus} {n : ℕ} :
    Ensures (At stage table (· = points) n)
      (perform faults .getById (getById env documentId))
      (fun found s => At stage table (· = points) n s ∧
        faults .getById = none ∧
          ∃ id, PostgresDocumentRepository.getById table documentId id = found)
      (fun r s => At stage table (· = points) n s ∧ r.IsException ∧
        faults .getById ≠ none) := by
  have hget : Ensures (At stage table (· = points) n) (getById env documentId)
      (fun found s => At stage table (· = points) n s ∧
        ∃ id, PostgresDocumentRepository.getById table documentId id = found)
      fun _ _ => False :=
    fun s hs => ⟨⟨hs.status, hs.documents, hs.points, hs.chunks⟩,
      _, by rw [hs.documents]⟩
  refine (ensures_call hexc hget ?_).impReturn fun _ _ h => ⟨h.1.1, h.2, h.1.2⟩
  intro r s hr hsite hs
  rcases hs with ⟨_, hs, -⟩ | hs
  · exact ⟨hs, hr, hsite⟩
  · exact ⟨hs, hr, hsite⟩

/-- The branch of a document without content. -/
theorem ensures_emptyBranch (hexc : faults.ExceptionsOnly) {row : DocumentRow}
    {document : Document} {id : Uuid} {n : ℕ}
    (hdocument : PostgresDocumentRepository.getById table row.documentId id =
      some document)
    (hrow : storedStatus table row.documentId = some row.status)
    (hblank : Text.isBlank row.content = true) (hread : faults .getById = none) :
    Ensures (At .extracting table (· = points) n)
      (do
        onJob env (IngestionJob.fail "Document content is empty")
        let now ← readings env 1
        perform faults .updateEmpty
          (update env (document.markFailed "Document content is empty" (now 0))))
      (fun _ => RunEnd env faults row points)
      (BodyRaised env faults row points) := by
  have heventful : ¬ Uneventful env faults row.content :=
    fun h => absurd h.notBlank (by simp [hblank])
  let Failed : State → Prop := fun s =>
    FailedWithMessage s.job ∧ s.documents = table ∧ s.points = points
  have hfail : Ensures (ε := Raised PyExc) (At .extracting table (· = points) n)
      (onJob env (IngestionJob.fail "Document content is empty"))
      (fun _ => Failed) (BodyRaised env faults row points) :=
    (ensures_onJob env _ (J := fun _ => True) (K := FailedWithMessage)
      (F := fun s => s.documents = table ∧ s.points = points)
      (fun _ _ _ hs => hs)
      fun _ _ _ => ⟨_, rfl, rfl, _, rfl, by decide⟩).consequence
      (fun _ hs => ⟨trivial, hs.documents, hs.points⟩) (fun _ _ hs => hs)
      (fun _ _ hs => hs)
  apply hfail.bind
  intro _
  refine Ensures.bind (M := fun _ => Failed) (fun s hs => hs) fun now => ?_
  have hupdate : Ensures Failed
      (update env (document.markFailed "Document content is empty" (now 0)))
      (fun _ => FailedAt row.documentId (some .failed) points)
      fun _ _ => False := by
    intro s hs
    obtain ⟨hjob, hdocuments, hpoints⟩ := hs
    rw [← hdocuments] at hdocument
    have hid := getById_documentId hdocument
    exact ⟨hjob, storedStatus_update_of_getById _ hdocument hid, hpoints⟩
  apply (ensures_perform_effect hupdate).imp
  · intro _ s hs
    obtain ⟨hwrite, hs⟩ := hs
    exact .failed heventful
      (Or.inl ⟨hblank, hread, Faults.lands_of_none hwrite⟩) hs
  · intro r s hs
    obtain ⟨fault, hfault, rfl, hs⟩ := hs
    have hlands := Faults.lands_iff_of_some hfault
    by_cases hlanded : fault.landed
    · simp only [hlanded, ↓reduceIte] at hs
      obtain ⟨_, hs⟩ := hs
      exact ⟨hexc _ fault hfault, heventful, hs.points,
        Or.inl ⟨⟨hblank, hread, hlands.mpr hlanded⟩, hs.stored⟩⟩
    · simp only [hlanded, Bool.false_eq_true, ↓reduceIte] at hs
      obtain ⟨-, hdocuments, hpoints⟩ := hs
      refine ⟨hexc _ fault hfault, heventful, hpoints,
        Or.inr ⟨fun h => hlanded (hlands.mp h.write), _, Or.inl rfl, ?_⟩⟩
      rw [hdocuments, hrow]

/-- The body of the `try` on a stored document. -/
theorem ensures_pipeline_stored (hexc : faults.ExceptionsOnly)
    {row : DocumentRow} (hrow : table.find? documentId = some row) :
    Ensures (fun s => ∃ k, At .queued table (· = points) k s)
      (pipeline env faults documentId)
      (fun _ => RunEnd env faults row points)
      (BodyRaised env faults row points) := by
  obtain rfl := table.find?_key hrow
  have hstatus : storedStatus table row.documentId = some row.status := by
    simp [storedStatus, hrow]
  apply ensures_exists
  intro k
  apply (ensures_advance .extracting (by decide)).bind
  intro _
  refine ((ensures_getById hexc).impRaise ?_).bind fun found => ?_
  · intro r s hs
    obtain ⟨hs, hr, hsite⟩ := hs
    refine ⟨hr, fun h => hsite (h.calls _ (by decide)), hs.points,
      Or.inr ⟨fun h => hsite h.read, row.status, Or.inl rfl, ?_⟩⟩
    rw [hs.documents, hstatus]
  · apply ensures_of_fact
    intro h
    obtain ⟨hread, id, hfound⟩ := h
    cases found with
    | none =>
        rw [getById_eq_none_iff, hstatus] at hfound
        cases hfound
    | some document =>
        have hcontent : document.content = row.content := by
          simp only [PostgresDocumentRepository.getById, hrow, Option.map_some,
            Option.some.injEq] at hfound
          rw [← hfound]
          rfl
        simp only [hcontent]
        split
        next hblank =>
          exact ensures_emptyBranch hexc hfound hstatus hblank hread
        next hblank =>
          rw [Bool.not_eq_true] at hblank
          refine (ensures_stages hexc hfound rfl hread).consequence
            (fun s hs => ⟨k, hs⟩) ?_ ?_
          · intro _ s hs
            obtain ⟨⟨hjob, hstored, hpoints⟩, hn, hcalls⟩ := hs
            rw [hcontent, List.length_eq_zero_iff] at hn
            exact .completed ⟨hblank, hn, hcalls⟩ hjob hstored hpoints
          · intro r s hs
            refine ⟨hs.exception, fun h => ?_, hs.points,
              Or.inr ⟨fun h => absurd h.blank (by simp [hblank]), ?_⟩⟩
            · obtain ⟨site, hsite, hne⟩ := hs.cause (by rw [hcontent, h.chunks]; rfl)
              exact hne (h.calls site hsite)
            · rcases hs.stored with hstored | hstored
              · exact ⟨_, Or.inl rfl, hstored.trans hstatus⟩
              · exact ⟨_, Or.inr rfl, hstored⟩

theorem BodyRaised.handled {row : DocumentRow} {r : Raised PyExc} {s s' : State}
    (hs : BodyRaised env faults row points r s) {after : Option DocumentStatus}
    (hafter : Handled faults (storedStatus s.documents row.documentId) after)
    (hs' : FailedAt row.documentId after points s') :
    RunEnd env faults row points s' := by
  rcases hs.stored with ⟨hempty, hstored⟩ | ⟨hempty, status, hold, hstored⟩
  · rw [hstored] at hafter
    rcases hafter with ⟨-, rfl⟩ | ⟨-, rfl⟩
    · exact .failed hs.eventful (Or.inl hempty) hs'
    · exact .failed hs.eventful (Or.inl hempty) hs'
  · rw [hstored] at hafter
    rcases hafter with ⟨hwrites, rfl⟩ | ⟨hsilent, rfl⟩
    · exact .failed hs.eventful (Or.inr hwrites) hs'
    · exact .silent hs.eventful hempty hsilent status hold hs'

/-- A run on a stored document, from the queued job to its last call. -/
theorem ensures_execute_stored (hexc : faults.ExceptionsOnly)
    {row : DocumentRow} (hrow : table.find? documentId = some row) :
    Ensures (fun s => ∃ k, At .queued table (· = points) k s)
      (execute env faults documentId)
      (fun _ => RunEnd env faults row points)
      fun _ => RunEnd env faults row points := by
  refine Ensures.tryExcept_exceptions
    (M := fun s => ∃ r, BodyRaised env faults row points r s)
    ((ensures_pipeline_stored hexc hrow).impRaise ?_) fun e => ?_
  · exact fun r s hs => ⟨hs.exception, r, hs⟩
  · obtain rfl := table.find?_key hrow
    apply ensures_pointwise
    intro s hs
    obtain ⟨r, hs⟩ := hs
    have hhandler : Ensures
        (fun t => storedStatus t.documents row.documentId =
          storedStatus s.documents row.documentId ∧ t.points = points)
        (handler env faults row.documentId e) _ _ := ensures_handler hexc e
    refine hhandler.consequence ?_ ?_ ?_
    · rintro t rfl
      exact ⟨rfl, hs.kept⟩
    · intro _ t hs
      obtain ⟨after, hafter, ht⟩ := hs
      exact hs.handled hafter ht
    · intro _ t hs
      obtain ⟨after, hafter, ht⟩ := hs
      exact hs.handled hafter ht

/-- A run on a document that is not stored fails its job. -/
theorem ensures_execute_absent (hexc : faults.ExceptionsOnly)
    (habsent : storedStatus table documentId = none) :
    Ensures (fun s => ∃ k, At .queued table (· = points) k s)
      (execute env faults documentId)
      (fun _ => FailedAt documentId none points)
      fun _ => FailedAt documentId none points := by
  let Unstored : State → Prop := fun s =>
    storedStatus s.documents documentId = none ∧ s.points = points
  have hbody : Ensures (fun s => ∃ k, At .queued table (· = points) k s)
      (pipeline env faults documentId)
      (fun _ => FailedAt documentId none points)
      (fun r s => r.IsException ∧ Unstored s) := by
    apply ensures_exists
    intro k
    apply (ensures_advance .extracting (by decide)).bind
    intro _
    refine ((ensures_getById hexc).impRaise ?_).bind fun found => ensures_of_fact ?_
    · intro r s h
      obtain ⟨hs, hr, -⟩ := h
      exact ⟨hr, by rw [hs.documents, habsent], hs.points⟩
    · intro h
      obtain ⟨-, id, hfound⟩ := h
      obtain rfl : none = found :=
        (getById_eq_none_iff.mpr habsent).symm.trans hfound
      refine (ensures_onJob env _ (J := fun _ => True) (K := FailedWithMessage)
        (F := Unstored) (fun _ _ _ hs => hs) ?_).consequence ?_
        (fun _ s hs => ⟨hs.1, hs.2.1, hs.2.2⟩) (fun _ _ hs => hs)
      · exact fun now job _ => ⟨_, rfl, rfl, _, rfl, by simp⟩
      · exact fun s hs => ⟨trivial, by rw [hs.documents, habsent], hs.points⟩
  refine hbody.tryExcept_exceptions fun e => ?_
  have hafter : ∀ s, (∃ after, Handled faults none after ∧
      FailedAt documentId after points s) → FailedAt documentId none points s := by
    rintro s ⟨after, ⟨-, rfl⟩ | ⟨-, rfl⟩, hs⟩
    · exact hs
    · exact hs
  exact (ensures_handler hexc e).imp (fun _ => hafter) (fun _ => hafter)

end Execute
end ProcessDocument
end AiBackend

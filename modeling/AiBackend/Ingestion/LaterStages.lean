import AiBackend.Ingestion.PipelineFrame
import AiBackend.Ingestion.RunGuarantees
import Mathlib.Data.List.Basic

/-!
# The pipeline from its third stage on

Stages 3 to 5 of `ProcessDocumentUseCase.execute` with its error handler,
started with any saved chunks.  Whether the points of the chunks are written
is decided by four things: the calls that embed the batches, the lengths of
the lists they return, the log call behind them and the upsert.  Nothing that
fails later takes the points away again, and nothing that fails at all touches
the chunks.
-/

namespace AiBackend
namespace ProcessDocument

open Program Python PostgresDocumentRepository QdrantVectorRepository

/-- Stages 3 to 5. -/
def laterStages (env : Env) (faults : Faults Site PyExc) (document : Document) :
    Prog Unit := do
  let totalTokens ← embedStage env faults
  storeStage env faults document
  completeStage env faults document totalTokens

/-- What is left of a run whose chunks have been saved. -/
def resume (env : Env) (faults : Faults Site PyExc) (documentId : DocumentId)
    (document : Document) : Prog Unit :=
  tryExcept (laterStages env faults document) (handler env faults documentId)

/-- A run that gets past the second stage goes on like this. -/
theorem run_execute_of_chunked {env : Env} {faults : Faults Site PyExc}
    {documentId : DocumentId} {document : Document} {s₀ s₁ s₂ s₃ s₄ : State}
    (hadvance : (onJob env (IngestionJob.advanceStatus .extracting)).run s₀ = .ok () s₁)
    (hread : (perform faults .getById (getById env documentId)).run s₁ =
      .ok (some document) s₂)
    (hblank : Text.isBlank document.content = false)
    (hlog : (log faults .logExtracting).run s₂ = .ok () s₃)
    (hchunk : (chunkStage env faults document).run s₃ = .ok () s₄) :
    (execute env faults documentId).run s₀ =
      (resume env faults documentId document).run s₄ := by
  have hbody : (pipeline env faults documentId).run s₀ =
      (laterStages env faults document).run s₄ := by
    rw [pipeline, EStateM.run_bind, hadvance]
    dsimp only
    rw [EStateM.run_bind, hread]
    simp only [hblank, Bool.false_eq_true, ↓reduceIte]
    rw [stages, EStateM.run_bind, hlog]
    dsimp only
    rw [EStateM.run_bind, hchunk]
    rfl
  rw [execute, resume, run_tryExcept, run_tryExcept, hbody]

/-! ## Chunks and their embeddings -/

/-- A chunk apart from its embedding and the time of its last change. -/
def saved (chunk : Chunk) : Chunk := { chunk with embedding := none, updatedAt := 0 }

/-- The texts of the batch that starts at `b`. -/
def texts (chunks : List Chunk) (b : ℕ) : List String :=
  ((chunks.drop b).take embeddingBatchSize).map Chunk.content

/-- What the provider returns for them. -/
def answer (env : Env) (chunks : List Chunk) (b : ℕ) : List (Option EmbeddingVector) :=
  env.embedBatch b (texts chunks b)

/-- The call for a batch returns, and with one item for each text. -/
structure Arrives (env : Env) (faults : Faults Site PyExc) (chunks : List Chunk)
    (b : ℕ) : Prop where
  call : faults (.embedBatch b) = none
  length : (answer env chunks b).length = (texts chunks b).length

/-- The run gets to its upsert, and if there is anything to upsert, that takes
effect. -/
structure Stores (env : Env) (faults : Faults Site PyExc) (chunks : List Chunk) :
    Prop where
  arrives : ∀ b ∈ batchStarts chunks.length, Arrives env faults chunks b
  logged : faults .logEmbedded = none
  upserted : (∃ b ∈ batchStarts chunks.length, ∃ embedding,
    some embedding ∈ answer env chunks b) → faults.Lands .upsertMany

/-- The chunks carry what the provider returned, batch after batch. -/
structure Embedded (env : Env) (before chunks : List Chunk) : Prop where
  saved : chunks.map saved = before.map saved
  embeddings : chunks.map Chunk.embedding =
    (batchStarts before.length).flatMap (answer env before)

/-- What does not depend on the embeddings is the same for the same chunks. -/
theorem map_eq_of_saved {α : Type} {f : Chunk → α} (hf : ∀ chunk, f (saved chunk) = f chunk)
    {chunks before : List Chunk} (h : chunks.map saved = before.map saved) :
    chunks.map f = before.map f := by
  have hmap : ∀ chunks : List Chunk, (chunks.map saved).map f = chunks.map f := by
    intro chunks
    rw [List.map_map]
    exact List.map_congr_left fun chunk _ => hf chunk
  rw [← hmap, h, hmap]

theorem length_eq_of_saved {chunks before : List Chunk}
    (h : chunks.map saved = before.map saved) : chunks.length = before.length := by
  simpa using congrArg List.length h

theorem texts_congr {chunks before : List Chunk}
    (h : chunks.map saved = before.map saved) (b : ℕ) : texts chunks b = texts before b := by
  rw [texts, texts, List.map_take, List.map_take, List.map_drop, List.map_drop,
    map_eq_of_saved (fun _ => rfl) h]

theorem Arrives.congr {env : Env} {faults : Faults Site PyExc}
    {chunks before : List Chunk} {b : ℕ} (h : Arrives env faults chunks b)
    (hsaved : chunks.map saved = before.map saved) : Arrives env faults before b := by
  obtain ⟨hcall, hlength⟩ := h
  rw [answer, texts_congr hsaved] at hlength
  exact ⟨hcall, hlength⟩

/-! ## One batch -/

/-- The chunks after a batch that starts at `b` got its embeddings. -/
def attachAt (now : ℕ → Timestamp) (b : ℕ) (chunks : List Chunk)
    (embeddings : List (Option EmbeddingVector)) : List Chunk :=
  let batch := (chunks.drop b).take embeddingBatchSize
  chunks.take b ++ attach now batch embeddings ++ chunks.drop (b + batch.length)

theorem map_saved_attach (now : ℕ → Timestamp) (batch : List Chunk)
    (embeddings : List (Option EmbeddingVector)) :
    (attach now batch embeddings).map saved = batch.map saved := by
  induction batch generalizing now embeddings with
  | nil => cases embeddings <;> rfl
  | cons chunk batch ih =>
      cases embeddings with
      | nil => rfl
      | cons embedding embeddings =>
          rw [attach, List.map_cons, List.map_cons, ih]
          rfl

theorem map_embedding_attach (now : ℕ → Timestamp) (batch : List Chunk)
    (embeddings : List (Option EmbeddingVector)) (h : embeddings.length = batch.length) :
    (attach now batch embeddings).map Chunk.embedding = embeddings := by
  induction batch generalizing now embeddings with
  | nil =>
      rw [List.length_eq_zero_iff.mp h]
      rfl
  | cons chunk batch ih =>
      cases embeddings with
      | nil => cases h
      | cons embedding embeddings =>
          rw [attach, List.map_cons, ih _ _ (Nat.succ.inj h)]
          rfl

theorem map_saved_attachAt (now : ℕ → Timestamp) (b : ℕ) (chunks : List Chunk)
    (embeddings : List (Option EmbeddingVector)) :
    (attachAt now b chunks embeddings).map saved = chunks.map saved := by
  have hbatch := List.prefix_iff_eq_append.mp
    (List.take_prefix embeddingBatchSize (chunks.drop b))
  rw [attachAt, List.map_append, List.map_append, map_saved_attach, ← List.map_append,
    ← List.map_append, List.append_assoc, ← List.drop_drop, hbatch, List.take_append_drop]

/-- The embeddings of the first chunks, up to the end of the batch. -/
theorem map_embedding_attachAt (now : ℕ → Timestamp) {b : ℕ} {chunks : List Chunk}
    {embeddings : List (Option EmbeddingVector)} (hb : b ≤ chunks.length)
    (h : embeddings.length = (texts chunks b).length) :
    ((attachAt now b chunks embeddings).take (b + embeddingBatchSize)).map
        Chunk.embedding =
      (chunks.take b).map Chunk.embedding ++ embeddings := by
  let batch := (chunks.drop b).take embeddingBatchSize
  have hlength : embeddings.length = batch.length := by simpa [texts, batch] using h
  have htake : (attachAt now b chunks embeddings).take (b + embeddingBatchSize) =
      chunks.take b ++ attach now batch embeddings := by
    have hfront : (chunks.take b ++ attach now batch embeddings).length =
        b + batch.length := by
      rw [List.length_append, List.length_take, length_attach, min_eq_left hb]
    rw [attachAt]
    rcases Nat.lt_or_ge batch.length embeddingBatchSize with hlast | hfull
    · -- the last batch: nothing is behind it
      have hend : chunks.drop (b + batch.length) = [] := by
        apply List.drop_eq_nil_of_le
        simp only [batch, List.length_take, List.length_drop] at hlast ⊢
        omega
      rw [hend, List.append_nil]
      exact List.take_of_length_le (by rw [hfront]; omega)
    · have hsize : batch.length = embeddingBatchSize :=
        le_antisymm (List.length_take_le _ _) hfull
      exact List.take_left' (by rw [hfront, hsize])
  rw [htake, List.map_append, map_embedding_attach now batch embeddings hlength]

/-! ## Between two calls -/

/-- The batches that reached the vector store. -/
def upserts (s : State) : List (List Entry) := s.events.filterMap Event.upserted?

/-- Of the stores and the job only the job differs from the state `s₀`. -/
structure Stands (stage : IngestionStatus) (s₀ : State) (chunks : List Chunk)
    (s : State) : Prop where
  status : s.job.status = stage
  chunks : s.chunks = chunks
  documents : s.documents = s₀.documents
  repo : s.chunkRepo = s₀.chunkRepo
  points : s.points = s₀.points
  upserts : upserts s = upserts s₀

section Stages

variable {env : Env} {faults : Faults Site PyExc} {s₀ : State} {chunks : List Chunk}
  {stage : IngestionStatus}

theorem stands_advance (next : IngestionStatus) {E : Raised PyExc → State → Prop}
    (h : next ∈ validTransitions stage) :
    Ensures (Stands stage s₀ chunks) (onJob env (IngestionJob.advanceStatus next))
      (fun _ => Stands next s₀ chunks) E := by
  refine (ensures_onJob env _ (E := E) (J := fun job => job.status = stage)
    (K := fun job => job.status = next)
    (F := fun s => s.chunks = chunks ∧ s.documents = s₀.documents ∧
      s.chunkRepo = s₀.chunkRepo ∧ s.points = s₀.points ∧ upserts s = upserts s₀)
    (fun _ _ _ hs => hs) ?_).consequence ?_ ?_ (fun _ _ h => h)
  · rintro now job rfl
    obtain ⟨startedAt, hrun⟩ := IngestionJob.advanceStatus_of_mem now h
    exact ⟨_, hrun, rfl⟩
  · exact fun s hs => ⟨hs.status, hs.chunks, hs.documents, hs.repo, hs.points,
      hs.upserts⟩
  · intro _ s hs
    obtain ⟨hstatus, hchunks, hdocuments, hrepo, hpoints, hupserts⟩ := hs
    exact ⟨hstatus, hchunks, hdocuments, hrepo, hpoints, hupserts⟩

/-- A record of progress or of an embedding call is no upsert. -/
theorem Stands.recorded {s : State} (h : Stands stage s₀ chunks s) {event : Event}
    (hevent : event.upserted? = none) :
    Stands stage s₀ chunks { s with events := s.events ++ [event] } :=
  ⟨h.status, h.chunks, h.documents, h.repo, h.points,
    by rw [← h.upserts]; simp [ProcessDocument.upserts, hevent]⟩

theorem stands_recordProgress (processed total : ℤ) {E : Raised PyExc → State → Prop} :
    Ensures (Stands stage s₀ chunks) (recordProgress env processed total)
      (fun _ => Stands stage s₀ chunks) E := by
  refine Ensures.bind (M := fun _ => Stands stage s₀ chunks)
    (fun s hs => ⟨hs.status, hs.chunks, hs.documents, hs.repo, hs.points,
      hs.upserts⟩) fun _ => ?_
  exact ensures_modify fun s hs => hs.recorded rfl

theorem ensures_log_of {P : State → Prop} (site : Site) :
    Ensures P (log faults site) (fun _ s => P s ∧ faults site = none)
      (fun _ s => P s ∧ faults site ≠ none) := by
  refine ensures_perform_pure.imp (fun _ _ h => ⟨h.1, h.2.2⟩) ?_
  intro r s h
  obtain ⟨hs, fault, hfault, -⟩ := h
  exact ⟨hs, by simp [hfault]⟩

theorem ensures_checkLengths {P : State → Prop} (batch embeddings : ℕ) :
    Ensures P (checkLengths batch embeddings) (fun _ s => P s ∧ embeddings = batch)
      (fun _ s => P s ∧ embeddings ≠ batch) := by
  unfold checkLengths
  split
  next hshort => exact ensures_throw fun s hs => ⟨hs, hshort.ne⟩
  next hlong =>
    split
    next hlong => exact ensures_throw fun s hs => ⟨hs, hlong.ne'⟩
    next hnot => exact ensures_pure fun s hs => ⟨hs, by omega⟩

/-! ## Embedding -/

/-- The call for a batch changes nothing but the list of events. -/
theorem ensures_embedCall (b : ℕ) :
    Ensures (Stands .embedding s₀ chunks)
      (perform faults (.embedBatch b) (do
        record (.embedBatch (texts chunks b))
        pure (answer env chunks b)))
      (fun embeddings s => (Stands .embedding s₀ chunks s ∧
        embeddings = answer env chunks b) ∧ faults (.embedBatch b) = none)
      (fun _ s => Stands .embedding s₀ chunks s ∧ faults (.embedBatch b) ≠ none) := by
  have hcall : Ensures (Stands .embedding s₀ chunks)
      (do
        record (.embedBatch (texts chunks b))
        pure (answer env chunks b))
      (fun embeddings s => Stands .embedding s₀ chunks s ∧
        embeddings = answer env chunks b) fun _ _ => False :=
    (ensures_modify (Q := fun _ => Stands .embedding s₀ chunks)
      fun s hs => hs.recorded rfl).bind fun _ => ensures_pure fun s hs => ⟨hs, rfl⟩
  refine (ensures_perform_effect hcall).imp (fun _ _ h => ⟨h.2, h.1⟩) ?_
  intro r s hs
  obtain ⟨fault, hfault, -, hs⟩ := hs
  refine ⟨?_, by simp [hfault]⟩
  split at hs
  · obtain ⟨_, hs, -⟩ := hs
    exact hs
  · exact hs

/-- A batch gets what the provider returned for it, or the stage ends there. -/
theorem ensures_embedBatchAt_chunks (totalTokens : ℤ) (b : ℕ) :
    Ensures (Stands .embedding s₀ chunks) (embedBatchAt env faults totalTokens b)
      (fun _ s => Arrives env faults chunks b ∧ ∃ now,
        Stands .embedding s₀ (attachAt now b chunks (answer env chunks b)) s)
      (fun _ s => ¬ Arrives env faults chunks b ∧ ∃ chunks',
        chunks'.map saved = chunks.map saved ∧ Stands .embedding s₀ chunks' s) := by
  refine (ensures_get (Q := fun s₁ s => Stands .embedding s₀ chunks s ∧
    s₁.chunks = chunks) fun s hs => ⟨hs, hs.chunks⟩).bind fun s₁ => ?_
  apply ensures_of_fact
  intro hs₁
  rw [hs₁]
  refine ((ensures_embedCall b).impRaise ?_).bind fun embeddings => ?_
  · intro r s h
    obtain ⟨hs, hsite⟩ := h
    exact ⟨fun harrives => hsite harrives.call, chunks, rfl, hs⟩
  apply ensures_of_fact
  intro hsite
  apply ensures_of_fact
  rintro rfl
  refine Ensures.bind (M := fun _ => Stands .embedding s₀ chunks)
    (fun s hs => ⟨hs.status, hs.chunks, hs.documents, hs.repo, hs.points,
      hs.upserts⟩) fun now => ?_
  refine (ensures_modify (Q := fun _ =>
    Stands .embedding s₀ (attachAt now b chunks (answer env chunks b)))
    fun s hs => ⟨hs.status, ?_, hs.documents, hs.repo, hs.points,
      hs.upserts⟩).bind fun _ => ?_
  · simp only [hs.chunks]
    rfl
  have hbatch : ((chunks.drop b).take embeddingBatchSize).length =
      (texts chunks b).length := by simp [texts]
  refine ((ensures_checkLengths _ _).impRaise ?_).bind fun _ =>
    ensures_of_fact fun hlength => ?_
  · intro r s h
    obtain ⟨hs, hne⟩ := h
    exact ⟨fun harrives => hne (harrives.length.trans hbatch.symm), _,
      map_saved_attachAt _ _ _ _, hs⟩
  refine (stands_recordProgress _ _).bind fun _ => ensures_pure fun s hs => ?_
  exact ⟨⟨hsite, hlength.trans hbatch⟩, now, hs⟩

/-! ## All batches -/

theorem length_batchStarts (n : ℕ) :
    (batchStarts n).length = (n + (embeddingBatchSize - 1)) / embeddingBatchSize := by
  simp [batchStarts]

/-- The offset of a batch is the number of chunks in those before it. -/
theorem start_of_split {n b : ℕ} {done rest : List ℕ}
    (h : batchStarts n = done ++ b :: rest) :
    b = done.length * embeddingBatchSize ∧ b < n := by
  have hlength := congrArg List.length h
  rw [length_batchStarts, List.length_append, List.length_cons] at hlength
  have hget : (batchStarts n)[done.length]? = some b := by simp [h]
  have hlt : done.length < (n + (embeddingBatchSize - 1)) / embeddingBatchSize := by omega
  simp only [batchStarts, List.getElem?_map, List.getElem?_range hlt, Option.map_some,
    Option.some.injEq] at hget
  refine ⟨hget.symm, ?_⟩
  unfold embeddingBatchSize at hget hlt
  omega

/-- The chunks `before` the stage after the batches of `done`: the first ones
carry what the provider returned for those. -/
structure Visited (env : Env) (faults : Faults Site PyExc) (before : List Chunk)
    (done : List ℕ) (chunks : List Chunk) : Prop where
  arrives : ∀ b ∈ done, Arrives env faults before b
  saved : chunks.map saved = before.map saved
  embeddings : (chunks.take (done.length * embeddingBatchSize)).map Chunk.embedding =
    done.flatMap (answer env before)

section Visiting

variable {before : List Chunk} {done rest : List ℕ} {b : ℕ}

theorem Visited.next (h : Visited env faults before done chunks)
    (hsplit : batchStarts before.length = done ++ b :: rest)
    (harrive : Arrives env faults chunks b) (now : ℕ → Timestamp) :
    Visited env faults before (done ++ [b])
      (attachAt now b chunks (answer env chunks b)) := by
  obtain ⟨hb, hlt⟩ := start_of_split hsplit
  have hlength := length_eq_of_saved h.saved
  have hanswer : answer env chunks b = answer env before b := by
    rw [answer, answer, texts_congr h.saved]
  refine ⟨?_, (map_saved_attachAt ..).trans h.saved, ?_⟩
  · intro b' hb'
    rcases List.mem_append.mp hb' with hdone | hnew
    · exact h.arrives b' hdone
    · exact List.mem_singleton.mp hnew ▸ harrive.congr h.saved
  · rw [List.length_append, List.length_singleton, Nat.add_mul, Nat.one_mul, ← hb,
      map_embedding_attachAt now (by omega) harrive.length, hb, h.embeddings, ← hb,
      hanswer, List.flatMap_append, List.flatMap_singleton]

theorem Visited.embedded
    (h : Visited env faults before (batchStarts before.length) chunks) :
    Embedded env before chunks := by
  have hlength := length_eq_of_saved h.saved
  have hembeddings := h.embeddings
  rw [List.take_of_length_le] at hembeddings
  · exact ⟨h.saved, hembeddings⟩
  · rw [length_batchStarts, hlength]
    unfold embeddingBatchSize
    omega

end Visiting

/-- The loop over the batches. -/
theorem ensures_batches :
    Ensures (Stands .embedding s₀ s₀.chunks)
      ((batchStarts s₀.chunks.length).foldlM (embedBatchAt env faults) 0)
      (fun _ s => (∀ b ∈ batchStarts s₀.chunks.length, Arrives env faults s₀.chunks b) ∧
        ∃ chunks, Embedded env s₀.chunks chunks ∧ Stands .embedding s₀ chunks s)
      (fun _ s => ¬ Stores env faults s₀.chunks ∧ ∃ chunks,
        chunks.map saved = s₀.chunks.map saved ∧ Stands .embedding s₀ chunks s) := by
  have hloop : Ensures
      (fun s => ∃ chunks, Visited env faults s₀.chunks [] chunks ∧
        Stands .embedding s₀ chunks s)
      ((batchStarts s₀.chunks.length).foldlM (embedBatchAt env faults) 0)
      (fun _ s => ∃ chunks,
        Visited env faults s₀.chunks (batchStarts s₀.chunks.length) chunks ∧
          Stands .embedding s₀ chunks s)
      (fun _ s => ¬ Stores env faults s₀.chunks ∧ ∃ chunks,
        chunks.map saved = s₀.chunks.map saved ∧ Stands .embedding s₀ chunks s) := by
    refine ensures_foldlM_visited (I := fun done _ s => ∃ chunks,
      Visited env faults s₀.chunks done chunks ∧ Stands .embedding s₀ chunks s)
      (fun done b rest total hsplit => ?_) 0
    refine ensures_exists fun chunks => ?_
    apply ensures_pointwise
    intro s h
    obtain ⟨hvisited, hs⟩ := h
    have hbatch : Ensures (Stands .embedding s₀ chunks)
        (embedBatchAt env faults total b) _ _ := ensures_embedBatchAt_chunks total b
    refine hbatch.consequence ?_ ?_ ?_
    · rintro _ rfl
      exact hs
    · rintro _ s' ⟨harrive, now, hs'⟩
      exact ⟨_, hvisited.next hsplit harrive now, hs'⟩
    · rintro _ s' ⟨hfails, chunks', hsaved, hs'⟩
      refine ⟨fun hstores => ?_, chunks', hsaved.trans hvisited.saved, hs'⟩
      exact hfails ((hstores.arrives b (by simp [hsplit])).congr hvisited.saved.symm)
  refine hloop.consequence ?_ ?_ fun _ _ h => h
  · exact fun s hs => ⟨s₀.chunks, ⟨by simp, rfl, by simp⟩, hs⟩
  · rintro _ s ⟨chunks, hvisited, hs⟩
    exact ⟨hvisited.arrives, chunks, hvisited.embedded, hs⟩

/-- The third stage: every batch has its embeddings, or the run ends without
its upsert. -/
theorem ensures_embedStage_chunks :
    Ensures (Stands .chunking s₀ s₀.chunks) (embedStage env faults)
      (fun _ s => ((∀ b ∈ batchStarts s₀.chunks.length,
          Arrives env faults s₀.chunks b) ∧ faults .logEmbedded = none) ∧
        ∃ chunks, Embedded env s₀.chunks chunks ∧ Stands .embedding s₀ chunks s)
      (fun _ s => ¬ Stores env faults s₀.chunks ∧ ∃ chunks,
        chunks.map saved = s₀.chunks.map saved ∧ ∃ stage, Stands stage s₀ chunks s) := by
  apply (stands_advance .embedding (by decide)).bind
  intro _
  refine (ensures_get (Q := fun s₁ s => Stands .embedding s₀ s₀.chunks s ∧
    s₁.chunks = s₀.chunks) fun s hs => ⟨hs, hs.chunks⟩).bind fun s₁ => ?_
  apply ensures_of_fact
  intro hs₁
  rw [hs₁]
  refine (ensures_batches.impRaise ?_).bind fun totalTokens => ?_
  · rintro _ s ⟨hno, chunks, hsaved, hs⟩
    exact ⟨hno, chunks, hsaved, _, hs⟩
  refine ((ensures_log_of .logEmbedded).impRaise ?_).bind fun _ => ensures_pure fun s hs => ?_
  · rintro _ s ⟨⟨-, chunks, hembedded, hs⟩, hsite⟩
    exact ⟨fun hstores => hsite hstores.logged, chunks, hembedded.saved, _, hs⟩
  · obtain ⟨⟨harrives, hchunks⟩, hsite⟩ := hs
    exact ⟨⟨harrives, hsite⟩, hchunks⟩

end Stages
end ProcessDocument
end AiBackend

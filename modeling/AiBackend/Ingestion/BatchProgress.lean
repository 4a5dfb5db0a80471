import AiBackend.Ingestion.EmbeddingLoop
import AiBackend.Ingestion.Leftovers
import AiBackend.Support.Pages

/-!
# Embedding and storing in batches

Stages 3 and 4 of `ProcessDocumentUseCase.execute` with a provider that embeds
every text.  Either every chunk is embedded and handed to `upsert_many`, or the
run stops at the first batch whose call raises, and exactly the chunks before it
have been embedded.
-/

namespace AiBackend
namespace ProcessDocument

open Program Python QdrantVectorRepository

/-! ## What the stages do -/

/-- Stages 3 and 4; the token total goes to the last stage. -/
def embedAndStore (env : Env) (faults : Faults Site PyExc) (document : Document) :
    Prog ℤ := do
  let totalTokens ← embedStage env faults
  storeStage env faults document
  pure totalTokens

theorem laterStages_eq (env : Env) (faults : Faults Site PyExc) (document : Document) :
    laterStages env faults document =
      embedAndStore env faults document >>= completeStage env faults document := by
  simp [laterStages, embedAndStore]

/-- The numbers rise and stay below `n`. -/
structure Rises (n : ℕ) (values : List ℤ) : Prop where
  sorted : values.Pairwise (· ≤ ·)
  bounded : ∀ value ∈ values, 0 ≤ value ∧ value ≤ n

/-- All chunks are embedded, batch after batch. -/
structure EmbedsAll (embed : String → EmbeddingVector) (s s' : State) : Prop where
  saved : s'.chunks.map saved = s.chunks.map saved
  embeddings : s'.chunks.map Chunk.embedding =
    s.chunks.map fun chunk => some (embed chunk.content)
  batches : ∃ pieces, batches s' = batches s ++ pieces ∧
    pieces.flatten = s.chunks.map Chunk.content ∧
    ∀ piece ∈ pieces, piece ≠ [] ∧ piece.length ≤ embeddingBatchSize
  recorded : ∃ values, recorded s' = recorded s ++ values.map (·, (s.chunks.length : ℤ)) ∧
    Rises s.chunks.length values ∧
    (s.chunks ≠ [] → values.getLast? = some (s.chunks.length : ℤ))

/-- The entries of all chunks have been handed to `upsert_many`, and the token
total is theirs. -/
structure StoresAll (embed : String → EmbeddingVector) (title : String) (s : State)
    (totalTokens : ℤ) (s' : State) : Prop where
  embeds : EmbedsAll embed s s'
  upserts : upserts s' = upserts s ++
    sent (s.chunks.map fun chunk =>
      (chunk.chunkId, embed chunk.content, payload title chunk))
  tokens : totalTokens = (s.chunks.map Chunk.tokenCount).sum

/-- The embedding has stopped at the batch that starts at `b`: the chunks before
it have their embeddings, the others are as they were, and nothing has been
handed to `upsert_many`. -/
structure StopsAt (embed : String → EmbeddingVector) (b : ℕ) (s s' : State) : Prop where
  saved : s'.chunks.map saved = s.chunks.map saved
  embeddings : s'.chunks.map Chunk.embedding = embeddedTo embed b s.chunks
  carries : (∀ chunk ∈ s.chunks, chunk.embedding = none) →
    ∀ i chunk, s'.chunks[i]? = some chunk → (chunk.hasEmbedding = true ↔ i < b)
  upserts : upserts s' = upserts s
  recorded : ∃ values, recorded s' = recorded s ++ values.map (·, (s.chunks.length : ℤ)) ∧
    Rises s.chunks.length values ∧ values.getLastD 0 = b
  job : s.job.processedChunks = 0 → s'.job.processedChunks = b

section Results

variable {env : Env} {faults : Faults Site PyExc} {embed : String → EmbeddingVector}
  {s₀ s : State} {done rest : List ℕ} {b n : ℕ}

theorem texts_eq_page (chunks : List Chunk) (k : ℕ) :
    texts chunks (k * embeddingBatchSize) =
      Pages.page embeddingBatchSize (chunks.map Chunk.content) k := by
  rw [texts, Pages.page, List.map_take, List.map_drop]

/-- The batches are the contents, cut into pieces. -/
theorem flatten_texts (chunks : List Chunk) :
    ((batchStarts chunks.length).map (texts chunks)).flatten =
      chunks.map Chunk.content := by
  have hpages := Pages.flatMap_page embeddingBatchSize (chunks.map Chunk.content)
    ((chunks.length + (embeddingBatchSize - 1)) / embeddingBatchSize)
  rw [batchStarts, List.map_map, ← List.flatMap_def]
  refine Eq.trans ?_ (hpages.trans (List.take_of_length_le ?_))
  · exact congrArg (List.flatMap · _) (funext (texts_eq_page chunks))
  · rw [List.length_map]
    unfold embeddingBatchSize
    omega

/-- A batch has at least one text and at most fifty. -/
theorem texts_bounds {chunks : List Chunk} (hb : b ∈ batchStarts chunks.length) :
    texts chunks b ≠ [] ∧ (texts chunks b).length ≤ embeddingBatchSize := by
  obtain ⟨done, rest, hsplit⟩ := List.append_of_mem hb
  obtain ⟨-, hlt⟩ := start_of_split hsplit
  have hlength : (texts chunks b).length = min embeddingBatchSize (chunks.length - b) := by
    simp [texts]
  constructor
  · intro hnil
    rw [hnil, List.length_nil] at hlength
    unfold embeddingBatchSize at hlength
    omega
  · omega

/-- The records of the first batches. -/
theorem map_reached (n : ℕ) (done : List ℕ) :
    done.map (reached n) =
      (done.map fun b => ((min (b + embeddingBatchSize) n : ℕ) : ℤ)).map (·, (n : ℤ)) := by
  rw [List.map_map]
  rfl

theorem pairwise_batchStarts (n : ℕ) : (batchStarts n).Pairwise (· < ·) := by
  refine List.pairwise_map.mpr (List.pairwise_lt_range.imp fun h => ?_)
  exact Nat.mul_lt_mul_of_pos_right h (by decide)

theorem rises_of_split (hsplit : batchStarts n = done ++ rest) :
    Rises n (done.map fun b => ((min (b + embeddingBatchSize) n : ℕ) : ℤ)) := by
  constructor
  · have hall := pairwise_batchStarts n
    rw [hsplit, List.pairwise_append] at hall
    refine List.pairwise_map.mpr (hall.1.imp fun h => ?_)
    omega
  · intro value hvalue
    obtain ⟨b, -, rfl⟩ := List.mem_map.mp hvalue
    omega

/-- The last record before a batch is the number of chunks before it. -/
theorem eq_nil_or_reached (hsplit : batchStarts n = done ++ b :: rest) :
    (done = [] ∧ b = 0) ∨
      ∃ earlier last, done = earlier ++ [last] ∧ min (last + embeddingBatchSize) n = b := by
  obtain ⟨hb, hlt⟩ := start_of_split hsplit
  rcases done.eq_nil_or_concat' with rfl | ⟨earlier, last, rfl⟩
  · exact Or.inl ⟨rfl, hb.trans (Nat.zero_mul _)⟩
  · obtain ⟨hlast, -⟩ := start_of_split
      (hsplit.trans (List.append_assoc earlier [last] (b :: rest)))
    rw [List.length_append, List.length_singleton, Nat.add_mul, Nat.one_mul, ← hlast] at hb
    exact Or.inr ⟨earlier, last, rfl, by omega⟩

/-- The last record of all is the number of chunks. -/
theorem getLast?_batchStarts (hn : 0 < n) :
    ((batchStarts n).map fun b => ((min (b + embeddingBatchSize) n : ℕ) : ℤ)).getLast? =
      some (n : ℤ) := by
  obtain ⟨m, hm⟩ : ∃ m, (n + (embeddingBatchSize - 1)) / embeddingBatchSize = m + 1 := by
    refine Nat.exists_eq_succ_of_ne_zero ?_
    unfold embeddingBatchSize
    omega
  have hlast : min (m * embeddingBatchSize + embeddingBatchSize) n = n := by
    unfold embeddingBatchSize at hm ⊢
    omega
  rw [batchStarts, hm, List.range_succ, List.map_append, List.map_append, List.map_singleton,
    List.map_singleton, List.getLast?_concat, hlast]

theorem Embedding.embedsAll {totalTokens : ℤ}
    (h : Embedding embed faults s₀ (batchStarts s₀.chunks.length) totalTokens s) :
    EmbedsAll embed s₀ s := by
  have hall : s₀.chunks.length ≤
      (batchStarts s₀.chunks.length).length * embeddingBatchSize := by
    rw [length_batchStarts]
    unfold embeddingBatchSize
    omega
  refine ⟨h.through.saved, ?_, ⟨_, h.batches, flatten_texts s₀.chunks, ?_⟩,
    _, h.through.recorded.trans (congrArg _ (map_reached _ _)),
    rises_of_split (List.append_nil _).symm, fun hne => ?_⟩
  · rw [h.through.embeddings, embeddedTo, List.take_of_length_le hall,
      List.drop_eq_nil_of_le hall, List.map_nil, List.append_nil]
  · intro piece hpiece
    obtain ⟨b, hb, rfl⟩ := List.mem_map.mp hpiece
    exact texts_bounds hb
  · exact getLast?_batchStarts (List.length_pos_iff.mpr hne)

theorem Embedding.tokens_eq {totalTokens : ℤ}
    (h : Embedding embed faults s₀ (batchStarts s₀.chunks.length) totalTokens s) :
    totalTokens = (s₀.chunks.map Chunk.tokenCount).sum := by
  rw [h.tokens, List.take_of_length_le]
  rw [length_batchStarts]
  unfold embeddingBatchSize
  omega

/-- Of fresh chunks exactly the first `k` carry an embedding. -/
theorem hasEmbedding_iff {chunks before : List Chunk} {k : ℕ}
    (h : chunks.map Chunk.embedding = embeddedTo embed k before)
    (hfresh : ∀ chunk ∈ before, chunk.embedding = none) {i : ℕ} {chunk : Chunk}
    (hi : chunks[i]? = some chunk) : chunk.hasEmbedding = true ↔ i < k := by
  have hget : (embeddedTo embed k before)[i]? = some chunk.embedding := by
    rw [← h, List.getElem?_map, hi]
    rfl
  obtain ⟨hlt, -⟩ := List.getElem?_eq_some_iff.mp hget
  rw [length_embeddedTo] at hlt
  have hfront : ((before.take k).map fun chunk => some (embed chunk.content)).length =
      min k before.length := by simp
  unfold Chunk.hasEmbedding
  by_cases hik : i < k
  · rw [embeddedTo, List.getElem?_append_left (by omega)] at hget
    obtain ⟨_, -, hembedding⟩ := List.mem_map.mp (List.mem_of_getElem? hget)
    exact iff_of_true (by rw [← hembedding]; rfl) hik
  · rw [embeddedTo, List.getElem?_append_right (by omega)] at hget
    obtain ⟨old, hold, hembedding⟩ := List.mem_map.mp (List.mem_of_getElem? hget)
    have hnone : chunk.embedding = none :=
      hembedding.symm.trans (hfresh old (List.mem_of_mem_drop hold))
    exact iff_of_false (by simp [hnone]) hik

theorem Stopped.stopsAt (h : Stopped embed faults s₀ done b s) : StopsAt embed b s₀ s := by
  obtain ⟨rest, hsplit⟩ := h.split
  obtain ⟨hb, -⟩ := start_of_split hsplit
  have hembeddings : s.chunks.map Chunk.embedding = embeddedTo embed b s₀.chunks := by
    rw [h.through.embeddings, ← hb]
  refine ⟨h.through.saved, hembeddings,
    fun hfresh i chunk hi => hasEmbedding_iff hembeddings hfresh hi, h.through.upserts,
    ⟨_, h.through.recorded.trans (congrArg _ (map_reached _ _)), rises_of_split hsplit, ?_⟩,
    fun hzero => ?_⟩
  · rcases eq_nil_or_reached hsplit with ⟨rfl, rfl⟩ | ⟨earlier, last, rfl, hlast⟩
    · rfl
    · rw [List.map_append, List.map_singleton, List.getLastD_concat, hlast]
  · have hprogress := congrArg Prod.fst h.through.progress
    rcases eq_nil_or_reached hsplit with ⟨rfl, rfl⟩ | ⟨earlier, last, rfl, hlast⟩
    · exact hprogress.trans hzero
    · rw [List.map_append, List.map_singleton, List.getLastD_concat, reached, hlast] at hprogress
      exact hprogress

/-- The entries of the embedded chunks, in order. -/
theorem entries_eq {chunks before : List Chunk} (title : String)
    (hsaved : chunks.map saved = before.map saved)
    (hembeddings : chunks.map Chunk.embedding =
      before.map fun chunk => some (embed chunk.content)) :
    chunks.filterMap (entry title) = before.map fun chunk =>
      (chunk.chunkId, embed chunk.content, payload title chunk) := by
  induction chunks generalizing before with
  | nil =>
      rw [List.map_eq_nil_iff.mp hsaved.symm]
      rfl
  | cons chunk chunks ih =>
      obtain ⟨old, before, rfl, hold, hrest⟩ := List.map_eq_cons_iff.mp hsaved.symm
      rw [List.map_cons, List.map_cons, List.cons.injEq] at hembeddings
      obtain ⟨hembedding, hembeddings⟩ := hembeddings
      have hid : (saved chunk).chunkId = (saved old).chunkId := congrArg Chunk.chunkId hold.symm
      have hpayload : payload title (saved chunk) = payload title (saved old) :=
        congrArg (payload title) hold.symm
      have hentry : entry title chunk =
          some (old.chunkId, embed old.content, payload title old) := by
        rw [entry, hembedding]
        exact congrArg some (Prod.ext hid (Prod.ext rfl hpayload))
      rw [List.filterMap_cons_some hentry, List.map_cons, ih hrest.symm hembeddings]

/-- Only the chunks, the calls to the provider and the records of progress
matter. -/
theorem EmbedsAll.congr {s' : State} (h : EmbedsAll embed s₀ s) (hchunks : s'.chunks = s.chunks)
    (hbatches : ProcessDocument.batches s' = ProcessDocument.batches s)
    (hrecorded : ProcessDocument.recorded s' = ProcessDocument.recorded s) :
    EmbedsAll embed s₀ s' := by
  refine ⟨?_, ?_, ?_, ?_⟩
  · rw [hchunks]
    exact h.saved
  · rw [hchunks]
    exact h.embeddings
  · rw [hbatches]
    exact h.batches
  · rw [hrecorded]
    exact h.recorded

end Results

/-! ## The two stages -/

section Stages

variable {env : Env} {faults : Faults Site PyExc} {embed : String → EmbeddingVector}
  {s₀ : State}

/-- The third stage embeds all chunks, or stops at a call that raises. -/
theorem ensures_embedStage_through (hembed : EmbedsEach env embed)
    (hstatus : s₀.job.status = .chunking) :
    Ensures (· = s₀) (embedStage env faults)
      (fun totalTokens s =>
        Embedding embed faults s₀ (batchStarts s₀.chunks.length) totalTokens s)
      (fun _ s => (∃ done b, Stopped embed faults s₀ done b s) ∨
        EmbedsAll embed s₀ s ∧ (∀ b ∈ batchStarts s₀.chunks.length,
          faults (.embedBatch b) = none) ∧ faults .logEmbedded ≠ none) := by
  have hadvance : Ensures (· = s₀)
      (onJob env (IngestionJob.advanceStatus .embedding))
      (fun _ => Embedding embed faults s₀ [] 0) fun (_ : Raised PyExc) _ => False := by
    refine (ensures_onJob env _ (E := fun _ _ => False) (J := fun job => job = s₀.job)
      (K := fun job => job.status = .embedding ∧
        (job.processedChunks, job.totalChunks) =
          (s₀.job.processedChunks, s₀.job.totalChunks))
      (F := fun s => s.chunks = s₀.chunks ∧ s.events = s₀.events)
      (fun _ _ _ hs => hs) ?_).consequence ?_ ?_ (fun _ _ h => h)
    · rintro now job rfl
      obtain ⟨startedAt, hrun⟩ := IngestionJob.advanceStatus_of_mem now
        (show IngestionStatus.embedding ∈ validTransitions s₀.job.status by
          rw [hstatus]; decide)
      exact ⟨_, hrun, rfl, rfl⟩
    · rintro s rfl
      exact ⟨rfl, rfl, rfl⟩
    · rintro _ s ⟨⟨hjob, hprogress⟩, hchunks, hevents⟩
      refine ⟨⟨hjob, by rw [hchunks], ?_, ?_, hprogress, ?_⟩, ?_, by simp, by simp⟩
      · rw [hchunks]
        simp [embeddedTo]
      · simp [recorded, hevents]
      · simp [upserts, hevents]
      · simp [batches, hevents]
  refine (hadvance.impRaise fun _ _ h => h.elim).bind fun _ => ?_
  refine (ensures_get (Q := fun s₁ s => Embedding embed faults s₀ [] 0 s ∧
    s₁.chunks.length = s₀.chunks.length)
    fun s hs => ⟨hs, length_eq_of_saved hs.through.saved⟩).bind fun s₁ => ?_
  apply ensures_of_fact
  intro hlength
  rw [hlength]
  refine ((ensures_batches_through hembed).impRaise fun _ _ h => Or.inl h).bind
    fun totalTokens => ?_
  refine ((ensures_log_of .logEmbedded).impRaise ?_).bind fun _ =>
    ensures_pure fun s hs => hs.1
  intro _ s h
  obtain ⟨hs, hsite⟩ := h
  exact Or.inr ⟨hs.embedsAll, hs.calls, hsite⟩

/-- `upsert_many` is handed the entries; what fails there does not touch the
chunks. -/
theorem ensures_upsertMany_embedded (entries : List Entry) :
    Ensures (fun s => EmbedsAll embed s₀ s ∧ upserts s = upserts s₀)
      (upsertMany faults entries)
      (fun _ s => EmbedsAll embed s₀ s ∧ upserts s = upserts s₀ ++ sent entries)
      (fun _ s => EmbedsAll embed s₀ s ∧ ∃ site, faults site ≠ none) := by
  unfold upsertMany
  split
  next hempty =>
    refine ensures_pure fun s hs => ⟨hs.1, ?_⟩
    rw [hs.2, sent, if_pos hempty, List.append_nil]
  next hne =>
    have hupsert : Ensures (fun s => EmbedsAll embed s₀ s ∧ upserts s = upserts s₀)
        (do
          record (.upsertMany entries)
          modify fun s : State => { s with points := upsertPoints s.points entries })
        (fun _ s => EmbedsAll embed s₀ s ∧ upserts s = upserts s₀ ++ sent entries)
        fun _ _ => False := by
      intro s hs
      obtain ⟨hembeds, hupserts⟩ := hs
      refine ⟨hembeds.congr rfl ?_ ?_, ?_⟩
      · exact List.filterMap_append.trans (List.append_nil _)
      · exact List.filterMap_append.trans (List.append_nil _)
      · rw [← hupserts, sent, if_neg hne]
        exact List.filterMap_append
    refine Ensures.bind ((ensures_perform_effect hupsert).imp (fun _ _ hs => hs.2) ?_)
      fun _ => (ensures_log_of .logUpsert).imp (fun _ _ hs => hs.1) ?_
    · intro _ s hs
      obtain ⟨fault, hfault, -, hs⟩ := hs
      refine ⟨?_, .upsertMany, by simp [hfault]⟩
      split at hs
      · obtain ⟨_, hs, -⟩ := hs
        exact hs
      · exact hs.1
    · intro _ s hs
      exact ⟨hs.1.1, _, hs.2⟩

theorem ensures_storeStage_embedded (document : Document) (totalTokens : ℤ) :
    Ensures (Embedding embed faults s₀ (batchStarts s₀.chunks.length) totalTokens)
      (storeStage env faults document)
      (fun _ s => EmbedsAll embed s₀ s ∧ upserts s = upserts s₀ ++
        sent (s₀.chunks.map fun chunk =>
          (chunk.chunkId, embed chunk.content, payload document.title chunk)))
      (fun _ s => EmbedsAll embed s₀ s ∧ ∃ site, faults site ≠ none) := by
  have hadvance : Ensures
      (Embedding embed faults s₀ (batchStarts s₀.chunks.length) totalTokens)
      (onJob env (IngestionJob.advanceStatus .storing))
      (fun _ s => EmbedsAll embed s₀ s ∧ upserts s = upserts s₀)
      fun (_ : Raised PyExc) _ => False := by
    refine (ensures_onJob env _ (E := fun _ _ => False)
      (J := fun job => job.status = .embedding) (K := fun _ => True)
      (F := fun s => EmbedsAll embed s₀ s ∧ upserts s = upserts s₀)
      (fun _ _ _ hs => ⟨hs.1.congr rfl rfl rfl, hs.2⟩) ?_).consequence ?_
      (fun _ _ h => h.2) (fun _ _ h => h)
    · rintro now job hjob
      obtain ⟨startedAt, hrun⟩ := IngestionJob.advanceStatus_of_mem now
        (show IngestionStatus.storing ∈ validTransitions job.status by rw [hjob]; decide)
      exact ⟨_, hrun, trivial⟩
    · exact fun s hs => ⟨hs.through.status, hs.embedsAll, hs.through.upserts⟩
  refine (hadvance.impRaise fun _ _ h => h.elim).bind fun _ => ?_
  refine (ensures_get (Q := fun s₁ s => (EmbedsAll embed s₀ s ∧ upserts s = upserts s₀) ∧
    s₁.chunks.filterMap (entry document.title) = s₀.chunks.map fun chunk =>
      (chunk.chunkId, embed chunk.content, payload document.title chunk))
    fun s hs => ⟨hs, entries_eq _ hs.1.saved hs.1.embeddings⟩).bind fun s₁ => ?_
  apply ensures_of_fact
  intro hentries
  rw [hentries]
  refine (ensures_upsertMany_embedded _).bind fun _ =>
    (ensures_log_of .logStored).imp (fun _ _ hs => hs.1) ?_
  intro _ s hs
  exact ⟨hs.1.1, _, hs.2⟩

/-- How the two stages end. -/
theorem ensures_embedAndStore (hembed : EmbedsEach env embed)
    (hstatus : s₀.job.status = .chunking) (document : Document) :
    Ensures (· = s₀) (embedAndStore env faults document)
      (fun totalTokens s => StoresAll embed document.title s₀ totalTokens s ∧
        ∀ b ∈ batchStarts s₀.chunks.length, faults (.embedBatch b) = none)
      (fun _ s => (∃ done b, Stopped embed faults s₀ done b s) ∨
        EmbedsAll embed s₀ s ∧ (∀ b ∈ batchStarts s₀.chunks.length,
          faults (.embedBatch b) = none) ∧ ∃ site, faults site ≠ none) := by
  refine ((ensures_embedStage_through hembed hstatus).impRaise ?_).bind
    fun totalTokens => ?_
  · rintro _ s (hstopped | ⟨hembeds, hcalls, hsite⟩)
    · exact Or.inl hstopped
    · exact Or.inr ⟨hembeds, hcalls, _, hsite⟩
  apply ensures_pointwise
  intro s hs
  have hstore : Ensures (· = s) (storeStage env faults document) _ _ :=
    (ensures_storeStage_embedded document totalTokens).consequence (fun t ht => ht ▸ hs)
      (fun _ _ h => h) (fun _ _ h => h)
  refine (hstore.impRaise ?_).bind fun _ => ensures_pure fun t ht => ?_
  · exact fun _ _ h => Or.inr ⟨h.1, hs.calls, h.2⟩
  · exact ⟨⟨ht.1, ht.2, hs.tokens_eq⟩, hs.calls⟩

theorem StopsAt.congr {b : ℕ} {s s' : State} (h : StopsAt embed b s₀ s)
    (hchunks : s'.chunks = s.chunks) (hevents : s'.events = s.events)
    (hjob : s'.job.processedChunks = s.job.processedChunks) : StopsAt embed b s₀ s' := by
  refine ⟨?_, ?_, ?_, ?_, ?_, fun hzero => hjob.trans (h.job hzero)⟩
  · rw [hchunks]
    exact h.saved
  · rw [hchunks]
    exact h.embeddings
  · rw [hchunks]
    exact h.carries
  · rw [ProcessDocument.upserts, hevents]
    exact h.upserts
  · rw [ProcessDocument.recorded, hevents]
    exact h.recorded

/-- The error handler leaves the chunks and the progress as they are. -/
theorem preserves_handler_stopsAt {b : ℕ} (documentId : DocumentId) (exc : PyExc) :
    Preserves (StopsAt embed b s₀) (handler env faults documentId exc) := by
  apply Preserves.bind (fun s hs => hs.congr rfl rfl rfl)
  intro _
  refine Preserves.bind (Preserves.tryExcept ?_ fun _ => Preserves.pure _)
    fun _ => preserves_log_of _
  refine Preserves.bind (Preserves.perform fun s hs => hs.congr rfl rfl rfl) fun found => ?_
  cases found with
  | none => exact Preserves.pure _
  | some document =>
      apply Preserves.bind (fun s hs => hs.congr rfl rfl rfl)
      intro now
      exact Preserves.perform fun s hs => hs.congr rfl rfl rfl

/-- A run whose third or fourth stage raises ends with its error handler. -/
theorem stopsAt_resumed {b : ℕ} {r : Raised PyExc} {s' : State} {document : Document}
    (hrun : (embedAndStore env faults document).run s₀ = .error r s')
    (h : StopsAt embed b s₀ s') (documentId : DocumentId) :
    StopsAt embed b s₀ (resumed env faults documentId document s₀) := by
  have hlater : (laterStages env faults document).run s₀ = .error r s' := by
    rw [laterStages_eq, EStateM.run_bind, hrun]
  rw [resumed, resume, run_tryExcept, hlater]
  cases r with
  | exception e => exact (preserves_handler_stopsAt documentId e).final h
  | cancelled => exact h

theorem Stopped.unique {done : List ℕ} {b b' : ℕ} {s : State}
    (h : Stopped embed faults s₀ done b' s) (hb : b ∈ batchStarts s₀.chunks.length)
    (hraises : faults (.embedBatch b) ≠ none)
    (hearlier : ∀ earlier ∈ batchStarts s₀.chunks.length, earlier < b →
      faults (.embedBatch earlier) = none) : b' = b := by
  obtain ⟨rest, hsplit⟩ := h.split
  have hsorted := pairwise_batchStarts s₀.chunks.length
  rw [hsplit] at hb hearlier hsorted
  rw [List.pairwise_append, List.pairwise_cons] at hsorted
  obtain ⟨-, ⟨hrest, -⟩, -⟩ := hsorted
  rcases List.mem_append.mp hb with hdone | hb
  · exact absurd (h.calls b hdone) hraises
  rcases List.mem_cons.mp hb with rfl | hb
  · rfl
  · exact absurd (hearlier b' (by simp) (hrest b hb)) h.raises

end Stages

/-! ## All chunks, or the batches before a failure -/

/-- What stages 3 and 4 do to the chunks of `s`: if no embedding call raises, all
are embedded; if the stages return, all are handed over as well, and they
return if nothing raises; the first embedding call that raises stops the run. -/
structure EmbedsInBatches (env : Env) (faults : Faults Site PyExc)
    (embed : String → EmbeddingVector) (document : Document) (s : State) : Prop where
  embeds : (∀ b ∈ batchStarts s.chunks.length, faults (.embedBatch b) = none) →
    EmbedsAll embed s (finalState ((embedAndStore env faults document).run s))
  stores : ∀ totalTokens s', (embedAndStore env faults document).run s = .ok totalTokens s' →
    StoresAll embed document.title s totalTokens s'
  returns : (∀ site, faults site = none) →
    ∃ totalTokens s', (embedAndStore env faults document).run s = .ok totalTokens s'
  stops : ∀ b ∈ batchStarts s.chunks.length, faults (.embedBatch b) ≠ none →
    (∀ earlier ∈ batchStarts s.chunks.length, earlier < b →
      faults (.embedBatch earlier) = none) →
    (∃ r s', (embedAndStore env faults document).run s = .error r s' ∧
      StopsAt embed b s s') ∧
    ∀ documentId, StopsAt embed b s (resumed env faults documentId document s)

/-- From any chunks, whatever raises, the stages embed and store in batches. -/
theorem embedsInBatches (env : Env) (faults : Faults Site PyExc)
    (embed : String → EmbeddingVector) (document : Document) (s : State)
    (hstatus : s.job.status = .chunking) (hembed : EmbedsEach env embed) :
    EmbedsInBatches env faults embed document s := by
  have hensures : Ensures (· = s) (embedAndStore env faults document) _ _ :=
    ensures_embedAndStore hembed hstatus document
  have hrun := hensures s rfl
  cases hresult : (embedAndStore env faults document).run s with
  | ok totalTokens s' =>
      rw [hresult] at hrun
      obtain ⟨hstores, hcalls⟩ := hrun
      refine ⟨fun _ => ?_, fun total t h => ?_, fun _ => ⟨_, _, hresult⟩,
        fun b hb hraises _ => ?_⟩
      · rw [hresult]
        exact hstores.embeds
      · cases hresult.symm.trans h
        exact hstores
      · exact absurd (hcalls b hb) hraises
  | error r s' =>
      rw [hresult] at hrun
      refine ⟨fun hcalls => ?_, fun _ _ h => ?_, fun hnone => ?_,
        fun b hb hraises hearlier => ?_⟩
      · rw [hresult]
        rcases hrun with ⟨done, b, hstopped⟩ | ⟨hembeds, -, -⟩
        · obtain ⟨rest, hsplit⟩ := hstopped.split
          exact absurd (hcalls b (by simp [hsplit])) hstopped.raises
        · exact hembeds
      · cases hresult.symm.trans h
      · rcases hrun with ⟨done, b, hstopped⟩ | ⟨-, -, site, hsite⟩
        · exact absurd (hnone _) hstopped.raises
        · exact absurd (hnone site) hsite
      · rcases hrun with ⟨done, first, hstopped⟩ | ⟨-, hcalls, -⟩
        · obtain rfl := hstopped.unique hb hraises hearlier
          exact ⟨⟨r, s', hresult, hstopped.stopsAt⟩,
            stopsAt_resumed hresult hstopped.stopsAt⟩
        · exact absurd (hcalls b hb) hraises

/-- Sixty chunks of a document: two batches. -/
def sixtyChunks : List Chunk := (List.range 60).map fun i =>
  { greetingEntity with chunkId := ⟨Fin.ofNat _ (200 + i)⟩, chunkIndex := i }

def sixtySaved : State :=
  { greetingSaved with
    chunkRepo := InMemoryChunkRepository.saveMany KeyedList.empty sixtyChunks
    chunks := sixtyChunks }

/-- The second batch is not embedded. -/
def secondBatchFails : Faults Site PyExc := fun site =>
  if site = .embedBatch 50 then
    some ⟨.exception (.other "APIConnectionError" "Connection error."), false⟩
  else none

theorem embedsInBatches_sixty :
    50 ∈ batchStarts sixtySaved.chunks.length ∧
      EmbedsInBatches (greetingEnv []) secondBatchFails greetingEmbedding greetingDocument
        sixtySaved :=
  ⟨by decide, embedsInBatches (greetingEnv []) secondBatchFails greetingEmbedding
    greetingDocument sixtySaved rfl fun _ _ => rfl⟩

end ProcessDocument
end AiBackend

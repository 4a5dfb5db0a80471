import AiBackend.Ingestion.LaterStages

/-!
# The embedding loop

The third stage of `ProcessDocumentUseCase.execute`, started with any chunks and
a provider that returns one embedding for every text.  One offset says where the
loop stands: the chunks before it have their embeddings, the contents before it
have been sent, it is the progress recorded last, and the tokens before it have
been counted.
-/

namespace AiBackend
namespace ProcessDocument

open Program Python

/-- The chunks of the batch that starts at `b`. -/
def batchAt (chunks : List Chunk) (b : ℕ) : List Chunk :=
  (chunks.drop b).take embeddingBatchSize

/-- The texts of an embedding call. -/
def Event.embedded? : Event → Option (List String)
  | .embedBatch texts => some texts
  | .recordProgress _ _ => none
  | .upsertMany _ => none

/-- The two numbers of a record of progress. -/
def Event.progress? : Event → Option (ℤ × ℤ)
  | .recordProgress processed total => some (processed, total)
  | .embedBatch _ => none
  | .upsertMany _ => none

/-- The batches that were sent to the embedding provider. -/
def batches (s : State) : List (List String) := s.events.filterMap Event.embedded?

/-- The progress recorded so far. -/
def recorded (s : State) : List (ℤ × ℤ) := s.events.filterMap Event.progress?

section OneBatch

variable {env : Env} {faults : Faults Site PyExc} {b : ℕ}

/-- An embedding call that raises leaves the chunks and the job alone. -/
theorem run_embedBatchAt_of_some (totalTokens : ℤ) {fault : Fault PyExc}
    (h : faults (.embedBatch b) = some fault) (s : State) :
    (embedBatchAt env faults totalTokens b).run s = .error fault.raised
      (if fault.landed then { s with events := s.events ++ [.embedBatch (texts s.chunks b)] }
        else s) := by
  simp only [embedBatchAt, EStateM.run_bind, EStateM.run_get, perform, h]
  rfl

theorem run_recordProgress (processed total : ℤ) (s : State) :
    (recordProgress env processed total).run s = .ok () { s with
      job := { s.job with
        processedChunks := processed
        totalChunks := total
        updatedAt := env.now (s.clock + 0) }
      events := s.events ++ [.recordProgress processed total]
      clock := s.clock + 2 } := rfl

/-- One that returns as many embeddings as there are texts. -/
theorem run_embedBatchAt_of_none (totalTokens : ℤ) (s : State)
    (h : faults (.embedBatch b) = none)
    (hlength : (answer env s.chunks b).length = (texts s.chunks b).length) :
    let batch := batchAt s.chunks b
    ∃ now updatedAt clock, (embedBatchAt env faults totalTokens b).run s =
      .ok (totalTokens + (batch.map Chunk.tokenCount).sum) { s with
        chunks := attachAt now b s.chunks (answer env s.chunks b)
        events := s.events ++ [.embedBatch (texts s.chunks b),
          .recordProgress (min (b + batch.length) s.chunks.length : ℕ) s.chunks.length]
        job := { s.job with
          processedChunks := (min (b + batch.length) s.chunks.length : ℕ)
          totalChunks := s.chunks.length
          updatedAt := updatedAt }
        clock := clock } := by
  unfold batchAt
  intro batch
  have hcheck : checkLengths batch.length
      (env.embedBatch b (batch.map Chunk.content)).length = pure () := by
    rw [show (env.embedBatch b (batch.map Chunk.content)).length = batch.length from
      hlength.trans (List.length_map _)]
    simp [checkLengths]
  have hevents : ∀ call progress : Event,
      s.events ++ [call] ++ [progress] = s.events ++ [call, progress] := by simp
  refine ⟨fun i => env.now (s.clock + i), env.now (s.clock + batch.length + 0),
    s.clock + batch.length + 2, ?_⟩
  simp only [embedBatchAt, perform_of_none h]
  simp only [EStateM.run_bind, EStateM.run_get, record, readings, EStateM.run_modify,
    EStateM.run_modifyGet, EStateM.run_pure]
  rw [hcheck]
  simp only [EStateM.run_pure, run_recordProgress, hevents]
  rfl

end OneBatch

/-! ## The invariant of the loop -/

/-- The embeddings of chunks of which the first `k` carry those of their
contents. -/
def embeddedTo (embed : String → EmbeddingVector) (k : ℕ) (chunks : List Chunk) :
    List (Option EmbeddingVector) :=
  (chunks.take k).map (fun chunk => some (embed chunk.content)) ++
    (chunks.drop k).map Chunk.embedding

/-- What is recorded when the batch at `b` of `n` chunks has its embeddings. -/
def reached (n b : ℕ) : ℤ × ℤ := ((min (b + embeddingBatchSize) n : ℕ), n)

/-- The loop has gone through the batches of `done`. -/
structure Through (embed : String → EmbeddingVector) (s₀ : State) (done : List ℕ)
    (s : State) : Prop where
  status : s.job.status = .embedding
  saved : s.chunks.map saved = s₀.chunks.map saved
  embeddings : s.chunks.map Chunk.embedding =
    embeddedTo embed (done.length * embeddingBatchSize) s₀.chunks
  recorded : recorded s = recorded s₀ ++ done.map (reached s₀.chunks.length)
  progress : (s.job.processedChunks, s.job.totalChunks) =
    (done.map (reached s₀.chunks.length)).getLastD
      (s₀.job.processedChunks, s₀.job.totalChunks)
  upserts : upserts s = upserts s₀

section Embeddings

variable {embed : String → EmbeddingVector} {chunks : List Chunk} {b k : ℕ}

theorem embeddings_attachAt (now : ℕ → Timestamp)
    {embeddings : List (Option EmbeddingVector)}
    (h : embeddings.length = (texts chunks b).length) :
    (attachAt now b chunks embeddings).map Chunk.embedding =
      (chunks.map Chunk.embedding).take b ++ embeddings ++
        (chunks.map Chunk.embedding).drop (b + embeddingBatchSize) := by
  let batch := (chunks.drop b).take embeddingBatchSize
  have hlength : embeddings.length = batch.length := by simpa [texts, batch] using h
  have hrest : chunks.drop (b + batch.length) = chunks.drop (b + embeddingBatchSize) := by
    have hbatch : batch.length = min embeddingBatchSize (chunks.length - b) := by
      simp [batch]
    rcases le_total embeddingBatchSize (chunks.length - b) with hfull | hlast
    · rw [hbatch, min_eq_left hfull]
    · rw [List.drop_eq_nil_of_le (by omega), List.drop_eq_nil_of_le (by omega)]
  rw [attachAt, List.map_append, List.map_append, map_embedding_attach now batch _ hlength,
    hrest, List.map_take, List.map_drop]

theorem length_embeddedTo (k : ℕ) (chunks : List Chunk) :
    (embeddedTo embed k chunks).length = chunks.length := by
  rw [embeddedTo, List.length_append, List.length_map, List.length_map, ← List.length_append,
    List.take_append_drop]

theorem take_embeddedTo (hk : k ≤ chunks.length) :
    (embeddedTo embed k chunks).take k =
      (chunks.take k).map fun chunk => some (embed chunk.content) :=
  List.take_left' (by rw [List.length_map, List.length_take_of_le hk])

theorem drop_embeddedTo (hk : k ≤ chunks.length) (size : ℕ) :
    (embeddedTo embed k chunks).drop (k + size) =
      (chunks.drop (k + size)).map Chunk.embedding := by
  have hfront : ((chunks.take k).map fun chunk => some (embed chunk.content)).length = k := by
    rw [List.length_map, List.length_take_of_le hk]
  rw [← List.drop_drop, embeddedTo, List.drop_left' hfront, ← List.map_drop, List.drop_drop]

/-- The embeddings of one more batch. -/
theorem embeddedTo_add (k : ℕ) (chunks : List Chunk) :
    embeddedTo embed (k + embeddingBatchSize) chunks =
      (chunks.take k).map (fun chunk => some (embed chunk.content)) ++
        (batchAt chunks k).map (fun chunk => some (embed chunk.content)) ++
        (chunks.drop (k + embeddingBatchSize)).map Chunk.embedding := by
  rw [embeddedTo, List.take_add, List.map_append, batchAt]

end Embeddings

/-! ## The loop -/

/-- The provider returns one embedding for every text, in order. -/
def EmbedsEach (env : Env) (embed : String → EmbeddingVector) : Prop :=
  ∀ b texts, env.embedBatch b texts = texts.map fun text => some (embed text)

section Loop

variable {env : Env} {faults : Faults Site PyExc} {embed : String → EmbeddingVector}
  {s₀ s : State} {done rest : List ℕ} {b : ℕ}

theorem EmbedsEach.length_answer (hembed : EmbedsEach env embed) (chunks : List Chunk)
    (b : ℕ) : (answer env chunks b).length = (texts chunks b).length := by
  rw [answer, hembed, List.length_map]

/-- What the provider returns for a batch. -/
theorem answer_eq (hembed : EmbedsEach env embed) (chunks : List Chunk) (b : ℕ) :
    answer env chunks b =
      (batchAt chunks b).map fun chunk => some (embed chunk.content) := by
  rw [answer, hembed, texts, List.map_map]
  rfl

theorem Through.next (hembed : EmbedsEach env embed) (h : Through embed s₀ done s)
    (hsplit : batchStarts s₀.chunks.length = done ++ b :: rest) {k : ℕ}
    (hk : k = min (b + embeddingBatchSize) s₀.chunks.length) (now : ℕ → Timestamp)
    (updatedAt : Timestamp) (clock : ℕ) (call : List String) :
    Through embed s₀ (done ++ [b]) { s with
      chunks := attachAt now b s.chunks (answer env s.chunks b)
      events := s.events ++ [.embedBatch call, .recordProgress k s.chunks.length]
      job := { s.job with
        processedChunks := k
        totalChunks := s.chunks.length
        updatedAt := updatedAt }
      clock := clock } := by
  obtain ⟨hb, hlt⟩ := start_of_split hsplit
  have hlength := length_eq_of_saved h.saved
  have hreached : ((k : ℤ), (s.chunks.length : ℤ)) = reached s₀.chunks.length b := by
    rw [hk, hlength]
    rfl
  refine ⟨h.status, (map_saved_attachAt ..).trans h.saved, ?_, ?_, ?_, ?_⟩
  · have hanswer : answer env s.chunks b = answer env s₀.chunks b := by
      rw [answer, answer, texts_congr h.saved]
    rw [embeddings_attachAt now (hembed.length_answer _ _), h.embeddings, ← hb,
      take_embeddedTo hlt.le, drop_embeddedTo hlt.le, hanswer, answer_eq hembed,
      List.length_append, List.length_singleton, Nat.add_mul, Nat.one_mul, ← hb, embeddedTo_add]
  · have hrecorded := h.recorded
    simp only [ProcessDocument.recorded] at hrecorded ⊢
    rw [List.filterMap_append, hrecorded, List.map_append, List.map_singleton,
      List.append_assoc, ← hreached]
    rfl
  · rw [List.map_append, List.map_singleton, List.getLastD_concat]
    exact hreached
  · have hupserts := h.upserts
    simp only [ProcessDocument.upserts] at hupserts ⊢
    rw [List.filterMap_append, hupserts]
    exact List.append_nil _

/-- One batch goes through, or its call raises and nothing is changed. -/
theorem ensures_embedBatchAt_through (hembed : EmbedsEach env embed)
    (hsplit : batchStarts s₀.chunks.length = done ++ b :: rest) (totalTokens : ℤ) :
    Ensures
      (fun s => Through embed s₀ done s ∧
        batches s = batches s₀ ++ done.map (texts s₀.chunks))
      (embedBatchAt env faults totalTokens b)
      (fun total s => (Through embed s₀ (done ++ [b]) s ∧
          batches s = batches s₀ ++ (done ++ [b]).map (texts s₀.chunks)) ∧
        faults (.embedBatch b) = none ∧
        total = totalTokens + ((batchAt s₀.chunks b).map Chunk.tokenCount).sum)
      (fun _ s => faults (.embedBatch b) ≠ none ∧ Through embed s₀ done s) := by
  intro s hs
  obtain ⟨hthrough, hbatches⟩ := hs
  cases hfault : faults (.embedBatch b) with
  | some fault =>
      rw [run_embedBatchAt_of_some totalTokens hfault]
      refine ⟨nofun, ?_⟩
      by_cases hlanded : fault.landed
      · -- the provider got the texts
        rw [if_pos hlanded]
        refine ⟨hthrough.status, hthrough.saved, hthrough.embeddings, ?_,
          hthrough.progress, ?_⟩
        · exact List.filterMap_append.trans ((List.append_nil _).trans hthrough.recorded)
        · exact List.filterMap_append.trans ((List.append_nil _).trans hthrough.upserts)
      · rw [if_neg hlanded]
        exact hthrough
  | none =>
      obtain ⟨-, hlt⟩ := start_of_split hsplit
      have hlength := length_eq_of_saved hthrough.saved
      have hreached : min (b + (batchAt s.chunks b).length) s.chunks.length =
          min (b + embeddingBatchSize) s₀.chunks.length := by
        rw [batchAt, List.length_take, List.length_drop, hlength]
        omega
      have htokens : (batchAt s.chunks b).map Chunk.tokenCount =
          (batchAt s₀.chunks b).map Chunk.tokenCount := by
        rw [batchAt, batchAt, List.map_take, List.map_take, List.map_drop, List.map_drop,
          map_eq_of_saved (fun _ => rfl) hthrough.saved]
      obtain ⟨now, updatedAt, clock, hrun⟩ :=
        run_embedBatchAt_of_none totalTokens s hfault (hembed.length_answer _ _)
      rw [hrun]
      refine ⟨⟨hthrough.next hembed hsplit hreached now updatedAt clock _, ?_⟩, rfl, ?_⟩
      · simp only [batches] at hbatches ⊢
        rw [List.filterMap_append, hbatches, List.map_append, List.append_assoc,
          texts_congr hthrough.saved]
        rfl
      · exact congrArg (totalTokens + List.sum ·) htokens

/-- What is known when the batches of `done` have been embedded. -/
structure Embedding (embed : String → EmbeddingVector) (faults : Faults Site PyExc)
    (s₀ : State) (done : List ℕ) (totalTokens : ℤ) (s : State) : Prop where
  through : Through embed s₀ done s
  batches : batches s = batches s₀ ++ done.map (texts s₀.chunks)
  calls : ∀ b ∈ done, faults (.embedBatch b) = none
  tokens : totalTokens =
    ((s₀.chunks.take (done.length * embeddingBatchSize)).map Chunk.tokenCount).sum

/-- The loop stops at the first call that raises, with the batches before it
embedded. -/
structure Stopped (embed : String → EmbeddingVector) (faults : Faults Site PyExc)
    (s₀ : State) (done : List ℕ) (b : ℕ) (s : State) : Prop where
  split : ∃ rest, batchStarts s₀.chunks.length = done ++ b :: rest
  calls : ∀ b ∈ done, faults (.embedBatch b) = none
  raises : faults (.embedBatch b) ≠ none
  through : Through embed s₀ done s

theorem ensures_batches_through (hembed : EmbedsEach env embed) :
    Ensures (Embedding embed faults s₀ [] 0)
      ((batchStarts s₀.chunks.length).foldlM (embedBatchAt env faults) 0)
      (Embedding embed faults s₀ (batchStarts s₀.chunks.length))
      (fun _ s => ∃ done b, Stopped embed faults s₀ done b s) := by
  refine ensures_foldlM_visited (I := Embedding embed faults s₀)
    (fun done b rest totalTokens hsplit => ?_) 0
  apply ensures_pointwise
  intro s h
  have hbatch : Ensures _ (embedBatchAt env faults totalTokens b) _ _ :=
    ensures_embedBatchAt_through hembed hsplit totalTokens
  refine hbatch.consequence ?_ ?_ ?_
  · rintro _ rfl
    exact ⟨h.through, h.batches⟩
  · rintro total s' ⟨⟨hthrough, hbatches⟩, hcall, htotal⟩
    obtain ⟨hb, -⟩ := start_of_split hsplit
    refine ⟨hthrough, hbatches, ?_, ?_⟩
    · rw [List.forall_mem_append, List.forall_mem_singleton]
      exact ⟨h.calls, hcall⟩
    · rw [htotal, h.tokens, List.length_append, List.length_singleton, Nat.add_mul,
        Nat.one_mul, List.take_add, List.map_append, List.sum_append, ← hb]
      rfl
  · rintro _ s' ⟨hraises, hthrough⟩
    exact ⟨done, b, ⟨rest, hsplit⟩, h.calls, hraises, hthrough⟩

end Loop

end ProcessDocument
end AiBackend

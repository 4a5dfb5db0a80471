import AiBackend.Ingestion.Leftovers
import AiBackend.Providers.EmbeddingBatch

/-!
# A completed document and its vectors

With OpenAI as the embedding provider, a document that a run completes has a
vector for every chunk exactly if no answer of the API was short.  The lists
of a short answer are padded to the length that the pipeline checks, and the
gaps are dropped when the entries are built.
-/

namespace AiBackend
namespace ProcessDocument

open Program Python PostgresDocumentRepository QdrantVectorRepository
open OpenAI OpenAIEmbeddingService

/-- The entry carries the chunk, whatever its embedding. -/
structure IsEntryOf (title : String) (chunk : Chunk) (entry : Entry) : Prop where
  id : entry.1 = chunk.chunkId
  payload : entry.2.2 = payload title chunk

/-- The `upsert_many` call of the run that went on from `s` was handed one
entry for each of its chunks. -/
def AllUpserted (title : String) (s s' : State) : Prop :=
  ∃ entries, upserts s' = upserts s ++ sent entries ∧
    List.Forall₂ (IsEntryOf title) s.chunks entries

/-- The document is completed, with `n` chunks. -/
def EndsCompleted (documentId : DocumentId) (n : ℕ) (s : State) : Prop :=
  ∃ row, s.documents.find? documentId = some row ∧ row.status = .completed ∧
    row.chunkCount = n

/-- The calls for the batches go to `OpenAIEmbeddingService`: what they return
is what it makes of the cache and of the API's answer at that time. -/
def FromOpenAI (settings : OpenAISettings) (cache : ℕ → Option GetEmbedding)
    (create : ℕ → EmbeddingsRequest → Except SdkError (List (List ℚ)))
    (env : Env) (faults : Faults Site PyExc) (chunks : List Chunk) : Prop :=
  ∀ b ∈ batchStarts chunks.length, faults (.embedBatch b) = none →
    ∃ writes, OpenAIEmbeddingService.embedBatch settings (cache b) (create b)
      (texts chunks b) = .ok (answer env chunks b, writes)

/-! ## Entries and embeddings -/

theorem sent_injective : Function.Injective sent := by
  intro entries entries' h
  cases entries with
  | nil =>
      cases entries' with
      | nil => rfl
      | cons entry entries' => simp [sent] at h
  | cons entry entries =>
      cases entries' with
      | nil => simp [sent] at h
      | cons entry' entries' => simpa [sent] using h

theorem isEntryOf_of_saved {title : String} {chunk old : Chunk}
    (h : saved chunk = saved old) (embedding : EmbeddingVector) :
    IsEntryOf title old (chunk.chunkId, embedding, payload title chunk) := by
  have hid : (saved chunk).chunkId = (saved old).chunkId := congrArg Chunk.chunkId h
  have hpayload : payload title (saved chunk) = payload title (saved old) :=
    congrArg (payload title) h
  exact ⟨hid, hpayload⟩

/-- The entries are one for each chunk if and only if every chunk has an
embedding. -/
theorem forall₂_entries_iff {title : String} {before chunks : List Chunk}
    (h : chunks.map saved = before.map saved) :
    List.Forall₂ (IsEntryOf title) before (chunks.filterMap (entry title)) ↔
      none ∉ chunks.map Chunk.embedding := by
  constructor
  · intro hentries hnone
    obtain ⟨chunk, hchunk, hembedding⟩ := List.mem_map.mp hnone
    have hsame := length_eq_of_saved h
    have hfull : (chunks.filterMap (entry title)).length = chunks.length :=
      hentries.length_eq.symm.trans hsame.symm
    have hsome := List.filterMap_length_eq_length.mp hfull chunk hchunk
    simp [entry, hembedding] at hsome
  · intro hall
    induction chunks generalizing before with
    | nil =>
        rw [List.map_eq_nil_iff.mp h.symm]
        exact .nil
    | cons chunk chunks ih =>
        obtain ⟨old, before, rfl, hold, hrest⟩ := List.map_eq_cons_iff.mp h.symm
        rw [List.map_cons, List.mem_cons, not_or] at hall
        obtain ⟨embedding, hembedding⟩ := Option.ne_none_iff_exists'.mp (Ne.symm hall.1)
        have hentry : entry title chunk =
            some (chunk.chunkId, embedding, payload title chunk) := by
          simp [entry, hembedding]
        rw [List.filterMap_cons_some hentry]
        exact .cons (isEntryOf_of_saved hold.symm embedding) (ih hrest.symm hall.2)

/-- Once the points are written, they are complete if and only if no list of
the provider has a gap. -/
theorem Written.complete_iff {env : Env} {title : String} {s s' : State}
    (h : Written env title s s') :
    AllUpserted title s s' ↔
      ∀ b ∈ batchStarts s.chunks.length, none ∉ answer env s.chunks b := by
  have hcomplete : AllUpserted title s s' ↔
      List.Forall₂ (IsEntryOf title) s.chunks (s'.chunks.filterMap (entry title)) := by
    constructor
    · rintro ⟨entries, hupserts, hentries⟩
      rw [h.upserts] at hupserts
      rwa [sent_injective (List.append_cancel_left hupserts)]
    · exact fun hentries => ⟨_, h.upserts, hentries⟩
  rw [hcomplete, forall₂_entries_iff h.embedded.saved, h.embedded.embeddings]
  simp

/-- A run that writes no point hands over its entries only if it has none. -/
theorem Unwritten.complete_iff {documentId : DocumentId} {title : String}
    {s s' : State} (h : Unwritten documentId s s') :
    AllUpserted title s s' ↔ s.chunks = [] := by
  constructor
  · rintro ⟨entries, hupserts, hentries⟩
    have hsent : sent entries = sent [] := by
      simpa [h.upserts, sent] using hupserts.symm
    rw [sent_injective hsent] at hentries
    exact List.forall₂_nil_right_iff.mp hentries
  · intro hnil
    exact ⟨[], by simp [h.upserts, sent], hnil ▸ .nil⟩

/-! ## Completed documents -/

/-- Every call of a run up to its upsert goes through, and the upsert takes
effect. -/
structure ReachesUpsert (faults : Faults Site PyExc) (n : ℕ) : Prop where
  embedded : ∀ b ∈ batchStarts n, faults (.embedBatch b) = none
  logged : faults .logEmbedded = none
  upserted : faults.Lands .upsertMany

theorem zero_mem_batchStarts {n : ℕ} (h : 0 < n) : 0 ∈ batchStarts n := by
  refine List.mem_map.mpr ⟨0, List.mem_range.mpr ?_, Nat.zero_mul _⟩
  unfold embeddingBatchSize
  omega

/-- Where there is a chunk, the first list without a gap has an embedding. -/
theorem exists_embedding {env : Env} {faults : Faults Site PyExc} {chunks : List Chunk}
    (hne : chunks ≠ []) (harrives : Arrives env faults chunks 0)
    (hfull : none ∉ answer env chunks 0) :
    ∃ b ∈ batchStarts chunks.length, ∃ embedding, some embedding ∈ answer env chunks b := by
  have hpos : 0 < chunks.length := List.length_pos_iff.mpr hne
  refine ⟨0, zero_mem_batchStarts hpos, ?_⟩
  have hlength := harrives.length
  cases hanswer : answer env chunks 0 with
  | nil =>
      rw [hanswer] at hlength
      simp only [texts, embeddingBatchSize, List.drop_zero, List.length_map,
        List.length_take, List.length_nil] at hlength
      omega
  | cons first rest =>
      rw [hanswer, List.mem_cons, not_or] at hfull
      obtain ⟨embedding, rfl⟩ := Option.ne_none_iff_exists'.mp (Ne.symm hfull.1)
      exact ⟨embedding, List.mem_cons_self⟩

/-- When no answer of the API is short, the points of a run are written exactly
if it reaches its upsert. -/
theorem stores_iff_reachesUpsert {env : Env} {faults : Faults Site PyExc}
    {settings : OpenAISettings} {cache : ℕ → Option GetEmbedding}
    {create : ℕ → EmbeddingsRequest → Except SdkError (List (List ℚ))}
    {chunks : List Chunk} (hne : chunks ≠ [])
    (hopenai : FromOpenAI settings cache create env faults chunks)
    (hfull : ∀ b ∈ batchStarts chunks.length,
      ¬ AnswersShort settings (cache b) (create b) (texts chunks b)) :
    Stores env faults chunks ↔ ReachesUpsert faults chunks.length := by
  constructor
  · intro h
    have hzero := zero_mem_batchStarts (List.length_pos_iff.mpr hne)
    obtain ⟨writes, hbatch⟩ := hopenai 0 hzero (h.arrives 0 hzero).call
    have hfirst := (embedBatch_spec hbatch).2.mpr (hfull 0 hzero)
    exact ⟨fun b hb => (h.arrives b hb).call, h.logged,
      h.upserted (exists_embedding hne (h.arrives 0 hzero) hfirst)⟩
  · intro h
    refine ⟨fun b hb => ?_, h.logged, fun _ => h.upserted⟩
    obtain ⟨writes, hbatch⟩ := hopenai b hb (h.embedded b hb)
    exact ⟨h.embedded b hb, (embedBatch_spec hbatch).1⟩

/-- A document that is completed after a run has all its vectors exactly if no
answer of the API was short.  Where the document was completed before, the run
also has to reach its upsert. -/
theorem allUpserted_iff (env : Env) (faults : Faults Site PyExc)
    (documentId : DocumentId) (document : Document) (settings : OpenAISettings)
    (cache : ℕ → Option GetEmbedding)
    (create : ℕ → EmbeddingsRequest → Except SdkError (List (List ℚ))) (s : State)
    (hjob : s.job.status = .chunking)
    (hopenai : FromOpenAI settings cache create env faults s.chunks)
    (hcompleted : EndsCompleted documentId s.chunks.length
      (resumed env faults documentId document s)) :
    AllUpserted document.title s (resumed env faults documentId document s) ↔
      (∀ b ∈ batchStarts s.chunks.length,
        ¬ AnswersShort settings (cache b) (create b) (texts s.chunks b)) ∧
      (s.chunks ≠ [] → storedStatus s.documents documentId = some .completed →
        ReachesUpsert faults s.chunks.length) := by
  have hleaves : Leaves env faults documentId document.title s
      (resumed env faults documentId document s) := leaves_resume document hjob
  by_cases hstores : Stores env faults s.chunks
  · have hcomplete : AllUpserted document.title s
        (resumed env faults documentId document s) ↔
        ∀ b ∈ batchStarts s.chunks.length,
          ¬ AnswersShort settings (cache b) (create b) (texts s.chunks b) := by
      rw [(hleaves.written hstores).complete_iff]
      refine forall₂_congr fun b hb => ?_
      obtain ⟨writes, hbatch⟩ := hopenai b hb (hstores.arrives b hb).call
      exact (embedBatch_spec hbatch).2
    rw [hcomplete]
    exact ⟨fun hfull => ⟨hfull, fun hne _ =>
      (stores_iff_reachesUpsert hne hopenai hfull).mp hstores⟩, And.left⟩
  · have hno := hleaves.unwritten hstores
    have hbefore : storedStatus s.documents documentId = some .completed := by
      obtain ⟨row, hrow, hstatus, -⟩ := hcompleted
      exact hno.completed (by simp [storedStatus, hrow, hstatus])
    rw [hno.complete_iff]
    constructor
    · intro hnil
      exact ⟨by simp [hnil, batchStarts, embeddingBatchSize], fun hne => absurd hnil hne⟩
    · rintro ⟨hfull, hreaches⟩
      by_contra hne
      exact hstores ((stores_iff_reachesUpsert hne hopenai hfull).mpr (hreaches hne hbefore))

/-! ## A short answer -/

/-- A second chunk of the greeting. -/
def secondEntity : Chunk :=
  { greetingEntity with chunkId := ⟨10⟩, content := "world", chunkIndex := 1 }

/-- Two saved chunks. -/
def twoSaved : State :=
  { greetingSaved with
    chunkRepo := InMemoryChunkRepository.saveMany KeyedList.empty
      [greetingEntity, secondEntity]
    chunks := [greetingEntity, secondEntity] }

def oneDimension : OpenAISettings where
  embeddingDimensions := 1

/-- An API that returns one embedding, however many it is asked for. -/
def createOne (_ : ℕ) (_ : EmbeddingsRequest) : Except SdkError (List (List ℚ)) :=
  .ok [[1]]

/-- What the provider makes of it. -/
def paddedEnv : Env :=
  { greetingEnv [] with
    embedBatch := fun b texts =>
      match OpenAIEmbeddingService.embedBatch oneDimension none (createOne b) texts with
      | .ok (results, _) => results
      | .error _ => [] }

theorem fromOpenAI_twoSaved :
    FromOpenAI oneDimension (fun _ => none) createOne paddedEnv Faults.none
      twoSaved.chunks := by
  intro b hb _
  have hzero : b = 0 := by
    simpa [twoSaved, batchStarts, embeddingBatchSize] using hb
  subst hzero
  exact ⟨[], rfl⟩

theorem endsCompleted_twoSaved :
    EndsCompleted ⟨1⟩ twoSaved.chunks.length
      (resumed paddedEnv Faults.none ⟨1⟩ greetingDocument twoSaved) :=
  ⟨_, rfl, rfl, rfl⟩

theorem allUpserted_iff_twoSaved :
    AllUpserted "Greeting" twoSaved
        (resumed paddedEnv Faults.none ⟨1⟩ greetingDocument twoSaved) ↔
      (∀ b ∈ batchStarts twoSaved.chunks.length,
        ¬ AnswersShort oneDimension none (createOne b) (texts twoSaved.chunks b)) ∧
      (twoSaved.chunks ≠ [] →
        storedStatus twoSaved.documents ⟨1⟩ = some .completed →
          ReachesUpsert Faults.none twoSaved.chunks.length) :=
  allUpserted_iff paddedEnv Faults.none ⟨1⟩ greetingDocument oneDimension
    (fun _ => none) createOne twoSaved rfl fromOpenAI_twoSaved endsCompleted_twoSaved

/-- The API answers a call for two texts with one embedding: the document is
completed with two chunks, and one of them has no vector. -/
theorem not_allUpserted :
    ¬ ∀ (env : Env) (faults : Faults Site PyExc) (documentId : DocumentId)
        (document : Document) (settings : OpenAISettings)
        (cache : ℕ → Option GetEmbedding)
        (create : ℕ → EmbeddingsRequest → Except SdkError (List (List ℚ)))
        (before : InMemoryChunkRepository.Store) (s : State),
      s.job.status = .chunking →
      s.chunkRepo = InMemoryChunkRepository.saveMany before s.chunks →
      document.documentId = documentId →
      storedStatus s.documents documentId ≠ some .completed →
      (∀ b request data, create b request = .ok data →
        ∀ item ∈ data, (item.length : ℤ) = settings.embeddingDimensions) →
      FromOpenAI settings cache create env faults s.chunks →
      EndsCompleted documentId s.chunks.length
        (resumed env faults documentId document s) →
      AllUpserted document.title s (resumed env faults documentId document s) := by
  intro hall
  have hdimensions : ∀ (b : ℕ) (request : EmbeddingsRequest) (data : List (List ℚ)),
      createOne b request = .ok data →
        ∀ item ∈ data, (item.length : ℤ) = oneDimension.embeddingDimensions := by
    intro b request data hdata
    cases hdata
    simp [oneDimension]
  obtain ⟨entries, hupserts, hentries⟩ := hall paddedEnv Faults.none ⟨1⟩ greetingDocument
    oneDimension (fun _ => none) createOne KeyedList.empty twoSaved rfl rfl rfl (by decide)
    hdimensions fromOpenAI_twoSaved endsCompleted_twoSaved
  have hone : (upserts (resumed paddedEnv Faults.none ⟨1⟩ greetingDocument
      twoSaved)).map List.length = [1] := rfl
  have htwo : entries.length = 2 := hentries.length_eq.symm
  rw [hupserts] at hone
  cases entries with
  | nil => cases htwo
  | cons entry entries =>
      simp [sent, show upserts twoSaved = [] from rfl] at hone
      simp [hone] at htwo

end ProcessDocument
end AiBackend

import AiBackend.Application.ProcessDocument

/-!
# From a chunk to a search result

The storing stage of the pipeline writes the payload of a point and the search
of the adapter reads it.  Every field comes back as it was written.  The only
thing that can keep a stored chunk out of the results is its score: a search
result admits scores from 0 to 1, so a negative cosine drops the point.
-/

namespace AiBackend

open Python QdrantVectorRepository

/-- A chunk of a document with the entry the storing stage builds for it. -/
structure StoredChunk where
  title : String
  chunk : Chunk
  entry : Entry
  built : ProcessDocument.entry title chunk = some entry

namespace StoredChunk

/-- A search result shows the chunk behind a point of an answer. -/
structure Shows (stored : StoredChunk) (scored : ScoredPoint)
    (result : SearchResult) : Prop where
  chunkId : result.chunkId = stored.chunk.chunkId
  documentId : result.documentId = stored.chunk.documentId
  collectionId : result.collectionId = stored.chunk.collectionId
  content : result.content = stored.chunk.content
  chunkIndex : result.chunkIndex = stored.chunk.chunkIndex
  documentTitle : result.documentTitle = stored.title
  score : result.score = scored.score

theorem entry_eq (stored : StoredChunk) :
    ∃ embedding, stored.entry = (stored.chunk.chunkId, embedding,
      ProcessDocument.payload stored.title stored.chunk) := by
  obtain ⟨embedding, -, hentry⟩ := Option.map_eq_some_iff.mp stored.built
  exact ⟨embedding, hentry.symm⟩

/-- The payload and the identifier are all that reading a point depends on,
apart from its score. -/
theorem toSearchResult_eq (stored : StoredChunk) {scored : ScoredPoint}
    (hpoint : scored.point = point stored.entry)
    (intFromStr : String → Option ℤ) (fresh : Uuid) :
    toSearchResult intFromStr fresh scored =
      SearchResult.construct intFromStr stored.chunk.chunkId
        stored.chunk.documentId stored.chunk.collectionId
        (.str stored.chunk.content) scored.score
        ((ProcessDocument.payload stored.title stored.chunk).filter
          fun entry => entry.1 ∉ fieldKeys)
        (.str stored.title) (.int stored.chunk.chunkIndex) := by
  obtain ⟨embedding, hentry⟩ := stored.entry_eq
  let payload := ProcessDocument.payload stored.title stored.chunk
  have hdocument : payloadGet payload "document_id" (.str "") =
      .str stored.chunk.documentId.str := rfl
  have hcollection : payloadGet payload "collection_id" (.str fresh.str) =
      .str stored.chunk.collectionId.str := rfl
  have hcontent : payloadGet payload "content" (.str "") =
      .str stored.chunk.content := rfl
  have htitle : payloadGet payload "document_title" (.str "") =
      .str stored.title := rfl
  have hindex : payloadGet payload "chunk_index" (.int 0) =
      .int stored.chunk.chunkIndex := rfl
  have hid : Uuid.fromStr scored.point.id.str = .ok stored.chunk.chunkId := by
    simp [hpoint, hentry, point, PointId.str]
  have hpayload : scored.point.payload = payload := by
    simp [hpoint, hentry, point, payload]
  simp only [toSearchResult, hid, hpayload, hdocument, hcollection, hcontent,
    htitle, hindex, uuidOfValue, Uuid.fromStr_str]
  rfl

/-- A stored chunk with a score in the admitted range is read back. -/
theorem exists_result (stored : StoredChunk) {scored : ScoredPoint}
    (hpoint : scored.point = point stored.entry) (hnonneg : 0 ≤ scored.score)
    (hle : scored.score ≤ 1) (intFromStr : String → Option ℤ) (fresh : Uuid) :
    ∃ result, toSearchResult intFromStr fresh scored = .ok result ∧
      stored.Shows scored result := by
  rw [stored.toSearchResult_eq hpoint]
  simp only [SearchResult.construct, SearchResult.strField,
    SearchResult.intField, dif_pos (And.intro hnonneg hle)]
  exact ⟨_, rfl, rfl, rfl, rfl, rfl, rfl, rfl, rfl⟩

/-- A stored chunk with a negative score is not. -/
theorem error_of_score_neg (stored : StoredChunk) {scored : ScoredPoint}
    (hpoint : scored.point = point stored.entry) (hneg : scored.score < 0)
    (intFromStr : String → Option ℤ) (fresh : Uuid) :
    ∃ e, toSearchResult intFromStr fresh scored = .error e := by
  have hrange : ¬ (0 ≤ scored.score ∧ scored.score ≤ 1) :=
    fun h => absurd h.1 (not_le.mpr hneg)
  rw [stored.toSearchResult_eq hpoint]
  simp only [SearchResult.construct, SearchResult.strField,
    SearchResult.intField, dif_neg hrange]
  exact ⟨_, rfl⟩

end StoredChunk

/-! ## A whole answer -/

/-- An answer lists points of a batch, as they are in the store after the
batch was upserted, with cosine scores. -/
structure Lists (before : PointStore) (batch : List StoredChunk)
    (answer : List ScoredPoint) : Prop where
  stored : ∀ scored ∈ answer, scored.point ∈
    (upsertPoints before (batch.map StoredChunk.entry)).items
  ofBatch : ∀ scored ∈ answer, ∃ stored ∈ batch,
    (point stored.entry).id = scored.point.id
  lower : ∀ scored ∈ answer, -1 ≤ scored.score
  upper : ∀ scored ∈ answer, scored.score ≤ 1

theorem Lists.exists_stored {before : PointStore} {batch : List StoredChunk}
    {answer : List ScoredPoint} (h : Lists before batch answer)
    {scored : ScoredPoint} (hscored : scored ∈ answer) :
    ∃ stored ∈ batch, scored.point = point stored.entry := by
  obtain ⟨stored, hstored, hid⟩ := h.ofBatch scored hscored
  rcases mem_upsertPoints (h.stored scored hscored) with
    ⟨entry, hentry, hpoint⟩ | ⟨-, hother⟩
  · obtain ⟨found, hfound, rfl⟩ := List.mem_map.mp hentry
    exact ⟨found, hfound, hpoint⟩
  · exact absurd hid (hother _ (List.mem_map_of_mem hstored))

/-- A search whose answer lists stored chunks returns, in the order of the
answer, one faithful result for each point with a non-negative score. -/
theorem search_returns_stored (before : PointStore) (batch : List StoredChunk)
    (queryPoints : QueryPoints) (intFromStr : String → Option ℤ)
    (uuid4 : ℕ → Uuid) (queryEmbedding : EmbeddingVector) (topK : ℤ)
    (filters : Option (Dict Json)) (tenantId : Option TenantId)
    (queryFilter : Option (List FieldCondition))
    (hfilter : buildFilter tenantId filters = .ok queryFilter)
    (hanswer : Lists before batch
      (queryPoints queryEmbedding.values topK queryFilter)) :
    ∃ results, search queryPoints intFromStr uuid4 queryEmbedding topK filters
        tenantId = .ok results ∧
      List.Forall₂
        (fun scored result => ∃ stored ∈ batch,
          scored.point = point stored.entry ∧ stored.Shows scored result)
        ((queryPoints queryEmbedding.values topK queryFilter).filter
          fun scored => 0 ≤ scored.score)
        results := by
  refine ⟨_, by rw [search, hfilter]; rfl, ?_⟩
  apply forall₂_readPoints _
  · intro scored hscored hnonneg fresh
    obtain ⟨stored, hstored, hpoint⟩ := hanswer.exists_stored hscored
    obtain ⟨result, hresult, hshows⟩ := stored.exists_result hpoint
      (by simpa using hnonneg) (hanswer.upper scored hscored) intFromStr fresh
    exact ⟨result, hresult, stored, hstored, hpoint, hshows⟩
  · intro scored hscored hneg fresh
    obtain ⟨stored, -, hpoint⟩ := hanswer.exists_stored hscored
    exact stored.error_of_score_neg hpoint (by simpa using hneg) intFromStr fresh

def waveEmbedding : EmbeddingVector := ⟨[3 / 5, 4 / 5], "small", 2, rfl⟩

/-- A chunk with a two-dimensional embedding, and its entry. -/
def waveStored : StoredChunk where
  title := "Waves"
  chunk := {
    id := ⟨1⟩
    createdAt := 0
    updatedAt := 0
    tenantId := ⟨2⟩
    chunkId := ⟨3⟩
    documentId := ⟨4⟩
    collectionId := ⟨5⟩
    content := "sound"
    chunkIndex := 0
    startChar := 0
    endChar := 5
    embedding := some waveEmbedding }
  entry := (⟨3⟩, waveEmbedding, ⟨[("document_id", .str (⟨4⟩ : Uuid).str),
    ("collection_id", .str (⟨5⟩ : Uuid).str), ("content", .str "sound"),
    ("chunk_index", .int 0), ("document_title", .str "Waves")], by decide⟩)
  built := rfl

/-- A second chunk, whose embedding points the other way. -/
def tideEmbedding : EmbeddingVector := ⟨[-3 / 5, -4 / 5], "small", 2, rfl⟩

def tideStored : StoredChunk where
  title := "Tides"
  chunk := { waveStored.chunk with
    chunkId := ⟨6⟩
    content := "water"
    chunkIndex := 1
    startChar := 6
    endChar := 11
    embedding := some tideEmbedding }
  entry := (⟨6⟩, tideEmbedding, ⟨[("document_id", .str (⟨4⟩ : Uuid).str),
    ("collection_id", .str (⟨5⟩ : Uuid).str), ("content", .str "water"),
    ("chunk_index", .int 1), ("document_title", .str "Tides")], by decide⟩)
  built := rfl

/-- A server that answers every query with both points, best first. -/
def bothServer : QueryPoints :=
  fun _ _ _ => [⟨point waveStored.entry, 1⟩, ⟨point tideStored.entry, -1⟩]

theorem bothServer_lists (vector : List ℚ) (limit : ℤ)
    (queryFilter : Option (List FieldCondition)) :
    Lists KeyedList.empty [waveStored, tideStored] (bothServer vector limit queryFilter) := by
  have hids : (point waveStored.entry).id ≠ (point tideStored.entry).id := by decide
  refine ⟨?_, ?_, ?_, ?_⟩ <;>
    simp only [bothServer, List.forall_mem_cons, List.not_mem_nil, false_implies,
      implies_true, and_true]
  · simp [upsertPoints, KeyedList.mem_upsert, hids]
  · exact ⟨⟨waveStored, by simp, rfl⟩, tideStored, by simp, rfl⟩
  · norm_num
  · norm_num

theorem search_returns_stored_wave :
    Lists KeyedList.empty [waveStored, tideStored] (bothServer waveEmbedding.values 10 none) ∧
      ∃ results, search bothServer (fun _ => none) (fun _ => ⟨0⟩) waveEmbedding 10 none none =
          .ok results ∧
        List.Forall₂
          (fun scored result => ∃ stored ∈ [waveStored, tideStored],
            scored.point = point stored.entry ∧ stored.Shows scored result)
          ((bothServer waveEmbedding.values 10 none).filter fun scored => 0 ≤ scored.score)
          results :=
  ⟨bothServer_lists _ _ _,
    search_returns_stored KeyedList.empty [waveStored, tideStored] bothServer
      (fun _ => none) (fun _ => ⟨0⟩) waveEmbedding 10 none none none rfl
      (bothServer_lists _ _ _)⟩

/-- A server that answers every query with the chunk's point and a score. -/
def waveServer (score : ℚ) : QueryPoints :=
  fun _ _ _ => [⟨point waveStored.entry, score⟩]

theorem waveServer_lists {score : ℚ} (hlower : -1 ≤ score) (hupper : score ≤ 1)
    (vector : List ℚ) (limit : ℤ) (queryFilter : Option (List FieldCondition)) :
    Lists KeyedList.empty [waveStored] (waveServer score vector limit queryFilter) :=
  ⟨by simp [waveServer, upsertPoints, KeyedList.mem_upsert],
    by simp [waveServer], by simpa [waveServer] using hlower,
    by simpa [waveServer] using hupper⟩

/-- A listed point with a negative cosine has no result. -/
theorem search_not_always_returns_stored :
    ¬ ∀ (before : PointStore) (batch : List StoredChunk)
        (queryPoints : QueryPoints) (intFromStr : String → Option ℤ)
        (uuid4 : ℕ → Uuid) (queryEmbedding : EmbeddingVector) (topK : ℤ)
        (filters : Option (Dict Json)) (tenantId : Option TenantId)
        (queryFilter : Option (List FieldCondition)),
      buildFilter tenantId filters = .ok queryFilter →
      Lists before batch (queryPoints queryEmbedding.values topK queryFilter) →
      ∃ results, search queryPoints intFromStr uuid4 queryEmbedding topK filters
          tenantId = .ok results ∧
        List.Forall₂
          (fun scored result => ∃ stored ∈ batch,
            scored.point = point stored.entry ∧ stored.Shows scored result)
          (queryPoints queryEmbedding.values topK queryFilter) results := by
  intro hall
  obtain ⟨results, hresults, hshows⟩ := hall KeyedList.empty [waveStored]
    (waveServer (-1 / 2)) (fun _ => none) (fun _ => ⟨0⟩)
    waveEmbedding 10 none none none rfl
    (waveServer_lists (by norm_num) (by norm_num) _ _ _)
  have hpoint : (⟨point waveStored.entry, -1 / 2⟩ : ScoredPoint).point =
      point waveStored.entry := rfl
  obtain ⟨e, herror⟩ := waveStored.error_of_score_neg hpoint (by norm_num)
    (fun _ => none) ⟨0⟩
  have hnone : search (waveServer (-1 / 2)) (fun _ => none) (fun _ => ⟨0⟩)
      waveEmbedding 10 none none = .ok [] := by
    have hfilter : buildFilter none none = .ok none := rfl
    rw [search, hfilter]
    simp [waveServer, readPoints, herror, bind, Except.bind, pure, Except.pure]
  rw [hnone] at hresults
  cases hresults
  cases hshows

end AiBackend

import AiBackend.Infrastructure.RedisCache
import AiBackend.Providers.EmbeddingBatch

/-!
# What the cache does to an embedding call

A batch is split into cached and uncached texts, only these are sent to the
API, and its answers are put where the gaps are.  Writes to the cache cannot
fail a call, reads can.
-/

namespace AiBackend
namespace OpenAIEmbeddingService

open OpenAI Program Python

/-! ## The calls and the batch -/

section Calls

variable {settings : OpenAISettings} {cache : Option RedisCache}
  {create : EmbeddingsRequest → Except SdkError (List (List ℚ))} {texts : List String}

/-- Whatever becomes of a write, the call goes on. -/
theorem run_writeBack (cache : RedisCache) (model text : String) (embedding : EmbeddingVector)
    (s : Sent) :
    (writeBack cache model text embedding).run s =
      .ok () { s with writes := s.writes ++ [⟨text, model, embedding⟩] } := by
  have hbody : ∀ result : Except AppException Unit,
      (tryExcept
        (do
          modify fun s : Sent => { s with writes := s.writes ++ [⟨text, model, embedding⟩] }
          ofExcept result)
        fun _ => pure ()).run s =
        .ok () { s with writes := s.writes ++ [⟨text, model, embedding⟩] } := by
    intro result
    cases result with
    | ok _ => rfl
    | error e => rfl
  exact hbody _

/-- The writes of some fresh embeddings. -/
def writesOf (cache : Option RedisCache) (model : String)
    (fresh : List ((ℕ × String) × EmbeddingVector)) : List CacheWrite :=
  if cache.isNone then [] else fresh.map fun pair => ⟨pair.1.2, model, pair.2⟩

theorem run_scatter (cache : Option RedisCache) (model : String)
    (results : List (Option EmbeddingVector))
    (fresh : List ((ℕ × String) × EmbeddingVector)) (s : Sent) :
    (scatter cache model results fresh).run s =
      .ok (fill results fresh)
        { s with writes := s.writes ++ writesOf cache model fresh } := by
  induction fresh generalizing results s with
  | nil =>
      cases cache with
      | none => simp [scatter, fill, writesOf]
      | some cache => simp [scatter, fill, writesOf]
  | cons pair fresh ih =>
      unfold scatter at ih ⊢
      rw [List.foldlM_cons, fill, List.foldl_cons, ← fill]
      cases cache with
      | none => exact ih _ s
      | some cache =>
          simp only [EStateM.run_bind, run_writeBack, EStateM.run_pure]
          rw [ih]
          simp [writesOf]

/-- The requests of a batch whose texts have been separated. -/
def requestsOf (model : String) (separated : Separated) : List EmbeddingsRequest :=
  if separated.uncached.isEmpty then [] else [⟨model, separated.uncached.map Prod.snd⟩]

/-- Call by call a batch returns what it does as a whole, after the same
writes and one request with the uncached texts, or none. -/
theorem run_embedBatchCalls_of_ok {separated : Separated}
    {results : List (Option EmbeddingVector)} {writes : List CacheWrite}
    (hseparated : separate (cache.map RedisCache.getEmbedding) settings.embeddingModel 0 texts =
      .ok separated)
    (h : embedBatch settings (cache.map RedisCache.getEmbedding) create texts =
      .ok (results, writes)) (s : Sent) :
    (embedBatchCalls settings cache create texts).run s = .ok results
      { requests := s.requests ++ requestsOf settings.embeddingModel separated
        writes := s.writes ++ writes } := by
  unfold embedBatch at h
  unfold embedBatchCalls
  split at h
  next hempty =>
    cases h
    obtain rfl := List.isEmpty_iff.mp hempty
    cases hseparated
    simp [requestsOf]
  next hne =>
    obtain ⟨separated', hsame, h⟩ := except_bind_eq_ok_iff.mp h
    rw [mapError_eq_ok_iff, hseparated] at hsame
    obtain rfl := Except.ok.inj hsame
    rw [hseparated, if_neg hne]
    split at h
    next hcached =>
      cases h
      have hnone : separated.uncached = [] := List.isEmpty_iff.mp hcached
      simp [Except.mapError, hnone, requestsOf]
    next hasked =>
      obtain ⟨embeddings, hcall, h⟩ := except_bind_eq_ok_iff.mp h
      cases h
      have hsome : separated.uncached ≠ [] := mt List.isEmpty_iff.mpr hasked
      simp [Except.mapError, hsome, hcall, run_scatter, requestsOf, writesOf]

theorem exists_run_embedBatchCalls_of_error {e : AppException}
    (h : embedBatch settings (cache.map RedisCache.getEmbedding) create texts = .error e)
    (s : Sent) :
    ∃ s', (embedBatchCalls settings cache create texts).run s = .error (.exception e) s' := by
  unfold embedBatch at h
  unfold embedBatchCalls
  split at h
  next => cases h
  next hne =>
    rw [if_neg hne]
    cases hseparated : separate (cache.map RedisCache.getEmbedding) settings.embeddingModel 0
        texts with
    | error e' =>
        rw [hseparated] at h
        cases h
        exact ⟨s, rfl⟩
    | ok separated =>
        rw [hseparated] at h
        by_cases hcached : separated.uncached = []
        · simp [Except.mapError, bind, Except.bind, hcached, pure, Except.pure] at h
        · cases hcall : callOpenai settings create (separated.uncached.map Prod.snd)
              settings.embeddingModel with
          | error e' =>
              simp [Except.mapError, bind, Except.bind, hcached, hcall] at h
              subst h
              refine ⟨{ s with requests := s.requests ++ [⟨settings.embeddingModel,
                separated.uncached.map Prod.snd⟩] }, ?_⟩
              simp [Except.mapError, hcached, hcall]
              rfl
          | ok embeddings =>
              simp [Except.mapError, bind, Except.bind, hcached, hcall, pure, Except.pure] at h

end Calls

/-! ## Which texts are sent -/

/-- The cache has nothing to answer for the `i`-th text. -/
def Missed (cache : Option GetEmbedding) (model : String) (i : ℕ) (text : String) : Bool :=
  match cache with
  | none => true
  | some getEmbedding =>
      match getEmbedding i text model with
      | .ok (some _) => false
      | _ => true

/-- The texts the cache misses, with their indices from `i` on. -/
def missed (cache : Option GetEmbedding) (model : String) (i : ℕ) (texts : List String) :
    List (ℕ × String) :=
  ((texts.zipIdx i).filter fun text => Missed cache model text.2 text.1).map Prod.swap

section Separate

variable {cache : Option GetEmbedding} {model : String} {i : ℕ} {texts : List String}
  {separated : Separated}

theorem uncached_of_separate (h : separate cache model i texts = .ok separated) :
    separated.uncached = missed cache model i texts := by
  induction texts generalizing i separated with
  | nil =>
      cases h
      rfl
  | cons text rest ih =>
      simp only [separate, except_bind_eq_ok_iff] at h
      obtain ⟨cached, hcached, others, hothers, hseparated⟩ := h
      cases hseparated
      have hmissed : Missed cache model i text = !cached.isSome := by
        cases cache with
        | none =>
            cases hcached
            rfl
        | some getEmbedding =>
            have hanswer : getEmbedding i text model = .ok cached := hcached
            simp only [Missed, hanswer]
            cases cached with
            | none => rfl
            | some embedding => rfl
      simp only [missed, List.zipIdx_cons, List.filter_cons, hmissed]
      cases cached with
      | none => simpa [missed] using ih hothers
      | some embedding => simpa [missed] using ih hothers

theorem getElem?_of_mem_missed {k : ℕ} {text : String}
    (h : (k, text) ∈ missed cache model 0 texts) : texts[k]? = some text := by
  simp only [missed, List.mem_map, List.mem_filter] at h
  obtain ⟨⟨text', k'⟩, ⟨hmem, -⟩, hswap⟩ := h
  cases hswap
  exact List.mem_zipIdx_iff_getElem?.mp hmem

/-- A result of the loop is what the cache answered for the text. -/
theorem getElem?_results (h : separate cache model i texts = .ok separated) {k : ℕ}
    {embedding : EmbeddingVector} (hk : separated.results[k]? = some (some embedding)) :
    ∃ getEmbedding ∈ cache, ∃ text, texts[k]? = some text ∧
      getEmbedding (i + k) text model = .ok (some embedding) := by
  induction texts generalizing i separated k with
  | nil =>
      cases h
      cases hk
  | cons text rest ih =>
      simp only [separate, except_bind_eq_ok_iff] at h
      obtain ⟨cached, hcached, others, hothers, hseparated⟩ := h
      cases hseparated
      cases k with
      | zero =>
          cases hk
          cases cache with
          | none => cases hcached
          | some getEmbedding => exact ⟨getEmbedding, rfl, text, rfl, hcached⟩
      | succ k =>
          obtain ⟨getEmbedding, hcache, found, hfound, hanswer⟩ := ih hothers hk
          refine ⟨getEmbedding, hcache, found, hfound, ?_⟩
          rwa [show i + (k + 1) = i + 1 + k by omega]

/-- The loop ends if and only if no lookup raises. -/
theorem separate_returns_iff :
    (∃ separated, separate cache model i texts = .ok separated) ↔
      ∀ getEmbedding ∈ cache, ∀ (k : ℕ) (text : String), texts[k]? = some text →
        ∃ cached, getEmbedding (i + k) text model = .ok cached := by
  induction texts generalizing i with
  | nil => exact iff_of_true ⟨_, rfl⟩ (by simp)
  | cons text rest ih =>
      simp only [separate, except_bind_eq_ok_iff]
      constructor
      · rintro ⟨separated, cached, hcached, others, hothers, -⟩ getEmbedding rfl k found hfound
        cases k with
        | zero =>
            obtain rfl : text = found := Option.some.inj hfound
            exact ⟨cached, hcached⟩
        | succ k =>
            rw [show i + (k + 1) = i + 1 + k by omega]
            exact ih.mp ⟨others, hothers⟩ getEmbedding rfl k found hfound
      · intro hall
        obtain ⟨others, hothers⟩ := ih.mpr fun getEmbedding hcache k found hfound => by
          have hnext := hall getEmbedding hcache (k + 1) found hfound
          rwa [show i + (k + 1) = i + 1 + k by omega] at hnext
        cases cache with
        | none => exact ⟨_, none, rfl, others, hothers, rfl⟩
        | some getEmbedding =>
            obtain ⟨cached, hcached⟩ := hall getEmbedding rfl 0 text rfl
            exact ⟨_, cached, hcached, others, hothers, rfl⟩

end Separate

/-! ## Where the answers are put -/

/-- What is in a filled list was there before or is one of the fresh
embeddings. -/
theorem getElem?_fill {results : List (Option EmbeddingVector)}
    {fresh : List ((ℕ × String) × EmbeddingVector)} {k : ℕ} {embedding : EmbeddingVector}
    (h : (fill results fresh)[k]? = some (some embedding)) :
    results[k]? = some (some embedding) ∨ ∃ text, ((k, text), embedding) ∈ fresh := by
  induction fresh generalizing results with
  | nil => exact Or.inl h
  | cons pair fresh ih =>
      rcases ih h with hset | ⟨text, htext⟩
      · by_cases hk : pair.1.1 = k
        · subst hk
          rw [List.getElem?_set] at hset
          split at hset
          · split at hset
            · cases hset
              exact Or.inr ⟨pair.1.2, List.mem_cons_self⟩
            · cases hset
          · exact Or.inl hset
        · rw [List.getElem?_set_ne hk] at hset
          exact Or.inl hset
      · exact Or.inr ⟨text, List.mem_cons_of_mem _ htext⟩

/-- A batch whose lookups and request succeed returns the filled list. -/
theorem exists_embedBatch {settings : OpenAISettings} {cache : Option GetEmbedding}
    {create : EmbeddingsRequest → Except SdkError (List (List ℚ))} {texts : List String}
    {separated : Separated} {embeddings : List EmbeddingVector}
    (h : separate cache settings.embeddingModel 0 texts = .ok separated)
    (hcall : callOpenai settings create (separated.uncached.map Prod.snd)
      settings.embeddingModel = .ok embeddings) :
    ∃ writes, embedBatch settings cache create texts =
      .ok (fill separated.results (separated.uncached.zip embeddings), writes) := by
  unfold embedBatch
  split
  next hempty =>
    obtain rfl := List.isEmpty_iff.mp hempty
    cases h
    exact ⟨[], rfl⟩
  next hne =>
    rw [h]
    by_cases hnone : separated.uncached = []
    · refine ⟨[], except_bind_eq_ok_iff.mpr ⟨separated, rfl, ?_⟩⟩
      rw [if_pos (List.isEmpty_iff.mpr hnone), hnone]
      rfl
    · let writes : List CacheWrite := if cache.isNone then [] else
        (separated.uncached.zip embeddings).map fun pair =>
          ⟨pair.1.2, settings.embeddingModel, pair.2⟩
      refine ⟨writes, except_bind_eq_ok_iff.mpr ⟨separated, rfl, ?_⟩⟩
      rw [if_neg (mt List.isEmpty_iff.mp hnone)]
      exact except_bind_eq_ok_iff.mpr ⟨embeddings, hcall, rfl⟩

/-! ## The right embeddings -/

/-- An embedding function of the configured model: it has the configured
number of dimensions. -/
structure EmbeddingFunction (settings : OpenAISettings) where
  values : String → List ℚ
  dimensions : ∀ text, ((values text).length : ℤ) = settings.embeddingDimensions

/-- The embedding of a text. -/
def EmbeddingFunction.embed {settings : OpenAISettings} (E : EmbeddingFunction settings)
    (text : String) : EmbeddingVector :=
  ⟨E.values text, settings.embeddingModel, settings.embeddingDimensions, E.dimensions text⟩

/-- No lookup of a batch raises, and what one finds is the embedding of its
text. -/
def CacheRight {settings : OpenAISettings} (E : EmbeddingFunction settings)
    (cache : Option RedisCache) (texts : List String) : Prop :=
  ∀ redis ∈ cache, ∀ (i : ℕ) (text : String), texts[i]? = some text →
    ∃ cached, redis.getEmbedding i text settings.embeddingModel = .ok cached ∧
      ∀ embedding ∈ cached, embedding = E.embed text

/-- The API answers every request with the embeddings of its texts. -/
def ApiRight {settings : OpenAISettings} (E : EmbeddingFunction settings)
    (create : EmbeddingsRequest → Except SdkError (List (List ℚ))) : Prop :=
  ∀ input, create ⟨settings.embeddingModel, input⟩ = .ok (input.map E.values)

section Right

variable {settings : OpenAISettings} {E : EmbeddingFunction settings}
  {cache : Option RedisCache} {create : EmbeddingsRequest → Except SdkError (List (List ℚ))}
  {texts : List String}

theorem callOpenai_eq_ok (hcreate : ApiRight E create) (input : List String) :
    callOpenai settings create input settings.embeddingModel = .ok (input.map E.embed) := by
  have hmap : ((input.map E.values).mapM fun embedding => EmbeddingVector.construct embedding
      settings.embeddingModel settings.embeddingDimensions) = .ok (input.map E.embed) := by
    induction input with
    | nil => rfl
    | cons text rest ih =>
        rw [List.map_cons, List.mapM_cons, ih, EmbeddingVector.construct,
          dif_pos (E.dimensions text)]
        rfl
  unfold callOpenai
  rw [hcreate input]
  dsimp only
  rw [hmap]
  rfl

/-- The gaps of a right cache filled with the right answers. -/
theorem fill_eq (hcache : CacheRight E cache texts) {separated : Separated}
    (h : separate (cache.map RedisCache.getEmbedding) settings.embeddingModel 0 texts =
      .ok separated) :
    fill separated.results (separated.uncached.zip
        ((separated.uncached.map Prod.snd).map E.embed)) =
      texts.map fun text => some (E.embed text) := by
  have hlists := lists_of_separate h
  let filled := fill separated.results (separated.uncached.zip
    ((separated.uncached.map Prod.snd).map E.embed))
  have hfilled : none ∉ filled := (all_filled_iff hlists _).mpr (by simp)
  have hlength : filled.length = texts.length := (length_fill _ _).trans hlists.length
  apply List.ext_getElem?
  intro k
  rw [List.getElem?_map]
  cases htext : texts[k]? with
  | none =>
      rw [List.getElem?_eq_none_iff, ← hlength] at htext
      simpa [filled] using htext
  | some text =>
      obtain ⟨hk, -⟩ := List.getElem?_eq_some_iff.mp htext
      obtain ⟨result, hresult⟩ : ∃ result, filled[k]? = some result :=
        ⟨_, List.getElem?_eq_getElem (hlength ▸ hk)⟩
      refine hresult.trans ?_
      cases result with
      | none => exact absurd (List.mem_of_getElem? hresult) hfilled
      | some embedding =>
          rcases getElem?_fill hresult with hcached | ⟨found, hfresh⟩
          · obtain ⟨getEmbedding, hmem, found, hfound, hanswer⟩ := getElem?_results h hcached
            obtain ⟨redis, hredis, rfl⟩ := Option.mem_map.mp hmem
            obtain rfl : found = text := Option.some.inj (hfound.symm.trans htext)
            obtain ⟨cached, hget, hright⟩ := hcache redis hredis k found htext
            rw [zero_add, hget] at hanswer
            rw [hright embedding (Except.ok.inj hanswer)]
            rfl
          · have hzip : separated.uncached.zip
                ((separated.uncached.map Prod.snd).map E.embed) =
                  separated.uncached.map fun pair => (pair, E.embed pair.2) := by
              rw [List.map_map]
              simpa using List.zip_map' (f := id) (g := E.embed ∘ Prod.snd)
                (l := separated.uncached)
            rw [hzip, List.mem_map] at hfresh
            obtain ⟨pair, hmem, hpair⟩ := hfresh
            cases hpair
            rw [uncached_of_separate h] at hmem
            have hfound := getElem?_of_mem_missed hmem
            obtain rfl : found = text := Option.some.inj (hfound.symm.trans htext)
            rfl

/-- A batch returns the embedding of every text, and the API is sent the
texts that missed the cache, if there are any. -/
theorem embedBatch_right (settings : OpenAISettings) (E : EmbeddingFunction settings)
    (cache : Option RedisCache)
    (create : EmbeddingsRequest → Except SdkError (List (List ℚ))) (texts : List String)
    (hcache : CacheRight E cache texts) (hcreate : ApiRight E create) :
    ∃ sent : Sent,
      (embedBatchCalls settings cache create texts).run {} =
          .ok (texts.map fun text => some (E.embed text)) sent ∧
        sent.requests =
          if missed (cache.map RedisCache.getEmbedding) settings.embeddingModel 0 texts = []
          then []
          else [⟨settings.embeddingModel, (missed (cache.map RedisCache.getEmbedding)
            settings.embeddingModel 0 texts).map Prod.snd⟩] := by
  obtain ⟨separated, hseparated⟩ := separate_returns_iff.mpr
    fun getEmbedding hmem k text htext => by
      obtain ⟨redis, hredis, rfl⟩ := Option.mem_map.mp hmem
      obtain ⟨cached, hget, -⟩ := hcache redis hredis k text htext
      exact ⟨cached, (zero_add k).symm ▸ hget⟩
  obtain ⟨writes, hbatch⟩ := exists_embedBatch hseparated (callOpenai_eq_ok hcreate _)
  rw [fill_eq hcache hseparated] at hbatch
  refine ⟨_, run_embedBatchCalls_of_ok hseparated hbatch {}, ?_⟩
  rw [← uncached_of_separate hseparated]
  simp [requestsOf]

end Right

/-- A cache that knows the embedding of one text and cannot be written. -/
def readOnlyCache : RedisCache where
  get := fun _ key =>
    .ok (if key = "embed:text-embedding-3-small:90e63d85fa1ab2c8" then
      some ("\x7b\"values\": [7.0], \"model\": \"text-embedding-3-small\", " ++
        "\"dimensions\": 1\x7d").toUTF8
    else none)
  set := fun _ _ _ _ =>
    .error (.other "ReadOnlyError" "You can't write against a read only replica.")
  hexdigest := fun text =>
    if text = "minutes" then "90e63d85fa1ab2c8ed65222f3ebd794b1e524b4b7cf84bec451542d0451b2985"
    else "df71fb0bd94cb72795bae4dce7bb6bd33efa6f7aa7ad11d78bfd6f734ca30e0b"
  loads := fun _ => .ok (.dict [("values", .list [.float 7]),
    ("model", .str "text-embedding-3-small"), ("dimensions", .int 1)])
  floatField := fun
    | .float q => .ok q
    | _ => .error "Input should be a valid number"
  intField := fun
    | .int n => .ok n
    | _ => .error "Input should be a valid integer"

/-- The number of letters, as a vector. -/
def lengthEmbedding : EmbeddingFunction { embeddingDimensions := 1 } where
  values := fun text => [(text.length : ℚ)]
  dimensions := fun _ => rfl

theorem embedBatch_right_minutes :
    ∃ sent : Sent,
      (embedBatchCalls { embeddingDimensions := 1 } (some readOnlyCache)
        (fun request => .ok (request.input.map lengthEmbedding.values))
        ["agenda", "minutes", "agenda"]).run {} =
          .ok [some (lengthEmbedding.embed "agenda"), some (lengthEmbedding.embed "minutes"),
            some (lengthEmbedding.embed "agenda")] sent ∧
        sent.requests = [⟨"text-embedding-3-small", ["agenda", "agenda"]⟩] := by
  have hcache : CacheRight lengthEmbedding (some readOnlyCache)
      ["agenda", "minutes", "agenda"] := by
    intro redis hredis i text htext
    cases hredis
    have hagenda : ∀ i, readOnlyCache.getEmbedding i "agenda" "text-embedding-3-small" =
        .ok none := fun _ => rfl
    have hminutes : readOnlyCache.getEmbedding 1 "minutes" "text-embedding-3-small" =
        .ok (some (lengthEmbedding.embed "minutes")) := rfl
    match i with
    | 0 =>
        cases htext
        exact ⟨none, hagenda 0, by simp⟩
    | 1 =>
        cases htext
        exact ⟨_, hminutes, by simp⟩
    | 2 =>
        cases htext
        exact ⟨none, hagenda 2, by simp⟩
    | i + 3 => cases htext
  obtain ⟨sent, hrun, hrequests⟩ := embedBatch_right { embeddingDimensions := 1 } lengthEmbedding
    (some readOnlyCache) (fun request => .ok (request.input.map lengthEmbedding.values))
    ["agenda", "minutes", "agenda"] hcache fun _ => rfl
  exact ⟨sent, hrun, hrequests⟩

/-! ## Calls that return -/

/-- The API answers every request with one embedding of the configured
dimension for each text. -/
def ApiSucceeds (settings : OpenAISettings)
    (create : EmbeddingsRequest → Except SdkError (List (List ℚ))) : Prop :=
  ∀ input, ∃ data, create ⟨settings.embeddingModel, input⟩ = .ok data ∧
    data.length = input.length ∧
      ∀ values ∈ data, (values.length : ℤ) = settings.embeddingDimensions

section Returns

variable {settings : OpenAISettings} {cache : Option RedisCache}
  {create : EmbeddingsRequest → Except SdkError (List (List ℚ))} {texts : List String}

/-- The call returns one embedding for each text. -/
def ReturnsAll (settings : OpenAISettings) (cache : Option RedisCache)
    (create : EmbeddingsRequest → Except SdkError (List (List ℚ)))
    (texts : List String) : Prop :=
  ∃ (embeddings : List EmbeddingVector) (sent : Sent),
    (embedBatchCalls settings cache create texts).run {} = .ok (embeddings.map some) sent ∧
      embeddings.length = texts.length

theorem exists_mapM_construct {data : List (List ℚ)} {model : String} {dimensions : ℤ}
    (h : ∀ values ∈ data, (values.length : ℤ) = dimensions) :
    ∃ embeddings, (data.mapM fun values => EmbeddingVector.construct values model dimensions) =
      .ok embeddings := by
  induction data with
  | nil => exact ⟨[], rfl⟩
  | cons values rest ih =>
      obtain ⟨hvalues, hrest⟩ := List.forall_mem_cons.mp h
      obtain ⟨embeddings, hembeddings⟩ := ih hrest
      refine ⟨⟨values, model, dimensions, hvalues⟩ :: embeddings, ?_⟩
      rw [List.mapM_cons, hembeddings, EmbeddingVector.construct, dif_pos hvalues]
      rfl

theorem exists_callOpenai (h : ApiSucceeds settings create) (input : List String) :
    ∃ embeddings, callOpenai settings create input settings.embeddingModel = .ok embeddings ∧
      embeddings.length = input.length := by
  obtain ⟨data, hdata, hlength, hdimensions⟩ := h input
  obtain ⟨embeddings, hembeddings⟩ := exists_mapM_construct hdimensions
  refine ⟨embeddings, ?_, (length_of_mapM_ok hembeddings).trans hlength⟩
  unfold callOpenai
  rw [hdata]
  dsimp only
  rw [hembeddings]
  rfl

theorem exists_map_some {α : Type} {xs : List (Option α)} (h : none ∉ xs) :
    ∃ ys : List α, xs = ys.map some := by
  induction xs with
  | nil => exact ⟨[], rfl⟩
  | cons x xs ih =>
      rw [List.mem_cons, not_or] at h
      obtain ⟨y, rfl⟩ := Option.ne_none_iff_exists'.mp (Ne.symm h.1)
      obtain ⟨ys, rfl⟩ := ih h.2
      exact ⟨y :: ys, rfl⟩

/-- Where the lookups end, so does the call. -/
theorem returnsAll_of_separate (hcreate : ApiSucceeds settings create) {separated : Separated}
    (h : separate (cache.map RedisCache.getEmbedding) settings.embeddingModel 0 texts =
      .ok separated) :
    ReturnsAll settings cache create texts := by
  have hlists := lists_of_separate h
  obtain ⟨fresh, hcall, hlength⟩ := exists_callOpenai hcreate (separated.uncached.map Prod.snd)
  obtain ⟨writes, hbatch⟩ := exists_embedBatch h hcall
  have hfilled : none ∉ fill separated.results (separated.uncached.zip fresh) :=
    (all_filled_iff hlists fresh).mpr (by rw [hlength, List.length_map])
  obtain ⟨embeddings, hembeddings⟩ := exists_map_some hfilled
  refine ⟨embeddings, _, hembeddings ▸ run_embedBatchCalls_of_ok h hbatch {}, ?_⟩
  rw [← List.length_map (f := some), ← hembeddings, length_fill, hlists.length]

/-- A call that returns has looked up all its texts. -/
theorem exists_separate_of_returnsAll (h : ReturnsAll settings cache create texts) :
    ∃ separated, separate (cache.map RedisCache.getEmbedding) settings.embeddingModel 0 texts =
      .ok separated := by
  obtain ⟨embeddings, sent, hrun, -⟩ := h
  cases hbatch : embedBatch settings (cache.map RedisCache.getEmbedding) create texts with
  | error e =>
      obtain ⟨s', herror⟩ := exists_run_embedBatchCalls_of_error hbatch {}
      rw [herror] at hrun
      cases hrun
  | ok result =>
      unfold embedBatch at hbatch
      split at hbatch
      next hempty => exact ⟨⟨[], []⟩, List.isEmpty_iff.mp hempty ▸ rfl⟩
      next hne =>
        obtain ⟨separated, hseparated, -⟩ := except_bind_eq_ok_iff.mp hbatch
        exact ⟨separated, mapError_eq_ok_iff.mp hseparated⟩

/-- With an API that succeeds, a call returns one embedding for each text if
and only if all its reads are clean, whatever becomes of its writes. -/
theorem returnsAll_iff (settings : OpenAISettings) (cache : Option RedisCache)
    (create : EmbeddingsRequest → Except SdkError (List (List ℚ)))
    (hcreate : ApiSucceeds settings create) (texts : List String) :
    ReturnsAll settings cache create texts ↔
      ∀ redis ∈ cache, ∀ (i : ℕ) (text : String), texts[i]? = some text →
        redis.ReadsClean i text settings.embeddingModel := by
  have hlookups : (∃ separated, separate (cache.map RedisCache.getEmbedding)
      settings.embeddingModel 0 texts = .ok separated) ↔
        ∀ redis ∈ cache, ∀ (i : ℕ) (text : String), texts[i]? = some text →
          redis.ReadsClean i text settings.embeddingModel := by
    rw [separate_returns_iff]
    simp only [Option.mem_map, forall_exists_index, and_imp, forall_apply_eq_imp_iff₂, zero_add,
      RedisCache.getEmbedding_returns_iff]
  rw [← hlookups]
  exact ⟨exists_separate_of_returnsAll, fun ⟨_, h⟩ => returnsAll_of_separate hcreate h⟩

end Returns

/-- A cache that cannot be reached. -/
def unreachableCache : RedisCache :=
  { readOnlyCache with
    get := fun _ _ => .error (.other "ConnectionError" "Connection refused.") }

theorem apiSucceeds_length : ApiSucceeds { embeddingDimensions := 1 }
    fun request => .ok (request.input.map lengthEmbedding.values) := by
  refine fun input => ⟨_, rfl, List.length_map _, fun values hvalues => ?_⟩
  obtain ⟨text, -, rfl⟩ := List.mem_map.mp hvalues
  exact lengthEmbedding.dimensions text

theorem returnsAll_iff_minutes :
    ReturnsAll { embeddingDimensions := 1 } (some readOnlyCache)
      (fun request => .ok (request.input.map lengthEmbedding.values)) ["minutes"] := by
  refine (returnsAll_iff _ _ _ apiSucceeds_length _).mpr ?_
  intro redis hredis i text htext
  cases hredis
  match i with
  | 0 =>
      cases htext
      exact RedisCache.getEmbedding_returns_iff.mp ⟨some (lengthEmbedding.embed "minutes"), rfl⟩
  | i + 1 => cases htext

/-- Where Redis cannot be reached, the batch fails, although the API does
not. -/
theorem not_returnsAll_unreachable :
    ¬ ∀ (settings : OpenAISettings) (cache : Option RedisCache)
      (create : EmbeddingsRequest → Except SdkError (List (List ℚ))) (texts : List String),
        ApiSucceeds settings create → ReturnsAll settings cache create texts := by
  intro hall
  obtain ⟨embeddings, sent, hrun, -⟩ :=
    hall _ (some unreachableCache) _ ["minutes"] apiSucceeds_length
  cases hrun

end OpenAIEmbeddingService
end AiBackend

import AiBackend.Domain.SearchResult
import AiBackend.Infrastructure.OpenAI
import AiBackend.Support.JsonText
import AiBackend.Support.Program

/-!
# The embedding cache

The embeddings of `RedisCache` and the calls with which
`OpenAIEmbeddingService` uses it.  What Redis does is its own business, call
by call; the hash, `json.loads` on bytes and pydantic's conversions are
parameters.
-/

namespace AiBackend

open Program Python

structure RedisCache where
  /-- What the `n`-th `get` of a call answers. -/
  get : ℕ → String → Except PyExc (Option ByteArray)
  /-- What comes of the `n`-th `set` of a call. -/
  set : ℕ → String → ByteArray → ℕ → Except PyExc Unit
  /-- `hashlib.sha256(text.encode("utf-8")).hexdigest()`. -/
  hexdigest : String → String
  loads : ByteArray → Except PyExc Json
  /-- The value a field declared `float` takes, or the reason why it takes
  none. -/
  floatField : Json → Except String ℚ
  intField : Json → Except String ℤ

namespace RedisCache

/-- The type's name in messages. -/
def typeName : Json → String
  | .null => "NoneType"
  | .bool _ => "bool"
  | .int _ => "int"
  | .float _ => "float"
  | .str _ => "str"
  | .list _ => "list"
  | .dict _ => "dict"

/-- `data[key]`. -/
def item (data : Json) (key : String) : Except PyExc Json :=
  match data with
  | .dict entries =>
      match (Dict.ofPairs entries).get? key with
      | some value => .ok value
      | none => .error (.other "KeyError" ("'" ++ key ++ "'"))
  | .list _ => .error (.typeError "list indices must be integers or slices, not str")
  | .str _ => .error (.typeError "string indices must be integers, not 'str'")
  | other => .error (.typeError ("'" ++ typeName other ++ "' object is not subscriptable"))

/-- `tuple(value)`. -/
def tupleOf : Json → Except PyExc (List Json)
  | .list xs => .ok xs
  | .str s => .ok (s.toList.map fun c => .str (String.singleton c))
  | .dict entries => .ok ((Dict.ofPairs entries).items.map fun entry => .str entry.1)
  | other => .error (.typeError ("'" ++ typeName other ++ "' object is not iterable"))

/-- What `get_json` takes for a miss. -/
def isCaught : PyExc → Bool
  | .typeError _ => true
  | .other className _ => className = "JSONDecodeError"
  | _ => false

variable (cache : RedisCache)

/-- `_embedding_key`. -/
def embeddingKey (text model : String) : String :=
  "embed:" ++ model ++ ":" ++ String.ofList ((cache.hexdigest text).toList.take 16)

/-- `get_json`; `None` is `null`. -/
def getJson (n : ℕ) (key : String) : Except PyExc Json := do
  match ← cache.get n key with
  | none => pure .null
  | some raw =>
      match cache.loads raw with
      | .ok result => pure result
      | .error e => if isCaught e then pure .null else throw e

/-- What pydantic rejects in a cached embedding. -/
def errors (values : List Json) (model dimensions : Json) : List (String × String) :=
  (values.zipIdx.filterMap fun value =>
    match cache.floatField value.1 with
    | .ok _ => none
    | .error reason => some ("values." ++ toString value.2, reason)) ++
  (match SearchResult.strField model with
    | some _ => []
    | none => [("model", "Input should be a valid string")]) ++
  (match cache.intField dimensions with
    | .ok _ => []
    | .error reason => [("dimensions", reason)])

/-- `EmbeddingVector(...)` on cached data. -/
def construct (values : List Json) (model dimensions : Json) : Except PyExc EmbeddingVector :=
  match values.mapM cache.floatField, SearchResult.strField model,
      cache.intField dimensions with
  | .ok floats, some name, .ok n => EmbeddingVector.construct floats name n
  | _, _, _ => .error (.validationError "EmbeddingVector" (cache.errors values model dimensions))

/-- The embedding of cached data. -/
def embeddingOf (data : Json) : Except PyExc EmbeddingVector := do
  let values ← item data "values"
  let items ← tupleOf values
  let model ← item data "model"
  let dimensions ← item data "dimensions"
  cache.construct items model dimensions

/-- `get_embedding`. -/
def getEmbedding (n : ℕ) (text model : String) : Except PyExc (Option EmbeddingVector) := do
  match ← cache.getJson n (cache.embeddingKey text model) with
  | .null => pure none
  | data => do
      let embedding ← cache.embeddingOf data
      pure (some embedding)

/-- `set_embedding`. -/
def setEmbedding (n : ℕ) (text model : String) (embedding : EmbeddingVector) :
    Except PyExc Unit := do
  let raw ← JsonText.dumps (.dict [
    ("values", .list (embedding.values.map Json.float)),
    ("model", .str embedding.model),
    ("dimensions", .int embedding.dimensions)])
  cache.set n (cache.embeddingKey text model) raw.toUTF8 86400

/-! ## When a lookup returns -/

/-- What `json.loads` may come to for a lookup to return: an exception that is
caught, `null`, or an object with the fields of an embedding. -/
inductive Readable : Except PyExc Json → Prop where
  | notJson {e : PyExc} : isCaught e → Readable (.error e)
  | null : Readable (.ok .null)
  | embedding {entries : List (String × Json)} {values dimensions : Json} {model : String}
      {items : List Json} {floats : List ℚ} :
      (Dict.ofPairs entries).get? "values" = some values →
      tupleOf values = .ok items → items.mapM cache.floatField = .ok floats →
      (Dict.ofPairs entries).get? "model" = some (.str model) →
      (Dict.ofPairs entries).get? "dimensions" = some dimensions →
      cache.intField dimensions = .ok (floats.length : ℤ) →
      Readable (.ok (.dict entries))

/-- Redis answers the `n`-th read, with nothing or with something readable. -/
def ReadsClean (n : ℕ) (text model : String) : Prop :=
  ∃ stored, cache.get n (cache.embeddingKey text model) = .ok stored ∧
    ∀ raw ∈ stored, cache.Readable (cache.loads raw)

variable {cache}

theorem item_eq_ok_iff {data value : Json} {key : String} :
    item data key = .ok value ↔
      ∃ entries, data = .dict entries ∧ (Dict.ofPairs entries).get? key = some value := by
  cases data with
  | dict entries => cases h : (Dict.ofPairs entries).get? key with
    | none => simp [item, h]
    | some found => simp [item, h]
  | _ => simp [item]

theorem strField_eq_some_iff {value : Json} {text : String} :
    SearchResult.strField value = some text ↔ value = .str text := by
  cases value with
  | str s => simp [SearchResult.strField]
  | _ => simp [SearchResult.strField]

theorem construct_returns_iff {items : List Json} {model dimensions : Json} :
    (∃ embedding, cache.construct items model dimensions = .ok embedding) ↔
      ∃ floats name, items.mapM cache.floatField = .ok floats ∧ model = .str name ∧
        cache.intField dimensions = .ok (floats.length : ℤ) := by
  unfold construct
  constructor
  · rintro ⟨embedding, h⟩
    split at h
    next floats name n hfloats hname hn =>
      unfold EmbeddingVector.construct at h
      split at h
      next hlength => exact ⟨floats, name, hfloats, strField_eq_some_iff.mp hname, hlength ▸ hn⟩
      next => cases h
    next => cases h
  · rintro ⟨floats, name, hfloats, rfl, hn⟩
    rw [hfloats, hn]
    exact ⟨_, dif_pos rfl⟩

/-- What is found, unless it is `null`, is read as an embedding. -/
theorem readable_ok_iff {data : Json} (hdata : data ≠ .null) :
    cache.Readable (.ok data) ↔ ∃ embedding, cache.embeddingOf data = .ok embedding := by
  simp only [embeddingOf, except_bind_eq_ok_iff]
  constructor
  · intro h
    cases h with
    | null => exact absurd rfl hdata
    | embedding hvalues hitems hfloats hmodel hdimensions hn =>
        obtain ⟨embedding, hembedding⟩ :=
          construct_returns_iff.mpr ⟨_, _, hfloats, rfl, hn⟩
        exact ⟨embedding, _, item_eq_ok_iff.mpr ⟨_, rfl, hvalues⟩, _, hitems, _,
          item_eq_ok_iff.mpr ⟨_, rfl, hmodel⟩, _, item_eq_ok_iff.mpr ⟨_, rfl, hdimensions⟩,
          hembedding⟩
  · rintro ⟨embedding, values, hvalues, items, hitems, model, hmodel, dimensions, hdimensions,
      hembedding⟩
    obtain ⟨entries, rfl, hfirst⟩ := item_eq_ok_iff.mp hvalues
    obtain ⟨_, hsame, hsecond⟩ := item_eq_ok_iff.mp hmodel
    cases hsame
    obtain ⟨_, hsame, hthird⟩ := item_eq_ok_iff.mp hdimensions
    cases hsame
    obtain ⟨floats, name, hfloats, rfl, hn⟩ := construct_returns_iff.mp ⟨_, hembedding⟩
    exact .embedding hfirst hitems hfloats hsecond hthird hn

/-- The data of a lookup: none, what Redis holds, or an exception. -/
theorem getJson_returns_iff {n : ℕ} {key : String} {data : Json} :
    cache.getJson n key = .ok data ↔
      cache.get n key = .ok none ∧ data = .null ∨
        ∃ raw, cache.get n key = .ok (some raw) ∧ (cache.loads raw = .ok data ∨
          data = .null ∧ ∃ e, cache.loads raw = .error e ∧ isCaught e) := by
  unfold getJson
  rw [except_bind_eq_ok_iff]
  constructor
  · rintro ⟨stored, hstored, h⟩
    cases stored with
    | none =>
        cases h
        exact Or.inl ⟨hstored, rfl⟩
    | some raw =>
        refine Or.inr ⟨raw, hstored, ?_⟩
        dsimp only at h
        split at h
        next result hresult =>
          cases h
          exact Or.inl hresult
        next e he =>
          split at h
          next hcaught =>
            cases h
            exact Or.inr ⟨rfl, e, he, hcaught⟩
          next => cases h
  · rintro (⟨hnone, rfl⟩ | ⟨raw, hraw, hdata | ⟨rfl, e, he, hcaught⟩⟩)
    · exact ⟨none, hnone, rfl⟩
    · refine ⟨some raw, hraw, ?_⟩
      dsimp only
      rw [hdata]
      rfl
    · refine ⟨some raw, hraw, ?_⟩
      dsimp only
      rw [he]
      exact if_pos hcaught

/-- A lookup returns if and only if its read is clean. -/
theorem getEmbedding_returns_iff {n : ℕ} {text model : String} :
    (∃ cached, cache.getEmbedding n text model = .ok cached) ↔
      cache.ReadsClean n text model := by
  unfold getEmbedding
  constructor
  · rintro ⟨cached, h⟩
    obtain ⟨data, hdata, h⟩ := except_bind_eq_ok_iff.mp h
    rcases getJson_returns_iff.mp hdata with
      ⟨hnone, -⟩ | ⟨raw, hraw, hloads | ⟨-, e, he, hcaught⟩⟩
    · exact ⟨none, hnone, by simp⟩
    · refine ⟨some raw, hraw, ?_⟩
      intro _ hmem
      cases hmem
      rw [hloads]
      by_cases hnull : data = .null
      · exact hnull ▸ .null
      · split at h
        next => contradiction
        next =>
          obtain ⟨embedding, hembedding, -⟩ := except_bind_eq_ok_iff.mp h
          exact (readable_ok_iff hnull).mpr ⟨embedding, hembedding⟩
    · refine ⟨some raw, hraw, ?_⟩
      intro _ hmem
      cases hmem
      exact he ▸ .notJson hcaught
  · rintro ⟨stored, hstored, hclean⟩
    have hmiss : cache.getJson n (cache.embeddingKey text model) = .ok .null →
        ∃ cached, cache.getEmbedding n text model = .ok cached :=
      fun h => ⟨none, except_bind_eq_ok_iff.mpr ⟨_, h, rfl⟩⟩
    cases stored with
    | none => exact hmiss (getJson_returns_iff.mpr (Or.inl ⟨hstored, rfl⟩))
    | some raw =>
        have hreadable := hclean raw rfl
        cases hloads : cache.loads raw with
        | error e =>
            rw [hloads] at hreadable
            cases hreadable with
            | notJson hcaught => exact hmiss (getJson_returns_iff.mpr
                (Or.inr ⟨raw, hstored, Or.inr ⟨rfl, e, hloads, hcaught⟩⟩))
        | ok data =>
            have hdata := getJson_returns_iff.mpr (Or.inr ⟨raw, hstored, Or.inl hloads⟩)
            by_cases hnull : data = .null
            · exact hmiss (hnull ▸ hdata)
            · rw [hloads, readable_ok_iff hnull] at hreadable
              obtain ⟨embedding, hembedding⟩ := hreadable
              refine ⟨some embedding, except_bind_eq_ok_iff.mpr ⟨data, hdata, ?_⟩⟩
              split
              next => contradiction
              next => exact except_bind_eq_ok_iff.mpr ⟨embedding, hembedding, rfl⟩

end RedisCache

/-! ## The calls of `embed_batch` -/

namespace OpenAIEmbeddingService

open OpenAI

/-- What a call has asked of the API and tried to write to the cache. -/
structure Sent where
  requests : List EmbeddingsRequest := []
  writes : List CacheWrite := []

abbrev EmbeddingProg := EStateM (Raised AppException) Sent

/-- The write of one embedding; a failure is only logged. -/
def writeBack (cache : RedisCache) (model text : String) (embedding : EmbeddingVector) :
    EmbeddingProg Unit :=
  tryExcept
    (do
      let s ← get
      modify fun s : Sent => { s with writes := s.writes ++ [⟨text, model, embedding⟩] }
      ofExcept ((cache.setEmbedding s.writes.length text model embedding).mapError
        AppException.unhandled))
    fun _ => pure ()

/-- The loop over the fresh embeddings. -/
def scatter (cache : Option RedisCache) (model : String)
    (results : List (Option EmbeddingVector))
    (fresh : List ((ℕ × String) × EmbeddingVector)) :
    EmbeddingProg (List (Option EmbeddingVector)) :=
  fresh.foldlM (fun results pair => do
    match cache with
    | some cache => writeBack cache model pair.1.2 pair.2
    | none => pure ()
    pure (results.set pair.1.1 (some pair.2))) results

/-- `embed_batch`, call by call. -/
def embedBatchCalls (settings : OpenAISettings) (cache : Option RedisCache)
    (create : EmbeddingsRequest → Except SdkError (List (List ℚ))) (texts : List String) :
    EmbeddingProg (List (Option EmbeddingVector)) :=
  if texts.isEmpty then pure [] else do
    let separated ← ofExcept ((separate (cache.map RedisCache.getEmbedding)
      settings.embeddingModel 0 texts).mapError AppException.unhandled)
    if separated.uncached.isEmpty then pure separated.results else do
      let uncachedTexts := separated.uncached.map Prod.snd
      modify fun s => { s with
        requests := s.requests ++ [⟨settings.embeddingModel, uncachedTexts⟩] }
      let freshEmbeddings ← ofExcept (callOpenai settings create uncachedTexts
        settings.embeddingModel)
      scatter cache settings.embeddingModel separated.results
        (separated.uncached.zip freshEmbeddings)

end OpenAIEmbeddingService
end AiBackend

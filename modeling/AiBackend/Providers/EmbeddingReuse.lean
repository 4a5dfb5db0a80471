import AiBackend.Providers.EmbeddingCache
import AiBackend.Support.Expiry
import AiBackend.Support.JsonRoundTrip
import AiBackend.Support.Run

/-!
# Embeddings over many calls

Batches that share one Redis, in which what they write lives for a day.  What
is stored under the key of a text is always the embedding of that text, so
every batch returns right embeddings; and no text goes to the API again before
the day of its last write is over.
-/

namespace AiBackend
namespace OpenAIEmbeddingService

open FloatText OpenAI Program Python Run

/-! ## What the code converts with -/

/-- The hash, `json.loads` on bytes and pydantic's conversions: texts are read
from their UTF-8 bytes, and fields take values of their own type as they
are. -/
structure Conversions where
  hexdigest : String → String
  loads : ByteArray → Except PyExc Json
  floatField : Json → Except String ℚ
  intField : Json → Except String ℤ
  loads_toUTF8 : ∀ text value, JsonText.loads text = some value →
    loads text.toUTF8 = .ok value
  floatField_float : ∀ q, floatField (.float q) = .ok q
  intField_int : ∀ n, intField (.int n) = .ok n

/-- What `set_embedding` makes of an embedding. -/
def cachedData (embedding : EmbeddingVector) : Json :=
  .dict [("values", .list (embedding.values.map Json.float)),
    ("model", .str embedding.model), ("dimensions", .int embedding.dimensions)]

/-! ## Calls -/

/-- A call of `embed_batch`: when Redis answers its reads, when it gets to its
writes, and which of these raise, before or after they took effect. -/
structure EmbedCall where
  texts : List String
  readAt : ℕ → ℚ
  writeAt : ℕ → ℚ
  sets : ℕ → Option (PyExc × Bool) := fun _ => none

/-- The `n`-th write takes effect. -/
def EmbedCall.Lands (call : EmbedCall) (n : ℕ) : Prop := ∀ fault ∈ call.sets n, fault.2 = true

instance (call : EmbedCall) (n : ℕ) : Decidable (call.Lands n) := by
  unfold EmbedCall.Lands
  infer_instance

/-- Redis: what is under each key, and when it goes. -/
abbrev Redis := Expiring String ByteArray

namespace Conversions

variable (conv : Conversions)

/-- The cache of a call: what Redis holds at each of its reads. -/
def cache (call : EmbedCall) (views : ℕ → Redis) : RedisCache where
  get := fun n key => .ok ((views n).get (call.readAt n) key)
  set := fun n _ _ _ =>
    match call.sets n with
    | none => .ok ()
    | some fault => .error fault.1
  hexdigest := conv.hexdigest
  loads := conv.loads
  floatField := conv.floatField
  intField := conv.intField

/-- `_embedding_key`. -/
def key (text model : String) : String :=
  "embed:" ++ model ++ ":" ++ String.ofList ((conv.hexdigest text).toList.take 16)

/-- What a write leaves, at its time and with its time to live. -/
def write (call : EmbedCall) (n : ℕ) (redis : Redis) (w : CacheWrite) : Redis :=
  match JsonText.dumps (cachedData w.embedding) with
  | .ok raw =>
      if call.Lands n then
        redis.setex (conv.key w.text w.model) (call.writeAt n) 86400 raw.toUTF8
      else redis
  | .error _ => redis

/-- What the writes of a call leave, from the `n`-th on. -/
def writeAll (call : EmbedCall) : ℕ → Redis → List CacheWrite → Redis
  | _, redis, [] => redis
  | n, redis, w :: rest => writeAll call (n + 1) (conv.write call n redis w) rest

variable (settings : OpenAISettings)
  (create : EmbeddingsRequest → Except SdkError (List (List ℚ)))

/-- What a call comes to. -/
def result (call : EmbedCall) (views : ℕ → Redis) :
    EStateM.Result (Raised AppException) Sent (List (Option EmbeddingVector)) :=
  (embedBatchCalls settings (some (conv.cache call views)) create call.texts).run {}

/-- What a call writes to Redis. -/
def writes (call : EmbedCall) (views : ℕ → Redis) : List CacheWrite :=
  (finalState (conv.result settings create call views)).writes

/-- What is in Redis while calls about some texts run, any number of them at a
time: each write is one of a call, which has read what was there before. -/
inductive Reached (texts : Set String) : Redis → Prop
  | empty : Reached texts Expiring.empty
  | write {redis : Redis} (call : EmbedCall) (views : ℕ → Redis)
      (hcall : ∀ text ∈ call.texts, text ∈ texts) (hviews : ∀ n, Reached texts (views n))
      (h : Reached texts redis) (n : ℕ) (w : CacheWrite)
      (hw : (conv.writes settings create call views)[n]? = some w) :
      Reached texts (conv.write call n redis w)

/-- Redis after a call that nothing comes between. -/
def step (redis : Redis) (call : EmbedCall) : Redis :=
  conv.writeAll call 0 redis (conv.writes settings create call fun _ => redis)

end Conversions

/-! ## What is stored -/

section Stored

variable {conv : Conversions} {settings : OpenAISettings} {E : EmbeddingFunction settings}
  {texts : Set String} {redis : Redis} {call : EmbedCall} {views : ℕ → Redis}

/-- The embeddings of the texts are vectors of doubles. -/
def Doubles (E : EmbeddingFunction settings) (texts : Set String) : Prop :=
  ∀ text ∈ texts, ∀ q ∈ E.values text, IsDouble q

/-- Texts with one key have one embedding. -/
def Distinct (conv : Conversions) (E : EmbeddingFunction settings) (texts : Set String) :
    Prop :=
  ∀ x ∈ texts, ∀ y ∈ texts,
    conv.key x settings.embeddingModel = conv.key y settings.embeddingModel →
      E.embed x = E.embed y

/-- The key is that of one of the texts, and the bytes are its embedding. -/
def Holds (conv : Conversions) (E : EmbeddingFunction settings) (texts : Set String)
    (key : String) (raw : ByteArray) : Prop :=
  ∃ text ∈ texts, key = conv.key text settings.embeddingModel ∧
    ∃ json, JsonText.dumps (cachedData (E.embed text)) = .ok json ∧ raw = json.toUTF8

/-- All entries have been written for a day with the embedding of a text of
their key. -/
def Right (conv : Conversions) (E : EmbeddingFunction settings) (texts : Set String)
    (redis : Redis) : Prop :=
  Expiring.Set 86400 (fun key raw _ => Holds conv E texts key raw) redis

theorem mapM_floatField (conv : Conversions) (values : List ℚ) :
    (values.map Json.float).mapM conv.floatField = .ok values := by
  induction values with
  | nil => rfl
  | cons q values ih =>
      rw [List.map_cons, List.mapM_cons, ih, conv.floatField_float]
      rfl

/-- What is written of an embedding is read back as the embedding. -/
theorem embeddingOf_cachedData (conv : Conversions) (call : EmbedCall) (views : ℕ → Redis)
    (embedding : EmbeddingVector) :
    (conv.cache call views).embeddingOf (cachedData embedding) = .ok embedding := by
  have hfloats : (embedding.values.map Json.float).mapM
      (conv.cache call views).floatField = .ok embedding.values :=
    mapM_floatField conv embedding.values
  have hint : (conv.cache call views).intField (.int embedding.dimensions) =
      .ok embedding.dimensions := conv.intField_int _
  have hconstruct : (conv.cache call views).construct (embedding.values.map Json.float)
      (.str embedding.model) (.int embedding.dimensions) = .ok embedding := by
    simp only [RedisCache.construct, hfloats, hint, SearchResult.strField,
      EmbeddingVector.construct, dif_pos embedding.valid]
  exact hconstruct

theorem loads_of_dumps_cachedData (conv : Conversions) {embedding : EmbeddingVector}
    (hdoubles : ∀ q ∈ embedding.values, IsDouble q) {json : String}
    (h : JsonText.dumps (cachedData embedding) = .ok json) :
    conv.loads json.toUTF8 = .ok (cachedData embedding) := by
  have helements : ∀ values : List ℚ, (∀ q ∈ values, IsDouble q) →
      JsonText.allElements JsonText.isPythonValue (values.map Json.float) = true := by
    intro values
    induction values with
    | nil => exact fun _ => rfl
    | cons q values ih =>
        intro hall
        rw [List.forall_mem_cons] at hall
        simpa [JsonText.allElements, JsonText.all, JsonText.isPythonValue, ih hall.2]
          using hall.1
  refine conv.loads_toUTF8 json _ (JsonText.loads_of_dumps ?_ h)
  simp [cachedData, JsonText.all, JsonText.allEntries, JsonText.isPythonValue,
    helements _ hdoubles]

/-- A lookup finds the embedding of its text, or nothing where Redis has
nothing. -/
theorem getEmbedding_of_right {n : ℕ} (h : Right conv E texts (views n))
    (hdoubles : Doubles E texts) (hdistinct : Distinct conv E texts) {text : String}
    (htext : text ∈ texts) :
    (conv.cache call views).getEmbedding n text settings.embeddingModel =
      .ok (((views n).get (call.readAt n) (conv.key text settings.embeddingModel)).map
        fun _ => E.embed text) := by
  cases hget : (views n).get (call.readAt n) (conv.key text settings.embeddingModel) with
  | none =>
      have hmiss : (conv.cache call views).getJson n
          ((conv.cache call views).embeddingKey text settings.embeddingModel) = .ok .null :=
        RedisCache.getJson_returns_iff.mpr (.inl ⟨congrArg Except.ok hget, rfl⟩)
      rw [RedisCache.getEmbedding, hmiss]
      rfl
  | some raw =>
      obtain ⟨-, -, other, hother, hkey, json, hjson, rfl⟩ := h.get hget
      have hsame : E.embed text = E.embed other := hdistinct text htext other hother hkey
      have hloads := loads_of_dumps_cachedData conv (hdoubles other hother) hjson
      have hhit : (conv.cache call views).getJson n
          ((conv.cache call views).embeddingKey text settings.embeddingModel) =
            .ok (cachedData (E.embed other)) :=
        RedisCache.getJson_returns_iff.mpr
          (.inr ⟨_, congrArg Except.ok hget, .inl hloads⟩)
      rw [RedisCache.getEmbedding, hhit, hsame]
      change ((conv.cache call views).embeddingOf (cachedData (E.embed other)) >>= fun e =>
        pure (some e)) = _
      rw [embeddingOf_cachedData]
      rfl

theorem cacheRight_of_right (h : ∀ n, Right conv E texts (views n)) (hdoubles : Doubles E texts)
    (hdistinct : Distinct conv E texts) (hcall : ∀ text ∈ call.texts, text ∈ texts) :
    CacheRight E (some (conv.cache call views)) call.texts := by
  intro cache hcache i text htext
  obtain rfl : conv.cache call views = cache := Option.some.inj hcache
  have hmem := hcall text (List.mem_of_getElem? htext)
  refine ⟨_, getEmbedding_of_right (h i) hdoubles hdistinct hmem, ?_⟩
  intro embedding hembedding
  obtain ⟨_, -, rfl⟩ := Option.mem_map.mp hembedding
  rfl

/-! ## One call -/

/-- The texts of a call that Redis has nothing for when it is asked. -/
def absent (conv : Conversions) (model : String) (call : EmbedCall) (views : ℕ → Redis) :
    List String :=
  (call.texts.zipIdx.filter fun text =>
    ((views text.2).get (call.readAt text.2) (conv.key text.1 model)).isNone).map Prod.fst

theorem map_snd_missed (h : ∀ n, Right conv E texts (views n)) (hdoubles : Doubles E texts)
    (hdistinct : Distinct conv E texts) (hcall : ∀ text ∈ call.texts, text ∈ texts) :
    (missed (some (conv.cache call views).getEmbedding) settings.embeddingModel 0
      call.texts).map Prod.snd = absent conv settings.embeddingModel call views := by
  rw [missed, List.map_map, absent]
  have hsame : ∀ text ∈ call.texts.zipIdx 0,
      Missed (some (conv.cache call views).getEmbedding) settings.embeddingModel text.2 text.1 =
        ((views text.2).get (call.readAt text.2)
          (conv.key text.1 settings.embeddingModel)).isNone := by
    intro text htext
    have hmem := hcall text.1
      (List.mem_of_getElem? (List.mem_zipIdx_iff_getElem?.mp htext))
    rw [Missed, getEmbedding_of_right (h text.2) hdoubles hdistinct hmem]
    cases (views text.2).get (call.readAt text.2)
        (conv.key text.1 settings.embeddingModel) with
    | none => rfl
    | some _ => rfl
  rw [List.filter_congr hsame]
  rfl

/-- The writes of a batch that returns are the fresh embeddings. -/
theorem writes_of_embedBatch {cache : Option GetEmbedding}
    {create : EmbeddingsRequest → Except SdkError (List (List ℚ))} {inputs : List String}
    {separated : Separated} {embeddings : List EmbeddingVector}
    {results : List (Option EmbeddingVector)} {writes : List CacheWrite}
    (h : separate cache settings.embeddingModel 0 inputs = .ok separated)
    (hcall : callOpenai settings create (separated.uncached.map Prod.snd)
      settings.embeddingModel = .ok embeddings)
    (hbatch : embedBatch settings cache create inputs = .ok (results, writes)) :
    writes = if cache.isNone then [] else
      (separated.uncached.zip embeddings).map fun pair =>
        ⟨pair.1.2, settings.embeddingModel, pair.2⟩ := by
  unfold embedBatch at hbatch
  split at hbatch
  next hempty =>
    obtain rfl := List.isEmpty_iff.mp hempty
    cases h
    cases hbatch
    simp
  next hne =>
    rw [h] at hbatch
    obtain ⟨_, hsame, hbatch⟩ := except_bind_eq_ok_iff.mp hbatch
    obtain rfl := Except.ok.inj hsame
    split at hbatch
    next hcached =>
      cases hbatch
      simp [List.isEmpty_iff.mp hcached]
    next hasked =>
      obtain ⟨fresh, hfresh, hbatch⟩ := except_bind_eq_ok_iff.mp hbatch
      rw [hcall] at hfresh
      obtain rfl := Except.ok.inj hfresh
      cases hbatch
      rfl

variable {create : EmbeddingsRequest → Except SdkError (List (List ℚ))}

/-- A call over right stores returns the embeddings of its texts, after one
request for those that are absent, which it then writes. -/
theorem result_of_right (h : ∀ n, Right conv E texts (views n)) (hdoubles : Doubles E texts)
    (hdistinct : Distinct conv E texts) (hcreate : ApiRight E create)
    (hcall : ∀ text ∈ call.texts, text ∈ texts) :
    conv.result settings create call views =
      .ok (call.texts.map fun text => some (E.embed text))
        { requests := if absent conv settings.embeddingModel call views = [] then [] else
            [⟨settings.embeddingModel, absent conv settings.embeddingModel call views⟩]
          writes := (absent conv settings.embeddingModel call views).map fun text =>
            ⟨text, settings.embeddingModel, E.embed text⟩ } := by
  have hcache := cacheRight_of_right h hdoubles hdistinct hcall
  obtain ⟨separated, hseparated⟩ : ∃ separated,
      separate ((some (conv.cache call views)).map RedisCache.getEmbedding)
        settings.embeddingModel 0 call.texts = .ok separated :=
    separate_returns_iff.mpr fun getEmbedding hmem k text htext => by
      obtain rfl : (conv.cache call views).getEmbedding = getEmbedding := Option.some.inj hmem
      obtain ⟨cached, hget, -⟩ := hcache _ rfl k text htext
      exact ⟨cached, (zero_add k).symm ▸ hget⟩
  have hmissed : separated.uncached.map Prod.snd =
      absent conv settings.embeddingModel call views := by
    rw [uncached_of_separate hseparated]
    exact map_snd_missed h hdoubles hdistinct hcall
  have hanswer := callOpenai_eq_ok hcreate (separated.uncached.map Prod.snd)
  obtain ⟨writes, hbatch⟩ := exists_embedBatch hseparated hanswer
  have hwrites := writes_of_embedBatch hseparated hanswer hbatch
  rw [fill_eq hcache hseparated] at hbatch
  have hzip : separated.uncached.zip ((separated.uncached.map Prod.snd).map E.embed) =
      separated.uncached.map fun pair => (pair, E.embed pair.2) := by
    rw [List.map_map]
    simpa using List.zip_map' (f := id) (g := E.embed ∘ Prod.snd) (l := separated.uncached)
  have hrun : conv.result settings create call views =
      .ok (call.texts.map fun text => some (E.embed text))
        { requests := [] ++ requestsOf settings.embeddingModel separated
          writes := [] ++ writes } := run_embedBatchCalls_of_ok hseparated hbatch {}
  rw [hrun, hwrites, hzip, ← hmissed]
  simp [requestsOf, Function.comp_def]

/-! ## Calls at the same time -/

theorem mem_of_mem_absent {text : String}
    (h : text ∈ absent conv settings.embeddingModel call views) : text ∈ call.texts := by
  obtain ⟨pair, hpair, rfl⟩ := List.mem_map.mp h
  exact List.mem_of_getElem? (List.mem_zipIdx_iff_getElem?.mp (List.mem_of_mem_filter hpair))

theorem right_write (h : Right conv E texts redis) {text : String} (htext : text ∈ texts)
    (n : ℕ) :
    Right conv E texts
      (conv.write call n redis ⟨text, settings.embeddingModel, E.embed text⟩) := by
  rw [Conversions.write]
  cases hjson : JsonText.dumps (cachedData (E.embed text)) with
  | error e => exact h
  | ok raw =>
      dsimp only
      split
      next => exact Expiring.Set.setex h ⟨text, htext, rfl, raw, hjson, rfl⟩
      next => exact h

theorem right_of_reached (hdoubles : Doubles E texts) (hdistinct : Distinct conv E texts)
    (hcreate : ApiRight E create) (h : conv.Reached settings create texts redis) :
    Right conv E texts redis := by
  induction h with
  | empty => exact Expiring.set_empty _ _
  | write call views hcall _ _ n w hw hviews hredis =>
      rw [Conversions.writes, result_of_right hviews hdoubles hdistinct hcreate hcall] at hw
      obtain ⟨text, htext, rfl⟩ := List.mem_map.mp (List.mem_of_getElem? hw)
      exact right_write hredis (hcall text (mem_of_mem_absent htext)) n

/-- However calls overlap, every one returns the embeddings of its texts; the
API is asked for those that Redis has nothing for when the call looks. -/
theorem overlapping_calls_right (conv : Conversions) (settings : OpenAISettings)
    (E : EmbeddingFunction settings)
    (create : EmbeddingsRequest → Except SdkError (List (List ℚ))) (hcreate : ApiRight E create)
    (texts : Set String) (hdoubles : Doubles E texts) (hdistinct : Distinct conv E texts)
    (views : ℕ → Redis)
    (hviews : ∀ n, conv.Reached settings create texts (views n)) (call : EmbedCall)
    (hcall : ∀ text ∈ call.texts, text ∈ texts) :
    conv.result settings create call views =
      .ok (call.texts.map fun text => some (E.embed text))
        { requests := if absent conv settings.embeddingModel call views = [] then [] else
            [⟨settings.embeddingModel, absent conv settings.embeddingModel call views⟩]
          writes := (absent conv settings.embeddingModel call views).map fun text =>
            ⟨text, settings.embeddingModel, E.embed text⟩ } :=
  result_of_right (fun n => right_of_reached hdoubles hdistinct hcreate (hviews n)) hdoubles
    hdistinct hcreate hcall

/-! ### A call that looks twice -/

/-- Conversions that know two hashes. -/
def sampleConversions : Conversions where
  hexdigest := readOnlyCache.hexdigest
  loads := fun raw =>
    match (String.fromUTF8? raw).bind JsonText.loads with
    | some value => .ok value
    | none => .error (.valueError "Expecting value: line 1 column 1 (char 0)")
  floatField := readOnlyCache.floatField
  intField := readOnlyCache.intField
  loads_toUTF8 := fun text value h => by
    have htext : String.fromUTF8? text.toUTF8 = some text := dif_pos text.isValidUTF8
    rw [htext, Option.bind_some, h]
  floatField_float := fun _ => rfl
  intField_int := fun _ => rfl

def sampleTexts : Set String := {"agenda", "minutes"}

def lengthApi (request : EmbeddingsRequest) : Except SdkError (List (List ℚ)) :=
  .ok (request.input.map lengthEmbedding.values)

theorem doubles_sample : Doubles lengthEmbedding sampleTexts := by
  rintro text (rfl | rfl) q hq
  · obtain rfl := List.mem_singleton.mp hq
    decide +kernel
  · obtain rfl := List.mem_singleton.mp hq
    decide +kernel

theorem distinct_sample : Distinct sampleConversions lengthEmbedding sampleTexts := by
  have hkeys : ∀ x ∈ sampleTexts, ∀ y ∈ sampleTexts,
      sampleConversions.key x "text-embedding-3-small" =
        sampleConversions.key y "text-embedding-3-small" → x = y := by
    rintro x (rfl | rfl) y (rfl | rfl)
    · decide
    · decide
    · decide
    · decide
  exact fun x hx y hy h => congrArg lengthEmbedding.embed (hkeys x hx y hy h)

/-- A call that looks at a time and writes one second later. -/
def sampleCall (time : ℚ) (texts : List String) : EmbedCall where
  texts := texts
  readAt := fun _ => time
  writeAt := fun _ => time + 1

/-- Between the two looks another call has written. -/
def sampleViews : ℕ → Redis
  | 0 => Expiring.empty
  | _ + 1 => sampleConversions.write (sampleCall 0 ["minutes"]) 0 Expiring.empty
      ⟨"minutes", "text-embedding-3-small", lengthEmbedding.embed "minutes"⟩

theorem overlapping_calls_right_sample :
    sampleConversions.result { embeddingDimensions := 1 } lengthApi
        (sampleCall 1000 ["agenda", "minutes"]) sampleViews =
      .ok [some (lengthEmbedding.embed "agenda"), some (lengthEmbedding.embed "minutes")]
        { requests := [⟨"text-embedding-3-small", ["agenda"]⟩]
          writes := [⟨"agenda", "text-embedding-3-small", lengthEmbedding.embed "agenda"⟩] } := by
  have habsent : absent sampleConversions "text-embedding-3-small"
      (sampleCall 1000 ["agenda", "minutes"]) sampleViews = ["agenda"] := by decide +kernel
  have hviews : ∀ n, sampleConversions.Reached { embeddingDimensions := 1 } lengthApi
      sampleTexts (sampleViews n) := by
    intro n
    cases n with
    | zero => exact .empty
    | succ n =>
        have hcall : ∀ text ∈ (sampleCall 0 ["minutes"]).texts, text ∈ sampleTexts := by
          simp [sampleCall, sampleTexts]
        have hwrites : (sampleConversions.writes { embeddingDimensions := 1 } lengthApi
            (sampleCall 0 ["minutes"]) fun _ => Expiring.empty)[0]? =
              some ⟨"minutes", "text-embedding-3-small", lengthEmbedding.embed "minutes"⟩ := rfl
        exact .write _ _ hcall (fun _ => .empty) .empty 0 _ hwrites
  have hright := overlapping_calls_right sampleConversions { embeddingDimensions := 1 }
    lengthEmbedding lengthApi (fun _ => rfl) sampleTexts doubles_sample distinct_sample
    sampleViews hviews (sampleCall 1000 ["agenda", "minutes"])
    (by simp [sampleCall, sampleTexts])
  rw [habsent] at hright
  exact hright

/-! ## Calls one after another -/

theorem reached_writeAll {whole : List CacheWrite}
    (hcall : ∀ text ∈ call.texts, text ∈ texts)
    (hviews : ∀ n, conv.Reached settings create texts (views n))
    (hwhole : conv.writes settings create call views = whole) (n : ℕ)
    (h : conv.Reached settings create texts redis) :
    conv.Reached settings create texts (conv.writeAll call n redis (whole.drop n)) := by
  induction hrest : whole.drop n generalizing n redis with
  | nil => exact h
  | cons w rest ih =>
      have hw : whole[n]? = some w := by
        rw [← List.head?_drop, hrest]
        rfl
      refine ih (n + 1) ?_ ?_
      · exact .write call views hcall hviews h n w (hwhole ▸ hw)
      · rw [← List.tail_drop, hrest, List.tail_cons]

theorem reached_step (hcall : ∀ text ∈ call.texts, text ∈ texts)
    (h : conv.Reached settings create texts redis) :
    conv.Reached settings create texts (conv.step settings create redis call) := by
  have hall := reached_writeAll hcall (fun _ => h) rfl 0 h
  rwa [List.drop_zero] at hall

/-- The key has an entry that lasts to the given time. -/
def Lasts (key : String) (time : ℚ) (redis : Redis) : Prop :=
  ∃ raw expireAt, redis.entries key = some (raw, expireAt) ∧ time ≤ expireAt

theorem Lasts.isSome {key : String} {time read : ℚ} (h : Lasts key time redis)
    (hread : read < time) : (redis.get read key).isSome := by
  obtain ⟨raw, expireAt, hentry, hle⟩ := h
  rw [Expiring.get_eq_some_iff.mpr ⟨expireAt, hentry, hread.trans_le hle⟩]
  rfl

theorem Lasts.write {key : String} {time : ℚ} (h : Lasts key time redis) (n : ℕ)
    (htime : time ≤ call.writeAt n + 86400) (w : CacheWrite) :
    Lasts key time (conv.write call n redis w) := by
  rw [Conversions.write]
  cases JsonText.dumps (cachedData w.embedding) with
  | error e => exact h
  | ok raw =>
      dsimp only
      split
      next =>
        by_cases hkey : key = conv.key w.text w.model
        · subst hkey
          exact ⟨_, _, Expiring.entries_setex_self .., htime⟩
        · obtain ⟨raw', expireAt, hentry, hle⟩ := h
          exact ⟨raw', expireAt, (Expiring.entries_setex_of_ne _ _ _ hkey).trans hentry, hle⟩
      next => exact h

theorem Lasts.writeAll {key : String} {time : ℚ} (n : ℕ) (h : Lasts key time redis)
    (htime : ∀ m, n ≤ m → time ≤ call.writeAt m + 86400) (ws : List CacheWrite) :
    Lasts key time (conv.writeAll call n redis ws) := by
  induction ws generalizing n redis with
  | nil => exact h
  | cons w ws ih =>
      exact ih (n + 1) (h.write n (htime n le_rfl) w) fun m hm => htime m (by omega)

/-- A write that takes effect lasts a day. -/
theorem lasts_writeAll (conv : Conversions) (redis : Redis) (n : ℕ) {m : ℕ} {w : CacheWrite}
    {raw : String} {ws : List CacheWrite} (hw : ws[m]? = some w)
    (hraw : JsonText.dumps (cachedData w.embedding) = .ok raw)
    (hlands : call.Lands (n + m)) (htime : Monotone call.writeAt) :
    Lasts (conv.key w.text w.model) (call.writeAt (n + m) + 86400)
      (conv.writeAll call n redis ws) := by
  induction ws generalizing n m redis with
  | nil => cases hw
  | cons v ws ih =>
      cases m with
      | zero =>
          obtain rfl := Option.some.inj hw
          refine Lasts.writeAll (n + 1) ?_ ?_ ws
          · rw [Conversions.write, hraw]
            dsimp only
            rw [add_zero] at hlands ⊢
            rw [if_pos hlands]
            exact ⟨_, _, Expiring.entries_setex_self .., le_rfl⟩
          · intro k hk
            have hle := htime (show n + 0 ≤ k by omega)
            linarith
      | succ m =>
          have hshift : n + 1 + m = n + (m + 1) := by omega
          have hnext := ih (conv.write call n redis v) (n + 1) hw (hshift ▸ hlands)
          rwa [hshift] at hnext

theorem exists_dumps_cachedData {embedding : EmbeddingVector}
    (hfits : JsonText.fitsDigits (.int embedding.dimensions) = true) :
    ∃ raw, JsonText.dumps (cachedData embedding) = .ok raw := by
  have helements : ∀ values : List ℚ,
      JsonText.allElements JsonText.fitsDigits (values.map Json.float) = true := by
    intro values
    induction values with
    | nil => rfl
    | cons q values ih => simp [JsonText.allElements, JsonText.all, JsonText.fitsDigits, ih]
  have hall : JsonText.all JsonText.fitsDigits (cachedData embedding) = true := by
    simp only [cachedData, JsonText.all, JsonText.allEntries, helements, hfits]
    simp [JsonText.fitsDigits]
  exact ⟨_, if_pos hall⟩

theorem exists_read_of_mem_absent {text : String}
    (h : text ∈ absent conv settings.embeddingModel call views) :
    ∃ m, call.texts[m]? = some text ∧
      ((views m).get (call.readAt m) (conv.key text settings.embeddingModel)).isNone := by
  obtain ⟨⟨text, m⟩, hpair, rfl⟩ := List.mem_map.mp h
  obtain ⟨hmem, hnone⟩ := List.mem_filter.mp hpair
  exact ⟨m, List.mem_zipIdx_iff_getElem?.mp hmem, hnone⟩

end Stored

/-- The writes of a call come one after another, and after those of the calls
before it. -/
structure InOrder (calls : List EmbedCall) : Prop where
  within : ∀ call ∈ calls, Monotone call.writeAt
  between : calls.Pairwise fun call later => ∀ n m, call.writeAt n ≤ later.writeAt m

/-- A text that one call has written is in a request of the other only where
this one has looked a day after the writing. -/
def Spares (conv : Conversions) (settings : OpenAISettings)
    (create : EmbeddingsRequest → Except SdkError (List (List ℚ)))
    (t later : Transition Redis EmbedCall) : Prop :=
  ∀ (n : ℕ) (w : CacheWrite),
    (conv.writes settings create t.input fun _ => t.before)[n]? = some w → t.input.Lands n →
    ∀ request ∈
      (finalState (conv.result settings create later.input fun _ => later.before)).requests,
      w.text ∈ request.input →
        ∃ m, later.input.texts[m]? = some w.text ∧
          t.input.writeAt n + 86400 ≤ later.input.readAt m

section OneAfterAnother

variable {conv : Conversions} {settings : OpenAISettings} {E : EmbeddingFunction settings}
  {create : EmbeddingsRequest → Except SdkError (List (List ℚ))} {texts : Set String}
  {redis : Redis} {call : EmbedCall}

/-- What a call has written and what lasts of it spares later requests. -/
theorem spares_of_lasts (hdoubles : Doubles E texts) (hcreate : ApiRight E create)
    (hdistinct : Distinct conv E texts) {t later : Transition Redis EmbedCall}
    (hlater : conv.Reached settings create texts later.before)
    (hcall : ∀ text ∈ later.input.texts, text ∈ texts)
    (hlasts : ∀ (n : ℕ) (w : CacheWrite),
      (conv.writes settings create t.input fun _ => t.before)[n]? = some w → t.input.Lands n →
      Lasts (conv.key w.text settings.embeddingModel) (t.input.writeAt n + 86400)
        later.before) :
    Spares conv settings create t later := by
  intro n w hw hlands request hrequest htext
  have hright := right_of_reached hdoubles hdistinct hcreate hlater
  rw [result_of_right (fun _ => hright) hdoubles hdistinct hcreate hcall, finalState] at hrequest
  have hinput : request.input =
      absent conv settings.embeddingModel later.input fun _ => later.before := by
    dsimp only at hrequest
    split at hrequest
    next => cases hrequest
    next => rw [List.mem_singleton.mp hrequest]
  obtain ⟨m, hm, hnone⟩ := exists_read_of_mem_absent (hinput ▸ htext)
  refine ⟨m, hm, ?_⟩
  by_contra hearly
  have hsome := (hlasts n w hw hlands).isSome (not_le.mp hearly)
  rw [Option.isNone_iff_eq_none.mp hnone] at hsome
  cases hsome

/-- Behind a call, what it has written lasts. -/
theorem lasts_step (hdoubles : Doubles E texts) (hcreate : ApiRight E create)
    (hdistinct : Distinct conv E texts)
    (hfits : JsonText.fitsDigits (.int settings.embeddingDimensions) = true)
    (h : conv.Reached settings create texts redis)
    (hcall : ∀ text ∈ call.texts, text ∈ texts) (htime : Monotone call.writeAt) (n : ℕ)
    (w : CacheWrite)
    (hw : (conv.writes settings create call fun _ => redis)[n]? = some w)
    (hlands : call.Lands n) :
    Lasts (conv.key w.text settings.embeddingModel) (call.writeAt n + 86400)
      (conv.step settings create redis call) := by
  have hright := right_of_reached hdoubles hdistinct hcreate h
  have hmem := List.mem_of_getElem? hw
  rw [Conversions.writes,
    result_of_right (fun _ => hright) hdoubles hdistinct hcreate hcall] at hmem
  obtain ⟨text, -, rfl⟩ := List.mem_map.mp hmem
  obtain ⟨raw, hraw⟩ : ∃ raw, JsonText.dumps (cachedData (E.embed text)) = .ok raw :=
    exists_dumps_cachedData hfits
  have hlasts := lasts_writeAll conv redis 0 hw hraw (by rwa [zero_add]) htime
  rwa [zero_add] at hlasts

theorem spares_trace (hdoubles : Doubles E texts) (hcreate : ApiRight E create)
    (hdistinct : Distinct conv E texts)
    (hfits : JsonText.fitsDigits (.int settings.embeddingDimensions) = true)
    {calls : List EmbedCall} (hcalls : ∀ call ∈ calls, ∀ text ∈ call.texts, text ∈ texts)
    (horder : InOrder calls) (h : conv.Reached settings create texts redis) :
    (trace (conv.step settings create) redis calls).Pairwise
      (Spares conv settings create) := by
  induction calls generalizing redis with
  | nil => exact List.Pairwise.nil
  | cons call calls ih =>
      obtain ⟨hcall, hrest⟩ := List.forall_mem_cons.mp hcalls
      obtain ⟨hfirst, hlater⟩ := List.pairwise_cons.mp horder.between
      have hafter := reached_step hcall h
      rw [trace]
      refine List.Pairwise.cons ?_ ?_
      · have hlasts := lasts_step hdoubles hcreate hdistinct hfits h hcall
          (horder.within call List.mem_cons_self)
        refine trace_of_steps
          (I := fun after => conv.Reached settings create texts after ∧
            ∀ (n : ℕ) (w : CacheWrite),
              (conv.writes settings create call fun _ => redis)[n]? = some w → call.Lands n →
              Lasts (conv.key w.text settings.embeddingModel) (call.writeAt n + 86400) after)
          (fun _ later => later ∈ calls) ?_ ?_ ⟨hafter, hlasts⟩
          fun t ht => input_mem_of_mem_trace ht
        · rintro after later ⟨hreached, hkept⟩ hmem
          refine ⟨reached_step (hrest later hmem) hreached, fun n w hw hlands => ?_⟩
          refine (hkept n w hw hlands).writeAll 0 (fun m _ => ?_) _
          have hle := hfirst later hmem n m
          linarith
        · rintro after later ⟨hreached, hkept⟩ hmem
          exact spares_of_lasts hdoubles hcreate hdistinct hreached (hrest later hmem) hkept
      · exact ih hrest ⟨fun c hc => horder.within c (List.mem_cons_of_mem _ hc), hlater⟩ hafter

end OneAfterAnother

/-- No text goes to the API again within a day of a write that took effect. -/
theorem asked_once_a_day (conv : Conversions) (settings : OpenAISettings)
    (E : EmbeddingFunction settings)
    (hfits : JsonText.fitsDigits (.int settings.embeddingDimensions) = true)
    (create : EmbeddingsRequest → Except SdkError (List (List ℚ))) (hcreate : ApiRight E create)
    (texts : Set String) (hdoubles : Doubles E texts) (hdistinct : Distinct conv E texts)
    (calls : List EmbedCall)
    (hcalls : ∀ call ∈ calls, ∀ text ∈ call.texts, text ∈ texts) (horder : InOrder calls) :
    (trace (conv.step settings create) Expiring.empty calls).Pairwise
      (Spares conv settings create) :=
  spares_trace hdoubles hcreate hdistinct hfits hcalls horder .empty

/-- Half a day later nothing is asked, a day later again. -/
theorem asked_once_a_day_sample :
    (trace (sampleConversions.step { embeddingDimensions := 1 } lengthApi) Expiring.empty
      [sampleCall 0 ["minutes"], sampleCall 43200 ["minutes"],
        sampleCall 86401 ["minutes"]]).Pairwise
      (Spares sampleConversions { embeddingDimensions := 1 } lengthApi) := by
  refine asked_once_a_day sampleConversions { embeddingDimensions := 1 } lengthEmbedding
    (by decide) lengthApi (fun _ => rfl) sampleTexts doubles_sample distinct_sample _ ?_ ?_
  · simp [sampleCall, sampleTexts]
  · refine ⟨fun call hcall => ?_, ?_⟩
    · simp only [List.mem_cons, List.not_mem_nil, or_false] at hcall
      rcases hcall with rfl | rfl | rfl
      · exact monotone_const
      · exact monotone_const
      · exact monotone_const
    · norm_num [sampleCall]

end OpenAIEmbeddingService
end AiBackend

import AiBackend.Retrieval.Provenance

/-!
# Tenant isolation of retrieval

A point names its owner in its payload.  The search use case calls the adapter
without a tenant, and the adapter leaves a `tenant_id` entry of the request's
filters out, so the only thing that keeps the points of other tenants away is
the rest of the filter.  Whether a request isolates a tenant in a store
therefore depends on whether all points it matches are the tenant's own.
-/

namespace AiBackend
namespace Retrieval

open Program Python QdrantVectorRepository SearchDocuments QueryServer

/-- The payload names the tenant as the owner. -/
def OwnedBy (tenantId : TenantId) (p : Point) : Prop :=
  p.payload.get? "tenant_id" = some (.str tenantId.str)

/-- A point of the store that the tenant owns. -/
def Own (tenantId : TenantId) (store : PointStore) (p : Point) : Prop :=
  p ∈ store.items ∧ OwnedBy tenantId p

/-- Two points of a store with one identifier are the same. -/
theorem point_ext {store : PointStore} {p q : Point} (hp : p ∈ store.items) (hq : q ∈ store.items)
    (hid : p.id = q.id) : p = q :=
  List.inj_on_of_nodup_map store.nodup hp hq hid

/-- Every readable point that matches the request's own filter is the
tenant's. -/
def OnlyOwn (satisfies : Dict Json → FieldCondition → Bool)
    (intFromStr : String → Option ℤ) (tenantId : TenantId) (store : PointStore)
    (request : SearchRequest) : Prop :=
  ∀ queryFilter, buildFilter none (requestFilters request) = .ok queryFilter →
    ∀ p ∈ store.items, Matches satisfies queryFilter p →
      Readable intFromStr p → OwnedBy tenantId p

/-! ## What isolation means -/

/-- Every result of a search shows a point of the tenant. -/
def SearchIsolated (tenantId : TenantId) (store : PointStore)
    (env : SearchDocuments.Env) (request : SearchRequest) : Prop :=
  ∀ faults drawn response drawn',
    (SearchDocuments.execute env faults request).run drawn = .ok response drawn' →
      ∀ dto ∈ response.results,
        ∃ p, Own tenantId store p ∧ ShowsDto env.intFromStr p dto

section Chat

variable {H : Type} (tenantId : TenantId) (store : PointStore)
  (env : RagChat.Env H) (request : RagChat.ChatRequest)

/-- So do every source of an answer and every block of the context it was
asked for with, whether or not the answer was given in the end. -/
def ExecuteIsolated : Prop :=
  ∀ faults s, s.asked = [] → s.sent = [] →
    Told (Own tenantId store) env.search.intFromStr
        (finalState ((RagChat.execute env faults request).run s)) ∧
      ∀ response s', (RagChat.execute env faults request).run s =
          .ok response s' →
        SourcesShow (Own tenantId store) env.search.intFromStr response.sources

/-- And every source and block of a stream, wherever it stops. -/
def StreamIsolated : Prop :=
  ∀ faults s, s.asked = [] → s.sent = [] →
    Told (Own tenantId store) env.search.intFromStr
      (finalState ((RagChat.stream env faults request).run s))

end Chat

/-! ## The condition is enough -/

section Sufficient

variable {satisfies : Dict Json → FieldCondition → Bool} {tenantId : TenantId}
  {store : PointStore}

theorem answers_of_onlyOwn {env : SearchDocuments.Env} {request : SearchRequest}
    (hranked : Ranked satisfies store env.queryPoints)
    (honly : OnlyOwn satisfies env.intFromStr tenantId store request) :
    Answers (Own tenantId store) env request :=
  fun queryFilter hfilter vector limit scored hscored hreadable =>
    ⟨hranked.stored vector limit queryFilter scored hscored,
      honly queryFilter hfilter scored.point
        (hranked.stored vector limit queryFilter scored hscored)
        (hranked.matching vector limit queryFilter scored hscored) hreadable⟩

theorem searchIsolated_of_onlyOwn {env : SearchDocuments.Env}
    {request : SearchRequest} (hranked : Ranked satisfies store env.queryPoints)
    (honly : OnlyOwn satisfies env.intFromStr tenantId store request) :
    SearchIsolated tenantId store env request := by
  intro faults drawn response drawn' hrun dto hdto
  have hsearch : Ensures _ (SearchDocuments.execute env faults request) _ _ :=
    ensures_search (answers_of_onlyOwn hranked honly)
  have hresponse := hsearch drawn trivial
  rw [hrun] at hresponse
  obtain ⟨results, hresults, hshows⟩ := hresponse
  rw [hresults] at hdto
  obtain ⟨result, hresult, rfl⟩ := List.mem_map.mp hdto
  obtain ⟨p, hp, hresult⟩ := hshows result hresult
  exact ⟨p, hp, result, hresult, rfl⟩

section Chat

variable {H : Type} {env : RagChat.Env H} {request : RagChat.ChatRequest}
  (hranked : Ranked satisfies store env.search.queryPoints)
  (honly : (∃ user, RagChat.requestUser request = .ok user) →
    OnlyOwn satisfies env.search.intFromStr tenantId store
      (RagChat.searchRequest request))

theorem told_nil {Good : Point → Prop} {intFromStr : String → Option ℤ}
    {s : RagChat.State H} (hasked : s.asked = []) (hsent : s.sent = []) :
    Told Good intFromStr s :=
  ⟨by simp [hasked], by simp [hsent]⟩

include hranked honly

theorem executeIsolated_of_onlyOwn : ExecuteIsolated tenantId store env request := by
  intro faults s hasked hsent
  have hexecute : Ensures _ (RagChat.execute env faults request) _ _ :=
    ensures_execute fun huser => answers_of_onlyOwn hranked (honly huser)
  have htold : Told (Own tenantId store) env.search.intFromStr s :=
    told_nil hasked hsent
  refine ⟨(hexecute.imp (fun _ _ h => h.1)
    fun _ _ h => h).final htold, fun response s' hrun => ?_⟩
  have hresponse := hexecute s htold
  rw [hrun] at hresponse
  exact hresponse.2

theorem streamIsolated_of_onlyOwn : StreamIsolated tenantId store env request :=
  fun _ _ hasked hsent =>
    (preserves_stream fun huser => answers_of_onlyOwn hranked (honly huser)).final
      (told_nil hasked hsent)

end Chat
end Sufficient

/-! ## The condition is needed

A server may rank any matching point first, and then every entry point shows
it. -/

section Needed

variable {p : Point}

/-- The search succeeds and shows what can be read of its answer. -/
theorem ensures_search_all {env : SearchDocuments.Env} {request : SearchRequest}
    {tokens : ℤ} {queryFilter : Option (List FieldCondition)}
    (hcount : env.countTokens request.query "gpt-4o" = .ok tokens)
    (hfilter : buildFilter none (requestFilters request) = .ok queryFilter) :
    Ensures (fun _ => True) (SearchDocuments.execute env Faults.none request)
      (fun response _ => ∃ uuid4, response.results =
        (readPoints env.intFromStr uuid4 (env.queryPoints (env.embed request.query).values
          request.topK queryFilter)).map resultDto)
      fun _ _ => False := by
  unfold SearchDocuments.execute
  simp only [perform_none, pure_bind]
  apply (ensures_ofExcept_ok hcount).bind
  intro queryTokens
  apply Ensures.bind (M := fun _ _ => True) (fun _ _ => trivial)
  intro uuid4
  have hsearch : QdrantVectorRepository.search env.queryPoints env.intFromStr uuid4
      (env.embed request.query) request.topK (requestFilters request) none =
      .ok (readPoints env.intFromStr uuid4
        (env.queryPoints (env.embed request.query).values request.topK queryFilter)) :=
    except_bind_eq_ok_iff.mpr ⟨queryFilter, hfilter, rfl⟩
  refine (ensures_ofExcept_ok hsearch).bind fun results => ensures_of_fact ?_
  rintro rfl
  exact fun _ _ => ⟨uuid4, rfl⟩

/-- A readable point that heads an answer is the first result, with its score. -/
theorem readPoints_first {intFromStr : String → Option ℤ} (hreadable : Readable intFromStr p)
    (uuid4 : ℕ → Uuid) (rest : List ScoredPoint) :
    ∃ first, readPoints intFromStr uuid4 (⟨p, 1⟩ :: rest) =
        first :: readPoints intFromStr (fun n => uuid4 (n + 1)) rest ∧
      ShowsResult intFromStr p first ∧ first.score = 1 := by
  obtain ⟨result, score, fresh, hread⟩ := hreadable
  have hone : (0 : ℚ) ≤ 1 ∧ (1 : ℚ) ≤ 1 := by decide
  obtain ⟨first, hread', hscore⟩ := toSearchResult_ok_of_ok hread (uuid4 0) hone
  exact ⟨first, by rw [readPoints, hread'], ⟨1, uuid4 0, hread'⟩, hscore⟩

/-- The search succeeds and its first result shows the point, with the best
score there is. -/
theorem ensures_search_first {env : SearchDocuments.Env}
    {request : SearchRequest} {tokens : ℤ}
    {queryFilter : Option (List FieldCondition)}
    (hcount : env.countTokens request.query "gpt-4o" = .ok tokens)
    (hfilter : buildFilter none (requestFilters request) = .ok queryFilter)
    (hfirst : ∀ vector, ∃ rest,
      env.queryPoints vector request.topK queryFilter = ⟨p, 1⟩ :: rest)
    (hreadable : Readable env.intFromStr p) :
    Ensures (fun _ => True) (SearchDocuments.execute env Faults.none request)
      (fun response _ => ∃ first rest,
        response.results = (first :: rest).map resultDto ∧
          ShowsResult env.intFromStr p first ∧ first.score = 1)
      fun _ _ => False := by
  refine (ensures_search_all hcount hfilter).imp ?_ fun _ _ h => h
  rintro response _ ⟨uuid4, hresults⟩
  obtain ⟨rest, hanswer⟩ := hfirst (env.embed request.query).values
  obtain ⟨first, hread, hshows, hscore⟩ := readPoints_first hreadable uuid4 rest
  rw [hanswer, hread] at hresults
  exact ⟨first, _, hresults, hshows, hscore⟩

/-- Where no block costs a token, every relevant result is used. -/
theorem fittingBlocks_of_free {service : ContextService}
    (hcount : ∀ text model, service.countTokens text model = .ok 0)
    (hbudget : 0 ≤ service.maxContextTokens) (model : String) (i : ℕ)
    (results : List SearchResult) :
    ∃ used, service.fittingBlocks model i 0 results = .ok used ∧
      used.map Prod.snd = results := by
  induction results generalizing i with
  | nil => exact ⟨[], rfl, rfl⟩
  | cons result rest ih =>
      obtain ⟨used, hused, hresults⟩ := ih (i + 1)
      refine ⟨(ContextService.formatBlock (i + 1) result, result) :: used, ?_,
        by rw [List.map_cons, hresults]⟩
      rw [ContextService.fittingBlocks, except_bind_eq_ok_iff]
      refine ⟨0, hcount _ _, ?_⟩
      rw [add_zero, if_neg (not_lt.mpr hbudget), hused]
      rfl

theorem buildContext_of_free {service : ContextService}
    (hcount : ∀ text model, service.countTokens text model = .ok 0)
    (hbudget : 0 ≤ service.maxContextTokens) (results : List SearchResult) :
    ∃ context, service.buildContext results = .ok (context, service.relevant results) := by
  unfold ContextService.buildContext
  obtain ⟨used, hused, hresults⟩ :=
    fittingBlocks_of_free hcount hbudget "gpt-4o" 0 (service.relevant results)
  dsimp only
  split
  next hnone => exact ⟨"", by rw [ContextService.relevant, List.isEmpty_iff.mp hnone]⟩
  next =>
    refine ⟨String.intercalate "\n\n" (used.map Prod.fst), ?_⟩
    rw [except_bind_eq_ok_iff]
    exact ⟨used, hused, by rw [hresults]; rfl⟩

/-- A context in which no block costs a token. -/
def freeContext : ContextService where
  countTokens := fun _ _ => .ok 0

/-- The results that a chat uses of an answer where no block costs a token: those
above the threshold, with new collections. -/
def UsesAnswer (intFromStr : String → Option ℤ) (answer : List ScoredPoint)
    (used : List SearchResult) : Prop :=
  ∃ uuid4 rebuilt, List.Forall₂ (fun result used => ∃ collectionId,
      used = { result with collectionId := collectionId })
    (readPoints intFromStr uuid4 answer) rebuilt ∧ used = freeContext.relevant rebuilt

/-- The first result used shows the point that heads the answer. -/
theorem UsesAnswer.first {intFromStr : String → Option ℤ} {rest : List ScoredPoint}
    {used : List SearchResult} (h : UsesAnswer intFromStr (⟨p, 1⟩ :: rest) used)
    (hreadable : Readable intFromStr p) :
    ∃ first later, used = first :: later ∧ ShowsUsed intFromStr p first := by
  obtain ⟨uuid4, rebuilt, hrebuilt, rfl⟩ := h
  obtain ⟨first, hread, hshows, hscore⟩ := readPoints_first hreadable uuid4 rest
  rw [hread] at hrebuilt
  cases hrebuilt with
  | cons hfirst _ =>
      obtain ⟨collectionId, rfl⟩ := hfirst
      have hrelevant : freeContext.scoreThreshold ≤ first.score := by
        rw [hscore, freeContext]
        norm_num
      refine ⟨_, _, List.filter_cons_of_pos (by simpa using hrelevant), first,
        collectionId, hshows, rfl⟩

theorem source_mem_buildSources {results : List SearchResult}
    {used : SearchResult} {rest : List SearchResult} (h : results = used :: rest) :
    RagChat.source 0 used ∈ RagChat.buildSources results := by
  simp [h, RagChat.buildSources]

/-- The given point scores 1, all others 0. -/
def favour (p : Point) (_ : List ℚ) (q : Point) : ℚ :=
  if q.id = p.id then 1 else 0

/-- Services that do the least, over a server. -/
def plainSearch (intFromStr : String → Option ℤ) (queryPoints : QueryPoints) :
    SearchDocuments.Env where
  countTokens := fun _ _ => .ok 0
  embed := fun _ => ⟨[], "constant", 0, rfl⟩
  queryPoints := queryPoints
  intFromStr := intFromStr
  uuid4 := fun _ => ⟨0⟩

def plainChat (search : SearchDocuments.Env) : RagChat.Env Unit where
  search := search
  context := freeContext
  history := ⟨fun _ _ _ => [], fun history _ _ => history⟩
  countTokens := fun _ _ => .ok 0
  complete := fun _ => { message := { role := .assistant, content := "" } }
  stream := fun _ => []

/-- Such services over a server that favours a point. -/
def favouringSearch (satisfies : Dict Json → FieldCondition → Bool)
    (intFromStr : String → Option ℤ) (store : PointStore) (p : Point) :
    SearchDocuments.Env :=
  plainSearch intFromStr (topPoints satisfies (favour p) store)

def favouringChat (satisfies : Dict Json → FieldCondition → Bool)
    (intFromStr : String → Option ℤ) (store : PointStore) (p : Point) :
    RagChat.Env Unit :=
  plainChat (favouringSearch satisfies intFromStr store p)

variable {satisfies : Dict Json → FieldCondition → Bool}
  {intFromStr : String → Option ℤ} {store : PointStore}

theorem favouringSearch_first (hp : p ∈ store.items)
    {queryFilter : Option (List FieldCondition)}
    (hmatches : Matches satisfies queryFilter p) {limit : ℤ} (hlimit : 1 ≤ limit)
    (vector : List ℚ) :
    ∃ rest, (favouringSearch satisfies intFromStr store p).queryPoints vector limit
      queryFilter = ⟨p, 1⟩ :: rest := by
  have hbest : ∀ q ∈ store.items, q ≠ p → favour p vector q < favour p vector p := by
    intro q hq hne
    have hid : q.id ≠ p.id :=
      fun heq => hne (point_ext hq hp heq)
    simp [favour, hid]
  obtain ⟨rest, hanswer⟩ := topPoints_best hp hmatches hlimit hbest
  refine ⟨rest, hanswer.trans ?_⟩
  simp [favour]

section Chat

variable {request : RagChat.ChatRequest}
  {queryFilter : Option (List FieldCondition)}

section Plain

variable {search : SearchDocuments.Env} {tokens : ℤ}
  (huser : ∃ user, RagChat.requestUser request = .ok user)

include huser

theorem ensures_history_user {F : RagChat.State Unit → Prop} :
    Ensures F (RagChat.history (plainChat search) Faults.none request)
      (fun _ => F) fun _ _ => False := by
  obtain ⟨user, huser⟩ := huser
  refine (ensures_ofExcept_ok huser).bind fun user' => ensures_of_fact ?_
  rintro rfl
  cases user' with
  | none => exact ensures_pure fun _ hs => hs
  | some userId => exact fun _ hs => hs

theorem ensures_saveTurn_user {F : RagChat.State Unit → Prop}
    (hF : ∀ s history, F s → F { s with history := history }) (answer : ChatMessage) :
    Ensures F (RagChat.saveTurn (plainChat search) Faults.none request answer)
      (fun _ => F) fun _ _ => False := by
  obtain ⟨user, huser⟩ := huser
  refine (ensures_ofExcept_ok huser).bind fun user' => ensures_of_fact ?_
  rintro rfl
  cases user' with
  | none => exact ensures_pure fun _ hs => hs
  | some userId => exact fun s hs => hF s _ hs

variable (hcount : search.countTokens request.message "gpt-4o" = .ok tokens)
  (hfilter : buildFilter none (requestFilters (RagChat.searchRequest request)) =
    .ok queryFilter)

include hcount hfilter

/-- The prompt is made, and about what the answer shows. -/
theorem ensures_prepare_all {F : RagChat.State Unit → Prop}
    (hF : ∀ s drawn, F s → F { s with drawn := drawn }) :
    Ensures F (RagChat.prepare (plainChat search) Faults.none request)
      (fun prepared s => F s ∧ UsesAnswer search.intFromStr
        (search.queryPoints (search.embed request.message).values request.topK queryFilter)
        prepared.2)
      fun _ _ => False := by
  have hsearch : Ensures F (RagChat.search (plainChat search) Faults.none
      (RagChat.searchRequest request)) _ _ :=
    ensures_focus (ensures_search_all hcount hfilter) fun drawn s hs => hF s drawn hs
  let answer := search.queryPoints (search.embed request.message).values request.topK queryFilter
  refine (hsearch.impRaise fun _ _ h => h.2).bind fun response => ensures_of_fact fun h => ?_
  obtain ⟨uuid4, hresults⟩ : ∃ uuid4,
    response.results = (readPoints search.intFromStr uuid4 answer).map resultDto := h
  have hdomain : Ensures F (RagChat.domainResults (plainChat search) response.results)
      (fun rebuilt s => F s ∧ List.Forall₂ (fun result used => ∃ collectionId,
          used = { result with collectionId := collectionId })
        (readPoints search.intFromStr uuid4 answer) rebuilt)
      fun _ _ => False := by
    apply Ensures.bind (M := fun _ => F) (fun s hs => hF s _ hs)
    intro fresh
    obtain ⟨rebuilt, hrebuild, hshape⟩ := rebuild_resultDto search.intFromStr fresh
      (readPoints search.intFromStr uuid4 answer)
    rw [← hresults] at hrebuild
    refine (ensures_ofExcept_ok hrebuild).imp ?_ fun _ _ h => h
    rintro _ _ ⟨hs, rfl⟩
    exact ⟨hs, hshape⟩
  refine hdomain.bind fun rebuilt => ensures_of_fact fun hshape => ?_
  obtain ⟨context, hcontext⟩ :
      ∃ context, freeContext.buildContext rebuilt = .ok (context, freeContext.relevant rebuilt) :=
    buildContext_of_free (fun _ _ => rfl) (by decide : (0 : ℤ) ≤ 20000) rebuilt
  refine (ensures_ofExcept_ok hcontext).bind fun built => ensures_of_fact ?_
  rintro rfl
  refine (ensures_history_user huser).bind fun history => ensures_pure fun _ hs => ?_
  exact ⟨hs, uuid4, rebuilt, hshape, rfl⟩

/-- The chat is answered, and its sources are what the answer shows. -/
theorem ensures_execute_all :
    Ensures (fun _ => True) (RagChat.execute (plainChat search) Faults.none request)
      (fun response _ => ∃ used, UsesAnswer search.intFromStr
          (search.queryPoints (search.embed request.message).values request.topK queryFilter)
          used ∧
        response.sources = RagChat.buildSources used)
      fun _ _ => False := by
  have hprepare := ensures_prepare_all (F := fun _ => True) huser hcount hfilter
    fun _ _ _ => trivial
  refine hprepare.bind fun prepared => ensures_of_fact fun hused => ?_
  apply Ensures.bind (M := fun _ _ => True) (fun _ _ => trivial)
  intro response
  apply (ensures_saveTurn_user huser (fun _ _ _ => trivial) _).bind
  intro _
  apply Ensures.bind (M := fun _ _ => True) (fun _ _ => trivial)
  intro _
  exact ensures_pure fun _ _ => ⟨prepared.2, hused, rfl⟩

/-- The stream ends, and its one chunk lists what the answer shows. -/
theorem ensures_stream_all :
    Ensures (fun s => s.sent = []) (RagChat.stream (plainChat search) Faults.none request)
      (fun _ s => ∃ used, UsesAnswer search.intFromStr
          (search.queryPoints (search.embed request.message).values request.topK queryFilter)
          used ∧
        s.sent.map RagChat.StreamChunk.sources = [some (RagChat.buildSources used)])
      fun _ _ => False := by
  have hprepare := ensures_prepare_all (F := fun s => s.sent = []) huser hcount hfilter
    fun _ _ hs => hs
  refine hprepare.bind fun prepared => ensures_of_fact fun hused => ?_
  let unsent : RagChat.State Unit → Prop := fun s => s.sent = []
  refine Ensures.bind (M := fun _ => unsent) (fun _ hs => hs) fun _ => ?_
  refine Ensures.bind (M := fun _ => unsent) (fun _ hs => hs) fun fullContent => ?_
  refine Ensures.bind (M := fun _ => unsent) (fun _ hs => hs) fun promptTokens => ?_
  refine Ensures.bind (M := fun _ => unsent) (fun _ hs => hs) fun completionTokens => ?_
  refine Ensures.bind (M := fun _ s => s.sent.map RagChat.StreamChunk.sources =
    [some (RagChat.buildSources prepared.2)]) ?_ fun _ => ?_
  · intro s hs
    change (s.sent ++ [_]).map RagChat.StreamChunk.sources = _
    rw [show s.sent = [] from hs]
    rfl
  · apply (ensures_saveTurn_user huser (fun _ _ hs => hs) _).bind
    intro _
    exact fun _ hs => ⟨prepared.2, hused, hs⟩

end Plain

variable (hp : p ∈ store.items)
  (hfilter : buildFilter none (requestFilters (RagChat.searchRequest request)) =
    .ok queryFilter)
  (hmatches : Matches satisfies queryFilter p) (hreadable : Readable intFromStr p)
  (huser : ∃ user, RagChat.requestUser request = .ok user)

include hp hfilter hmatches hreadable huser

/-- The first source shows the point. -/
theorem ensures_execute_first :
    Ensures (fun _ => True)
      (RagChat.execute (favouringChat satisfies intFromStr store p) Faults.none
        request)
      (fun response _ => ∃ source ∈ response.sources,
        ShowsSource intFromStr p source)
      fun _ _ => False := by
  have hall : Ensures _ (RagChat.execute (favouringChat satisfies intFromStr store p)
      Faults.none request) _ _ := ensures_execute_all huser rfl hfilter
  refine hall.imp ?_ fun _ _ h => h
  rintro response _ ⟨used, hused, hsources⟩
  obtain ⟨rest, hanswer⟩ : ∃ rest, (favouringSearch satisfies intFromStr store p).queryPoints
      [] request.topK queryFilter = ⟨p, 1⟩ :: rest :=
    favouringSearch_first hp hmatches request.topK_pos []
  have hused : UsesAnswer intFromStr (⟨p, 1⟩ :: rest) used := hanswer ▸ hused
  obtain ⟨first, later, hfirst, hshows⟩ := hused.first hreadable
  exact ⟨RagChat.source 0 first, hsources ▸ source_mem_buildSources hfirst, first, 0,
    hshows, rfl⟩

theorem ensures_stream_first :
    Ensures (fun s => s.sent = [])
      (RagChat.stream (favouringChat satisfies intFromStr store p) Faults.none
        request)
      (fun _ s => ∃ chunk ∈ s.sent, ∃ sources, chunk.sources = some sources ∧
        ∃ source ∈ sources, ShowsSource intFromStr p source)
      fun _ _ => False := by
  have hall : Ensures _ (RagChat.stream (favouringChat satisfies intFromStr store p)
      Faults.none request) _ _ := ensures_stream_all huser rfl hfilter
  refine hall.imp ?_ fun _ _ h => h
  rintro _ s ⟨used, hused, hsources⟩
  obtain ⟨rest, hanswer⟩ : ∃ rest, (favouringSearch satisfies intFromStr store p).queryPoints
      [] request.topK queryFilter = ⟨p, 1⟩ :: rest :=
    favouringSearch_first hp hmatches request.topK_pos []
  have hused : UsesAnswer intFromStr (⟨p, 1⟩ :: rest) used := hanswer ▸ hused
  obtain ⟨first, later, hfirst, hshows⟩ := hused.first hreadable
  have hchunk : some (RagChat.buildSources used) ∈ s.sent.map RagChat.StreamChunk.sources := by
    rw [hsources]
    exact List.mem_singleton_self _
  obtain ⟨chunk, hchunk, hsource⟩ := List.mem_map.mp hchunk
  exact ⟨chunk, hchunk, _, hsource, RagChat.source 0 first, source_mem_buildSources hfirst,
    first, 0, hshows, rfl⟩

end Chat
end Needed

/-! ## Exactly when a request isolates a tenant -/

section Exact

variable {satisfies : Dict Json → FieldCondition → Bool}
  {intFromStr : String → Option ℤ} {tenantId : TenantId} {store : PointStore}

theorem ownedBy_of_id {p q : Point} (hp : p ∈ store.items)
    (hq : Own tenantId store q) (hid : q.id = p.id) : OwnedBy tenantId p := by
  obtain rfl : q = p := point_ext hq.1 hp hid
  exact hq.2

theorem onlyOwn_of_searchIsolated {request : SearchRequest}
    (hisolated : ∀ env : SearchDocuments.Env, env.intFromStr = intFromStr →
      Ranked satisfies store env.queryPoints →
        SearchIsolated tenantId store env request) :
    OnlyOwn satisfies intFromStr tenantId store request := by
  intro queryFilter hfilter p hp hmatches hreadable
  have hfirst : Ensures _ (SearchDocuments.execute
      (favouringSearch satisfies intFromStr store p) Faults.none request) _ _ :=
    ensures_search_first rfl hfilter
      (fun vector => favouringSearch_first hp hmatches request.topK_pos vector)
      hreadable
  have hresponse := hfirst 0 trivial
  split at hresponse
  next response drawn hrun =>
    obtain ⟨first, rest, hresults, hshows, -⟩ := hresponse
    obtain ⟨q, hq, hdto⟩ := hisolated
      (favouringSearch satisfies intFromStr store p) rfl
      (topPoints_ranked (favour p) store) Faults.none 0 response drawn hrun
      (resultDto first) (by simp [hresults])
    exact ownedBy_of_id hp hq (hdto.id_eq ⟨first, hshows, rfl⟩)
  next => exact hresponse.elim

theorem onlyOwn_of_executeIsolated {request : RagChat.ChatRequest}
    (huser : ∃ user, RagChat.requestUser request = .ok user)
    (hisolated : ∀ (H : Type) (env : RagChat.Env H),
      env.search.intFromStr = intFromStr →
      Ranked satisfies store env.search.queryPoints →
        ExecuteIsolated tenantId store env request) :
    OnlyOwn satisfies intFromStr tenantId store
      (RagChat.searchRequest request) := by
  intro queryFilter hfilter p hp hmatches hreadable
  have hresponse := ensures_execute_first hp hfilter hmatches hreadable huser
    { history := () } trivial
  split at hresponse
  next response s hrun =>
    obtain ⟨source, hsource, hshows⟩ := hresponse
    obtain ⟨q, hq, hshows'⟩ := (hisolated Unit
      (favouringChat satisfies intFromStr store p) rfl
      (topPoints_ranked (favour p) store) Faults.none { history := () } rfl
      rfl).2 response s hrun source hsource
    exact ownedBy_of_id hp hq (hshows'.id_eq hshows)
  next => exact hresponse.elim

theorem onlyOwn_of_streamIsolated {request : RagChat.ChatRequest}
    (huser : ∃ user, RagChat.requestUser request = .ok user)
    (hisolated : ∀ (H : Type) (env : RagChat.Env H),
      env.search.intFromStr = intFromStr →
      Ranked satisfies store env.search.queryPoints →
        StreamIsolated tenantId store env request) :
    OnlyOwn satisfies intFromStr tenantId store
      (RagChat.searchRequest request) := by
  intro queryFilter hfilter p hp hmatches hreadable
  have hstream := ensures_stream_first hp hfilter hmatches hreadable huser
  obtain ⟨chunk, hchunk, sources, hsources, source, hsource, hshows⟩ :=
    (hstream.impRaise fun _ _ h => h.elim).final (s := { history := () }) rfl
  obtain ⟨q, hq, hshows'⟩ := (hisolated Unit
    (favouringChat satisfies intFromStr store p) rfl
    (topPoints_ranked (favour p) store) Faults.none { history := () } rfl
    rfl).sent chunk hchunk sources hsources source hsource
  exact ownedBy_of_id hp hq (hshows'.id_eq hshows)

end Exact

/-! ## Two tenants in one store -/

/-- A server that compares the value under the key. -/
def keyword (payload : Dict Json) (condition : FieldCondition) : Bool :=
  match payload.get? condition.key, condition.value with
  | some (.str s), .str t => s == t
  | some (.int m), .int n => m == n
  | some (.bool a), .bool b => a == b
  | _, _ => false

/-- A point of a tenant in a collection. -/
def tenantPoint (id : Uuid) (tenantId : TenantId) (collectionId : CollectionId) :
    Point where
  id := .uuid id
  vector := [1]
  payload := ⟨[("tenant_id", .str tenantId.str), ("document_id", .str id.str),
    ("collection_id", .str collectionId.str), ("content", .str "minutes"),
    ("chunk_index", .int 0), ("document_title", .str "Meeting")], by simp⟩

theorem readable_tenantPoint (intFromStr : String → Option ℤ) (id : Uuid)
    (tenantId : TenantId) (collectionId : CollectionId) :
    Readable intFromStr (tenantPoint id tenantId collectionId) := by
  have hdocument : payloadGet (tenantPoint id tenantId collectionId).payload
      "document_id" (.str "") = .str id.str := rfl
  have hcollection : payloadGet (tenantPoint id tenantId collectionId).payload
      "collection_id" (.str id.str) = .str collectionId.str := rfl
  refine ⟨_, 1, id, toSearchResult_eq_ok_iff.mpr ⟨id, ?_, id, ?_, collectionId,
    ?_, rfl⟩⟩
  · exact Uuid.fromStr_str id
  · rw [hdocument]
    exact Uuid.fromStr_str id
  · rw [hcollection]
    exact Uuid.fromStr_str collectionId

/-- One point of each of two tenants, in different collections. -/
def sharedStore : PointStore :=
  ⟨[tenantPoint ⟨11⟩ ⟨1⟩ ⟨21⟩, tenantPoint ⟨12⟩ ⟨2⟩ ⟨22⟩], by decide⟩

/-- A search and a chat restricted to a collection, or not. -/
def meetingSearch (collectionId : Option String) : SearchRequest where
  query := "meeting"
  collectionId := collectionId
  query_ne := by decide
  topK_pos := by decide
  topK_le := by decide

def meetingChat (conversationId : Option String) : RagChat.ChatRequest where
  message := "meeting"
  conversationId := conversationId
  message_ne := by decide
  topK_pos := by decide
  topK_le := by decide

theorem not_ownedBy_other (id : Uuid) (collectionId : CollectionId) :
    ¬ OwnedBy ⟨1⟩ (tenantPoint id ⟨2⟩ collectionId) := by
  intro howned
  have hother : (tenantPoint id ⟨2⟩ collectionId).payload.get? "tenant_id" =
      some (.str (⟨2⟩ : Uuid).str) := rfl
  rw [OwnedBy, hother, Option.some.injEq, Json.str.injEq] at howned
  exact absurd (Uuid.str_injective howned) (by decide)

theorem not_onlyOwn_sharedStore {request : SearchRequest}
    (hfilters : requestFilters request = none) :
    ¬ OnlyOwn keyword (fun _ => none) ⟨1⟩ sharedStore request := by
  intro honly
  have howned : OwnedBy ⟨1⟩ (tenantPoint ⟨12⟩ ⟨2⟩ ⟨22⟩) :=
    honly none (by rw [hfilters]; rfl) _ (by simp [sharedStore])
      (by simp [Matches]) (readable_tenantPoint _ _ _ _)
  exact not_ownedBy_other _ _ howned

end Retrieval
end AiBackend

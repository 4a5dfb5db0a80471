import AiBackend.Retrieval.Isolation

/-!
# Two stores that a tenant cannot tell apart

Two stores may differ in the points of other tenants.  A tenant sees no
difference if its request matches no such point that can be read, and if those
that cannot be read take none of the places it has asked for.  The server here
scores every matching point, ranks them and cuts off.  The theorem at the end
is about both: whose points are shown, and which stores can be told apart.
-/

namespace AiBackend
namespace Retrieval

open Program Python QdrantVectorRepository SearchDocuments QueryServer

open Classical in
/-- The tenant's part of a store. -/
noncomputable def ownPart (tenantId : TenantId) (store : PointStore) : PointStore :=
  store.filter fun p => decide (OwnedBy tenantId p)

/-- The stores have the same points of the tenant, in the same order. -/
def AgreeOn (tenantId : TenantId) (store store' : PointStore) : Prop :=
  ownPart tenantId store = ownPart tenantId store'

/-- The request's own filter matches no readable point of anybody else, and the
unreadable ones keep none of the tenant's out of an answer: there are none, or
all matching points are asked for, or nothing can be read at all. -/
structure Undisturbed (satisfies : Dict Json → FieldCondition → Bool)
    (intFromStr : String → Option ℤ) (tenantId : TenantId) (store : PointStore)
    (request : SearchRequest) : Prop where
  onlyOwn : OnlyOwn satisfies intFromStr tenantId store request
  places : ∀ queryFilter, buildFilter none (requestFilters request) = .ok queryFilter →
    (∀ p ∈ store.items, Matches satisfies queryFilter p → OwnedBy tenantId p) ∨
      ((store.items.filter fun p => Matches satisfies queryFilter p).length : ℤ) ≤
          request.topK ∨
        ∀ p ∈ store.items, Matches satisfies queryFilter p → ¬ Readable intFromStr p

/-! ## What two stores show -/

section Same

variable (satisfies : Dict Json → FieldCondition → Bool)
  (intFromStr : String → Option ℤ) (store store' : PointStore)

/-- A search over the points of a store. -/
def onStore (score : List ℚ → Point → ℚ)
    (satisfies : Dict Json → FieldCondition → Bool) (store : PointStore)
    (env : SearchDocuments.Env) : SearchDocuments.Env :=
  { env with queryPoints := topPoints satisfies score store }

/-- A chat over the points of a store. -/
def chatOnStore {H : Type} (score : List ℚ → Point → ℚ)
    (satisfies : Dict Json → FieldCondition → Bool) (store : PointStore)
    (env : RagChat.Env H) : RagChat.Env H :=
  { env with search := onStore score satisfies store env.search }

/-- Over either store a search runs alike, whatever the scores, the other
services and the failures. -/
def SameSearch (request : SearchRequest) : Prop :=
  ∀ (score : List ℚ → Point → ℚ) (env : SearchDocuments.Env)
      (faults : Faults SearchDocuments.Site PyExc) (drawn : ℕ), env.intFromStr = intFromStr →
    (SearchDocuments.execute (onStore score satisfies store env) faults request).run drawn =
      (SearchDocuments.execute (onStore score satisfies store' env) faults request).run drawn

/-- What can be seen of two runs of a chat is the same: what they return, if
anything, what the provider was asked and what was sent to a consumer. -/
structure SeenAlike {H α : Type}
    (r r' : EStateM.Result (Raised PyExc) (RagChat.State H) α) : Prop where
  returned : returned r = returned r'
  asked : (finalState r).asked = (finalState r').asked
  sent : (finalState r).sent = (finalState r').sent

/-- So it is for a chat that is answered at once. -/
def SameExecute (request : RagChat.ChatRequest) : Prop :=
  ∀ (H : Type) (score : List ℚ → Point → ℚ) (env : RagChat.Env H)
      (faults : Faults RagChat.Site PyExc) (s : RagChat.State H),
    env.search.intFromStr = intFromStr →
      SeenAlike
        ((RagChat.execute (chatOnStore score satisfies store env) faults request).run s)
        ((RagChat.execute (chatOnStore score satisfies store' env) faults request).run s)

/-- And for a stream, wherever it stops. -/
def SameStream (request : RagChat.ChatRequest) : Prop :=
  ∀ (H : Type) (score : List ℚ → Point → ℚ) (env : RagChat.Env H)
      (faults : Faults RagChat.Site PyExc) (s : RagChat.State H),
    env.search.intFromStr = intFromStr →
      SeenAlike
        ((RagChat.stream (chatOnStore score satisfies store env) faults request).run s)
        ((RagChat.stream (chatOnStore score satisfies store' env) faults request).run s)

end Same

/-! ## What an answer shows -/

section Shown

variable {intFromStr : String → Option ℤ} {scored : ScoredPoint} {dto : SearchResultDTO}

/-- What a point of an answer shows, if it can be read. -/
def shownDto (intFromStr : String → Option ℤ) (scored : ScoredPoint) :
    Option SearchResultDTO :=
  (toSearchResult intFromStr ⟨0⟩ scored).toOption.map resultDto

/-- It does not depend on the identifier drawn. -/
theorem shownDto_eq_some_iff (fresh : Uuid) :
    shownDto intFromStr scored = some dto ↔ ∃ result,
      toSearchResult intFromStr fresh scored = .ok result ∧ resultDto result = dto := by
  have hdrawn : ∀ {fresh fresh' : Uuid} {result : SearchResult},
      toSearchResult intFromStr fresh scored = .ok result →
        ∃ result', toSearchResult intFromStr fresh' scored = .ok result' ∧
          resultDto result' = resultDto result := by
    intro fresh fresh' result hread
    obtain ⟨collectionId, hread'⟩ := toSearchResult_fresh hread fresh'
    exact ⟨_, hread', rfl⟩
  have hzero : shownDto intFromStr scored = some dto ↔ ∃ result,
      toSearchResult intFromStr ⟨0⟩ scored = .ok result ∧ resultDto result = dto := by
    rw [shownDto]
    cases toSearchResult intFromStr ⟨0⟩ scored with
    | ok result => simp [Except.toOption]
    | error e => simp [Except.toOption]
  rw [hzero]
  constructor
  · rintro ⟨result, hread, rfl⟩
    exact hdrawn hread
  · rintro ⟨result, hread, rfl⟩
    exact hdrawn hread

theorem shownDto_eq_none (h : ¬ Readable intFromStr scored.point) :
    shownDto intFromStr scored = none := by
  rw [Option.eq_none_iff_forall_ne_some]
  intro dto hdto
  obtain ⟨result, hread, -⟩ := (shownDto_eq_some_iff ⟨0⟩).mp hdto
  exact h ⟨result, scored.score, ⟨0⟩, hread⟩

theorem map_resultDto_readPoints (uuid4 : ℕ → Uuid) (answer : List ScoredPoint) :
    (readPoints intFromStr uuid4 answer).map resultDto =
      answer.filterMap (shownDto intFromStr) := by
  induction answer generalizing uuid4 with
  | nil => rfl
  | cons scored rest ih =>
      rw [readPoints]
      cases hread : toSearchResult intFromStr (uuid4 0) scored with
      | ok result =>
          have hshown : shownDto intFromStr scored = some (resultDto result) :=
            (shownDto_eq_some_iff (uuid4 0)).mpr ⟨result, hread, rfl⟩
          rw [List.filterMap_cons_some hshown, ← ih]
          rfl
      | error e =>
          have hshown : shownDto intFromStr scored = none := by
            rw [Option.eq_none_iff_forall_ne_some]
            intro dto hdto
            obtain ⟨result, hread', -⟩ := (shownDto_eq_some_iff (uuid4 0)).mp hdto
            rw [hread] at hread'
            cases hread'
          rw [List.filterMap_cons_none hshown, ← ih]

end Shown

/-! ## The condition is enough -/

section Enough

variable {satisfies : Dict Json → FieldCondition → Bool} {intFromStr : String → Option ℤ}
  {tenantId : TenantId} {store store' : PointStore}

theorem mem_ownPart {p : Point} :
    p ∈ (ownPart tenantId store).items ↔ p ∈ store.items ∧ OwnedBy tenantId p := by
  classical
  rw [ownPart, KeyedList.filter, List.mem_filter, decide_eq_true_iff]

theorem undisturbed_ownPart (request : SearchRequest) :
    Undisturbed satisfies intFromStr tenantId (ownPart tenantId store) request where
  onlyOwn := fun _ _ _ hp _ _ => (mem_ownPart.mp hp).2
  places := fun _ _ => Or.inl fun _ hp _ => (mem_ownPart.mp hp).2

theorem agreeOn_ownPart : AgreeOn tenantId store (ownPart tenantId store) := by
  classical
  have hitems : (ownPart tenantId store).items =
      (ownPart tenantId (ownPart tenantId store)).items := by
    symm
    rw [ownPart, KeyedList.filter, List.filter_eq_self]
    exact fun p hp => decide_eq_true (mem_ownPart.mp hp).2
  exact (KeyedList.mk.injEq ..).mpr hitems

variable {request : SearchRequest} {score : List ℚ → Point → ℚ}

/-- An answer shows what the tenant's part alone would show. -/
theorem shown_ownPart (h : Undisturbed satisfies intFromStr tenantId store request)
    {queryFilter : Option (List FieldCondition)}
    (hfilter : buildFilter none (requestFilters request) = .ok queryFilter) (vector : List ℚ) :
    (topPoints satisfies score store vector request.topK queryFilter).filterMap
        (shownDto intFromStr) =
      (topPoints satisfies score (ownPart tenantId store) vector request.topK
        queryFilter).filterMap (shownDto intFromStr) := by
  classical
  rcases h.places queryFilter hfilter with hown | hall | hnone
  · -- no other point matches
    refine congrArg (List.filterMap (shownDto intFromStr)) (topPoints_congr ?_)
    symm
    rw [ownPart, KeyedList.filter, List.filter_comm, List.filter_eq_self]
    intro p hp
    rw [List.mem_filter, decide_eq_true_iff] at hp
    exact decide_eq_true (hown p hp.1 hp.2)
  · -- no point is cut off, and those left out cannot be read
    rw [ownPart, topPoints_filter hall, List.filterMap_filter]
    apply List.filterMap_congr
    intro scored hscored
    obtain ⟨hstored, hmatches⟩ := mem_topPoints hscored
    by_cases howned : OwnedBy tenantId scored.point
    · rw [if_pos (decide_eq_true howned)]
    · rw [if_neg (by simpa using howned)]
      exact shownDto_eq_none fun hreadable =>
        howned (h.onlyOwn queryFilter hfilter scored.point hstored hmatches hreadable)
  · -- nothing can be read
    have hempty : ∀ answer : List ScoredPoint,
        (∀ scored ∈ answer, scored.point ∈ store.items ∧
          Matches satisfies queryFilter scored.point) →
        answer.filterMap (shownDto intFromStr) = [] := by
      intro answer hanswer
      rw [List.filterMap_eq_nil_iff]
      intro scored hscored
      obtain ⟨hstored, hmatches⟩ := hanswer scored hscored
      exact shownDto_eq_none (hnone scored.point hstored hmatches)
    rw [hempty _ fun scored hscored => mem_topPoints hscored, hempty _ fun scored hscored => ?_]
    obtain ⟨hstored, hmatches⟩ := mem_topPoints hscored
    exact ⟨(mem_ownPart.mp hstored).1, hmatches⟩

/-- A search runs as over the tenant's part alone. -/
theorem search_ownPart {env : SearchDocuments.Env}
    (h : Undisturbed satisfies env.intFromStr tenantId store request)
    (faults : Faults SearchDocuments.Site PyExc) :
    SearchDocuments.execute (onStore score satisfies store env) faults request =
      SearchDocuments.execute (onStore score satisfies (ownPart tenantId store) env) faults
        request := by
  unfold SearchDocuments.execute
  refine bind_congr fun queryTokens => bind_congr fun queryEmbedding =>
    bind_congr fun uuid4 => ?_
  have hsearch : (QdrantVectorRepository.search (topPoints satisfies score store)
        env.intFromStr uuid4 queryEmbedding request.topK (requestFilters request) none).map
          (List.map resultDto) =
      (QdrantVectorRepository.search (topPoints satisfies score (ownPart tenantId store))
        env.intFromStr uuid4 queryEmbedding request.topK (requestFilters request) none).map
          (List.map resultDto) := by
    unfold QdrantVectorRepository.search
    cases hfilter : buildFilter none (requestFilters request) with
    | error e => rfl
    | ok queryFilter =>
        refine congrArg Except.ok ?_
        rw [map_resultDto_readPoints, map_resultDto_readPoints]
        exact shown_ownPart h hfilter queryEmbedding.values
  let next : List SearchResultDTO → SearchDocuments.Prog SearchResponse := fun resultDtos => do
    perform faults .logCompleted (pure ())
    pure ⟨resultDtos, resultDtos.length, queryTokens⟩
  exact perform_ofExcept_bind_congr hsearch next

theorem sameSearch_of_undisturbed (hagree : AgreeOn tenantId store store')
    (h : Undisturbed satisfies intFromStr tenantId store request)
    (h' : Undisturbed satisfies intFromStr tenantId store' request) :
    SameSearch satisfies intFromStr store store' request := by
  rintro score env faults drawn rfl
  rw [search_ownPart h, search_ownPart h', hagree]

section Chat

variable {chat : RagChat.ChatRequest}

/-- So does a chat, as a whole. -/
theorem chat_ownPart {H : Type} {env : RagChat.Env H}
    (h : Undisturbed satisfies env.search.intFromStr tenantId store
      (RagChat.searchRequest chat)) (faults : Faults RagChat.Site PyExc) :
    RagChat.execute (chatOnStore score satisfies store env) faults chat =
        RagChat.execute (chatOnStore score satisfies (ownPart tenantId store) env) faults chat ∧
      RagChat.stream (chatOnStore score satisfies store env) faults chat =
        RagChat.stream (chatOnStore score satisfies (ownPart tenantId store) env) faults
          chat := by
  have hsearch : RagChat.search (chatOnStore score satisfies store env) faults
        (RagChat.searchRequest chat) =
      RagChat.search (chatOnStore score satisfies (ownPart tenantId store) env) faults
        (RagChat.searchRequest chat) :=
    congrArg (focus RagChat.State.drawn fun drawn s => { s with drawn := drawn })
      (search_ownPart h _)
  have hprepare : RagChat.prepare (chatOnStore score satisfies store env) faults chat =
      RagChat.prepare (chatOnStore score satisfies (ownPart tenantId store) env) faults
        chat := by
    unfold RagChat.prepare
    rw [hsearch]
    rfl
  constructor
  · unfold RagChat.execute
    rw [hprepare]
    rfl
  · unfold RagChat.stream
    rw [hprepare]
    rfl

/-- A chat whose user cannot be read ends before the provider is asked. -/
theorem ensures_prepare_unreadable {H : Type} {env : RagChat.Env H}
    (huser : ¬ ∃ user, RagChat.requestUser chat = .ok user)
    (faults : Faults RagChat.Site PyExc) (s : RagChat.State H) :
    Ensures (fun t => t.asked = s.asked ∧ t.sent = s.sent)
      (RagChat.prepare env faults chat) (fun _ _ => False)
      fun _ t => t.asked = s.asked ∧ t.sent = s.sent := by
  have hany : Answers (fun _ => True) env.search (RagChat.searchRequest chat) :=
    fun _ _ _ _ _ _ _ => trivial
  exact (ensures_prepare (fun _ _ ht => ht) hany).impReturn fun _ _ h => huser h.2.1

theorem ensures_execute_unreadable {H : Type} {env : RagChat.Env H}
    (huser : ¬ ∃ user, RagChat.requestUser chat = .ok user)
    (faults : Faults RagChat.Site PyExc) (s : RagChat.State H) :
    Ensures (fun t => t.asked = s.asked ∧ t.sent = s.sent)
      (RagChat.execute env faults chat) (fun _ _ => False)
      fun _ t => t.asked = s.asked ∧ t.sent = s.sent :=
  (ensures_prepare_unreadable huser faults s).bind fun _ _ h => h.elim

theorem ensures_stream_unreadable {H : Type} {env : RagChat.Env H}
    (huser : ¬ ∃ user, RagChat.requestUser chat = .ok user)
    (faults : Faults RagChat.Site PyExc) (s : RagChat.State H) :
    Ensures (fun t => t.asked = s.asked ∧ t.sent = s.sent)
      (RagChat.stream env faults chat) (fun _ _ => False)
      fun _ t => t.asked = s.asked ∧ t.sent = s.sent :=
  (ensures_prepare_unreadable huser faults s).bind fun _ _ h => h.elim

/-- Two runs that raise without having told anything are seen alike. -/
theorem seenAlike_of_silent {H α : Type} {s : RagChat.State H}
    {prog prog' : EStateM (Raised PyExc) (RagChat.State H) α}
    (h : Ensures (fun t => t.asked = s.asked ∧ t.sent = s.sent) prog (fun _ _ => False)
      fun _ t => t.asked = s.asked ∧ t.sent = s.sent)
    (h' : Ensures (fun t => t.asked = s.asked ∧ t.sent = s.sent) prog' (fun _ _ => False)
      fun _ t => t.asked = s.asked ∧ t.sent = s.sent) :
    SeenAlike (prog.run s) (prog'.run s) := by
  have hrun := h s ⟨rfl, rfl⟩
  have hrun' := h' s ⟨rfl, rfl⟩
  cases hprog : prog.run s with
  | ok a t =>
      rw [hprog] at hrun
      exact hrun.elim
  | error e t =>
      cases hprog' : prog'.run s with
      | ok a t' =>
          rw [hprog'] at hrun'
          exact hrun'.elim
      | error e' t' =>
          rw [hprog] at hrun
          rw [hprog'] at hrun'
          exact ⟨rfl, hrun.1.trans hrun'.1.symm, hrun.2.trans hrun'.2.symm⟩

variable (hagree : AgreeOn tenantId store store')
  (h : (∃ user, RagChat.requestUser chat = .ok user) →
    Undisturbed satisfies intFromStr tenantId store (RagChat.searchRequest chat))
  (h' : (∃ user, RagChat.requestUser chat = .ok user) →
    Undisturbed satisfies intFromStr tenantId store' (RagChat.searchRequest chat))

include hagree h h'

theorem sameExecute_of_undisturbed : SameExecute satisfies intFromStr store store' chat := by
  rintro H score env faults s rfl
  by_cases huser : ∃ user, RagChat.requestUser chat = .ok user
  · rw [(chat_ownPart (h huser) faults).1, (chat_ownPart (h' huser) faults).1, hagree]
    exact ⟨rfl, rfl, rfl⟩
  · exact seenAlike_of_silent (ensures_execute_unreadable huser faults s)
      (ensures_execute_unreadable huser faults s)

theorem sameStream_of_undisturbed : SameStream satisfies intFromStr store store' chat := by
  rintro H score env faults s rfl
  by_cases huser : ∃ user, RagChat.requestUser chat = .ok user
  · rw [(chat_ownPart (h huser) faults).2, (chat_ownPart (h' huser) faults).2, hagree]
    exact ⟨rfl, rfl, rfl⟩
  · exact seenAlike_of_silent (ensures_stream_unreadable huser faults s)
      (ensures_stream_unreadable huser faults s)

end Chat
end Enough

/-! ## The condition is needed

The identifiers in what a chat shows of an answer tell the stores apart. -/

section Needed

/-- The identifiers of the points that are shown, above the threshold. -/
def shownIds (intFromStr : String → Option ℤ) (answer : List ScoredPoint) : List String :=
  ((answer.filterMap (shownDto intFromStr)).filter fun dto =>
    freeContext.scoreThreshold ≤ dto.score).map SearchResultDTO.chunkId

section Ids

variable {intFromStr : String → Option ℤ} {answer : List ScoredPoint} {p : Point}

/-- What a chat uses of an answer has these identifiers. -/
theorem UsesAnswer.ids {used : List SearchResult} (h : UsesAnswer intFromStr answer used) :
    (RagChat.buildSources used).map RagChat.SourceDTO.chunkId = shownIds intFromStr answer := by
  obtain ⟨uuid4, rebuilt, hrebuilt, rfl⟩ := h
  have hsources : ∀ used : List SearchResult,
      (RagChat.buildSources used).map RagChat.SourceDTO.chunkId =
        used.map fun result => result.chunkId.str := by
    intro used
    apply List.ext_getElem?
    intro i
    rw [RagChat.buildSources, List.getElem?_map, List.getElem?_mapIdx, List.getElem?_map,
      Option.map_map]
    rfl
  rw [hsources, shownIds, ← map_resultDto_readPoints uuid4, ContextService.relevant]
  generalize readPoints intFromStr uuid4 answer = results at hrebuilt
  induction hrebuilt with
  | nil => rfl
  | @cons result _ results _ hfirst _ ih =>
      obtain ⟨collectionId, rfl⟩ := hfirst
      by_cases hrelevant : freeContext.scoreThreshold ≤ result.score
      · rw [List.map_cons, List.filter_cons_of_pos (by simpa using hrelevant),
          List.filter_cons_of_pos (by exact decide_eq_true hrelevant), List.map_cons,
          List.map_cons, ih]
        rfl
      · rw [List.map_cons, List.filter_cons_of_neg (by simpa using hrelevant),
          List.filter_cons_of_neg (by exact fun h => hrelevant (of_decide_eq_true h)), ih]

theorem exists_shown {score : ℚ} (hmem : ⟨p, score⟩ ∈ answer)
    (hscore : freeContext.scoreThreshold ≤ score ∧ score ≤ 1) (hreadable : Readable intFromStr p) :
    ∃ u : Uuid, p.id = .uuid u ∧ u.str ∈ shownIds intFromStr answer := by
  obtain ⟨result, score', fresh, hread⟩ := hreadable
  have hpositive : (0 : ℚ) ≤ freeContext.scoreThreshold := by
    rw [freeContext]
    norm_num
  obtain ⟨result', hread', hsame⟩ :=
    toSearchResult_ok_of_ok hread ⟨0⟩ ⟨hpositive.trans hscore.1, hscore.2⟩
  refine ⟨result'.chunkId, id_of_toSearchResult hread', List.mem_map.mpr
    ⟨resultDto result', List.mem_filter.mpr ⟨List.mem_filterMap.mpr ⟨_, hmem,
      (shownDto_eq_some_iff ⟨0⟩).mpr ⟨result', hread', rfl⟩⟩, ?_⟩, rfl⟩⟩
  exact decide_eq_true (hscore.1.trans_eq hsame.symm)

theorem exists_of_mem_shownIds {u : Uuid} (h : u.str ∈ shownIds intFromStr answer) :
    ∃ scored ∈ answer, scored.point.id = .uuid u := by
  obtain ⟨dto, hdto, hid⟩ := List.mem_map.mp h
  obtain ⟨scored, hscored, hshown⟩ := List.mem_filterMap.mp (List.mem_filter.mp hdto).1
  obtain ⟨result, hread, rfl⟩ := (shownDto_eq_some_iff ⟨0⟩).mp hshown
  obtain rfl : result.chunkId = u := Uuid.str_injective hid
  exact ⟨scored, hscored, id_of_toSearchResult hread⟩

end Ids

/-- The given points score 1, the one that they keep out 9/10, all others 0. -/
def crowding (above : List Point) (p : Point) (_ : List ℚ) (q : Point) : ℚ :=
  if q.id = p.id then 9 / 10 else if q.id ∈ above.map Point.id then 1 else 0

variable {satisfies : Dict Json → FieldCondition → Bool} {intFromStr : String → Option ℤ}
  {tenantId : TenantId} {store : PointStore} {request : SearchRequest}
  {queryFilter : Option (List FieldCondition)}

/-- If the tenant's part shows the same, no readable point of anybody else
matches. -/
theorem ownedBy_of_shownIds {p : Point} (hp : p ∈ store.items)
    (hmatches : Matches satisfies queryFilter p) (hreadable : Readable intFromStr p)
    (hsame : shownIds intFromStr
        (topPoints satisfies (favour p) store [] request.topK queryFilter) =
      shownIds intFromStr
        (topPoints satisfies (favour p) (ownPart tenantId store) [] request.topK queryFilter)) :
    OwnedBy tenantId p := by
  have hfirst : ∃ rest, (favouringSearch satisfies intFromStr store p).queryPoints
      [] request.topK queryFilter = ⟨p, 1⟩ :: rest :=
    favouringSearch_first hp hmatches request.topK_pos []
  obtain ⟨rest, hanswer⟩ : ∃ rest, topPoints satisfies (favour p) store [] request.topK
    queryFilter = ⟨p, 1⟩ :: rest := hfirst
  have hscore : freeContext.scoreThreshold ≤ 1 ∧ (1 : ℚ) ≤ 1 := by
    rw [freeContext]
    norm_num
  have hmem : ⟨p, 1⟩ ∈ topPoints satisfies (favour p) store [] request.topK queryFilter :=
    hanswer.symm ▸ List.mem_cons_self
  obtain ⟨u, hid, hshown⟩ := exists_shown hmem hscore hreadable
  obtain ⟨scored, hscored, hid'⟩ := exists_of_mem_shownIds (hsame ▸ hshown)
  obtain ⟨hstored, howned⟩ := mem_ownPart.mp (mem_topPoints hscored).1
  exact point_ext hp hstored (hid.trans hid'.symm) ▸ howned

/-- A list of points that fill an answer, though the tenant's among them do not. -/
theorem exists_crowd {p q : Point} (hp : p ∈ store.items)
    (hmatches : Matches satisfies queryFilter p) (howned : OwnedBy tenantId p)
    (hq : q ∈ store.items) (hmatchesq : Matches satisfies queryFilter q)
    (hother : ¬ OwnedBy tenantId q)
    (hmany : request.topK <
      (store.items.filter fun p => Matches satisfies queryFilter p).length) :
    ∃ above own : List Point, above.Nodup ∧ request.topK.toNat ≤ above.length ∧
      own.length < request.topK.toNat ∧
        (∀ r ∈ above, r ∈ store.items ∧ Matches satisfies queryFilter r ∧ r ≠ p) ∧
          ∀ r ∈ above, OwnedBy tenantId r → r ∈ own := by
  classical
  let matching := store.items.filter fun r => Matches satisfies queryFilter r
  let others := matching.filter fun r => ¬ OwnedBy tenantId r
  let allOwn := matching.filter fun r => OwnedBy tenantId r ∧ r ≠ p
  let own := allOwn.take (request.topK.toNat - 1)
  have hmatching : ∀ r, r ∈ matching ↔ r ∈ store.items ∧ Matches satisfies queryFilter r := by
    intro r
    rw [List.mem_filter, decide_eq_true_iff]
  have hothers : ∀ r, r ∈ others ↔ r ∈ matching ∧ ¬ OwnedBy tenantId r := by
    intro r
    rw [List.mem_filter, decide_eq_true_iff]
  have hallOwn : ∀ r, r ∈ allOwn ↔ r ∈ matching ∧ OwnedBy tenantId r ∧ r ≠ p := by
    intro r
    rw [List.mem_filter, decide_eq_true_iff]
  have hown : ∀ r ∈ own, r ∈ matching ∧ OwnedBy tenantId r ∧ r ≠ p := fun r hr =>
    (hallOwn r).mp (List.mem_of_mem_take hr)
  have hnodup : matching.Nodup := store.nodup.of_map.filter _
  have hcount : matching.length ≤ others.length + allOwn.length + 1 := by
    have hsub : matching.Subperm (p :: (others ++ allOwn)) := by
      refine List.subperm_of_subset hnodup fun r hr => ?_
      rw [List.mem_cons, List.mem_append, hothers, hallOwn]
      tauto
    have hlength := hsub.length_le
    rw [List.length_cons, List.length_append] at hlength
    exact hlength
  have hlength : own.length = min (request.topK.toNat - 1) allOwn.length := List.length_take
  have hpos : 0 < others.length := by
    apply List.length_pos_of_mem (a := q)
    rw [hothers, hmatching]
    exact ⟨⟨hq, hmatchesq⟩, hother⟩
  have hlimit := request.topK_pos
  have hmany : request.topK < matching.length := hmany
  refine ⟨others ++ own, own, ?_, ?_, by omega, ?_, ?_⟩
  · refine (hnodup.filter _).append ((hnodup.filter _).sublist (List.take_sublist _ _)) ?_
    intro r hr hr'
    exact ((hothers r).mp hr).2 (hown r hr').2.1
  · rw [List.length_append]
    omega
  · intro r hr
    rcases List.mem_append.mp hr with hr | hr
    · obtain ⟨hmatch, hforeign⟩ := (hothers r).mp hr
      obtain ⟨hstored, hr⟩ := (hmatching r).mp hmatch
      refine ⟨hstored, hr, ?_⟩
      rintro rfl
      exact hforeign howned
    · obtain ⟨hmatch, -, hne⟩ := hown r hr
      obtain ⟨hstored, hr⟩ := (hmatching r).mp hmatch
      exact ⟨hstored, hr, hne⟩
  · intro r hr howner
    rcases List.mem_append.mp hr with hr | hr
    · exact absurd howner ((hothers r).mp hr).2
    · exact hr

/-- If the tenant's part shows the same whatever the scores, the condition
holds. -/
theorem undisturbed_of_shownIds
    (hsame : ∀ queryFilter, buildFilter none (requestFilters request) = .ok queryFilter →
      ∀ score : List ℚ → Point → ℚ,
        shownIds intFromStr (topPoints satisfies score store [] request.topK queryFilter) =
          shownIds intFromStr
            (topPoints satisfies score (ownPart tenantId store) [] request.topK queryFilter)) :
    Undisturbed satisfies intFromStr tenantId store request := by
  have honly : OnlyOwn satisfies intFromStr tenantId store request :=
    fun queryFilter hfilter p hp hmatches hreadable =>
      ownedBy_of_shownIds hp hmatches hreadable (hsame queryFilter hfilter (favour p))
  refine ⟨honly, fun queryFilter hfilter => ?_⟩
  by_contra hplaces
  push Not at hplaces
  obtain ⟨⟨q, hq, hmatchesq, hother⟩, hmany, p, hp, hmatches, hreadable⟩ := hplaces
  have howned : OwnedBy tenantId p := honly queryFilter hfilter p hp hmatches hreadable
  obtain ⟨above, own, hnodup, hfull, hroom, habove, hown⟩ :=
    exists_crowd hp hmatches howned hq hmatchesq hother hmany
  have hp_score : ∀ vector, crowding above p vector p = 9 / 10 := fun _ => if_pos rfl
  have habove_score : ∀ r ∈ above, crowding above p [] r = 1 := by
    intro r hr
    have hne : r.id ≠ p.id := fun hid => (habove r hr).2.2 (point_ext (habove r hr).1 hp hid)
    rw [crowding, if_neg hne, if_pos (List.mem_map_of_mem hr)]
  -- the tenant's part has room for the point
  have hin : ⟨p, 9 / 10⟩ ∈ topPoints satisfies (crowding above p) (ownPart tenantId store) []
      request.topK queryFilter := by
    rw [← hp_score []]
    refine (topPoints_exact _ _).mem (mem_ownPart.mpr ⟨hp, howned⟩) hmatches ?_ hroom
    intro r hr _ hne hscore
    obtain ⟨hstored, howner⟩ := mem_ownPart.mp hr
    have hid : r.id ≠ p.id := fun hid => hne (point_ext hstored hp hid)
    rw [hp_score, crowding, if_neg hid] at hscore
    split at hscore
    next hlisted =>
      obtain ⟨a, ha, hida⟩ := List.mem_map.mp hlisted
      obtain rfl : a = r := point_ext (habove a ha).1 hstored hida
      exact hown a ha howner
    next => norm_num at hscore
  -- the store has none
  have hout : ∀ scored ∈ topPoints satisfies (crowding above p) store [] request.topK
      queryFilter, scored.point ≠ p := by
    refine (topPoints_exact _ _).not_mem hnodup (fun r hr => ?_) hfull
    refine ⟨(habove r hr).1, (habove r hr).2.1, ?_⟩
    rw [hp_score, habove_score r hr]
    norm_num
  have hscore : freeContext.scoreThreshold ≤ 9 / 10 ∧ (9 / 10 : ℚ) ≤ 1 := by
    rw [freeContext]
    norm_num
  obtain ⟨u, hid, hshown⟩ := exists_shown hin hscore hreadable
  obtain ⟨scored, hscored, hid'⟩ :=
    exists_of_mem_shownIds (hsame queryFilter hfilter (crowding above p) ▸ hshown)
  exact hout scored hscored
    (point_ext (mem_topPoints hscored).1 hp (hid'.trans hid.symm))

theorem undisturbed_of_sameSearch
    (h : SameSearch satisfies intFromStr store (ownPart tenantId store) request) :
    Undisturbed satisfies intFromStr tenantId store request := by
  refine undisturbed_of_shownIds fun queryFilter hfilter score => ?_
  let plain := plainSearch intFromStr fun _ _ _ => []
  have hfinds : ∀ store : PointStore, ∃ response drawn uuid4,
      (SearchDocuments.execute (onStore score satisfies store plain) Faults.none request).run 0 =
          .ok response drawn ∧
        response.results = (readPoints intFromStr uuid4
          (topPoints satisfies score store [] request.topK queryFilter)).map resultDto := by
    intro store
    have hall : Ensures _ (SearchDocuments.execute (onStore score satisfies store plain)
      Faults.none request) _ _ := ensures_search_all rfl hfilter
    obtain ⟨response, drawn, hrun, uuid4, hresults⟩ := hall.exists_ok (s := 0) trivial
    exact ⟨response, drawn, uuid4, hrun, hresults⟩
  obtain ⟨response, drawn, uuid4, hrun, hresults⟩ := hfinds store
  obtain ⟨response', drawn', uuid4', hrun', hresults'⟩ := hfinds (ownPart tenantId store)
  have hruns := h score plain Faults.none 0 rfl
  rw [hrun, hrun'] at hruns
  cases hruns
  rw [shownIds, shownIds, ← map_resultDto_readPoints uuid4, ← map_resultDto_readPoints uuid4',
    ← hresults, ← hresults']

section Chat

variable {chat : RagChat.ChatRequest} (huser : ∃ user, RagChat.requestUser chat = .ok user)

include huser

theorem undisturbed_of_sameExecute
    (h : SameExecute satisfies intFromStr store (ownPart tenantId store) chat) :
    Undisturbed satisfies intFromStr tenantId store (RagChat.searchRequest chat) := by
  refine undisturbed_of_shownIds fun queryFilter hfilter score => ?_
  let plain := plainChat (plainSearch intFromStr fun _ _ _ => [])
  have hanswers : ∀ store : PointStore, ∃ response s',
      (RagChat.execute (chatOnStore score satisfies store plain) Faults.none chat).run
          { history := () } = .ok response s' ∧
        response.sources.map RagChat.SourceDTO.chunkId = shownIds intFromStr
          (topPoints satisfies score store [] chat.topK queryFilter) := by
    intro store
    have hall : Ensures _ (RagChat.execute (chatOnStore score satisfies store plain)
      Faults.none chat) _ _ := ensures_execute_all huser rfl hfilter
    obtain ⟨response, s', hrun, used, hused, hsources⟩ :=
      hall.exists_ok (s := { history := () }) trivial
    exact ⟨response, s', hrun, hsources ▸ hused.ids⟩
  obtain ⟨response, s, hrun, hids⟩ := hanswers store
  obtain ⟨response', s', hrun', hids'⟩ := hanswers (ownPart tenantId store)
  have hruns := (h Unit score plain Faults.none { history := () } rfl).returned
  rw [hrun, hrun'] at hruns
  obtain rfl := Option.some.inj hruns
  exact hids.symm.trans hids'

theorem undisturbed_of_sameStream
    (h : SameStream satisfies intFromStr store (ownPart tenantId store) chat) :
    Undisturbed satisfies intFromStr tenantId store (RagChat.searchRequest chat) := by
  refine undisturbed_of_shownIds fun queryFilter hfilter score => ?_
  let plain := plainChat (plainSearch intFromStr fun _ _ _ => [])
  have hsends : ∀ store : PointStore, ∃ sources,
      (finalState ((RagChat.stream (chatOnStore score satisfies store plain) Faults.none
          chat).run { history := () })).sent.map RagChat.StreamChunk.sources =
          [some sources] ∧
        sources.map RagChat.SourceDTO.chunkId = shownIds intFromStr
          (topPoints satisfies score store [] chat.topK queryFilter) := by
    intro store
    have hall : Ensures _ (RagChat.stream (chatOnStore score satisfies store plain)
      Faults.none chat) _ _ := ensures_stream_all huser rfl hfilter
    obtain ⟨_, s', hrun, used, hused, hsources⟩ := hall.exists_ok (s := { history := () }) rfl
    exact ⟨RagChat.buildSources used, by rw [hrun]; exact hsources, hused.ids⟩
  obtain ⟨sources, hsent, hids⟩ := hsends store
  obtain ⟨sources', hsent', hids'⟩ := hsends (ownPart tenantId store)
  have hruns := (h Unit score plain Faults.none { history := () } rfl).sent
  rw [hruns, hsent'] at hsent
  obtain rfl : sources' = sources := Option.some.inj (List.singleton_inj.mp hsent)
  exact hids.symm.trans hids'

end Chat
end Needed

/-- Whatever the services do: a search shows the tenant's points only, exactly
if its filter matches no readable point of anybody else; and it runs alike over
stores that agree on the tenant's points, exactly as far as no unreadable point
of anybody else takes a place either.  So for the two ways to chat, unless the
user of the request cannot be read. -/
theorem retrieval_isolated_iff (satisfies : Dict Json → FieldCondition → Bool)
    (intFromStr : String → Option ℤ) (tenantId : TenantId) (store : PointStore)
    (search : SearchRequest) (chat : RagChat.ChatRequest) :
    (((∀ env : SearchDocuments.Env, env.intFromStr = intFromStr →
            Ranked satisfies store env.queryPoints →
              SearchIsolated tenantId store env search) ↔
          OnlyOwn satisfies intFromStr tenantId store search) ∧
        ((∀ (H : Type) (env : RagChat.Env H), env.search.intFromStr = intFromStr →
              Ranked satisfies store env.search.queryPoints →
                ExecuteIsolated tenantId store env chat) ↔
            ((∃ user, RagChat.requestUser chat = .ok user) →
              OnlyOwn satisfies intFromStr tenantId store
                (RagChat.searchRequest chat))) ∧
          ((∀ (H : Type) (env : RagChat.Env H),
              env.search.intFromStr = intFromStr →
                Ranked satisfies store env.search.queryPoints →
                  StreamIsolated tenantId store env chat) ↔
            ((∃ user, RagChat.requestUser chat = .ok user) →
              OnlyOwn satisfies intFromStr tenantId store
                (RagChat.searchRequest chat)))) ∧
      ((∀ store', AgreeOn tenantId store store' →
            Undisturbed satisfies intFromStr tenantId store' search →
              SameSearch satisfies intFromStr store store' search) ↔
          Undisturbed satisfies intFromStr tenantId store search) ∧
        ((∀ store', AgreeOn tenantId store store' →
              ((∃ user, RagChat.requestUser chat = .ok user) →
                Undisturbed satisfies intFromStr tenantId store'
                  (RagChat.searchRequest chat)) →
                SameExecute satisfies intFromStr store store' chat) ↔
            ((∃ user, RagChat.requestUser chat = .ok user) →
              Undisturbed satisfies intFromStr tenantId store
                (RagChat.searchRequest chat))) ∧
          ((∀ store', AgreeOn tenantId store store' →
              ((∃ user, RagChat.requestUser chat = .ok user) →
                Undisturbed satisfies intFromStr tenantId store'
                  (RagChat.searchRequest chat)) →
                SameStream satisfies intFromStr store store' chat) ↔
            ((∃ user, RagChat.requestUser chat = .ok user) →
              Undisturbed satisfies intFromStr tenantId store
                (RagChat.searchRequest chat))) := by
  refine ⟨⟨⟨onlyOwn_of_searchIsolated, ?_⟩,
    ⟨fun h huser => onlyOwn_of_executeIsolated huser h, ?_⟩,
    ⟨fun h huser => onlyOwn_of_streamIsolated huser h, ?_⟩⟩,
    ⟨fun h => ?_, fun h store' hagree h' => sameSearch_of_undisturbed hagree h h'⟩,
    ⟨fun h huser => ?_, fun h store' hagree h' => sameExecute_of_undisturbed hagree h h'⟩,
    ⟨fun h huser => ?_, fun h store' hagree h' => sameStream_of_undisturbed hagree h h'⟩⟩
  · rintro honly env rfl hranked
    exact searchIsolated_of_onlyOwn hranked honly
  · rintro honly H env rfl hranked
    exact executeIsolated_of_onlyOwn hranked honly
  · rintro honly H env rfl hranked
    exact streamIsolated_of_onlyOwn hranked honly
  · exact undisturbed_of_sameSearch (h _ agreeOn_ownPart (undisturbed_ownPart _))
  · exact undisturbed_of_sameExecute huser
      (h _ agreeOn_ownPart fun _ => undisturbed_ownPart _)
  · exact undisturbed_of_sameStream huser
      (h _ agreeOn_ownPart fun _ => undisturbed_ownPart _)

/-! ## Two tenants in one store -/

/-- The other tenant has another point. -/
def otherStore : PointStore :=
  ⟨[tenantPoint ⟨11⟩ ⟨1⟩ ⟨21⟩, tenantPoint ⟨13⟩ ⟨2⟩ ⟨22⟩], by decide⟩

theorem agreeOn_otherStore : AgreeOn ⟨1⟩ sharedStore otherStore := by
  have hown : OwnedBy ⟨1⟩ (tenantPoint ⟨11⟩ ⟨1⟩ ⟨21⟩) := rfl
  simp [AgreeOn, ownPart, KeyedList.filter, sharedStore, otherStore, hown, not_ownedBy_other]

/-- A request about the tenant's collection matches no point of the other. -/
theorem undisturbed_meeting {store : PointStore}
    (hstore : ∀ p ∈ store.items,
      p = tenantPoint ⟨11⟩ ⟨1⟩ ⟨21⟩ ∨ ∃ id, p = tenantPoint id ⟨2⟩ ⟨22⟩)
    {request : SearchRequest}
    (hfilters : requestFilters request =
      requestFilters (meetingSearch (some (⟨21⟩ : Uuid).str))) :
    Undisturbed keyword (fun _ => none) ⟨1⟩ store request := by
  have hown : ∀ queryFilter, buildFilter none (requestFilters request) = .ok queryFilter →
      ∀ p ∈ store.items, Matches keyword queryFilter p → OwnedBy ⟨1⟩ p := by
    intro queryFilter hfilter p hp hmatches
    have hbuilt : buildFilter none
        (requestFilters (meetingSearch (some (⟨21⟩ : Uuid).str))) =
        .ok (some [⟨"collection_id", .str (⟨21⟩ : Uuid).str⟩]) := rfl
    rw [hfilters, hbuilt, Except.ok.injEq] at hfilter
    subst hfilter
    rcases hstore p hp with rfl | ⟨id, rfl⟩
    · rfl
    · have hother : keyword (tenantPoint id ⟨2⟩ ⟨22⟩).payload
          ⟨"collection_id", .str (⟨21⟩ : Uuid).str⟩ = false := rfl
      have hmatch := hmatches ⟨"collection_id", .str (⟨21⟩ : Uuid).str⟩ (by simp)
      rw [hother] at hmatch
      cases hmatch
  exact ⟨fun queryFilter hfilter p hp hmatches _ => hown queryFilter hfilter p hp hmatches,
    fun queryFilter hfilter => Or.inl (hown queryFilter hfilter)⟩

theorem retrieval_isolated_iff_sharedStore :
    ((∀ env : SearchDocuments.Env, env.intFromStr = (fun _ => none) →
          Ranked keyword sharedStore env.queryPoints →
            SearchIsolated ⟨1⟩ sharedStore env
              (meetingSearch (some (⟨21⟩ : Uuid).str))) ∧
        (∀ (H : Type) (env : RagChat.Env H),
          env.search.intFromStr = (fun _ => none) →
            Ranked keyword sharedStore env.search.queryPoints →
              ExecuteIsolated ⟨1⟩ sharedStore env
                (meetingChat (some (⟨21⟩ : Uuid).str))) ∧
          ∀ (H : Type) (env : RagChat.Env H),
            env.search.intFromStr = (fun _ => none) →
              Ranked keyword sharedStore env.search.queryPoints →
                StreamIsolated ⟨1⟩ sharedStore env
                  (meetingChat (some (⟨21⟩ : Uuid).str))) ∧
      SameSearch keyword (fun _ => none) sharedStore otherStore
          (meetingSearch (some (⟨21⟩ : Uuid).str)) ∧
        SameExecute keyword (fun _ => none) sharedStore otherStore
            (meetingChat (some (⟨21⟩ : Uuid).str)) ∧
          SameStream keyword (fun _ => none) sharedStore otherStore
            (meetingChat (some (⟨21⟩ : Uuid).str)) := by
  have hpair : ∀ id : Uuid,
      ∀ p ∈ [tenantPoint ⟨11⟩ ⟨1⟩ ⟨21⟩, tenantPoint id ⟨2⟩ ⟨22⟩],
        p = tenantPoint ⟨11⟩ ⟨1⟩ ⟨21⟩ ∨ ∃ id, p = tenantPoint id ⟨2⟩ ⟨22⟩ := by
    intro id p hp
    rcases List.mem_pair.mp hp with rfl | rfl
    · exact Or.inl rfl
    · exact Or.inr ⟨id, rfl⟩
  have hshared : ∀ {request : SearchRequest}, requestFilters request =
      requestFilters (meetingSearch (some (⟨21⟩ : Uuid).str)) →
        Undisturbed keyword (fun _ => none) ⟨1⟩ sharedStore request :=
    undisturbed_meeting (hpair ⟨12⟩)
  have hother : ∀ {request : SearchRequest}, requestFilters request =
      requestFilters (meetingSearch (some (⟨21⟩ : Uuid).str)) →
        Undisturbed keyword (fun _ => none) ⟨1⟩ otherStore request :=
    undisturbed_meeting (hpair ⟨13⟩)
  obtain ⟨⟨hsearch, hexecute, hstream⟩, hsameSearch, hsameExecute, hsameStream⟩ :=
    retrieval_isolated_iff keyword (fun _ => none) ⟨1⟩ sharedStore
      (meetingSearch (some (⟨21⟩ : Uuid).str)) (meetingChat (some (⟨21⟩ : Uuid).str))
  exact ⟨⟨hsearch.mpr (hshared rfl).onlyOwn, hexecute.mpr fun _ => (hshared rfl).onlyOwn,
      hstream.mpr fun _ => (hshared rfl).onlyOwn⟩,
    hsameSearch.mpr (hshared rfl) otherStore agreeOn_otherStore (hother rfl),
    hsameExecute.mpr (fun _ => hshared rfl) otherStore agreeOn_otherStore fun _ => hother rfl,
    hsameStream.mpr (fun _ => hshared rfl) otherStore agreeOn_otherStore fun _ => hother rfl⟩

/-- Without a collection in the request, every entry point can show a tenant
the other tenant's point, and a search tells apart stores that agree on the
tenant's own. -/
theorem retrieval_not_always_isolated :
    (¬ ∀ (store : PointStore) (env : SearchDocuments.Env)
        (request : SearchRequest) (tenantId : TenantId),
      Ranked keyword store env.queryPoints →
        SearchIsolated tenantId store env request) ∧
      (¬ ∀ (H : Type) (store : PointStore) (env : RagChat.Env H)
          (request : RagChat.ChatRequest) (tenantId : TenantId),
        Ranked keyword store env.search.queryPoints →
          ExecuteIsolated tenantId store env request) ∧
        (¬ ∀ (H : Type) (store : PointStore) (env : RagChat.Env H)
            (request : RagChat.ChatRequest) (tenantId : TenantId),
          Ranked keyword store env.search.queryPoints →
            StreamIsolated tenantId store env request) ∧
          ¬ ∀ (store store' : PointStore) (request : SearchRequest) (tenantId : TenantId),
            AgreeOn tenantId store store' →
              SameSearch keyword (fun _ => none) store store' request := by
  refine ⟨fun hall => ?_, fun hall => ?_, fun hall => ?_, fun hall => ?_⟩
  · exact not_onlyOwn_sharedStore rfl (onlyOwn_of_searchIsolated fun env _ =>
      hall sharedStore env (meetingSearch none) ⟨1⟩)
  · exact not_onlyOwn_sharedStore rfl (onlyOwn_of_executeIsolated ⟨none, rfl⟩
      fun H env _ => hall H sharedStore env (meetingChat none) ⟨1⟩)
  · exact not_onlyOwn_sharedStore rfl (onlyOwn_of_streamIsolated ⟨none, rfl⟩
      fun H env _ => hall H sharedStore env (meetingChat none) ⟨1⟩)
  · exact not_onlyOwn_sharedStore rfl (undisturbed_of_sameSearch
      (hall sharedStore _ (meetingSearch none) ⟨1⟩ agreeOn_ownPart)).onlyOwn

end Retrieval
end AiBackend

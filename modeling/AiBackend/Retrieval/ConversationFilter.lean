import AiBackend.Retrieval.Isolation

/-!
# What a conversation is searched for

The conversation of a chat request goes into the filter of its search as the
collection.  Two requests that differ only in their conversations therefore
retrieve the same if and only if their conversations restrict the search in the
same way.
-/

namespace AiBackend
namespace Retrieval

open Program Python QdrantVectorRepository SearchDocuments QueryServer

/-- What a conversation does to a search. -/
inductive Restriction where
  | unrestricted
  | collection (text : String)
  | nothing

/-- An absent or empty conversation restricts nothing; any other one is taken
for a collection, and a text that is no UUID is the collection of no readable
point. -/
def restriction (conversationId : Option String) : Restriction :=
  match conversationId with
  | none => .unrestricted
  | some text =>
      if text = "" then .unrestricted
      else match Uuid.fromStr text with
        | .ok _ => .collection text
        | .error _ => .nothing

/-- The server compares the collection of a payload with a text; of several
collections one has to be equal. -/
def ComparesCollections (satisfies : Dict Json → FieldCondition → Bool) : Prop :=
  ∀ (payload : Dict Json) (text : String),
    satisfies payload ⟨"collection_id", .str text⟩ = true ↔
      payload.get? "collection_id" = some (.str text) ∨
        ∃ xs, payload.get? "collection_id" = some (.list xs) ∧ .str text ∈ xs

/-- The request in another conversation. -/
def inConversation (request : RagChat.ChatRequest) (conversationId : Option String) :
    RagChat.ChatRequest :=
  { request with conversationId := conversationId }

/-- Two requests retrieve the same results, build the same prompt and give the
same answer, at once or piece by piece, whatever fails. -/
structure SameRetrieval {H : Type} (env : RagChat.Env H)
    (request request' : RagChat.ChatRequest) : Prop where
  results : ∀ faults,
    SearchDocuments.execute env.search faults (RagChat.searchRequest request) =
      SearchDocuments.execute env.search faults (RagChat.searchRequest request')
  prompt : ∀ faults, RagChat.prepare env faults request = RagChat.prepare env faults request'
  answer : ∀ faults, RagChat.execute env faults request = RagChat.execute env faults request'
  pieces : ∀ faults, RagChat.stream env faults request = RagChat.stream env faults request'

theorem SameRetrieval.symm {H : Type} {env : RagChat.Env H}
    {request request' : RagChat.ChatRequest} (h : SameRetrieval env request request') :
    SameRetrieval env request' request :=
  ⟨fun faults => (h.results faults).symm, fun faults => (h.prompt faults).symm,
    fun faults => (h.answer faults).symm, fun faults => (h.pieces faults).symm⟩

/-- Some store and server tell two requests apart. -/
def Distinguished (satisfies : Dict Json → FieldCondition → Bool)
    (request request' : RagChat.ChatRequest) : Prop :=
  ∃ (store : PointStore) (env : RagChat.Env Unit),
    Ranked satisfies store env.search.queryPoints ∧ ¬ SameRetrieval env request request'

theorem Distinguished.symm {satisfies : Dict Json → FieldCondition → Bool}
    {request request' : RagChat.ChatRequest} (h : Distinguished satisfies request request') :
    Distinguished satisfies request' request := by
  obtain ⟨store, env, hranked, hdifferent⟩ := h
  exact ⟨store, env, hranked, fun hsame => hdifferent hsame.symm⟩

/-! ## The filters -/

section Filters

variable {request : RagChat.ChatRequest} {conversationId : Option String} {text : String}

theorem buildFilter_of_unrestricted (h : restriction conversationId = .unrestricted) :
    buildFilter none (requestFilters (RagChat.searchRequest
      (inConversation request conversationId))) = .ok none := by
  cases conversationId with
  | none => rfl
  | some text =>
      have hempty : text = "" := by
        by_contra hne
        rw [restriction, if_neg hne] at h
        split at h
        · cases h
        · cases h
      subst hempty
      rfl

theorem buildFilter_of_text (hne : text ≠ "") :
    buildFilter none (requestFilters (RagChat.searchRequest
      (inConversation request (some text)))) =
        .ok (some [⟨"collection_id", .str text⟩]) := by
  have hfilters : requestFilters (RagChat.searchRequest (inConversation request (some text))) =
      some (Dict.set KeyedList.empty "collection_id" (.str text)) := if_neg hne
  rw [hfilters]
  rfl

theorem exists_text (conversationId : Option String)
    (h : restriction conversationId ≠ .unrestricted) :
    ∃ text, conversationId = some text ∧ text ≠ "" := by
  cases conversationId with
  | none => exact absurd rfl h
  | some text =>
      refine ⟨text, rfl, ?_⟩
      rintro rfl
      exact h rfl

theorem restriction_eq_nothing_iff (hne : text ≠ "") :
    restriction (some text) = .nothing ↔ ∃ e, Uuid.fromStr text = .error e := by
  rw [restriction, if_neg hne]
  cases Uuid.fromStr text with
  | ok u => simp
  | error e => simp

theorem restriction_eq_collection_iff {name : String} (hne : text ≠ "") :
    restriction (some text) = .collection name ↔
      text = name ∧ ∃ u, Uuid.fromStr text = .ok u := by
  rw [restriction, if_neg hne]
  cases Uuid.fromStr text with
  | ok u => simp
  | error e => simp

end Filters

/-! ## Conversations that restrict alike -/

section Alike

variable {satisfies : Dict Json → FieldCondition → Bool} {store : PointStore}
  {queryPoints : QueryPoints} {text : String}

/-- A point whose collection is no UUID cannot be read. -/
theorem unreadable_of_satisfies (hsat : ComparesCollections satisfies)
    (htext : ∃ e, Uuid.fromStr text = .error e) {scored : ScoredPoint}
    (h : satisfies scored.point.payload ⟨"collection_id", .str text⟩ = true)
    (intFromStr : String → Option ℤ) (fresh : Uuid) :
    ∃ e, toSearchResult intFromStr fresh scored = .error e := by
  cases hread : toSearchResult intFromStr fresh scored with
  | error e => exact ⟨e, rfl⟩
  | ok result =>
      obtain ⟨-, -, -, -, collectionId, hcollection, -⟩ := toSearchResult_eq_ok_iff.mp hread
      obtain ⟨e, htext⟩ := htext
      rcases (hsat _ _).mp h with hvalue | ⟨xs, hvalue, -⟩
      · rw [payloadGet, hvalue, Option.getD_some, uuidOfValue, htext] at hcollection
        cases hcollection
      · rw [payloadGet, hvalue] at hcollection
        cases hcollection

theorem readPoints_eq_nil {intFromStr : String → Option ℤ} {uuid4 : ℕ → Uuid}
    {answer : List ScoredPoint} (h : ∀ scored ∈ answer, ∀ fresh,
      ∃ e, toSearchResult intFromStr fresh scored = .error e) :
    readPoints intFromStr uuid4 answer = [] := by
  induction answer generalizing uuid4 with
  | nil => rfl
  | cons scored rest ih =>
      obtain ⟨hfirst, hrest⟩ := List.forall_mem_cons.mp h
      obtain ⟨e, he⟩ := hfirst (uuid4 0)
      rw [readPoints, he]
      exact ih hrest

/-- A conversation that is no UUID finds nothing. -/
theorem search_of_nothing (hsat : ComparesCollections satisfies)
    (hranked : Ranked satisfies store queryPoints) (hne : text ≠ "")
    (htext : ∃ e, Uuid.fromStr text = .error e) (request : RagChat.ChatRequest)
    (intFromStr : String → Option ℤ) (uuid4 : ℕ → Uuid) (embedding : EmbeddingVector)
    (topK : ℤ) :
    QdrantVectorRepository.search queryPoints intFromStr uuid4 embedding topK
      (requestFilters (RagChat.searchRequest (inConversation request (some text)))) none =
        .ok [] := by
  rw [QdrantVectorRepository.search, buildFilter_of_text hne]
  refine congrArg Except.ok (readPoints_eq_nil fun scored hscored fresh => ?_)
  have hmatches := hranked.matching _ _ _ scored hscored
  exact unreadable_of_satisfies hsat htext (hmatches _ (List.mem_singleton_self _)) _ _

variable {H : Type} {env : RagChat.Env H} {request : RagChat.ChatRequest}
  {conversationId conversationId' : Option String}

/-- Conversations that restrict alike find the same. -/
theorem search_eq (hsat : ComparesCollections satisfies)
    (hranked : Ranked satisfies store queryPoints)
    (h : restriction conversationId = restriction conversationId')
    (intFromStr : String → Option ℤ) (uuid4 : ℕ → Uuid) (embedding : EmbeddingVector)
    (topK : ℤ) :
    QdrantVectorRepository.search queryPoints intFromStr uuid4 embedding topK
        (requestFilters (RagChat.searchRequest (inConversation request conversationId))) none =
      QdrantVectorRepository.search queryPoints intFromStr uuid4 embedding topK
        (requestFilters (RagChat.searchRequest (inConversation request conversationId')))
        none := by
  cases hrestriction : restriction conversationId with
  | unrestricted =>
      rw [QdrantVectorRepository.search, QdrantVectorRepository.search,
        buildFilter_of_unrestricted hrestriction,
        buildFilter_of_unrestricted (h.symm.trans hrestriction)]
  | collection name =>
      obtain ⟨text, rfl, hne⟩ := exists_text conversationId
        (by rw [hrestriction]; exact Restriction.noConfusion)
      obtain ⟨text', rfl, hne'⟩ := exists_text conversationId'
        (by rw [← h, hrestriction]; exact Restriction.noConfusion)
      obtain ⟨rfl, -⟩ := (restriction_eq_collection_iff hne).mp hrestriction
      obtain ⟨rfl, -⟩ := (restriction_eq_collection_iff hne').mp (h.symm.trans hrestriction)
      rfl
  | nothing =>
      obtain ⟨text, rfl, hne⟩ := exists_text conversationId
        (by rw [hrestriction]; exact Restriction.noConfusion)
      obtain ⟨text', rfl, hne'⟩ := exists_text conversationId'
        (by rw [← h, hrestriction]; exact Restriction.noConfusion)
      rw [search_of_nothing hsat hranked hne ((restriction_eq_nothing_iff hne).mp hrestriction),
        search_of_nothing hsat hranked hne'
          ((restriction_eq_nothing_iff hne').mp (h.symm.trans hrestriction))]

theorem sameRetrieval_of_restriction (hsat : ComparesCollections satisfies)
    (hranked : Ranked satisfies store env.search.queryPoints)
    (h : restriction conversationId = restriction conversationId') :
    SameRetrieval env (inConversation request conversationId)
      (inConversation request conversationId') := by
  have hresults : ∀ faults,
      SearchDocuments.execute env.search faults
          (RagChat.searchRequest (inConversation request conversationId)) =
        SearchDocuments.execute env.search faults
          (RagChat.searchRequest (inConversation request conversationId')) := by
    intro faults
    have hsearch : ∀ uuid4 embedding,
        QdrantVectorRepository.search env.search.queryPoints env.search.intFromStr uuid4 embedding
          (RagChat.searchRequest (inConversation request conversationId)).topK
          (requestFilters (RagChat.searchRequest (inConversation request conversationId))) none =
        QdrantVectorRepository.search env.search.queryPoints env.search.intFromStr uuid4 embedding
          (RagChat.searchRequest (inConversation request conversationId')).topK
          (requestFilters (RagChat.searchRequest (inConversation request conversationId')))
          none :=
      fun uuid4 embedding => search_eq hsat hranked h _ uuid4 embedding _
    simp only [SearchDocuments.execute, hsearch]
    rfl
  have hprompt : ∀ faults, RagChat.prepare env faults (inConversation request conversationId) =
      RagChat.prepare env faults (inConversation request conversationId') := by
    intro faults
    simp only [RagChat.prepare, RagChat.search, hresults]
    rfl
  refine ⟨hresults, hprompt, fun faults => ?_, fun faults => ?_⟩
  · simp only [RagChat.execute, hprompt]
    rfl
  · simp only [RagChat.stream, hprompt]
    rfl

end Alike

/-! ## Conversations that do not -/

section Different

variable {satisfies : Dict Json → FieldCondition → Bool} {intFromStr : String → Option ℤ}
  {request : RagChat.ChatRequest} {conversationId conversationId' : Option String}

/-- A point of a collection, or of none. -/
def pointIn (id : Uuid) (collectionId : Option String) : Point where
  id := .uuid id
  vector := [1]
  payload :=
    match collectionId with
    | none => ⟨[("document_id", .str id.str)], by simp⟩
    | some text => ⟨[("document_id", .str id.str), ("collection_id", .str text)], by simp⟩

theorem get?_pointIn (id : Uuid) (collectionId : Option String) :
    (pointIn id collectionId).payload.get? "collection_id" = collectionId.map Json.str := by
  cases collectionId with
  | none => rfl
  | some text => rfl

theorem readable_pointIn (intFromStr : String → Option ℤ) (id : Uuid)
    {collectionId : Option String}
    (h : ∀ text, collectionId = some text → ∃ u, Uuid.fromStr text = .ok u) :
    Readable intFromStr (pointIn id collectionId) := by
  have hdocument : payloadGet (pointIn id collectionId).payload "document_id" (.str "") =
      .str id.str := by
    cases collectionId with
    | none => rfl
    | some text => rfl
  have hcollection : ∃ u, uuidOfValue (payloadGet (pointIn id collectionId).payload
      "collection_id" (.str id.str)) = .ok u := by
    rw [payloadGet, get?_pointIn]
    cases collectionId with
    | none => exact ⟨id, Uuid.fromStr_str id⟩
    | some text => exact h text rfl
  have hfields : ∃ result, SearchResult.construct intFromStr id id id
      (payloadGet (pointIn id collectionId).payload "content" (.str "")) 1
      ((pointIn id collectionId).payload.filter fun entry => entry.1 ∉ fieldKeys)
      (payloadGet (pointIn id collectionId).payload "document_title" (.str ""))
      (payloadGet (pointIn id collectionId).payload "chunk_index" (.int 0)) = .ok result := by
    cases collectionId with
    | none => exact ⟨_, rfl⟩
    | some text => exact ⟨_, rfl⟩
  obtain ⟨u, hu⟩ := hcollection
  obtain ⟨result, hresult⟩ := hfields
  have hone : (0 : ℚ) ≤ 1 ∧ (1 : ℚ) ≤ 1 := by decide
  obtain ⟨result', hresult', -⟩ := SearchResult.construct_ok_of_ok hresult u hone
  refine ⟨result', 1, id, toSearchResult_eq_ok_iff.mpr ⟨id, ?_, id, ?_, u, hu, hresult'⟩⟩
  · exact Uuid.fromStr_str id
  · rw [hdocument]
    exact Uuid.fromStr_str id

/-- A conversation finds the point if it restricts nothing or names the
collection. -/
theorem exists_filter (hsat : ComparesCollections satisfies) (request : RagChat.ChatRequest)
    (conversationId : Option String) (id : Uuid) (collectionId : Option String) :
    ∃ queryFilter, buildFilter none (requestFilters (RagChat.searchRequest
        (inConversation request conversationId))) = .ok queryFilter ∧
      (Matches satisfies queryFilter (pointIn id collectionId) ↔
        restriction conversationId = .unrestricted ∨ conversationId = collectionId) := by
  by_cases h : restriction conversationId = .unrestricted
  · refine ⟨none, buildFilter_of_unrestricted h, iff_of_true ?_ (Or.inl h)⟩
    simp [Matches]
  · obtain ⟨text, rfl, hne⟩ := exists_text conversationId h
    refine ⟨_, buildFilter_of_text hne, ?_⟩
    have hvalue := hsat (pointIn id collectionId).payload text
    rw [get?_pointIn] at hvalue
    simp only [Matches, Option.getD_some, List.mem_singleton, forall_eq, hvalue, h, false_or]
    cases collectionId with
    | none => simp
    | some name => simp [eq_comm]

/-- A server that holds a point of which only one request hears. -/
theorem not_sameRetrieval_of_matches {p : Point} (hreadable : Readable intFromStr p)
    {request' : RagChat.ChatRequest} {queryFilter queryFilter' : Option (List FieldCondition)}
    (hfilter : buildFilter none (requestFilters (RagChat.searchRequest request)) =
      .ok queryFilter)
    (hmatches : Matches satisfies queryFilter p)
    (hfilter' : buildFilter none (requestFilters (RagChat.searchRequest request')) =
      .ok queryFilter')
    (hnot : ¬ Matches satisfies queryFilter' p) :
    ¬ SameRetrieval (favouringChat satisfies intFromStr ⟨[p], List.nodup_singleton _⟩ p)
      request request' := by
  intro hsame
  let store : PointStore := ⟨[p], List.nodup_singleton _⟩
  let env := favouringSearch satisfies intFromStr store p
  have hfirst : Ensures (fun _ => True)
      (SearchDocuments.execute env Faults.none (RagChat.searchRequest request)) _ _ :=
    ensures_search_first rfl hfilter
      (favouringSearch_first (List.mem_singleton_self p) hmatches request.topK_pos) hreadable
  have hanswers : Answers (fun _ => False) env (RagChat.searchRequest request') := by
    intro found hfound vector limit scored hscored _
    obtain rfl := Except.ok.inj (hfilter'.symm.trans hfound)
    obtain ⟨hmem, hmatch⟩ := mem_topPoints hscored
    obtain rfl : scored.point = p := List.mem_singleton.mp hmem
    exact hnot hmatch
  have hnone : Ensures (fun _ => True)
      (SearchDocuments.execute env Faults.none (RagChat.searchRequest request')) _ _ :=
    ensures_search hanswers
  have hrun := hfirst 0 trivial
  have hrun' := hnone 0 trivial
  have hresults : SearchDocuments.execute env Faults.none (RagChat.searchRequest request) =
      SearchDocuments.execute env Faults.none (RagChat.searchRequest request') :=
    hsame.results Faults.none
  rw [hresults] at hrun
  cases hexecute : (SearchDocuments.execute env Faults.none
      (RagChat.searchRequest request')).run 0 with
  | error e s =>
      rw [hexecute] at hrun
      exact hrun
  | ok response s =>
      rw [hexecute] at hrun hrun'
      obtain ⟨first, rest, hshown, -⟩ := hrun
      obtain ⟨results, hempty, hshows⟩ := hrun'
      cases results with
      | nil =>
          rw [hshown] at hempty
          cases hempty
      | cons result results =>
          obtain ⟨_, hfalse, -⟩ := hshows result List.mem_cons_self
          exact hfalse

/-- Some server tells two conversations apart of which one finds the points of
a collection and the other one does not. -/
theorem distinguished_of_finds (hsat : ComparesCollections satisfies) (collectionId : Option String)
    (hreadable : ∀ text, collectionId = some text → ∃ u, Uuid.fromStr text = .ok u)
    (hfinds : restriction conversationId = .unrestricted ∨ conversationId = collectionId)
    (hmisses : ¬ (restriction conversationId' = .unrestricted ∨
      conversationId' = collectionId)) :
    Distinguished satisfies (inConversation request conversationId)
      (inConversation request conversationId') := by
  obtain ⟨queryFilter, hfilter, hmatches⟩ :=
    exists_filter hsat request conversationId ⟨1⟩ collectionId
  obtain ⟨queryFilter', hfilter', hmatches'⟩ :=
    exists_filter hsat request conversationId' ⟨1⟩ collectionId
  exact ⟨_, _, topPoints_ranked _ _, not_sameRetrieval_of_matches
    (readable_pointIn (fun _ => none) ⟨1⟩ hreadable) hfilter (hmatches.mpr hfinds) hfilter'
    (mt hmatches'.mp hmisses)⟩

/-- An unrestricted conversation finds the points of no collection. -/
theorem distinguished_of_unrestricted (hsat : ComparesCollections satisfies)
    (h : restriction conversationId = .unrestricted)
    (h' : restriction conversationId' ≠ .unrestricted) :
    Distinguished satisfies (inConversation request conversationId)
      (inConversation request conversationId') := by
  refine distinguished_of_finds hsat none (fun text htext => ?_) (Or.inl h) ?_
  · cases htext
  · rintro (hsame | rfl)
    · exact h' hsame
    · exact h' rfl

/-- One that names a collection finds its points. -/
theorem distinguished_of_collection (hsat : ComparesCollections satisfies) {name : String}
    (h : restriction conversationId = .collection name)
    (h' : restriction conversationId' ≠ .unrestricted)
    (hne : restriction conversationId ≠ restriction conversationId') :
    Distinguished satisfies (inConversation request conversationId)
      (inConversation request conversationId') := by
  obtain ⟨text, rfl, hempty⟩ := exists_text conversationId <| by
    rw [h]
    exact Restriction.noConfusion
  obtain ⟨-, hvalid⟩ := (restriction_eq_collection_iff hempty).mp h
  refine distinguished_of_finds hsat (some text) (fun text' htext => ?_) (Or.inr rfl) ?_
  · cases htext
    exact hvalid
  · rintro (hsame | rfl)
    · exact h' hsame
    · exact hne rfl

theorem distinguished_of_restriction (hsat : ComparesCollections satisfies)
    (h : restriction conversationId ≠ restriction conversationId') :
    Distinguished satisfies (inConversation request conversationId)
      (inConversation request conversationId') := by
  cases hfirst : restriction conversationId with
  | unrestricted =>
      exact distinguished_of_unrestricted hsat hfirst (hfirst ▸ h.symm)
  | collection name =>
      by_cases hsecond : restriction conversationId' = .unrestricted
      · exact (distinguished_of_unrestricted hsat hsecond (hsecond ▸ h)).symm
      · exact distinguished_of_collection hsat hfirst hsecond h
  | nothing =>
      have hrestricted : restriction conversationId ≠ .unrestricted := by
        rw [hfirst]
        exact Restriction.noConfusion
      cases hsecond : restriction conversationId' with
      | unrestricted =>
          exact (distinguished_of_unrestricted hsat hsecond hrestricted).symm
      | collection name =>
          exact (distinguished_of_collection hsat hsecond hrestricted h.symm).symm
      | nothing => exact absurd (hfirst.trans hsecond.symm) h

end Different

/-- Two chats in different conversations retrieve the same in every store if
and only if their conversations restrict the search in the same way. -/
theorem sameRetrieval_iff {satisfies : Dict Json → FieldCondition → Bool}
    (hsat : ComparesCollections satisfies) (request : RagChat.ChatRequest)
    (conversationId conversationId' : Option String) :
    (∀ (H : Type) (store : PointStore) (env : RagChat.Env H),
        Ranked satisfies store env.search.queryPoints →
          SameRetrieval env (inConversation request conversationId)
            (inConversation request conversationId')) ↔
      restriction conversationId = restriction conversationId' := by
  constructor
  · intro hall
    by_contra h
    obtain ⟨store, env, hranked, hdifferent⟩ := distinguished_of_restriction hsat h
    exact hdifferent (hall Unit store env hranked)
  · intro h H store env hranked
    exact sameRetrieval_of_restriction hsat hranked h

/-! ## Two chats -/

/-- A server that compares values, and the items of lists. -/
def valueMatches : Json → MatchValue → Bool
  | .str s, .str t => s == t
  | .int m, .int n => m == n
  | .bool a, .bool b => a == b
  | _, _ => false

def payloadMatches (payload : Dict Json) (condition : FieldCondition) : Bool :=
  match payload.get? condition.key with
  | some (.list xs) => xs.any fun x => valueMatches x condition.value
  | some value => valueMatches value condition.value
  | none => false

theorem comparesCollections_payloadMatches : ComparesCollections payloadMatches := by
  have hvalue : ∀ (value : Json) (text : String),
      valueMatches value (.str text) = true ↔ value = .str text := by
    intro value text
    cases value with
    | str s => simp [valueMatches]
    | _ => simp [valueMatches]
  intro payload text
  cases hget : payload.get? "collection_id" with
  | none => simp [payloadMatches, hget]
  | some value =>
      cases value with
      | list xs => simp [payloadMatches, hget, hvalue]
      | _ => simp [payloadMatches, hget, hvalue]

/-- An empty conversation is no conversation. -/
theorem sameRetrieval_iff_meeting :
    SameRetrieval (favouringChat payloadMatches (fun _ => none) sharedStore
        (tenantPoint ⟨11⟩ ⟨1⟩ ⟨21⟩))
      (inConversation (meetingChat none) none) (inConversation (meetingChat none) (some "")) :=
  (sameRetrieval_iff comparesCollections_payloadMatches (meetingChat none) none (some "")).mpr
    rfl Unit sharedStore _ (topPoints_ranked _ _)

/-- A chat loses its context when it gets a conversation. -/
theorem not_sameRetrieval_meeting :
    ¬ ∀ (H : Type) (store : PointStore) (env : RagChat.Env H) (request : RagChat.ChatRequest)
      (conversationId conversationId' : Option String),
        Ranked payloadMatches store env.search.queryPoints →
          SameRetrieval env (inConversation request conversationId)
            (inConversation request conversationId') := by
  intro hall
  have hnothing : restriction (some "conversation-1") = .nothing :=
    (restriction_eq_nothing_iff (by decide)).mpr (Uuid.fromStr_of_length_lt (by decide))
  have hrestricted : restriction (some "conversation-1") ≠ .unrestricted := by
    rw [hnothing]
    exact Restriction.noConfusion
  obtain ⟨store, env, hranked, hdifferent⟩ : Distinguished payloadMatches
      (inConversation (meetingChat none) none)
      (inConversation (meetingChat none) (some "conversation-1")) :=
    distinguished_of_unrestricted comparesCollections_payloadMatches rfl hrestricted
  exact hdifferent (hall Unit store env _ _ _ hranked)

end Retrieval
end AiBackend

import AiBackend.Chat.Citations
import AiBackend.Chat.ContextGrowth
import AiBackend.Retrieval.Isolation

/-!
# Whether a chat uses the best matches

Over a server that answers exactly, a chat passes over no stored point for one
that scores less.  What it leaves out is outranked by as many points as it has
asked for, is below the threshold, or comes behind the block at which the
budget ends.
-/

namespace AiBackend
namespace Retrieval

open Program Python QdrantVectorRepository SearchDocuments QueryServer

/-! ## The context stops at a block -/

/-- The loop takes all results, or it stops before one whose block is too much
behind the others. -/
theorem fittingBlocks_stops {service : ContextService} {model : String} {i : ℕ}
    {currentTokens : ℤ} {results : List SearchResult} {used : List (String × SearchResult)}
    (h : service.fittingBlocks model i currentTokens results = .ok used) :
    used.map Prod.snd = results ∨ ∃ next later tokens,
      results = used.map Prod.snd ++ next :: later ∧
        service.blockTokens model i (used.map Prod.snd ++ [next]) = .ok tokens ∧
        service.maxContextTokens < currentTokens + tokens := by
  induction results generalizing i currentTokens used with
  | nil =>
      cases h
      exact Or.inl rfl
  | cons result rest ih =>
      rw [ContextService.fittingBlocks] at h
      obtain ⟨tokens, hcount, h⟩ := except_bind_eq_ok_iff.mp h
      split at h
      next hfull =>
        cases h
        refine Or.inr ⟨result, rest, tokens + 0, rfl, ?_, by omega⟩
        rw [List.map_nil, List.nil_append, ContextService.blockTokens]
        exact except_bind_eq_ok_iff.mpr ⟨tokens, hcount, rfl⟩
      next =>
        obtain ⟨more, hmore, h⟩ := except_bind_eq_ok_iff.mp h
        cases h
        rcases ih hmore with hall | ⟨next, later, total, hrest, htotal, hfull⟩
        · exact Or.inl (by rw [List.map_cons, hall])
        · refine Or.inr ⟨next, later, tokens + total, ?_, ?_, by omega⟩
          · rw [List.map_cons, List.cons_append, ← hrest]
          · rw [List.map_cons, List.cons_append, ContextService.blockTokens]
            refine except_bind_eq_ok_iff.mpr ⟨tokens, hcount, ?_⟩
            exact except_bind_eq_ok_iff.mpr ⟨total, htotal, rfl⟩

/-! ## What a list of results owes to the stored points -/

section Best

variable (satisfies : Dict Json → FieldCondition → Bool) (intFromStr : String → Option ℤ)
  (score : Point → ℚ) (store : PointStore) (request : SearchRequest)

/-- A stored point that matches the request's filter. -/
def Candidate (p : Point) : Prop :=
  p ∈ store.items ∧ ∃ queryFilter,
    buildFilter none (requestFilters request) = .ok queryFilter ∧
      Matches satisfies queryFilter p

/-- The point can be read at its score. -/
def ReadableAt (p : Point) : Prop :=
  ∃ fresh result, toSearchResult intFromStr fresh ⟨p, score p⟩ = .ok result

/-- The result shows the point, with its score. -/
def ShowsAt (p : Point) (result : SearchResult) : Prop :=
  ShowsUsed intFromStr p result ∧ result.score = score p

/-- As many other candidates as the request asks for are as good as the
point. -/
def Outranked (p : Point) : Prop :=
  ∃ better : List Point, better.Nodup ∧ p ∉ better ∧ (better.length : ℤ) = request.topK ∧
    ∀ q ∈ better, Candidate satisfies store request q ∧ score p ≤ score q

/-- The results fall in score and show candidates, and every readable candidate
that is not among them is no better than any of them, and has an excuse. -/
structure Best (excuse : Point → Prop) (results : List SearchResult) : Prop where
  ordered : ContextService.Ordered results
  shown : ∀ result ∈ results, ∃ p, Candidate satisfies store request p ∧
    ShowsAt intFromStr score p result
  left : ∀ p, Candidate satisfies store request p → ReadableAt intFromStr score p →
    (∃ result ∈ results, ShowsAt intFromStr score p result) ∨
      (∀ result ∈ results, score p ≤ result.score) ∧ excuse p

/-- A candidate as good as the point is the next result, and its block is too
much behind those of the used ones. -/
def NoRoom (service : ContextService) (used : List SearchResult) (p : Point) : Prop :=
  ∃ q next tokens, Candidate satisfies store request q ∧ ShowsAt intFromStr score q next ∧
    score p ≤ score q ∧ service.blockTokens "gpt-4o" 0 (used ++ [next]) = .ok tokens ∧
      service.maxContextTokens < tokens

/-- Why the context leaves a point out. -/
def LeftOut (service : ContextService) (used : List SearchResult) (p : Point) : Prop :=
  Outranked satisfies score store request p ∨ score p < service.scoreThreshold ∨
    NoRoom satisfies intFromStr score store request service used p

end Best

section Steps

variable {satisfies : Dict Json → FieldCondition → Bool} {intFromStr : String → Option ℤ}
  {score : Point → ℚ} {store : PointStore} {request : SearchRequest}
  {excuse : Point → Prop} {results : List SearchResult}

/-- What is read of an answer, in its order. -/
theorem forall₂_read (intFromStr : String → Option ℤ) (uuid4 : ℕ → Uuid)
    (answer : List ScoredPoint) :
    ∃ readable : ScoredPoint → Bool,
      (∀ scored, readable scored = true ↔
        ∃ fresh result, toSearchResult intFromStr fresh scored = .ok result) ∧
      List.Forall₂ (fun scored result => ShowsResult intFromStr scored.point result ∧
          result.score = scored.score)
        (answer.filter readable) (readPoints intFromStr uuid4 answer) := by
  classical
  refine ⟨fun scored => decide (∃ fresh result,
    toSearchResult intFromStr fresh scored = .ok result), fun _ => decide_eq_true_iff,
    forall₂_readPoints _ ?_ ?_⟩
  · intro scored _ hreadable fresh
    obtain ⟨fresh', result, hread⟩ := of_decide_eq_true hreadable
    have hrange : 0 ≤ scored.score ∧ scored.score ≤ 1 := by
      rw [← score_of_toSearchResult hread]
      exact ⟨result.score_nonneg, result.score_le_one⟩
    obtain ⟨result', hread', hscore⟩ := toSearchResult_ok_of_ok hread fresh hrange
    exact ⟨result', hread', ⟨scored.score, fresh, hread'⟩, hscore⟩
  · intro scored _ hunreadable fresh
    cases hread : toSearchResult intFromStr fresh scored with
    | ok result => exact absurd ⟨fresh, result, hread⟩ (of_decide_eq_false hunreadable)
    | error e => exact ⟨e, rfl⟩

theorem exists_of_mem_forall₂ {α β : Type} {R : α → β → Prop} {xs : List α} {ys : List β}
    (h : List.Forall₂ R xs ys) {a : α} (ha : a ∈ xs) : ∃ b ∈ ys, R a b := by
  induction h with
  | nil => cases ha
  | cons hfirst _ ih =>
      rcases List.mem_cons.mp ha with rfl | ha
      · exact ⟨_, List.mem_cons_self, hfirst⟩
      · obtain ⟨b, hb, hR⟩ := ih ha
        exact ⟨b, List.mem_cons_of_mem _ hb, hR⟩

/-- Lists with the same scores fall alike. -/
theorem ordered_of_forall₂ {α : Type} {key : α → ℚ} {xs : List α} {used : List SearchResult}
    (hfalls : xs.Pairwise fun first second => key second ≤ key first)
    (h : List.Forall₂ (fun x result => result.score = key x) xs used) :
    ContextService.Ordered used := by
  have hscores : used.map SearchResult.score = xs.map key := by
    induction h with
    | nil => rfl
    | cons hfirst _ ih =>
        rw [List.map_cons, List.map_cons, hfirst, ih (List.pairwise_cons.mp hfalls).2]
  have hkeys : (xs.map key).Pairwise fun first second => second ≤ first :=
    List.pairwise_map.mpr hfalls
  rw [← hscores] at hkeys
  exact List.pairwise_map.mp hkeys

/-- The results of a search, each of them next to a point of the answer. -/
theorem best_of_search {queryPoints : QueryPoints} {scoreOf : List ℚ → Point → ℚ}
    (hexact : Exact satisfies scoreOf store queryPoints) {uuid4 : ℕ → Uuid}
    {queryEmbedding : EmbeddingVector}
    (h : QdrantVectorRepository.search queryPoints intFromStr uuid4 queryEmbedding
      request.topK (requestFilters request) none = .ok results) :
    Best satisfies intFromStr (scoreOf queryEmbedding.values) store request
      (Outranked satisfies (scoreOf queryEmbedding.values) store request) results := by
  obtain ⟨queryFilter, hfilter, hresults⟩ := except_bind_eq_ok_iff.mp h
  cases hresults
  let answer := queryPoints queryEmbedding.values request.topK queryFilter
  have hcandidate : ∀ scored ∈ answer, Candidate satisfies store request scored.point :=
    fun scored hscored => ⟨hexact.stored _ _ _ scored hscored, queryFilter, hfilter,
      hexact.matching _ _ _ scored hscored⟩
  have hscore : ∀ scored ∈ answer,
      scored.score = scoreOf queryEmbedding.values scored.point := hexact.scored _ _ _
  obtain ⟨readable, hreadable, hread⟩ := forall₂_read intFromStr uuid4 answer
  have hshown : ∀ result ∈ readPoints intFromStr uuid4 answer, ∃ scored ∈ answer,
      ShowsAt intFromStr (scoreOf queryEmbedding.values) scored.point result := by
    intro result hresult
    obtain ⟨scored, hscored, fresh, hok⟩ := exists_of_mem_readPoints hresult
    refine ⟨scored, hscored, ⟨result, result.collectionId, ⟨_, fresh, hok⟩, rfl⟩, ?_⟩
    rw [score_of_toSearchResult hok, hscore scored hscored]
  refine ⟨?_, ?_, ?_⟩
  · exact ordered_of_forall₂ ((hexact.ranked _ _ _).filter _) (hread.imp fun _ _ hR => hR.2)
  · intro result hresult
    obtain ⟨scored, hscored, hshows⟩ := hshown result hresult
    exact ⟨scored.point, hcandidate scored hscored, hshows⟩
  · intro p hp hreadableAt
    obtain ⟨hstored, queryFilter', hfilter', hmatches⟩ := hp
    obtain rfl : queryFilter' = queryFilter := Except.ok.inj (hfilter'.symm.trans hfilter)
    by_cases hmem : ⟨p, scoreOf queryEmbedding.values p⟩ ∈ answer
    · -- the point is in the answer, and it is read
      refine Or.inl ?_
      obtain ⟨result, hresult, hshows, hsame⟩ := exists_of_mem_forall₂ hread
        (List.mem_filter.mpr ⟨hmem, (hreadable _).mpr hreadableAt⟩)
      exact ⟨result, hresult, ⟨result, result.collectionId, hshows, rfl⟩, hsame⟩
    · -- the answer is full of points that are at least as good
      obtain ⟨hlength, hbetter⟩ := (hexact.best queryEmbedding.values request.topK queryFilter'
        p hstored hmatches).resolve_left hmem
      refine Or.inr ⟨fun result hresult => ?_, answer.map ScoredPoint.point,
        hexact.once _ _ _, ?_, ?_, ?_⟩
      · obtain ⟨scored, hscored, -, hsame⟩ := hshown result hresult
        rw [hsame, ← hscore scored hscored]
        exact hbetter scored hscored
      · intro hlisted
        obtain ⟨scored, hscored, rfl⟩ := List.mem_map.mp hlisted
        exact hmem (hscore scored hscored ▸ hscored)
      · rw [List.length_map, hlength]
        exact Int.toNat_of_nonneg (by linarith [request.topK_pos])
      · intro q hq
        obtain ⟨scored, hscored, rfl⟩ := List.mem_map.mp hq
        refine ⟨hcandidate scored hscored, ?_⟩
        rw [← hscore scored hscored]
        exact hbetter scored hscored

/-- Results that only get new collections show what they showed. -/
theorem Best.rebuilt {used : List SearchResult}
    (h : Best satisfies intFromStr score store request excuse results)
    (hshape : List.Forall₂ (fun result used => ∃ collectionId,
      used = { result with collectionId := collectionId }) results used) :
    Best satisfies intFromStr score store request excuse used := by
  have hshows : ∀ {p : Point} {result used : SearchResult},
      (∃ collectionId, used = { result with collectionId := collectionId }) →
        ShowsAt intFromStr score p result → ShowsAt intFromStr score p used := by
    rintro p result used ⟨collectionId, rfl⟩ ⟨⟨read, collectionId', hread, rfl⟩, hscore⟩
    exact ⟨⟨read, collectionId, hread, rfl⟩, hscore⟩
  have hscores : List.Forall₂ (fun result used => used.score = result.score) results used :=
    hshape.imp fun _ _ ⟨_, hsame⟩ => hsame ▸ rfl
  refine ⟨ordered_of_forall₂ h.ordered hscores, ?_, ?_⟩
  · intro result hresult
    obtain ⟨before, hbefore, hsame⟩ := exists_of_mem_forall₂ hshape.flip hresult
    obtain ⟨p, hp, hshown⟩ := h.shown before hbefore
    exact ⟨p, hp, hshows hsame hshown⟩
  · intro p hp hreadable
    refine (h.left p hp hreadable).imp ?_ ?_
    · rintro ⟨result, hresult, hshown⟩
      obtain ⟨after, hafter, hsame⟩ := exists_of_mem_forall₂ hshape hresult
      exact ⟨after, hafter, hshows hsame hshown⟩
    · rintro ⟨hbetter, hexcuse⟩
      refine ⟨fun result hresult => ?_, hexcuse⟩
      obtain ⟨before, hbefore, hsame⟩ := exists_of_mem_forall₂ hscores.flip hresult
      exact (hbetter before hbefore).trans (le_of_eq hsame.symm)

/-- What the context uses of the best results is the best again; what it drops
is below the threshold, or does not fit. -/
theorem Best.used {service : ContextService} {context : String} {used : List SearchResult}
    (h : Best satisfies intFromStr score store request
      (Outranked satisfies score store request) results)
    (hbuilt : service.buildContext results = .ok (context, used)) :
    Best satisfies intFromStr score store request
      (LeftOut satisfies intFromStr score store request service used) used := by
  obtain ⟨blocks, hblocks, -, rfl⟩ := ContextService.buildContext_eq hbuilt
  have hrelevant : ContextService.Ordered (service.relevant results) := h.ordered.filter _
  obtain ⟨later, hlater⟩ : ∃ later,
      service.relevant results = blocks.map Prod.snd ++ later := by
    rcases fittingBlocks_stops hblocks with hall | ⟨next, later, _, hrest, -⟩
    · exact ⟨[], by rw [hall, List.append_nil]⟩
    · exact ⟨_, hrest⟩
  have hmem : ∀ result ∈ blocks.map Prod.snd, result ∈ results := fun result hresult =>
    List.mem_of_mem_filter (hlater ▸ List.mem_append_left later hresult)
  refine ⟨?_, fun result hresult => h.shown result (hmem result hresult), ?_⟩
  · rw [hlater] at hrelevant
    exact (List.pairwise_append.mp hrelevant).1
  · intro p hp hreadable
    rcases h.left p hp hreadable with ⟨result, hresult, hshown⟩ | ⟨hbetter, houtranked⟩
    · by_cases hthreshold : service.scoreThreshold ≤ result.score
      · have hpart : result ∈ service.relevant results :=
          List.mem_filter.mpr ⟨hresult, by simpa using hthreshold⟩
        rcases fittingBlocks_stops hblocks with hall | ⟨next, rest, tokens, hrest, htokens, hfull⟩
        · exact Or.inl ⟨result, hall ▸ hpart, hshown⟩
        · rw [hrest] at hpart hrelevant
          refine (List.mem_append.mp hpart).imp (fun hused => ⟨result, hused, hshown⟩)
            fun hdropped => ⟨?_, Or.inr (Or.inr ?_)⟩
          · rw [← hshown.2]
            exact Sorting.le_of_pairwise_append _ hrelevant hdropped
          · -- the next result is the best of those that are dropped
            have hnext : next ∈ results := List.mem_of_mem_filter
              (hrest ▸ List.mem_append_right _ List.mem_cons_self)
            obtain ⟨q, hq, hshowsNext⟩ := h.shown next hnext
            have hdrops := List.pairwise_cons.mp (List.pairwise_append.mp hrelevant).2.1
            have hbest : result.score ≤ next.score := by
              rcases List.mem_cons.mp hdropped with rfl | hlast
              · exact le_rfl
              · exact hdrops.1 result hlast
            rw [hshown.2, hshowsNext.2] at hbest
            exact ⟨q, next, tokens, hq, hshowsNext, hbest, htokens, by omega⟩
      · have hbelow : score p < service.scoreThreshold := by
          rw [← hshown.2]
          exact not_le.mp hthreshold
        refine Or.inr ⟨fun used hused => ?_, Or.inr (Or.inl hbelow)⟩
        have habove : used ∈ service.relevant results :=
          hlater ▸ List.mem_append_left later hused
        exact hbelow.le.trans (by simpa using List.of_mem_filter habove)
    · exact Or.inr ⟨fun result hresult => hbetter result (hmem result hresult),
        Or.inl houtranked⟩

end Steps

/-! ## Runs -/

/-- The results come from the answer to the query's embedding. -/
theorem ensures_search_results {env : SearchDocuments.Env}
    {faults : Faults SearchDocuments.Site PyExc} {request : SearchRequest} :
    Ensures (fun _ => True) (SearchDocuments.execute env faults request)
      (fun response _ => ∃ uuid4 results,
        QdrantVectorRepository.search env.queryPoints env.intFromStr uuid4
            (env.embed request.query) request.topK (requestFilters request) none =
          .ok results ∧ response.results = results.map resultDto)
      fun _ _ => True := by
  apply ensures_trivial.bind
  intro queryTokens
  have hembed : Ensures (fun _ : ℕ => True)
      (perform faults .embed (pure (env.embed request.query)))
      (fun queryEmbedding _ => queryEmbedding = env.embed request.query) fun _ _ => True :=
    ensures_perform_pure.imp (fun _ _ h => h.2.1) fun _ _ _ => trivial
  refine hembed.bind_fact fun queryEmbedding hquery => ?_
  subst hquery
  apply ensures_trivial.bind
  intro uuid4
  have hsearch : Ensures (fun _ : ℕ => True)
      (perform faults .search (ofExcept
        (QdrantVectorRepository.search env.queryPoints env.intFromStr uuid4
          (env.embed request.query) request.topK (requestFilters request) none)))
      (fun results _ => QdrantVectorRepository.search env.queryPoints env.intFromStr uuid4
        (env.embed request.query) request.topK (requestFilters request) none = .ok results)
      fun _ _ => True :=
    ensures_perform (fun _ => (ensures_ofExcept _).imp (fun _ _ h => h.2) fun _ _ _ => trivial)
      fun _ _ _ _ => trivial
  refine hsearch.bind_fact fun results hresults => ?_
  refine ensures_trivial.bind fun _ => ensures_pure fun _ _ => ?_
  exact ⟨uuid4, results, hresults, rfl⟩

/-- The results are the best that the store has for the query. -/
def FindsBest (satisfies : Dict Json → FieldCondition → Bool)
    (scoreOf : List ℚ → Point → ℚ) (store : PointStore) (env : SearchDocuments.Env)
    (request : SearchRequest) (results : List SearchResult) : Prop :=
  let score := scoreOf (env.embed request.query).values
  Best satisfies env.intFromStr score store request
    (Outranked satisfies score store request) results

section Chat

variable {H : Type} (satisfies : Dict Json → FieldCondition → Bool)
  (scoreOf : List ℚ → Point → ℚ) (store : PointStore) (env : RagChat.Env H)
  (request : RagChat.ChatRequest)

/-- The results are the best that the store has for the message, as far as the
context has room for them. -/
def UsesBest (used : List SearchResult) : Prop :=
  let score := scoreOf (env.search.embed request.message).values
  let search := RagChat.searchRequest request
  Best satisfies env.search.intFromStr score store search
    (LeftOut satisfies env.search.intFromStr score store search env.context used) used

/-- Further chunks of a kind have been sent. -/
def Continues (before : List RagChat.StreamChunk) (P : RagChat.StreamChunk → Prop)
    (s : RagChat.State H) : Prop :=
  ∃ new, s.sent = before ++ new ∧ ∀ chunk ∈ new, P chunk

/-- The prompt shows the blocks of the results, in their order. -/
def Prompts (used : List SearchResult) (messages : List ChatMessage) : Prop :=
  messages.head? = some (PromptService.systemMessage
    (String.intercalate "\n\n" (ContextService.blocksOf used)))

variable {satisfies scoreOf store env request} {faults : Faults RagChat.Site PyExc}
  (hexact : Exact satisfies scoreOf store env.search.queryPoints)

include hexact

theorem ensures_prepare_best {F : RagChat.State H → Prop}
    (hF : ∀ s n, F s → F { s with drawn := n }) :
    Ensures F (RagChat.prepare env faults request)
      (fun prepared s => F s ∧ UsesBest satisfies scoreOf store env request prepared.2 ∧
        Prompts prepared.2 prepared.1)
      fun _ => F := by
  refine ((ensures_focus ensures_search_results
    fun t s hs => hF s t hs).impRaise fun _ _ h => h.1).bind fun response => ensures_of_fact ?_
  rintro ⟨uuid4, results, hresults, hdtos⟩
  have hbest := best_of_search hexact hresults
  have hdomain : Ensures F (RagChat.domainResults env response.results)
      (fun rebuilt s => F s ∧ Best satisfies env.search.intFromStr
        (scoreOf (env.search.embed request.message).values) store
        (RagChat.searchRequest request)
        (Outranked satisfies (scoreOf (env.search.embed request.message).values) store
          (RagChat.searchRequest request)) rebuilt)
      fun _ => F := by
    apply Ensures.bind (M := fun _ => F) (fun s hs => hF s _ hs)
    intro uuid4'
    refine (ensures_ofExcept _).imp ?_ fun _ _ h => h.1
    rintro rebuilt s ⟨hs, hrebuilt⟩
    obtain ⟨used, hused, hshape⟩ := rebuild_resultDto env.search.intFromStr uuid4' results
    rw [hdtos, hused] at hrebuilt
    cases hrebuilt
    exact ⟨hs, hbest.rebuilt hshape⟩
  refine hdomain.bind fun rebuilt => ensures_of_fact fun hrebuilt => ?_
  refine ((ensures_ofExcept _).impRaise fun _ _ h => h.1).bind fun built =>
    ensures_of_fact fun hbuilt => ?_
  obtain ⟨context, used⟩ := built
  refine (ensures_history.impReturn fun _ _ h => h.1).bind fun history => ensures_pure ?_
  intro s hs
  refine ⟨hs, hrebuilt.used hbuilt, ?_⟩
  rw [Prompts, ContextService.blocksOf, ← ContextService.buildContext_eq_intercalate hbuilt]
  rfl

/-- Answering at once: the prompt and the sources are about the same results,
the best there are. -/
theorem ensures_execute_best :
    Ensures (fun _ => True) (RagChat.execute env faults request)
      (fun response s => ∃ used, UsesBest satisfies scoreOf store env request used ∧
        (∃ messages ∈ s.asked, Prompts used messages) ∧
          response.sources = RagChat.buildSources used)
      fun _ _ => True := by
  refine Ensures.bind (ensures_prepare_best (F := fun _ => True) hexact fun _ _ h => h)
    fun prepared => ensures_of_fact ?_
  obtain ⟨messages, used⟩ := prepared
  rintro ⟨hbest, hprompts⟩
  have hcomplete : Ensures (fun _ : RagChat.State H => True)
      (perform faults .complete do
        modify fun s => { s with asked := s.asked ++ [messages] }
        pure (env.complete messages))
      (fun _ s => messages ∈ s.asked) fun _ _ => True := by
    refine ensures_perform (fun _ => ?_) fun _ _ _ _ => trivial
    refine Ensures.bind (M := fun _ s => messages ∈ s.asked)
      (ensures_modify fun s _ => ?_) fun _ => ensures_pure fun _ hs => hs
    exact List.mem_append_right _ (List.mem_singleton.mpr rfl)
  refine hcomplete.bind fun response => ?_
  have hsave : Preserves (fun s : RagChat.State H => messages ∈ s.asked)
      (RagChat.saveTurn env faults request response.message) :=
    RagChat.preserves_saveTurn env faults (fun _ _ hs => hs) request response.message
  refine Ensures.bind (Ensures.impRaise hsave fun _ _ _ => trivial) fun _ => ?_
  refine Ensures.bind (Ensures.impRaise (Preserves.pure _).perform fun _ _ _ => trivial)
    fun _ => ensures_pure fun s hs => ?_
  exact ⟨used, hbest, ⟨messages, hs, hprompts⟩, rfl⟩

omit hexact in
/-- A stream that has sent some chunks goes on with chunks of a kind. -/
theorem preserves_continues_yieldChunk {before : List RagChat.StreamChunk}
    {P : RagChat.StreamChunk → Prop} {site : RagChat.Site} {chunk : RagChat.StreamChunk}
    (hchunk : P chunk) :
    Preserves (Continues (H := H) before P) (RagChat.yieldChunk faults site chunk) := by
  refine Preserves.bind (ensures_modify fun s hs => ?_) fun _ => (Preserves.pure _).perform
  obtain ⟨new, hsent, hnew⟩ := hs
  refine ⟨new ++ [chunk], by rw [hsent, List.append_assoc], ?_⟩
  rw [List.forall_mem_append]
  exact ⟨hnew, List.forall_mem_singleton.mpr hchunk⟩

omit hexact in
theorem preserves_continues_forwardDeltas {before : List RagChat.StreamChunk}
    {P : RagChat.StreamChunk → Prop} (hdelta : ∀ delta, P { content := delta }) (i : ℕ)
    (fullContent : String) (deltas : List String) :
    Preserves (Continues (H := H) before P)
      (RagChat.forwardDeltas faults i fullContent deltas) := by
  induction deltas generalizing i fullContent with
  | nil => exact (Preserves.pure _).perform.bind fun _ => Preserves.pure _
  | cons delta rest ih =>
      exact (Preserves.pure _).perform.bind fun _ =>
        (preserves_continues_yieldChunk (hdelta delta)).bind fun _ => ih _ _

/-- Answering piece by piece: a chunk with sources lists the best there are. -/
theorem preserves_stream_best (before : List RagChat.StreamChunk) :
    Preserves (Continues (H := H) before fun chunk => ∀ sources,
        chunk.sources = some sources →
          ∃ used, UsesBest satisfies scoreOf store env request used ∧
            sources = RagChat.buildSources used)
      (RagChat.stream env faults request) := by
  refine (ensures_prepare_best hexact fun _ _ h => h).bind fun prepared => ensures_of_fact ?_
  rintro ⟨hbest, -⟩
  refine Preserves.bind (Preserves.perform (ensures_modify fun _ hs => hs)) fun _ => ?_
  refine (preserves_continues_forwardDeltas (fun delta sources hsources => ?_) _ _ _).bind
    fun fullContent => ?_
  · cases hsources
  refine (Preserves.ofExcept _).bind fun promptTokens => ?_
  refine (Preserves.ofExcept _).bind fun completionTokens => ?_
  refine (preserves_continues_yieldChunk fun sources hsources => ?_).bind fun _ =>
    (RagChat.preserves_saveTurn env faults (fun _ _ hs => hs) request _).bind fun _ =>
      (Preserves.pure _).perform
  cases hsources
  exact ⟨prepared.2, hbest, rfl⟩

end Chat

/-- Over a server that answers exactly, whatever fails: a search finds the best
matches, a chat that is answered has asked with the best of them and lists
these, and so does a stream that lists its sources. -/
theorem matches_are_best {H : Type} {satisfies : Dict Json → FieldCondition → Bool}
    {scoreOf : List ℚ → Point → ℚ} {store : PointStore} (env : RagChat.Env H)
    (hexact : Exact satisfies scoreOf store env.search.queryPoints) :
    (∀ faults request drawn response drawn',
        (SearchDocuments.execute env.search faults request).run drawn = .ok response drawn' →
          ∃ results, FindsBest satisfies scoreOf store env.search request results ∧
            response.results = results.map resultDto) ∧
      (∀ faults request s response s',
          (RagChat.execute env faults request).run s = .ok response s' →
            ∃ used, UsesBest satisfies scoreOf store env request used ∧
              (∃ messages ∈ s'.asked, Prompts used messages) ∧
                response.sources = RagChat.buildSources used) ∧
        ∀ faults request s, ∃ new,
          (finalState ((RagChat.stream env faults request).run s)).sent = s.sent ++ new ∧
            ∀ chunk ∈ new, ∀ sources, chunk.sources = some sources →
              ∃ used, UsesBest satisfies scoreOf store env request used ∧
                sources = RagChat.buildSources used := by
  refine ⟨fun faults request drawn response drawn' hrun => ?_,
    fun faults request s response s' hrun => (ensures_execute_best hexact).ok trivial hrun,
    fun faults request s => ?_⟩
  · obtain ⟨uuid4, results, hresults, hdtos⟩ := ensures_search_results.ok trivial hrun
    exact ⟨results, best_of_search hexact hresults, hdtos⟩
  · have hstart : Continues (H := H) s.sent (fun chunk => ∀ sources,
        chunk.sources = some sources →
          ∃ used, UsesBest satisfies scoreOf store env request used ∧
            sources = RagChat.buildSources used) s :=
      ⟨[], (List.append_nil _).symm, fun _ h => absurd h List.not_mem_nil⟩
    exact (preserves_stream_best hexact s.sent).final hstart

/-- A chat about a meeting of which a note is stored. -/
theorem matches_are_best_meeting : ∃ response s' used,
    (RagChat.execute (favouringChat keyword (fun _ => none) sharedStore
        (tenantPoint ⟨11⟩ ⟨1⟩ ⟨21⟩)) Faults.none (meetingChat none)).run
      { history := () } = .ok response s' ∧
    used ≠ [] ∧
    UsesBest keyword (favour (tenantPoint ⟨11⟩ ⟨1⟩ ⟨21⟩)) sharedStore
      (favouringChat keyword (fun _ => none) sharedStore (tenantPoint ⟨11⟩ ⟨1⟩ ⟨21⟩))
      (meetingChat none) used ∧
    response.sources = RagChat.buildSources used := by
  let note := tenantPoint ⟨11⟩ ⟨1⟩ ⟨21⟩
  have hstored : note ∈ sharedStore.items := List.mem_cons_self
  have hmatches : Matches keyword none note := fun _ h => absurd h List.not_mem_nil
  have hanswers : Ensures _ (RagChat.execute
      (favouringChat keyword (fun _ => none) sharedStore note) Faults.none (meetingChat none))
      _ _ :=
    ensures_execute_first hstored rfl hmatches (readable_tenantPoint _ _ _ _) ⟨none, rfl⟩
  obtain ⟨response, s', hrun, source, hsource, -⟩ :=
    hanswers.exists_ok (s := { history := () }) trivial
  obtain ⟨used, hbest, -, hsources⟩ := (matches_are_best
    (favouringChat keyword (fun _ => none) sharedStore note)
    (topPoints_exact (favour note) sharedStore)).2.1 _ _ _ _ _ hrun
  refine ⟨response, s', used, hrun, ?_, hbest, hsources⟩
  rintro rfl
  rw [hsources] at hsource
  cases hsource

end Retrieval
end AiBackend

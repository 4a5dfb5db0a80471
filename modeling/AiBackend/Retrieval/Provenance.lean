import AiBackend.Application.RagChat
import AiBackend.Infrastructure.QueryServer

/-!
# Where the retrieved text comes from

Every result of a search shows a point of the answer it got, and every source
and context block of a chat shows one of the results of its search.  If the
readable points an answer can list have some property, so have the points
behind everything that is shown, whatever fails on the way.
-/

namespace AiBackend
namespace Retrieval

open Program Python QdrantVectorRepository SearchDocuments

/-! ## What shows a point -/

section Shows

variable (intFromStr : String → Option ℤ) (p : Point)

def ShowsResult (result : SearchResult) : Prop :=
  ∃ score fresh, toSearchResult intFromStr fresh ⟨p, score⟩ = .ok result

def ShowsDto (dto : SearchResultDTO) : Prop :=
  ∃ result, ShowsResult intFromStr p result ∧ dto = resultDto result

/-- A result as the chat uses it, with a new collection. -/
def ShowsUsed (used : SearchResult) : Prop :=
  ∃ result collectionId, ShowsResult intFromStr p result ∧
    used = { result with collectionId := collectionId }

def ShowsBlock (block : String) : Prop :=
  ∃ used i, ShowsUsed intFromStr p used ∧
    block = ContextService.formatBlock i used

def ShowsSource (source : RagChat.SourceDTO) : Prop :=
  ∃ used i, ShowsUsed intFromStr p used ∧ source = RagChat.source i used

/-- The point can be read, at a suitable score. -/
def Readable : Prop := ∃ result, ShowsResult intFromStr p result

variable {intFromStr p}

theorem ShowsResult.id {result : SearchResult}
    (h : ShowsResult intFromStr p result) : p.id = .uuid result.chunkId := by
  obtain ⟨score, fresh, hread⟩ := h
  exact id_of_toSearchResult hread

/-- The identifier in a result determines the point it shows. -/
theorem ShowsDto.id_eq {q : Point} {dto : SearchResultDTO}
    (hp : ShowsDto intFromStr p dto) (hq : ShowsDto intFromStr q dto) :
    p.id = q.id := by
  obtain ⟨result, hresult, rfl⟩ := hp
  obtain ⟨result', hresult', hdto⟩ := hq
  simp only [resultDto, SearchResultDTO.mk.injEq] at hdto
  rw [hresult.id, hresult'.id, Uuid.str_injective hdto.1]

/-- So does the one in a source. -/
theorem ShowsSource.id_eq {q : Point} {source : RagChat.SourceDTO}
    (hp : ShowsSource intFromStr p source) (hq : ShowsSource intFromStr q source) :
    p.id = q.id := by
  obtain ⟨used, i, ⟨result, collectionId, hresult, rfl⟩, rfl⟩ := hp
  obtain ⟨used', j, ⟨result', collectionId', hresult', rfl⟩, hsource⟩ := hq
  simp only [RagChat.source, RagChat.SourceDTO.mk.injEq] at hsource
  rw [hresult.id, hresult'.id, Uuid.str_injective hsource.2.1]

end Shows

/-! ## Search -/

/-- The readable points of every answer to the request's query are good. -/
def Answers (Good : Point → Prop) (env : SearchDocuments.Env)
    (request : SearchRequest) : Prop :=
  ∀ queryFilter, buildFilter none (requestFilters request) = .ok queryFilter →
    ∀ vector limit, ∀ scored ∈ env.queryPoints vector limit queryFilter,
      Readable env.intFromStr scored.point → Good scored.point

section Search

variable {Good : Point → Prop} {env : SearchDocuments.Env}
  {request : SearchRequest}

theorem exists_of_mem_search (hanswers : Answers Good env request)
    {uuid4 : ℕ → Uuid} {queryEmbedding : EmbeddingVector} {topK : ℤ}
    {results : List SearchResult}
    (h : QdrantVectorRepository.search env.queryPoints env.intFromStr uuid4
      queryEmbedding topK (requestFilters request) none = .ok results) :
    ∀ result ∈ results, ∃ p, Good p ∧ ShowsResult env.intFromStr p result := by
  obtain ⟨queryFilter, hfilter, hresults⟩ := except_bind_eq_ok_iff.mp h
  cases hresults
  intro result hresult
  obtain ⟨⟨p, score⟩, hscored, fresh, hread⟩ := exists_of_mem_readPoints hresult
  have hshows : ShowsResult env.intFromStr p result := ⟨score, fresh, hread⟩
  exact ⟨p, hanswers queryFilter hfilter _ _ _ hscored ⟨result, hshows⟩, hshows⟩

/-- Every result of the use case shows a good point. -/
theorem ensures_search {faults : Faults SearchDocuments.Site PyExc}
    (hanswers : Answers Good env request) :
    Ensures (fun _ => True) (SearchDocuments.execute env faults request)
      (fun response _ => ∃ results : List SearchResult,
        response.results = results.map resultDto ∧
          ∀ result ∈ results, ∃ p, Good p ∧ ShowsResult env.intFromStr p result)
      fun _ _ => True := by
  apply ensures_trivial.bind
  intro queryTokens
  apply ensures_trivial.bind
  intro queryEmbedding
  apply ensures_trivial.bind
  intro uuid4
  have hsearch : Ensures (fun _ : ℕ => True)
      (perform faults .search (ofExcept
        (QdrantVectorRepository.search env.queryPoints env.intFromStr uuid4
          queryEmbedding request.topK (requestFilters request) none)))
      (fun results _ => True ∧ ∀ result ∈ results, ∃ p, Good p ∧
        ShowsResult env.intFromStr p result)
      fun _ _ => True :=
    ensures_perform (fun _ => (ensures_ofExcept _).imp
      (fun _ _ h => ⟨h.1, exists_of_mem_search hanswers h.2⟩) fun _ _ _ => trivial)
      fun _ _ _ _ => trivial
  refine hsearch.bind fun results => ensures_of_fact fun hresults => ?_
  refine ensures_trivial.bind fun _ => ensures_pure fun _ _ => ?_
  exact ⟨results, rfl, hresults⟩

end Search

/-! ## The context -/

section Context

variable {service : ContextService}

theorem fittingBlocks_spec {model : String} {i : ℕ} {currentTokens : ℤ}
    {results : List SearchResult} {used : List (String × SearchResult)}
    (h : service.fittingBlocks model i currentTokens results = .ok used) :
    ∀ entry ∈ used, entry.2 ∈ results ∧
      ∃ j, entry.1 = ContextService.formatBlock j entry.2 := by
  induction results generalizing i currentTokens used with
  | nil =>
      cases h
      simp
  | cons result rest ih =>
      rw [ContextService.fittingBlocks] at h
      obtain ⟨blockTokens, -, h⟩ := except_bind_eq_ok_iff.mp h
      split at h
      · cases h
        simp
      · obtain ⟨more, hmore, h⟩ := except_bind_eq_ok_iff.mp h
        cases h
        intro entry hentry
        rcases List.mem_cons.mp hentry with rfl | hentry
        · exact ⟨by simp, i + 1, rfl⟩
        · obtain ⟨hmem, hblock⟩ := ih hmore entry hentry
          exact ⟨by simp [hmem], hblock⟩

/-- The context is made of blocks, one for each used result. -/
theorem buildContext_spec {results used : List SearchResult} {context : String}
    (h : service.buildContext results = .ok (context, used)) :
    (∀ result ∈ used, result ∈ results) ∧
      ∃ blocks, context = String.intercalate "\n\n" blocks ∧
        ∀ block ∈ blocks, ∃ result ∈ results, ∃ i,
          block = ContextService.formatBlock i result := by
  unfold ContextService.buildContext at h
  dsimp only at h
  split at h
  · cases h
    exact ⟨by simp, [], rfl, by simp⟩
  · obtain ⟨entries, hentries, h⟩ := except_bind_eq_ok_iff.mp h
    cases h
    have hspec := fittingBlocks_spec hentries
    constructor
    · intro result hresult
      obtain ⟨entry, hentry, rfl⟩ := List.mem_map.mp hresult
      exact List.mem_of_mem_filter (hspec entry hentry).1
    · refine ⟨_, rfl, fun block hblock => ?_⟩
      obtain ⟨entry, hentry, rfl⟩ := List.mem_map.mp hblock
      obtain ⟨hmem, i, hi⟩ := hspec entry hentry
      exact ⟨entry.2, List.mem_of_mem_filter hmem, i, hi⟩

end Context

/-! ## Chat -/

section Chat

variable {H : Type} {env : RagChat.Env H} {faults : Faults RagChat.Site PyExc}
  {request : RagChat.ChatRequest}

/-- The prompt's context is made of blocks that show good points. -/
def ContextShows (Good : Point → Prop) (intFromStr : String → Option ℤ)
    (messages : List ChatMessage) : Prop :=
  ∃ blocks, (∀ block ∈ blocks, ∃ p, Good p ∧ ShowsBlock intFromStr p block) ∧
    messages.head? =
      some (PromptService.systemMessage (String.intercalate "\n\n" blocks))

def SourcesShow (Good : Point → Prop) (intFromStr : String → Option ℤ)
    (sources : List RagChat.SourceDTO) : Prop :=
  ∀ source ∈ sources, ∃ p, Good p ∧ ShowsSource intFromStr p source

/-- Whatever has gone to the provider or to the consumer of a stream shows
good points. -/
structure Told (Good : Point → Prop) (intFromStr : String → Option ℤ)
    (s : RagChat.State H) : Prop where
  asked : ∀ messages ∈ s.asked, ContextShows Good intFromStr messages
  sent : ∀ chunk ∈ s.sent, ∀ sources, chunk.sources = some sources →
    SourcesShow Good intFromStr sources

variable {Good : Point → Prop} {intFromStr : String → Option ℤ}

/-- The results mapped back are those of the search, with new collections. -/
theorem rebuild_resultDto (intFromStr : String → Option ℤ) (uuid4 : ℕ → Uuid)
    (results : List SearchResult) :
    ∃ used, RagChat.rebuild intFromStr uuid4 (results.map resultDto) = .ok used ∧
      List.Forall₂ (fun result used => ∃ collectionId,
        used = { result with collectionId := collectionId }) results used := by
  induction results generalizing uuid4 with
  | nil => exact ⟨[], rfl, .nil⟩
  | cons result results ih =>
      obtain ⟨used, hused, hshape⟩ := ih fun n => uuid4 (n + 1)
      have hfirst : RagChat.domainResult intFromStr (uuid4 0) (resultDto result) =
          .ok { result with collectionId := uuid4 0 } := by
        simp only [RagChat.domainResult, resultDto, Uuid.fromStr_str]
        exact SearchResult.construct_self result (uuid4 0)
      refine ⟨{ result with collectionId := uuid4 0 } :: used, ?_,
        .cons ⟨_, rfl⟩ hshape⟩
      rw [List.map_cons, RagChat.rebuild, hfirst, hused]
      rfl

/-- Every result mapped back shows what the search showed. -/
theorem shows_of_rebuild {uuid4 : ℕ → Uuid} {results used : List SearchResult}
    (hshows : ∀ result ∈ results, ∃ p, Good p ∧ ShowsResult intFromStr p result)
    (hused : RagChat.rebuild intFromStr uuid4 (results.map resultDto) = .ok used) :
    ∀ r ∈ used, ∃ p, Good p ∧ ShowsUsed intFromStr p r := by
  obtain ⟨used', hused', hshape⟩ := rebuild_resultDto intFromStr uuid4 results
  obtain rfl : used' = used := Except.ok.inj (hused'.symm.trans hused)
  clear hused hused'
  induction hshape with
  | nil =>
      intro r hr
      cases hr
  | cons hfirst _ ih =>
      obtain ⟨collectionId, rfl⟩ := hfirst
      rw [List.forall_mem_cons] at hshows ⊢
      obtain ⟨p, hp, hresult⟩ := hshows.1
      exact ⟨⟨p, hp, _, collectionId, hresult, rfl⟩, ih hshows.2⟩

/-- The history is read for a readable user, or for none. -/
theorem ensures_history {F : RagChat.State H → Prop} :
    Ensures F (RagChat.history env faults request)
      (fun _ s => F s ∧ ∃ user, RagChat.requestUser request = .ok user)
      fun _ => F := by
  refine ((ensures_ofExcept _).impRaise fun _ _ h => h.1).bind fun user =>
    ensures_of_fact fun huser => ?_
  cases user with
  | none => exact ensures_pure fun s hs => ⟨hs, none, huser⟩
  | some userId =>
      have hget : Preserves F (perform faults .getHistory do
          let s ← get
          pure (env.history.getHistory s.history userId 5)) :=
        Preserves.perform (Preserves.bind (fun s hs => hs) fun _ => Preserves.pure _)
      exact Ensures.impReturn hget fun _ _ h => ⟨h, some userId, huser⟩

/-- Steps 1 to 4 change nothing but the generator.  Whoever gets to a prompt
has a readable user, or none, and a context that shows good points. -/
theorem ensures_prepare {F : RagChat.State H → Prop}
    (hF : ∀ s n, F s → F { s with drawn := n })
    (hanswers : Answers Good env.search (RagChat.searchRequest request)) :
    Ensures F (RagChat.prepare env faults request)
      (fun prepared s => F s ∧
        (∃ user, RagChat.requestUser request = .ok user) ∧
          ContextShows Good env.search.intFromStr prepared.1 ∧
            ∀ used ∈ prepared.2, ∃ p, Good p ∧
              ShowsUsed env.search.intFromStr p used)
      fun _ => F := by
  refine ((ensures_focus (ensures_search hanswers)
    fun t s hs => hF s t hs).impRaise fun _ _ h => h.1).bind fun response => ensures_of_fact ?_
  intro h
  obtain ⟨results, hresults, hshows⟩ := h
  have hdomain : Ensures F (RagChat.domainResults env response.results)
      (fun used s => F s ∧
        ∀ r ∈ used, ∃ p, Good p ∧ ShowsUsed env.search.intFromStr p r)
      fun _ => F := by
    apply Ensures.bind (M := fun _ => F) (fun s hs => hF s _ hs)
    intro uuid4
    refine (ensures_ofExcept _).imp ?_ fun _ _ h => h.1
    intro used s hs
    obtain ⟨hs, hused⟩ := hs
    rw [hresults] at hused
    exact ⟨hs, shows_of_rebuild hshows hused⟩
  refine hdomain.bind fun used => ensures_of_fact fun hused => ?_
  refine ((ensures_ofExcept _).impRaise fun _ _ h => h.1).bind fun built =>
    ensures_of_fact fun hbuilt => ?_
  obtain ⟨context, inContext⟩ := built
  obtain ⟨hmem, blocks, rfl, hblocks⟩ := buildContext_spec hbuilt
  refine ensures_history.bind fun history => ensures_pure ?_
  intro s hs
  obtain ⟨hs, huser⟩ := hs
  refine ⟨hs, huser, ⟨blocks, fun block hblock => ?_, rfl⟩,
    fun r hr => hused r (hmem r hr)⟩
  obtain ⟨result, hresult, i, rfl⟩ := hblocks block hblock
  obtain ⟨p, hp, hshows⟩ := hused result hresult
  exact ⟨p, hp, result, i, hshows, rfl⟩

/-- The answers matter only if the user can be read. -/
theorem ensures_prepare_told
    (hanswers : (∃ user, RagChat.requestUser request = .ok user) →
      Answers Good env.search (RagChat.searchRequest request)) :
    Ensures (Told Good env.search.intFromStr) (RagChat.prepare env faults request)
      (fun prepared s => Told Good env.search.intFromStr s ∧
        ContextShows Good env.search.intFromStr prepared.1 ∧
          ∀ used ∈ prepared.2, ∃ p, Good p ∧
            ShowsUsed env.search.intFromStr p used)
      fun _ => Told Good env.search.intFromStr := by
  have hdrawn : ∀ (s : RagChat.State H) n, Told Good env.search.intFromStr s →
      Told Good env.search.intFromStr { s with drawn := n } :=
    fun s n hs => ⟨hs.asked, hs.sent⟩
  by_cases huser : ∃ user, RagChat.requestUser request = .ok user
  · exact (ensures_prepare hdrawn (hanswers huser)).impReturn fun _ _ h => ⟨h.1, h.2.2⟩
  · have hany : Answers (fun _ => True) env.search (RagChat.searchRequest request) :=
      fun _ _ _ _ _ _ _ => trivial
    exact (ensures_prepare hdrawn hany).imp (fun _ _ h => absurd h.2.1 huser) fun _ _ h => h

/-! ## After the prompt -/

theorem preserves_saveTurn (answer : ChatMessage) :
    Preserves (Told Good intFromStr) (RagChat.saveTurn env faults request answer) :=
  RagChat.preserves_saveTurn env faults (fun _ _ hs => ⟨hs.asked, hs.sent⟩) request answer

theorem preserves_asked {messages : List ChatMessage}
    (hcontext : ContextShows Good intFromStr messages) :
    Preserves (ε := Raised PyExc) (Told (H := H) Good intFromStr)
      (modify fun s => { s with asked := s.asked ++ [messages] }) := by
  refine ensures_modify fun s hs => ⟨fun messages' hmem => ?_, hs.sent⟩
  rcases List.mem_append.mp hmem with hmem | hmem
  · exact hs.asked messages' hmem
  · rw [List.mem_singleton] at hmem
    exact hmem ▸ hcontext

theorem preserves_yieldChunk (site : RagChat.Site) {chunk : RagChat.StreamChunk}
    (hchunk : ∀ sources, chunk.sources = some sources →
      SourcesShow Good intFromStr sources) :
    Preserves (Told (H := H) Good intFromStr)
      (RagChat.yieldChunk faults site chunk) := by
  refine Preserves.bind (ensures_modify fun s hs => ⟨hs.asked, ?_⟩)
    fun _ => (Preserves.pure _).perform
  intro chunk' hmem
  rcases List.mem_append.mp hmem with hmem | hmem
  · exact hs.sent chunk' hmem
  · rw [List.mem_singleton] at hmem
    exact hmem ▸ hchunk

theorem preserves_forwardDeltas (i : ℕ) (fullContent : String)
    (deltas : List String) :
    Preserves (Told (H := H) Good intFromStr)
      (RagChat.forwardDeltas faults i fullContent deltas) := by
  induction deltas generalizing i fullContent with
  | nil => exact (Preserves.pure _).perform.bind fun _ => Preserves.pure _
  | cons delta rest ih =>
      apply (Preserves.pure _).perform.bind
      intro _
      refine (preserves_yieldChunk _ fun sources hsources => ?_).bind fun _ =>
        ih _ _
      cases hsources

theorem sourcesShow_buildSources {results : List SearchResult}
    (hresults : ∀ r ∈ results, ∃ p, Good p ∧ ShowsUsed intFromStr p r) :
    SourcesShow Good intFromStr (RagChat.buildSources results) := by
  intro source hsource
  obtain ⟨i, hi, rfl⟩ := List.mem_mapIdx.mp hsource
  obtain ⟨p, hp, hshows⟩ := hresults results[i] (List.getElem_mem hi)
  exact ⟨p, hp, _, i, hshows, rfl⟩

/-- Answering at once. -/
theorem ensures_execute
    (hanswers : (∃ user, RagChat.requestUser request = .ok user) →
      Answers Good env.search (RagChat.searchRequest request)) :
    Ensures (Told Good env.search.intFromStr) (RagChat.execute env faults request)
      (fun response s => Told Good env.search.intFromStr s ∧
        SourcesShow Good env.search.intFromStr response.sources)
      fun _ => Told Good env.search.intFromStr := by
  refine (ensures_prepare_told hanswers).bind fun prepared =>
    ensures_of_fact ?_
  intro h
  obtain ⟨hcontext, hused⟩ := h
  refine Ensures.bind ((preserves_asked hcontext).bind fun _ =>
    Preserves.pure _).perform fun response => ?_
  apply Ensures.bind (preserves_saveTurn _)
  intro _
  refine Ensures.bind (Preserves.pure _).perform fun _ => ensures_pure ?_
  exact fun s hs => ⟨hs, sourcesShow_buildSources hused⟩

/-- Answering piece by piece. -/
theorem preserves_stream
    (hanswers : (∃ user, RagChat.requestUser request = .ok user) →
      Answers Good env.search (RagChat.searchRequest request)) :
    Preserves (Told Good env.search.intFromStr)
      (RagChat.stream env faults request) := by
  refine (ensures_prepare_told hanswers).bind fun prepared =>
    ensures_of_fact ?_
  intro h
  obtain ⟨hcontext, hused⟩ := h
  apply (preserves_asked hcontext).perform.bind
  intro _
  apply (preserves_forwardDeltas _ _ _).bind
  intro fullContent
  apply (Preserves.ofExcept _).bind
  intro promptTokens
  apply (Preserves.ofExcept _).bind
  intro completionTokens
  refine (preserves_yieldChunk _ fun sources hsources => ?_).bind fun _ =>
    (preserves_saveTurn _).bind fun _ => (Preserves.pure _).perform
  cases hsources
  exact sourcesShow_buildSources hused

end Chat
end Retrieval
end AiBackend

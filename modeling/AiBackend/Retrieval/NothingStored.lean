import AiBackend.Ingestion.TableHistory
import AiBackend.Retrieval.Isolation

/-!
# What can be retrieved

The points a search looks at are those that pipeline runs have stored.  No
history of ingest calls and runs stores any, so searches find nothing, chats
are asked with an empty context, and answers have no sources.
-/

namespace AiBackend
namespace Retrieval

open Program Python Run QueryServer

variable {H : Type} {env : RagChat.Env H}

/-- Neither searches nor chats show anything of the documents, whatever fails
in them. -/
structure ShowsNothing (env : RagChat.Env H) : Prop where
  results : ∀ faults request drawn response drawn',
    (SearchDocuments.execute env.search faults request).run drawn = .ok response drawn' →
      response.results = [] ∧ response.total = 0
  prompts : ∀ faults request s, s.asked = [] → s.sent = [] →
    (∀ messages ∈ (finalState ((RagChat.execute env faults request).run s)).asked,
      messages.head? = some (PromptService.systemMessage "")) ∧
    ∀ messages ∈ (finalState ((RagChat.stream env faults request).run s)).asked,
      messages.head? = some (PromptService.systemMessage "")
  sources : ∀ faults request s response s', s.asked = [] → s.sent = [] →
    (RagChat.execute env faults request).run s = .ok response s' → response.sources = []
  events : ∀ faults request s, s.asked = [] → s.sent = [] →
    ∀ chunk ∈ (finalState ((RagChat.stream env faults request).run s)).sent,
      ∀ sources, chunk.sources = some sources → sources = []

/-- The total counts the results. -/
theorem ensures_total {env : SearchDocuments.Env}
    {faults : Faults SearchDocuments.Site PyExc} {request : SearchDocuments.SearchRequest} :
    Ensures (fun _ => True) (SearchDocuments.execute env faults request)
      (fun response _ => response.total = response.results.length) fun _ _ => True := by
  apply ensures_trivial.bind
  intro queryTokens
  apply ensures_trivial.bind
  intro queryEmbedding
  apply ensures_trivial.bind
  intro uuid4
  apply ensures_trivial.bind
  intro results
  exact ensures_trivial.bind fun _ => ensures_pure fun _ _ => rfl

section Nothing

variable {intFromStr : String → Option ℤ}

/-- A context made of no block. -/
theorem head?_of_contextShows {messages : List ChatMessage}
    (h : ContextShows (fun _ => False) intFromStr messages) :
    messages.head? = some (PromptService.systemMessage "") := by
  obtain ⟨blocks, hblocks, hhead⟩ := h
  have hnone : blocks = [] := by
    rw [List.eq_nil_iff_forall_not_mem]
    intro block hblock
    obtain ⟨p, hp, -⟩ := hblocks block hblock
    exact hp
  rw [hhead, hnone]
  rfl

theorem eq_nil_of_sourcesShow {sources : List RagChat.SourceDTO}
    (h : SourcesShow (fun _ => False) intFromStr sources) : sources = [] := by
  rw [List.eq_nil_iff_forall_not_mem]
  intro source hsource
  obtain ⟨p, hp, -⟩ := h source hsource
  exact hp

end Nothing

theorem showsNothing_of_answers
    (h : ∀ request, Answers (fun _ => False) env.search request) : ShowsNothing env := by
  have hchat : ∀ (request : RagChat.ChatRequest),
      (∃ user, RagChat.requestUser request = .ok user) →
        Answers (fun _ => False) env.search (RagChat.searchRequest request) :=
    fun request _ => h _
  have hstream : ∀ faults request s, s.asked = [] → s.sent = [] →
      Told (fun _ => False) env.search.intFromStr
        (finalState ((RagChat.stream env faults request).run s)) :=
    fun faults request s hasked hsent =>
      (preserves_stream (hchat request)).final (told_nil hasked hsent)
  constructor
  · intro faults request drawn response drawn' hrun
    obtain ⟨⟨results, hresults, hshows⟩, htotal⟩ :=
      ((ensures_search (h request)).and ensures_total).ok ⟨trivial, trivial⟩ hrun
    have hnone : results = [] := by
      rw [List.eq_nil_iff_forall_not_mem]
      intro result hresult
      obtain ⟨p, hp, -⟩ := hshows result hresult
      exact hp
    rw [hnone] at hresults
    rw [htotal, hresults]
    exact ⟨rfl, rfl⟩
  · intro faults request s hasked hsent
    have htold : Told (fun _ => False) env.search.intFromStr
        (finalState ((RagChat.execute env faults request).run s)) :=
      ((ensures_execute (hchat request)).imp (fun _ _ h => h.1) fun _ _ h => h).final
        (told_nil hasked hsent)
    exact ⟨fun messages hmessages => head?_of_contextShows (htold.asked messages hmessages),
      fun messages hmessages => head?_of_contextShows
        ((hstream faults request s hasked hsent).asked messages hmessages)⟩
  · intro faults request s response s' hasked hsent hrun
    have hresponse := (ensures_execute (hchat request)).ok (told_nil hasked hsent) hrun
    exact eq_nil_of_sourcesShow hresponse.2
  · intro faults request s hasked hsent chunk hchunk sources hsources
    exact eq_nil_of_sourcesShow
      ((hstream faults request s hasked hsent).sent chunk hchunk sources hsources)

/-- After every history of ingest calls and pipeline runs, retrieval from what
they have stored shows nothing. -/
theorem history_showsNothing (history : List IngestDocument.Event)
    (satisfies : Dict Json → FieldCondition → Bool) (env : RagChat.Env H)
    (hranked : Ranked satisfies
      (final IngestDocument.step IngestDocument.deployed history).points
      env.search.queryPoints) : ShowsNothing env := by
  refine showsNothing_of_answers fun request queryFilter _ vector limit scored hscored _ => ?_
  have hstored := hranked.stored vector limit queryFilter scored hscored
  rw [(IngestDocument.unstored_final history).points] at hstored
  cases hstored

/-- A note is ingested, and its job finds a chunk in it. -/
def chunkedHistory : List IngestDocument.Event :=
  [.ingest IngestDocument.noteEnv IngestDocument.inOrder Faults.none
      IngestDocument.noteRequest ⟨1⟩,
    .run 0 (ProcessDocument.greetingEnv [ProcessDocument.greetingChunk]) Faults.none true]

theorem history_showsNothing_chunked :
    ShowsNothing (favouringChat keyword (fun _ => none)
      (final IngestDocument.step IngestDocument.deployed chunkedHistory).points
      (tenantPoint ⟨11⟩ ⟨1⟩ ⟨21⟩)) :=
  history_showsNothing chunkedHistory keyword _ (topPoints_ranked _ _)

end Retrieval
end AiBackend

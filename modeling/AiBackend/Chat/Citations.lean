import AiBackend.Chat.ContextBlocks
import AiBackend.Retrieval.Provenance

/-!
# Citations

The context numbers its blocks in the order of the relevant results, and the
list of sources numbers the used results.  What is used is a beginning of what
is relevant, so the two numberings agree: the citation `[k]` of a prompt and
the `k`-th source of the response show one chunk.
-/

namespace AiBackend
namespace ContextService

open Program Python RagChat

/-- No text has less than no tokens. -/
def CountsTokens (service : ContextService) : Prop :=
  ∀ text model tokens, service.countTokens text model = .ok tokens → 0 ≤ tokens

/-! ## The longest beginning that fits -/

/-- The longest beginning of the relevant results whose blocks, counted one by
one, fit into the budget behind the tokens counted before. -/
structure LongestFitting (service : ContextService) (model : String) (i : ℕ)
    (currentTokens : ℤ) (relevant used : List SearchResult) : Prop where
  isPrefix : used <+: relevant
  fits : used = [] ∨ ∃ tokens, service.blockTokens model i used = .ok tokens ∧
    currentTokens + tokens ≤ service.maxContextTokens
  longest : ∀ more, more <+: relevant → used.length < more.length →
    ∀ tokens, service.blockTokens model i more = .ok tokens →
      service.maxContextTokens < currentTokens + tokens

section Longest

variable {service : ContextService} {model : String} {i : ℕ} {currentTokens tokens : ℤ}
  {result : SearchResult} {rest relevant used : List SearchResult}

theorem blockTokens_cons_eq_ok_iff
    (hcount : service.countTokens (formatBlock (i + 1) result) model = .ok tokens)
    {total : ℤ} :
    service.blockTokens model i (result :: rest) = .ok total ↔
      ∃ more, service.blockTokens model (i + 1) rest = .ok more ∧ total = tokens + more := by
  rw [blockTokens, except_bind_eq_ok_iff]
  constructor
  · intro h
    obtain ⟨first, hfirst, h⟩ := h
    obtain rfl : tokens = first := Except.ok.inj (hcount.symm.trans hfirst)
    obtain ⟨more, hmore, h⟩ := except_bind_eq_ok_iff.mp h
    exact ⟨more, hmore, (Except.ok.inj h).symm⟩
  · intro h
    obtain ⟨more, hmore, rfl⟩ := h
    exact ⟨tokens, hcount, except_bind_eq_ok_iff.mpr ⟨more, hmore, rfl⟩⟩

theorem blockTokens_nonneg (hcounts : service.CountsTokens) {results : List SearchResult}
    {total : ℤ} (h : service.blockTokens model i results = .ok total) : 0 ≤ total := by
  induction results generalizing i total with
  | nil =>
      cases h
      exact le_refl _
  | cons result rest ih =>
      obtain ⟨tokens, hcount, -⟩ := except_bind_eq_ok_iff.mp h
      obtain ⟨more, hmore, rfl⟩ := (blockTokens_cons_eq_ok_iff hcount).mp h
      exact add_nonneg (hcounts _ _ _ hcount) (ih hmore)

/-- Where the first block does not fit, nothing does. -/
theorem longestFitting_nil (hcounts : service.CountsTokens)
    (hcount : service.countTokens (formatBlock (i + 1) result) model = .ok tokens)
    (hfull : service.maxContextTokens < currentTokens + tokens) :
    LongestFitting service model i currentTokens (result :: rest) [] where
  isPrefix := List.nil_prefix
  fits := Or.inl rfl
  longest := by
    intro more hmore hlength total htotal
    obtain ⟨first, more, rfl⟩ := List.exists_cons_of_length_pos hlength
    obtain ⟨rfl, -⟩ := List.cons_prefix_cons.mp hmore
    obtain ⟨others, hothers, rfl⟩ := (blockTokens_cons_eq_ok_iff hcount).mp htotal
    have hnonneg := blockTokens_nonneg hcounts hothers
    omega

/-- Where it fits, the rest is filled up behind it. -/
theorem LongestFitting.cons
    (hcount : service.countTokens (formatBlock (i + 1) result) model = .ok tokens)
    (hroom : currentTokens + tokens ≤ service.maxContextTokens)
    (h : LongestFitting service model (i + 1) (currentTokens + tokens) rest used) :
    LongestFitting service model i currentTokens (result :: rest) (result :: used) where
  isPrefix := List.cons_prefix_cons.mpr ⟨rfl, h.isPrefix⟩
  fits := by
    refine Or.inr ?_
    rcases h.fits with rfl | ⟨more, hmore, hle⟩
    · exact ⟨tokens, (blockTokens_cons_eq_ok_iff hcount).mpr ⟨0, rfl, by omega⟩, hroom⟩
    · exact ⟨tokens + more, (blockTokens_cons_eq_ok_iff hcount).mpr ⟨more, hmore, rfl⟩,
        by omega⟩
  longest := by
    intro more hmore hlength total htotal
    obtain ⟨first, more, rfl⟩ := List.exists_cons_of_length_pos (Nat.zero_lt_of_lt hlength)
    obtain ⟨rfl, hrest⟩ := List.cons_prefix_cons.mp hmore
    obtain ⟨others, hothers, rfl⟩ := (blockTokens_cons_eq_ok_iff hcount).mp htotal
    have hlonger := h.longest more hrest (Nat.lt_of_succ_lt_succ hlength) others hothers
    omega

theorem longestFitting_of_fittingBlocks (hcounts : service.CountsTokens)
    {blocks : List (String × SearchResult)}
    (h : service.fittingBlocks model i currentTokens relevant = .ok blocks) :
    LongestFitting service model i currentTokens relevant (blocks.map Prod.snd) := by
  induction relevant generalizing i currentTokens blocks with
  | nil =>
      cases h
      refine ⟨List.nil_prefix, Or.inl rfl, fun more hmore hlength => ?_⟩
      rw [List.prefix_nil.mp hmore] at hlength
      exact absurd hlength (Nat.lt_irrefl 0)
  | cons result rest ih =>
      rw [fittingBlocks] at h
      obtain ⟨tokens, hcount, h⟩ := except_bind_eq_ok_iff.mp h
      split at h
      next hfull =>
        cases h
        exact longestFitting_nil hcounts hcount hfull
      next hroom =>
        obtain ⟨more, hmore, h⟩ := except_bind_eq_ok_iff.mp h
        cases h
        exact (ih hmore).cons hcount (not_lt.mp hroom)

end Longest

/-! ## Blocks and sources -/

/-- The blocks of the used results, numbered in their order. -/
def blocksOf (used : List SearchResult) : List String :=
  used.mapIdx fun k result => formatBlock (k + 1) result

/-- A block begins with its number and shows the title, the chunk index and
the content of a result. -/
structure Cites (block : String) (number : ℕ) (result : SearchResult) : Prop where
  number : ∃ back, block = ("[" ++ toString number ++ "]") ++ back
  title : ∃ front back,
    block = front ++ ("Source: \"" ++ shownTitle result ++ "\"") ++ back
  chunkIndex : ∃ front back,
    block = front ++ ("(chunk " ++ toString result.chunkIndex ++ ",") ++ back
  content : ∃ front, block = front ++ ("\n" ++ result.content)

/-- A source carries its number and the identifiers of a result. -/
structure Denotes (source : SourceDTO) (number : ℕ) (result : SearchResult) : Prop where
  index : source.index = number
  chunkId : source.chunkId = result.chunkId.str
  documentId : source.documentId = result.documentId.str

theorem formatBlock_eq_parts (number : ℕ) (result : SearchResult) :
    formatBlock number result = ("[" ++ toString number ++ "]") ++
      (" " ++ (("Source: \"" ++ shownTitle result ++ "\"") ++
        (" " ++ (("(chunk " ++ toString result.chunkIndex ++ ",") ++
          ((" relevance " ++ Printf.formatPercent result.score ++ ")") ++
            ("\n" ++ result.content)))))) := by
  have hblock : formatBlock number result =
      "[" ++ toString number ++ "] Source: \"" ++ shownTitle result ++ "\" (chunk " ++
        toString result.chunkIndex ++ ", relevance " ++
        Printf.formatPercent result.score ++ ")\n" ++ result.content := rfl
  have hsource : "] Source: \"" = "]" ++ (" " ++ "Source: \"") := by decide +kernel
  have hchunk : "\" (chunk " = "\"" ++ (" " ++ "(chunk ") := by decide +kernel
  have hrelevance : ", relevance " = "," ++ " relevance " := by decide +kernel
  have hbreak : ")\n" = ")" ++ "\n" := by decide +kernel
  rw [hblock, hsource, hchunk, hrelevance, hbreak]
  simp only [String.append_assoc]

theorem cites_formatBlock (number : ℕ) (result : SearchResult) :
    Cites (formatBlock number result) number result := by
  rw [formatBlock_eq_parts]
  generalize htitle : "Source: \"" ++ shownTitle result ++ "\"" = title,
    hindex : "(chunk " ++ toString result.chunkIndex ++ "," = index,
    " relevance " ++ Printf.formatPercent result.score ++ ")" = relevance
  constructor
  · exact ⟨_, rfl⟩
  · exact ⟨("[" ++ toString number ++ "]") ++ " ", " " ++ (index ++ (relevance ++
      ("\n" ++ result.content))), by simp only [htitle, String.append_assoc]⟩
  · exact ⟨("[" ++ toString number ++ "]") ++ (" " ++ (title ++ " ")), relevance ++
      ("\n" ++ result.content), by simp only [hindex, String.append_assoc]⟩
  · exact ⟨("[" ++ toString number ++ "]") ++ (" " ++ (title ++ (" " ++ (index ++
      relevance)))), by simp only [String.append_assoc]⟩

/-- The `k`-th block and the `k`-th source are those of the `k`-th result, and
there are no others. -/
structure Numbered (blocks : List String) (sources : List SourceDTO)
    (used : List SearchResult) : Prop where
  length_blocks : blocks.length = used.length
  length_sources : sources.length = used.length
  cites : ∀ k result, used[k]? = some result →
    ∃ block, blocks[k]? = some block ∧ Cites block (k + 1) result
  denotes : ∀ k result, used[k]? = some result →
    ∃ source, sources[k]? = some source ∧ Denotes source (k + 1) result

theorem numbered_blocksOf (used : List SearchResult) :
    Numbered (blocksOf used) (buildSources used) used where
  length_blocks := List.length_mapIdx
  length_sources := List.length_mapIdx
  cites := by
    intro k result hk
    refine ⟨formatBlock (k + 1) result, ?_, cites_formatBlock _ _⟩
    rw [blocksOf, List.getElem?_mapIdx, hk]
    rfl
  denotes := by
    intro k result hk
    refine ⟨source k result, ?_, rfl, rfl, rfl⟩
    rw [buildSources, List.getElem?_mapIdx, hk]
    rfl

/-! ## A context and its sources -/

/-- The used results are the longest beginning of the relevant ones that fits,
the context joins their blocks, and blocks and sources have one numbering. -/
structure CitationsAgree (service : ContextService) (model : String)
    (searchResults : List SearchResult) (context : String) (used : List SearchResult)
    (sources : List SourceDTO) : Prop where
  longest : LongestFitting service model 0 0 (service.relevant searchResults) used
  context : context = String.intercalate "\n\n" (blocksOf used)
  numbered : Numbered (blocksOf used) sources used

section Context

variable {service : ContextService} {model : String} {searchResults used : List SearchResult}
  {context : String}

theorem citationsAgree_of_buildContext (hcounts : service.CountsTokens)
    (h : service.buildContext searchResults model = .ok (context, used)) :
    CitationsAgree service model searchResults context used (buildSources used) where
  longest := by
    obtain ⟨blocks, hblocks, -, rfl⟩ := buildContext_eq h
    exact longestFitting_of_fittingBlocks hcounts hblocks
  context := buildContext_eq_intercalate h
  numbered := numbered_blocksOf used

/-- A counter that never raises lets every context be built. -/
theorem exists_buildContext (hcounted : ∀ text, ∃ tokens,
    service.countTokens text model = .ok tokens) (searchResults : List SearchResult) :
    ∃ context used, service.buildContext searchResults model = .ok (context, used) :=
  buildContext_returns_iff.mpr
    (fittingBlocks_returns_iff.mpr fun _ _ _ _ => hcounted _)

end Context

/-! ## A chat -/

section Chat

variable {H : Type} {env : RagChat.Env H} {faults : Faults Site PyExc}
  {request : ChatRequest}

/-- The prompt has the context of the used results. -/
def Asked (env : RagChat.Env H) (request : ChatRequest) (messages : List ChatMessage)
    (results : List SearchResult) (context : String) (used : List SearchResult) : Prop :=
  env.context.buildContext results = .ok (context, used) ∧
    ∃ history, messages = PromptService.buildRagPrompt request.message context history

theorem ensures_prepare_asked (asked : List (List ChatMessage)) :
    Ensures (fun s : RagChat.State H => s.asked = asked) (prepare env faults request)
      (fun prepared s => s.asked = asked ∧ ∃ results context,
        Asked env request prepared.1 results context prepared.2) fun _ _ => True := by
  have hsearch : Ensures (fun s : RagChat.State H => s.asked = asked)
      (RagChat.search env faults (searchRequest request)) (fun _ s => s.asked = asked ∧ True)
      fun _ s => s.asked = asked ∧ True :=
    ensures_focus ensures_trivial fun _ _ hs => hs
  refine (hsearch.impRaise fun _ _ _ => trivial).bind fun response => ?_
  have hdomain : Ensures (fun s : RagChat.State H => s.asked = asked ∧ True)
      (domainResults env response.results) (fun _ s => s.asked = asked) fun _ _ => True := by
    apply Ensures.bind (M := fun _ s => s.asked = asked) fun s hs => hs.1
    exact fun uuid4 => (ensures_ofExcept _).imp (fun _ _ h => h.1) fun _ _ _ => trivial
  refine hdomain.bind fun results => ?_
  refine ((ensures_ofExcept _).impRaise fun _ _ _ => trivial).bind fun built =>
    ensures_of_fact fun hbuilt => ?_
  obtain ⟨context, used⟩ := built
  refine (Retrieval.ensures_history.imp (fun _ _ h => h.1) fun _ _ _ => trivial).bind
    fun history => ensures_pure fun s hs => ?_
  exact ⟨hs, results, context, hbuilt, history, rfl⟩

theorem ensures_execute_cited (asked : List (List ChatMessage)) :
    Ensures (fun s : RagChat.State H => s.asked = asked) (execute env faults request)
      (fun response s => ∃ messages results context used,
        Asked env request messages results context used ∧ s.asked = asked ++ [messages] ∧
          response.sources = buildSources used) fun _ _ => True := by
  refine (ensures_prepare_asked asked).bind fun prepared => ensures_of_fact ?_
  intro h
  obtain ⟨results, context, hasked⟩ := h
  obtain ⟨messages, used⟩ := prepared
  have hcomplete : Ensures (fun s : RagChat.State H => s.asked = asked)
      (perform faults .complete do
        modify fun s => { s with asked := s.asked ++ [messages] }
        pure (env.complete messages))
      (fun _ s => s.asked = asked ++ [messages]) fun _ _ => True := by
    refine ensures_perform (fun _ => ?_) fun _ _ _ _ => trivial
    refine Ensures.bind (M := fun _ s => s.asked = asked ++ [messages])
      (ensures_modify fun s hs => ?_) fun _ => ensures_pure fun _ hs => hs
    rw [hs]
  refine hcomplete.bind fun response => ?_
  have hsave : Preserves (fun s : RagChat.State H => s.asked = asked ++ [messages])
      (saveTurn env faults request response.message) :=
    preserves_saveTurn env faults (fun _ _ hs => hs) request response.message
  refine Ensures.bind (Ensures.impRaise hsave fun _ _ _ => trivial) fun _ => ?_
  refine Ensures.bind (Ensures.impRaise (Preserves.pure _).perform fun _ _ _ => trivial)
    fun _ => ensures_pure fun s hs => ?_
  exact ⟨messages, results, context, used, hasked, hs, rfl⟩

end Chat

/-- Whatever the counter, the threshold and the budget: a context that is
built cites the longest beginning of the relevant results that fits, and it is
built if the counter does not raise; and the prompt of a chat has the context
whose sources its response lists. -/
theorem citations_agree {service : ContextService} (hcounts : service.CountsTokens)
    (model : String) (searchResults : List SearchResult) :
    (∀ context used, service.buildContext searchResults model = .ok (context, used) →
        CitationsAgree service model searchResults context used (buildSources used)) ∧
      ((∀ text, ∃ tokens, service.countTokens text model = .ok tokens) →
        ∃ context used, service.buildContext searchResults model = .ok (context, used)) ∧
      ∀ (H : Type) (env : RagChat.Env H), env.context = service →
        ∀ faults request s response s',
          (execute env faults request).run s = .ok response s' →
            ∃ messages results context used,
              Asked env request messages results context used ∧
                s'.asked = s.asked ++ [messages] ∧
                CitationsAgree service "gpt-4o" results context used response.sources := by
  refine ⟨fun context used h => citationsAgree_of_buildContext hcounts h,
    fun hcounted => exists_buildContext hcounted searchResults, ?_⟩
  rintro H env rfl faults request s response s' hrun
  have hexecute : Ensures _ (execute env faults request) _ _ :=
    ensures_execute_cited s.asked
  have hresponse := hexecute s rfl
  rw [hrun] at hresponse
  obtain ⟨messages, results, context, used, hasked, hprompt, hsources⟩ := hresponse
  exact ⟨messages, results, context, used, hasked, hprompt,
    hsources ▸ citationsAgree_of_buildContext hcounts hasked.1⟩

/-- A service that counts characters. -/
def characterService : ContextService where
  countTokens := fun text _ => .ok text.length
  maxContextTokens := 100

theorem citations_agree_minutes :
    ∃ context used, characterService.buildContext
        [resultWith "minutes", resultWith "agenda"] = .ok (context, used) ∧
      CitationsAgree characterService "gpt-4o" [resultWith "minutes", resultWith "agenda"]
        context used (buildSources used) := by
  have hcounts : characterService.CountsTokens := by
    intro text model tokens h
    cases h
    exact Int.natCast_nonneg _
  obtain ⟨hagree, hbuilt, -⟩ := citations_agree hcounts "gpt-4o"
    [resultWith "minutes", resultWith "agenda"]
  obtain ⟨context, used, h⟩ := hbuilt fun text => ⟨text.length, rfl⟩
  exact ⟨context, used, h, hagree context used h⟩

end ContextService
end AiBackend

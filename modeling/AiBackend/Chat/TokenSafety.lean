import AiBackend.Application.SearchDocuments
import AiBackend.Chat.ContextBlocks
import AiBackend.Domain.TokenAwareChunking

/-!
# Texts that cannot be counted

Queries, stored chunks and documents are encoded with the defaults of
tiktoken, under which the text of a special token is refused.  Searching,
building a context and chunking return exactly if the texts that they encode
have none.
-/

namespace AiBackend
namespace TokenSafety

open Program Python Occurrences ContextService

/-- The format of a block cannot write a special token. -/
theorem foreign_of_isSpecialToken {token : List Char} (h : IsSpecialToken token) :
    Foreign token := by
  obtain ⟨name, rfl, hname⟩ := h
  have hplain : ∀ c, (c = '\n' ∨ c = '"') →
      c ∉ '<' :: '|' :: (name ++ ['|', '>']) := by
    intro c hc hmem
    have hfixed : c ∉ ['<', '|', '>'] ∧
        ¬ (c.isLower = true ∨ c.isDigit = true ∨ c = '_') := by
      rcases hc with rfl | rfl
      · decide
      · decide
    simp only [List.mem_cons, List.mem_append, List.not_mem_nil, or_false] at hmem
    rcases hmem with rfl | rfl | hmem | rfl | rfl
    · exact hfixed.1 (by simp)
    · exact hfixed.1 (by simp)
    · exact hfixed.2 (hname c hmem)
    · exact hfixed.1 (by simp)
    · exact hfixed.1 (by simp)
  have hopen : '<'.isDigit = false ∧ '<' ∉ formatChars ∧
      '<' ∉ "Untitled".toList := by
    decide +kernel
  exact ⟨List.cons_ne_nil _ _, hplain _ (Or.inl rfl), hplain _ (Or.inr rfl), '<',
    List.mem_cons_self, hopen⟩

/-! ## Searching -/

section Search

variable (tiktoken : Tiktoken) (env : SearchDocuments.Env)

/-- The search with `TiktokenService` as its token service. -/
def searchEnv : SearchDocuments.Env :=
  { env with countTokens := TiktokenService.countTokens tiktoken }

/-- The vector store answers the search of a request. -/
def StoreReturns (request : SearchDocuments.SearchRequest) (drawn : ℕ) : Prop :=
  ∃ results, QdrantVectorRepository.search env.queryPoints env.intFromStr
    (fun i => env.uuid4 (drawn + i)) (env.embed request.query) request.topK
    (SearchDocuments.requestFilters request) none = .ok results

def SearchReturns (request : SearchDocuments.SearchRequest) (drawn : ℕ) : Prop :=
  ∃ response after, (SearchDocuments.execute (searchEnv tiktoken env) Faults.none
    request).run drawn = .ok response after

variable {tiktoken env}

theorem searchReturns_iff {request : SearchDocuments.SearchRequest} {drawn : ℕ}
    (hstore : StoreReturns env request drawn) :
    SearchReturns tiktoken env request drawn ↔
      ¬ (TiktokenService.getEncoding tiktoken "gpt-4o").HasSpecial
        request.query := by
  rw [← TiktokenService.countTokens_ok_iff]
  obtain ⟨results, hresults⟩ := hstore
  constructor
  · intro h
    obtain ⟨response, after, h⟩ := h
    cases hcount : TiktokenService.countTokens tiktoken request.query "gpt-4o" with
    | ok tokens => exact ⟨tokens, rfl⟩
    | error e =>
        simp only [SearchDocuments.execute, searchEnv, hcount] at h
        cases h
  · intro h
    obtain ⟨tokens, hcount⟩ := h
    refine ⟨⟨results.map SearchDocuments.resultDto, results.length, tokens⟩,
      drawn + request.topK.toNat, ?_⟩
    simp only [SearchDocuments.execute, searchEnv, hcount, perform_none,
      EStateM.run_bind, run_ofExcept_ok, EStateM.run_pure, SearchDocuments.draws,
      EStateM.run_modifyGet, hresults, List.length_map]

end Search

/-! ## Building a context -/

/-- The service counts with `TiktokenService`. -/
def contextService (tiktoken : Tiktoken) (service : ContextService) :
    ContextService :=
  { service with countTokens := TiktokenService.countTokens tiktoken }

/-- Neither the title nor the content of a result has a special token. -/
structure PlainResult (encoding : Encoding) (result : SearchResult) : Prop where
  title : ¬ encoding.HasSpecial result.documentTitle
  content : ¬ encoding.HasSpecial result.content

theorem hasSpecial_formatBlock (encoding : Encoding) (index : ℕ)
    (result : SearchResult) :
    ¬ encoding.HasSpecial (formatBlock index result) ↔
      PlainResult encoding result := by
  constructor
  · intro h
    constructor
    · intro hspecial
      obtain ⟨token, htoken, hcontains⟩ := hspecial
      have hforeign := foreign_of_isSpecialToken (encoding.special_form token htoken)
      exact h ⟨token, htoken,
        (contains_formatBlock hforeign index result).mpr (Or.inl hcontains)⟩
    · intro hspecial
      obtain ⟨token, htoken, hcontains⟩ := hspecial
      have hforeign := foreign_of_isSpecialToken (encoding.special_form token htoken)
      exact h ⟨token, htoken,
        (contains_formatBlock hforeign index result).mpr (Or.inr hcontains)⟩
  · intro h hspecial
    obtain ⟨token, htoken, hcontains⟩ := hspecial
    have hforeign := foreign_of_isSpecialToken (encoding.special_form token htoken)
    rcases (contains_formatBlock hforeign index result).mp hcontains with hin | hin
    · exact h.title ⟨token, htoken, hin⟩
    · exact h.content ⟨token, htoken, hin⟩

theorem buildContext_returns_iff_plain (tiktoken : Tiktoken)
    (service : ContextService) (model : String) (searchResults : List SearchResult) :
    (∃ context used, (contextService tiktoken service).buildContext searchResults
        model = .ok (context, used)) ↔
      ∀ (j : ℕ) (result : SearchResult),
        (service.relevant searchResults)[j]? = some result →
          Counted (contextService tiktoken service) model 0 0
              (service.relevant searchResults) j →
            PlainResult (TiktokenService.getEncoding tiktoken model) result := by
  rw [buildContext_returns_iff, fittingBlocks_returns_iff]
  apply forall_congr'
  intro j
  apply forall_congr'
  intro result
  apply imp_congr_right
  intro _
  apply imp_congr_right
  intro _
  rw [← hasSpecial_formatBlock]
  exact TiktokenService.countTokens_ok_iff tiktoken _ model

/-! ## All three together -/

/-- The search, the context and the chunker return. -/
structure AllReturn (tiktoken : Tiktoken) (env : SearchDocuments.Env)
    (request : SearchDocuments.SearchRequest) (drawn : ℕ)
    (service : ContextService) (model : String) (searchResults : List SearchResult)
    (chunkModel content : String) (chunkSize chunkOverlap : ℤ) : Prop where
  search : SearchReturns tiktoken env request drawn
  context : ∃ context used, (contextService tiktoken service).buildContext
    searchResults model = .ok (context, used)
  chunk : ∃ fuel chunks, (TokenAwareChunkingStrategy.init tiktoken chunkModel).chunk
    fuel content chunkSize chunkOverlap = some (.ok chunks)

/-- None of the texts that are encoded has a special token: the query, the
titles and contents of the results that are counted, and a document that is
not blank. -/
structure AllPlain (tiktoken : Tiktoken)
    (request : SearchDocuments.SearchRequest) (service : ContextService)
    (model : String) (searchResults : List SearchResult)
    (chunkModel content : String) : Prop where
  query : ¬ (TiktokenService.getEncoding tiktoken "gpt-4o").HasSpecial request.query
  results : ∀ (j : ℕ) (result : SearchResult),
    (service.relevant searchResults)[j]? = some result →
      Counted (contextService tiktoken service) model 0 0
          (service.relevant searchResults) j →
        PlainResult (TiktokenService.getEncoding tiktoken model) result
  document : Text.isBlank content = true ∨
    ¬ (TiktokenService.getEncoding tiktoken chunkModel).HasSpecial content

theorem allReturn_iff {tiktoken : Tiktoken} {env : SearchDocuments.Env}
    {request : SearchDocuments.SearchRequest} {drawn : ℕ}
    (hstore : StoreReturns env request drawn) (service : ContextService)
    (model : String) (searchResults : List SearchResult)
    (chunkModel content : String) {chunkSize : ℤ} (hsize : 1 ≤ chunkSize)
    (chunkOverlap : ℤ) :
    AllReturn tiktoken env request drawn service model searchResults chunkModel
        content chunkSize chunkOverlap ↔
      AllPlain tiktoken request service model searchResults chunkModel content := by
  have hsearch := @searchReturns_iff tiktoken _ _ _ hstore
  have hcontext :=
    buildContext_returns_iff_plain tiktoken service model searchResults
  have hchunk : (∃ fuel chunks,
        (TokenAwareChunkingStrategy.init tiktoken chunkModel).chunk fuel content
          chunkSize chunkOverlap = some (.ok chunks)) ↔
      Text.isBlank content = true ∨
        ¬ (TiktokenService.getEncoding tiktoken chunkModel).HasSpecial content :=
    TokenAwareChunkingStrategy.chunk_returns_iff hsize chunkOverlap
  constructor
  · intro h
    exact ⟨hsearch.mp h.search, hcontext.mp h.context, hchunk.mp h.chunk⟩
  · intro h
    exact ⟨hsearch.mpr h.query, hcontext.mpr h.results, hchunk.mpr h.document⟩

/-! ## A small package -/

/-- The special tokens of `o200k_base`; apart from them one token for each
character, which is what the encoding gives a single printable one. -/
def smallEncoding : Encoding where
  specialTokens := ["<|endoftext|>", "<|endofprompt|>"]
  encode := fun text =>
    if ∃ token ∈ ["<|endoftext|>", "<|endofprompt|>"],
        Contains token.toList text.toList then
      .error (.valueError
        "Encountered text corresponding to disallowed special token")
    else .ok (text.toList.map fun c => c.toNat - 33)
  decode := fun tokenIds => String.ofList (tokenIds.map fun n => Char.ofNat (n + 33))
  special_form := by
    intro token htoken
    rw [List.mem_cons, List.mem_singleton] at htoken
    rcases htoken with rfl | rfl
    · exact ⟨['e', 'n', 'd', 'o', 'f', 't', 'e', 'x', 't'], String.toList_ofList, by simp⟩
    · exact ⟨['e', 'n', 'd', 'o', 'f', 'p', 'r', 'o', 'm', 'p', 't'], String.toList_ofList,
        by simp⟩
  encode_special := fun _ h => ⟨_, if_pos h⟩
  encode_plain := fun _ h => ⟨_, if_neg h⟩

def smallTiktoken : Tiktoken where
  encodingForModel := fun model => if model = "gpt-4o" then some smallEncoding else none
  getEncoding := fun _ => smallEncoding

theorem valid_nil : (([] : List ℚ).length : ℤ) = 0 := rfl

/-- A store without points. -/
def emptySearch : SearchDocuments.Env where
  countTokens := TiktokenService.countTokens smallTiktoken
  embed := fun _ => ⟨[], "text-embedding-3-small", 0, valid_nil⟩
  queryPoints := fun _ _ _ => []
  intFromStr := fun _ => none
  uuid4 := fun n => ⟨Fin.ofNat _ n⟩

theorem letter_ne : "A" ≠ "" := by decide

def letterRequest : SearchDocuments.SearchRequest where
  query := "A"
  query_ne := letter_ne
  topK_pos := SearchDocuments.SearchRequest.one_le_topK
  topK_le := SearchDocuments.SearchRequest.topK_le_hundred

theorem storeReturns_letterRequest : StoreReturns emptySearch letterRequest 0 :=
  ⟨[], rfl⟩

theorem allReturn_iff_letter :
    AllReturn smallTiktoken emptySearch letterRequest 0
        { countTokens := TiktokenService.countTokens smallTiktoken } "gpt-4o" []
        "gpt-4o" "A" 512 50 ↔
      AllPlain smallTiktoken letterRequest
        { countTokens := TiktokenService.countTokens smallTiktoken } "gpt-4o" []
        "gpt-4o" "A" :=
  allReturn_iff storeReturns_letterRequest _ "gpt-4o" [] "gpt-4o" "A" (by decide) 50

/-- A stored chunk that contains the text of a special token makes every
context with it fail. -/
theorem not_allReturn_endoftext :
    ¬ ∀ (tiktoken : Tiktoken) (env : SearchDocuments.Env)
        (request : SearchDocuments.SearchRequest) (drawn : ℕ)
        (service : ContextService) (model : String)
        (searchResults : List SearchResult) (chunkModel content : String)
        (chunkSize chunkOverlap : ℤ), StoreReturns env request drawn →
      1 ≤ chunkSize →
        AllReturn tiktoken env request drawn service model searchResults chunkModel
          content chunkSize chunkOverlap := by
  intro h
  let service : ContextService :=
    { countTokens := TiktokenService.countTokens smallTiktoken }
  have hcontext := (h smallTiktoken emptySearch letterRequest 0 service "gpt-4o"
    [resultWith "<|endoftext|>"] "gpt-4o" "A" 512 50 storeReturns_letterRequest
    (by decide)).context
  have hrelevant : service.relevant [resultWith "<|endoftext|>"] =
      [resultWith "<|endoftext|>"] := by
    have hscore : service.scoreThreshold ≤ (resultWith "<|endoftext|>").score := by
      norm_num [service, resultWith]
    simp [relevant, hscore]
  have hplain := (buildContext_returns_iff_plain smallTiktoken service "gpt-4o"
    [resultWith "<|endoftext|>"]).mp hcontext 0 (resultWith "<|endoftext|>")
    (by rw [hrelevant]; rfl) (by simp [Counted])
  have hspecial : Contains "<|endoftext|>".toList "<|endoftext|>".toList := by
    decide +kernel
  exact hplain.content ⟨"<|endoftext|>", List.mem_cons_self, hspecial⟩

end TokenSafety
end AiBackend

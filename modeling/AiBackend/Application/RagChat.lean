import AiBackend.Application.ContextService
import AiBackend.Application.PromptService
import AiBackend.Application.SearchDocuments

/-!
# Retrieval-augmented chat

`RAGChatUseCase`: search, build the context and the prompt, ask the provider,
save the turn, list the sources; `execute` answers once, `stream` yields the
answer piece by piece.  Whoever consumes a stream can stop after any piece,
which cancels the rest.
-/

namespace AiBackend

open Program Python SearchDocuments

/-- The chat history repository over a store `H`. -/
structure ChatHistoryRepository (H : Type) where
  getHistory : H → UserId → ℤ → List ChatMessage
  saveMessage : H → UserId → ChatMessage → H

namespace RagChat

structure ChatRequest where
  message : String
  conversationId : Option String := none
  userId : Option String := none
  topK : ℤ := 5
  message_ne : message ≠ ""
  topK_pos : 1 ≤ topK
  topK_le : topK ≤ 20

/-- The default passes its own check. -/
theorem ChatRequest.one_le_topK : (1 : ℤ) ≤ 5 := by decide

theorem ChatRequest.topK_le_twenty : (5 : ℤ) ≤ 20 := by decide

structure SourceDTO where
  index : ℕ
  chunkId : String
  documentId : String
  documentTitle : String := ""
  content : String := ""
  score : ℚ := 0

structure ChatResponseDTO where
  message : String
  sources : List SourceDTO := []
  promptTokens : ℤ := 0
  completionTokens : ℤ := 0
  totalTokens : ℤ := 0

structure StreamChunk where
  content : String := ""
  done : Bool := false
  sources : Option (List SourceDTO) := none
  promptTokens : Option ℤ := none
  completionTokens : Option ℤ := none
  totalTokens : Option ℤ := none

/-- The calls that can raise, and the points at which a stream can be
stopped. -/
inductive Site where
  | search (site : SearchDocuments.Site)
  | getHistory
  | complete
  | openStream
  | delta (i : ℕ)
  | yield (i : ℕ)
  | yieldDone
  | saveUser
  | saveAssistant
  | logCompleted
  deriving DecidableEq, Repr

/-- The collaborators of the use case. -/
structure Env (H : Type) where
  search : SearchDocuments.Env
  context : ContextService
  history : ChatHistoryRepository H
  countTokens : String → String → Except PyExc ℤ
  complete : List ChatMessage → ChatResponse
  stream : List ChatMessage → List String

/-- The saved history, the prompts the provider was asked with, the chunks a
stream has yielded, and the number of identifiers drawn. -/
structure State (H : Type) where
  history : H
  asked : List (List ChatMessage) := []
  sent : List StreamChunk := []
  drawn : ℕ := 0

abbrev Prog (H α : Type) := EStateM (Raised PyExc) (State H) α

variable {H : Type} (env : Env H) (faults : Faults Site PyExc)

/-! ## Up to the prompt -/

/-- The search a chat makes: the conversation is passed as the collection. -/
def searchRequest (request : ChatRequest) : SearchRequest where
  query := request.message
  collectionId := request.conversationId
  topK := request.topK
  query_ne := request.message_ne
  topK_pos := request.topK_pos
  topK_le := request.topK_le.trans (by decide)

def search (request : SearchRequest) : Prog H SearchResponse :=
  focus State.drawn (fun drawn s => { s with drawn := drawn })
    (SearchDocuments.execute env.search (fun site => faults (.search site))
      request)

/-- A result mapped back for the context service, with a new collection. -/
def domainResult (intFromStr : String → Option ℤ) (fresh : Uuid)
    (r : SearchResultDTO) : Except PyExc SearchResult := do
  let chunkId ← Uuid.fromStr r.chunkId
  let documentId ← Uuid.fromStr r.documentId
  SearchResult.construct intFromStr chunkId documentId fresh (.str r.content)
    r.score r.metadata (.str r.documentTitle) (.int r.chunkIndex)

def rebuild (intFromStr : String → Option ℤ) :
    (ℕ → Uuid) → List SearchResultDTO → Except PyExc (List SearchResult)
  | _, [] => .ok []
  | uuid4, r :: rest => do
      let result ← domainResult intFromStr (uuid4 0) r
      let results ← rebuild intFromStr (fun n => uuid4 (n + 1)) rest
      pure (result :: results)

def domainResults (results : List SearchResultDTO) : Prog H (List SearchResult) := do
  let uuid4 ← modifyGet fun s : State H =>
    (fun i => env.search.uuid4 (s.drawn + i),
      { s with drawn := s.drawn + results.length })
  ofExcept (rebuild env.search.intFromStr uuid4 results)

/-- The user of a request; an empty text is no user. -/
def requestUser (request : ChatRequest) : Except PyExc (Option UserId) :=
  match request.userId with
  | some text => if text = "" then .ok none else (Uuid.fromStr text).map some
  | none => .ok none

/-- The last five messages of the user, if the request names one. -/
def history (request : ChatRequest) : Prog H (List ChatMessage) := do
  match ← ofExcept (requestUser request) with
  | some userId => perform faults .getHistory do
      let s ← get
      pure (env.history.getHistory s.history userId 5)
  | none => pure []

/-- Steps 1 to 4, which `execute` and `stream` have in common: the prompt and
the results used in its context. -/
def prepare (request : ChatRequest) :
    Prog H (List ChatMessage × List SearchResult) := do
  let searchResponse ← search env faults (searchRequest request)
  let results ← domainResults env searchResponse.results
  let (context, usedResults) ← ofExcept (env.context.buildContext results)
  let history ← history env faults request
  pure (PromptService.buildRagPrompt request.message context history, usedResults)

/-! ## After the answer -/

/-- Save both messages of a turn, if the request names a user. -/
def saveTurn (request : ChatRequest) (answer : ChatMessage) : Prog H Unit := do
  match ← ofExcept (requestUser request) with
  | some userId => do
      perform faults .saveUser (modify fun s => { s with
        history := env.history.saveMessage s.history userId
          { role := .user, content := request.message } })
      perform faults .saveAssistant (modify fun s => { s with
        history := env.history.saveMessage s.history userId answer })
  | none => pure ()

/-- Saving a turn changes the history alone. -/
theorem preserves_saveTurn {I : State H → Prop}
    (hI : ∀ s history, I s → I { s with history := history }) (request : ChatRequest)
    (answer : ChatMessage) : Preserves I (saveTurn env faults request answer) := by
  apply (Preserves.ofExcept _).bind
  intro user
  cases user with
  | none => exact Preserves.pure _
  | some userId =>
      have hsave : ∀ message : ChatMessage, Preserves (ε := Raised PyExc) I
          (modify fun s => { s with
            history := env.history.saveMessage s.history userId message }) :=
        fun message => ensures_modify fun s hs => hI s _ hs
      exact (hsave _).perform.bind fun _ => (hsave _).perform

/-- The citation of the `i`-th used result. -/
def source (i : ℕ) (result : SearchResult) : SourceDTO where
  index := i + 1
  chunkId := result.chunkId.str
  documentId := result.documentId.str
  documentTitle := result.documentTitle
  content := String.ofList (result.content.toList.take 200)
  score := result.score

/-- `_build_sources`. -/
def buildSources (results : List SearchResult) : List SourceDTO :=
  results.mapIdx source

/-! ## Answering at once -/

/-- `RAGChatUseCase.execute`. -/
def execute (request : ChatRequest) : Prog H ChatResponseDTO := do
  let (messages, usedResults) ← prepare env faults request
  let chatResponse ← perform faults .complete do
    modify fun s => { s with asked := s.asked ++ [messages] }
    pure (env.complete messages)
  saveTurn env faults request chatResponse.message
  let sources := buildSources usedResults
  let usage := chatResponse.tokenUsage
  perform faults .logCompleted (pure ())
  pure {
    message := chatResponse.message.content
    sources := sources
    promptTokens := usage.elim 0 TokenUsage.promptTokens
    completionTokens := usage.elim 0 TokenUsage.completionTokens
    totalTokens := usage.elim 0 TokenUsage.totalTokens }

/-! ## Answering piece by piece -/

/-- Hand a chunk to the consumer, who may stop there. -/
def yieldChunk (site : Site) (chunk : StreamChunk) : Prog H Unit := do
  modify fun s => { s with sent := s.sent ++ [chunk] }
  perform faults site (pure ())

/-- Forward the deltas from the `i`-th on; returns the full content.  The
provider can raise before any delta and after the last. -/
def forwardDeltas : ℕ → String → List String → Prog H String
  | i, fullContent, [] => do
      perform faults (.delta i) (pure ())
      pure fullContent
  | i, fullContent, delta :: rest => do
      perform faults (.delta i) (pure ())
      yieldChunk faults (.yield i) { content := delta }
      forwardDeltas (i + 1) (fullContent ++ delta) rest

/-- `RAGChatUseCase.stream`, consumed until it ends, raises or is stopped. -/
def stream (request : ChatRequest) : Prog H Unit := do
  let (messages, usedResults) ← prepare env faults request
  perform faults .openStream
    (modify fun s => { s with asked := s.asked ++ [messages] })
  let fullContent ← forwardDeltas faults 0 "" (env.stream messages)
  let sources := buildSources usedResults
  let promptTokens ← ofExcept (env.countTokens
    (String.intercalate " " (messages.map ChatMessage.content)) "gpt-4o")
  let completionTokens ← ofExcept (env.countTokens fullContent "gpt-4o")
  yieldChunk faults .yieldDone {
    content := ""
    done := true
    sources := some sources
    promptTokens := some promptTokens
    completionTokens := some completionTokens
    totalTokens := some (promptTokens + completionTokens) }
  saveTurn env faults request { role := .assistant, content := fullContent }
  perform faults .logCompleted (pure ())

/-! ## Under a loop

`async for chunk in use_case.stream(request)`: the body of the loop is run on
every chunk, and leaving the loop abandons the stream there. -/

section Loop

variable (request : ChatRequest) (body : Site → StreamChunk → Prog H Bool)

/-- The loop over the deltas from the `i`-th on; none if the body left it. -/
def forEachDelta : ℕ → String → List String → Prog H (Option String)
  | i, fullContent, [] => do
      perform faults (.delta i) (pure ())
      pure (some fullContent)
  | i, fullContent, delta :: rest => do
      perform faults (.delta i) (pure ())
      if ← body (.yield i) { content := delta } then
        forEachDelta (i + 1) (fullContent ++ delta) rest
      else pure none

/-- The stream up to its last chunk: the full content and that chunk. -/
def forEachPiece : Prog H (Option (String × StreamChunk)) := do
  let (messages, usedResults) ← prepare env faults request
  perform faults .openStream
    (modify fun s => { s with asked := s.asked ++ [messages] })
  match ← forEachDelta faults body 0 "" (env.stream messages) with
  | none => pure none
  | some fullContent =>
      let sources := buildSources usedResults
      let promptTokens ← ofExcept (env.countTokens
        (String.intercalate " " (messages.map ChatMessage.content)) "gpt-4o")
      let completionTokens ← ofExcept (env.countTokens fullContent "gpt-4o")
      pure (some (fullContent, {
        content := ""
        done := true
        sources := some sources
        promptTokens := some promptTokens
        completionTokens := some completionTokens
        totalTokens := some (promptTokens + completionTokens) }))

/-- The loop over the whole stream. -/
def forEachChunk : Prog H Unit := do
  match ← forEachPiece env faults request body with
  | none => pure ()
  | some (fullContent, last) =>
      if ← body .yieldDone last then do
        saveTurn env faults request { role := .assistant, content := fullContent }
        perform faults .logCompleted (pure ())

end Loop

/-- A body that hands each chunk to the consumer and goes on. -/
def yielding (site : Site) (chunk : StreamChunk) : Prog H Bool := do
  yieldChunk faults site chunk
  pure true

theorem forEachDelta_yielding (deltas : List String) (i : ℕ) (fullContent : String) :
    forEachDelta (H := H) faults (yielding faults) i fullContent deltas =
      (some <$> forwardDeltas faults i fullContent deltas) := by
  induction deltas generalizing i fullContent with
  | nil => simp [forEachDelta, forwardDeltas]
  | cons delta rest ih =>
      simp only [forEachDelta, forwardDeltas, yielding, bind_assoc, pure_bind, map_bind,
        if_true, ih]

/-- The loop over the stream is the stream. -/
theorem forEachChunk_yielding (request : ChatRequest) :
    forEachChunk env faults request (yielding faults) = stream env faults request := by
  simp only [forEachChunk, forEachPiece, stream, forEachDelta_yielding, yielding,
    bind_assoc, pure_bind, if_true, bind_map_left]

end RagChat
end AiBackend

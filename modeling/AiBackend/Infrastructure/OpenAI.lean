import AiBackend.Domain.Chat
import AiBackend.Domain.Exceptions
import AiBackend.Domain.Values
import AiBackend.Support.Occurrences

/-!
# The OpenAI providers

`OpenAIChatService` and `OpenAIEmbeddingService`: what they ask the SDK, what
they make of its answers and which exception they raise for each of its errors.
What the SDK does and what the cache holds are arguments.
-/

namespace AiBackend
namespace OpenAI

/-- A `RateLimitError`: its response, if it has one, by the headers. -/
structure RateLimitError where
  response : Option (String → Option String)

/-- An `OpenAIError` by its class, with `str(exc)`. -/
inductive SdkError where
  | rateLimit (exc : RateLimitError) (text : String)
  | apiConnection (text : String)
  | badRequest (text : String)
  | other (text : String)

def SdkError.text : SdkError → String
  | .rateLimit _ text => text
  | .apiConnection text => text
  | .badRequest text => text
  | .other text => text

structure Usage where
  promptTokens : ℤ
  completionTokens : ℤ
  totalTokens : ℤ

/-- `_extract_retry_after`. -/
def extractRetryAfter (exc : RateLimitError) : Option PyFloat := do
  let headers ← exc.response
  let retryAfter ← headers "retry-after"
  PyFloat.ofText retryAfter

/-- How all providers raise for a rate limit. -/
def rateLimited (exc : RateLimitError) : AppException :=
  LLMRateLimitException.raised [("provider", .provider "openai"),
    ("retry_after", .retryAfter (extractRetryAfter exc))]

end OpenAI

open OpenAI Python

structure OpenAISettings where
  model : String := "gpt-4o"
  embeddingModel : String := "text-embedding-3-small"
  embeddingDimensions : ℤ := 1536
  maxTokens : ℤ := 4096
  /-- The double nearest to 0.7. -/
  temperature : ℚ := 3152519739159347 / 2 ^ 52

/-! ## Embeddings -/

namespace OpenAIEmbeddingService

/-- The arguments of `embeddings.create`. -/
structure EmbeddingsRequest where
  model : String
  input : List String

/-- `_call_openai`. -/
def callOpenai (settings : OpenAISettings)
    (create : EmbeddingsRequest → Except SdkError (List (List ℚ)))
    (texts : List String) (model : String) : Except AppException (List EmbeddingVector) :=
  match create { model := model, input := texts } with
  | .error (.rateLimit exc _) => .error (rateLimited exc)
  | .error (.apiConnection text) => .error (.domain (.llmConnection text))
  | .error exc => .error (.domain (.embedding exc.text))
  | .ok data =>
      (data.mapM fun embedding => EmbeddingVector.construct embedding model
        settings.embeddingDimensions).mapError AppException.unhandled

/-- `get_embedding` of the cache, for the `i`-th text of a call. -/
abbrev GetEmbedding := ℕ → String → String → Except PyExc (Option EmbeddingVector)

/-- The arguments of `set_embedding`. -/
structure CacheWrite where
  text : String
  model : String
  embedding : EmbeddingVector

/-- The cached and the uncached texts of a call: a list with a gap for every
uncached one, and these with their indices, from the `i`-th on. -/
structure Separated where
  results : List (Option EmbeddingVector)
  uncached : List (ℕ × String)

/-- The loop over the texts; without a cache all of them are uncached. -/
def separate (cache : Option GetEmbedding) (model : String) :
    ℕ → List String → Except PyExc Separated
  | _, [] => .ok ⟨[], []⟩
  | i, text :: rest => do
      let cached ← cache.elim (.ok none) fun getEmbedding => getEmbedding i text model
      let others ← separate cache model (i + 1) rest
      pure ⟨cached :: others.results,
        if cached.isSome then others.uncached else (i, text) :: others.uncached⟩

/-- `results[original_idx] = embedding` for every pair that `zip` delivers. -/
def fill (results : List (Option EmbeddingVector))
    (fresh : List ((ℕ × String) × EmbeddingVector)) : List (Option EmbeddingVector) :=
  fresh.foldl (fun results pair => results.set pair.1.1 (some pair.2)) results

/-- `embed_batch`: the results, and what it writes to the cache.  A write that
fails is only logged. -/
def embedBatch (settings : OpenAISettings) (cache : Option GetEmbedding)
    (create : EmbeddingsRequest → Except SdkError (List (List ℚ))) (texts : List String) :
    Except AppException (List (Option EmbeddingVector) × List CacheWrite) :=
  if texts.isEmpty then .ok ([], []) else do
    let separated ← (separate cache settings.embeddingModel 0 texts).mapError
      AppException.unhandled
    if separated.uncached.isEmpty then pure (separated.results, []) else do
      let freshEmbeddings ← callOpenai settings create
        (separated.uncached.map Prod.snd) settings.embeddingModel
      let fresh := separated.uncached.zip freshEmbeddings
      pure (fill separated.results fresh,
        if cache.isNone then [] else fresh.map fun pair =>
          ⟨pair.1.2, settings.embeddingModel, pair.2⟩)

end OpenAIEmbeddingService

/-! ## Chat completions -/

namespace OpenAIChatService

/-- The arguments of `chat.completions.create`; a message is its role and its
content. -/
structure CompletionRequest where
  model : String
  messages : List (String × String)
  temperature : ℚ
  maxTokens : ℤ

/-- The contents of the choices of a completion, and its usage. -/
structure Completion where
  choices : List (Option String)
  usage : Option Usage

/-- The deltas of the first choices of the chunks of a stream, and the error
that interrupts it. -/
structure CompletionStream where
  chunks : List (List (Option String))
  interrupted : Option SdkError

/-- `_to_openai_messages`. -/
def toOpenaiMessages (messages : List ChatMessage) : List (String × String) :=
  messages.map fun msg => (msg.role.value, msg.content)

def completionRequest (settings : OpenAISettings) (messages : List ChatMessage) :
    CompletionRequest where
  model := settings.model
  messages := toOpenaiMessages messages
  temperature := settings.temperature
  maxTokens := settings.maxTokens

/-- The SDK says that a prompt is too long. -/
def IsTokenLimit (lower : String → String) (text : String) : Prop :=
  Occurrences.Contains "maximum context length".toList (lower text).toList ∨
    Occurrences.Contains "max_tokens".toList (lower text).toList

instance (lower : String → String) (text : String) : Decidable (IsTokenLimit lower text) :=
  inferInstanceAs (Decidable (_ ∨ _))

/-- `complete`; `lower` is `str.lower`. -/
def complete (settings : OpenAISettings) (lower : String → String)
    (create : CompletionRequest → Except SdkError Completion)
    (messages : List ChatMessage) : Except AppException ChatResponse :=
  match create (completionRequest settings messages) with
  | .error (.rateLimit exc _) => .error (rateLimited exc)
  | .error (.apiConnection text) => .error (.domain (.llmConnection text))
  | .error (.badRequest text) =>
      if IsTokenLimit lower text then
        .error (.domain (.tokenLimitExceeded 0 settings.maxTokens))
      else .error (.domain (.llm ("OpenAI chat failed: " ++ text)))
  | .error (.other text) => .error (.domain (.llm ("OpenAI chat failed: " ++ text)))
  | .ok response =>
      match response.choices with
      | [] => .error (.unhandled (.other "IndexError" "list index out of range"))
      | content :: _ => .ok {
          message := { role := .assistant, content := content.getD "" }
          tokenUsage := some {
            promptTokens := response.usage.elim 0 Usage.promptTokens
            completionTokens := response.usage.elim 0 Usage.completionTokens
            totalTokens := response.usage.elim 0 Usage.totalTokens } }

/-- The delta of a chunk that is passed on. -/
def deltaOf (choices : List (Option String)) : Option String :=
  match choices with
  | some content :: _ => if content = "" then none else some content
  | _ => none

/-- `stream`: the deltas it yields, and what it raises behind them. -/
def stream (settings : OpenAISettings)
    (create : CompletionRequest → Except SdkError CompletionStream)
    (messages : List ChatMessage) : List String × Option AppException :=
  match create (completionRequest settings messages) with
  | .error (.rateLimit exc _) => ([], some (rateLimited exc))
  | .error (.apiConnection text) => ([], some (.domain (.llmConnection text)))
  | .error exc => ([], some (.domain (.llm ("OpenAI stream failed: " ++ exc.text))))
  | .ok responseStream =>
      (responseStream.chunks.filterMap deltaOf,
        responseStream.interrupted.map fun exc =>
          .domain (.llm ("OpenAI stream interrupted: " ++ exc.text)))

end OpenAIChatService
end AiBackend

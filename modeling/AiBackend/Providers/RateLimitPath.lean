import AiBackend.Api.ErrorHandler
import AiBackend.Infrastructure.OpenAI

/-!
# From the provider's rate limit to the client

The three places at which a provider meets a `RateLimitError` pass a keyword to
`LLMRateLimitException` that its constructor does not have, so what is raised
there is a `TypeError`, and the client is answered with status 500.  The
handler of `LLMRateLimitException` works for every wait that is a finite
number and not negative.
-/

namespace AiBackend
namespace RateLimitPath

open OpenAI ErrorHandler Python

/-- A call of a provider. -/
inductive ProviderCall where
  | embeddings (texts : List String) (model : String)
  | completion (messages : List ChatMessage)
  | stream (messages : List ChatMessage)

/-- What a call raises when the SDK raises. -/
def ProviderCall.raises (settings : OpenAISettings) (lower : String → String)
    (exc : SdkError) : ProviderCall → Option AppException
  | .embeddings texts model =>
      match OpenAIEmbeddingService.callOpenai settings (fun _ => .error exc) texts model with
      | .error raised => some raised
      | .ok _ => none
  | .completion messages =>
      match OpenAIChatService.complete settings lower (fun _ => .error exc) messages with
      | .error raised => some raised
      | .ok _ => none
  | .stream messages =>
      (OpenAIChatService.stream settings (fun _ => .error exc) messages).2

/-! ## The handler -/

/-- A 429 whose `Retry-After` header is absent or a number that is not
negative. -/
structure TellsToWait (response : Response) : Prop where
  status : response.statusCode = 429
  header : ∀ value, response.retryAfter = some value → ∃ n : ℕ, value = toString n

theorem toString_negSucc_ne (m n : ℕ) : toString (Int.negSucc m) ≠ toString n := by
  intro h
  have hminus : '-' ∈ (toString (Int.negSucc m)).toList := by
    have htext : toString (Int.negSucc m) = "-" ++ Nat.repr (m + 1) := rfl
    rw [htext, String.toList_append]
    exact List.mem_append_left _ List.mem_cons_self
  rw [h] at hminus
  have hdigits : (toString n).toList = Nat.toDigits 10 n := String.toList_ofList
  rw [hdigits] at hminus
  have hdigit := Nat.isDigit_of_mem_toDigits (by decide) (by decide) hminus
  exact absurd hdigit (by decide)

/-- The handler of `LLMRateLimitException` tells the client to wait exactly if
the wait is not known or a finite number that is not negative. -/
theorem tellsToWait_iff (retryAfter : Option PyFloat) :
    TellsToWait (respond (.domain (.llmRateLimit retryAfter))) ↔
      ∀ seconds, retryAfter = some seconds → ∃ n : ℕ, seconds.toInt = .ok n := by
  cases retryAfter with
  | none => exact iff_of_true ⟨rfl, fun _ h => by cases h⟩ fun _ h => by cases h
  | some seconds =>
      cases hseconds : seconds.toInt with
      | error e =>
          have hrespond : respond (.domain (.llmRateLimit (some seconds))) =
              globalExceptionHandler := by
            simp only [respond, domainHandler, llmRateLimitHandler, hseconds]
            rfl
          rw [hrespond]
          refine iff_of_false (fun h => ?_) fun h => ?_
          · exact absurd h.status (by decide)
          · obtain ⟨n, hn⟩ := h seconds rfl
            rw [hseconds] at hn
            cases hn
      | ok value =>
          have hrespond : respond (.domain (.llmRateLimit (some seconds))) =
              { errorResponse 429 (DomainException.llmRateLimit (some seconds)).message
                  (DomainException.llmRateLimit (some seconds)).code with
                retryAfter := some (toString value) } := by
            simp only [respond, domainHandler, llmRateLimitHandler, hseconds]
            rfl
          rw [hrespond]
          constructor
          · intro h other hother
            cases hother
            obtain ⟨n, hn⟩ := h.header _ rfl
            cases value with
            | ofNat k => exact ⟨k, hseconds⟩
            | negSucc k => exact absurd hn (toString_negSucc_ne k n)
          · intro h
            obtain ⟨n, hn⟩ := h seconds rfl
            obtain rfl := Except.ok.inj (hseconds.symm.trans hn)
            refine ⟨rfl, fun text htext => ⟨n, ?_⟩⟩
            cases htext
            rfl

/-- A header text that is read as a wait with which the handler fails. -/
example : ¬ TellsToWait (respond (.domain (.llmRateLimit (PyFloat.ofText "inf")))) := by
  have hread : PyFloat.ofText "inf" = some (.infinity false) := by decide +kernel
  rw [hread, tellsToWait_iff]
  intro h
  obtain ⟨n, hn⟩ := h _ rfl
  cases hn

/-! ## The providers -/

/-- What the constructor raises for the keyword of the providers. -/
def unexpectedProvider : PyExc :=
  .typeError (LLMRateLimitException.initSignature.qualname ++
    "() got an unexpected keyword argument '" ++ "provider" ++ "'")

theorem rateLimited_eq (exc : RateLimitError) :
    rateLimited exc = .unhandled unexpectedProvider := by
  have habsent : "provider" ∉ LLMRateLimitException.initSignature.params := by decide
  simp only [rateLimited, LLMRateLimitException.raised,
    Signature.bindKeywords_unexpected _ _ _ _ habsent]
  rfl

/-- Every call raises the `TypeError`, whatever the headers say. -/
theorem raises_rateLimit (settings : OpenAISettings) (lower : String → String)
    (exc : RateLimitError) (text : String) (call : ProviderCall) :
    call.raises settings lower (.rateLimit exc text) =
      some (.unhandled unexpectedProvider) := by
  cases call with
  | embeddings texts model => exact congrArg some (rateLimited_eq exc)
  | completion messages => exact congrArg some (rateLimited_eq exc)
  | stream messages => exact congrArg some (rateLimited_eq exc)

/-- The client of a call that met a rate limit is answered with status 500. -/
theorem respond_rateLimit (settings : OpenAISettings) (lower : String → String)
    (exc : RateLimitError) (text : String) (call : ProviderCall) :
    (call.raises settings lower (.rateLimit exc text)).map respond =
      some globalExceptionHandler := by
  rw [raises_rateLimit]
  rfl

/-- A rate limit is raised as `LLMRateLimitException`, and the client is told
to wait. -/
structure Reported (settings : OpenAISettings) (lower : String → String)
    (exc : RateLimitError) (text : String) (call : ProviderCall)
    (retryAfter : Option PyFloat) : Prop where
  raises : call.raises settings lower (.rateLimit exc text) =
    some (.domain (.llmRateLimit retryAfter))
  tells : TellsToWait (respond (.domain (.llmRateLimit retryAfter)))

theorem rateLimit_never_reported (settings : OpenAISettings) (lower : String → String)
    (exc : RateLimitError) (text : String) (call : ProviderCall) :
    ¬ ∃ retryAfter, Reported settings lower exc text call retryAfter := by
  intro h
  obtain ⟨retryAfter, h⟩ := h
  have hraises := h.raises
  rw [raises_rateLimit] at hraises
  cases hraises

/-- A rate limit without a response. -/
theorem not_reported_withoutResponse :
    ¬ ∀ (settings : OpenAISettings) (lower : String → String) (exc : RateLimitError)
        (text : String) (call : ProviderCall),
      ∃ retryAfter, Reported settings lower exc text call retryAfter := by
  intro h
  obtain ⟨retryAfter, h⟩ := h {} id ⟨none⟩ "" (.completion [])
  have hraises := h.raises
  rw [raises_rateLimit] at hraises
  cases hraises

end RateLimitPath
end AiBackend

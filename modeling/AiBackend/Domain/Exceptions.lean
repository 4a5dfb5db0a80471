import AiBackend.Support.PyFloat

/-!
# Exceptions of the domain

The exceptions with a handler of their own, each with the message and the code
its constructor gives it, and everything else that can leave the application.
-/

namespace AiBackend

open Python

/-- A `DomainException` by its class; a class without a handler of its own is
given by its message and code. -/
inductive DomainException where
  | entityNotFound (entityType entityId : String)
  | validation (field detail : String)
  | businessRuleViolation (rule : String)
  | llm (message : String)
  | llmConnection (detail : String)
  | llmRateLimit (retryAfter : Option PyFloat)
  | tokenLimitExceeded (tokenCount maxTokens : ℤ)
  | embedding (detail : String)
  | other (message code : String)

namespace DomainException

def message : DomainException → String
  | .entityNotFound entityType entityId =>
      entityType ++ " with id '" ++ entityId ++ "' not found"
  | .validation field detail => "Validation failed for '" ++ field ++ "': " ++ detail
  | .businessRuleViolation rule => "Business rule violated: " ++ rule
  | .llm message => message
  | .llmConnection detail => "LLM connection failed: " ++ detail
  | .llmRateLimit retryAfter =>
      "LLM rate limit exceeded" ++
        retryAfter.elim "" fun seconds => ", retry after " ++ seconds.str ++ "s"
  | .tokenLimitExceeded tokenCount maxTokens =>
      "Token limit exceeded: " ++ toString tokenCount ++ " > " ++ toString maxTokens
  | .embedding detail => "Embedding generation failed: " ++ detail
  | .other message _ => message

def code : DomainException → String
  | .entityNotFound _ _ => "ENTITY_NOT_FOUND"
  | .validation _ _ => "VALIDATION_ERROR"
  | .businessRuleViolation _ => "BUSINESS_RULE_VIOLATION"
  | .llm _ => "LLM_ERROR"
  | .llmConnection _ => "LLM_CONNECTION_ERROR"
  | .llmRateLimit _ => "LLM_RATE_LIMIT"
  | .tokenLimitExceeded _ _ => "TOKEN_LIMIT_EXCEEDED"
  | .embedding _ => "EMBEDDING_ERROR"
  | .other _ code => code

end DomainException

/-- An exception that leaves the application. -/
inductive AppException where
  | domain (exc : DomainException)
  /-- The errors of a pydantic request, each a location and a message. -/
  | requestValidation (errors : List (List String × String))
  | unhandled (exc : PyExc)

/-! ## The rate limit -/

namespace LLMRateLimitException

/-- The parameters of `__init__`; `retry_after` may be left out. -/
def initSignature : Signature where
  qualname := "LLMRateLimitException.__init__"
  params := ["retry_after"]

/-- The arguments the providers pass. -/
inductive Argument where
  | provider (name : String)
  | retryAfter (seconds : Option PyFloat)

def Argument.seconds : Argument → Option PyFloat
  | .provider _ => none
  | .retryAfter seconds => seconds

/-- `raise LLMRateLimitException(**keywords)`: what is raised. -/
def raised (keywords : List (String × Argument)) : AppException :=
  match initSignature.bindKeywords [] keywords with
  | .error exc => .unhandled exc
  | .ok bound =>
      .domain (.llmRateLimit ((bound.lookup "retry_after").bind Argument.seconds))

end LLMRateLimitException
end AiBackend

import AiBackend.Domain.Exceptions

/-!
# The exception handlers

`register_exception_handlers`: one handler for each class of exceptions, and
one for whatever no other handler takes, also when a handler itself raises.
-/

namespace AiBackend
namespace ErrorHandler

open Python

/-- The body of an error response. -/
structure ErrorResponse where
  detail : String
  code : String
  field : Option String := none

/-- A response: the status, the body, and the `Retry-After` header. -/
structure Response where
  statusCode : ℕ
  content : ErrorResponse
  retryAfter : Option String := none

/-- `_error_response`. -/
def errorResponse (statusCode : ℕ) (detail code : String) (field : Option String := none) :
    Response where
  statusCode := statusCode
  content := { detail := detail, code := code, field := field }

/-- `llm_rate_limit_handler`. -/
def llmRateLimitHandler (exc : DomainException) (retryAfter : Option PyFloat) :
    Except PyExc Response := do
  let response := errorResponse 429 exc.message exc.code
  match retryAfter with
  | none => pure response
  | some seconds => do
      let value ← seconds.toInt
      pure { response with retryAfter := some (toString value) }

/-- The handler of each class of domain exceptions. -/
def domainHandler (exc : DomainException) : Except PyExc Response :=
  match exc with
  | .entityNotFound _ _ => .ok (errorResponse 404 exc.message exc.code)
  | .validation field _ => .ok (errorResponse 422 exc.message exc.code (some field))
  | .businessRuleViolation _ => .ok (errorResponse 409 exc.message exc.code)
  | .llmRateLimit retryAfter => llmRateLimitHandler exc retryAfter
  | .llmConnection _ => .ok (errorResponse 502 exc.message exc.code)
  | .tokenLimitExceeded _ _ => .ok (errorResponse 413 exc.message exc.code)
  | _ => .ok (errorResponse 400 exc.message exc.code)

/-- `request_validation_handler`. -/
def requestValidationHandler (errors : List (List String × String)) : Response :=
  let (loc, detail) := errors.head?.getD ([], "Validation error")
  let field := String.intercalate " → " loc
  errorResponse 422 (if field = "" then detail else field ++ ": " ++ detail)
    "VALIDATION_ERROR" (some field)

/-- `global_exception_handler`. -/
def globalExceptionHandler : Response :=
  errorResponse 500 "Internal server error" "INTERNAL_ERROR"

/-- The response to a request that ends with an exception. -/
def respond : AppException → Response
  | .domain exc =>
      match domainHandler exc with
      | .ok response => response
      | .error _ => globalExceptionHandler
  | .requestValidation errors => requestValidationHandler errors
  | .unhandled _ => globalExceptionHandler

end ErrorHandler
end AiBackend

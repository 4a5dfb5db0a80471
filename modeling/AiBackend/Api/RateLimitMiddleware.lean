import AiBackend.Api.ErrorHandler
import AiBackend.Infrastructure.RateLimiter
import AiBackend.Support.Fault
import AiBackend.Support.Interleaving

/-!
# The rate limit middleware

`rate_limit_middleware` around `call_next`, with `is_allowed` and
`get_remaining` of the limiter inlined.  Requests are served at the same time;
one step of a request is the call it awaits and what it does from there to the
next one.  `render` is the JSON text of an error response.
-/

namespace AiBackend

/-- A response: the status, the headers under their lower-case names, and the
body. -/
structure HttpResponse (β : Type) where
  statusCode : ℕ
  headers : List (String × String)
  body : β

/-- `headers[name] = value`: the first header of the name is replaced and others
of it go, or there is one more at the end. -/
def setHeader (headers : List (String × String)) (name value : String) :
    List (String × String) :=
  match headers with
  | [] => [(name, value)]
  | header :: rest =>
      if header.1 = name then (name, value) :: rest.filter fun other => other.1 ≠ name
      else header :: setHeader rest name value

namespace RateLimitMiddleware

open Program Python RedisRateLimiter ErrorHandler Interleaving

/-- What the middleware reads of a request: the path, the header `X-API-Key`,
and the host of the client. -/
structure Request where
  path : String
  apiKey : Option String
  client : Option String

/-- `rate_key`: the API key, if there is one and it is not empty, or the host. -/
def Request.rateKey (request : Request) : String :=
  let host := request.client.getD "unknown"
  match request.apiKey with
  | some apiKey => if apiKey = "" then host else apiKey
  | none => host

def Request.isHealth (request : Request) : Bool := request.path = "/health"

/-- How far a request has got: the call that it awaits. -/
inductive Stage (β : Type) where
  | arrived
  /-- The script, with this timestamp. -/
  | checking (now : ℚ)
  /-- The log call after the script has raised. -/
  | scriptFailed
  /-- The log call after a denial. -/
  | exceeded
  /-- The log call after `is_allowed` has raised. -/
  | unavailable
  /-- `call_next`; after it the request is told what remains, or not. -/
  | forwarded (told : Bool)
  /-- `ZREMRANGEBYSCORE`, with this timestamp. -/
  | trimming (now : ℚ) (response : HttpResponse β)
  /-- `ZCARD`. -/
  | counting (now : ℚ) (response : HttpResponse β)
  | done (response : HttpResponse β)
  | raised (r : Raised PyExc)

/-- What a step meets: the clock, the number the script draws, the response of
`call_next`, and how the awaited call fails. -/
structure Moment (β : Type) where
  time : ℚ
  random : ℕ := 1
  response : HttpResponse β
  fault : Option (Fault PyExc) := none

abbrev Prog := EStateM (Raised PyExc) Keyspace

variable {β : Type}

/-- Await a call. -/
def Moment.await {α : Type} (moment : Moment β) (action : Prog α) : Prog α :=
  perform (fun _ : Unit => moment.fault) () action

section Middleware

variable (limit : ℤ) (render : ErrorResponse → β)

/-- The response to a request that is not let through. -/
def tooManyRequests : HttpResponse β where
  statusCode := 429
  headers := [("retry-after", "60")]
  body := render
    { detail := "Rate limit exceeded. Please try again later."
      code := "RATE_LIMIT_EXCEEDED" }

/-- The response with the two headers about the rate limit. -/
def withRemaining (remaining : ℤ) (response : HttpResponse β) : HttpResponse β :=
  { response with
    headers := setHeader
      (setHeader response.headers "x-ratelimit-remaining" (toString remaining))
      "x-ratelimit-limit" (toString limit) }

/-- The next step of a request. -/
def advance (request : Request) (moment : Moment β) : Stage β → Prog (Stage β)
  | .arrived =>
      if request.isHealth then pure (.forwarded false) else pure (.checking moment.time)
  | .checking now =>
      tryExcept (do
        let allowed ← moment.await (modifyGet fun space =>
          isAllowed limit space ⟨request.rateKey, now, moment.random, none⟩)
        pure (if allowed then .forwarded true else .exceeded))
        fun _ => pure .scriptFailed
  | .scriptFailed =>
      tryExcept (do
        moment.await (pure ())
        pure (.forwarded true))
        fun _ => pure .unavailable
  | .exceeded =>
      tryExcept (do
        moment.await (pure ())
        pure (.done (tooManyRequests render)))
        fun _ => pure .unavailable
  | .unavailable => do
      moment.await (pure ())
      pure (.forwarded false)
  | .forwarded told => do
      let response ← moment.await (pure moment.response)
      pure (if told then .trimming moment.time response else .done response)
  | .trimming now response =>
      tryExcept (do
        moment.await (modify fun space => trim space now (rateKey request.rateKey))
        pure (.counting now response))
        fun _ => pure (.done (withRemaining limit limit response))
  | .counting _ response =>
      tryExcept (do
        let currentCount ← moment.await (do
          let space ← get
          pure (card space moment.time (rateKey request.rateKey)))
        pure (.done (withRemaining limit (remainingOf limit currentCount) response)))
        fun _ => pure (.done (withRemaining limit limit response))
  | stage => pure stage

variable {ι : Type} [DecidableEq ι] (requests : ι → Request)

/-- One of the requests takes its next step. -/
def step (m : System ι (Stage β) Keyspace) (input : ι × Moment β) :
    System ι (Stage β) Keyspace :=
  Interleaving.step (fun i => advance limit render (requests i) input.2) .raised m input.1

/-- No request has been served. -/
def start (space : Keyspace) : System ι (Stage β) Keyspace := ⟨fun _ => .arrived, space⟩

end Middleware

end RateLimitMiddleware
end AiBackend

import AiBackend.Support.Printf
import AiBackend.Support.Python
import AiBackend.Support.SortedSet

/-!
# The rate limiter

`RedisRateLimiter.is_allowed` with the Lua script it runs, the two commands of
`get_remaining`, and `reset`.  The script is atomic, so a call is one step on
the keyspace.  A timestamp is a
double, on which subtracting the window is exact; the clock that expires keys
is the one the timestamps are taken from.
-/

namespace AiBackend

open Python

namespace RedisRateLimiter

/-- What a key of the limiter holds, and when it expires. -/
structure RateKey where
  members : SortedSet String
  expireAt : Option ℚ

/-- A key that does not exist. -/
def RateKey.absent : RateKey := ⟨KeyedList.empty, none⟩

/-- The value under every key. -/
abbrev Keyspace := String → RateKey

/-- One call: its key, `time.time()`, the value `math.random` draws, and the
exception if Redis cannot be reached. -/
structure Call where
  key : String
  now : ℚ
  random : ℕ
  failure : Option PyExc := none
  deriving DecidableEq

/-- `_rate_key`. -/
def rateKey (key : String) : String := "rate:" ++ key

/-- The window of every call, in seconds. -/
def windowSeconds : ℚ := 60

/-- A key whose time has come is gone. -/
def RateKey.live (value : RateKey) (now : ℚ) : RateKey :=
  if value.expireAt.any (· ≤ now) then .absent else value

/-- The entries the script counts: those of the live key inside the window. -/
def RateKey.remaining (value : RateKey) (now window : ℚ) : SortedSet String :=
  (value.live now).members.zremrangebyscore (now - window)

/-- `now .. ':' .. math.random(1000000)`. -/
def member (now : ℚ) (random : ℕ) : String :=
  Printf.formatG14 now ++ (":" ++ toString random)

/-- `_RATE_LIMIT_LUA`. -/
def script (now window : ℚ) (limit : ℤ) (random : ℕ) (value : RateKey) :
    ℕ × RateKey :=
  let remaining := value.remaining now window
  if (remaining.zcard : ℤ) < limit then
    (1, ⟨remaining.zadd (member now random) now, some (now + ⌈window⌉)⟩)
  else if remaining.zcard = 0 then
    (0, .absent)
  else
    (0, ⟨remaining, (value.live now).expireAt⟩)

/-- `is_allowed`: the answer, and what the call leaves in Redis.  A failure is
answered with `True`. -/
def isAllowed (limit : ℤ) (space : Keyspace) (call : Call) : Bool × Keyspace :=
  match call.failure with
  | some _ => (true, space)
  | none =>
      let (result, value) := script call.now windowSeconds limit call.random
        (space (rateKey call.key))
      (result ≠ 0, Function.update space (rateKey call.key) value)

/-- The first command of `get_remaining`: `ZREMRANGEBYSCORE key -inf now - 60`. -/
def trim (space : Keyspace) (now : ℚ) (key : String) : Keyspace :=
  let remaining := (space key).remaining now windowSeconds
  Function.update space key
    (if remaining.zcard = 0 then .absent else ⟨remaining, ((space key).live now).expireAt⟩)

/-- The second command of `get_remaining`: `ZCARD key`. -/
def card (space : Keyspace) (now : ℚ) (key : String) : ℕ :=
  ((space key).live now).members.zcard

/-- What `get_remaining` makes of that number. -/
def remainingOf (limit : ℤ) (currentCount : ℕ) : ℤ := max 0 (limit - currentCount)

/-- One reset: its key, the time at which it is made, and the exception if
Redis cannot be reached. -/
structure Reset where
  key : String
  now : ℚ
  failure : Option PyExc := none
  deriving DecidableEq

/-- `RedisCache.delete`: whether the key existed, and the keyspace without it. -/
def delete (space : Keyspace) (now : ℚ) (key : String) : Bool × Keyspace :=
  (((space key).live now).members.zcard ≠ 0, Function.update space key .absent)

/-- `reset`, which does not say whether there was anything to clear. -/
def reset (space : Keyspace) (request : Reset) : Except PyExc Unit × Keyspace :=
  match request.failure with
  | some e => (.error e, space)
  | none =>
      let (_, cleared) := delete space request.now (rateKey request.key)
      (.ok (), cleared)

end RedisRateLimiter
end AiBackend

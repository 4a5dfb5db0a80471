import AiBackend.Support.Program
import AiBackend.Support.UrlParse

/-!
# Redis settings

`RedisSettings` with its URL, which the API hands to its pools, and the
settings that the worker takes over field by field.
-/

namespace AiBackend

open Program Python UrlParse

structure RedisSettings where
  host : String := "localhost"
  port : ℤ := 6379
  db : ℤ := 0
  password : Option String := none
  deriving DecidableEq, Repr

/-- Where and how a client connects. -/
structure RedisConnection where
  host : Option String
  port : Option ℤ
  database : ℤ
  password : Option String
  deriving DecidableEq, Repr

namespace RedisSettings

/-- The password where there is one; an empty one counts as none. -/
def secret (settings : RedisSettings) : Option String :=
  settings.password.filter (· ≠ "")

/-- `url`. -/
def url (settings : RedisSettings) : Except PyExc String := do
  let port ← PyInt.str settings.port
  let db ← PyInt.str settings.db
  match settings.secret with
  | some password =>
      .ok ("redis://:" ++ password ++ "@" ++ settings.host ++ ":" ++
        String.ofList port ++ "/" ++ String.ofList db)
  | none =>
      .ok ("redis://" ++ settings.host ++ ":" ++ String.ofList port ++ "/" ++
        String.ofList db)

end RedisSettings

/-- `ArqWorkerSettings.redis_settings`. -/
def ArqWorkerSettings.redisSettings (settings : RedisSettings) : RedisConnection where
  host := some settings.host
  port := some settings.port
  database := settings.db
  password := settings.secret

namespace RedisConnection

/-- The database that a path names. -/
def readDatabase (path : List Char) : Except PyExc ℤ :=
  if path.isEmpty then .ok 0
  else match PyInt.ofText (path.dropWhile (· = '/')) with
    | some n => .ok n
    | none => .error (.valueError "invalid literal for int() with base 10")

/-- The parts of a URL that a connection is made of, read as `urlparse` reads
them. -/
def ofUrl (tables : Tables) (url : String) : Except PyExc RedisConnection := do
  let parsed ← urlsplit tables url.toList
  let port ← parsed.port
  let database ← readDatabase parsed.path
  .ok { host := (parsed.hostname tables).map String.ofList
        port := port
        database := database
        password := parsed.password.map String.ofList }

theorem ofUrl_ok_iff {tables : Tables} {url : String} {connection : RedisConnection} :
    ofUrl tables url = .ok connection ↔
      ∃ parsed, urlsplit tables url.toList = .ok parsed ∧
        parsed.port = .ok connection.port ∧
        readDatabase parsed.path = .ok connection.database ∧
        (parsed.hostname tables).map String.ofList = connection.host ∧
        parsed.password.map String.ofList = connection.password := by
  simp only [ofUrl, except_bind_eq_ok_iff]
  constructor
  · intro h
    obtain ⟨parsed, hsplit, port, hport, database, hdatabase, h⟩ := h
    cases h
    exact ⟨parsed, hsplit, hport, hdatabase, rfl, rfl⟩
  · intro h
    obtain ⟨parsed, hsplit, hport, hdatabase, hhost, hpassword⟩ := h
    refine ⟨parsed, hsplit, _, hport, _, hdatabase, ?_⟩
    rw [hhost, hpassword]

end RedisConnection
end AiBackend

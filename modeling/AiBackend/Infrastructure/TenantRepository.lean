import AiBackend.Domain.Tenant
import AiBackend.Infrastructure.PostgresColumns
import AiBackend.Support.Program

/-!
# The tenants table and its repository

`PostgresTenantRepository`: the table with its two unique columns, and the
cache of lookups by API key, in which a tenant is the JSON text of what
`model_dump` makes of it.  The statements of a lookup and of an update are
separate definitions: between them other calls can come in.  The database and
the cache answer every call, and no entry of the cache expires.
-/

namespace AiBackend

open Program Python

/-- A row of `tenants`. -/
structure TenantRow where
  tenantId : TenantId
  name : String
  apiKeyHash : String
  plan : TenantPlan
  isActive : Bool
  tokensUsedThisMonth : ℤ
  totalTokensUsed : ℤ
  metadata : Metadata
  createdAt : Timestamp
  updatedAt : Timestamp

/-- The table; `tenant_id` and `api_key_hash` are unique. -/
structure TenantTable where
  rows : KeyedList TenantRow.tenantId
  hashes_nodup : (rows.items.map TenantRow.apiKeyHash).Nodup

namespace TenantTable

def empty : TenantTable := ⟨KeyedList.empty, List.nodup_nil⟩

/-- `WHERE tenant_id = $1`. -/
def byId (table : TenantTable) (tenantId : TenantId) : Option TenantRow :=
  table.rows.find? tenantId

/-- `WHERE api_key_hash = $1`. -/
def byHash (table : TenantTable) (apiKeyHash : String) : Option TenantRow :=
  table.rows.items.find? fun row => row.apiKeyHash = apiKeyHash

def uniqueViolation : PyExc :=
  .other "UniqueViolationError"
    "duplicate key value violates unique constraint \"tenants_api_key_hash_key\""

/-- `INSERT ... ON CONFLICT (tenant_id) DO NOTHING`; the hash of another
tenant is still refused. -/
def insert (table : TenantTable) (row : TenantRow) : Except PyExc TenantTable :=
  if row.tenantId ∈ table.rows.items.map TenantRow.tenantId then .ok table
  else if h : row.apiKeyHash ∈ table.rows.items.map TenantRow.apiKeyHash then
    .error uniqueViolation
  else .ok {
    rows := table.rows.insertNew row
    hashes_nodup := by
      unfold KeyedList.insertNew KeyedList.upsert
      split
      · exact table.hashes_nodup
      · next hnew =>
          rw [List.map_append, List.map_singleton]
          exact List.Nodup.append table.hashes_nodup (List.nodup_singleton _)
            (by simpa using h) }

/-- An `UPDATE ... WHERE tenant_id = $1` that sets neither unique column. -/
def modify (table : TenantTable) (tenantId : TenantId) (f : TenantRow → TenantRow)
    (hid : ∀ row, (f row).tenantId = row.tenantId)
    (hhash : ∀ row, (f row).apiKeyHash = row.apiKeyHash) : TenantTable where
  rows := table.rows.modify tenantId f hid
  hashes_nodup := by
    have hkept : ((table.rows.modify tenantId f hid).items.map TenantRow.apiKeyHash) =
        table.rows.items.map TenantRow.apiKeyHash := by
      simp only [KeyedList.modify, List.map_map]
      apply List.map_congr_left
      intro row _
      by_cases hrow : row.tenantId = tenantId
      · simp [hrow, hhash]
      · simp [hrow]
    rw [hkept]
    exact table.hashes_nodup

end TenantTable

/-! ## The columns of an update -/

/-- What `update` writes. -/
structure TenantColumns where
  isActive : Bool
  plan : TenantPlan
  tokensUsedThisMonth : ℤ
  totalTokensUsed : ℤ
  metadata : Metadata

def TenantRow.columns (row : TenantRow) : TenantColumns where
  isActive := row.isActive
  plan := row.plan
  tokensUsedThisMonth := row.tokensUsedThisMonth
  totalTokensUsed := row.totalTokensUsed
  metadata := row.metadata

def Tenant.columns (tenant : Tenant) : TenantColumns where
  isActive := tenant.isActive
  plan := tenant.plan
  tokensUsedThisMonth := tenant.tokensUsedThisMonth
  totalTokensUsed := tenant.totalTokensUsed
  metadata := tenant.metadata

/-- `SET` these columns `, updated_at = NOW()`. -/
def TenantRow.setColumns (columns : TenantColumns) (now : Timestamp)
    (row : TenantRow) : TenantRow :=
  { row with
    isActive := columns.isActive
    plan := columns.plan
    tokensUsedThisMonth := columns.tokensUsedThisMonth
    totalTokensUsed := columns.totalTokensUsed
    metadata := columns.metadata
    updatedAt := now }

/-- `SET is_active = FALSE, updated_at = NOW()`. -/
def TenantRow.setInactive (now : Timestamp) (row : TenantRow) : TenantRow :=
  { row with
    isActive := false
    updatedAt := now }

section Unset

variable (columns : TenantColumns) (now : Timestamp) (row : TenantRow)

theorem TenantRow.tenantId_setColumns :
    (row.setColumns columns now).tenantId = row.tenantId := rfl

theorem TenantRow.apiKeyHash_setColumns :
    (row.setColumns columns now).apiKeyHash = row.apiKeyHash := rfl

theorem TenantRow.tenantId_setInactive :
    (row.setInactive now).tenantId = row.tenantId := rfl

theorem TenantRow.apiKeyHash_setInactive :
    (row.setInactive now).apiKeyHash = row.apiKeyHash := rfl

end Unset

namespace TenantTable

variable (table : TenantTable) (tenantId : TenantId) (now : Timestamp)

/-- The `UPDATE` of `update`. -/
def assign (columns : TenantColumns) : TenantTable :=
  table.modify tenantId (TenantRow.setColumns columns now)
    (TenantRow.tenantId_setColumns columns now) (TenantRow.apiKeyHash_setColumns columns now)

/-- The `UPDATE` of `delete`. -/
def deactivate : TenantTable :=
  table.modify tenantId (TenantRow.setInactive now)
    (TenantRow.tenantId_setInactive now) (TenantRow.apiKeyHash_setInactive now)

end TenantTable

/-! ## The cached texts -/

/-- How pydantic writes and reads an instant in JSON. -/
structure DatetimeJson where
  dump : Timestamp → String
  read : String → Option Timestamp
  read_dump : ∀ t, read (dump t) = some t

/-- `tenant.model_dump(mode="json")`. -/
def Tenant.dumpEntries (datetimes : DatetimeJson) (tenant : Tenant) :
    List (String × Json) :=
  [("id", .str tenant.id.str),
    ("created_at", .str (datetimes.dump tenant.createdAt)),
    ("updated_at", .str (datetimes.dump tenant.updatedAt)),
    ("tenant_id", .dict [("value", .str tenant.tenantId.str)]),
    ("name", .str tenant.name),
    ("api_key_hash", .str tenant.apiKeyHash),
    ("plan", .str tenant.plan.value),
    ("is_active", .bool tenant.isActive),
    ("tokens_used_this_month", .int tenant.tokensUsedThisMonth),
    ("total_tokens_used", .int tenant.totalTokensUsed),
    ("metadata", .dict tenant.metadata.entries.items)]

namespace PostgresTenantRepository

def readStr (entries : List (String × Json)) (key : String) : Option String :=
  match entries.lookup key with
  | some (.str text) => some text
  | _ => none

def readInt (entries : List (String × Json)) (key : String) : Option ℤ :=
  match entries.lookup key with
  | some (.int n) => some n
  | _ => none

def readBool (entries : List (String × Json)) (key : String) : Option Bool :=
  match entries.lookup key with
  | some (.bool b) => some b
  | _ => none

def readDict (entries : List (String × Json)) (key : String) :
    Option (List (String × Json)) :=
  match entries.lookup key with
  | some (.dict items) => some items
  | _ => none

/-- `Tenant(**cached)` for the fields as `model_dump` writes them; anything
else is a corrupt entry. -/
def readTenant (datetimes : DatetimeJson) (entries : List (String × Json)) :
    Option Tenant := do
  let id ← (Uuid.fromStr (← readStr entries "id")).toOption
  let createdAt ← datetimes.read (← readStr entries "created_at")
  let updatedAt ← datetimes.read (← readStr entries "updated_at")
  let tenantId ← readDict entries "tenant_id"
  let tenantId ← (Uuid.fromStr (← readStr tenantId "value")).toOption
  let name ← readStr entries "name"
  let apiKeyHash ← readStr entries "api_key_hash"
  let plan ← TenantPlan.ofValue (← readStr entries "plan")
  let isActive ← readBool entries "is_active"
  let tokensUsedThisMonth ← readInt entries "tokens_used_this_month"
  let totalTokensUsed ← readInt entries "total_tokens_used"
  let metadata ← Metadata.ofItems (← readDict entries "metadata")
  some {
    id := id
    createdAt := createdAt
    updatedAt := updatedAt
    tenantId := tenantId
    name := name
    apiKeyHash := apiKeyHash
    plan := plan
    isActive := isActive
    tokensUsedThisMonth := tokensUsedThisMonth
    totalTokensUsed := totalTokensUsed
    metadata := metadata }

theorem readTenant_dumpEntries (datetimes : DatetimeJson) (tenant : Tenant) :
    readTenant datetimes (tenant.dumpEntries datetimes) = some tenant := by
  simp [readTenant, Tenant.dumpEntries, readStr, readInt, readBool, readDict,
    List.lookup_cons, datetimes.read_dump, TenantPlan.ofValue_value, Metadata.ofItems_items,
    Except.toOption]

/-! ## The repository -/

/-- The database, and the keys of the cache. -/
structure Store where
  table : TenantTable
  cache : String → Option String
  /-- How many identifiers and instants have been drawn. -/
  drawn : ℕ
  ticks : ℕ

/-- What the repository runs on. -/
structure Env where
  datetimes : DatetimeJson
  uuid4 : ℕ → Uuid
  now : ℕ → Timestamp
  /-- What a JSONB column gives back for a dictionary, or its refusal. -/
  jsonb : Metadata → Except PyExc Metadata

/-- A method of the repository. -/
abbrev Prog := EStateM (Raised PyExc) Store

/-- `_row_to_tenant`.  The `id` column is not read, so the constructor draws a
new identity. -/
def rowToTenant (row : TenantRow) (id : Uuid) : Tenant where
  id := id
  createdAt := row.createdAt
  updatedAt := row.updatedAt
  tenantId := row.tenantId
  name := row.name
  apiKeyHash := row.apiKeyHash
  plan := row.plan
  isActive := row.isActive
  tokensUsedThisMonth := row.tokensUsedThisMonth
  totalTokensUsed := row.totalTokensUsed
  metadata := row.metadata

/-- `_cache_key`. -/
def cacheKey (apiKeyHash : String) : String := "tenant:key:" ++ apiKeyHash

section Methods

variable (env : Env)

/-- The tenant of the row a query found, if it found one. -/
def fetch (query : TenantTable → Option TenantRow) : Prog (Option Tenant) := do
  let s ← get
  match query s.table with
  | some row => do
      set { s with drawn := s.drawn + 1 }
      pure (some (rowToTenant row (env.uuid4 s.drawn)))
  | none => pure none

/-- `get_by_id`. -/
def getById (tenantId : TenantId) : Prog (Option Tenant) :=
  fetch env fun table => table.byId tenantId

/-- `get_json` and `Tenant(**cached)`; an empty or corrupt entry counts for
nothing. -/
def readEntry (raw : String) : Option Tenant :=
  match JsonText.loads raw with
  | some (.dict entries) => readTenant env.datetimes entries
  | _ => none

/-- 1. Try cache. -/
def lookupCache (apiKeyHash : String) : Prog (Option Tenant) := do
  let s ← get
  pure ((s.cache (cacheKey apiKeyHash)).bind (readEntry env))

/-- 2. DB lookup. -/
def lookupTable (apiKeyHash : String) : Prog (Option Tenant) :=
  fetch env fun table => table.byHash apiKeyHash

/-- 3. Write back to cache; a dictionary that cannot be written is skipped. -/
def writeBack (apiKeyHash : String) (tenant : Tenant) : Prog Unit :=
  match JsonText.dumps (.dict (tenant.dumpEntries env.datetimes)) with
  | .ok raw => modify fun s =>
      { s with cache := Function.update s.cache (cacheKey apiKeyHash) (some raw) }
  | .error _ => pure ()

/-- `get_by_api_key_hash`. -/
def getByApiKeyHash (apiKeyHash : String) : Prog (Option Tenant) := do
  match ← lookupCache env apiKeyHash with
  | some tenant => pure (some tenant)
  | none => do
      match ← lookupTable env apiKeyHash with
      | none => pure none
      | some tenant => do
          writeBack env apiKeyHash tenant
          pure (some tenant)

/-- The columns of a tenant as the database takes them. -/
def encodeColumns (firstCounter : ℕ) (tenant : Tenant) : Except PyExc TenantColumns := do
  let _ ← JsonText.dumps (.dict tenant.metadata.entries.items)
  let tokensUsedThisMonth ← Postgres.integer 64 firstCounter tenant.tokensUsedThisMonth
  let totalTokensUsed ← Postgres.integer 64 (firstCounter + 1) tenant.totalTokensUsed
  let metadata ← env.jsonb tenant.metadata
  pure {
    isActive := tenant.isActive
    plan := tenant.plan
    tokensUsedThisMonth := tokensUsedThisMonth
    totalTokensUsed := totalTokensUsed
    metadata := metadata }

/-- The row `save` inserts. -/
def newRow (tenant : Tenant) : Except PyExc TenantRow := do
  let columns ← encodeColumns env 6 tenant
  let name ← Postgres.varchar 255 tenant.name
  let apiKeyHash ← Postgres.varchar 64 tenant.apiKeyHash
  pure {
    tenantId := tenant.tenantId
    name := name
    apiKeyHash := apiKeyHash
    plan := columns.plan
    isActive := columns.isActive
    tokensUsedThisMonth := columns.tokensUsedThisMonth
    totalTokensUsed := columns.totalTokensUsed
    metadata := columns.metadata
    createdAt := tenant.createdAt
    updatedAt := tenant.updatedAt }

def save (tenant : Tenant) : Prog Tenant := do
  let row ← ofExcept (newRow env tenant)
  let s ← get
  let table ← ofExcept (s.table.insert row)
  set { s with table := table }
  pure tenant

/-- The `UPDATE` of `update`. -/
def updateTable (tenant : Tenant) : Prog Unit := do
  let columns ← ofExcept (encodeColumns env 4 tenant)
  modify fun s => { s with
    table := s.table.assign tenant.tenantId (env.now s.ticks) columns
    ticks := s.ticks + 1 }

/-- Invalidate cached lookup. -/
def invalidate (apiKeyHash : String) : Prog Unit :=
  modify fun s =>
    { s with cache := Function.update s.cache (cacheKey apiKeyHash) none }

def update (tenant : Tenant) : Prog Tenant := do
  updateTable env tenant
  invalidate tenant.apiKeyHash
  pure tenant

/-- `delete`; whether there was a row. -/
def delete (tenantId : TenantId) : Prog Bool := do
  let s ← get
  set { s with
    table := s.table.deactivate tenantId (env.now s.ticks)
    ticks := s.ticks + 1 }
  pure (s.table.byId tenantId).isSome

end Methods

end PostgresTenantRepository
end AiBackend

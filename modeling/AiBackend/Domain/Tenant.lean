import AiBackend.Domain.Values
import AiBackend.Support.JsonText

/-!
# Tenants

The tenant entity with its plan, quota and counters.
-/

namespace AiBackend

/-- Subscription plan tiers. -/
inductive TenantPlan where
  | free
  | starter
  | pro
  | enterprise
  deriving DecidableEq, Repr

namespace TenantPlan

/-- `plan.value`. -/
def value : TenantPlan → String
  | .free => "free"
  | .starter => "starter"
  | .pro => "pro"
  | .enterprise => "enterprise"

/-- `TenantPlan(text)`. -/
def ofValue (text : String) : Option TenantPlan :=
  [free, starter, pro, enterprise].find? fun plan => plan.value = text

theorem ofValue_value (plan : TenantPlan) : ofValue plan.value = some plan := by
  cases plan with
  | free => decide
  | starter => decide
  | pro => decide
  | enterprise => decide

/-- `_PLAN_QUOTAS`. -/
def quota : TenantPlan → ℤ
  | .free => 100000
  | .starter => 1000000
  | .pro => 10000000
  | .enterprise => 1000000000

end TenantPlan

/-- A dictionary of JSON values as Python has them. -/
@[ext]
structure Metadata where
  entries : Dict Json
  valued : JsonText.all JsonText.isPythonValue (.dict entries.items) = true

namespace Metadata

def empty : Metadata := ⟨KeyedList.empty, by decide⟩

/-- The dictionary with the given entries. -/
def ofItems (items : List (String × Json)) : Option Metadata :=
  if h : JsonText.all JsonText.isPythonValue (.dict (Dict.ofPairs items).items) = true then
    some ⟨Dict.ofPairs items, h⟩
  else none

theorem ofItems_items (metadata : Metadata) :
    ofItems metadata.entries.items = some metadata := by
  have hentries : Dict.ofPairs metadata.entries.items = metadata.entries :=
    KeyedList.ext (Dict.items_ofPairs metadata.entries.nodup)
  rw [ofItems, dif_pos (by rw [hentries]; exact metadata.valued)]
  exact congrArg some (Metadata.ext hentries)

end Metadata

/-- A tenant of the API. -/
structure Tenant extends Entity where
  tenantId : TenantId
  name : String
  apiKeyHash : String
  plan : TenantPlan := .free
  isActive : Bool := true
  tokensUsedThisMonth : ℤ := 0
  totalTokensUsed : ℤ := 0
  metadata : Metadata := Metadata.empty

namespace Tenant

/-- `token_quota`. -/
def tokenQuota (tenant : Tenant) : ℤ := tenant.plan.quota

/-- Active and within the quota. -/
def canAcceptRequest (tenant : Tenant) : Bool :=
  tenant.isActive && decide (tenant.tokensUsedThisMonth < tenant.tokenQuota)

def deductQuota (tenant : Tenant) (tokens : ℤ) (now : Timestamp) : Tenant :=
  { tenant with
    tokensUsedThisMonth := tenant.tokensUsedThisMonth + tokens
    totalTokensUsed := tenant.totalTokensUsed + tokens
    updatedAt := now }

def deactivate (tenant : Tenant) (now : Timestamp) : Tenant :=
  { tenant with
    isActive := false
    updatedAt := now }

end Tenant
end AiBackend

import AiBackend.Tenancy.StoreView

/-!
# A lookup, statement by statement

`get_by_api_key_hash` reads the cache, then the table, then writes back.
Other calls can come in between.
-/

namespace AiBackend
namespace PostgresTenantRepository

open Program

/-- How far a lookup has come. -/
inductive LookupStage where
  | start
  | missed
  | fetched (tenant : Tenant)
  | done (answer : Option Tenant)

section Lookup

variable (env : Env) (apiKeyHash : String)

/-- The next statement of a lookup. -/
def advanceLookup : LookupStage → Prog LookupStage
  | .start => do
      match ← lookupCache env apiKeyHash with
      | some tenant => pure (.done (some tenant))
      | none => pure .missed
  | .missed => do
      match ← lookupTable env apiKeyHash with
      | some tenant => pure (.fetched tenant)
      | none => pure (.done none)
  | .fetched tenant => do
      writeBack env apiKeyHash tenant
      pure (.done (some tenant))
  | .done answer => pure (.done answer)

/-- A lookup that runs alone takes its steps one after the other. -/
theorem getByApiKeyHash_eq_advance :
    (do
      let stage ← advanceLookup env apiKeyHash .start
      let stage ← advanceLookup env apiKeyHash stage
      advanceLookup env apiKeyHash stage) =
    (do
      let answer ← getByApiKeyHash env apiKeyHash
      pure (LookupStage.done answer)) := by
  simp only [getByApiKeyHash, advanceLookup, bind_assoc]
  apply bind_congr
  intro cached
  cases cached with
  | some tenant => simp only [pure_bind]
  | none =>
      simp only [pure_bind, bind_assoc]
      apply bind_congr
      intro found
      cases found with
      | some tenant => simp only [pure_bind, bind_assoc]
      | none => simp only [pure_bind]

/-- The effect of one statement on the store. -/
inductive LookupStep (s : Store) : LookupStage → LookupStage → Store → Prop
  | hit (tenant : Tenant) (cached : s.cached env apiKeyHash = some tenant) :
      LookupStep s .start (.done (some tenant)) s
  | missed (cached : s.cached env apiKeyHash = none) : LookupStep s .start .missed s
  | fetched (row : TenantRow) (stored : s.table.byHash apiKeyHash = some row) :
      LookupStep s .missed (.fetched (rowToTenant row (env.uuid4 s.drawn))) s.draw
  | absent (stored : s.table.byHash apiKeyHash = none) :
      LookupStep s .missed (.done none) s
  | written (tenant : Tenant) :
      LookupStep s (.fetched tenant) (.done (some tenant)) (s.fill env apiKeyHash tenant)
  | ended (answer : Option Tenant) : LookupStep s (.done answer) (.done answer) s

section Runs

variable {env} {apiKeyHash} {s : Store} {tenant : Tenant}

theorem run_advance_hit (hcached : s.cached env apiKeyHash = some tenant) :
    (advanceLookup env apiKeyHash .start).run s = .ok (.done (some tenant)) s := by
  rw [advanceLookup, EStateM.run_bind, run_lookupCache, hcached]
  rfl

theorem run_advance_missed (hcached : s.cached env apiKeyHash = none) :
    (advanceLookup env apiKeyHash .start).run s = .ok .missed s := by
  rw [advanceLookup, EStateM.run_bind, run_lookupCache, hcached]
  rfl

theorem run_advance_fetched {row : TenantRow} (hrow : s.table.byHash apiKeyHash = some row) :
    (advanceLookup env apiKeyHash .missed).run s =
      .ok (.fetched (rowToTenant row (env.uuid4 s.drawn))) s.draw := by
  rw [advanceLookup, EStateM.run_bind, lookupTable, run_fetch_some hrow]
  rfl

theorem run_advance_absent (hrow : s.table.byHash apiKeyHash = none) :
    (advanceLookup env apiKeyHash .missed).run s = .ok (.done none) s := by
  rw [advanceLookup, EStateM.run_bind, lookupTable, run_fetch_none hrow]
  rfl

theorem run_advance_written :
    (advanceLookup env apiKeyHash (.fetched tenant)).run s =
      .ok (.done (some tenant)) (s.fill env apiKeyHash tenant) := by
  rw [advanceLookup, EStateM.run_bind, run_writeBack]
  rfl

end Runs

theorem run_advanceLookup (s : Store) (stage : LookupStage) :
    ∃ next s', (advanceLookup env apiKeyHash stage).run s = .ok next s' ∧
      LookupStep env apiKeyHash s stage next s' := by
  cases stage with
  | start =>
      cases hcached : s.cached env apiKeyHash with
      | some tenant => exact ⟨_, _, run_advance_hit hcached, .hit tenant hcached⟩
      | none => exact ⟨_, _, run_advance_missed hcached, .missed hcached⟩
  | missed =>
      cases hrow : s.table.byHash apiKeyHash with
      | some row => exact ⟨_, _, run_advance_fetched hrow, .fetched row hrow⟩
      | none => exact ⟨_, _, run_advance_absent hrow, .absent hrow⟩
  | fetched tenant => exact ⟨_, _, run_advance_written, .written tenant⟩
  | done answer => exact ⟨_, _, rfl, .ended answer⟩

variable {env} {apiKeyHash} {s s' : Store} {stage next : LookupStage}

/-- A lookup changes no row. -/
theorem LookupStep.table (h : LookupStep env apiKeyHash s stage next s') :
    s'.table = s.table := by
  cases h with
  | hit tenant cached => rfl
  | missed cached => rfl
  | fetched row stored => rfl
  | absent stored => rfl
  | written tenant => exact s.table_fill env apiKeyHash tenant
  | ended answer => rfl

/-- A lookup changes the snapshot by writing back what it has fetched. -/
theorem LookupStep.cached (h : LookupStep env apiKeyHash s stage next s') :
    s'.cached env apiKeyHash = s.cached env apiKeyHash ∨
      ∃ tenant, stage = .fetched tenant ∧ s'.cached env apiKeyHash = some tenant := by
  cases h with
  | hit tenant cached => exact Or.inl rfl
  | missed cached => exact Or.inl rfl
  | fetched row stored => exact Or.inl rfl
  | absent stored => exact Or.inl rfl
  | written tenant =>
      rw [Store.cached_fill]
      split
      · exact Or.inr ⟨tenant, rfl, Function.update_self ..⟩
      · exact Or.inl rfl
  | ended answer => exact Or.inl rfl

end Lookup

end PostgresTenantRepository
end AiBackend

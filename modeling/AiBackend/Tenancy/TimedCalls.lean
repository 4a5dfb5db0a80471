import AiBackend.Support.Expiry
import AiBackend.Support.Fault
import AiBackend.Support.Interleaving
import AiBackend.Tenancy.CacheCoherence
import AiBackend.Tenancy.LookupSteps

/-!
# Calls of the tenant repository on the clock

The calls of the repository, statement by statement, with a cache whose entries
expire.  A statement happens at some time; it can fail, before or after it has
had its effect.
-/

namespace AiBackend
namespace PostgresTenantRepository

open Program Python Interleaving

/-- `_CACHE_TTL`, in seconds. -/
def cacheTtl : ℚ := 300

/-- The database, and the cache with the times at which its entries go. -/
structure TimedStore where
  table : TenantTable
  cache : Expiring String String
  drawn : ℕ
  ticks : ℕ

/-- What the repository sees at a time. -/
def TimedStore.at (s : TimedStore) (time : ℚ) : Store where
  table := s.table
  cache := s.cache.get time
  drawn := s.drawn
  ticks := s.ticks

/-- The store after a statement that leaves the cache alone. -/
def TimedStore.put (s : TimedStore) (after : Store) : TimedStore :=
  { s with
    table := after.table
    drawn := after.drawn
    ticks := after.ticks }

/-- When a statement happens, and how it fails. -/
structure Tick where
  time : ℚ
  fault : Option (Fault PyExc) := none

/-- What a call is about to do. -/
inductive CallPoint where
  /-- `get_by_api_key_hash`: read the cache. -/
  | looking (apiKeyHash : String)
  /-- Read the table. -/
  | missed (apiKeyHash : String)
  /-- Write the cache; the table was read at this time. -/
  | fetched (apiKeyHash : String) (tenant : Tenant) (since : ℚ)
  | answered (apiKeyHash : String) (answer : Option Tenant)
  /-- `save`. -/
  | saving (tenant : Tenant)
  /-- `update`: write the row. -/
  | updating (tenant : Tenant)
  /-- Delete the entry. -/
  | invalidating (tenant : Tenant)
  /-- `delete`. -/
  | deleting (tenantId : TenantId)
  | done
  | raised (r : Raised PyExc)

abbrev TimedProg := EStateM (Raised PyExc) TimedStore

/-- Await a statement. -/
def Tick.await {α : Type} (tick : Tick) (action : TimedProg α) : TimedProg α :=
  perform (fun _ : Unit => tick.fault) () action

/-- A statement of the repository that does not write the cache. -/
def Tick.statement {α : Type} (tick : Tick) (prog : Prog α) : TimedProg α :=
  focus (fun s => s.at tick.time) (fun after s => s.put after) prog

section Calls

variable (env : Env) (tick : Tick)

/-- `set_json(cache_key, tenant_data, ttl_seconds=_CACHE_TTL)`. -/
def setEntry (apiKeyHash : String) (tenant : Tenant) : TimedProg Unit :=
  match JsonText.dumps (.dict (tenant.dumpEntries env.datetimes)) with
  | .ok raw => modify fun s =>
      { s with cache := s.cache.setex (cacheKey apiKeyHash) tick.time cacheTtl raw }
  | .error _ => pure ()

/-- `_cache.delete(cache_key)`. -/
def deleteEntry (apiKeyHash : String) : TimedProg Unit :=
  modify fun s => { s with cache := s.cache.delete (cacheKey apiKeyHash) }

/-- The next statement of a call. -/
def advancePoint : CallPoint → TimedProg CallPoint
  | .looking apiKeyHash => do
      let cached ← tick.await (tick.statement (lookupCache env apiKeyHash))
      pure (match cached with
        | some tenant => .answered apiKeyHash (some tenant)
        | none => .missed apiKeyHash)
  | .missed apiKeyHash => do
      let found ← tick.await (tick.statement (lookupTable env apiKeyHash))
      pure (match found with
        | some tenant => .fetched apiKeyHash tenant tick.time
        | none => .answered apiKeyHash none)
  | .fetched apiKeyHash tenant _ => do
      tryExcept (tick.await (setEntry env tick apiKeyHash tenant)) fun _ => pure ()
      pure (.answered apiKeyHash (some tenant))
  | .saving tenant => do
      let _ ← tick.await (tick.statement (save env tenant))
      pure .done
  | .updating tenant => do
      let _ ← tick.await (tick.statement (updateTable env tenant))
      pure (.invalidating tenant)
  | .invalidating tenant => do
      let _ ← tick.await (deleteEntry tenant.apiKeyHash)
      pure .done
  | .deleting tenantId => do
      let _ ← tick.await (tick.statement (delete env tenantId))
      pure .done
  | point => pure point

variable {ι : Type} [DecidableEq ι]

/-- One of the calls takes its next step. -/
def stepPoint (m : System ι CallPoint TimedStore) (input : ι × Tick) :
    System ι CallPoint TimedStore :=
  Interleaving.step (fun _ => advancePoint env input.2) .raised m input.1

end Calls

/-! ## Statements -/

theorem Tick.await_eq {α : Type} {tick : Tick} (h : tick.fault = none)
    (action : TimedProg α) : tick.await action = action :=
  perform_of_none (show (fun _ : Unit => tick.fault) () = none from h)

section Statement

variable {α : Type} (tick : Tick) (s : TimedStore) (prog : Prog α)

theorem run_statement :
    (tick.statement prog).run s =
      match prog.run (s.at tick.time) with
      | .ok a after => .ok a (s.put after)
      | .error e after => .error e (s.put after) := by
  simp only [EStateM.run, Tick.statement, focus]
  cases prog (s.at tick.time) with
  | ok a after => rfl
  | error e after => rfl

variable {tick s prog}

theorem run_statement_ok {a : α} {after : Store} (h : prog.run (s.at tick.time) = .ok a after) :
    (tick.statement prog).run s = .ok a (s.put after) := by
  rw [run_statement, h]

/-- A statement that does not write the cache leaves it as it is. -/
theorem put_of_statement :
    finalState ((tick.statement prog).run s) =
      s.put (finalState (prog.run (s.at tick.time))) := by
  rw [run_statement]
  cases prog.run (s.at tick.time) with
  | ok a after => rfl
  | error e after => rfl

end Statement

section LookupTable

variable {env : Env} {tick : Tick} {s : TimedStore} {apiKeyHash : String}

theorem run_lookupTable_some {row : TenantRow} (h : s.table.byHash apiKeyHash = some row) :
    (tick.statement (lookupTable env apiKeyHash)).run s =
      .ok (some (rowToTenant row (env.uuid4 s.drawn))) (s.put (s.at tick.time).draw) := by
  have hfetch : (lookupTable env apiKeyHash).run (s.at tick.time) =
      .ok (some (rowToTenant row (env.uuid4 s.drawn))) (s.at tick.time).draw :=
    run_fetch_some h
  exact run_statement_ok hfetch

theorem run_lookupTable_none (h : s.table.byHash apiKeyHash = none) :
    (tick.statement (lookupTable env apiKeyHash)).run s =
      .ok none (s.put (s.at tick.time)) := by
  have hfetch : (lookupTable env apiKeyHash).run (s.at tick.time) =
      .ok none (s.at tick.time) := run_fetch_none h
  exact run_statement_ok hfetch

end LookupTable

/-! ## The same without a clock -/

section Simulation

variable (env : Env) (apiKeyHash : String) (time : ℚ)

/-- Where a lookup is. -/
def LookupStage.point : LookupStage → CallPoint
  | .start => .looking apiKeyHash
  | .missed => .missed apiKeyHash
  | .fetched tenant => .fetched apiKeyHash tenant time
  | .done answer => .answered apiKeyHash answer

theorem at_setEntry (s : TimedStore) (tenant : Tenant) :
    (setEntry env ⟨time, none⟩ apiKeyHash tenant).run s =
        .ok () (finalState ((setEntry env ⟨time, none⟩ apiKeyHash tenant).run s)) ∧
      (finalState ((setEntry env ⟨time, none⟩ apiKeyHash tenant).run s)).at time =
        (s.at time).fill env apiKeyHash tenant := by
  by_cases h : Storable env tenant
  · have hdumps : JsonText.dumps (.dict (tenant.dumpEntries env.datetimes)) =
        .ok (entryText env tenant) := if_pos h
    rw [setEntry, hdumps, Store.fill, if_pos h]
    refine ⟨rfl, ?_⟩
    have hlive : time < time + cacheTtl := by norm_num [cacheTtl]
    have hcache : (s.cache.setex (cacheKey apiKeyHash) time cacheTtl
        (entryText env tenant)).get time =
        Function.update (s.cache.get time) (cacheKey apiKeyHash)
          (some (entryText env tenant)) := by
      funext key
      by_cases hkey : key = cacheKey apiKeyHash
      · rw [hkey, Expiring.get_setex_self, if_pos hlive, Function.update_self]
      · rw [Expiring.get_setex_of_ne hkey, Function.update_of_ne hkey]
    exact congrArg (Store.mk s.table · s.drawn s.ticks) hcache
  · obtain ⟨e, hdumps⟩ : ∃ e, JsonText.dumps (.dict (tenant.dumpEntries env.datetimes)) =
        .error e := ⟨_, if_neg h⟩
    rw [setEntry, hdumps, Store.fill, if_neg h]
    exact ⟨rfl, rfl⟩

/-- A statement of a lookup that does not fail does to what is visible at its
time what the statement without a clock does. -/
theorem advancePoint_eq_advanceLookup (s : TimedStore) (stage : LookupStage) :
    ∃ next s', (advanceLookup env apiKeyHash stage).run (s.at time) = .ok next (s'.at time) ∧
      (advancePoint env ⟨time, none⟩ (stage.point apiKeyHash time)).run s =
        .ok (next.point apiKeyHash time) s' := by
  cases stage with
  | start =>
      cases hcached : (s.at time).cached env apiKeyHash with
      | some tenant =>
          refine ⟨_, s, run_advance_hit hcached, ?_⟩
          change EStateM.Result.ok (match (s.at time).cached env apiKeyHash with
            | some tenant => CallPoint.answered apiKeyHash (some tenant)
            | none => .missed apiKeyHash) s = _
          rw [hcached]
          rfl
      | none =>
          refine ⟨_, s, run_advance_missed hcached, ?_⟩
          change EStateM.Result.ok (match (s.at time).cached env apiKeyHash with
            | some tenant => CallPoint.answered apiKeyHash (some tenant)
            | none => .missed apiKeyHash) s = _
          rw [hcached]
          rfl
  | missed =>
      cases hrow : s.table.byHash apiKeyHash with
      | some row =>
          refine ⟨_, s.put (s.at time).draw, run_advance_fetched hrow, ?_⟩
          rw [LookupStage.point, advancePoint, EStateM.run_bind, Tick.await_eq rfl,
            run_lookupTable_some hrow]
          rfl
      | none =>
          refine ⟨_, s.put (s.at time), run_advance_absent hrow, ?_⟩
          rw [LookupStage.point, advancePoint, EStateM.run_bind, Tick.await_eq rfl,
            run_lookupTable_none hrow]
          rfl
  | fetched tenant =>
      obtain ⟨hset, hat⟩ := at_setEntry env apiKeyHash time s tenant
      refine ⟨.done (some tenant),
        finalState ((setEntry env ⟨time, none⟩ apiKeyHash tenant).run s), ?_, ?_⟩
      · rw [run_advance_written, hat]
      · rw [LookupStage.point, advancePoint, EStateM.run_bind, run_tryExcept, Tick.await_eq rfl,
          hset]
        rfl
  | done answer => exact ⟨_, s, rfl, rfl⟩

end Simulation

/-! ## What a step does -/

/-- What is left of the store: a statement that fails has had its effect or
not. -/
def Tick.leaves (tick : Tick) (s after : TimedStore) : TimedStore :=
  match tick.fault with
  | none => after
  | some fault => if fault.landed then after else s

theorem Tick.run_await_of_some {α : Type} {tick : Tick} {fault : Fault PyExc}
    (h : tick.fault = some fault) (action : TimedProg α) (s : TimedStore) :
    (tick.await action).run s =
      .error fault.raised (tick.leaves s (finalState (action.run s))) := by
  rw [Tick.leaves, h]
  exact run_perform_of_some (show (fun _ : Unit => tick.fault) () = some fault from h) action s

section Steps

variable (env : Env) (tick : Tick)

/-- The effect of the statement that a call awaits. -/
def CallPoint.effect (s : TimedStore) : CallPoint → TimedStore
  | .missed apiKeyHash => finalState ((tick.statement (lookupTable env apiKeyHash)).run s)
  | .fetched apiKeyHash tenant _ => finalState ((setEntry env tick apiKeyHash tenant).run s)
  | .saving tenant => finalState ((tick.statement (save env tenant)).run s)
  | .updating tenant => finalState ((tick.statement (updateTable env tenant)).run s)
  | .invalidating tenant => finalState ((deleteEntry tenant.apiKeyHash).run s)
  | .deleting tenantId => finalState ((tick.statement (delete env tenantId)).run s)
  | _ => s

/-- Where a call goes. -/
inductive PointGoes (s : TimedStore) : CallPoint → CallPoint → Prop
  | hit (apiKeyHash : String) (tenant : Tenant)
      (cached : (s.at tick.time).cached env apiKeyHash = some tenant) :
      PointGoes s (.looking apiKeyHash) (.answered apiKeyHash (some tenant))
  | missed (apiKeyHash : String) : PointGoes s (.looking apiKeyHash) (.missed apiKeyHash)
  | found (apiKeyHash : String) (row : TenantRow)
      (stored : s.table.byHash apiKeyHash = some row) :
      PointGoes s (.missed apiKeyHash)
        (.fetched apiKeyHash (rowToTenant row (env.uuid4 s.drawn)) tick.time)
  | absent (apiKeyHash : String) (stored : s.table.byHash apiKeyHash = none) :
      PointGoes s (.missed apiKeyHash) (.answered apiKeyHash none)
  | answered (apiKeyHash : String) (tenant : Tenant) (since : ℚ) :
      PointGoes s (.fetched apiKeyHash tenant since) (.answered apiKeyHash (some tenant))
  | saved (tenant : Tenant) : PointGoes s (.saving tenant) .done
  | updated (tenant : Tenant) : PointGoes s (.updating tenant) (.invalidating tenant)
  | invalidated (tenant : Tenant) : PointGoes s (.invalidating tenant) .done
  | deleted (tenantId : TenantId) : PointGoes s (.deleting tenantId) .done
  | raised (point : CallPoint) (r : Raised PyExc) : PointGoes s point (.raised r)
  | stays (point : CallPoint) : PointGoes s point point

/-- A step of a call leads where `PointGoes` says, and has the effect of the
statement that it awaits. -/
def PointLeads (s : TimedStore) (point : CallPoint) (prog : TimedProg CallPoint) : Prop :=
  ∃ next, PointGoes env tick s point next ∧
    (prog.run s = .ok next (tick.leaves s (point.effect env tick s)) ∨
      ∃ r, next = .raised r ∧ prog.run s = .error r (tick.leaves s (point.effect env tick s)))

variable {env} {tick} {s : TimedStore} {point : CallPoint}

/-- A statement whose failure nobody handles. -/
theorem pointLeads_await {α : Type} {action : TimedProg α} {next : α → CallPoint}
    (heffect : point.effect env tick s = finalState (action.run s))
    (hnext : ∀ a s', action.run s = .ok a s' → PointGoes env tick s point (next a)) :
    PointLeads env tick s point
      (do
        let x ← tick.await action
        pure (next x)) := by
  cases hfault : tick.fault with
  | none =>
      rw [PointLeads, Tick.await_eq hfault, EStateM.run_bind, Tick.leaves, hfault, heffect]
      cases haction : action.run s with
      | ok a s' => exact ⟨next a, hnext a s' haction, .inl rfl⟩
      | error r s' => exact ⟨.raised r, .raised point r, .inr ⟨r, rfl, rfl⟩⟩
  | some fault =>
      refine ⟨.raised fault.raised, .raised point _, .inr ⟨_, rfl, ?_⟩⟩
      rw [EStateM.run_bind, Tick.run_await_of_some hfault, heffect]

/-- A write to the cache, whose exceptions are handled. -/
theorem pointLeads_fetched {apiKeyHash : String} {tenant : Tenant} {since : ℚ} :
    PointLeads env tick s (.fetched apiKeyHash tenant since)
      (advancePoint env tick (.fetched apiKeyHash tenant since)) := by
  have hset : (setEntry env tick apiKeyHash tenant).run s =
      .ok () (finalState ((setEntry env tick apiKeyHash tenant).run s)) := by
    unfold setEntry
    split
    · rfl
    · rfl
  rw [advancePoint, PointLeads, EStateM.run_bind, run_tryExcept, CallPoint.effect]
  cases hfault : tick.fault with
  | none =>
      refine ⟨_, .answered apiKeyHash tenant since, .inl ?_⟩
      rw [Tick.await_eq hfault, hset, Tick.leaves, hfault]
      rfl
  | some fault =>
      rw [Tick.run_await_of_some hfault]
      cases hraised : fault.raised with
      | exception e => exact ⟨_, .answered apiKeyHash tenant since, .inl rfl⟩
      | cancelled => exact ⟨_, .raised _ .cancelled, .inr ⟨_, rfl, rfl⟩⟩

theorem pointLeads_advance (env : Env) (tick : Tick) (s : TimedStore) (point : CallPoint) :
    PointLeads env tick s point (advancePoint env tick point) := by
  have hstays : ∀ point : CallPoint, point.effect env tick s = s →
      PointLeads env tick s point (pure point) := by
    intro point heffect
    refine ⟨point, .stays point, .inl ?_⟩
    have hleaves : tick.leaves s s = s := by
      unfold Tick.leaves
      split
      · rfl
      · exact ite_self s
    rw [heffect, hleaves]
    rfl
  cases point with
  | looking apiKeyHash =>
      refine pointLeads_await rfl fun cached s' hrun => ?_
      obtain ⟨rfl, -⟩ : (s.at tick.time).cached env apiKeyHash = cached ∧ _ = s' := by
        have hlookup : (lookupCache env apiKeyHash).run (s.at tick.time) =
            .ok ((s.at tick.time).cached env apiKeyHash) (s.at tick.time) := run_lookupCache
        rw [run_statement_ok hlookup] at hrun
        exact EStateM.Result.ok.inj hrun
      cases hcached : (s.at tick.time).cached env apiKeyHash with
      | some tenant => exact .hit apiKeyHash tenant hcached
      | none => exact .missed apiKeyHash
  | missed apiKeyHash =>
      refine pointLeads_await rfl fun found s' hrun => ?_
      cases hrow : s.table.byHash apiKeyHash with
      | some row =>
          rw [run_lookupTable_some hrow] at hrun
          obtain ⟨rfl, -⟩ := EStateM.Result.ok.inj hrun
          exact .found apiKeyHash row hrow
      | none =>
          rw [run_lookupTable_none hrow] at hrun
          obtain ⟨rfl, -⟩ := EStateM.Result.ok.inj hrun
          exact .absent apiKeyHash hrow
  | fetched apiKeyHash tenant since => exact pointLeads_fetched
  | saving tenant => exact pointLeads_await rfl fun _ _ _ => .saved tenant
  | updating tenant => exact pointLeads_await rfl fun _ _ _ => .updated tenant
  | invalidating tenant => exact pointLeads_await rfl fun _ _ _ => .invalidated tenant
  | deleting tenantId => exact pointLeads_await rfl fun _ _ _ => .deleted tenantId
  | answered apiKeyHash answer => exact hstays _ rfl
  | done => exact hstays _ rfl
  | raised r => exact hstays _ rfl

end Steps

section Machine

variable {ι : Type} [DecidableEq ι] (env : Env) (m : System ι CallPoint TimedStore) (i : ι)
  (tick : Tick)

theorem stepPoint_eq :
    ∃ next, PointGoes env tick m.shared (m.stages i) next ∧
      stepPoint env m (i, tick) = ⟨Function.update m.stages i next,
        tick.leaves m.shared ((m.stages i).effect env tick m.shared)⟩ := by
  obtain ⟨next, hgoes, hrun | ⟨r, rfl, hrun⟩⟩ :=
    pointLeads_advance env tick m.shared (m.stages i)
  · exact ⟨next, hgoes, Interleaving.step_of_ok hrun⟩
  · exact ⟨_, hgoes, Interleaving.step_of_error hrun⟩

theorem goes_stepPoint :
    PointGoes env tick m.shared (m.stages i) ((stepPoint env m (i, tick)).stages i) := by
  obtain ⟨next, hgoes, hstep⟩ := stepPoint_eq env m i tick
  have hnext : (stepPoint env m (i, tick)).stages i = next := by
    rw [hstep]
    exact Function.update_self ..
  rwa [hnext]

theorem stages_stepPoint_of_ne {j : ι} (h : j ≠ i) :
    (stepPoint env m (i, tick)).stages j = m.stages j := by
  obtain ⟨next, -, hstep⟩ := stepPoint_eq env m i tick
  rw [hstep]
  exact Function.update_of_ne h ..

theorem shared_stepPoint :
    (stepPoint env m (i, tick)).shared =
      tick.leaves m.shared ((m.stages i).effect env tick m.shared) := by
  obtain ⟨next, -, hstep⟩ := stepPoint_eq env m i tick
  rw [hstep]

end Machine

end PostgresTenantRepository
end AiBackend

import AiBackend.Support.Run
import AiBackend.Tenancy.StoreView

/-!
# Coherence of the tenant cache

Calls of the repository one after the other, from an empty cache.  Lookups
report the current rows as long as no call changes a row and leaves a snapshot
of the row as it was: `delete` invalidates nothing, and `update` invalidates
the hash of the entity, which need not be that of the row.
-/

namespace AiBackend
namespace PostgresTenantRepository

open Program Run CacheAside

/-- A tenant that is returned says what the row says. -/
def Reports (tenant : Tenant) (row : TenantRow) : Prop :=
  tenant.tenantId = row.tenantId ∧ tenant.columns = row.columns

theorem reports_rowToTenant (row : TenantRow) (id : Uuid) :
    Reports (rowToTenant row id) row := ⟨rfl, rfl⟩

section Changes

variable {tenant : Tenant} {row : TenantRow} {now : Timestamp}

theorem reports_setColumns_iff {columns : TenantColumns} (h : Reports tenant row) :
    Reports tenant (row.setColumns columns now) ↔ columns = row.columns := by
  obtain ⟨hid, hcolumns⟩ := h
  constructor
  · intro hset
    exact hset.2.symm.trans hcolumns
  · intro hsame
    exact ⟨hid, hcolumns.trans hsame.symm⟩

theorem reports_setInactive_iff (h : Reports tenant row) :
    Reports tenant (row.setInactive now) ↔ row.isActive = false := by
  obtain ⟨hid, hcolumns⟩ := h
  have hactive : tenant.isActive = row.isActive := congrArg TenantColumns.isActive hcolumns
  constructor
  · intro hset
    have hinactive : tenant.isActive = false := congrArg TenantColumns.isActive hset.2
    exact hactive.symm.trans hinactive
  · intro hinactive
    refine ⟨hid, hcolumns.trans ?_⟩
    simp [TenantRow.columns, TenantRow.setInactive, hinactive]

end Changes

/-! ## One lookup -/

variable (env : Env)

/-- Every snapshot in the cache reports the current row. -/
def CacheRight (s : Store) : Prop := Coherent Reports s.table.byHash (s.cached env)

section Lookup

variable {env} {s : Store} {apiKeyHash : String}

theorem run_getByApiKeyHash_of_cached {tenant : Tenant}
    (h : s.cached env apiKeyHash = some tenant) :
    (getByApiKeyHash env apiKeyHash).run s = .ok (some tenant) s := by
  rw [getByApiKeyHash, EStateM.run_bind, run_lookupCache, h]
  rfl

theorem run_getByApiKeyHash_of_absent (hcached : s.cached env apiKeyHash = none)
    (h : s.table.byHash apiKeyHash = none) :
    (getByApiKeyHash env apiKeyHash).run s = .ok none s := by
  rw [getByApiKeyHash, EStateM.run_bind, run_lookupCache, hcached]
  change ((lookupTable env apiKeyHash) >>= _).run s = _
  rw [EStateM.run_bind, lookupTable, run_fetch_none h]
  rfl

theorem run_getByApiKeyHash_of_row {row : TenantRow}
    (hcached : s.cached env apiKeyHash = none) (h : s.table.byHash apiKeyHash = some row) :
    (getByApiKeyHash env apiKeyHash).run s =
      .ok (some (rowToTenant row (env.uuid4 s.drawn)))
        (s.draw.fill env apiKeyHash (rowToTenant row (env.uuid4 s.drawn))) := by
  rw [getByApiKeyHash, EStateM.run_bind, run_lookupCache, hcached]
  change ((lookupTable env apiKeyHash) >>= _).run s = _
  rw [EStateM.run_bind, lookupTable, run_fetch_some h]
  change (writeBack env apiKeyHash _ >>= _).run s.draw = _
  rw [EStateM.run_bind, run_writeBack]
  rfl

/-- A lookup returns; what it leaves in the cache is read from the row. -/
theorem run_getByApiKeyHash (env : Env) (s : Store) (apiKeyHash : String) :
    ∃ answer s', (getByApiKeyHash env apiKeyHash).run s = .ok answer s' ∧
      (∀ tenant ∈ s.cached env apiKeyHash, answer = some tenant) ∧
      (s.cached env apiKeyHash = none →
        Option.Rel Reports answer (s.table.byHash apiKeyHash)) ∧
      (∀ agrees : Tenant → TenantRow → Prop,
        (∀ row id, agrees (rowToTenant row id) row) →
        Coherent agrees s.table.byHash (s.cached env) →
          Coherent agrees s'.table.byHash (s'.cached env)) := by
  cases hcached : s.cached env apiKeyHash with
  | some tenant =>
      refine ⟨_, _, run_getByApiKeyHash_of_cached hcached, ?_, ?_, fun _ _ => id⟩
      · simp
      · simp
  | none =>
      cases hrow : s.table.byHash apiKeyHash with
      | none =>
          exact ⟨_, _, run_getByApiKeyHash_of_absent hcached hrow, by simp,
            fun _ => Option.Rel.none, fun _ _ => id⟩
      | some row =>
          refine ⟨_, _, run_getByApiKeyHash_of_row hcached hrow, by simp,
            fun _ => Option.Rel.some (reports_rowToTenant row _), ?_⟩
          intro agrees hread hcoherent
          rw [Store.table_fill, Store.cached_fill]
          split
          · refine Coherent.fill hcoherent ?_
            rw [hrow]
            exact coherentAt_some_iff.mpr (by simpa using hread row _)
          · exact hcoherent

end Lookup

/-- Every lookup returns, with nothing exactly where there is no row, and
otherwise with what the row says. -/
def LookupsRight (s : Store) : Prop :=
  ∀ apiKeyHash, ∃ answer s', (getByApiKeyHash env apiKeyHash).run s = .ok answer s' ∧
    Option.Rel Reports answer (s.table.byHash apiKeyHash)

theorem lookupsRight_iff (s : Store) : LookupsRight env s ↔ CacheRight env s := by
  refine forall_congr' fun apiKeyHash => ?_
  obtain ⟨answer, s', hrun, hhit, hmiss, -⟩ := run_getByApiKeyHash env s apiKeyHash
  rw [← rel_answer_iff hhit hmiss, hrun]
  constructor
  · rintro ⟨other, _, hsame, hrel⟩
    cases hsame
    exact hrel
  · intro hrel
    exact ⟨answer, s', rfl, hrel⟩

/-! ## One call -/

/-- A call of the repository. -/
inductive Call where
  | save (tenant : Tenant)
  | update (tenant : Tenant)
  | delete (tenantId : TenantId)
  | lookup (apiKeyHash : String)

def Call.run : Call → Prog Unit
  | .save tenant => do
      let _ ← PostgresTenantRepository.save env tenant
      pure ()
  | .update tenant => do
      let _ ← PostgresTenantRepository.update env tenant
      pure ()
  | .delete tenantId => do
      let _ ← PostgresTenantRepository.delete env tenantId
      pure ()
  | .lookup apiKeyHash => do
      let _ ← getByApiKeyHash env apiKeyHash
      pure ()

/-- The store after a call. -/
def step (s : Store) (call : Call) : Store := finalState ((call.run env).run s)

/-- The call does not write into a row whose snapshot it leaves behind, or it
writes what the row says already. -/
def Keeps (s : Store) : Call → Prop
  | .update tenant => ∀ row ∈ s.table.byId tenant.tenantId,
      ∀ columns, encodeColumns env 4 tenant = .ok columns →
        tenant.apiKeyHash = row.apiKeyHash ∨ s.cached env row.apiKeyHash = none ∨
          columns = row.columns
  | .delete tenantId => ∀ row ∈ s.table.byId tenantId,
      s.cached env row.apiKeyHash = none ∨ row.isActive = false
  | _ => True

section Steps

variable {env} {s : Store}

/-- A snapshot of a row that agrees with it. -/
theorem reports_of_cached (hright : CacheRight env s) {tenantId : TenantId} {row : TenantRow}
    (hrow : s.table.byId tenantId = some row) {tenant : Tenant}
    (hcached : s.cached env row.apiKeyHash = some tenant) : Reports tenant row := by
  have hat := hright row.apiKeyHash
  rw [TenantTable.byHash_of_byId hrow, coherentAt_some_iff] at hat
  exact hat tenant hcached

/-- A save leaves the store as it is or inserts one row. -/
theorem step_save (env : Env) (s : Store) (tenant : Tenant) :
    step env s (.save tenant) = s ∨ ∃ row table', s.table.insert row = .ok table' ∧
      step env s (.save tenant) = { s with table := table' } := by
  rw [step, Call.run, finalState_bind_pure, save]
  cases hnew : newRow env tenant with
  | error e => exact .inl rfl
  | ok row =>
      cases hinsert : s.table.insert row with
      | error e =>
          refine .inl ?_
          change finalState ((ofExcept (s.table.insert row) >>= fun table => _).run s) = s
          rw [hinsert]
          rfl
      | ok table' =>
          refine .inr ⟨row, table', hinsert, ?_⟩
          change finalState ((ofExcept (s.table.insert row) >>= fun table => _).run s) = _
          rw [hinsert]
          rfl

theorem coherent_save {agrees : Tenant → TenantRow → Prop}
    (h : Coherent agrees s.table.byHash (s.cached env)) (tenant : Tenant) :
    Coherent agrees (step env s (.save tenant)).table.byHash
      ((step env s (.save tenant)).cached env) := by
  obtain hsame | ⟨row, table', hinsert, hstep⟩ := step_save env s tenant
  · rwa [hsame]
  · rw [hstep]
    by_cases hid : row.tenantId ∈ s.table.rows.items.map TenantRow.tenantId
    · rw [TenantTable.insert_of_taken hid] at hinsert
      obtain rfl := Except.ok.inj hinsert
      exact h
    · obtain ⟨hnew, hrows⟩ := TenantTable.byHash_insert hid hinsert
      change Coherent agrees table'.byHash (s.cached env)
      rw [hrows]
      exact Coherent.insert h hnew row

theorem step_delete (tenantId : TenantId) :
    step env s (.delete tenantId) = s.deactivate env tenantId := rfl

theorem cacheRight_delete_iff (hright : CacheRight env s) (tenantId : TenantId) :
    CacheRight env (step env s (.delete tenantId)) ↔ Keeps env s (.delete tenantId) := by
  rw [step_delete, Keeps, CacheRight, Store.cached_deactivate, Store.deactivate,
    TenantTable.deactivate]
  cases hrow : s.table.byId tenantId with
  | none =>
      rw [TenantTable.modify_of_absent hrow]
      constructor
      · intro _ row hsome
        cases hsome
      · exact fun _ => hright
  | some row =>
      rw [TenantTable.byHash_modify hrow, coherent_write_iff hright]
      simp only [Option.mem_def, Option.some.injEq, forall_eq']
      cases hcached : s.cached env row.apiKeyHash with
      | none => simp
      | some tenant =>
          simp [reports_setInactive_iff (reports_of_cached hright hrow hcached)]

theorem step_update_error {tenant : Tenant} {e : Python.PyExc}
    (h : encodeColumns env 4 tenant = .error e) : step env s (.update tenant) = s := by
  rw [step, Call.run, finalState_bind_pure, update, EStateM.run_bind,
    run_updateTable_error h]
  rfl

theorem step_update_ok {tenant : Tenant} {columns : TenantColumns}
    (h : encodeColumns env 4 tenant = .ok columns) :
    step env s (.update tenant) =
      (s.assign env tenant.tenantId columns).evict tenant.apiKeyHash := by
  rw [step, Call.run, finalState_bind_pure, update, EStateM.run_bind, run_updateTable_ok h]
  rfl

theorem cacheRight_update_iff (hright : CacheRight env s) (tenant : Tenant) :
    CacheRight env (step env s (.update tenant)) ↔ Keeps env s (.update tenant) := by
  cases hencode : encodeColumns env 4 tenant with
  | error e =>
      rw [step_update_error hencode, Keeps, hencode]
      simp [hright]
  | ok columns =>
      rw [step_update_ok hencode, Keeps, hencode]
      cases hrow : s.table.byId tenant.tenantId with
      | none =>
          have hevicted : CacheRight env
              ((s.assign env tenant.tenantId columns).evict tenant.apiKeyHash) := by
            rw [CacheRight, Store.cached_evict, Store.cached_assign, Store.table_evict,
              Store.assign, TenantTable.assign, TenantTable.modify_of_absent hrow]
            exact Coherent.evict hright
          simp [hevicted]
      | some row =>
          simp only [Option.mem_def, Option.some.injEq, forall_eq', Except.ok.injEq]
          rw [CacheRight, Store.cached_evict, Store.cached_assign, Store.table_evict,
            Store.assign, TenantTable.assign, TenantTable.byHash_modify hrow]
          by_cases hhash : tenant.apiKeyHash = row.apiKeyHash
          · -- the entry that is evicted is the one of the row
            have hevicted := Coherent.writeThenEvict (k := row.apiKeyHash) hright
              (row.setColumns columns (env.now s.ticks))
            simp only [hhash, hevicted, true_or]
          · -- another entry is evicted, and the one of the row stays
            have hkept : Function.update (s.cached env) tenant.apiKeyHash none
                row.apiKeyHash = s.cached env row.apiKeyHash :=
              Function.update_of_ne (Ne.symm hhash) ..
            rw [coherent_write_iff (Coherent.evict hright), hkept]
            simp only [hhash, false_or]
            cases hcached : s.cached env row.apiKeyHash with
            | none => simp
            | some found =>
                simp [reports_setColumns_iff (reports_of_cached hright hrow hcached)]

/-- A call keeps the cache right exactly if it leaves no outdated snapshot. -/
theorem cacheRight_step_iff (hright : CacheRight env s) (call : Call) :
    CacheRight env (step env s call) ↔ Keeps env s call := by
  cases call with
  | save tenant => exact iff_of_true (coherent_save hright tenant) trivial
  | update tenant => exact cacheRight_update_iff hright tenant
  | delete tenantId => exact cacheRight_delete_iff hright tenantId
  | lookup apiKeyHash =>
      obtain ⟨answer, s', hrun, -, -, hkeeps⟩ := run_getByApiKeyHash env s apiKeyHash
      have hstep : step env s (.lookup apiKeyHash) = s' := by
        rw [step, Call.run, finalState_bind_pure, hrun]
        rfl
      rw [hstep]
      exact iff_of_true (hkeeps Reports reports_rowToTenant hright) trivial

end Steps

/-! ## Runs -/

/-- A table and an empty cache. -/
def Store.start (table : TenantTable) : Store where
  table := table
  cache := fun _ => none
  drawn := 0
  ticks := 0

theorem cacheRight_start (table : TenantTable) : CacheRight env (Store.start table) :=
  fun _ => coherentAt_none _

/-- After every call of a run all lookups are right exactly if no call of the
run leaves an outdated snapshot. -/
theorem lookupsRight_iff_keeps (table : TenantTable) (calls : List Call) :
    (∀ t ∈ trace (step env) (Store.start table) calls, LookupsRight env t.after) ↔
      ∀ t ∈ trace (step env) (Store.start table) calls, Keeps env t.before t.input := by
  have hlaw : ∀ s call, CacheRight env s →
      (LookupsRight env (step env s call) ↔ Keeps env s call) := by
    intro s call hright
    rw [lookupsRight_iff]
    exact cacheRight_step_iff hright call
  exact trace_forall_iff (L := fun t => LookupsRight env t.after) (Keeps env) hlaw
    (fun s call _ => (lookupsRight_iff env _).mp) (cacheRight_start env table) calls

/-! ## A deleted tenant -/

section Deleted

variable {env} {s : Store} {row : TenantRow}

/-- What a lookup of an uncached row leaves in the cache. -/
theorem cached_after_lookup (hcached : s.cached env row.apiKeyHash = none)
    (hrow : s.table.byHash row.apiKeyHash = some row)
    (hstorable : Storable env (rowToTenant row (env.uuid4 s.drawn))) :
    (step env s (.lookup row.apiKeyHash)).cached env row.apiKeyHash =
        some (rowToTenant row (env.uuid4 s.drawn)) ∧
      (step env s (.lookup row.apiKeyHash)).table = s.table := by
  have hstep : step env s (.lookup row.apiKeyHash) =
      s.draw.fill env row.apiKeyHash (rowToTenant row (env.uuid4 s.drawn)) := by
    rw [step, Call.run, finalState_bind_pure, run_getByApiKeyHash_of_row hcached hrow]
    rfl
  rw [hstep, Store.cached_fill, if_pos hstorable, Function.update_self, Store.table_fill]
  exact ⟨rfl, rfl⟩

/-- A tenant that is looked up and then deleted is still found active. -/
theorem lookup_of_deleted (hcached : s.cached env row.apiKeyHash = none)
    (hrow : s.table.byHash row.apiKeyHash = some row)
    (hstorable : Storable env (rowToTenant row (env.uuid4 s.drawn))) :
    ∃ s', (getByApiKeyHash env row.apiKeyHash).run
        (step env (step env s (.lookup row.apiKeyHash)) (.delete row.tenantId)) =
      .ok (some (rowToTenant row (env.uuid4 s.drawn))) s' :=
  ⟨_, run_getByApiKeyHash_of_cached (cached_after_lookup hcached hrow hstorable).1⟩

end Deleted

/-- Instants as a signed number of microseconds, and the epoch as pydantic
writes it. -/
def sampleDatetimes : DatetimeJson where
  dump t := String.ofList (
    if t = 0 then ['1', '9', '7', '0', '-', '0', '1', '-', '0', '1', 'T',
      '0', '0', ':', '0', '0', ':', '0', '0', 'Z']
    else if 0 < t then '+' :: Nat.toDigits 10 t.natAbs
    else '-' :: Nat.toDigits 10 t.natAbs)
  read text :=
    match text.toList with
    | '+' :: digits => some (Nat.ofDigitChars 10 digits 0)
    | '-' :: digits => some (-Nat.ofDigitChars 10 digits 0)
    | _ => some 0
  read_dump t := by
    rw [String.toList_ofList]
    by_cases hzero : t = 0
    · simp [hzero]
    · by_cases hpositive : 0 < t
      · simp [hzero, hpositive, Nat.ofDigitChars_ten_toDigits, abs_of_pos]
      · have hnegative : t < 0 := lt_of_le_of_ne (not_lt.mp hpositive) hzero
        simp [hzero, hpositive, Nat.ofDigitChars_ten_toDigits, abs_of_neg, hnegative]

def sampleEnv : Env where
  datetimes := sampleDatetimes
  uuid4 := fun n => ⟨Fin.ofNat _ (n + 2)⟩
  now := fun n => n
  jsonb := .ok

def sampleRow : TenantRow where
  tenantId := ⟨1⟩
  name := "Acme"
  apiKeyHash := "2c26b46b68ffc68ff99b453c1d30413413422d706483bfa0f98a5e886266e7ae"
  plan := .pro
  isActive := true
  tokensUsedThisMonth := 0
  totalTokensUsed := 0
  metadata := Metadata.empty
  createdAt := 0
  updatedAt := 0

def sampleTable : TenantTable where
  rows := KeyedList.empty.upsert sampleRow
  hashes_nodup := List.nodup_singleton _

theorem byHash_sampleTable : sampleTable.byHash sampleRow.apiKeyHash = some sampleRow :=
  sampleTable.byHash_eq_some_iff.mpr ⟨List.mem_singleton.mpr rfl, rfl⟩

theorem storable_sampleRow (id : Uuid) : Storable sampleEnv (rowToTenant sampleRow id) := by
  simp [Storable, Tenant.dumpEntries, rowToTenant, sampleRow, Metadata.empty, KeyedList.empty,
    JsonText.all, JsonText.allEntries, JsonText.fitsDigits, JsonText.maxStrDigits]

/-- After `delete` a lookup returns the tenant that was cached before. -/
theorem not_lookupsRight_delete :
    ¬ ∀ t ∈ trace (step sampleEnv) (Store.start sampleTable)
      [.lookup sampleRow.apiKeyHash, .delete sampleRow.tenantId],
        LookupsRight sampleEnv t.after := by
  intro h
  have hcached : (Store.start sampleTable).cached sampleEnv sampleRow.apiKeyHash = none := rfl
  obtain ⟨hfound, htable⟩ :=
    cached_after_lookup hcached byHash_sampleTable (storable_sampleRow _)
  simp only [trace, List.forall_mem_cons] at h
  obtain ⟨hlookup, hdelete, -⟩ := h
  have hbefore := (lookupsRight_iff _ _).mp hlookup
  have hafter := (lookupsRight_iff _ _).mp hdelete
  have hkeeps := (cacheRight_delete_iff hbefore _).mp hafter sampleRow
    (by rw [htable]; exact TenantTable.byId_of_byHash byHash_sampleTable)
  rw [hfound] at hkeeps
  rcases hkeeps with hnone | hinactive
  · cases hnone
  · cases hinactive

end PostgresTenantRepository
end AiBackend

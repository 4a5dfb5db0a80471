import AiBackend.Infrastructure.TenantRepository
import AiBackend.Support.CacheAside
import AiBackend.Support.JsonRoundTrip
import Mathlib.Logic.Function.Basic

/-!
# The records and snapshots of the tenant repository

The record of an API key is the row with its hash, and the snapshot of it is
the tenant that its cache entry reads as.  Every statement of the repository
is one operation on these two maps.
-/

namespace AiBackend

open Program

/-! ## Rows -/

namespace TenantTable

variable (table : TenantTable) {row : TenantRow} {tenantId : TenantId} {apiKeyHash : String}

/-- The rows by their hashes. -/
def hashed : KeyedList TenantRow.apiKeyHash := ⟨table.rows.items, table.hashes_nodup⟩

theorem byHash_eq_find? : table.byHash apiKeyHash = table.hashed.find? apiKeyHash := rfl

theorem byHash_eq_some_iff :
    table.byHash apiKeyHash = some row ↔
      row ∈ table.rows.items ∧ row.apiKeyHash = apiKeyHash :=
  table.hashed.find?_eq_some_iff

theorem byId_eq_some_iff :
    table.byId tenantId = some row ↔ row ∈ table.rows.items ∧ row.tenantId = tenantId :=
  table.rows.find?_eq_some_iff

variable {table}

/-- The row of an identifier is also the row of its hash. -/
theorem byHash_of_byId (h : table.byId tenantId = some row) :
    table.byHash row.apiKeyHash = some row :=
  table.byHash_eq_some_iff.mpr ⟨(table.byId_eq_some_iff.mp h).1, rfl⟩

theorem byId_of_byHash (h : table.byHash apiKeyHash = some row) :
    table.byId row.tenantId = some row :=
  table.byId_eq_some_iff.mpr ⟨(table.byHash_eq_some_iff.mp h).1, rfl⟩

section Modify

variable {f : TenantRow → TenantRow} {hid : ∀ row, (f row).tenantId = row.tenantId}
  {hhash : ∀ row, (f row).apiKeyHash = row.apiKeyHash}

theorem byId_modify_self (hid : ∀ row, (f row).tenantId = row.tenantId)
    (hhash : ∀ row, (f row).apiKeyHash = row.apiKeyHash)
    (h : table.byId tenantId = some row) :
    (table.modify tenantId f hid hhash).byId tenantId = some (f row) := by
  have hfind := KeyedList.find?_modify table.rows tenantId tenantId f hid
  rw [if_pos rfl] at hfind
  exact hfind.trans (congrArg (Option.map f) h)

theorem modify_of_absent (h : table.byId tenantId = none) :
    table.modify tenantId f hid hhash = table := by
  have hitems : (table.rows.modify tenantId f hid).items = table.rows.items := by
    refine (List.map_congr_left ?_).trans (List.map_id _)
    intro row hrow
    exact if_neg (table.rows.find?_eq_none_iff.mp h row hrow)
  cases table with
  | mk rows hashes_nodup =>
      simp only [modify, TenantTable.mk.injEq]
      exact KeyedList.ext hitems

/-- An update by identifier is one by hash. -/
theorem byHash_modify (h : table.byId tenantId = some row) :
    (table.modify tenantId f hid hhash).byHash =
      Function.update table.byHash row.apiKeyHash (some (f row)) := by
  have hrow := (table.byId_eq_some_iff.mp h).1
  have hitems : (table.modify tenantId f hid hhash).hashed =
      table.hashed.modify row.apiKeyHash f hhash := by
    apply KeyedList.ext
    apply List.map_congr_left
    intro other hother
    by_cases hsame : other = row
    · rw [hsame, if_pos (table.byId_eq_some_iff.mp h).2, if_pos rfl]
    · have hotherId : other.tenantId ≠ tenantId := by
        intro hothersId
        have hfound := table.byId_eq_some_iff.mpr ⟨hother, hothersId⟩
        exact hsame (Option.some.inj (hfound.symm.trans h))
      have hotherHash : other.apiKeyHash ≠ row.apiKeyHash := by
        intro hothersHash
        exact hsame (List.inj_on_of_nodup_map table.hashes_nodup hother hrow hothersHash)
      rw [if_neg hotherId, if_neg hotherHash]
  funext other
  rw [byHash_eq_find?, hitems, KeyedList.find?_modify, ← byHash_eq_find?,
    byHash_of_byId h, Option.map_some]
  by_cases hother : other = row.apiKeyHash
  · rw [if_pos hother, hother, Function.update_self]
  · rw [if_neg hother, Function.update_of_ne hother, byHash_eq_find?]

end Modify

theorem insert_of_taken (h : row.tenantId ∈ table.rows.items.map TenantRow.tenantId) :
    table.insert row = .ok table := if_pos h

theorem byHash_insert {table' : TenantTable}
    (hid : row.tenantId ∉ table.rows.items.map TenantRow.tenantId)
    (h : table.insert row = .ok table') :
    table.byHash row.apiKeyHash = none ∧
      table'.byHash = Function.update table.byHash row.apiKeyHash (some row) := by
  rw [insert, if_neg hid] at h
  split at h
  next => cases h
  next hhash =>
    obtain rfl := Except.ok.inj h
    have habsent : table.byHash row.apiKeyHash = none := by
      rw [byHash_eq_find?, KeyedList.find?_eq_none_iff]
      exact fun other hother hsame => hhash (List.mem_map.mpr ⟨other, hother, hsame⟩)
    refine ⟨habsent, ?_⟩
    have hitems : (table.rows.insertNew row).items = (table.hashed.upsert row).items := by
      rw [KeyedList.insertNew, if_neg hid, KeyedList.upsert, KeyedList.upsert]
      exact (if_neg hid).trans (if_neg hhash).symm
    funext other
    calc
      ((table.rows.insertNew row).items.find? fun found => found.apiKeyHash = other) =
          (table.hashed.upsert row).find? other := by rw [hitems]; rfl
      _ = Function.update table.byHash row.apiKeyHash (some row) other := by
        rw [KeyedList.find?_upsert]
        by_cases hother : other = row.apiKeyHash
        · rw [if_pos hother, hother, Function.update_self]
        · rw [if_neg hother, Function.update_of_ne hother, byHash_eq_find?]

end TenantTable

namespace PostgresTenantRepository

/-! ## Cache entries -/

theorem cacheKey_injective : Function.Injective cacheKey := by
  intro a b h
  have htext : "tenant:key:".toList ++ a.toList = "tenant:key:".toList ++ b.toList := by
    rw [← String.toList_append, ← String.toList_append]
    exact congrArg String.toList h
  exact String.toList_inj.mp (List.append_cancel_left htext)

variable (env : Env)

/-- The dictionary of the tenant can be written as a text. -/
def Storable (tenant : Tenant) : Prop :=
  JsonText.all JsonText.fitsDigits (.dict (tenant.dumpEntries env.datetimes)) = true

instance (tenant : Tenant) : Decidable (Storable env tenant) :=
  inferInstanceAs (Decidable (_ = _))

/-- The text of a tenant in the cache. -/
def entryText (tenant : Tenant) : String :=
  String.ofList (JsonText.text (.dict (tenant.dumpEntries env.datetimes)))

theorem isPythonValue_dumpEntries (tenant : Tenant) :
    JsonText.all JsonText.isPythonValue (.dict (tenant.dumpEntries env.datetimes)) =
      true := by
  have hvalued : JsonText.all JsonText.isPythonValue
      (.dict tenant.metadata.entries.items) = true := tenant.metadata.valued
  have hkeys : JsonText.isPythonValue (.dict (tenant.dumpEntries env.datetimes)) = true := by
    simp [Tenant.dumpEntries, JsonText.isPythonValue]
  rw [JsonText.all, hkeys]
  simp only [Tenant.dumpEntries, JsonText.allEntries, hvalued]
  rfl

/-- A tenant that is written back is read as it was. -/
theorem readEntry_entryText {tenant : Tenant} (h : Storable env tenant) :
    readEntry env (entryText env tenant) = some tenant := by
  have hread := JsonText.loads_of_dumps (isPythonValue_dumpEntries env tenant) (if_pos h)
  rw [readEntry, entryText, hread]
  exact readTenant_dumpEntries env.datetimes tenant

namespace Store

variable (s : Store) (apiKeyHash : String) (tenant : Tenant)

/-- The snapshot under an API key. -/
def cached : Option Tenant := (s.cache (cacheKey apiKeyHash)).bind (readEntry env)

/-- The store after an identifier has been drawn. -/
def draw : Store := { s with drawn := s.drawn + 1 }

/-- The store after a write-back. -/
def fill : Store :=
  if Storable env tenant then
    { s with
      cache := Function.update s.cache (cacheKey apiKeyHash) (some (entryText env tenant)) }
  else s

def evict : Store :=
  { s with cache := Function.update s.cache (cacheKey apiKeyHash) none }

/-- The store after the `UPDATE` of `update`. -/
def assign (tenantId : TenantId) (columns : TenantColumns) : Store :=
  { s with
    table := s.table.assign tenantId (env.now s.ticks) columns
    ticks := s.ticks + 1 }

/-- The store after `delete`. -/
def deactivate (tenantId : TenantId) : Store :=
  { s with
    table := s.table.deactivate tenantId (env.now s.ticks)
    ticks := s.ticks + 1 }

@[simp] theorem table_draw : s.draw.table = s.table := rfl

@[simp] theorem cached_draw : s.draw.cached env = s.cached env := rfl

@[simp] theorem table_fill : (s.fill env apiKeyHash tenant).table = s.table := by
  unfold fill
  split
  · rfl
  · rfl

@[simp] theorem table_evict : (s.evict apiKeyHash).table = s.table := rfl

@[simp] theorem cached_assign (tenantId : TenantId) (columns : TenantColumns) :
    (s.assign env tenantId columns).cached env = s.cached env := rfl

@[simp] theorem cached_deactivate (tenantId : TenantId) :
    (s.deactivate env tenantId).cached env = s.cached env := rfl

theorem byId_assign {row : TenantRow} {tenantId : TenantId}
    (hrow : s.table.byId tenantId = some row) (columns : TenantColumns) :
    (s.assign env tenantId columns).table.byId tenantId =
      some (row.setColumns columns (env.now s.ticks)) :=
  TenantTable.byId_modify_self _ (TenantRow.apiKeyHash_setColumns columns _) hrow

theorem byHash_assign {row : TenantRow} (hrow : s.table.byHash apiKeyHash = some row)
    (columns : TenantColumns) :
    (s.assign env row.tenantId columns).table.byHash apiKeyHash =
      some (row.setColumns columns (env.now s.ticks)) := by
  have hhash := (s.table.byHash_eq_some_iff.mp hrow).2
  rw [assign, TenantTable.assign, TenantTable.byHash_modify (TenantTable.byId_of_byHash hrow),
    ← hhash, Function.update_self]

theorem cached_of_entry (entry : Option String) :
    ({ s with cache := Function.update s.cache (cacheKey apiKeyHash) entry } : Store).cached
        env =
      Function.update (s.cached env) apiKeyHash (entry.bind (readEntry env)) := by
  funext other
  by_cases hother : other = apiKeyHash
  · rw [hother, Function.update_self, cached]
    exact congrArg (Option.bind · (readEntry env)) (Function.update_self ..)
  · rw [Function.update_of_ne hother, cached, cached]
    refine congrArg (Option.bind · (readEntry env)) (Function.update_of_ne ?_ ..)
    exact fun hkey => hother (cacheKey_injective hkey)

theorem cached_fill :
    (s.fill env apiKeyHash tenant).cached env =
      if Storable env tenant then Function.update (s.cached env) apiKeyHash (some tenant)
      else s.cached env := by
  unfold fill
  split
  next h =>
    rw [cached_of_entry, Option.bind_some, readEntry_entryText env h]
  next => rfl

@[simp] theorem cached_evict :
    (s.evict apiKeyHash).cached env = Function.update (s.cached env) apiKeyHash none :=
  s.cached_of_entry env apiKeyHash none

end Store

/-! ## Statements -/

section Statements

variable {env} {s : Store} {apiKeyHash : String} {tenant : Tenant}

theorem run_lookupCache :
    (lookupCache env apiKeyHash).run s = .ok (s.cached env apiKeyHash) s := rfl

theorem run_fetch_none {query : TenantTable → Option TenantRow}
    (h : query s.table = none) : (fetch env query).run s = .ok none s := by
  rw [fetch, EStateM.run_bind, EStateM.run_get]
  simp only [h]
  rfl

theorem run_fetch_some {query : TenantTable → Option TenantRow} {row : TenantRow}
    (h : query s.table = some row) :
    (fetch env query).run s = .ok (some (rowToTenant row (env.uuid4 s.drawn))) s.draw := by
  rw [fetch, EStateM.run_bind, EStateM.run_get]
  simp only [h]
  rfl

theorem run_writeBack :
    (writeBack env apiKeyHash tenant).run s = .ok () (s.fill env apiKeyHash tenant) := by
  by_cases h : Storable env tenant
  · have hdumps : JsonText.dumps (.dict (tenant.dumpEntries env.datetimes)) =
        .ok (entryText env tenant) := if_pos h
    rw [writeBack, hdumps, Store.fill, if_pos h]
    rfl
  · have hdumps : ∃ e, JsonText.dumps (.dict (tenant.dumpEntries env.datetimes)) =
        .error e := ⟨_, if_neg h⟩
    obtain ⟨e, hdumps⟩ := hdumps
    rw [writeBack, hdumps, Store.fill, if_neg h]
    rfl

theorem run_invalidate : (invalidate apiKeyHash).run s = .ok () (s.evict apiKeyHash) := rfl

/-- An update is refused before it has written anything. -/
theorem run_updateTable_error {e : Python.PyExc} (h : encodeColumns env 4 tenant = .error e) :
    (updateTable env tenant).run s = .error (.exception e) s := by
  rw [updateTable, h]
  rfl

theorem run_updateTable_ok {columns : TenantColumns}
    (h : encodeColumns env 4 tenant = .ok columns) :
    (updateTable env tenant).run s = .ok () (s.assign env tenant.tenantId columns) := by
  rw [updateTable, h]
  rfl

end Statements

end PostgresTenantRepository
end AiBackend

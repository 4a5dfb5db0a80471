import AiBackend.Infrastructure.DocumentTable
import AiBackend.Tenancy.CacheCoherence

/-!
# Entities that are saved and read back

What `save` passes to the database and what the row decoders make of it, with
the two columns that hold texts: the enumeration value and the JSON text of
the metadata.  Every field comes back as it was except the identity: no column
carries it, and the decoder's constructor draws a new one.
-/

namespace AiBackend

open Program Python Run CacheAside

/-! ## The metadata column -/

/-- `json.dumps(metadata)`. -/
def metadataParam (metadata : Dict Json) : Except PyExc String :=
  JsonText.dumps (.dict metadata.items)

/-- `json.loads(row["metadata"]) if row["metadata"] else {}`. -/
def metadataOf (text : String) : Option (Dict Json) :=
  if text = "" then some KeyedList.empty
  else
    match JsonText.loads text with
    | some (.dict items) => some (Dict.ofPairs items)
    | _ => none

/-- The values of a dictionary are JSON values as Python has them. -/
def JsonValued (metadata : Dict Json) : Prop :=
  JsonText.all JsonText.isPythonValue (.dict metadata.items) = true

instance JsonValued.decidable (metadata : Dict Json) : Decidable (JsonValued metadata) :=
  inferInstanceAs (Decidable (_ = _))

theorem metadataOf_metadataParam {metadata : Dict Json} (hvalued : JsonValued metadata)
    {text : String} (h : metadataParam metadata = .ok text) :
    metadataOf text = some metadata := by
  have hloads := JsonText.loads_of_dumps hvalued h
  have hne : text ≠ "" := by
    intro hempty
    have hnone : JsonText.loads "" = none := rfl
    rw [hempty, hnone] at hloads
    cases hloads
  rw [metadataOf, if_neg hne, hloads]
  exact congrArg some (KeyedList.ext (Dict.items_ofPairs metadata.nodup))

/-! ## Documents -/

/-- The columns of `documents`, as `save` passes them and as a row holds
them. -/
structure DocumentColumns where
  documentId : DocumentId
  tenantId : TenantId
  collectionId : CollectionId
  title : String
  content : String
  contentType : String
  contentHash : String
  status : String
  chunkCount : ℤ
  tokenCount : ℤ
  errorMessage : Option String
  metadata : String
  createdAt : Timestamp
  updatedAt : Timestamp

/-- The table as the database has it; `document_id` is unique. -/
abbrev DocumentColumnTable := KeyedList DocumentColumns.documentId

namespace PostgresDocumentRepository

/-- The arguments of the `INSERT` statement. -/
def saveColumns (contentHash : String → String) (document : Document) :
    Except PyExc DocumentColumns := do
  let metadata ← metadataParam document.metadata
  pure {
    documentId := document.documentId
    tenantId := document.tenantId
    collectionId := document.collectionId
    title := document.title
    content := document.content
    contentType := document.contentType
    contentHash := contentHash document.content
    status := document.status.value
    chunkCount := document.chunkCount
    tokenCount := document.tokenCount
    errorMessage := document.errorMessage
    metadata := metadata
    createdAt := document.createdAt
    updatedAt := document.updatedAt }

/-- `_row_to_document`; none if it raises.  The identity is a default of the
constructor. -/
def columnsToDocument (columns : DocumentColumns) (id : Uuid) : Option Document := do
  let status ← DocumentStatus.ofValue columns.status
  let metadata ← metadataOf columns.metadata
  some {
    id := id
    createdAt := columns.createdAt
    updatedAt := columns.updatedAt
    tenantId := columns.tenantId
    documentId := columns.documentId
    collectionId := columns.collectionId
    title := columns.title
    content := columns.content
    contentType := columns.contentType
    metadata := metadata
    status := status
    chunkCount := columns.chunkCount
    tokenCount := columns.tokenCount
    errorMessage := columns.errorMessage }

/-- `save`, with the columns that are stored. -/
def saveInto (contentHash : String → String) (table : DocumentColumnTable)
    (document : Document) : Except PyExc DocumentColumnTable := do
  let columns ← saveColumns contentHash document
  pure (table.insertNew columns)

/-- `get_by_id`; none if there is no row, or if its decoder raises. -/
def readById (table : DocumentColumnTable) (documentId : DocumentId) (id : Uuid) :
    Option Document :=
  (table.find? documentId).bind fun columns => columnsToDocument columns id

/-- The columns of a row decode to the document of the row. -/
theorem columnsToDocument_saveColumns {contentHash : String → String} {document : Document}
    (hvalued : JsonValued document.metadata) {columns : DocumentColumns}
    (h : saveColumns contentHash document = .ok columns) (id : Uuid) :
    columnsToDocument columns id =
      some (rowToDocument (newRow contentHash document) id) := by
  cases hparam : metadataParam document.metadata with
  | error e =>
      rw [saveColumns, hparam] at h
      cases h
  | ok text =>
      rw [saveColumns, hparam] at h
      obtain rfl := Except.ok.inj h
      simp only [columnsToDocument, DocumentStatus.ofValue_value,
        metadataOf_metadataParam hvalued hparam, Option.bind_eq_bind, Option.bind_some]
      rfl

/-- A document that is read back differs from the saved one in its identity
only. -/
theorem readById_saveInto {contentHash : String → String} {table table' : DocumentColumnTable}
    {document : Document} (hvalued : JsonValued document.metadata)
    (hnew : table.find? document.documentId = none)
    (h : saveInto contentHash table document = .ok table') (id : Uuid) :
    readById table' document.documentId id = some { document with id := id } := by
  cases hcolumns : saveColumns contentHash document with
  | error e =>
      rw [saveInto, hcolumns] at h
      cases h
  | ok columns =>
      rw [saveInto, hcolumns] at h
      obtain rfl := Except.ok.inj h
      have hid : columns.documentId = document.documentId := by
        obtain ⟨_, _, hpure⟩ := except_bind_eq_ok_iff.mp hcolumns
        rw [← Except.ok.inj hpure]
      have hfind : (table.insertNew columns).find? document.documentId = some columns := by
        rw [KeyedList.find?_insertNew, if_pos hid.symm, hnew, Option.getD_none]
      rw [readById, hfind, Option.bind_some, columnsToDocument_saveColumns hvalued hcolumns]
      rfl

end PostgresDocumentRepository

/-! ## Tenants -/

/-- The columns of `tenants` that hold texts. -/
structure TenantTexts where
  plan : String
  metadata : String

namespace PostgresTenantRepository

/-- `tenant.plan.value` and `json.dumps(tenant.metadata)`. -/
def saveTexts (tenant : Tenant) : Except PyExc TenantTexts := do
  let metadata ← metadataParam tenant.metadata.entries
  pure ⟨tenant.plan.value, metadata⟩

/-- The two texts are read as the plan and the dictionary they were written
for. -/
theorem texts_readBack {tenant : Tenant} {texts : TenantTexts}
    (h : saveTexts tenant = .ok texts) :
    TenantPlan.ofValue texts.plan = some tenant.plan ∧
      metadataOf texts.metadata = some tenant.metadata.entries := by
  obtain ⟨text, hparam, hpure⟩ := except_bind_eq_ok_iff.mp h
  obtain rfl := Except.ok.inj hpure
  exact ⟨TenantPlan.ofValue_value _, metadataOf_metadataParam tenant.metadata.valued hparam⟩

/-- The row of a tenant whose columns the database keeps as they are. -/
def plainRow (tenant : Tenant) : TenantRow where
  tenantId := tenant.tenantId
  name := tenant.name
  apiKeyHash := tenant.apiKeyHash
  plan := tenant.plan
  isActive := tenant.isActive
  tokensUsedThisMonth := tenant.tokensUsedThisMonth
  totalTokensUsed := tenant.totalTokensUsed
  metadata := tenant.metadata
  createdAt := tenant.createdAt
  updatedAt := tenant.updatedAt

theorem rowToTenant_plainRow (tenant : Tenant) (id : Uuid) :
    rowToTenant (plainRow tenant) id = { tenant with id := id } := rfl

variable (env : Env)

/-- The database returns the columns of the tenant unchanged. -/
def KeepsColumns (tenant : Tenant) : Prop :=
  ∀ row, newRow env tenant = .ok row → row = plainRow tenant

variable {env}

/-- What a save that returns has done. -/
theorem exists_of_run_save {s s' : Store} {tenant answer : Tenant}
    (h : (save env tenant).run s = .ok answer s') :
    ∃ row table', newRow env tenant = .ok row ∧ s.table.insert row = .ok table' ∧
      s' = { s with table := table' } := by
  cases hrow : newRow env tenant with
  | error e =>
      rw [save, hrow] at h
      cases h
  | ok row =>
      rw [save, hrow] at h
      change (ofExcept (s.table.insert row) >>= fun table => _).run s = .ok answer s' at h
      cases hinsert : s.table.insert row with
      | error e =>
          rw [hinsert] at h
          cases h
      | ok table' =>
          rw [hinsert] at h
          injection h with _ hstate
          exact ⟨row, table', rfl, hinsert, hstate.symm⟩

/-! ### Reads after a save -/

/-- The two lookups. -/
inductive Lookup where
  | byId
  | byApiKeyHash

/-- A lookup of a tenant. -/
def Lookup.run (env : Env) (tenant : Tenant) : Lookup → Prog (Option Tenant)
  | .byId => getById env tenant.tenantId
  | .byApiKeyHash => getByApiKeyHash env tenant.apiKeyHash

/-- The store after a lookup. -/
def lookupStep (env : Env) (tenant : Tenant) (s : Store) (lookup : Lookup) : Store :=
  finalState ((lookup.run env tenant).run s)

/-- A lookup gives the tenant back: equal to it, and with the same fields. -/
def GivesBack (env : Env) (tenant : Tenant) (s : Store) (lookup : Lookup) : Prop :=
  ∃ found s', (lookup.run env tenant).run s = .ok (some found) s' ∧
    found.toEntity.IsEqual tenant.toEntity ∧ found = tenant

/-- The lookup is answered from the cache, or the identity that the decoder
draws happens to be the one of the tenant. -/
def KeepsIdentity (env : Env) (tenant : Tenant) (s : Store) : Lookup → Prop
  | .byId => env.uuid4 s.drawn = tenant.id
  | .byApiKeyHash => s.cached env tenant.apiKeyHash ≠ none ∨ env.uuid4 s.drawn = tenant.id

/-- The row of the tenant is there, and in the cache is the tenant or
nothing. -/
structure Saved (env : Env) (tenant : Tenant) (s : Store) : Prop where
  byId : s.table.byId tenant.tenantId = some (plainRow tenant)
  byHash : s.table.byHash tenant.apiKeyHash = some (plainRow tenant)
  cached : ∀ found ∈ s.cached env tenant.apiKeyHash, found = tenant

section Lookups

variable {s : Store} {tenant : Tenant}

theorem run_byId (hsaved : Saved env tenant s) :
    (Lookup.byId.run env tenant).run s =
      .ok (some { tenant with id := env.uuid4 s.drawn }) s.draw := by
  rw [Lookup.run, getById, run_fetch_some hsaved.byId, rowToTenant_plainRow]

theorem run_byApiKeyHash_of_absent (hsaved : Saved env tenant s)
    (hcached : s.cached env tenant.apiKeyHash = none) :
    (Lookup.byApiKeyHash.run env tenant).run s =
      .ok (some { tenant with id := env.uuid4 s.drawn })
        (s.draw.fill env tenant.apiKeyHash { tenant with id := env.uuid4 s.drawn }) := by
  rw [Lookup.run, run_getByApiKeyHash_of_row hcached hsaved.byHash, rowToTenant_plainRow]

theorem id_of_givesBack {id : Uuid} {s' : Store} {lookup : Lookup}
    (hrun : (lookup.run env tenant).run s = .ok (some { tenant with id := id }) s') :
    GivesBack env tenant s lookup ↔ id = tenant.id := by
  rw [GivesBack, hrun]
  constructor
  · rintro ⟨found, _, hsame, hequal, -⟩
    injection hsame with hfound
    rw [← Option.some.inj hfound] at hequal
    exact hequal
  · rintro rfl
    exact ⟨tenant, s', rfl, rfl, rfl⟩

/-- A lookup gives the saved tenant back exactly if it keeps its identity. -/
theorem givesBack_iff (hsaved : Saved env tenant s) (lookup : Lookup) :
    GivesBack env tenant s lookup ↔ KeepsIdentity env tenant s lookup := by
  cases lookup with
  | byId => exact id_of_givesBack (run_byId hsaved)
  | byApiKeyHash =>
      cases hcached : s.cached env tenant.apiKeyHash with
      | some found =>
          obtain rfl := hsaved.cached found hcached
          have hrun : (Lookup.byApiKeyHash.run env found).run s = .ok (some found) s :=
            run_getByApiKeyHash_of_cached hcached
          simp only [KeepsIdentity, hcached, ne_eq, reduceCtorEq, not_false_eq_true,
            true_or, iff_true]
          exact ⟨found, s, hrun, rfl, rfl⟩
      | none =>
          rw [id_of_givesBack (run_byApiKeyHash_of_absent hsaved hcached), KeepsIdentity,
            hcached]
          simp

/-- A lookup that gives the tenant back leaves it as saved. -/
theorem saved_lookupStep (hsaved : Saved env tenant s) {lookup : Lookup}
    (h : GivesBack env tenant s lookup) :
    Saved env tenant (lookupStep env tenant s lookup) := by
  cases lookup with
  | byId =>
      rw [lookupStep, run_byId hsaved, finalState_ok]
      exact ⟨hsaved.byId, hsaved.byHash, hsaved.cached⟩
  | byApiKeyHash =>
      cases hcached : s.cached env tenant.apiKeyHash with
      | some found =>
          rw [lookupStep, Lookup.run, run_getByApiKeyHash_of_cached hcached, finalState_ok]
          exact hsaved
      | none =>
          have hrun := run_byApiKeyHash_of_absent hsaved hcached
          have hid := (id_of_givesBack hrun).mp h
          rw [lookupStep, hrun, finalState_ok, hid]
          refine ⟨?_, ?_, ?_⟩
          · rw [Store.table_fill]
            exact hsaved.byId
          · rw [Store.table_fill]
            exact hsaved.byHash
          · rw [Store.cached_fill]
            split
            · simp
            · exact hsaved.cached

end Lookups

/-! ### The saved row -/

/-- Nothing is cached under a hash that no row has. -/
def CacheBacked (env : Env) (s : Store) : Prop :=
  Coherent (fun _ _ => True) s.table.byHash (s.cached env)

theorem cacheBacked_write {s : Store} (h : CacheBacked env s) (tenantId : TenantId)
    {f : TenantRow → TenantRow} (hid : ∀ row, (f row).tenantId = row.tenantId)
    (hhash : ∀ row, (f row).apiKeyHash = row.apiKeyHash) :
    Coherent (fun _ _ => True) (s.table.modify tenantId f hid hhash).byHash
      (s.cached env) := by
  cases hrow : s.table.byId tenantId with
  | none =>
      rw [TenantTable.modify_of_absent hrow]
      exact h
  | some row =>
      rw [TenantTable.byHash_modify hrow, coherent_write_iff h]
      exact fun _ _ => trivial

/-- Every call of the repository keeps the cache backed by rows. -/
theorem cacheBacked_step {s : Store} (h : CacheBacked env s) (call : Call) :
    CacheBacked env (step env s call) := by
  cases call with
  | save tenant => exact coherent_save h tenant
  | update tenant =>
      cases hencode : encodeColumns env 4 tenant with
      | error e =>
          rw [step_update_error hencode]
          exact h
      | ok columns =>
          rw [step_update_ok hencode, CacheBacked, Store.cached_evict, Store.cached_assign,
            Store.table_evict]
          exact Coherent.evict (cacheBacked_write h tenant.tenantId
            (TenantRow.tenantId_setColumns columns _)
            (TenantRow.apiKeyHash_setColumns columns _))
  | delete tenantId =>
      rw [step_delete, CacheBacked, Store.cached_deactivate]
      exact cacheBacked_write h tenantId (TenantRow.tenantId_setInactive _)
        (TenantRow.apiKeyHash_setInactive _)
  | lookup apiKeyHash =>
      obtain ⟨answer, s', hrun, -, -, hkeeps⟩ := run_getByApiKeyHash env s apiKeyHash
      have hstep : step env s (.lookup apiKeyHash) = s' := by
        rw [step, Call.run, finalState_bind_pure, hrun]
        rfl
      rw [hstep]
      exact hkeeps _ (fun _ _ => trivial) h

theorem cacheBacked_final (env : Env) (table : TenantTable) (calls : List Call) :
    CacheBacked env (final (step env) (Store.start table) calls) :=
  final_of_steps (I := CacheBacked env) (fun _ _ => True)
    (fun _ call h _ => cacheBacked_step h call) (fun _ => coherentAt_none _)
    fun _ _ => trivial

/-- A save under a new identifier leaves the row of the tenant. -/
theorem saved_of_run_save {s s' : Store} {tenant answer : Tenant} (hbacked : CacheBacked env s)
    (hkeeps : KeepsColumns env tenant) (hnew : s.table.byId tenant.tenantId = none)
    (h : (save env tenant).run s = .ok answer s') : Saved env tenant s' := by
  obtain ⟨row, table', hrow, hinsert, rfl⟩ := exists_of_run_save h
  obtain rfl := hkeeps row hrow
  have hid : (plainRow tenant).tenantId ∉ s.table.rows.items.map TenantRow.tenantId := by
    intro hmem
    obtain ⟨other, hother, hsame⟩ := List.mem_map.mp hmem
    exact s.table.rows.find?_eq_none_iff.mp hnew other hother hsame
  obtain ⟨hhash, hbyHash⟩ := TenantTable.byHash_insert hid hinsert
  have hfound : table'.byHash tenant.apiKeyHash = some (plainRow tenant) := by
    rw [hbyHash]
    exact Function.update_self ..
  refine ⟨TenantTable.byId_of_byHash hfound, hfound, ?_⟩
  have hcached : s.cached env tenant.apiKeyHash = none := by
    have hbacked := hbacked tenant.apiKeyHash
    rw [show s.table.byHash tenant.apiKeyHash = none from hhash] at hbacked
    exact hbacked.cached_eq_none
  intro found hmem
  change found ∈ s.cached env tenant.apiKeyHash at hmem
  rw [hcached] at hmem
  cases hmem

/-- Lookups of a saved tenant all give it back exactly if each of them keeps
its identity. -/
theorem lookups_giveBack_iff {s : Store} {tenant : Tenant} (hsaved : Saved env tenant s)
    (lookups : List Lookup) :
    (∀ t ∈ trace (lookupStep env tenant) s lookups,
        GivesBack env tenant t.before t.input) ↔
      ∀ t ∈ trace (lookupStep env tenant) s lookups,
        KeepsIdentity env tenant t.before t.input :=
  trace_forall_iff (I := Saved env tenant)
    (L := fun t => GivesBack env tenant t.before t.input) (KeepsIdentity env tenant)
    (fun _ lookup hsaved => givesBack_iff hsaved lookup)
    (fun _ _ hsaved h => saved_lookupStep hsaved h) hsaved lookups

end PostgresTenantRepository

/-! ## The round trip -/

/-- A read gives the document back: equal to it, and with the same fields. -/
def PostgresDocumentRepository.GivesBack (document : Document) (read : Option Document) :
    Prop :=
  ∃ found, read = some found ∧ found.toEntity.IsEqual document.toEntity ∧ found = document

/-- After a save into a table without a row for it, the reads of a document
give it back exactly if every identity that a decoder draws is the one of the
document; and likewise for a tenant, except where the cache answers. -/
theorem reads_giveBack_iff (contentHash : String → String)
    (table table' : DocumentColumnTable) (document : Document)
    (env : PostgresTenantRepository.Env) (tenants : TenantTable)
    (calls : List PostgresTenantRepository.Call) (tenant answer : Tenant)
    (s' : PostgresTenantRepository.Store) :
    (JsonValued document.metadata → table.find? document.documentId = none →
      PostgresDocumentRepository.saveInto contentHash table document = .ok table' →
      ∀ ids : List Uuid,
        (∀ id ∈ ids, PostgresDocumentRepository.GivesBack document
          (PostgresDocumentRepository.readById table' document.documentId id)) ↔
          ∀ id ∈ ids, id = document.id) ∧
    (PostgresTenantRepository.KeepsColumns env tenant →
      (final (PostgresTenantRepository.step env)
        (PostgresTenantRepository.Store.start tenants) calls).table.byId tenant.tenantId =
          none →
      (PostgresTenantRepository.save env tenant).run
        (final (PostgresTenantRepository.step env)
          (PostgresTenantRepository.Store.start tenants) calls) = .ok answer s' →
      ∀ lookups : List PostgresTenantRepository.Lookup,
        (∀ t ∈ trace (PostgresTenantRepository.lookupStep env tenant) s' lookups,
          PostgresTenantRepository.GivesBack env tenant t.before t.input) ↔
          ∀ t ∈ trace (PostgresTenantRepository.lookupStep env tenant) s' lookups,
            PostgresTenantRepository.KeepsIdentity env tenant t.before t.input) := by
  constructor
  · intro hvalued hnew hsave ids
    refine forall₂_congr fun id _ => ?_
    rw [PostgresDocumentRepository.GivesBack,
      PostgresDocumentRepository.readById_saveInto hvalued hnew hsave]
    constructor
    · rintro ⟨found, hfound, hequal, -⟩
      rw [← Option.some.inj hfound] at hequal
      exact hequal
    · rintro rfl
      exact ⟨document, rfl, rfl, rfl⟩
  · intro hkeeps hnew hsave lookups
    have hbacked := PostgresTenantRepository.cacheBacked_final env tenants calls
    exact PostgresTenantRepository.lookups_giveBack_iff
      (PostgresTenantRepository.saved_of_run_save hbacked hkeeps hnew hsave) lookups

/-! ## A document and a tenant -/

def sampleNote : Document where
  id := ⟨1⟩
  createdAt := 0
  updatedAt := 0
  tenantId := ⟨2⟩
  documentId := ⟨3⟩
  collectionId := ⟨4⟩
  title := "Notes"
  content := "First line"

/-- The draw of the sample environment is the identity of the tenant. -/
def sampleTenant : Tenant := PostgresTenantRepository.rowToTenant
  PostgresTenantRepository.sampleRow (PostgresTenantRepository.sampleEnv.uuid4 0)

theorem saveInto_sampleNote :
    ∃ table', PostgresDocumentRepository.saveInto id KeyedList.empty sampleNote =
      .ok table' := ⟨_, rfl⟩

theorem keepsColumns_sampleTenant :
    PostgresTenantRepository.KeepsColumns PostgresTenantRepository.sampleEnv
      sampleTenant := by
  intro row hrow
  have hplain : PostgresTenantRepository.newRow PostgresTenantRepository.sampleEnv
      sampleTenant = .ok (PostgresTenantRepository.plainRow sampleTenant) := rfl
  exact Except.ok.inj (hrow.symm.trans hplain)

/-- Read under its own identity a document is given back, and so is a tenant
that is looked up by its key. -/
theorem reads_giveBack_sample :
    (∃ table', PostgresDocumentRepository.saveInto id KeyedList.empty sampleNote =
        .ok table' ∧
      PostgresDocumentRepository.GivesBack sampleNote
        (PostgresDocumentRepository.readById table' sampleNote.documentId ⟨1⟩)) ∧
    ∃ s', (PostgresTenantRepository.save PostgresTenantRepository.sampleEnv
        sampleTenant).run
          (PostgresTenantRepository.Store.start TenantTable.empty) =
        .ok sampleTenant s' ∧
      PostgresTenantRepository.GivesBack PostgresTenantRepository.sampleEnv sampleTenant s'
        .byApiKeyHash := by
  obtain ⟨table', hsave⟩ := saveInto_sampleNote
  obtain ⟨hdocument, htenant⟩ := reads_giveBack_iff id KeyedList.empty table' sampleNote
    PostgresTenantRepository.sampleEnv TenantTable.empty [] sampleTenant sampleTenant
    (finalState ((PostgresTenantRepository.save PostgresTenantRepository.sampleEnv
      sampleTenant).run (PostgresTenantRepository.Store.start TenantTable.empty)))
  constructor
  · exact ⟨table', hsave, (hdocument (by decide) (by decide) hsave [⟨1⟩]).mpr (by decide) ⟨1⟩
      (List.mem_singleton.mpr rfl)⟩
  · exact ⟨_, rfl, (htenant keepsColumns_sampleTenant rfl rfl [.byApiKeyHash]).mpr
      (List.forall_mem_singleton.mpr (.inr rfl)) _ (List.mem_singleton.mpr rfl)⟩

/-- A document that is read back under a fresh identity is not equal to the
saved one. -/
theorem not_givesBack_fresh :
    ∃ table', PostgresDocumentRepository.saveInto id KeyedList.empty sampleNote =
        .ok table' ∧
      ¬ PostgresDocumentRepository.GivesBack sampleNote
        (PostgresDocumentRepository.readById table' sampleNote.documentId ⟨5⟩) := by
  obtain ⟨table', hsave⟩ := saveInto_sampleNote
  refine ⟨table', hsave, ?_⟩
  rintro ⟨found, hfound, hequal, -⟩
  have hread : PostgresDocumentRepository.readById table' sampleNote.documentId ⟨5⟩ =
      some { sampleNote with id := ⟨5⟩ } :=
    PostgresDocumentRepository.readById_saveInto (by decide) (by decide) hsave ⟨5⟩
  rw [hread] at hfound
  rw [← Option.some.inj hfound] at hequal
  exact absurd hequal (by decide)

end AiBackend

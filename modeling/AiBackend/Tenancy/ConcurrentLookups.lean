import AiBackend.Support.Interleaving
import AiBackend.Support.Run
import AiBackend.Tenancy.CacheCoherence
import AiBackend.Tenancy.LookupSteps

/-!
# Lookups and updates of one tenant at the same time

Any number of lookups and updates of one tenant, interleaved at their
statements.  A lookup reads the table and writes the cache in two statements;
if an update writes and invalidates between them, the cache ends up with the
old row.  If every write-back either still agrees with the row or has the
invalidation of an update ahead of it, a lookup that meets no update returns
what the latest one wrote.
-/

namespace AiBackend
namespace PostgresTenantRepository

open Program Run CacheAside Interleaving

/-! ## Calls -/

/-- A call for the tenant. -/
inductive TenantCall where
  | lookup
  | update (tenant : Tenant)

/-- How far a call has come. -/
inductive CallStage where
  | lookup (stage : LookupStage)
  | update (tenant : Tenant)
  | written (tenant : Tenant)
  | updated (tenant : Tenant)
  | raised (r : Raised Python.PyExc)

def TenantCall.start : TenantCall → CallStage
  | .lookup => .lookup .start
  | .update tenant => .update tenant

section Calls

variable (env : Env) (apiKeyHash : String)

/-- The next statement of a call. -/
def advanceCall : CallStage → Prog CallStage
  | .lookup stage => do
      let stage ← advanceLookup env apiKeyHash stage
      pure (.lookup stage)
  | .update tenant => do
      updateTable env tenant
      pure (.written tenant)
  | .written tenant => do
      invalidate tenant.apiKeyHash
      pure (.updated tenant)
  | stage => pure stage

/-- An update that runs alone takes its steps one after the other. -/
theorem update_eq_advance (tenant : Tenant) :
    (do
      let stage ← advanceCall env apiKeyHash (.update tenant)
      advanceCall env apiKeyHash stage) =
    (do
      let tenant ← update env tenant
      pure (CallStage.updated tenant)) := by
  simp only [advanceCall, update, bind_assoc, pure_bind]

variable {ι : Type} [DecidableEq ι]

/-- One of the calls takes its next step. -/
def stepCall (m : System ι CallStage Store) (i : ι) : System ι CallStage Store :=
  Interleaving.step (fun _ => advanceCall env apiKeyHash) .raised m i

end Calls

/-! ## What the calls are to report -/

/-- Plan, flag and counters. -/
structure Standing where
  plan : TenantPlan
  isActive : Bool
  tokensUsedThisMonth : ℤ
  totalTokensUsed : ℤ
  deriving DecidableEq

def standing (tenant : Tenant) : Standing where
  plan := tenant.plan
  isActive := tenant.isActive
  tokensUsedThisMonth := tenant.tokensUsedThisMonth
  totalTokensUsed := tenant.totalTokensUsed

def rowStanding (row : TenantRow) : Standing where
  plan := row.plan
  isActive := row.isActive
  tokensUsedThisMonth := row.tokensUsedThisMonth
  totalTokensUsed := row.totalTokensUsed

/-- A tenant as it is read has the standing of its row. -/
def SameStanding (tenant : Tenant) (row : TenantRow) : Prop :=
  standing tenant = rowStanding row

/-- The columns as the database takes them keep the standing. -/
theorem standing_of_encodeColumns {env : Env} {tenant : Tenant} {columns : TenantColumns}
    (h : encodeColumns env 4 tenant = .ok columns) (row : TenantRow) (now : Timestamp) :
    rowStanding (row.setColumns columns now) = standing tenant := by
  unfold encodeColumns at h
  obtain ⟨_, _, h⟩ := except_bind_eq_ok_iff.mp h
  obtain ⟨used, hused, h⟩ := except_bind_eq_ok_iff.mp h
  obtain ⟨total, htotal, h⟩ := except_bind_eq_ok_iff.mp h
  obtain ⟨metadata, _, h⟩ := except_bind_eq_ok_iff.mp h
  obtain rfl := Except.ok.inj h
  rw [Postgres.integer_eq_ok hused, Postgres.integer_eq_ok htotal]
  rfl

section Machine

variable {ι : Type} (env : Env) (apiKeyHash : String)

/-- The update has written the row and not yet invalidated the entry. -/
def CallStage.IsWritten : CallStage → Prop
  | .written _ => True
  | _ => False

/-- An update has written the row and not yet invalidated the entry. -/
def Updating (m : System ι CallStage Store) : Prop := ∃ i, (m.stages i).IsWritten

/-- The tenant that the transition writes into the row. -/
def written (t : Transition (System ι CallStage Store) ι) : Option Tenant :=
  match t.before.stages t.input, t.after.stages t.input with
  | .update tenant, .written _ => some tenant
  | _, _ => none

/-- A write-back agrees with the row or has an invalidation ahead of it, and
an update invalidates the hash of the row. -/
def Timely (m : System ι CallStage Store) (i : ι) : Prop :=
  match m.stages i with
  | .lookup (.fetched tenant) =>
      CoherentAt SameStanding (m.shared.table.byHash apiKeyHash) (some tenant) ∨ Updating m
  | .update tenant => tenant.apiKeyHash = apiKeyHash
  | _ => True

/-- The row is the tenant's, and every update is one of it. -/
structure Watched (calls : ι → TenantCall) (tenantId : TenantId)
    (m : System ι CallStage Store) : Prop where
  row : ∃ row, m.shared.table.byHash apiKeyHash = some row ∧ row.tenantId = tenantId
  ids : ∀ i tenant, m.stages i = .update tenant → tenant.tenantId = tenantId
  hashes : ∀ i tenant, m.stages i = .written tenant → tenant.apiKeyHash = apiKeyHash
  lookups : ∀ i, calls i = .lookup → ∃ stage, m.stages i = .lookup stage

/-- The row has the standing of the tenant, and the entry is right or going to
be evicted. -/
def Records (tenant : Tenant) (m : System ι CallStage Store) : Prop :=
  (∃ row, m.shared.table.byHash apiKeyHash = some row ∧
      rowStanding row = standing tenant) ∧
    (CoherentAt SameStanding (m.shared.table.byHash apiKeyHash)
      (m.shared.cached env apiKeyHash) ∨ Updating m)

/-! ## Steps -/

/-- The effect of one statement of a call on the store. -/
inductive CallStep (s : Store) : CallStage → CallStage → Store → Prop
  | looked {stage next : LookupStage} {s' : Store}
      (looked : LookupStep env apiKeyHash s stage next s') :
      CallStep s (.lookup stage) (.lookup next) s'
  | wrote (tenant : Tenant) (columns : TenantColumns)
      (encoded : encodeColumns env 4 tenant = .ok columns) :
      CallStep s (.update tenant) (.written tenant) (s.assign env tenant.tenantId columns)
  | refused (tenant : Tenant) (r : Raised Python.PyExc) :
      CallStep s (.update tenant) (.raised r) s
  | invalidated (tenant : Tenant) :
      CallStep s (.written tenant) (.updated tenant) (s.evict tenant.apiKeyHash)
  | ended (stage : CallStage)
      (done : (∃ tenant, stage = .updated tenant) ∨ ∃ r, stage = .raised r) :
      CallStep s stage stage s

variable [DecidableEq ι]

section Statements

variable {m : System ι CallStage Store} {i : ι} {tenant : Tenant}

theorem stepCall_looked {stage next : LookupStage} {s : Store}
    (hstage : m.stages i = .lookup stage)
    (hrun : (advanceLookup env apiKeyHash stage).run m.shared = .ok next s) :
    stepCall env apiKeyHash m i = ⟨Function.update m.stages i (.lookup next), s⟩ := by
  refine step_of_ok ?_
  rw [hstage, advanceCall, EStateM.run_bind, hrun]
  rfl

theorem stepCall_wrote (hstage : m.stages i = .update tenant) {columns : TenantColumns}
    (hencode : encodeColumns env 4 tenant = .ok columns) :
    stepCall env apiKeyHash m i =
      ⟨Function.update m.stages i (.written tenant),
        m.shared.assign env tenant.tenantId columns⟩ := by
  refine step_of_ok ?_
  rw [hstage, advanceCall, EStateM.run_bind, run_updateTable_ok hencode]
  rfl

theorem stepCall_refused (hstage : m.stages i = .update tenant) {e : Python.PyExc}
    (hencode : encodeColumns env 4 tenant = .error e) :
    stepCall env apiKeyHash m i =
      ⟨Function.update m.stages i (.raised (.exception e)), m.shared⟩ := by
  refine step_of_error ?_
  rw [hstage, advanceCall, EStateM.run_bind, run_updateTable_error hencode]

theorem stepCall_invalidated (hstage : m.stages i = .written tenant) :
    stepCall env apiKeyHash m i =
      ⟨Function.update m.stages i (.updated tenant), m.shared.evict tenant.apiKeyHash⟩ := by
  refine step_of_ok ?_
  rw [hstage, advanceCall, EStateM.run_bind, run_invalidate]
  rfl

end Statements

theorem stepCall_effect (m : System ι CallStage Store) (i : ι) :
    ∃ next s', stepCall env apiKeyHash m i = ⟨Function.update m.stages i next, s'⟩ ∧
      CallStep env apiKeyHash m.shared (m.stages i) next s' := by
  cases hstage : m.stages i with
  | lookup stage =>
      obtain ⟨next, s', hrun, hstep⟩ := run_advanceLookup env apiKeyHash m.shared stage
      exact ⟨_, _, stepCall_looked env apiKeyHash hstage hrun, .looked hstep⟩
  | update tenant =>
      cases hencode : encodeColumns env 4 tenant with
      | error e => exact ⟨_, _, stepCall_refused env apiKeyHash hstage hencode, .refused tenant _⟩
      | ok columns =>
          exact ⟨_, _, stepCall_wrote env apiKeyHash hstage hencode, .wrote tenant columns hencode⟩
  | written tenant => exact ⟨_, _, stepCall_invalidated env apiKeyHash hstage, .invalidated tenant⟩
  | updated tenant =>
      refine ⟨.updated tenant, m.shared, step_of_ok ?_, .ended _ (Or.inl ⟨_, rfl⟩)⟩
      rw [hstage]
      rfl
  | raised r =>
      refine ⟨.raised r, m.shared, step_of_ok ?_, .ended _ (Or.inr ⟨_, rfl⟩)⟩
      rw [hstage]
      rfl

variable {env} {apiKeyHash}

section Watched

variable {calls : ι → TenantCall} {tenantId : TenantId} {m : System ι CallStage Store}
  {i : ι}

/-- The row stays the tenant's under every statement. -/
theorem CallStep.row {s s' : Store} {stage next : CallStage}
    (h : CallStep env apiKeyHash s stage next s')
    (hids : ∀ tenant, stage = .update tenant → tenant.tenantId = tenantId)
    (hrow : ∃ row, s.table.byHash apiKeyHash = some row ∧ row.tenantId = tenantId) :
    ∃ row, s'.table.byHash apiKeyHash = some row ∧ row.tenantId = tenantId := by
  cases h with
  | looked looked => rwa [looked.table]
  | wrote tenant columns encoded =>
      obtain ⟨row, hrow, hid⟩ := hrow
      rw [hids tenant rfl, ← hid]
      exact ⟨_, s.byHash_assign env apiKeyHash hrow columns, rfl⟩
  | refused tenant r => exact hrow
  | invalidated tenant => exact hrow
  | ended stage done => exact hrow

theorem Watched.step (hm : Watched apiKeyHash calls tenantId m)
    (htimely : Timely apiKeyHash m i) :
    Watched apiKeyHash calls tenantId (stepCall env apiKeyHash m i) := by
  obtain ⟨next, s', hstep, heffect⟩ := stepCall_effect env apiKeyHash m i
  rw [hstep]
  unfold Timely at htimely
  have hids := hm.ids i
  have hhashes := hm.hashes i
  have hlookups := hm.lookups i
  generalize m.stages i = stage at heffect htimely hids hhashes hlookups
  refine ⟨heffect.row hids hm.row, ?_, ?_, ?_⟩
  · refine forall_update (P := fun _ stage => ∀ tenant : Tenant,
      stage = CallStage.update tenant → tenant.tenantId = tenantId) ?_ fun j _ => hm.ids j
    intro tenant hnext
    cases heffect with
    | looked looked => cases hnext
    | wrote tenant columns encoded => cases hnext
    | refused tenant r => cases hnext
    | invalidated tenant => cases hnext
    | ended stage done => exact hids tenant hnext
  · refine forall_update (P := fun _ stage => ∀ tenant : Tenant,
      stage = CallStage.written tenant → tenant.apiKeyHash = apiKeyHash) ?_
      fun j _ => hm.hashes j
    intro tenant hnext
    cases heffect with
    | looked looked => cases hnext
    | wrote tenant columns encoded =>
        cases hnext
        exact htimely
    | refused tenant r => cases hnext
    | invalidated tenant => cases hnext
    | ended stage done => exact hhashes tenant hnext
  · refine forall_update (P := fun j stage => calls j = .lookup →
      ∃ looking, stage = CallStage.lookup looking) ?_ fun j _ => hm.lookups j
    intro hcall
    obtain ⟨looking, rfl⟩ := hlookups hcall
    cases heffect with
    | looked looked => exact ⟨_, rfl⟩
    | ended _ done => exact ⟨_, rfl⟩

/-- An update that writes gives the row its standing, and has still to
invalidate the entry. -/
theorem Watched.records (hm : Watched apiKeyHash calls tenantId m) {tenant : Tenant}
    (hwritten : written ⟨m, i, stepCall env apiKeyHash m i⟩ = some tenant) :
    Records env apiKeyHash tenant (stepCall env apiKeyHash m i) := by
  obtain ⟨next, s', hstep, heffect⟩ := stepCall_effect env apiKeyHash m i
  rw [hstep] at hwritten ⊢
  unfold written at hwritten
  dsimp only at hwritten
  rw [Function.update_self] at hwritten
  have hids := hm.ids i
  generalize m.stages i = stage at heffect hwritten hids
  cases heffect with
  | looked looked => cases hwritten
  | wrote tenant columns encoded =>
      obtain rfl := Option.some.inj hwritten
      obtain ⟨row, hrow, hid⟩ := hm.row
      refine ⟨⟨_, ?_, standing_of_encodeColumns encoded row (env.now m.shared.ticks)⟩,
        Or.inr ⟨i, ?_⟩⟩
      · rw [hids tenant rfl, ← hid]
        exact m.shared.byHash_assign env apiKeyHash hrow columns
      · dsimp only
        rw [Function.update_self]
        trivial
  | refused tenant r => cases hwritten
  | invalidated tenant => cases hwritten
  | ended stage done =>
      rcases done with ⟨tenant, rfl⟩ | ⟨r, rfl⟩
      · cases hwritten
      · cases hwritten

/-- A timely step that writes no row keeps what is recorded. -/
theorem Watched.records_kept (hm : Watched apiKeyHash calls tenantId m)
    (htimely : Timely apiKeyHash m i)
    (hwritten : written ⟨m, i, stepCall env apiKeyHash m i⟩ = none) {tenant : Tenant}
    (hrecords : Records env apiKeyHash tenant m) :
    Records env apiKeyHash tenant (stepCall env apiKeyHash m i) := by
  obtain ⟨next, s', hstep, heffect⟩ := stepCall_effect env apiKeyHash m i
  rw [hstep] at hwritten ⊢
  unfold written at hwritten
  unfold Timely at htimely
  dsimp only at hwritten
  rw [Function.update_self] at hwritten
  have hhashes := hm.hashes i
  have hupdating : ¬ (m.stages i).IsWritten → Updating m →
      Updating (⟨Function.update m.stages i next, s'⟩ : System ι CallStage Store) :=
    fun hquiet hupdating => exists_update hupdating hquiet
  obtain ⟨hrow, hentry⟩ := hrecords
  generalize m.stages i = stage at heffect htimely hwritten hhashes hupdating
  cases heffect with
  | looked looked =>
      rw [Records]
      dsimp only
      rw [looked.table]
      refine ⟨hrow, ?_⟩
      rcases looked.cached with hsame | ⟨fetched, rfl, hcached⟩
      · rw [hsame]
        exact hentry.imp id (hupdating id)
      · rw [hcached]
        exact htimely.imp id (hupdating id)
  | wrote tenant columns encoded => cases hwritten
  | refused tenant r => exact ⟨hrow, hentry.imp id (hupdating id)⟩
  | invalidated tenant =>
      -- the entry is gone, whatever other updates are doing
      refine ⟨hrow, Or.inl ?_⟩
      dsimp only
      rw [Store.cached_evict, hhashes tenant rfl, Function.update_self]
      exact coherentAt_none _
  | ended stage done =>
      refine ⟨hrow, hentry.imp id (hupdating ?_)⟩
      rcases done with ⟨tenant, rfl⟩ | ⟨r, rfl⟩
      · exact id
      · exact id

end Watched

/-! ## While no update is in progress -/

/-- What a lookup has found so far has the standing of the row. -/
def FindsStanding (target : Standing) : CallStage → Prop
  | .lookup (.fetched tenant) => standing tenant = target
  | .lookup (.done answer) => ∃ tenant, answer = some tenant ∧ standing tenant = target
  | _ => True

/-- The row is settled, the entry is right, and so is what the lookup `i` has
found. -/
structure Settled (env : Env) (apiKeyHash : String) (calls : ι → TenantCall)
    (target : Standing) (i : ι) (m : System ι CallStage Store) : Prop where
  row : ∃ row, m.shared.table.byHash apiKeyHash = some row ∧ rowStanding row = target
  entry : ∀ tenant ∈ m.shared.cached env apiKeyHash, standing tenant = target
  quiet : ¬ Updating m
  lookups : ∀ j, calls j = .lookup → ∃ stage, m.stages j = .lookup stage
  found : FindsStanding target (m.stages i)

section Settled

variable {calls : ι → TenantCall} {target : Standing} {i j : ι}
  {m : System ι CallStage Store}

/-- A statement of a lookup while the row is settled. -/
theorem LookupStep.findsStanding {s s' : Store} {stage next : LookupStage}
    (h : LookupStep env apiKeyHash s stage next s')
    (hrow : ∃ row, s.table.byHash apiKeyHash = some row ∧ rowStanding row = target)
    (hentry : ∀ tenant ∈ s.cached env apiKeyHash, standing tenant = target)
    (hfound : FindsStanding target (.lookup stage)) :
    FindsStanding target (.lookup next) := by
  obtain ⟨row, hrow, hstanding⟩ := hrow
  cases h with
  | hit tenant cached => exact ⟨tenant, rfl, hentry tenant cached⟩
  | missed cached => trivial
  | fetched other stored =>
      obtain rfl := Option.some.inj (stored.symm.trans hrow)
      exact hstanding
  | absent stored => cases stored.symm.trans hrow
  | written tenant => exact ⟨tenant, rfl, hfound⟩
  | ended answer => exact hfound

theorem Settled.step (hm : Settled env apiKeyHash calls target i m)
    (hlookup : calls j = .lookup) (htimely : Timely apiKeyHash m j) :
    Settled env apiKeyHash calls target i (stepCall env apiKeyHash m j) := by
  obtain ⟨next, s', hstep, heffect⟩ := stepCall_effect env apiKeyHash m j
  obtain ⟨stage, hstage⟩ := hm.lookups j hlookup
  rw [hstep]
  rw [hstage] at heffect
  cases heffect with
  | looked looked =>
      rename_i next
      have htable := looked.table
      refine ⟨by rw [htable]; exact hm.row, ?_, ?_, ?_, ?_⟩
      · intro tenant hcached
        dsimp only at hcached
        rcases looked.cached with hsame | ⟨fetched, rfl, hfetched⟩
        · exact hm.entry tenant (hsame ▸ hcached)
        · -- a write-back now agrees with the row, for no update is under way
          obtain rfl : fetched = tenant := Option.some.inj (hfetched.symm.trans hcached)
          unfold Timely at htimely
          rw [hstage] at htimely
          obtain ⟨row, hrow, hstanding⟩ := hm.row
          have hagrees := htimely.resolve_right hm.quiet
          rw [hrow, coherentAt_some_iff] at hagrees
          exact (hagrees fetched rfl).trans hstanding
      · rintro ⟨k, hk⟩
        refine hm.quiet ⟨k, ?_⟩
        by_cases hkj : k = j
        · simp only [hkj, Function.update_self] at hk
          exact hk.elim
        · simpa only [Function.update_of_ne hkj] using hk
      · refine forall_update (P := fun k stage => calls k = .lookup →
          ∃ looking, stage = CallStage.lookup looking) (fun _ => ⟨next, rfl⟩)
          fun k _ => hm.lookups k
      · have hfound := hm.found
        by_cases hij : i = j
        · rw [hij, hstage] at hfound
          simp only [hij, Function.update_self]
          exact looked.findsStanding hm.row hm.entry hfound
        · simpa only [Function.update_of_ne hij] using hfound
  | ended _ done =>
      rcases done with ⟨tenant, h⟩ | ⟨r, h⟩
      · cases h
      · cases h

end Settled

/-! ## Runs -/

/-- The calls before any of them has begun. -/
def begin (calls : ι → TenantCall) (s : Store) : System ι CallStage Store :=
  ⟨fun i => (calls i).start, s⟩

omit [DecidableEq ι] in
theorem watched_begin {calls : ι → TenantCall} {s : Store} {row : TenantRow}
    (hrow : s.table.byHash apiKeyHash = some row)
    (htenant : ∀ i tenant, calls i = .update tenant → tenant.tenantId = row.tenantId) :
    Watched apiKeyHash calls row.tenantId (begin calls s) where
  row := ⟨row, hrow, rfl⟩
  ids := by
    intro i tenant hstage
    refine htenant i tenant ?_
    rw [begin] at hstage
    cases hcall : calls i with
    | lookup => simp [hcall, TenantCall.start] at hstage
    | update other => simpa [hcall, TenantCall.start] using hstage
  hashes := by
    intro i tenant hstage
    rw [begin] at hstage
    cases hcall : calls i with
    | lookup => simp [hcall, TenantCall.start] at hstage
    | update other => simp [hcall, TenantCall.start] at hstage
  lookups := by
    intro i hcall
    exact ⟨.start, congrArg TenantCall.start hcall⟩

/-- A lookup that starts after an update and meets none finds what the latest
update wrote. -/
def FindsLatest (env : Env) (apiKeyHash : String) (calls : ι → TenantCall) (s : Store)
    (inputs : List ι) : Prop :=
  ∀ earlier later, inputs = earlier ++ later →
    ¬ Updating (final (stepCall env apiKeyHash) (begin calls s) earlier) →
    (∀ j ∈ later, calls j = .lookup) →
    ∀ i tenant answer,
      lastOutput written (trace (stepCall env apiKeyHash) (begin calls s) earlier) =
        some tenant →
      (final (stepCall env apiKeyHash) (begin calls s) earlier).stages i = .lookup .start →
      (final (stepCall env apiKeyHash) (begin calls s) inputs).stages i =
        .lookup (.done answer) →
      ∃ found, answer = some found ∧ standing found = standing tenant

/-! ## A read that straddles an update -/

section Race

variable {m : System ι CallStage Store} {i : ι} {tenant : Tenant}

/-- A lookup that misses reads the row. -/
theorem final_read (env : Env) (apiKeyHash : String)
    (hstage : m.stages i = .lookup .start)
    (hcached : m.shared.cached env apiKeyHash = none) {row : TenantRow}
    (hrow : m.shared.table.byHash apiKeyHash = some row) :
    final (stepCall env apiKeyHash) m [i, i] =
      ⟨Function.update m.stages i (.lookup (.fetched
        (rowToTenant row (env.uuid4 m.shared.drawn)))), m.shared.draw⟩ := by
  change stepCall env apiKeyHash (stepCall env apiKeyHash m i) i = _
  rw [stepCall_looked env apiKeyHash hstage (run_advance_missed hcached)]
  refine (stepCall_looked env apiKeyHash
    (m := ⟨Function.update m.stages i (.lookup .missed), m.shared⟩)
    (Function.update_self ..) (run_advance_fetched hrow)).trans ?_
  exact congrArg (System.mk · m.shared.draw) (Function.update_idem ..)

/-- An update that runs without a break. -/
theorem final_update (env : Env) (apiKeyHash : String)
    (hstage : m.stages i = .update tenant) {columns : TenantColumns}
    (hencode : encodeColumns env 4 tenant = .ok columns) :
    final (stepCall env apiKeyHash) m [i, i] =
        ⟨Function.update m.stages i (.updated tenant),
          (m.shared.assign env tenant.tenantId columns).evict tenant.apiKeyHash⟩ ∧
      lastOutput written (trace (stepCall env apiKeyHash) m [i, i]) = some tenant := by
  have hwrote := stepCall_wrote env apiKeyHash hstage hencode
  constructor
  · change stepCall env apiKeyHash (stepCall env apiKeyHash m i) i = _
    rw [hwrote]
    refine (stepCall_invalidated env apiKeyHash
      (m := ⟨Function.update m.stages i (.written tenant), _⟩)
      (Function.update_self ..)).trans ?_
    rw [Function.update_idem]
  · simp [trace, hwrote, lastOutput, written, hstage]

/-- The row is read by `i`, updated by `j` and written back by `i`: the entry
is the row as it was. -/
theorem stale_after_race {j : ι} (hij : i ≠ j) {row : TenantRow} {columns : TenantColumns}
    (hcached : m.shared.cached env apiKeyHash = none)
    (hrow : m.shared.table.byHash apiKeyHash = some row)
    (hi : m.stages i = .lookup .start) (hj : m.stages j = .update tenant)
    (hencode : encodeColumns env 4 tenant = .ok columns)
    (hstorable : Storable env (rowToTenant row (env.uuid4 m.shared.drawn))) :
    (final (stepCall env apiKeyHash) m ([i, i] ++ [j, j] ++ [i])).shared.cached env
        apiKeyHash = some (rowToTenant row (env.uuid4 m.shared.drawn)) ∧
      (final (stepCall env apiKeyHash) m ([i, i] ++ [j, j] ++ [i])).stages =
        Function.update (Function.update m.stages j (.updated tenant)) i
          (.lookup (.done (some (rowToTenant row (env.uuid4 m.shared.drawn))))) ∧
      lastOutput written (trace (stepCall env apiKeyHash) m ([i, i] ++ [j, j] ++ [i])) =
        some tenant := by
  have hread := final_read env apiKeyHash hi hcached hrow
  obtain ⟨hupdate, hwritten⟩ := final_update env apiKeyHash (i := j)
    (m := final (stepCall env apiKeyHash) m [i, i])
    (by rw [hread]; exact (Function.update_of_ne hij.symm ..).trans hj) hencode
  have hstage : (final (stepCall env apiKeyHash) m ([i, i] ++ [j, j])).stages i =
      .lookup (.fetched (rowToTenant row (env.uuid4 m.shared.drawn))) := by
    rw [final_append, hupdate, hread]
    exact (Function.update_of_ne hij ..).trans (Function.update_self ..)
  have hback := stepCall_looked env apiKeyHash hstage run_advance_written
  have hfinal := (final_append (stepCall env apiKeyHash) m ([i, i] ++ [j, j]) [i]).trans
    hback
  rw [hfinal]
  refine ⟨?_, ?_, ?_⟩
  · rw [Store.cached_fill, if_pos hstorable, Function.update_self]
  · rw [final_append, hupdate, hread]
    funext k
    by_cases hki : k = i
    · simp [hki]
    · by_cases hkj : k = j
      · simp [hkj, hij.symm]
      · simp [hki, hkj]
  · have hnone : lastOutput written (trace (stepCall env apiKeyHash)
        (final (stepCall env apiKeyHash) m ([i, i] ++ [j, j])) [i]) = none := by
      simp only [trace, lastOutput, written, hstage, List.filterMap_cons,
        List.filterMap_nil, List.getLast?_nil]
    rw [trace_append, trace_append, lastOutput_append, lastOutput_append, hnone, hwritten]
    rfl

/-- After such a race a lookup by `k` does not find what the update wrote,
unless that is what the row said before. -/
theorem not_findsLatest_of_race {calls : ι → TenantCall} {s : Store} {i j k : ι}
    (hij : i ≠ j) (hki : k ≠ i) {row : TenantRow} {columns : TenantColumns}
    (hrow : s.table.byHash apiKeyHash = some row)
    (hcached : s.cached env apiKeyHash = none)
    (hcalls : ∀ l, l ≠ j → calls l = .lookup) (hj : calls j = .update tenant)
    (hkj : k ≠ j) (hencode : encodeColumns env 4 tenant = .ok columns)
    (hstorable : Storable env (rowToTenant row (env.uuid4 s.drawn)))
    (hchanged : rowStanding row ≠ standing tenant) :
    ¬ FindsLatest env apiKeyHash calls s ([i, i] ++ [j, j] ++ [i] ++ [k]) := by
  intro hfinds
  have hbegin : ∀ l, l ≠ j → (begin calls s).stages l = .lookup .start :=
    fun l hl => congrArg TenantCall.start (hcalls l hl)
  obtain ⟨hstale, hstages, hlatest⟩ := stale_after_race (m := begin calls s) hij hcached
    hrow (hbegin i hij) (congrArg TenantCall.start hj) hencode hstorable
  have hquiet : ¬ Updating (final (stepCall env apiKeyHash) (begin calls s)
      ([i, i] ++ [j, j] ++ [i])) := by
    rintro ⟨l, hl⟩
    rw [hstages] at hl
    by_cases hli : l = i
    · simp [hli, CallStage.IsWritten] at hl
    · by_cases hlj : l = j
      · simp [hlj, hij.symm, CallStage.IsWritten] at hl
      · simp [hli, hlj, hbegin, CallStage.IsWritten] at hl
  have hlate : (final (stepCall env apiKeyHash) (begin calls s)
      ([i, i] ++ [j, j] ++ [i])).stages k = .lookup .start := by
    rw [hstages, Function.update_of_ne hki, Function.update_of_ne hkj]
    exact hbegin k hkj
  have hdone : (final (stepCall env apiKeyHash) (begin calls s)
      ([i, i] ++ [j, j] ++ [i] ++ [k])).stages k =
        .lookup (.done (some (rowToTenant row (env.uuid4 s.drawn)))) := by
    rw [final_append]
    exact (congrArg (System.stages · k)
      (stepCall_looked env apiKeyHash hlate (run_advance_hit hstale))).trans
      (Function.update_self ..)
  obtain ⟨found, hfound, hstanding⟩ := hfinds _ [k] rfl hquiet
    (fun l hl => by rw [List.mem_singleton.mp hl]; exact hcalls k hkj) k tenant _ hlatest
    hlate hdone
  obtain rfl := Option.some.inj hfound
  exact hchanged hstanding

end Race

end Machine

/-- The tenant of the sample row, deactivated. -/
def sampleInactive : Tenant := (rowToTenant sampleRow ⟨1⟩).deactivate 0

theorem encodeColumns_sampleInactive :
    encodeColumns sampleEnv 4 sampleInactive = .ok sampleInactive.columns := rfl

inductive SampleParty where
  | early
  | writer
  | late
  deriving DecidableEq

/-- Two lookups, and the deactivation. -/
def sampleCalls : SampleParty → TenantCall
  | .early => .lookup
  | .writer => .update sampleInactive
  | .late => .lookup

theorem sampleCalls_update {i : SampleParty} {tenant : Tenant}
    (h : sampleCalls i = .update tenant) :
    tenant.tenantId = sampleRow.tenantId ∧ tenant.apiKeyHash = sampleRow.apiKeyHash := by
  cases i with
  | early => cases h
  | writer =>
      cases h
      exact ⟨rfl, rfl⟩
  | late => cases h

/-! ## Timely runs -/

/-- In every run whose steps are timely, the lookups behind the updates find
what the latest update wrote. -/
theorem findsLatest_of_timely {ι : Type} [DecidableEq ι] {env : Env} {apiKeyHash : String}
    {calls : ι → TenantCall} {s : Store} {row : TenantRow}
    (hrow : s.table.byHash apiKeyHash = some row)
    (htenant : ∀ i tenant, calls i = .update tenant → tenant.tenantId = row.tenantId)
    (inputs : List ι)
    (htimely : ∀ t ∈ trace (stepCall env apiKeyHash) (begin calls s) inputs,
      Timely apiKeyHash t.before t.input) :
    FindsLatest env apiKeyHash calls s inputs := by
  rintro earlier later rfl hquiet hlater i tenant answer hlatest hstart hdone
  rw [trace_append] at htimely
  rw [final_append] at hdone
  have hbefore := fun t ht => htimely t (List.mem_append_left _ ht)
  have hafter := fun t ht => htimely t (List.mem_append_right _ ht)
  have hwatched := final_of_steps (I := Watched apiKeyHash calls row.tenantId)
    (Timely apiKeyHash) (fun _ _ hm ht => hm.step ht) (watched_begin hrow htenant) hbefore
  obtain ⟨hstanding, hentry⟩ := final_of_lastOutput
    (I := Watched apiKeyHash calls row.tenantId)
    (R := Records env apiKeyHash) (Timely apiKeyHash) (fun _ _ hm ht => hm.step ht)
    (fun _ _ _ hm _ hwritten => hm.records hwritten)
    (fun _ _ _ hm ht hwritten hrecords => hm.records_kept ht hwritten hrecords)
    (watched_begin hrow htenant) hbefore hlatest
  have hright := hentry.resolve_right hquiet
  have hsettled : Settled env apiKeyHash calls (standing tenant) i
      (final (stepCall env apiKeyHash) (begin calls s) earlier) := by
    obtain ⟨now, hnow, hsame⟩ := hstanding
    refine ⟨⟨now, hnow, hsame⟩, ?_, hquiet, hwatched.lookups, ?_⟩
    · intro cached hcached
      rw [hnow, coherentAt_some_iff] at hright
      exact (hright cached hcached).trans hsame
    · rw [hstart]
      trivial
  have hend := final_of_steps (I := Settled env apiKeyHash calls (standing tenant) i)
    (fun m j => calls j = .lookup ∧ Timely apiKeyHash m j)
    (fun _ _ hm ht => hm.step ht.1 ht.2) hsettled
    fun t ht => ⟨hlater _ (input_mem_of_mem_trace ht), hafter t ht⟩
  have hfound := hend.found
  rw [hdone] at hfound
  exact hfound

/-- Without the first lookup every step is timely. -/
theorem findsLatest_sample :
    FindsLatest sampleEnv sampleRow.apiKeyHash sampleCalls (Store.start sampleTable)
      ([.writer, .writer] ++ [.late, .late] ++ [.late]) := by
  refine findsLatest_of_timely byHash_sampleTable (fun _ _ h => (sampleCalls_update h).1) _ ?_
  let m := begin sampleCalls (Store.start sampleTable)
  have hupdate := (final_update sampleEnv sampleRow.apiKeyHash (m := m) (i := .writer) rfl
    encodeColumns_sampleInactive).1
  have hrow := (Store.start sampleTable).byHash_assign sampleEnv sampleRow.apiKeyHash
    byHash_sampleTable sampleInactive.columns
  have hread := final_read sampleEnv sampleRow.apiKeyHash
    (m := final (stepCall sampleEnv sampleRow.apiKeyHash) m [.writer, .writer])
    (i := .late) (by rw [hupdate]; rfl)
    (by rw [hupdate, Store.cached_evict]; exact Function.update_self ..)
    (by rw [hupdate]; exact hrow)
  intro t ht
  rw [trace_append, trace_append, List.mem_append, List.mem_append] at ht
  rcases ht with (ht | ht) | ht
  · simp only [trace, List.mem_cons, List.not_mem_nil, or_false] at ht
    rcases ht with rfl | rfl
    · exact (rfl : sampleInactive.apiKeyHash = sampleRow.apiKeyHash)
    · trivial
  · rw [hupdate] at ht
    simp only [trace, List.mem_cons, List.not_mem_nil, or_false] at ht
    rcases ht with rfl | rfl
    · trivial
    · trivial
  · rw [final_append, hread, hupdate] at ht
    simp only [trace, List.mem_cons, List.not_mem_nil, or_false] at ht
    obtain rfl := ht
    have hagrees : CoherentAt SameStanding
        (((Store.start sampleTable).assign sampleEnv sampleRow.tenantId
          sampleInactive.columns).table.byHash sampleRow.apiKeyHash)
        (some (rowToTenant (sampleRow.setColumns sampleInactive.columns (sampleEnv.now 0))
          (sampleEnv.uuid4 0))) := by
      rw [hrow]
      exact coherentAt_some_iff.mpr fun _ h => by cases h; rfl
    exact Or.inl hagrees

/-- The first lookup reads the row, the update writes and invalidates, and the
first lookup writes back what it has read: the second one finds the tenant
active. -/
theorem not_findsLatest_race :
    ¬ ∀ (ι : Type) (_ : DecidableEq ι) (env : Env) (calls : ι → TenantCall) (s : Store)
        (row : TenantRow) (inputs : List ι),
      s.table.byHash row.apiKeyHash = some row →
      s.cached env row.apiKeyHash = none →
      (∀ i tenant, calls i = .update tenant →
        tenant.tenantId = row.tenantId ∧ tenant.apiKeyHash = row.apiKeyHash) →
      FindsLatest env row.apiKeyHash calls s inputs := by
  intro h
  refine not_findsLatest_of_race (i := SampleParty.early) (j := SampleParty.writer)
    (k := SampleParty.late) (by decide) (by decide) byHash_sampleTable rfl ?_ rfl
    (by decide) encodeColumns_sampleInactive (storable_sampleRow _) ?_
    (h SampleParty inferInstance sampleEnv sampleCalls (Store.start sampleTable) sampleRow _
      byHash_sampleTable rfl fun _ _ => sampleCalls_update)
  · intro i hi
    cases i with
    | early => rfl
    | writer => exact absurd rfl hi
    | late => rfl
  · intro hsame
    have hactive : true = false := congrArg Standing.isActive hsame
    cases hactive

end PostgresTenantRepository
end AiBackend

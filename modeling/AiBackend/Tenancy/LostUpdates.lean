import AiBackend.Tenancy.ConcurrentLookups

/-!
# Clients that read, change and write back one tenant

Any number of clients, interleaved at their statements, each of which reads
the tenant by its identifier or by its API key, deducts tokens or deactivates
it, and updates it.  An update writes all columns from the tenant that was
read, so it undoes what others have written since.  If every client writes
while the row still has the total that it has read, and none writes an active
tenant over an inactive row, nothing is lost.
-/

namespace AiBackend
namespace PostgresTenantRepository

open Program Run Interleaving

/-! ## Clients -/

/-- What a client does to the tenant it has read. -/
inductive Change where
  | deductQuota (tokens : ℤ)
  | deactivate
  deriving DecidableEq

def Change.apply (tenant : Tenant) (now : Timestamp) : Change → Tenant
  | .deductQuota tokens => tenant.deductQuota tokens now
  | .deactivate => tenant.deactivate now

/-- The tokens that are deducted. -/
def Change.tokens : Change → ℤ
  | .deductQuota tokens => tokens
  | .deactivate => 0

section Apply

variable (change : Change) (tenant : Tenant) (now : Timestamp)

@[simp] theorem Change.tenantId_apply :
    (change.apply tenant now).tenantId = tenant.tenantId := by
  cases change with
  | deductQuota tokens => rfl
  | deactivate => rfl

theorem Change.totalTokensUsed_apply :
    (change.apply tenant now).totalTokensUsed = tenant.totalTokensUsed + change.tokens := by
  cases change with
  | deductQuota tokens => rfl
  | deactivate => exact (Int.add_zero _).symm

theorem Change.isActive_apply (h : tenant.isActive = false ∨ change = .deactivate) :
    (change.apply tenant now).isActive = false := by
  cases change with
  | deductQuota tokens =>
      rcases h with hinactive | h
      · exact hinactive
      · cases h
  | deactivate => rfl

end Apply

/-- A client, which reads with `get_by_id` or with `get_by_api_key_hash`. -/
structure Client where
  readsById : Bool
  change : Change
  deriving DecidableEq

/-- How far a client has come. -/
inductive ClientStage where
  | byId
  | byHash (stage : LookupStage)
  | loaded (tenant : Tenant)
  | gone
  | written (tenant : Tenant)
  | finished
  | raised (r : Raised Python.PyExc)

def Client.start (client : Client) : ClientStage :=
  if client.readsById then .byId else .byHash .start

/-- A client that has been answered has its tenant, if there is one. -/
def settle : LookupStage → ClientStage
  | .done (some tenant) => .loaded tenant
  | .done none => .gone
  | stage => .byHash stage

section Clients

variable (env : Env) (tenantId : TenantId) (apiKeyHash : String)

/-- The next statement of a client. -/
def advanceClient (client : Client) : ClientStage → Prog ClientStage
  | .byId => do
      match ← getById env tenantId with
      | some tenant => pure (.loaded tenant)
      | none => pure .gone
  | .byHash stage => do
      let stage ← advanceLookup env apiKeyHash stage
      pure (settle stage)
  | .loaded tenant => do
      let s ← get
      let changed := client.change.apply tenant (env.now s.ticks)
      updateTable env changed
      pure (.written changed)
  | .written tenant => do
      invalidate tenant.apiKeyHash
      pure .finished
  | stage => pure stage

/-- A client that reads by identifier and runs alone. -/
theorem client_eq_advance (change : Change) :
    (do
      let stage ← advanceClient env tenantId apiKeyHash ⟨true, change⟩ .byId
      let stage ← advanceClient env tenantId apiKeyHash ⟨true, change⟩ stage
      advanceClient env tenantId apiKeyHash ⟨true, change⟩ stage) =
    (do
      match ← getById env tenantId with
      | some tenant => do
          let s ← get
          let _ ← update env (change.apply tenant (env.now s.ticks))
          pure ClientStage.finished
      | none => pure ClientStage.gone) := by
  simp only [advanceClient, bind_assoc]
  apply bind_congr
  intro found
  cases found with
  | some tenant => simp only [update, pure_bind, bind_assoc]
  | none => simp only [pure_bind]

variable {ι : Type} [DecidableEq ι]

/-- One of the clients takes its next step. -/
def stepClient (clients : ι → Client) (m : System ι ClientStage Store) (i : ι) :
    System ι ClientStage Store :=
  Interleaving.step (fun i => advanceClient env tenantId apiKeyHash (clients i)) .raised m i

/-- The effect of one statement of a client on the store. -/
inductive ClientStep (client : Client) (s : Store) :
    ClientStage → ClientStage → Store → Prop
  | read (row : TenantRow) (stored : s.table.byId tenantId = some row) :
      ClientStep client s .byId (.loaded (rowToTenant row (env.uuid4 s.drawn))) s.draw
  | missing (stored : s.table.byId tenantId = none) : ClientStep client s .byId .gone s
  | looked {stage next : LookupStage} {s' : Store}
      (looked : LookupStep env apiKeyHash s stage next s') :
      ClientStep client s (.byHash stage) (settle next) s'
  | wrote (tenant : Tenant) (columns : TenantColumns)
      (encoded : encodeColumns env 4 (client.change.apply tenant (env.now s.ticks)) =
        .ok columns) :
      ClientStep client s (.loaded tenant)
        (.written (client.change.apply tenant (env.now s.ticks)))
        (s.assign env tenant.tenantId columns)
  | refused (tenant : Tenant) (r : Raised Python.PyExc) :
      ClientStep client s (.loaded tenant) (.raised r) s
  | invalidated (tenant : Tenant) :
      ClientStep client s (.written tenant) .finished (s.evict tenant.apiKeyHash)
  | ended (stage : ClientStage)
      (done : stage = .gone ∨ stage = .finished ∨ ∃ r, stage = .raised r) :
      ClientStep client s stage stage s

theorem stepClient_effect (clients : ι → Client) (m : System ι ClientStage Store) (i : ι) :
    ∃ next s', stepClient env tenantId apiKeyHash clients m i =
        ⟨Function.update m.stages i next, s'⟩ ∧
      ClientStep env tenantId apiKeyHash (clients i) m.shared (m.stages i) next s' := by
  cases hstage : m.stages i with
  | byId =>
      cases hrow : m.shared.table.byId tenantId with
      | some row =>
          refine ⟨_, _, step_of_ok ?_, .read row hrow⟩
          rw [hstage, advanceClient, EStateM.run_bind, getById, run_fetch_some hrow]
          rfl
      | none =>
          refine ⟨_, _, step_of_ok ?_, .missing hrow⟩
          rw [hstage, advanceClient, EStateM.run_bind, getById, run_fetch_none hrow]
          rfl
  | byHash stage =>
      obtain ⟨next, s', hrun, hstep⟩ := run_advanceLookup env apiKeyHash m.shared stage
      refine ⟨_, _, step_of_ok ?_, .looked hstep⟩
      rw [hstage, advanceClient, EStateM.run_bind, hrun]
      rfl
  | loaded tenant =>
      cases hencode : encodeColumns env 4
          ((clients i).change.apply tenant (env.now m.shared.ticks)) with
      | error e =>
          refine ⟨_, _, step_of_error ?_, .refused tenant (.exception e)⟩
          rw [hstage, advanceClient]
          change (updateTable env _ >>= _).run m.shared = _
          rw [EStateM.run_bind, run_updateTable_error hencode]
      | ok columns =>
          refine ⟨_, _, step_of_ok ?_, .wrote tenant columns hencode⟩
          rw [hstage, advanceClient]
          change (updateTable env _ >>= _).run m.shared = _
          rw [EStateM.run_bind, run_updateTable_ok hencode, Change.tenantId_apply]
          rfl
  | written tenant =>
      refine ⟨_, _, step_of_ok ?_, .invalidated tenant⟩
      rw [hstage, advanceClient, EStateM.run_bind, run_invalidate]
      rfl
  | gone =>
      refine ⟨_, m.shared, step_of_ok ?_, .ended .gone (Or.inl rfl)⟩
      rw [hstage]
      rfl
  | finished =>
      refine ⟨_, m.shared, step_of_ok ?_, .ended .finished (Or.inr (Or.inl rfl))⟩
      rw [hstage]
      rfl
  | raised r =>
      refine ⟨_, m.shared, step_of_ok ?_, .ended (.raised r) (Or.inr (Or.inr ⟨r, rfl⟩))⟩
      rw [hstage]
      rfl

end Clients

/-! ## What has been written -/

/-- The tenant that a client has read. -/
def ClientStage.held : ClientStage → Option Tenant
  | .byHash (.fetched tenant) => some tenant
  | .byHash (.done answer) => answer
  | .loaded tenant => some tenant
  | _ => none

def ClientStage.hasWritten : ClientStage → Bool
  | .written _ => true
  | .finished => true
  | _ => false

/-- The tokens of a client that has written. -/
def share (client : Client) (stage : ClientStage) : ℤ :=
  if stage.hasWritten then client.change.tokens else 0

section Tally

variable {ι : Type} {env : Env} {clients : ι → Client} {row : TenantRow}

/-- A client that writes has read the total that the row has now, and does not
write an active tenant over an inactive row. -/
def Fresh (clients : ι → Client) (tenantId : TenantId)
    (m : System ι ClientStage Store) (i : ι) : Prop :=
  match m.stages i with
  | .loaded tenant => ∀ now ∈ m.shared.table.byId tenantId,
      tenant.totalTokensUsed = now.totalTokensUsed ∧
        (now.isActive = false → tenant.isActive = false ∨ (clients i).change = .deactivate)
  | _ => True

/-- The row counts what the clients have written, and is inactive if one of
them has deactivated it. -/
def Counts [Fintype ι] (clients : ι → Client) (row : TenantRow)
    (m : System ι ClientStage Store) (now : TenantRow) : Prop :=
  now.totalTokensUsed = row.totalTokensUsed + ∑ i, share (clients i) (m.stages i) ∧
    ∀ i, (m.stages i).hasWritten → (clients i).change = .deactivate → now.isActive = false

/-- What the clients have read is the tenant, and the row counts what they
have written. -/
structure Tallied [Fintype ι] (env : Env) (clients : ι → Client) (row : TenantRow)
    (m : System ι ClientStage Store) : Prop where
  ids : ∀ i tenant, (m.stages i).held = some tenant → tenant.tenantId = row.tenantId
  entry : ∀ found ∈ m.shared.cached env row.apiKeyHash, found.tenantId = row.tenantId
  row : ∃ now, m.shared.table.byId row.tenantId = some now ∧
    now.apiKeyHash = row.apiKeyHash ∧ Counts clients row m now

theorem held_settle (stage : LookupStage) :
    (settle stage).held = (ClientStage.byHash stage).held := by
  cases stage with
  | start => rfl
  | missed => rfl
  | fetched tenant => rfl
  | done answer =>
      cases answer with
      | none => rfl
      | some tenant => rfl

theorem hasWritten_settle (stage : LookupStage) : (settle stage).hasWritten = false := by
  cases stage with
  | start => rfl
  | missed => rfl
  | fetched tenant => rfl
  | done answer =>
      cases answer with
      | none => rfl
      | some tenant => rfl

section Reads

variable {s s' : Store} {now : TenantRow}

/-- A lookup holds what it held, what the cache has, or what the table has. -/
theorem LookupStep.held {stage next : LookupStage}
    (h : LookupStep env row.apiKeyHash s stage next s')
    (hrow : s.table.byId row.tenantId = some now)
    (hhash : now.apiKeyHash = row.apiKeyHash)
    (hentry : ∀ found ∈ s.cached env row.apiKeyHash, found.tenantId = row.tenantId)
    (hheld : ∀ tenant, (ClientStage.byHash stage).held = some tenant →
      tenant.tenantId = row.tenantId) {tenant : Tenant}
    (hnext : (ClientStage.byHash next).held = some tenant) :
    tenant.tenantId = row.tenantId := by
  cases h with
  | hit found cached =>
      obtain rfl := Option.some.inj hnext
      exact hentry found cached
  | missed cached => cases hnext
  | fetched found stored =>
      obtain rfl := Option.some.inj hnext
      have hfound := TenantTable.byHash_of_byId hrow
      rw [hhash] at hfound
      obtain rfl := Option.some.inj (stored.symm.trans hfound)
      exact (s.table.byId_eq_some_iff.mp hrow).2
  | absent stored => cases hnext
  | written found => exact hheld tenant hnext
  | ended answer => exact hheld tenant hnext

theorem ClientStep.held {client : Client} {stage next : ClientStage}
    (h : ClientStep env row.tenantId row.apiKeyHash client s stage next s')
    (hrow : s.table.byId row.tenantId = some now)
    (hhash : now.apiKeyHash = row.apiKeyHash)
    (hentry : ∀ found ∈ s.cached env row.apiKeyHash, found.tenantId = row.tenantId)
    (hheld : ∀ tenant, stage.held = some tenant → tenant.tenantId = row.tenantId)
    {tenant : Tenant} (hnext : next.held = some tenant) :
    tenant.tenantId = row.tenantId := by
  cases h with
  | read found stored =>
      obtain rfl := Option.some.inj hnext
      exact (s.table.byId_eq_some_iff.mp stored).2
  | missing stored => cases hnext
  | looked looked =>
      rw [held_settle] at hnext
      exact looked.held hrow hhash hentry hheld hnext
  | wrote loaded columns encoded => cases hnext
  | refused loaded r => cases hnext
  | invalidated loaded => cases hnext
  | ended stage done => exact hheld tenant hnext

/-- An entry is what it was, what a lookup held, or gone. -/
theorem ClientStep.entry {client : Client} {stage next : ClientStage}
    (h : ClientStep env row.tenantId row.apiKeyHash client s stage next s')
    (hentry : ∀ found ∈ s.cached env row.apiKeyHash, found.tenantId = row.tenantId)
    (hheld : ∀ tenant, stage.held = some tenant → tenant.tenantId = row.tenantId) :
    ∀ found ∈ s'.cached env row.apiKeyHash, found.tenantId = row.tenantId := by
  intro found hfound
  cases h with
  | read other stored => exact hentry found hfound
  | missing stored => exact hentry found hfound
  | looked looked =>
      rcases looked.cached with hsame | ⟨fetched, rfl, hcached⟩
      · exact hentry found (hsame ▸ hfound)
      · obtain rfl := Option.some.inj (hcached.symm.trans hfound)
        exact hheld fetched rfl
  | wrote loaded columns encoded => exact hentry found hfound
  | refused loaded r => exact hentry found hfound
  | invalidated loaded =>
      rw [Store.cached_evict] at hfound
      by_cases hhash : row.apiKeyHash = loaded.apiKeyHash
      · rw [hhash, Function.update_self] at hfound
        cases hfound
      · rw [Function.update_of_ne hhash] at hfound
        exact hentry found hfound
  | ended stage done => exact hentry found hfound

end Reads

/-! ## Steps -/

section Steps

variable [DecidableEq ι] [Fintype ι] {m : System ι ClientStage Store} {i : ι}
  {next : ClientStage} {s' : Store} {now : TenantRow}

/-- A client that moves without writing. -/
theorem Counts.moved (h : Counts clients row m now)
    (hsame : next.hasWritten = (m.stages i).hasWritten) :
    Counts clients row ⟨Function.update m.stages i next, s'⟩ now := by
  obtain ⟨htotal, hinactive⟩ := h
  constructor
  · have hshare : share (clients i) next = share (clients i) (m.stages i) := by
      rw [share, share, hsame]
    have hsum := sum_update (fun j => share (clients j)) m.stages i next
    dsimp only at hsum ⊢
    omega
  · refine forall_update (P := fun j (stage : ClientStage) => stage.hasWritten = true →
      (clients j).change = .deactivate → now.isActive = false) ?_ fun j _ => hinactive j
    intro hnext
    exact hinactive i (hsame.symm.trans hnext)

/-- A client that writes adds its tokens, and keeps an inactive row inactive. -/
theorem Counts.wrote (h : Counts clients row m now) {later : TenantRow}
    (hold : (m.stages i).hasWritten = false) (hnew : next.hasWritten = true)
    (htokens : later.totalTokensUsed =
      now.totalTokensUsed + (clients i).change.tokens)
    (hkept : now.isActive = false → later.isActive = false)
    (hself : (clients i).change = .deactivate → later.isActive = false) :
    Counts clients row ⟨Function.update m.stages i next, s'⟩ later := by
  obtain ⟨htotal, hinactive⟩ := h
  constructor
  · have hbefore : share (clients i) (m.stages i) = 0 := by rw [share, hold]; rfl
    have hafter : share (clients i) next = (clients i).change.tokens := by
      rw [share, hnew]; rfl
    have hsum := sum_update (fun j => share (clients j)) m.stages i next
    dsimp only at hsum ⊢
    omega
  · exact forall_update (P := fun j (stage : ClientStage) => stage.hasWritten = true →
      (clients j).change = .deactivate → later.isActive = false) (fun _ => hself)
      fun j _ hj hchange => hkept (hinactive j hj hchange)

/-- A fresh step keeps the tally. -/
theorem Tallied.step (hm : Tallied env clients row m)
    (hfresh : Fresh clients row.tenantId m i) :
    Tallied env clients row
      (stepClient env row.tenantId row.apiKeyHash clients m i) := by
  obtain ⟨next, s', hstep, heffect⟩ :=
    stepClient_effect env row.tenantId row.apiKeyHash clients m i
  obtain ⟨now, hrow, hhash, hcounts⟩ := hm.row
  have hids := hm.ids i
  rw [hstep]
  refine ⟨?_, heffect.entry hm.entry hids, ?_⟩
  · exact forall_update (P := fun _ stage => ∀ tenant : Tenant, ClientStage.held stage =
      some tenant → tenant.tenantId = row.tenantId)
      (fun tenant hnext => heffect.held hrow hhash hm.entry hids hnext) fun j _ => hm.ids j
  · unfold Fresh at hfresh
    have hmoved : next.hasWritten = (m.stages i).hasWritten →
        Counts clients row ⟨Function.update m.stages i next, s'⟩ now := hcounts.moved
    have hwrote : ∀ later, (m.stages i).hasWritten = false → next.hasWritten = true →
        later.totalTokensUsed = now.totalTokensUsed + (clients i).change.tokens →
        (now.isActive = false → later.isActive = false) →
        ((clients i).change = .deactivate → later.isActive = false) →
        Counts clients row ⟨Function.update m.stages i next, s'⟩ later :=
      fun later => hcounts.wrote
    generalize m.stages i = stage at heffect hfresh hids hmoved hwrote
    cases heffect with
    | read found stored => exact ⟨now, hrow, hhash, hmoved rfl⟩
    | missing stored => exact ⟨now, hrow, hhash, hmoved rfl⟩
    | looked looked =>
        dsimp only
        rw [looked.table]
        exact ⟨now, hrow, hhash, hmoved (hasWritten_settle _)⟩
    | wrote tenant columns encoded =>
        obtain ⟨htotal, hactive⟩ := hfresh now hrow
        have hid : tenant.tenantId = row.tenantId := hids tenant rfl
        have hstanding :=
          standing_of_encodeColumns encoded now (env.now m.shared.ticks)
        have htokens := (congrArg Standing.totalTokensUsed hstanding).trans
          (Change.totalTokensUsed_apply ..)
        have hflag : (tenant.isActive = false ∨ (clients i).change = .deactivate) →
            (now.setColumns columns (env.now m.shared.ticks)).isActive = false :=
          fun h => (congrArg Standing.isActive hstanding).trans
            (Change.isActive_apply _ _ _ h)
        refine ⟨now.setColumns columns (env.now m.shared.ticks), ?_, hhash,
          hwrote _ rfl rfl ?_ (fun h => hflag (hactive h)) fun h => hflag (Or.inr h)⟩
        · rw [hid]
          exact m.shared.byId_assign env hrow columns
        · rw [← htotal]
          exact htokens
    | refused tenant r => exact ⟨now, hrow, hhash, hmoved rfl⟩
    | invalidated tenant => exact ⟨now, hrow, hhash, hmoved rfl⟩
    | ended stage done => exact ⟨now, hrow, hhash, hmoved rfl⟩

end Steps
end Tally

/-! ## Runs -/

section Runs

variable {ι : Type} [DecidableEq ι] [Fintype ι]

/-- The clients before any of them has begun. -/
def beginClients (clients : ι → Client) (s : Store) : System ι ClientStage Store :=
  ⟨fun i => (clients i).start, s⟩

omit [DecidableEq ι] in
theorem tallied_begin {env : Env} {clients : ι → Client} {s : Store} {row : TenantRow}
    (hrow : s.table.byId row.tenantId = some row)
    (hentry : ∀ found ∈ s.cached env row.apiKeyHash, found.tenantId = row.tenantId) :
    Tallied env clients row (beginClients clients s) := by
  have hstart : ∀ i, ((clients i).start).held = none ∧
      ((clients i).start).hasWritten = false := by
    intro i
    unfold Client.start
    split
    · exact ⟨rfl, rfl⟩
    · exact ⟨rfl, rfl⟩
  refine ⟨?_, hentry, row, hrow, rfl, ?_, ?_⟩
  · intro i tenant hheld
    cases (hstart i).1.symm.trans hheld
  · have hnothing : ∑ i, share (clients i) ((beginClients clients s).stages i) = 0 :=
      Finset.sum_eq_zero fun i _ => by
        rw [beginClients, share, (hstart i).2]
        rfl
    omega
  · intro i hwritten
    cases (hstart i).2.symm.trans hwritten

/-- When all clients have finished, the row counts the tokens of all of them,
and is inactive if one of them deactivates the tenant. -/
def NothingLost (env : Env) (clients : ι → Client) (s : Store) (row : TenantRow)
    (inputs : List ι) : Prop :=
  (∀ i, (final (stepClient env row.tenantId row.apiKeyHash clients)
      (beginClients clients s) inputs).stages i = .finished) →
    ∃ now, (final (stepClient env row.tenantId row.apiKeyHash clients)
        (beginClients clients s) inputs).shared.table.byId row.tenantId = some now ∧
      now.totalTokensUsed = row.totalTokensUsed + ∑ i, (clients i).change.tokens ∧
      ((∃ i, (clients i).change = .deactivate) → now.isActive = false)

end Runs

/-- One client deducts five tokens, the other seven. -/
def sampleClients (first : Bool) : Client where
  readsById := true
  change := .deductQuota (if first then 5 else 7)

/-- Nothing is lost in a run whose steps are fresh. -/
theorem nothingLost_of_fresh {ι : Type} [DecidableEq ι] [Fintype ι] {env : Env}
    (clients : ι → Client) {s : Store} {row : TenantRow}
    (hrow : s.table.byId row.tenantId = some row)
    (hentry : ∀ found ∈ s.cached env row.apiKeyHash, found.tenantId = row.tenantId)
    (inputs : List ι)
    (hfresh : ∀ t ∈ trace (stepClient env row.tenantId row.apiKeyHash clients)
      (beginClients clients s) inputs, Fresh clients row.tenantId t.before t.input) :
    NothingLost env clients s row inputs := by
  intro hfinished
  obtain ⟨now, hnow, -, htotal, hinactive⟩ :=
    (final_of_steps (I := Tallied env clients row) (Fresh clients row.tenantId)
      (fun _ _ hm hf => hm.step hf) (tallied_begin hrow hentry) hfresh).row
  refine ⟨now, hnow, ?_, ?_⟩
  · rw [htotal]
    refine congrArg (row.totalTokensUsed + ·) (Finset.sum_congr rfl fun i _ => ?_)
    rw [hfinished i]
    rfl
  · intro h
    obtain ⟨i, hchange⟩ := h
    exact hinactive i (by rw [hfinished i]; rfl) hchange

/-- Two clients, one after the other. -/
theorem nothingLost_sample :
    NothingLost sampleEnv sampleClients (Store.start sampleTable) sampleRow
      [true, true, true, false, false, false] := by
  refine nothingLost_of_fresh sampleClients
    (TenantTable.byId_of_byHash byHash_sampleTable) (by simp [Store.cached, Store.start]) _ ?_
  intro t ht
  simp only [trace, List.mem_cons, List.not_mem_nil, or_false] at ht
  rcases ht with rfl | rfl | rfl | rfl | rfl | rfl
  · trivial
  · intro now hnow
    have hrow : sampleTable.byId sampleRow.tenantId = some sampleRow := rfl
    obtain rfl := Option.some.inj (hrow.symm.trans hnow)
    exact ⟨rfl, fun h => by cases h⟩
  · trivial
  · trivial
  · intro now hnow
    have hrow : ((Store.start sampleTable).assign sampleEnv sampleRow.tenantId
        { sampleRow.columns with tokensUsedThisMonth := 5, totalTokensUsed := 5 }).table.byId
          sampleRow.tenantId = some _ := Store.byId_assign sampleEnv _ rfl _
    obtain rfl := Option.some.inj (hrow.symm.trans hnow)
    exact ⟨rfl, fun h => by cases h⟩
  · trivial

/-- Two clients that read before either of them writes. -/
theorem not_nothingLost_overlap :
    ¬ ∀ (ι : Type) (_ : DecidableEq ι) (_ : Fintype ι) (env : Env) (clients : ι → Client)
        (s : Store) (row : TenantRow) (inputs : List ι),
      s.table.byId row.tenantId = some row →
      s.cached env row.apiKeyHash = none →
      (∀ i tokens, (clients i).change = .deductQuota tokens → 0 ≤ tokens) →
      NothingLost env clients s row inputs := by
  intro h
  have htokens : ∀ first tokens, (sampleClients first).change = .deductQuota tokens →
      0 ≤ tokens := by
    intro first tokens hchange
    cases first with
    | false => cases hchange; decide
    | true => cases hchange; decide
  obtain ⟨now, hnow, htotal, -⟩ := h Bool inferInstance inferInstance sampleEnv sampleClients
    (Store.start sampleTable) sampleRow [true, false, true, true, false, false]
    (TenantTable.byId_of_byHash byHash_sampleTable) rfl htokens (by
      intro i
      cases i with
      | false => rfl
      | true => rfl)
  have hfinal : ((final (stepClient sampleEnv sampleRow.tenantId sampleRow.apiKeyHash
      sampleClients) (beginClients sampleClients (Store.start sampleTable))
      [true, false, true, true, false, false]).shared.table.byId sampleRow.tenantId).map
        TenantRow.totalTokensUsed = some 7 := rfl
  rw [hnow, Option.map_some, htotal] at hfinal
  exact absurd hfinal (by decide)

end PostgresTenantRepository
end AiBackend

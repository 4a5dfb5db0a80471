import AiBackend.Support.Run
import AiBackend.Tenancy.TimedCalls

/-!
# How old an answer of the tenant cache can be

Lookups, saves, updates and deletions run at the same time and can fail at any
statement.  An entry is what a lookup has read from the table, and lives for
five minutes.  So whatever writers do and fail to invalidate, an answer is what
the row said at some moment of the last five minutes, or as long before as a
lookup takes from its query to its write.
-/

namespace AiBackend
namespace PostgresTenantRepository

open Program Run Interleaving

variable {ι : Type}

abbrev Taken (ι : Type) := Transition (System ι CallPoint TimedStore) (ι × Tick)

/-- The time of a transition. -/
def time (t : Taken ι) : ℚ := t.input.2.time

/-- What the row of the hash said before a transition of the past agrees with
the answer. -/
def Said (past : List (Taken ι)) (apiKeyHash : String) (answer : Option Tenant)
    (moment : ℚ → Prop) : Prop :=
  ∃ t ∈ past, moment (time t) ∧
    Option.Rel Reports answer (t.before.shared.table.byHash apiKeyHash)

/-- A lookup takes at most this long from its query to its write. -/
def Prompt (delay : ℚ) (t : Taken ι) : Prop :=
  ∀ apiKeyHash tenant since,
    t.before.stages t.input.1 = .fetched apiKeyHash tenant since → time t ≤ since + delay

/-- What the cache and the lookups hold was said by the table. -/
structure Witnessed (env : Env) (delay : ℚ) (past : List (Taken ι))
    (m : System ι CallPoint TimedStore) : Prop where
  entries : m.shared.cache.Set cacheTtl fun key raw set =>
    ∀ apiKeyHash tenant, key = cacheKey apiKeyHash → readEntry env raw = some tenant →
      Said past apiKeyHash (some tenant) fun u => set - delay ≤ u
  fetched : ∀ i apiKeyHash tenant since, m.stages i = .fetched apiKeyHash tenant since →
    Said past apiKeyHash (some tenant) fun u => u = since

/-- Calls that have not begun, and an empty cache. -/
structure Opening (m : System ι CallPoint TimedStore) : Prop where
  cache : m.shared.cache = Expiring.empty
  calls : ∀ i, match m.stages i with
    | .looking _ => True
    | .saving _ => True
    | .updating _ => True
    | .deleting _ => True
    | _ => False

/-! ## One step -/

section Said

variable {past : List (Taken ι)} {t : Taken ι} {apiKeyHash : String} {answer : Option Tenant}
  {p q : ℚ → Prop}

theorem Said.later (h : Said past apiKeyHash answer p) (t : Taken ι) :
    Said (past ++ [t]) apiKeyHash answer p := by
  obtain ⟨u, hu, hp, hrel⟩ := h
  exact ⟨u, List.mem_append_left _ hu, hp, hrel⟩

theorem Said.imp (h : Said past apiKeyHash answer p) (himp : ∀ u, p u → q u) :
    Said past apiKeyHash answer q := by
  obtain ⟨u, hu, hp, hrel⟩ := h
  exact ⟨u, hu, himp _ hp, hrel⟩

end Said

section Steps

variable [DecidableEq ι] {env : Env} {delay : ℚ} {past : List (Taken ι)}
  {m : System ι CallPoint TimedStore} {i : ι} {tick : Tick}

/-- The store after a write to the cache. -/
theorem finalState_setEntry (env : Env) (tick : Tick) (apiKeyHash : String) (tenant : Tenant)
    (s : TimedStore) :
    finalState ((setEntry env tick apiKeyHash tenant).run s) =
      if Storable env tenant then
        { s with
          cache := s.cache.setex (cacheKey apiKeyHash) tick.time cacheTtl (entryText env tenant) }
      else s := by
  by_cases h : Storable env tenant
  · have hdumps : JsonText.dumps (.dict (tenant.dumpEntries env.datetimes)) =
        .ok (entryText env tenant) := if_pos h
    rw [setEntry, hdumps, if_pos h]
    rfl
  · obtain ⟨e, hdumps⟩ : ∃ e, JsonText.dumps (.dict (tenant.dumpEntries env.datetimes)) =
        .error e := ⟨_, if_neg h⟩
    rw [setEntry, hdumps, if_neg h]
    rfl

theorem cache_statement {α : Type} (tick : Tick) (s : TimedStore) (prog : Prog α) :
    (finalState ((tick.statement prog).run s)).cache = s.cache := by
  rw [put_of_statement]
  rfl

/-- Only two statements write the cache. -/
theorem cache_effect (env : Env) (tick : Tick) (s : TimedStore) (point : CallPoint) :
    (point.effect env tick s).cache = s.cache ∨
      (∃ apiKeyHash tenant since, point = .fetched apiKeyHash tenant since ∧
        Storable env tenant ∧ (point.effect env tick s).cache =
          s.cache.setex (cacheKey apiKeyHash) tick.time cacheTtl (entryText env tenant)) ∨
      ∃ tenant, point = .invalidating tenant ∧
        (point.effect env tick s).cache = s.cache.delete (cacheKey tenant.apiKeyHash) := by
  cases point with
  | missed apiKeyHash => exact .inl (cache_statement tick s _)
  | fetched apiKeyHash tenant since =>
      rw [CallPoint.effect, finalState_setEntry]
      by_cases h : Storable env tenant
      · rw [if_pos h]
        exact .inr (.inl ⟨apiKeyHash, tenant, since, rfl, h, rfl⟩)
      · rw [if_neg h]
        exact .inl rfl
  | saving tenant => exact .inl (cache_statement tick s _)
  | updating tenant => exact .inl (cache_statement tick s _)
  | invalidating tenant => exact .inr (.inr ⟨tenant, rfl, rfl⟩)
  | deleting tenantId => exact .inl (cache_statement tick s _)
  | _ => exact .inl rfl

theorem leaves_cases (tick : Tick) (s after : TimedStore) :
    tick.leaves s after = after ∨ tick.leaves s after = s := by
  unfold Tick.leaves
  split
  · exact .inl rfl
  · split
    · exact .inl rfl
    · exact .inr rfl

abbrev taken (env : Env) (m : System ι CallPoint TimedStore) (i : ι) (tick : Tick) : Taken ι :=
  ⟨m, (i, tick), stepPoint env m (i, tick)⟩

theorem witnessed_entries (h : Witnessed env delay past m)
    (hprompt : Prompt delay (taken env m i tick)) :
    (stepPoint env m (i, tick)).shared.cache.Set cacheTtl fun key raw set =>
      ∀ apiKeyHash tenant, key = cacheKey apiKeyHash → readEntry env raw = some tenant →
        Said (past ++ [taken env m i tick]) apiKeyHash (some tenant) fun u => set - delay ≤ u := by
  have hbefore := h.entries.imp fun key raw set hset apiKeyHash tenant hkey hread =>
    (hset apiKeyHash tenant hkey hread).later (taken env m i tick)
  rw [shared_stepPoint]
  rcases leaves_cases tick m.shared ((m.stages i).effect env tick m.shared) with hafter | hsame
  · rw [hafter]
    obtain hcache | ⟨apiKeyHash, tenant, since, hpoint, hstorable, hcache⟩ |
      ⟨tenant, hpoint, hcache⟩ := cache_effect env tick m.shared (m.stages i)
    · rw [hcache]
      exact hbefore
    · rw [hcache]
      refine hbefore.setex fun other found hkey hread => ?_
      obtain rfl := cacheKey_injective hkey
      rw [readEntry_entryText env hstorable] at hread
      obtain rfl := Option.some.inj hread
      have hlate := hprompt _ _ _ hpoint
      refine ((h.fetched i _ _ _ hpoint).later _).imp fun u hu => ?_
      rw [hu]
      change tick.time ≤ since + delay at hlate
      linarith
    · rw [hcache]
      exact hbefore.delete _
  · rw [hsame]
    exact hbefore

/-- A step keeps the cache and the lookups witnessed. -/
theorem witnessed_step (h : Witnessed env delay past m)
    (hprompt : Prompt delay (taken env m i tick)) :
    Witnessed env delay (past ++ [taken env m i tick]) (stepPoint env m (i, tick)) where
  entries := witnessed_entries h hprompt
  fetched := by
    intro j apiKeyHash tenant since hstage
    by_cases hij : j = i
    · subst hij
      have hgoes := goes_stepPoint env m j tick
      rw [hstage] at hgoes
      generalize hpoint : m.stages j = point at hgoes
      cases hgoes with
      | found apiKeyHash row stored =>
          refine ⟨taken env m j tick, List.mem_append_right _ (List.mem_singleton_self _), rfl, ?_⟩
          change Option.Rel Reports _ (m.shared.table.byHash apiKeyHash)
          rw [stored]
          exact .some (reports_rowToTenant row _)
      | stays point => exact (h.fetched j _ _ _ hpoint).later _
    · rw [stages_stepPoint_of_ne env m i tick hij] at hstage
      exact (h.fetched j _ _ _ hstage).later _

/-- A lookup ends with what it has read from the cache, has not found in the
table, or has fetched. -/
theorem answered_cases {apiKeyHash : String} {answer : Option Tenant}
    (hafter : (stepPoint env m (i, tick)).stages i = .answered apiKeyHash answer)
    (hbefore : ∀ answer, m.stages i ≠ .answered apiKeyHash answer) :
    (∃ tenant, answer = some tenant ∧
        (m.shared.at tick.time).cached env apiKeyHash = some tenant) ∨
      (answer = none ∧ m.shared.table.byHash apiKeyHash = none) ∨
      ∃ tenant since, answer = some tenant ∧
        m.stages i = .fetched apiKeyHash tenant since := by
  have hgoes := goes_stepPoint env m i tick
  rw [hafter] at hgoes
  generalize hpoint : m.stages i = point at hgoes
  cases hgoes with
  | hit apiKeyHash tenant cached => exact .inl ⟨tenant, rfl, cached⟩
  | absent apiKeyHash stored => exact .inr (.inl ⟨rfl, stored⟩)
  | answered apiKeyHash tenant since => exact .inr (.inr ⟨tenant, since, rfl, rfl⟩)
  | stays point => exact absurd hpoint (hbefore answer)

/-- The answer of a lookup was said by the table less than the life of an entry
and the time of a lookup ago. -/
theorem Witnessed.said (h : Witnessed env delay past m) (hdelay : 0 ≤ delay)
    (hprompt : Prompt delay (taken env m i tick)) {apiKeyHash : String}
    {answer : Option Tenant}
    (hafter : (stepPoint env m (i, tick)).stages i = .answered apiKeyHash answer)
    (hbefore : ∀ answer, m.stages i ≠ .answered apiKeyHash answer) :
    Said (past ++ [taken env m i tick]) apiKeyHash answer
      fun u => tick.time - (cacheTtl + delay) < u := by
  have hlife : (0 : ℚ) < cacheTtl := by norm_num [cacheTtl]
  obtain ⟨tenant, rfl, hcached⟩ | ⟨rfl, hrow⟩ | ⟨tenant, since, rfl, hpoint⟩ :=
    answered_cases hafter hbefore
  · obtain ⟨raw, hraw, hread⟩ := Option.bind_eq_some_iff.mp hcached
    obtain ⟨set, hset, hsaid⟩ := h.entries.get hraw
    refine ((hsaid apiKeyHash tenant rfl hread).later _).imp fun u hu => ?_
    linarith
  · refine ⟨taken env m i tick, List.mem_append_right _ (List.mem_singleton_self _), ?_, ?_⟩
    · change tick.time - (cacheTtl + delay) < tick.time
      linarith
    · change Option.Rel Reports none (m.shared.table.byHash apiKeyHash)
      rw [hrow]
      exact .none
  · have hlate : tick.time ≤ since + delay := hprompt _ _ _ hpoint
    refine ((h.fetched i _ _ _ hpoint).later _).imp fun u hu => ?_
    rw [hu]
    linarith

end Steps

/-! ## Runs -/

section Runs

variable {env : Env} {delay : ℚ} {m : System ι CallPoint TimedStore}

theorem Opening.witnessed (h : Opening m) : Witnessed env delay [] m where
  entries := by
    rw [h.cache]
    exact Expiring.set_empty _ _
  fetched := by
    intro i apiKeyHash tenant since hstage
    have hcall := h.calls i
    rw [hstage] at hcall
    exact hcall.elim

variable [DecidableEq ι]

theorem witnessed_final (h : Opening m) (inputs : List (ι × Tick))
    (hprompt : ∀ t ∈ trace (stepPoint env) m inputs, Prompt delay t) :
    Witnessed env delay (trace (stepPoint env) m inputs) (final (stepPoint env) m inputs) :=
  history_of_steps (G := fun past => ∀ t ∈ past, Prompt delay t)
    (I := fun past m => Witnessed env delay past m)
    (fun _ _ h => fun t ht => h t (List.mem_append_left _ ht))
    (fun _ _ _ h hgood => witnessed_step h
      (hgood _ (List.mem_append_right _ (List.mem_singleton_self _))))
    h.witnessed inputs hprompt

/-- However the calls interleave and fail, the answer of a lookup is what the
row of its hash said at a moment of the run that is less than five minutes ago,
and as long before as a lookup takes from its query to its write. -/
theorem answer_is_recent (env : Env) (delay : ℚ) (hdelay : 0 ≤ delay)
    (m : System ι CallPoint TimedStore) (hopening : Opening m)
    (inputs : List (ι × Tick)) (i : ι) (tick : Tick)
    (hclock : ((inputs ++ [(i, tick)]).map fun input => input.2.time).Pairwise (· ≤ ·))
    (hprompt : ∀ t ∈ trace (stepPoint env) m (inputs ++ [(i, tick)]), Prompt delay t)
    (apiKeyHash : String) (answer : Option Tenant)
    (hbefore : ∀ answer, (final (stepPoint env) m inputs).stages i ≠
      .answered apiKeyHash answer)
    (hafter : (final (stepPoint env) m (inputs ++ [(i, tick)])).stages i =
      .answered apiKeyHash answer) :
    ∃ u ∈ trace (stepPoint env) m (inputs ++ [(i, tick)]),
      tick.time - (cacheTtl + delay) < time u ∧ time u ≤ tick.time ∧
        Option.Rel Reports answer (u.before.shared.table.byHash apiKeyHash) := by
  have htrace : trace (stepPoint env) m (inputs ++ [(i, tick)]) =
      trace (stepPoint env) m inputs ++ [taken env (final (stepPoint env) m inputs) i tick] :=
    trace_append _ _ _ _
  have hlast : ∀ u ∈ trace (stepPoint env) m (inputs ++ [(i, tick)]), time u ≤ tick.time := by
    intro u hu
    have hinput := input_mem_of_mem_trace hu
    rw [List.mem_append] at hinput
    rw [List.map_append, List.pairwise_append] at hclock
    rcases hinput with hinput | hinput
    · exact hclock.2.2 _ (List.mem_map_of_mem hinput) _ (List.mem_singleton_self _)
    · exact (congrArg (fun input : ι × Tick => input.2.time) (List.mem_singleton.mp hinput)).le
  rw [htrace] at hprompt hlast ⊢
  have hwitnessed := witnessed_final hopening inputs fun t ht =>
    hprompt t (List.mem_append_left _ ht)
  rw [final_append] at hafter
  obtain ⟨u, hu, hrecent, hrel⟩ := hwitnessed.said hdelay
    (hprompt _ (List.mem_append_right _ (List.mem_singleton_self _))) hafter hbefore
  exact ⟨u, hu, hrecent, hlast u hu, hrel⟩

end Runs

/-- A deletion and a lookup of the sample tenant. -/
def sampleOpening : System Bool CallPoint TimedStore where
  stages := fun deletes =>
    if deletes then .deleting sampleRow.tenantId else .looking sampleRow.apiKeyHash
  shared := ⟨sampleTable, Expiring.empty, 0, 0⟩

theorem opening_sampleOpening : Opening sampleOpening where
  cache := rfl
  calls := by
    intro i
    cases i with
    | false => trivial
    | true => trivial

/-- The tenant is deleted at time 0 and looked up at time 400. -/
def sampleRefusal : List (Bool × Tick) :=
  [(true, ⟨0, none⟩), (false, ⟨400, none⟩), (false, ⟨400, none⟩)]

/-- The row after the deletion, as it is read. -/
def sampleRefused : Tenant := rowToTenant (sampleRow.setInactive 0) ⟨2⟩

theorem stages_sampleRefusal :
    (final (stepPoint sampleEnv) sampleOpening sampleRefusal).stages false =
      .fetched sampleRow.apiKeyHash sampleRefused 400 := rfl

theorem answered_sampleRefusal :
    (final (stepPoint sampleEnv) sampleOpening (sampleRefusal ++ [(false, ⟨400, none⟩)])).stages
        false = .answered sampleRow.apiKeyHash (some sampleRefused) := rfl

theorem prompt_sampleRefusal :
    ∀ t ∈ trace (stepPoint sampleEnv) sampleOpening (sampleRefusal ++ [(false, ⟨400, none⟩)]),
      Prompt 0 t := by
  intro t ht
  simp only [sampleRefusal, List.cons_append, List.nil_append, trace, List.mem_cons,
    List.not_mem_nil, or_false] at ht
  rcases ht with rfl | rfl | rfl | rfl
  · rintro apiKeyHash tenant since hstage
    cases (show CallPoint.deleting _ = .fetched apiKeyHash tenant since from hstage)
  · rintro apiKeyHash tenant since hstage
    cases (show CallPoint.looking _ = .fetched apiKeyHash tenant since from hstage)
  · rintro apiKeyHash tenant since hstage
    cases (show CallPoint.missed _ = .fetched apiKeyHash tenant since from hstage)
  · rintro apiKeyHash tenant since hstage
    cases (show CallPoint.fetched _ sampleRefused 400 = .fetched apiKeyHash tenant since
      from hstage)
    norm_num [time]

theorem answer_is_recent_sample :
    ∃ u ∈ trace (stepPoint sampleEnv) sampleOpening
        (sampleRefusal ++ [(false, ⟨400, none⟩)]),
      400 - (cacheTtl + 0) < time u ∧ time u ≤ 400 ∧
        Option.Rel Reports (some sampleRefused)
          (u.before.shared.table.byHash sampleRow.apiKeyHash) :=
  answer_is_recent sampleEnv 0 le_rfl sampleOpening opening_sampleOpening sampleRefusal false
    ⟨400, none⟩ (by norm_num [sampleRefusal]) prompt_sampleRefusal sampleRow.apiKeyHash
    (some sampleRefused) (fun answer h => by rw [stages_sampleRefusal] at h; cases h)
    answered_sampleRefusal

/-! ## A tenant that is no longer active -/

/-- The tenant of the hash is not active. -/
def Revoked (tenantId : TenantId) (apiKeyHash : String) (table : TenantTable) : Prop :=
  ∃ row, table.byHash apiKeyHash = some row ∧ row.tenantId = tenantId ∧ row.isActive = false

/-- The transition does not write the tenant active again. -/
def LeavesInactive (tenantId : TenantId) (t : Taken ι) : Prop :=
  ∀ tenant, t.before.stages t.input.1 = .updating tenant → tenant.tenantId = tenantId →
    tenant.isActive = false

section Revoked

variable {tenantId : TenantId} {apiKeyHash : String} {table : TenantTable}

theorem Revoked.modify (h : Revoked tenantId apiKeyHash table) (other : TenantId)
    {f : TenantRow → TenantRow} (hid : ∀ row, (f row).tenantId = row.tenantId)
    (hhash : ∀ row, (f row).apiKeyHash = row.apiKeyHash)
    (hinactive : ∀ row, row.isActive = false → other = tenantId → (f row).isActive = false) :
    Revoked tenantId apiKeyHash (table.modify other f hid hhash) := by
  obtain ⟨row, hrow, rfl, hoff⟩ := h
  cases hfound : table.byId other with
  | none =>
      rw [TenantTable.modify_of_absent hfound]
      exact ⟨row, hrow, rfl, hoff⟩
  | some found =>
      rw [Revoked, TenantTable.byHash_modify hfound]
      by_cases hsame : apiKeyHash = found.apiKeyHash
      · have hfoundRow : found = row := by
          rw [hsame, TenantTable.byHash_of_byId hfound] at hrow
          exact Option.some.inj hrow
        have hother : other = row.tenantId := by
          rw [← hfoundRow]
          exact (table.byId_eq_some_iff.mp hfound).2.symm
        rw [hsame, Function.update_self, hfoundRow]
        exact ⟨f row, rfl, hid row, hinactive row hoff hother⟩
      · rw [Function.update_of_ne hsame]
        exact ⟨row, hrow, rfl, hoff⟩

theorem Revoked.insert (h : Revoked tenantId apiKeyHash table) {row : TenantRow}
    {table' : TenantTable} (hinsert : table.insert row = .ok table') :
    Revoked tenantId apiKeyHash table' := by
  by_cases hid : row.tenantId ∈ table.rows.items.map TenantRow.tenantId
  · rw [TenantTable.insert_of_taken hid] at hinsert
    obtain rfl := Except.ok.inj hinsert
    exact h
  · obtain ⟨hnew, hrows⟩ := TenantTable.byHash_insert hid hinsert
    obtain ⟨old, hold, hrest⟩ := h
    have hne : apiKeyHash ≠ row.apiKeyHash := by
      rintro rfl
      rw [hnew] at hold
      cases hold
    rw [Revoked, hrows, Function.update_of_ne hne]
    exact ⟨old, hold, hrest⟩

theorem isActive_of_encodeColumns {env : Env} {tenant : Tenant} {columns : TenantColumns}
    (h : encodeColumns env 4 tenant = .ok columns) : columns.isActive = tenant.isActive := by
  unfold encodeColumns at h
  obtain ⟨_, _, h⟩ := except_bind_eq_ok_iff.mp h
  obtain ⟨_, _, h⟩ := except_bind_eq_ok_iff.mp h
  obtain ⟨_, _, h⟩ := except_bind_eq_ok_iff.mp h
  obtain ⟨_, _, h⟩ := except_bind_eq_ok_iff.mp h
  exact (congrArg TenantColumns.isActive (Except.ok.inj h)).symm

/-- Statements keep the tenant inactive, but for an update that writes it
active. -/
theorem Revoked.effect {env : Env} {tick : Tick} {s : TimedStore} {point : CallPoint}
    (h : Revoked tenantId apiKeyHash s.table)
    (hleaves : ∀ tenant, point = .updating tenant → tenant.tenantId = tenantId →
      tenant.isActive = false) :
    Revoked tenantId apiKeyHash (point.effect env tick s).table := by
  cases point with
  | missed other =>
      rw [CallPoint.effect]
      cases hrow : s.table.byHash other with
      | some row =>
          rw [run_lookupTable_some hrow]
          exact h
      | none =>
          rw [run_lookupTable_none hrow]
          exact h
  | fetched other tenant since =>
      rw [CallPoint.effect, finalState_setEntry]
      split
      · exact h
      · exact h
  | saving tenant =>
      rw [CallPoint.effect, put_of_statement]
      have hsave : finalState ((save env tenant).run (s.at tick.time)) =
          step env (s.at tick.time) (.save tenant) :=
        (finalState_bind_pure _ _ _).symm
      rw [hsave]
      obtain hsame | ⟨row, table', hinsert, hstep⟩ := step_save env (s.at tick.time) tenant
      · rw [hsame]
        exact h
      · rw [hstep]
        exact h.insert hinsert
  | updating tenant =>
      rw [CallPoint.effect, put_of_statement]
      cases hencode : encodeColumns env 4 tenant with
      | error e =>
          rw [run_updateTable_error hencode]
          exact h
      | ok columns =>
          rw [run_updateTable_ok hencode]
          refine h.modify tenant.tenantId (TenantRow.tenantId_setColumns columns _)
            (TenantRow.apiKeyHash_setColumns columns _) fun row _ hid => ?_
          exact (isActive_of_encodeColumns hencode).trans (hleaves tenant rfl hid)
  | deleting other =>
      rw [CallPoint.effect, put_of_statement]
      exact h.modify other (TenantRow.tenantId_setInactive _)
        (TenantRow.apiKeyHash_setInactive _) fun _ _ _ => rfl
  | _ => exact h

variable [DecidableEq ι] {env : Env} {m : System ι CallPoint TimedStore}

/-- Once it is inactive, the tenant is so before every later transition that
does not follow one that writes it active. -/
theorem Revoked.trace (h : Revoked tenantId apiKeyHash m.shared.table)
    (inputs : List (ι × Tick))
    (hleaves : ∀ t ∈ trace (stepPoint env) m inputs, LeavesInactive tenantId t) :
    ∀ t ∈ trace (stepPoint env) m inputs,
      Revoked tenantId apiKeyHash t.before.shared.table := by
  refine trace_of_steps (I := fun m : System ι CallPoint TimedStore =>
      Revoked tenantId apiKeyHash m.shared.table)
    (L := fun t => Revoked tenantId apiKeyHash t.before.shared.table)
    (fun m input => LeavesInactive tenantId ⟨m, input, stepPoint env m input⟩) ?_
    (fun _ _ hm _ => hm) h ?_
  · rintro m ⟨i, tick⟩ hm hgood
    rw [shared_stepPoint]
    rcases leaves_cases tick m.shared ((m.stages i).effect env tick m.shared) with hafter | hsame
    · rw [hafter]
      exact hm.effect hgood
    · rw [hsame]
      exact hm
  · exact fun t ht => hleaves t ht

/-- Five minutes and a lookup after a tenant has become inactive, and as long as
no update writes it active again, every lookup of its API key finds it inactive,
whatever happens to the entries of the cache. -/
theorem revoked_is_refused (env : Env) (delay : ℚ) (hdelay : 0 ≤ delay)
    (m : System ι CallPoint TimedStore) (hopening : Opening m)
    (earlier later : List (ι × Tick)) (i : ι) (tick : Tick)
    (hclock : ((earlier ++ (later ++ [(i, tick)])).map fun input => input.2.time).Pairwise
      (· ≤ ·))
    (hprompt : ∀ t ∈ trace (stepPoint env) m (earlier ++ (later ++ [(i, tick)])),
      Prompt delay t)
    (tenantId : TenantId) (apiKeyHash : String) (since : ℚ)
    (hrevoked : Revoked tenantId apiKeyHash
      (final (stepPoint env) m earlier).shared.table)
    (hsince : ∀ input ∈ earlier, input.2.time ≤ since)
    (hleaves : ∀ t ∈ trace (stepPoint env) (final (stepPoint env) m earlier)
      (later ++ [(i, tick)]), LeavesInactive tenantId t)
    (hlate : since + (cacheTtl + delay) ≤ tick.time) (answer : Option Tenant)
    (hbefore : ∀ answer, (final (stepPoint env) m (earlier ++ later)).stages i ≠
      .answered apiKeyHash answer)
    (hafter : (final (stepPoint env) m (earlier ++ (later ++ [(i, tick)]))).stages i =
      .answered apiKeyHash answer) :
    ∃ tenant, answer = some tenant ∧ tenant.isActive = false := by
  rw [← List.append_assoc] at hclock hprompt hafter
  obtain ⟨u, hu, hrecent, -, hrel⟩ := answer_is_recent env delay hdelay m hopening
    (earlier ++ later) i tick hclock hprompt apiKeyHash answer hbefore hafter
  rw [List.append_assoc, trace_append, List.mem_append] at hu
  have hlater : u ∈ trace (stepPoint env) (final (stepPoint env) m earlier)
      (later ++ [(i, tick)]) := by
    refine hu.resolve_left fun hearly => ?_
    have hold := hsince _ (input_mem_of_mem_trace hearly)
    change time u ≤ since at hold
    linarith
  obtain ⟨row, hrow, -, hinactive⟩ := hrevoked.trace _ hleaves u hlater
  rw [hrow] at hrel
  cases hrel with
  | some hreports => exact ⟨_, rfl, (congrArg TenantColumns.isActive hreports.2).trans hinactive⟩

end Revoked

theorem revoked_is_refused_sample :
    ∃ tenant, some sampleRefused = some tenant ∧ tenant.isActive = false := by
  refine revoked_is_refused sampleEnv 0 le_rfl sampleOpening opening_sampleOpening
    [(true, ⟨0, none⟩)] [(false, ⟨400, none⟩), (false, ⟨400, none⟩)] false ⟨400, none⟩
    (by norm_num) prompt_sampleRefusal sampleRow.tenantId sampleRow.apiKeyHash 0
    ⟨sampleRow.setInactive 0, rfl, rfl, rfl⟩ (by norm_num) ?_ (by norm_num [cacheTtl])
    (some sampleRefused) (fun answer h => ?_) answered_sampleRefusal
  · intro t ht tenant hstage
    simp only [List.cons_append, List.nil_append, trace, List.mem_cons,
      List.not_mem_nil, or_false] at ht
    rcases ht with rfl | rfl | rfl
    · cases (show CallPoint.looking _ = .updating tenant from hstage)
    · cases (show CallPoint.missed _ = .updating tenant from hstage)
    · cases (show CallPoint.fetched _ sampleRefused 400 = .updating tenant from hstage)
  · cases stages_sampleRefusal.symm.trans h

end PostgresTenantRepository
end AiBackend

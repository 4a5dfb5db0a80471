import AiBackend.Infrastructure.VectorCollection
import AiBackend.Support.Run
import Mathlib.Data.List.Nodup
import Mathlib.Data.List.Perm.Subperm

/-!
# What a start-up can rely on

`ensure_collection` creates the payload indexes only together with the
collection.  A call that is interrupted in between leaves a collection that no
later call completes.
-/

namespace AiBackend
namespace QdrantVectorRepository

open Program Python Run

/-- A call, with the exceptions its steps raise.  A step that raises has no
effect. -/
structure SetupCall where
  collectionName : String
  vectorSize : ℤ
  fails : SetupSite → Option (Raised PyExc)

/-- The faults of steps that have no effect when they fail. -/
def quiet (fails : SetupSite → Option (Raised PyExc)) : Faults SetupSite PyExc :=
  fun site => (fails site).map fun raised => ⟨raised, false⟩

def SetupCall.prog (call : SetupCall) : SetupProg Unit :=
  ensureCollection (quiet call.fails) call.collectionName call.vectorSize

/-- The server after a call. -/
def setupStep (s : Server) (call : SetupCall) : Server := finalState (call.prog.run s)

/-- The call returns normally. -/
def Returns (s : Server) (call : SetupCall) : Prop := ∃ s', call.prog.run s = .ok () s'

/-- The collection exists and has all its payload indexes. -/
def Complete (s : Server) (collectionName : String) : Prop :=
  ∃ c, s collectionName = some c ∧ ∀ field ∈ indexedPayloadFields, field ∈ c.indexes

/-- A call that returns leaves a complete collection. -/
def Lawful (t : Transition Server SetupCall) : Prop :=
  Returns t.before t.input → Complete t.after t.input.collectionName

/-- The steps of the loop up to the last index. -/
def indexSites (fields : List (String × PayloadSchemaType)) : List SetupSite :=
  (fields.flatMap fun field =>
    [SetupSite.createPayloadIndex field.1, SetupSite.logIndexed field.1]).dropLast

/-- The call creates the collection and fails before its last index is
created. -/
def Interrupted (s : Server) (call : SetupCall) : Prop :=
  s call.collectionName = none ∧ call.fails .collectionExists = none ∧
    call.fails .createCollection = none ∧
      ¬ ∀ site ∈ SetupSite.logCreated :: indexSites indexedPayloadFields, call.fails site = none

/-! ## One call -/

section Call

variable {fails : SetupSite → Option (Raised PyExc)}

theorem run_perform_of_fails {α : Type} {site : SetupSite} {raised : Raised PyExc}
    (h : fails site = some raised) (action : SetupProg α) (s : Server) :
    (perform (quiet fails) site action).run s = .error raised s := by
  simp only [perform, quiet, h]
  rfl

theorem perform_of_passes {α : Type} {site : SetupSite} (h : fails site = none)
    (action : SetupProg α) : perform (quiet fails) site action = action :=
  perform_of_none (by simp [quiet, h])

theorem forall_indexSites_cons {p : SetupSite → Prop} {field : String × PayloadSchemaType}
    {rest : List (String × PayloadSchemaType)} :
    (∀ site ∈ indexSites (field :: rest), p site) ↔
      p (.createPayloadIndex field.1) ∧
        (rest = [] ∨ p (.logIndexed field.1) ∧ ∀ site ∈ indexSites rest, p site) := by
  cases rest with
  | nil => simp [indexSites]
  | cons next rest => simp [indexSites]

/-- The loop adds the first of the fields, and all of them if and only if no
step up to the last index fails. -/
theorem createPayloadIndexes_spec (fails : SetupSite → Option (Raised PyExc)) {name : String}
    (fields : List (String × PayloadSchemaType)) {s : Server} {c : Collection}
    (hc : s name = some c) :
    ∃ done, done <+: fields ∧
      finalState ((createPayloadIndexes (quiet fails) name fields).run s) =
        Function.update s name (some { c with indexes := c.indexes ++ done }) ∧
      (done = fields ↔ ∀ site ∈ indexSites fields, fails site = none) ∧
      ((∃ s', (createPayloadIndexes (quiet fails) name fields).run s = .ok () s') →
        done = fields) := by
  induction fields generalizing s c with
  | nil =>
      refine ⟨[], List.prefix_rfl, ?_, by simp [indexSites], fun _ => rfl⟩
      rw [List.append_nil]
      exact (Function.update_eq_self_iff.mpr hc.symm).symm
  | cons field rest ih =>
      rw [forall_indexSites_cons]
      unfold createPayloadIndexes
      cases hindex : fails (.createPayloadIndex field.1) with
      | some raised =>
          refine ⟨[], List.nil_prefix, ?_, by simp, ?_⟩
          · rw [EStateM.run_bind, run_perform_of_fails hindex, List.append_nil]
            exact (Function.update_eq_self_iff.mpr hc.symm).symm
          · rintro ⟨s', h⟩
            rw [EStateM.run_bind, run_perform_of_fails hindex] at h
            cases h
      | none =>
          let s₁ : Server := Function.update s name
            (some { c with indexes := c.indexes ++ [field] })
          have hrun : (createPayloadIndex name field).run s = .ok () s₁ := by
            simp [createPayloadIndex, hc, s₁]
          have hs₁ : s₁ name = some { c with indexes := c.indexes ++ [field] } :=
            Function.update_self ..
          rw [perform_of_passes hindex, EStateM.run_bind, hrun]
          dsimp only
          cases hlog : fails (.logIndexed field.1) with
          | some raised =>
              refine ⟨[field], ⟨rest, rfl⟩, ?_, by simp [eq_comm], ?_⟩
              · rw [EStateM.run_bind, run_perform_of_fails hlog]
                rfl
              · rintro ⟨s', h⟩
                rw [EStateM.run_bind, run_perform_of_fails hlog] at h
                cases h
          | none =>
              obtain ⟨done, hbegins, hfinal, hall, hreturns⟩ := ih hs₁
              rw [perform_of_passes hlog, pure_bind]
              refine ⟨field :: done, List.cons_prefix_cons.mpr ⟨rfl, hbegins⟩, ?_, ?_, ?_⟩
              · rw [hfinal, Function.update_idem]
                simp
              · simp only [List.cons.injEq, true_and, hall]
                constructor
                · exact Or.inr
                · rintro (rfl | h)
                  · simp [indexSites]
                  · exact h
              · exact fun h => by rw [hreturns h]

/-- A collection that has the first of the fields as indexes is complete if
and only if it has them all. -/
theorem forall_mem_iff_of_begins {done : List (String × PayloadSchemaType)}
    (h : done <+: indexedPayloadFields) :
    (∀ field ∈ indexedPayloadFields, field ∈ done) ↔ done = indexedPayloadFields := by
  constructor
  · intro hall
    have hnodup : indexedPayloadFields.Nodup := by decide
    exact h.eq_of_length (le_antisymm h.length_le (hnodup.subperm hall).length_le)
  · rintro rfl field hfield
    exact hfield

/-- What is done once the collection is there. -/
theorem afterCreation_spec (fails : SetupSite → Option (Raised PyExc)) {name : String}
    {s : Server} {c : Collection} (hc : s name = some c) :
    let prog : SetupProg Unit := do
      perform (quiet fails) .logCreated (pure ())
      createPayloadIndexes (quiet fails) name indexedPayloadFields
    ∃ done, done <+: indexedPayloadFields ∧
      finalState (prog.run s) =
        Function.update s name (some { c with indexes := c.indexes ++ done }) ∧
      (done = indexedPayloadFields ↔
        ∀ site ∈ SetupSite.logCreated :: indexSites indexedPayloadFields, fails site = none) ∧
      ((∃ s', prog.run s = .ok () s') → done = indexedPayloadFields) := by
  dsimp only
  rw [EStateM.run_bind]
  cases hlog : fails .logCreated with
  | some raised =>
      rw [run_perform_of_fails hlog]
      refine ⟨[], List.nil_prefix, ?_, iff_of_false (by decide) ?_, ?_⟩
      · rw [List.append_nil]
        exact (Function.update_eq_self_iff.mpr hc.symm).symm
      · simp [hlog]
      · rintro ⟨s', h⟩
        cases h
  | none =>
      obtain ⟨done, hbegins, hfinal, hall, hreturns⟩ :=
        createPayloadIndexes_spec fails indexedPayloadFields hc
      rw [perform_of_passes hlog]
      refine ⟨done, hbegins, hfinal, ?_, hreturns⟩
      rw [hall, List.forall_mem_cons, and_iff_right hlog]

/-- What a call does: it leaves the server alone, or it creates the collection
with the first of the indexes, and with all of them unless it is
interrupted. -/
theorem setupStep_cases (s : Server) (call : SetupCall) :
    (setupStep s call = s ∧ ¬ Interrupted s call ∧
        (Returns s call → ∃ c, s call.collectionName = some c)) ∨
      s call.collectionName = none ∧ ∃ done, done <+: indexedPayloadFields ∧
        setupStep s call = Function.update s call.collectionName
          (some { size := call.vectorSize, indexes := done }) ∧
        (done = indexedPayloadFields ↔ ¬ Interrupted s call) ∧
        (Returns s call → done = indexedPayloadFields) := by
  unfold setupStep Returns SetupCall.prog ensureCollection
  rw [EStateM.run_bind]
  dsimp only [EStateM.run_get]
  cases hexists : call.fails .collectionExists with
  | some raised =>
      rw [EStateM.run_bind, run_perform_of_fails hexists]
      refine Or.inl ⟨rfl, fun h => ?_, ?_⟩
      · rw [Interrupted, hexists] at h
        cases h.2.1
      · rintro ⟨s', h⟩
        cases h
  | none =>
      rw [perform_of_passes hexists, pure_bind]
      cases hfound : s call.collectionName with
      | some c =>
          rw [if_pos Option.isSome_some]
          refine Or.inl ⟨?_, fun h => ?_, fun _ => ⟨c, rfl⟩⟩
          · cases hlog : call.fails .logExists with
            | some raised =>
                rw [run_perform_of_fails hlog]
                rfl
            | none =>
                rw [perform_of_passes hlog]
                rfl
          · rw [Interrupted, hfound] at h
            cases h.1
      | none =>
          rw [if_neg (by simp), EStateM.run_bind]
          cases hcreate : call.fails .createCollection with
          | some raised =>
              rw [run_perform_of_fails hcreate]
              refine Or.inl ⟨rfl, fun h => ?_, ?_⟩
              · rw [Interrupted, hcreate] at h
                cases h.2.2.1
              · rintro ⟨s', h⟩
                cases h
          | none =>
              let s₁ : Server := Function.update s call.collectionName
                (some { size := call.vectorSize })
              have hs₁ : s₁ call.collectionName = some { size := call.vectorSize } :=
                Function.update_self ..
              have hinterrupted : Interrupted s call ↔ ¬ ∀ site ∈
                  SetupSite.logCreated :: indexSites indexedPayloadFields,
                    call.fails site = none := by
                simp [Interrupted, hfound, hexists, hcreate]
              obtain ⟨done, hbegins, hfinal, hall, hreturns⟩ := afterCreation_spec call.fails hs₁
              rw [perform_of_passes hcreate]
              refine Or.inr ⟨rfl, done, hbegins, ?_, ?_, hreturns⟩
              · refine hfinal.trans ?_
                rw [Function.update_idem]
                rfl
              · rw [hall, hinterrupted, not_not]

end Call

/-! ## Runs of calls -/

section Runs

theorem complete_update {s : Server} {name : String} {size : ℤ}
    {done : List (String × PayloadSchemaType)} (hbegins : done <+: indexedPayloadFields) :
    Complete (Function.update s name (some { size := size, indexes := done })) name ↔
      done = indexedPayloadFields := by
  rw [← forall_mem_iff_of_begins hbegins, Complete, Function.update_self]
  simp

/-- Every collection there is has its indexes. -/
def AllComplete (s : Server) : Prop := ∀ name c, s name = some c → Complete s name

theorem setupStep_of_some {s : Server} {call : SetupCall} {c : Collection}
    (hc : s call.collectionName = some c) : setupStep s call = s := by
  rcases setupStep_cases s call with ⟨hsame, -⟩ | ⟨hnone, -⟩
  · exact hsame
  · rw [hc] at hnone
    cases hnone

/-- An uneventful call that finds the collection returns. -/
theorem returns_of_some {s : Server} {call : SetupCall} {c : Collection}
    (hc : s call.collectionName = some c) (hfails : call.fails = fun _ => none) :
    Returns s call := by
  have hpasses : ∀ site, call.fails site = none := fun site => by rw [hfails]
  refine ⟨s, ?_⟩
  unfold SetupCall.prog ensureCollection
  rw [EStateM.run_bind]
  dsimp only [EStateM.run_get]
  rw [perform_of_passes (hpasses _), pure_bind, hc, if_pos Option.isSome_some,
    perform_of_passes (hpasses _)]
  rfl

/-- No call changes a collection that exists. -/
theorem setupStep_keeps {s : Server} {name : String} {c : Collection} (hc : s name = some c)
    (call : SetupCall) : setupStep s call name = some c := by
  rcases setupStep_cases s call with ⟨hsame, -⟩ | ⟨hnone, done, -, hstep, -⟩
  · rwa [hsame]
  · rw [hstep, Function.update_of_ne]
    · exact hc
    · rintro rfl
      rw [hc] at hnone
      cases hnone

theorem allComplete_setupStep {s : Server} {call : SetupCall} (hs : AllComplete s)
    (h : ¬ Interrupted s call) : AllComplete (setupStep s call) := by
  intro name c hc
  rcases setupStep_cases s call with ⟨hsame, -⟩ | ⟨-, done, hbegins, hstep, hdone, -⟩
  · rw [hsame] at hc ⊢
    exact hs name c hc
  · by_cases hname : name = call.collectionName
    · rw [hname, hstep, complete_update hbegins]
      exact hdone.mpr h
    · have hother : setupStep s call name = s name := by
        rw [hstep, Function.update_of_ne hname]
      rw [Complete, hother]
      exact hs name c (hother ▸ hc)

/-- A call that finds only complete collections is lawful. -/
theorem lawful_of_allComplete {s : Server} (hs : AllComplete s) (call : SetupCall) :
    Lawful ⟨s, call, setupStep s call⟩ := by
  intro hreturns
  rcases setupStep_cases s call with ⟨hsame, -, hfound⟩ | ⟨-, done, hbegins, hstep, -, hdone⟩
  · obtain ⟨c, hc⟩ := hfound hreturns
    dsimp only
    rw [hsame]
    exact hs _ c hc
  · dsimp only
    rw [hstep, complete_update hbegins]
    exact hdone hreturns

/-- What an interrupted call leaves behind, later calls leave as it is. -/
theorem not_complete_of_interrupted {calls : List SetupCall} {s : Server}
    {t : Transition Server SetupCall} (ht : t ∈ trace setupStep s calls)
    (h : Interrupted t.before t.input) :
    ∃ c, final setupStep s calls t.input.collectionName = some c ∧
      ¬ ∀ field ∈ indexedPayloadFields, field ∈ c.indexes := by
  induction calls generalizing s with
  | nil => cases ht
  | cons call calls ih =>
      rw [trace, List.mem_cons] at ht
      rcases ht with rfl | ht
      · rcases setupStep_cases s call with ⟨-, hnot, -⟩ | ⟨-, done, hbegins, hstep, hdone, -⟩
        · exact absurd h hnot
        · let c : Collection := { size := call.vectorSize, indexes := done }
          have hc : setupStep s call call.collectionName = some c := by
            rw [hstep]
            exact Function.update_self ..
          have hkept : final setupStep (setupStep s call) calls call.collectionName = some c :=
            final_of_steps (I := fun s : Server => s call.collectionName = some c) (fun _ _ => True)
              (fun _ next hs _ => setupStep_keeps hs next) hc fun _ _ => trivial
          refine ⟨c, hkept, ?_⟩
          rw [forall_mem_iff_of_begins hbegins, hdone]
          exact not_not.mpr h
      · exact ih ht

/-- However a run of calls goes on, its normal returns leave complete
collections if and only if none of its calls is interrupted. -/
theorem lawful_iff (calls : List SetupCall) :
    (∀ next : SetupCall, ∀ t ∈ trace setupStep (fun _ => none) (calls ++ [next]), Lawful t) ↔
      ∀ t ∈ trace setupStep (fun _ => none) calls, ¬ Interrupted t.before t.input := by
  constructor
  · intro hall t ht hinterrupted
    obtain ⟨c, hc, hincomplete⟩ := not_complete_of_interrupted ht hinterrupted
    let next : SetupCall := ⟨t.input.collectionName, 0, fun _ => none⟩
    let s := final setupStep (fun _ => none) calls
    have hlawful : Lawful ⟨s, next, setupStep s next⟩ := by
      refine hall next _ ?_
      rw [trace_append]
      exact List.mem_append_right _ (List.mem_singleton.mpr rfl)
    have hreturns : Returns s next := returns_of_some hc rfl
    have hsame : setupStep s next = s := setupStep_of_some hc
    obtain ⟨c', hc', hcomplete⟩ := hlawful hreturns
    dsimp only at hc'
    rw [hsame] at hc'
    obtain rfl := Option.some.inj (hc.symm.trans hc')
    exact hincomplete hcomplete
  · intro hgood next t ht
    have hempty : AllComplete fun _ => none := by
      intro name c hc
      cases hc
    have hstep : ∀ s call, AllComplete s → ¬ Interrupted s call → AllComplete (setupStep s call) :=
      fun s call => allComplete_setupStep
    rw [trace_append, List.mem_append] at ht
    rcases ht with ht | ht
    · exact trace_of_steps (fun s call => ¬ Interrupted s call) hstep
        (fun s call hs _ => lawful_of_allComplete hs call) hempty hgood t ht
    · obtain rfl := List.mem_singleton.mp ht
      exact lawful_of_allComplete (final_of_steps _ hstep hempty hgood) next

end Runs

/-- A call that loses the connection behind its first index, and one without
failures. -/
def brokenCalls : List SetupCall :=
  [{ collectionName := "documents"
     vectorSize := 1536
     fails := fun site =>
      if site = .createPayloadIndex "collection_id" then
        some (.exception (.other "ResponseHandlingException" "All connection attempts failed"))
      else none },
    { collectionName := "documents", vectorSize := 1536, fails := fun _ => none }]

/-- The second call returns normally, and two indexes are missing. -/
theorem not_lawful_brokenCalls :
    ¬ ∀ calls : List SetupCall, ∀ t ∈ trace setupStep (fun _ => none) calls, Lawful t := by
  intro hall
  have hsecond := hall brokenCalls _ (List.mem_cons_of_mem _ List.mem_cons_self)
  obtain ⟨c, hc, hcomplete⟩ := hsecond ⟨_, rfl⟩
  cases hc
  exact absurd (hcomplete ("collection_id", .keyword) (by decide)) (by decide)

end QdrantVectorRepository
end AiBackend

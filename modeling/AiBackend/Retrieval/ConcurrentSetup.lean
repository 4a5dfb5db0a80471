import AiBackend.Retrieval.CollectionSetup
import AiBackend.Support.Interleaving

/-!
# Replicas that start at the same time

Any number of replicas call `ensure_collection`, interleaved at their remote
calls.  Between its question whether the collection exists and its creation
another replica may create it; the server then refuses.
-/

namespace AiBackend
namespace QdrantVectorRepository

open Program Python Run Interleaving

/-- How far a call of `ensure_collection` has come.  A call that returns either
has created the collection or has found it. -/
inductive SetupPoint where
  | start
  | found
  | missing
  | created
  | indexing (rest : List (String × PayloadSchemaType))
  | indexed (field : String × PayloadSchemaType) (rest : List (String × PayloadSchemaType))
  | returned (creating : Bool)
  | raised (r : Raised PyExc)

def SetupPoint.Ended : SetupPoint → Prop
  | .returned _ | .raised _ => True
  | _ => False

/-- What a replica calls it with, and the failures of its calls. -/
structure Replica where
  collectionName : String
  vectorSize : ℤ
  faults : Faults SetupSite PyExc

/-- `create_collection`; a server that has the collection refuses. -/
def createCollection (conflict : String → PyExc) (collectionName : String) (vectorSize : ℤ) :
    SetupProg Unit := do
  let s ← get
  if (s collectionName).isSome then throw (.exception (conflict collectionName))
  else modify fun s => Function.update s collectionName (some { size := vectorSize })

section Steps

variable (conflict : String → PyExc) (replica : Replica)

/-- The next call of a replica. -/
def advanceSetup : SetupPoint → SetupProg SetupPoint
  | .start => do
      let s ← get
      let exists' ← perform replica.faults .collectionExists
        (pure (s replica.collectionName).isSome)
      pure (if exists' then .found else .missing)
  | .found => do
      perform replica.faults .logExists (pure ())
      pure (.returned false)
  | .missing => do
      perform replica.faults .createCollection
        (createCollection conflict replica.collectionName replica.vectorSize)
      pure .created
  | .created => do
      perform replica.faults .logCreated (pure ())
      pure (.indexing indexedPayloadFields)
  | .indexing [] => pure (.returned true)
  | .indexing (field :: rest) => do
      perform replica.faults (.createPayloadIndex field.1)
        (createPayloadIndex replica.collectionName field)
      pure (.indexed field rest)
  | .indexed field rest => do
      perform replica.faults (.logIndexed field.1) (pure ())
      pure (.indexing rest)
  | .returned creating => pure (.returned creating)
  | .raised r => pure (.raised r)

/-- A replica that runs alone, for a number of steps. -/
def advanceSetupAlone : ℕ → SetupPoint → SetupProg SetupPoint
  | 0, point => pure point
  | n + 1, point => do
      let point ← advanceSetup conflict replica point
      advanceSetupAlone n point

/-- The steps of the loop are its iterations. -/
theorem advanceSetupAlone_indexing (fields : List (String × PayloadSchemaType)) :
    advanceSetupAlone conflict replica (2 * fields.length + 1) (.indexing fields) = (do
      createPayloadIndexes replica.faults replica.collectionName fields
      pure (.returned true)) := by
  induction fields with
  | nil => rfl
  | cons field rest ih =>
      have hlength : 2 * (field :: rest).length + 1 = 2 * rest.length + 1 + 1 + 1 := by
        rw [List.length_cons]
        omega
      rw [hlength, advanceSetupAlone, advanceSetup, createPayloadIndexes]
      simp only [bind_assoc, pure_bind]
      refine bind_congr fun _ => ?_
      rw [advanceSetupAlone, advanceSetup]
      simp only [bind_assoc, pure_bind, ih]

theorem advanceSetupAlone_returned (creating : Bool) (n : ℕ) :
    advanceSetupAlone conflict replica n (.returned creating) = pure (.returned creating) := by
  induction n with
  | zero => rfl
  | succ n ih => rw [advanceSetupAlone, advanceSetup, pure_bind, ih]

theorem advanceSetupAlone_found :
    advanceSetupAlone conflict replica 9 .found = (do
      perform replica.faults .logExists (pure ())
      pure (.returned false)) := by
  rw [advanceSetupAlone, advanceSetup]
  simp only [bind_assoc, pure_bind, advanceSetupAlone_returned]

theorem advanceSetupAlone_created :
    advanceSetupAlone conflict replica 8 .created = (do
      perform replica.faults .logCreated (pure ())
      createPayloadIndexes replica.faults replica.collectionName indexedPayloadFields
      pure (.returned true)) := by
  have hindexing := advanceSetupAlone_indexing conflict replica indexedPayloadFields
  rw [advanceSetupAlone, advanceSetup]
  simp only [bind_assoc, pure_bind]
  exact bind_congr fun _ => hindexing

/-- Where there is no collection, the server creates it as it is asked to. -/
theorem run_createCollection {s : Server} (h : s replica.collectionName = none) :
    (createCollection conflict replica.collectionName replica.vectorSize).run s =
      .ok () (Function.update s replica.collectionName
        (some { size := replica.vectorSize })) := by
  simp [createCollection, h]

/-- A replica that runs alone does what `ensure_collection` does. -/
theorem advanceSetupAlone_eq (s : Server) :
    (advanceSetupAlone conflict replica 10 .start).run s =
      (do
        ensureCollection replica.faults replica.collectionName replica.vectorSize
        pure (SetupPoint.returned (s replica.collectionName).isNone)).run s := by
  rw [advanceSetupAlone, advanceSetup, ensureCollection]
  simp only [bind_assoc, pure_bind, EStateM.run_bind, EStateM.run_get]
  cases hasked : replica.faults .collectionExists with
  | some fault =>
      simp only [run_perform_of_some hasked]
  | none =>
      simp only [perform_of_none hasked, EStateM.run_pure]
      cases hs : s replica.collectionName with
      | some c =>
          simp only [Option.isSome_some, if_true, advanceSetupAlone_found]
          rfl
      | none =>
          simp only [Option.isSome_none, Bool.false_eq_true, if_false]
          rw [advanceSetupAlone, advanceSetup]
          simp only [bind_assoc, pure_bind, EStateM.run_bind, advanceSetupAlone_created]
          cases hcreate : replica.faults .createCollection with
          | some fault =>
              simp only [run_perform_of_some hcreate, run_createCollection conflict replica hs]
              rfl
          | none =>
              simp only [perform_of_none hcreate, run_createCollection conflict replica hs]
              let s₁ : Server := Function.update s replica.collectionName
                (some { size := replica.vectorSize })
              have hmodify : (modify fun s : Server => Function.update s replica.collectionName
                  (some { size := replica.vectorSize }) : SetupProg Unit).run s = .ok () s₁ := rfl
              rw [hmodify]
              dsimp only
              cases (perform replica.faults .logCreated (pure ())).run s₁ with
              | ok _ t => rfl
              | error r t => rfl

/-! ## What one call does -/

/-- The server with a new collection. -/
def withCollection (s : Server) : Server :=
  Function.update s replica.collectionName (some { size := replica.vectorSize })

/-- The server with a further index of the collection. -/
def withIndex (s : Server) (field : String × PayloadSchemaType) : Server :=
  Function.update s replica.collectionName ((s replica.collectionName).map
    fun c => { c with indexes := c.indexes ++ [field] })

/-- One of the replica's calls fails so. -/
def Blamed (r : Raised PyExc) : Prop :=
  ∃ site fault, replica.faults site = some fault ∧ r = fault.raised

/-- The effect of one call on the replica and the server. -/
inductive SetupStep (s : Server) : SetupPoint → SetupPoint → Server → Prop
  | foundIt (present : s replica.collectionName ≠ none) : SetupStep s .start .found s
  | missedIt (absent : s replica.collectionName = none) : SetupStep s .start .missing s
  | reported : SetupStep s .found (.returned false) s
  | created (absent : s replica.collectionName = none) :
      SetupStep s .missing .created (withCollection replica s)
  | createdUnheard (absent : s replica.collectionName = none) (r : Raised PyExc)
      (blamed : Blamed replica r) :
      SetupStep s .missing (.raised r) (withCollection replica s)
  | refused (present : s replica.collectionName ≠ none) :
      SetupStep s .missing (.raised (.exception (conflict replica.collectionName))) s
  | announced : SetupStep s .created (.indexing indexedPayloadFields) s
  | indexed (field : String × PayloadSchemaType) (rest : List (String × PayloadSchemaType)) :
      SetupStep s (.indexing (field :: rest)) (.indexed field rest) (withIndex replica s field)
  | indexedUnheard (field : String × PayloadSchemaType)
      (rest : List (String × PayloadSchemaType)) (r : Raised PyExc) (blamed : Blamed replica r) :
      SetupStep s (.indexing (field :: rest)) (.raised r) (withIndex replica s field)
  | logged (field : String × PayloadSchemaType) (rest : List (String × PayloadSchemaType)) :
      SetupStep s (.indexed field rest) (.indexing rest) s
  | completed : SetupStep s (.indexing []) (.returned true) s
  | failed (point : SetupPoint) (running : ¬ point.Ended) (r : Raised PyExc)
      (blamed : Blamed replica r) : SetupStep s point (.raised r) s
  | stays (point : SetupPoint) (ended : point.Ended) : SetupStep s point point s

variable {conflict replica} {s : Server} {point : SetupPoint}

/-- A run of a step ends where the relation says. -/
def Steps (conflict : String → PyExc) (replica : Replica) (s : Server) (point : SetupPoint)
    (prog : SetupProg SetupPoint) : Prop :=
  ∃ next s', SetupStep conflict replica s point next s' ∧
    (prog.run s = .ok next s' ∨ ∃ r, next = .raised r ∧ prog.run s = .error r s')

/-- A call with an effect, which may fail before or after it. -/
theorem steps_perform {α : Type} {site : SetupSite} {action : SetupProg α}
    {next : α → SetupPoint} {a : α} {s' : Server} (haction : action.run s = .ok a s')
    (hrunning : ¬ point.Ended) (hdone : SetupStep conflict replica s point (next a) s')
    (hunheard : ∀ r, Blamed replica r → SetupStep conflict replica s point (.raised r) s') :
    Steps conflict replica s point (do
      let x ← perform replica.faults site action
      pure (next x)) := by
  cases hsite : replica.faults site with
  | none =>
      refine ⟨next a, s', hdone, Or.inl ?_⟩
      rw [perform_of_none hsite, EStateM.run_bind, haction]
      rfl
  | some fault =>
      have hblamed : Blamed replica fault.raised := ⟨site, fault, hsite, rfl⟩
      cases hlanded : fault.landed with
      | true =>
          refine ⟨_, s', hunheard _ hblamed, Or.inr ⟨_, rfl, ?_⟩⟩
          rw [EStateM.run_bind, run_perform_of_some hsite, hlanded, haction]
          rfl
      | false =>
          refine ⟨_, s, .failed point hrunning _ hblamed, Or.inr ⟨_, rfl, ?_⟩⟩
          rw [EStateM.run_bind, run_perform_of_some hsite, hlanded]
          rfl

/-- A call without an effect. -/
theorem steps_perform_pure {α : Type} {site : SetupSite} {next : α → SetupPoint} {a : α}
    (hrunning : ¬ point.Ended) (hdone : SetupStep conflict replica s point (next a) s) :
    Steps conflict replica s point (do
      let x ← perform replica.faults site (pure a)
      pure (next x)) :=
  steps_perform rfl hrunning hdone fun r hr => .failed point hrunning r hr

/-- The creation is refused where there is a collection. -/
theorem steps_missing :
    Steps conflict replica s .missing (advanceSetup conflict replica .missing) := by
  cases hs : s replica.collectionName with
  | none =>
      exact steps_perform (run_createCollection conflict replica hs) id (.created hs)
        fun r hr => .createdUnheard hs r hr
  | some c =>
      have hrun : (createCollection conflict replica.collectionName replica.vectorSize).run s =
          .error (.exception (conflict replica.collectionName)) s := by
        simp [createCollection, hs]
      have hpresent : s replica.collectionName ≠ none := by
        rw [hs]
        exact Option.some_ne_none c
      cases hsite : replica.faults .createCollection with
      | none =>
          refine ⟨_, s, .refused hpresent, Or.inr ⟨_, rfl, ?_⟩⟩
          rw [advanceSetup, perform_of_none hsite, EStateM.run_bind, hrun]
      | some fault =>
          refine ⟨_, s, .failed .missing id _ ⟨_, fault, hsite, rfl⟩, Or.inr ⟨_, rfl, ?_⟩⟩
          rw [advanceSetup, EStateM.run_bind, run_perform_of_some hsite, hrun]
          simp [finalState]

theorem steps_advanceSetup (conflict : String → PyExc) (replica : Replica) (s : Server)
    (point : SetupPoint) :
    Steps conflict replica s point (advanceSetup conflict replica point) := by
  cases point with
  | start =>
      have hdone : SetupStep conflict replica s .start
          (if (s replica.collectionName).isSome then .found else .missing) s := by
        cases hs : s replica.collectionName with
        | none => exact .missedIt hs
        | some c =>
            refine .foundIt ?_
            rw [hs]
            exact Option.some_ne_none c
      have hsteps : Steps conflict replica s .start (do
          let exists' ← perform replica.faults .collectionExists
            (pure (s replica.collectionName).isSome)
          pure (if exists' then .found else .missing)) := steps_perform_pure id hdone
      exact hsteps
  | found => exact steps_perform_pure id .reported
  | missing => exact steps_missing
  | created => exact steps_perform_pure id .announced
  | indexing rest =>
      cases rest with
      | nil => exact ⟨_, s, .completed, Or.inl rfl⟩
      | cons field rest =>
          exact steps_perform rfl id (.indexed field rest)
            fun r hr => .indexedUnheard field rest r hr
  | indexed field rest => exact steps_perform_pure id (.logged field rest)
  | returned creating => exact ⟨_, s, .stays _ trivial, Or.inl rfl⟩
  | raised r => exact ⟨_, s, .stays _ trivial, Or.inl rfl⟩

end Steps

/-! ## Where a replica stands -/

/-- The replica has created nothing, where there is no collection yet. -/
def Before (replica : Replica) : SetupPoint → Prop
  | .start | .missing => True
  | .raised r => Blamed replica r
  | _ => False

/-- The collection is not the replica's. -/
def Follows (conflict : String → PyExc) (replica : Replica) : SetupPoint → Prop
  | .start | .found | .missing | .returned false => True
  | .raised r => Blamed replica r ∨ r = .exception (conflict replica.collectionName)
  | _ => False

/-- The replica has created the collection and these indexes. -/
def Creates (replica : Replica) (done : List (String × PayloadSchemaType)) : SetupPoint → Prop
  | .created => done = []
  | .indexing rest => done ++ rest = indexedPayloadFields
  | .indexed _ rest => done ++ rest = indexedPayloadFields
  | .returned true => done = indexedPayloadFields
  | .raised r => done <+: indexedPayloadFields ∧ Blamed replica r
  | _ => False

section Standing

variable {conflict : String → PyExc} {replica : Replica} {s s' : Server}
  {point next : SetupPoint}

theorem Before.follows (h : Before replica point) : Follows conflict replica point := by
  cases point with
  | start => exact trivial
  | missing => exact trivial
  | raised r => exact Or.inl h
  | _ => exact h.elim

theorem Creates.begins {done : List (String × PayloadSchemaType)}
    (h : Creates replica done point) : done <+: indexedPayloadFields := by
  cases point with
  | created =>
      obtain rfl : done = [] := h
      exact List.nil_prefix
  | indexing rest => exact ⟨rest, h⟩
  | indexed field rest => exact ⟨rest, h⟩
  | returned creating =>
      cases creating with
      | true =>
          obtain rfl : done = indexedPayloadFields := h
          exact List.prefix_rfl
      | false => exact h.elim
  | raised r => exact h.1
  | _ => exact h.elim

/-- A replica changes no other collection. -/
theorem SetupStep.frame (h : SetupStep conflict replica s point next s') {name : String}
    (hname : name ≠ replica.collectionName) : s' name = s name := by
  cases h with
  | created => exact Function.update_of_ne hname ..
  | createdUnheard => exact Function.update_of_ne hname ..
  | indexed => exact Function.update_of_ne hname ..
  | indexedUnheard => exact Function.update_of_ne hname ..
  | _ => rfl

/-- Where there is no collection, a step leaves it so, or creates it. -/
theorem SetupStep.before (h : SetupStep conflict replica s point next s')
    (habsent : s replica.collectionName = none) (hpoint : Before replica point) :
    s' = s ∧ Before replica next ∨
      s' = withCollection replica s ∧ Creates replica [] next := by
  cases h with
  | foundIt present => exact absurd habsent present
  | missedIt => exact Or.inl ⟨rfl, trivial⟩
  | created => exact Or.inr ⟨rfl, rfl⟩
  | createdUnheard _ r blamed => exact Or.inr ⟨rfl, List.nil_prefix, blamed⟩
  | refused present => exact absurd habsent present
  | failed _ _ r blamed => exact Or.inl ⟨rfl, blamed⟩
  | stays => exact Or.inl ⟨rfl, hpoint⟩
  | _ => exact hpoint.elim

/-- Where another one's collection is, a step leaves it as it is. -/
theorem SetupStep.follows (h : SetupStep conflict replica s point next s')
    (hpresent : s replica.collectionName ≠ none) (hpoint : Follows conflict replica point) :
    s' = s ∧ Follows conflict replica next := by
  cases h with
  | foundIt => exact ⟨rfl, trivial⟩
  | missedIt absent => exact absurd absent hpresent
  | reported => exact ⟨rfl, trivial⟩
  | created absent => exact absurd absent hpresent
  | createdUnheard absent => exact absurd absent hpresent
  | refused => exact ⟨rfl, Or.inr rfl⟩
  | failed _ _ r blamed => exact ⟨rfl, Or.inl blamed⟩
  | stays => exact ⟨rfl, hpoint⟩
  | _ => exact hpoint.elim

/-- Who has created the collection adds its indexes one after the other. -/
theorem SetupStep.creates {done : List (String × PayloadSchemaType)}
    (h : SetupStep conflict replica s point next s')
    (hs : s replica.collectionName = some { size := replica.vectorSize, indexes := done })
    (hpoint : Creates replica done point) :
    ∃ more, s' replica.collectionName =
        some { size := replica.vectorSize, indexes := done ++ more } ∧
      Creates replica (done ++ more) next := by
  have hindexed : ∀ field, withIndex replica s field replica.collectionName =
      some { size := replica.vectorSize, indexes := done ++ [field] } := by
    intro field
    rw [withIndex, Function.update_self, hs]
    rfl
  have hsame : s replica.collectionName =
      some { size := replica.vectorSize, indexes := done ++ [] } := by
    rw [hs, List.append_nil]
  cases h with
  | announced =>
      obtain rfl : done = [] := hpoint
      exact ⟨[], hsame, rfl⟩
  | indexed field rest =>
      refine ⟨[field], hindexed field, ?_⟩
      rw [Creates, List.append_assoc]
      exact hpoint
  | indexedUnheard field rest r blamed =>
      refine ⟨[field], hindexed field, ⟨rest, ?_⟩, blamed⟩
      rw [List.append_assoc]
      exact hpoint
  | logged field rest =>
      refine ⟨[], hsame, ?_⟩
      rw [List.append_nil]
      exact hpoint
  | completed =>
      refine ⟨[], hsame, ?_⟩
      rw [List.append_nil]
      exact (List.append_nil done).symm.trans hpoint
  | failed _ _ r blamed =>
      refine ⟨[], hsame, ?_, blamed⟩
      rw [List.append_nil]
      exact hpoint.begins
  | stays =>
      refine ⟨[], hsame, ?_⟩
      rwa [List.append_nil]
  | _ => exact hpoint.elim

end Standing

/-! ## Any number of replicas -/

section Replicas

variable {ι : Type} [DecidableEq ι]

/-- One replica takes its next step. -/
def setupTurn (conflict : String → PyExc) (replicas : ι → Replica)
    (m : System ι SetupPoint Server) (i : ι) : System ι SetupPoint Server :=
  Interleaving.step (fun i => advanceSetup conflict (replicas i)) .raised m i

/-- Where the collection did not exist: it still does not, and nobody has come
further than asking for it; or one replica has created it, with the first of
its indexes, and the others follow. -/
inductive Standing (conflict : String → PyExc) (replicas : ι → Replica) (name : String)
    (m : System ι SetupPoint Server) : Prop
  | absent (hnone : m.shared name = none)
      (before : ∀ i, (replicas i).collectionName = name → Before (replicas i) (m.stages i))
  | present (i : ι) (named : (replicas i).collectionName = name)
      (done : List (String × PayloadSchemaType))
      (created : m.shared name =
        some { size := (replicas i).vectorSize, indexes := done })
      (creates : Creates (replicas i) done (m.stages i))
      (others : ∀ j, j ≠ i → (replicas j).collectionName = name →
        Follows conflict (replicas j) (m.stages j))

/-- Where the collection existed, it is what it was. -/
structure Found (conflict : String → PyExc) (replicas : ι → Replica) (name : String)
    (c : Collection) (m : System ι SetupPoint Server) : Prop where
  kept : m.shared name = some c
  follow : ∀ i, (replicas i).collectionName = name →
    Follows conflict (replicas i) (m.stages i)

variable {conflict : String → PyExc} {replicas : ι → Replica} {name : String}
  {m : System ι SetupPoint Server}

theorem setupTurn_eq (conflict : String → PyExc) (replicas : ι → Replica)
    (m : System ι SetupPoint Server) (i : ι) :
    ∃ next s', SetupStep conflict (replicas i) m.shared (m.stages i) next s' ∧
      setupTurn conflict replicas m i = ⟨Function.update m.stages i next, s'⟩ := by
  obtain ⟨next, s', hstep, hrun | ⟨r, rfl, hrun⟩⟩ :=
    steps_advanceSetup conflict (replicas i) m.shared (m.stages i)
  · exact ⟨next, s', hstep, step_of_ok hrun⟩
  · exact ⟨_, s', hstep, step_of_error hrun⟩

/-- A replica with another collection changes nothing of this one. -/
theorem setupTurn_of_ne (conflict : String → PyExc) (m : System ι SetupPoint Server) {i : ι}
    (hi : (replicas i).collectionName ≠ name) :
    (setupTurn conflict replicas m i).shared name = m.shared name ∧
      ∀ j, (replicas j).collectionName = name →
        (setupTurn conflict replicas m i).stages j = m.stages j := by
  obtain ⟨next, s', hstep, hturn⟩ := setupTurn_eq conflict replicas m i
  rw [hturn]
  refine ⟨hstep.frame (Ne.symm hi), fun j hj => Function.update_of_ne ?_ ..⟩
  rintro rfl
  exact hi hj

theorem Found.step {c : Collection} (h : Found conflict replicas name c m) (i : ι) :
    Found conflict replicas name c (setupTurn conflict replicas m i) := by
  by_cases hi : (replicas i).collectionName = name
  · subst hi
    obtain ⟨next, s', hstep, hturn⟩ := setupTurn_eq conflict replicas m i
    have hpresent : m.shared (replicas i).collectionName ≠ none := by
      rw [h.kept]
      exact Option.some_ne_none c
    obtain ⟨rfl, hnext⟩ := hstep.follows hpresent (h.follow i rfl)
    rw [hturn]
    exact ⟨h.kept, forall_update (P := fun j point =>
      (replicas j).collectionName = (replicas i).collectionName →
        Follows conflict (replicas j) point) (fun _ => hnext) fun j _ hj => h.follow j hj⟩
  · obtain ⟨hshared, hstages⟩ := setupTurn_of_ne conflict m hi
    refine ⟨hshared.trans h.kept, fun j hj => ?_⟩
    rw [hstages j hj]
    exact h.follow j hj

/-- From before the creation. -/
theorem Standing.step_absent {i : ι} (hnone : m.shared (replicas i).collectionName = none)
    (hbefore : ∀ j, (replicas j).collectionName = (replicas i).collectionName →
      Before (replicas j) (m.stages j)) :
    Standing conflict replicas (replicas i).collectionName
      (setupTurn conflict replicas m i) := by
  obtain ⟨next, s', hstep, hturn⟩ := setupTurn_eq conflict replicas m i
  rw [hturn]
  rcases hstep.before hnone (hbefore i rfl) with ⟨rfl, hnext⟩ | ⟨rfl, hnext⟩
  · exact .absent hnone (forall_update (P := fun j point =>
      (replicas j).collectionName = (replicas i).collectionName →
        Before (replicas j) point) (fun _ => hnext) fun j _ hj => hbefore j hj)
  · refine .present i rfl [] (Function.update_self ..) ?_ fun j hne hj => ?_
    · dsimp only
      rwa [Function.update_self]
    · dsimp only
      rw [Function.update_of_ne hne]
      exact (hbefore j hj).follows

/-- From after it. -/
theorem Standing.step_present {i k : ι}
    (named : (replicas k).collectionName = (replicas i).collectionName)
    {done : List (String × PayloadSchemaType)}
    (created : m.shared (replicas i).collectionName =
      some { size := (replicas k).vectorSize, indexes := done })
    (creates : Creates (replicas k) done (m.stages k))
    (others : ∀ j, j ≠ k → (replicas j).collectionName = (replicas i).collectionName →
      Follows conflict (replicas j) (m.stages j)) :
    Standing conflict replicas (replicas i).collectionName
      (setupTurn conflict replicas m i) := by
  obtain ⟨next, s', hstep, hturn⟩ := setupTurn_eq conflict replicas m i
  rw [hturn]
  by_cases hik : i = k
  · subst hik
    obtain ⟨more, hcreated, hnext⟩ := hstep.creates created creates
    refine .present i rfl (done ++ more) hcreated ?_ fun j hne hj => ?_
    · dsimp only
      rwa [Function.update_self]
    · dsimp only
      rw [Function.update_of_ne hne]
      exact others j hne hj
  · have hpresent : m.shared (replicas i).collectionName ≠ none := by
      rw [created]
      exact Option.some_ne_none _
    obtain ⟨rfl, hnext⟩ := hstep.follows hpresent (others i hik rfl)
    refine .present k named done created ?_ ?_
    · dsimp only
      rwa [Function.update_of_ne (Ne.symm hik)]
    · exact forall_update (P := fun j point => j ≠ k →
        (replicas j).collectionName = (replicas i).collectionName →
          Follows conflict (replicas j) point) (fun _ _ => hnext)
        fun j _ hne hj => others j hne hj

theorem Standing.step (h : Standing conflict replicas name m) (i : ι) :
    Standing conflict replicas name (setupTurn conflict replicas m i) := by
  by_cases hi : (replicas i).collectionName = name
  · subst hi
    cases h with
    | absent hnone before => exact step_absent hnone before
    | present k named done created creates others =>
        exact step_present named created creates others
  · obtain ⟨hshared, hstages⟩ := setupTurn_of_ne conflict m hi
    cases h with
    | absent hnone before =>
        refine .absent (hshared.trans hnone) fun j hj => ?_
        rw [hstages j hj]
        exact before j hj
    | present k named done created creates others =>
        refine .present k named done (hshared.trans created) ?_ fun j hne hj => ?_
        · rwa [hstages k named]
        · rw [hstages j hj]
          exact others j hne hj

/-- All replicas before their first call. -/
def setupStart (s : Server) : System ι SetupPoint Server := ⟨fun _ => .start, s⟩

theorem found_final {s : Server} {c : Collection} (hs : s name = some c) (turns : List ι) :
    Found conflict replicas name c
      (final (setupTurn conflict replicas) (setupStart s) turns) :=
  final_of_steps (I := Found conflict replicas name c) (fun _ _ => True)
    (fun _ i h _ => Found.step h i) ⟨hs, fun _ _ => trivial⟩ fun _ _ => trivial

theorem standing_final {s : Server} (hs : s name = none) (turns : List ι) :
    Standing conflict replicas name
      (final (setupTurn conflict replicas) (setupStart s) turns) :=
  final_of_steps (I := Standing conflict replicas name) (fun _ _ => True)
    (fun _ i h _ => Standing.step h i) (.absent hs fun _ _ => trivial) fun _ _ => trivial

/-- Only the replica that has created the collection returns as its creator,
and then the collection has its indexes. -/
theorem Standing.complete (h : Standing conflict replicas name m) {i : ι}
    (hi : (replicas i).collectionName = name) (hreturned : m.stages i = .returned true) :
    Complete m.shared name := by
  cases h with
  | absent hnone before =>
      have hnot := before i hi
      rw [hreturned] at hnot
      exact hnot.elim
  | present k named done created creates others =>
      by_cases hik : i = k
      · subst hik
        rw [hreturned] at creates
        obtain rfl : done = indexedPayloadFields := creates
        exact ⟨_, created, fun _ hfield => hfield⟩
      · have hnot := others i hik hi
        rw [hreturned] at hnot
        exact hnot.elim

omit [DecidableEq ι] in
/-- Where all calls have ended and none of them has failed, one of them has
created the collection. -/
theorem Standing.exists_creator (h : Standing conflict replicas name m)
    (hsome : ∃ i, (replicas i).collectionName = name)
    (hended : ∀ i, (replicas i).collectionName = name →
      (m.stages i).Ended ∧ (replicas i).faults = Faults.none) :
    ∃ i, (replicas i).collectionName = name ∧ m.stages i = .returned true := by
  have hblameless : ∀ i, (replicas i).collectionName = name →
      ∀ r, ¬ Blamed (replicas i) r := by
    rintro i hi r ⟨site, fault, hfault, -⟩
    rw [(hended i hi).2] at hfault
    cases hfault
  cases h with
  | absent hnone before =>
      obtain ⟨i, hi⟩ := hsome
      have hbefore := before i hi
      have hend := (hended i hi).1
      cases hstage : m.stages i with
      | raised r =>
          rw [hstage] at hbefore
          exact absurd hbefore (hblameless i hi r)
      | returned creating =>
          rw [hstage] at hbefore
          exact hbefore.elim
      | _ =>
          rw [hstage] at hend
          exact hend.elim
  | present k named done created creates others =>
      have hend := (hended k named).1
      refine ⟨k, named, ?_⟩
      cases hstage : m.stages k with
      | raised r =>
          rw [hstage] at creates
          exact absurd creates.2 (hblameless k named r)
      | returned creating =>
          cases creating with
          | true => rfl
          | false =>
              rw [hstage] at creates
              exact creates.elim
      | _ =>
          rw [hstage] at hend
          exact hend.elim

/-- However the calls of any number of replicas interleave, and whatever fails
in them: a collection that exists is left as it is; one that does not is
created by one replica at most, which alone adds its indexes; a creator that
returns leaves it complete; and if all calls end and none fails, one has
created it. -/
theorem startups_create_once (conflict : String → PyExc) (replicas : ι → Replica) (s : Server)
    (turns : List ι) (name : String) :
    (∀ c, s name = some c → Found conflict replicas name c
        (final (setupTurn conflict replicas) (setupStart s) turns)) ∧
      (s name = none → Standing conflict replicas name
        (final (setupTurn conflict replicas) (setupStart s) turns)) ∧
      (∀ i, (replicas i).collectionName = name →
        (final (setupTurn conflict replicas) (setupStart s) turns).stages i = .returned true →
          Complete (final (setupTurn conflict replicas) (setupStart s) turns).shared name) ∧
      (s name = none → (∃ i, (replicas i).collectionName = name) →
        (∀ i, (replicas i).collectionName = name →
          ((final (setupTurn conflict replicas) (setupStart s) turns).stages i).Ended ∧
            (replicas i).faults = Faults.none) →
          Complete (final (setupTurn conflict replicas) (setupStart s) turns).shared name) := by
  refine ⟨fun c hc => found_final hc turns, fun hs => standing_final hs turns,
    fun i hi hreturned => ?_, fun hs hsome hended => ?_⟩
  · cases hs : s name with
    | none => exact (standing_final hs turns).complete hi hreturned
    | some c =>
        have hfound : Found conflict replicas name c
            (final (setupTurn conflict replicas) (setupStart s) turns) := found_final hs turns
        have hfollows := hfound.follow i hi
        rw [hreturned] at hfollows
        exact hfollows.elim
  · have hstanding : Standing conflict replicas name
        (final (setupTurn conflict replicas) (setupStart s) turns) := standing_final hs turns
    obtain ⟨i, hi, hreturned⟩ := hstanding.exists_creator hsome hended
    exact hstanding.complete hi hreturned

end Replicas

/-- Two replicas that both ask before either creates. -/
def racingTurns : List Bool := [true, false] ++ List.replicate 9 true ++ [false]

def documentsReplica : Replica where
  collectionName := "documents"
  vectorSize := 1536
  faults := Faults.none

/-- The first creates the collection, the second is refused. -/
theorem startups_create_once_race :
    (final (setupTurn (fun name => .other "UnexpectedResponse" name)
        fun _ : Bool => documentsReplica) (setupStart fun _ => none) racingTurns).stages false =
      .raised (.exception (.other "UnexpectedResponse" "documents")) ∧
    Complete (final (setupTurn (fun name => .other "UnexpectedResponse" name)
        fun _ : Bool => documentsReplica) (setupStart fun _ => none) racingTurns).shared
      "documents" := by
  obtain ⟨-, -, hcomplete, -⟩ := startups_create_once
    (fun name => .other "UnexpectedResponse" name) (fun _ : Bool => documentsReplica)
    (fun _ => none) racingTurns "documents"
  exact ⟨rfl, hcomplete true rfl rfl⟩

end QdrantVectorRepository
end AiBackend

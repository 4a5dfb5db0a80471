import AiBackend.Ingestion.IngestSegments
import AiBackend.Support.Run
import Mathlib.Logic.Function.Basic

/-!
# Ingest calls that run at the same time

Any number of calls by one tenant with the same content, interleaved at their
statements.  The duplicate check and the insert are two statements, and no
constraint of the table ties them together.  If no call checks while another
one is between its check and its insert, at most one of them creates a row and
a job and the others are told about that row; if one does, both may create
their own.
-/

namespace AiBackend
namespace IngestDocument

open Program Python PostgresDocumentRepository Run

/-- How far a call has come. -/
inductive Stage where
  | start
  | checked (collectionId : CollectionId)
  | saved (document : Document)
  | marked (document : Document) (job : IngestionJob)
  | answered (response : Response)
  | raised (e : Raised PyExc)

/-- The next segment of a call, without failures. -/
def advance (env : Env) (outside : Outside) (request : Request)
    (tenantId : TenantId) : Stage → Prog Stage
  | .start => do
      let (collectionId, existing) ←
        checkSegment env outside Faults.none request tenantId
      match existing with
      | some document => do
          let response ← duplicateSegment Faults.none document
          pure (.answered response)
      | none => pure (.checked collectionId)
  | .checked collectionId => do
      let document ← saveSegment env Faults.none request tenantId collectionId
      pure (.saved document)
  | .saved document => do
      let (document, job) ← updateSegment env Faults.none document
      pure (.marked document job)
  | .marked document job => do
      let response ← enqueueSegment outside Faults.none tenantId document job
      pure (.answered response)
  | stage => pure stage

/-- A call that runs alone goes through its segments one after the other. -/
theorem execute_eq_advance (env : Env) (outside : Outside) (request : Request)
    (tenantId : TenantId) :
    (do
      let stage ← advance env outside request tenantId .start
      let stage ← advance env outside request tenantId stage
      let stage ← advance env outside request tenantId stage
      advance env outside request tenantId stage) =
    (do
      let response ← execute env outside Faults.none request tenantId
      pure (Stage.answered response)) := by
  simp only [execute, advance, bind_assoc]
  apply bind_congr
  intro checked
  obtain ⟨collectionId, existing⟩ := checked
  cases existing with
  | some document => simp
  | none => simp

/-! ## What one segment does -/

/-- The next statement of the call is the duplicate check. -/
def Stage.isStart : Stage → Bool
  | .start => true
  | _ => false

/-- The next statement of the call is the insert. -/
def Stage.isChecked : Stage → Bool
  | .checked _ => true
  | _ => false

/-- A call about to insert draws an identifier that the table does not have. -/
def DrawsFresh (env : Env) (stage : Stage) (s : State) : Prop :=
  stage.isChecked → env.uuid4 (s.uuids + 1) ∉ s.documents.keys

instance (env : Env) (stage : Stage) (s : State) :
    Decidable (DrawsFresh env stage s) :=
  inferInstanceAs (Decidable (_ → _))

/-- How many segments a call has behind it; one that has ended has none ahead. -/
def Stage.taken : Stage → ℕ
  | .start => 0
  | .checked _ => 1
  | .saved _ => 2
  | .marked _ _ => 3
  | .answered _ => 4
  | .raised _ => 4

/-- The effect of a segment on the identifiers under which the table has the
content, and on the length of the queue. -/
inductive Segment (request : Request) (ids ids' : List DocumentId) (jobs jobs' : ℕ) :
    Stage → Stage → Prop
  | refused (unreadable : ¬ Readable request) (e : Raised PyExc) (sameIds : ids' = ids)
      (sameJobs : jobs' = jobs) : Segment request ids ids' jobs jobs' .start (.raised e)
  | foundNone (collectionId : CollectionId) (none : ids = [])
      (sameIds : ids' = ids) (sameJobs : jobs' = jobs) :
      Segment request ids ids' jobs jobs' .start (.checked collectionId)
  | found (id : DocumentId) (jobId : String) (mem : id ∈ ids)
      (sameIds : ids' = ids) (sameJobs : jobs' = jobs) :
      Segment request ids ids' jobs jobs' .start
        (.answered ⟨id.str, jobId, "duplicate"⟩)
  | inserted (collectionId : CollectionId) (document : Document)
      (oneMore : ids' = ids ++ [document.documentId]) (sameJobs : jobs' = jobs) :
      Segment request ids ids' jobs jobs' (.checked collectionId) (.saved document)
  | marked (document marked : Document) (job : IngestionJob)
      (same : marked.documentId = document.documentId)
      (sameIds : ids' = ids) (sameJobs : jobs' = jobs) :
      Segment request ids ids' jobs jobs' (.saved document) (.marked marked job)
  | enqueued (document : Document) (job : IngestionJob)
      (sameIds : ids' = ids) (oneJob : jobs' ≤ jobs + 1) :
      Segment request ids ids' jobs jobs' (.marked document job)
        (.answered ⟨document.documentId.str, job.jobId.str, "processing"⟩)
  | ended (stage : Stage) (sameIds : ids' = ids) (sameJobs : jobs' = jobs)
      (done : (∃ response, stage = .answered response) ∨ ∃ e, stage = .raised e) :
      Segment request ids ids' jobs jobs' stage stage

section Segments

variable {env : Env} {outside : Outside} {request : Request}
  {tenantId : TenantId} {content : String}

/-- The rows of the tenant with the content. -/
def copies (env : Env) (tenantId : TenantId) (content : String) (s : State) :
    List DocumentId :=
  duplicateIds env.contentHash tenantId content s.documents

/-- Every segment has one of the effects above. -/
theorem advance_segment (tenantId : TenantId)
    (hscan : ∀ rows, (outside.scan rows).Perm rows)
    (hcontent : request.content = content) (stage : Stage) (s₀ : State)
    (hfresh : DrawsFresh env stage s₀) :
    Ensures (· = s₀) (advance env outside request tenantId stage)
      (fun next s => Segment request (copies env tenantId content s₀)
        (copies env tenantId content s) s₀.jobs.length s.jobs.length stage next)
      (fun r s => Segment request (copies env tenantId content s₀)
        (copies env tenantId content s) s₀.jobs.length s.jobs.length stage
        (.raised r)) := by
  subst hcontent
  cases stage with
  | start =>
      have hsame : ∀ {s}, Unchanged s₀ s →
          copies env tenantId request.content s =
              copies env tenantId request.content s₀ ∧
            s.jobs.length = s₀.jobs.length := fun hs =>
        ⟨by rw [copies, copies, hs.documents], by rw [hs.jobs]⟩
      refine ((ensures_checkSegment s₀).impRaise ?_).bind fun checked => ensures_of_fact ?_
      · intro r s h
        obtain ⟨hs, hunreadable | hfault⟩ := h
        · exact .refused hunreadable r (hsame hs).1 (hsame hs).2
        · exact absurd rfl hfault
      intro h
      obtain ⟨-, -, id, hfound⟩ := h
      obtain ⟨collectionId, existing⟩ := checked
      cases existing with
      | none =>
          have hnone : copies env tenantId request.content s₀ = [] :=
            (findDuplicate_eq_none_iff (hscan _)).mp hfound.symm
          exact ensures_pure fun s hs =>
            .foundNone collectionId hnone (hsame hs).1 (hsame hs).2
      | some document =>
          have hmem : document.documentId ∈
              copies env tenantId request.content s₀ :=
            findDuplicate_documentId (hscan _) hfound.symm
          apply ensures_pointwise
          intro s hs
          refine ((ensures_duplicateSegment s document).impRaise ?_).bind fun response =>
            ensures_pure ?_
          · intro r t h
            obtain ⟨-, fault, hfault, -⟩ := h
            cases hfault
          · intro t h
            obtain ⟨rfl, rfl⟩ := h
            exact .found document.documentId _ hmem (hsame hs).1 (hsame hs).2
  | checked collectionId =>
      refine ((ensures_saveSegment s₀ collectionId).impRaise ?_).bind fun document =>
        ensures_pure ?_
      · intro r t h
        obtain ⟨fault, hfault, -⟩ := h
        cases hfault
      intro s h
      obtain ⟨hs, -⟩ := h
      have hnew : ∀ row ∈ s₀.documents.items,
          row.documentId ≠ document.documentId := by
        intro row hrow heq
        rw [hs.documentId] at heq
        exact hfresh rfl (heq ▸ List.mem_map_of_mem hrow)
      refine .inserted collectionId document ?_ (by rw [hs.jobs])
      rw [copies, hs.documents, duplicateIds_save_of_new hnew hs.tenantId hs.content]
      rfl
  | saved document =>
      refine ((ensures_updateSegment s₀ document).impRaise ?_).bind fun result =>
        ensures_pure ?_
      · intro r t h
        obtain ⟨fault, hfault, -⟩ := h
        cases hfault
      intro s h
      obtain ⟨hs, -⟩ := h
      obtain ⟨now, hdocuments⟩ := hs.documents
      refine .marked document result.1 result.2 hs.documentId ?_ (by rw [hs.jobs])
      rw [copies, hdocuments, duplicateIds_update]
      rfl
  | marked document job =>
      refine ((ensures_enqueueSegment s₀ document job).impRaise ?_).bind fun response =>
        ensures_pure ?_
      · intro r t h
        obtain ⟨⟨site, fault, hfault, -⟩, -⟩ := h
        cases hfault
      intro s h
      obtain ⟨hs, rfl⟩ := h
      refine .enqueued document job (by rw [copies, hs.documents]; rfl) ?_
      rw [hs.jobs, List.length_append]
      split
      · exact le_rfl
      · exact Nat.le_succ _
  | answered response =>
      rintro s rfl
      exact .ended _ rfl rfl (Or.inl ⟨_, rfl⟩)
  | raised e =>
      rintro s rfl
      exact .ended _ rfl rfl (Or.inr ⟨_, rfl⟩)

end Segments

/-! ## Any number of calls -/

/-- The calls, each at its stage, and what they share. -/
structure Calls (ι : Type) where
  stages : ι → Stage
  shared : State

section Machine

variable {ι : Type}

/-- One call takes its next step. -/
def stepCall [DecidableEq ι] (env : Env) (outside : ι → Outside)
    (requests : ι → Request) (tenantId : TenantId) (m : Calls ι) (i : ι) :
    Calls ι :=
  match (advance env (outside i) (requests i) tenantId (m.stages i)).run
      m.shared with
  | .ok stage s => ⟨Function.update m.stages i stage, s⟩
  | .error e s => ⟨Function.update m.stages i (.raised e), s⟩

/-- A call that checks finds no other call between its check and its
insert. -/
def ChecksAlone (m : Calls ι) (i : ι) : Prop :=
  (m.stages i).isStart → ∀ j, (m.stages j).isChecked = false

instance (m : Calls Bool) (i : Bool) : Decidable (ChecksAlone m i) :=
  inferInstanceAs (Decidable (_ → ∀ _ : Bool, _))

/-- The calls that have found no duplicate. -/
def Stage.Creates : Stage → Prop
  | .checked _ => True
  | .saved _ => True
  | .marked _ _ => True
  | .answered response => response.status = "processing"
  | _ => False

/-- What a stage says about the rows with the content. -/
def Stage.Agrees (ids : List DocumentId) : Stage → Prop
  | .checked _ => ids = []
  | .saved document => document.documentId ∈ ids
  | .marked document _ => document.documentId ∈ ids
  | .answered response =>
      (∃ id ∈ ids, response.documentId = id.str) ∧
        (response.status = "duplicate" ∨ response.status = "processing")
  | .start => True
  | .raised _ => False

/-- While no call checks at the wrong moment, one row and one job are the
most there is. -/
structure Orderly (env : Env) (tenantId : TenantId) (content : String)
    (jobs : ℕ) (m : Calls ι) : Prop where
  one : (copies env tenantId content m.shared).length ≤ 1
  agrees : ∀ i, (m.stages i).Agrees (copies env tenantId content m.shared)
  alone : ∀ i j, (m.stages i).Creates → (m.stages j).Creates → i = j
  queue : m.shared.jobs.length ≤ jobs ∨ (m.shared.jobs.length ≤ jobs + 1 ∧
    ∃ i response, m.stages i = .answered response ∧
      response.status = "processing")

/-- A creating call other than one that is about to insert has its row. -/
theorem Stage.Creates.ids_ne_nil {ids : List DocumentId} {stage : Stage}
    (hcreates : stage.Creates) (hagrees : stage.Agrees ids)
    (hchecked : stage.isChecked = false) : ids ≠ [] := by
  rintro rfl
  cases stage with
  | start => exact hcreates
  | checked collectionId => cases hchecked
  | saved document => simp [Agrees] at hagrees
  | marked document job => simp [Agrees] at hagrees
  | answered response => simp [Agrees] at hagrees
  | raised e => exact hcreates

section Steps

variable [DecidableEq ι] {env : Env} {outside : ι → Outside} {requests : ι → Request}
  {tenantId : TenantId} {content : String} {jobs : ℕ}

theorem stepCall_segment (tenantId : TenantId)
    (hscan : ∀ i rows, ((outside i).scan rows).Perm rows)
    (hcontent : ∀ i, (requests i).content = content) (m : Calls ι) (i : ι)
    (hfresh : DrawsFresh env (m.stages i) m.shared) :
    ∃ stage s, stepCall env outside requests tenantId m i =
        ⟨Function.update m.stages i stage, s⟩ ∧
      Segment (requests i) (copies env tenantId content m.shared)
        (copies env tenantId content s) m.shared.jobs.length s.jobs.length
        (m.stages i) stage := by
  have hrun := advance_segment tenantId (hscan i) (hcontent i) (m.stages i)
    m.shared hfresh m.shared rfl
  unfold stepCall
  cases hresult : (advance env (outside i) (requests i) tenantId
      (m.stages i)).run m.shared with
  | ok stage s =>
      rw [hresult] at hrun
      exact ⟨stage, s, rfl, hrun⟩
  | error e s =>
      rw [hresult] at hrun
      exact ⟨.raised e, s, rfl, hrun⟩

/-- The calls stay orderly when one of them moves to a stage that fits and the
others still fit. -/
theorem Orderly.update {m : Calls ι} {i : ι} {stage : Stage} {s : State}
    (hm : Orderly env tenantId content jobs m)
    (hone : (copies env tenantId content s).length ≤ 1)
    (hself : stage.Agrees (copies env tenantId content s))
    (hothers : ∀ j, j ≠ i →
      (m.stages j).Agrees (copies env tenantId content s))
    (hcreates : stage.Creates → ∀ j, j ≠ i → ¬ (m.stages j).Creates)
    (hqueue : s.jobs.length ≤ jobs ∨ (s.jobs.length ≤ jobs + 1 ∧
      ∃ k response, Function.update m.stages i stage k = .answered response ∧
        response.status = "processing")) :
    Orderly env tenantId content jobs ⟨Function.update m.stages i stage, s⟩ := by
  refine ⟨hone, fun j => ?_, fun j k hj hk => ?_, hqueue⟩
  · by_cases hji : j = i
    · simpa [hji] using hself
    · simpa [hji] using hothers j hji
  · by_cases hji : j = i
    · by_cases hki : k = i
      · exact hji.trans hki.symm
      · simp only [hji, hki, Function.update_self, ne_eq, not_false_eq_true,
          Function.update_of_ne] at hj hk
        exact absurd hk (hcreates hj k hki)
    · by_cases hki : k = i
      · simp only [hji, hki, Function.update_self, ne_eq, not_false_eq_true,
          Function.update_of_ne] at hj hk
        exact absurd hj (hcreates hk j hji)
      · simp only [hji, hki, ne_eq, not_false_eq_true,
          Function.update_of_ne] at hj hk
        exact hm.alone j k hj hk

/-- A call that has not answered yet is not the one behind the queue's job. -/
theorem Orderly.queue_update {m : Calls ι} {i : ι} {stage : Stage} {s : State}
    (hm : Orderly env tenantId content jobs m)
    (hjobs : s.jobs.length = m.shared.jobs.length)
    (hi : ∀ response, m.stages i ≠ .answered response) :
    s.jobs.length ≤ jobs ∨ (s.jobs.length ≤ jobs + 1 ∧
      ∃ k response, Function.update m.stages i stage k = .answered response ∧
        response.status = "processing") := by
  rw [hjobs]
  rcases hm.queue with hqueue | ⟨hqueue, k, response, hk, hstatus⟩
  · exact Or.inl hqueue
  · refine Or.inr ⟨hqueue, k, response, ?_, hstatus⟩
    have hki : k ≠ i := fun heq => hi response (heq ▸ hk)
    rw [Function.update_of_ne hki, hk]

/-- A step that does not check at the wrong moment keeps the calls orderly. -/
theorem Orderly.step (hscan : ∀ i rows, ((outside i).scan rows).Perm rows)
    (hcontent : ∀ i, (requests i).content = content)
    (hreadable : ∀ i, Readable (requests i)) {m : Calls ι} (i : ι)
    (hm : Orderly env tenantId content jobs m) (halone : ChecksAlone m i)
    (hfresh : DrawsFresh env (m.stages i) m.shared) :
    Orderly env tenantId content jobs
      (stepCall env outside requests tenantId m i) := by
  obtain ⟨stage, s, hstep, hsegment⟩ :=
    stepCall_segment tenantId hscan hcontent m i hfresh
  rw [hstep]
  -- the calls other than `i`, when the rows are as before
  have hkept : copies env tenantId content s = copies env tenantId content m.shared →
      ∀ j, j ≠ i → (m.stages j).Agrees (copies env tenantId content s) :=
    fun hids j _ => by rw [hids]; exact hm.agrees j
  have hagrees := hm.agrees i
  generalize hi : m.stages i = stage₀ at hsegment hagrees
  cases hsegment with
  | refused unreadable => exact absurd (hreadable i) unreadable
  | foundNone collectionId hnone sameIds sameJobs =>
      refine hm.update (by rw [sameIds]; exact hm.one)
        (by rw [sameIds]; exact hnone) (hkept sameIds) (fun _ j _ hj => ?_)
        (hm.queue_update sameJobs fun _ h => by cases hi.symm.trans h)
      exact hj.ids_ne_nil (hm.agrees j) (halone (by rw [hi]; rfl) j) hnone
  | found id jobId mem sameIds sameJobs =>
      refine hm.update (by rw [sameIds]; exact hm.one)
        ⟨⟨id, by rw [sameIds]; exact mem, rfl⟩, Or.inl rfl⟩ (hkept sameIds)
        (fun h => absurd h (show "duplicate" ≠ "processing" by decide))
        (hm.queue_update sameJobs fun _ h => by cases hi.symm.trans h)
  | inserted collectionId document oneMore sameJobs =>
      have hnone : copies env tenantId content m.shared = [] := hagrees
      have hother : ∀ j, j ≠ i → ¬ (m.stages j).Creates := fun j hji hj =>
        hji (hm.alone j i hj (by rw [hi]; trivial))
      rw [hnone, List.nil_append] at oneMore
      refine hm.update (by rw [oneMore]; rfl)
        (by rw [oneMore]; exact List.mem_singleton_self _) (fun j hji => ?_)
        (fun _ => hother)
        (hm.queue_update sameJobs fun _ h => by cases hi.symm.trans h)
      -- no other call has found or made a row yet
      have hj := hm.agrees j
      rw [hnone] at hj
      cases hstage : m.stages j with
      | start => trivial
      | checked c => exact absurd (by rw [hstage]; trivial) (hother j hji)
      | saved d => simp [hstage, Stage.Agrees] at hj
      | marked d job => simp [hstage, Stage.Agrees] at hj
      | answered response => simp [hstage, Stage.Agrees] at hj
      | raised e => exact absurd hj (by simp [hstage, Stage.Agrees])
  | marked document marked job same sameIds sameJobs =>
      have hmem : document.documentId ∈ copies env tenantId content m.shared :=
        hagrees
      refine hm.update (by rw [sameIds]; exact hm.one)
        (by rw [sameIds, Stage.Agrees, same]; exact hmem) (hkept sameIds)
        (fun _ j hji hj => hji (hm.alone j i hj (by rw [hi]; trivial)))
        (hm.queue_update sameJobs fun _ h => by cases hi.symm.trans h)
  | enqueued document job sameIds oneJob =>
      have hmem : document.documentId ∈ copies env tenantId content m.shared :=
        hagrees
      refine hm.update (by rw [sameIds]; exact hm.one)
        ⟨⟨_, by rw [sameIds]; exact hmem, rfl⟩, Or.inr rfl⟩ (hkept sameIds)
        (fun _ j hji hj => hji (hm.alone j i hj (by rw [hi]; trivial))) ?_
      refine Or.inr ⟨?_, i, _, Function.update_self .., rfl⟩
      rcases hm.queue with hqueue | ⟨-, k, response, hk, hstatus⟩
      · omega
      · -- the queue's job belongs to this call, which has not answered yet
        have hki := hm.alone k i (by rw [hk]; exact hstatus) (by rw [hi]; trivial)
        rw [hki, hi] at hk
        cases hk
  | ended stage sameIds sameJobs done =>
      have hupdate : Function.update m.stages i stage = m.stages := by
        rw [← hi, Function.update_eq_self]
      refine hm.update (by rw [sameIds]; exact hm.one)
        (by rw [sameIds]; exact hagrees) (hkept sameIds)
        (fun h j hji hj => hji (hm.alone j i hj (by rw [hi]; exact h))) ?_
      rw [hupdate, sameJobs]
      exact hm.queue

end Steps

/-- The calls before any of them has started. -/
def Calls.start (s : State) : Calls ι := ⟨fun _ => .start, s⟩

end Machine

/-! ## Two calls -/

end IngestDocument
end AiBackend

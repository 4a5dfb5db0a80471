import AiBackend.Ingestion.IngestSegments
import AiBackend.Ingestion.PipelineFrame
import AiBackend.Ingestion.RunGuarantees
import AiBackend.Support.Run

/-!
# Submitting content again

Ingest calls and pipeline runs over the same documents table, in any order and
with any calls failing.  A call that answers `duplicate` should point at a
document that is either completed or still has a job.  That is an invariant of
the table and the queue as long as no call stops between its insert and its
enqueue and no job ends with its document in another status than completed;
the duplicate check looks at neither.
-/

namespace AiBackend
namespace IngestDocument

open Program Python PostgresDocumentRepository Run

/-! ## Documents that are taken care of -/

/-- A job was enqueued for the document and has not ended. -/
def Live (jobs : List QueuedJob) (documentId : DocumentId) : Prop :=
  ∃ job ∈ jobs, job.ended = false ∧ job.documentId = documentId.str

/-- The row is completed or waits for a job. -/
def CoveredRow (jobs : List QueuedJob) (row : DocumentRow) : Prop :=
  row.status = .completed ∨ Live jobs row.documentId

/-- The arguments of a job are identifiers. -/
def QueuedJob.Named (job : QueuedJob) : Prop :=
  ∃ (tenantId : TenantId) (documentId : DocumentId) (jobId : IngestionJobId)
    (ended : Bool), job = ⟨tenantId.str, documentId.str, jobId.str, ended⟩

/-- Every row is taken care of. -/
structure Covered (documents : DocumentTable) (jobs : List QueuedJob) : Prop where
  named : ∀ job ∈ jobs, job.Named
  rows : ∀ row ∈ documents.items, CoveredRow jobs row

theorem Live.append {jobs : List QueuedJob} {documentId : DocumentId}
    (h : Live jobs documentId) (more : List QueuedJob) :
    Live (jobs ++ more) documentId := by
  obtain ⟨job, hmem, hjob⟩ := h
  exact ⟨job, List.mem_append_left more hmem, hjob⟩

theorem CoveredRow.append {jobs : List QueuedJob} {row : DocumentRow}
    (h : CoveredRow jobs row) (more : List QueuedJob) :
    CoveredRow (jobs ++ more) row :=
  h.imp_right fun hlive => hlive.append more

/-! ## One call -/

section Call

variable {env : Env} {outside : Outside} {faults : Faults Site PyExc}
  {request : Request} {tenantId : TenantId}

/-- The call gets past its duplicate check, and its insert takes effect. -/
structure Inserts (env : Env) (outside : Outside) (faults : Faults Site PyExc)
    (request : Request) (tenantId : TenantId) (s : State) : Prop where
  readable : Readable request
  check : faults .findDuplicate = none
  new : ∀ row ∈ outside.scan s.documents.items,
    ¬ IsDuplicate env.contentHash tenantId request.content row
  insert : faults.Lands .save

/-- Nothing stops the call between its insert and its enqueue, and the queue
takes the job. -/
structure GoesThrough (outside : Outside) (faults : Faults Site PyExc) : Prop where
  save : faults .save = none
  update : faults .update = none
  enqueue : faults.Lands .enqueue
  accepted : outside.accepts = true

/-- A document that is inserted, marked and enqueued is taken care of, and so
are the ones before it. -/
theorem Covered.ingested {s₀ s₁ s₂ s₃ : State} {document marked : Document}
    {job : IngestionJob} (h : Covered s₀.documents s₀.jobs)
    (hinserted : Inserted env request tenantId s₀ document s₁)
    (hmarked : Marked s₁ document marked s₂)
    (henqueued : Enqueued outside tenantId marked job s₂ s₃)
    (haccepted : outside.accepts = true) : Covered s₃.documents s₃.jobs := by
  obtain ⟨now, hupdated⟩ := hmarked.documents
  have hjobs : s₃.jobs = s₀.jobs ++
      [⟨tenantId.str, document.documentId.str, job.jobId.str, false⟩] := by
    rw [henqueued.jobs, haccepted, hmarked.documentId, hmarked.jobs, hinserted.jobs]
    rfl
  rw [henqueued.documents, hupdated, hinserted.documents, hjobs]
  refine ⟨?_, fun row hrow => ?_⟩
  · intro job hjob
    rcases List.mem_append.mp hjob with hjob | hjob
    · exact h.named job hjob
    · rw [List.mem_singleton] at hjob
      exact ⟨tenantId, document.documentId, _, false, hjob⟩
  · by_cases hid : row.documentId = document.documentId
    · exact Or.inr ⟨_, List.mem_append_right _ (List.mem_singleton_self _), rfl,
        by rw [hid]⟩
    · rw [mem_update_of_ne (hmarked.documentId ▸ hid), mem_save_of_ne hid] at hrow
      exact (h.rows row hrow).append _

theorem Covered.unchanged {s₀ s : State} (h : Covered s₀.documents s₀.jobs)
    (hs : Unchanged s₀ s) : Covered s.documents s.jobs := by
  rw [hs.documents, hs.jobs]
  exact h

/-- Once it has inserted its document, a call that goes through leaves
everything covered, whatever fails after the enqueue. -/
theorem ensures_enqueued_covered {s₀ s₁ s₂ : State} {document marked : Document}
    {job : IngestionJob} (hcovered : Covered s₀.documents s₀.jobs)
    (hinserted : Inserted env request tenantId s₀ document s₁)
    (hmarked : Marked s₁ document marked s₂) (hgoes : GoesThrough outside faults) :
    Ensures (· = s₂) (enqueueSegment outside faults tenantId marked job)
      (fun _ s => Covered s.documents s.jobs)
      fun _ s => Covered s.documents s.jobs := by
  apply (ensures_enqueueSegment s₂ marked job).imp
  · intro response s h
    obtain ⟨henqueued, -⟩ := h
    exact hcovered.ingested hinserted hmarked henqueued hgoes.accepted
  · intro r s hs
    obtain ⟨-, henqueued⟩ := hs
    exact hcovered.ingested hinserted hmarked (henqueued hgoes.enqueue)
      hgoes.accepted

/-- A call that goes through whenever it inserts keeps everything covered. -/
theorem ensures_execute_covered {s₀ : State}
    (hcovered : Covered s₀.documents s₀.jobs)
    (hgoes : Inserts env outside faults request tenantId s₀ →
      GoesThrough outside faults) :
    Ensures (· = s₀) (execute env outside faults request tenantId)
      (fun _ s => Covered s.documents s.jobs)
      fun _ s => Covered s.documents s.jobs := by
  refine ((ensures_checkSegment s₀).impRaise fun _ s h => hcovered.unchanged h.1).bind
      fun checked => ensures_of_fact ?_
  intro h
  obtain ⟨hreadable, hcheck, id, hfound⟩ := h
  obtain ⟨collectionId, existing⟩ := checked
  apply ensures_pointwise
  intro s hs
  have hcovered' := hcovered.unchanged hs
  cases existing with
  | some document =>
      exact (ensures_duplicateSegment s document).imp (fun _ _ h => h.1 ▸ hcovered')
        fun _ _ h => h.1 ▸ hcovered'
  | none =>
      have hnew : ∀ row ∈ outside.scan s₀.documents.items,
          ¬ IsDuplicate env.contentHash tenantId request.content row := by
        simpa [PostgresDocumentRepository.findDuplicate] using hfound.symm
      have hinserts : faults.Lands .save → GoesThrough outside faults :=
        fun hlands => hgoes ⟨hreadable, hcheck, hnew, hlands⟩
      refine ((ensures_saveSegment s collectionId).impRaise ?_).bind fun document =>
        ensures_of_fact fun hsave => ?_
      · intro r s₁ hs₁
        obtain ⟨fault, hfault, -, hs₁⟩ := hs₁
        by_cases hlanded : fault.landed
        · have hsave := (hinserts
            ((Faults.lands_iff_of_some hfault).mpr hlanded)).save
          rw [hfault] at hsave
          cases hsave
        · rw [if_neg hlanded] at hs₁
          exact hcovered'.unchanged hs₁
      have hgoes' := hinserts (Faults.lands_of_none hsave)
      apply ensures_pointwise
      intro s₁ hinserted
      refine ((ensures_updateSegment s₁ document).impRaise ?_).bind fun result => ?_
      · intro r s₂ h
        obtain ⟨fault, hfault, -⟩ := h
        rw [hgoes'.update] at hfault
        cases hfault
      apply ensures_pointwise
      intro s₂ h
      obtain ⟨hmarked, -⟩ := h
      exact ensures_enqueued_covered hcovered' hinserted hmarked hgoes'

/-- A duplicate answer names a row that the table has. -/
theorem ensures_execute_duplicate {s₀ : State}
    (hscan : (outside.scan s₀.documents.items).Perm s₀.documents.items) :
    Ensures (· = s₀) (execute env outside faults request tenantId)
      (fun response _ => response.status = "duplicate" →
        ∃ row ∈ s₀.documents.items, row.documentId.str = response.documentId)
      fun _ _ => True := by
  refine ((ensures_checkSegment s₀).impRaise fun _ _ _ => trivial).bind fun checked =>
    ensures_of_fact ?_
  intro h
  obtain ⟨-, -, id, hfound⟩ := h
  obtain ⟨collectionId, existing⟩ := checked
  apply ensures_pointwise
  intro s hs
  cases existing with
  | some document =>
      obtain ⟨row, hrow, -, rfl⟩ := exists_of_findDuplicate hscan hfound.symm
      refine (ensures_duplicateSegment s _).imp ?_ fun _ _ _ => trivial
      rintro response _ ⟨-, rfl⟩ -
      exact ⟨row, hrow, rfl⟩
  | none =>
      refine ((ensures_saveSegment s collectionId).impRaise fun _ _ _ => trivial).bind
        fun document => ensures_pointwise fun s₁ _ => ?_
      refine ((ensures_updateSegment s₁ document).impRaise fun _ _ _ => trivial).bind
        fun result => ensures_pointwise fun s₂ _ => ?_
      refine (ensures_enqueueSegment s₂ result.1 result.2).imp ?_ fun _ _ _ => trivial
      rintro response _ ⟨-, rfl⟩ hstatus
      exact absurd hstatus (show "processing" ≠ "duplicate" by decide)

/-- Content that the table does not have gets a job, if nothing fails. -/
theorem ensures_execute_new {s₀ : State} (hreadable : Readable request)
    (haccepted : outside.accepts = true)
    (hnew : ∀ row ∈ outside.scan s₀.documents.items,
      ¬ IsDuplicate env.contentHash tenantId request.content row) :
    Ensures (· = s₀) (execute env outside Faults.none request tenantId)
      (fun response s => response.status = "processing" ∧ s.jobs = s₀.jobs ++
        [⟨tenantId.str, response.documentId, response.jobId, false⟩])
      fun _ _ => False := by
  refine ((ensures_checkSegment s₀).impRaise ?_).bind fun checked => ensures_of_fact ?_
  · rintro r s ⟨-, hraised | hraised⟩
    · exact hraised hreadable
    · exact hraised rfl
  intro h
  obtain ⟨-, -, id, hfound⟩ := h
  obtain ⟨collectionId, existing⟩ := checked
  obtain rfl : existing = none := by
    rw [show existing = _ from hfound]
    simpa [PostgresDocumentRepository.findDuplicate] using hnew
  apply ensures_pointwise
  intro s hs
  apply (ensures_newSegments s collectionId).impReturn
  intro response t h
  obtain ⟨document, marked, job, s₁, s₂, hinserted, hmarked, -, henqueued, rfl⟩ := h
  refine ⟨rfl, ?_⟩
  rw [henqueued.jobs, haccepted, hmarked.jobs, hinserted.jobs, hs.jobs]
  rfl

end Call

/-! ## Calls and runs -/

/-- What the API and the workers share. -/
structure Stores where
  ingest : State
  points : PointStore

/-- An ingest call, or a pipeline run on the `k`-th job ever enqueued; `ends`
tells whether the queue is done with that job afterwards. -/
inductive Event where
  | ingest (env : Env) (outside : Outside) (faults : Faults Site PyExc)
      (request : Request) (tenantId : TenantId)
  | run (k : ℕ) (env : ProcessDocument.Env)
      (faults : Faults ProcessDocument.Site PyExc) (ends : Bool)

/-- The `k`-th job, unless it has ended. -/
def liveJob? (jobs : List QueuedJob) (k : ℕ) : Option QueuedJob :=
  jobs[k]?.filter fun job => !job.ended

/-- The identifiers a worker reads from the job's arguments. -/
def taskArgs (job : QueuedJob) : Except PyExc (DocumentId × IngestionJobId) := do
  let docId ← Uuid.fromStr job.documentId
  let _ ← Uuid.fromStr job.tenantId
  let jobId ← Uuid.fromStr job.jobId
  pure (docId, jobId)

/-- The stores of a run with a fresh job object. -/
def runState (env : ProcessDocument.Env) (docId : DocumentId)
    (jobId : IngestionJobId) (s : Stores) : ProcessDocument.State where
  documents := s.ingest.documents
  points := s.points
  job := IngestionJob.construct (env.uuid4 0) jobId docId env.now
  clock := 2
  uuids := 1

/-- A pipeline run on a job. -/
def runJob (env : ProcessDocument.Env)
    (faults : Faults ProcessDocument.Site PyExc) (job : QueuedJob)
    (s : Stores) : Stores :=
  match taskArgs job with
  | .error _ => s
  | .ok (docId, jobId) =>
      let run := ProcessDocument.exit env faults docId (runState env docId jobId s)
      { s with
        ingest := { s.ingest with documents := run.documents }
        points := run.points }

/-- The job has ended. -/
def endJob (k : ℕ) (job : QueuedJob) (s : Stores) : Stores :=
  { s with ingest := { s.ingest with
      jobs := s.ingest.jobs.set k { job with ended := true } } }

def step (s : Stores) : Event → Stores
  | .ingest env outside faults request tenantId =>
      { s with ingest :=
          finalState ((execute env outside faults request tenantId).run s.ingest) }
  | .run k env faults ends =>
      match liveJob? s.ingest.jobs k with
      | none => s
      | some job =>
          if ends then endJob k job (runJob env faults job s)
          else runJob env faults job s

/-- Nothing stored and nothing enqueued. -/
def deployed : Stores := ⟨{ documents := KeyedList.empty }, KeyedList.empty⟩

/-- A run on the row's document leaves it completed: there is nothing to chunk
and nothing fails, or it is completed already and nothing overwrites that. -/
def LeavesCompleted (env : ProcessDocument.Env)
    (faults : Faults ProcessDocument.Site PyExc) (row : DocumentRow) : Prop :=
  faults.ExceptionsOnly ∧
    (ProcessDocument.Uneventful env faults row.content ∨
      (row.status = .completed ∧ ¬ ProcessDocument.HandlerWrites faults ∧
        ¬ ProcessDocument.WritesEmpty faults row.content))

/-- The condition on a step: an ingest call that inserts goes through, and a
run that ends a job leaves its document completed. -/
def Sound (s : Stores) : Event → Prop
  | .ingest env outside faults request tenantId =>
      Inserts env outside faults request tenantId s.ingest →
        GoesThrough outside faults
  | .run k env faults ends =>
      ends = true → ∀ job, liveJob? s.ingest.jobs k = some job →
        ∀ row ∈ s.ingest.documents.items, row.documentId.str = job.documentId →
          LeavesCompleted env faults row

/-! ## Runs keep what is covered -/

section Runs

variable {s : Stores} {k : ℕ} {job : QueuedJob} {env : ProcessDocument.Env}
  {faults : Faults ProcessDocument.Site PyExc}

theorem liveJob?_eq_some {jobs : List QueuedJob} (h : liveJob? jobs k = some job) :
    jobs[k]? = some job ∧ job.ended = false := by
  simpa [liveJob?, Option.filter_eq_some_iff] using h

/-- Ending a job leaves the jobs of other documents alone. -/
theorem Live.set {jobs : List QueuedJob} (hjob : jobs[k]? = some job)
    {documentId : DocumentId} (hne : job.documentId ≠ documentId.str)
    (h : Live jobs documentId) (job' : QueuedJob) :
    Live (jobs.set k job') documentId := by
  obtain ⟨live, hmem, hended, hid⟩ := h
  obtain ⟨j, hj⟩ := List.mem_iff_getElem?.mp hmem
  have hjk : k ≠ j := by
    rintro rfl
    rw [hjob, Option.some.injEq] at hj
    exact hne (hj ▸ hid)
  exact ⟨live, List.mem_iff_getElem?.mpr ⟨j, by rw [List.getElem?_set_ne hjk, hj]⟩,
    hended, hid⟩

theorem taskArgs_named {tenantId : TenantId} {documentId : DocumentId}
    {jobId : IngestionJobId} {ended : Bool} :
    taskArgs ⟨tenantId.str, documentId.str, jobId.str, ended⟩ =
      .ok (documentId, jobId) := by
  simp [taskArgs, bind, Except.bind, pure, Except.pure]

/-- The run on a job whose arguments can be read. -/
theorem runJob_named {tenantId : TenantId} {documentId : DocumentId}
    {jobId : IngestionJobId} {ended : Bool} :
    (runJob env faults ⟨tenantId.str, documentId.str, jobId.str, ended⟩
        s).ingest.documents =
      (ProcessDocument.exit env faults documentId
        (runState env documentId jobId s)).documents := by
  simp only [runJob, taskArgs_named]

theorem jobs_runJob : (runJob env faults job s).ingest.jobs = s.ingest.jobs := by
  unfold runJob
  split
  · rfl
  · rfl

/-- A run rewrites at most the row of its document. -/
theorem othersKept_exit {documentId : DocumentId} {jobId : IngestionJobId} :
    ProcessDocument.OthersKept s.ingest.documents documentId
      (ProcessDocument.exit env faults documentId
        (runState env documentId jobId s)).documents :=
  ProcessDocument.preserves_execute.final
    (ProcessDocument.OthersKept.refl s.ingest.documents documentId)

/-- A run that meets its condition does what the condition is named for. -/
theorem status_of_leavesCompleted {row row' : DocumentRow}
    {jobId : IngestionJobId} (hrow : row ∈ s.ingest.documents.items)
    (hleaves : LeavesCompleted env faults row)
    (hrow' : row' ∈ (ProcessDocument.exit env faults row.documentId
      (runState env row.documentId jobId s)).documents.items)
    (hid : row'.documentId = row.documentId) : row'.status = .completed := by
  obtain ⟨hexc, hleaves⟩ := hleaves
  have hfind : s.ingest.documents.find? row.documentId = some row :=
    (KeyedList.mem_iff_find? _).mp hrow
  have hstored : storedStatus (ProcessDocument.exit env faults row.documentId
      (runState env row.documentId jobId s)).documents row.documentId =
      some row'.status := by
    rw [storedStatus, ← hid, (KeyedList.mem_iff_find? _).mp (hid ▸ hrow')]
    rfl
  have hcompleted : some row'.status = some .completed := by
    rw [← hstored]
    cases ProcessDocument.exit_stored env hexc
        (s := runState env row.documentId jobId s) hfind rfl with
    | completed _ _ stored _ => exact stored
    | failed eventful written _ =>
        rcases hleaves with huneventful | ⟨-, hhandler, hempty⟩
        · exact absurd huneventful eventful
        · exact absurd written (not_or.mpr ⟨hempty, hhandler⟩)
    | silent eventful _ _ status old state =>
        rcases hleaves with huneventful | ⟨hstatus, -, -⟩
        · exact absurd huneventful eventful
        · rcases old with old | old
          · rw [state.stored, old, hstatus]
          · rw [state.stored, old]
  exact Option.some.inj hcompleted

/-- A run that leaves its job in the queue keeps everything covered. -/
theorem Covered.run (hcovered : Covered s.ingest.documents s.ingest.jobs)
    (hjob : liveJob? s.ingest.jobs k = some job) :
    Covered (runJob env faults job s).ingest.documents s.ingest.jobs := by
  obtain ⟨hget, hended⟩ := liveJob?_eq_some hjob
  have hmem := List.mem_of_getElem? hget
  obtain ⟨tenantId, documentId, jobId, ended, rfl⟩ := hcovered.named job hmem
  refine ⟨hcovered.named, fun row hrow => ?_⟩
  rw [runJob_named] at hrow
  by_cases hid : row.documentId = documentId
  · exact Or.inr ⟨_, hmem, hended, by rw [hid]⟩
  · exact hcovered.rows row ((othersKept_exit.others row hid).mp hrow)

/-- So does one that ends the job and leaves the document completed. -/
theorem Covered.endRun (hcovered : Covered s.ingest.documents s.ingest.jobs)
    (hjob : liveJob? s.ingest.jobs k = some job)
    (hleaves : ∀ row ∈ s.ingest.documents.items,
      row.documentId.str = job.documentId → LeavesCompleted env faults row) :
    Covered (runJob env faults job s).ingest.documents
      (s.ingest.jobs.set k { job with ended := true }) := by
  obtain ⟨hget, -⟩ := liveJob?_eq_some hjob
  obtain ⟨tenantId, documentId, jobId, ended, rfl⟩ :=
    hcovered.named job (List.mem_of_getElem? hget)
  constructor
  · intro other hother
    rcases List.mem_or_eq_of_mem_set hother with hother | rfl
    · exact hcovered.named other hother
    · exact ⟨tenantId, documentId, jobId, true, rfl⟩
  intro row hrow
  rw [runJob_named] at hrow
  by_cases hid : row.documentId = documentId
  · subst hid
    have hkey : row.documentId ∈ s.ingest.documents.keys := by
      rw [← othersKept_exit.keys]
      exact List.mem_map_of_mem hrow
    obtain ⟨old, hold, hkey⟩ := List.mem_map.mp hkey
    rw [← hkey] at hrow hleaves
    exact Or.inl (status_of_leavesCompleted hold (hleaves old hold rfl) hrow
      hkey.symm)
  · refine (hcovered.rows row ((othersKept_exit.others row hid).mp hrow)).imp_right
      fun hlive => hlive.set hget ?_ _
    exact fun heq => hid (Uuid.str_injective heq).symm

end Runs

/-! ## Histories -/

/-- A step that meets its condition keeps everything covered. -/
theorem step_covered (s : Stores) (event : Event)
    (hcovered : Covered s.ingest.documents s.ingest.jobs) (hsound : Sound s event) :
    Covered (step s event).ingest.documents (step s event).ingest.jobs := by
  cases event with
  | ingest env outside faults request tenantId =>
      exact (ensures_execute_covered hcovered hsound).final rfl
  | run k env faults ends =>
      unfold step
      dsimp only
      split
      · exact hcovered
      next job hjob =>
        cases ends with
        | true =>
            have hset := hcovered.endRun hjob (hsound rfl job hjob)
            simpa [endJob, jobs_runJob] using hset
        | false =>
            have hrun : Covered (runJob env faults job s).ingest.documents _ :=
              hcovered.run hjob
            simpa [jobs_runJob] using hrun

theorem history_covered {history : List Event}
    (hsound : ∀ t ∈ trace step deployed history, Sound t.before t.input) :
    Covered (final step deployed history).ingest.documents
      (final step deployed history).ingest.jobs := by
  have hdeployed : Covered deployed.ingest.documents deployed.ingest.jobs := by
    constructor
    · intro job hjob
      cases hjob
    · intro row hrow
      cases hrow
  exact final_of_steps Sound step_covered hdeployed hsound

/-- What a call by the tenant in the given state should promise: a duplicate
answer names a row that is completed or has a live job, and content of which no
row is either gets a new job when nothing fails. -/
structure AnswersCovered (env : Env) (outside : Outside)
    (faults : Faults Site PyExc) (request : Request) (tenantId : TenantId)
    (s : State) : Prop where
  duplicate : ∀ response s',
    (execute env outside faults request tenantId).run s = .ok response s' →
      response.status = "duplicate" →
        ∃ row ∈ s.documents.items, row.documentId.str = response.documentId ∧
          CoveredRow s.jobs row
  resubmitted : (∀ row ∈ s.documents.items,
      IsDuplicate env.contentHash tenantId request.content row →
        ¬ CoveredRow s.jobs row) →
    Readable request → outside.accepts = true →
      ∃ response s',
        (execute env outside Faults.none request tenantId).run s =
            .ok response s' ∧
          response.status = "processing" ∧ s'.jobs = s.jobs ++
            [⟨tenantId.str, response.documentId, response.jobId, false⟩]

/-- Every history whose steps meet their conditions ends in a state in which a
further call keeps these promises. -/
theorem history_answersCovered (history : List Event)
    (hsound : ∀ t ∈ trace step deployed history, Sound t.before t.input)
    (env : Env) (outside : Outside)
    (hscan : ∀ rows, (outside.scan rows).Perm rows)
    (faults : Faults Site PyExc) (request : Request) (tenantId : TenantId) :
    AnswersCovered env outside faults request tenantId
      (final step deployed history).ingest := by
  have hcovered := history_covered hsound
  constructor
  · intro response s hrun hstatus
    have hexecute : Ensures (· = (final step deployed history).ingest)
        (execute env outside faults request tenantId) _ _ :=
      ensures_execute_duplicate (hscan _)
    have hnamed := hexecute _ rfl
    rw [hrun] at hnamed
    obtain ⟨row, hrow, hid⟩ := hnamed hstatus
    exact ⟨row, hrow, hid, hcovered.rows row hrow⟩
  · intro hlost hreadable haccepted
    have hnew : ∀ row ∈ outside.scan
          (final step deployed history).ingest.documents.items,
        ¬ IsDuplicate env.contentHash tenantId request.content row := by
      intro row hrow hduplicate
      have hmem := (hscan _).mem_iff.mp hrow
      exact hlost row hmem hduplicate (hcovered.rows row hmem)
    exact (ensures_execute_new hreadable haccepted hnew).exists_ok rfl

/-- A note is ingested, and its job finds nothing to chunk in it. -/
def noteHistory : List Event :=
  [.ingest noteEnv inOrder Faults.none noteRequest ⟨1⟩,
    .run 0 (ProcessDocument.greetingEnv []) Faults.none true]

theorem history_answersCovered_note :
    AnswersCovered noteEnv inOrder Faults.none noteRequest ⟨1⟩
      (final step deployed noteHistory).ingest := by
  refine history_answersCovered noteHistory (fun t ht => ?_) noteEnv inOrder
    (fun _ => List.Perm.refl _) Faults.none noteRequest ⟨1⟩
  simp only [noteHistory, trace, List.mem_cons, List.not_mem_nil, or_false] at ht
  rcases ht with rfl | rfl
  · exact fun _ => ⟨rfl, rfl, Faults.lands_of_none rfl, rfl⟩
  · intro _ job _ row hrow _
    have hcontent : (step deployed (.ingest noteEnv inOrder Faults.none
        noteRequest ⟨1⟩)).ingest.documents.items.map DocumentRow.content =
        ["hello"] := rfl
    have hrow := List.mem_map_of_mem (f := DocumentRow.content) hrow
    rw [hcontent, List.mem_singleton] at hrow
    exact ⟨Faults.none_exceptionsOnly,
      Or.inl ⟨by rw [hrow]; decide, rfl, fun _ _ => rfl⟩⟩

/-- The queue cannot be reached. -/
def enqueueFails : Faults Site PyExc := fun site =>
  if site = .enqueue then
    some ⟨.exception (.other "ConnectionError" "connection refused"), false⟩
  else none

/-- A call whose enqueue fails leaves a row without a job, and the next call
with the same content is told that it is a duplicate. -/
theorem history_not_always_answersCovered :
    ¬ ∀ (history : List Event) (env : Env) (outside : Outside),
      (∀ rows, (outside.scan rows).Perm rows) →
      ∀ (faults : Faults Site PyExc) (request : Request) (tenantId : TenantId),
        AnswersCovered env outside faults request tenantId
          (final step deployed history).ingest := by
  intro hall
  let history : List Event :=
    [.ingest noteEnv inOrder enqueueFails noteRequest ⟨1⟩]
  have hanswer := hall history noteEnv inOrder (fun _ => List.Perm.refl _)
    Faults.none noteRequest ⟨1⟩
  obtain ⟨row, hrow, -, hcovered⟩ := hanswer.duplicate
    ⟨_, "duplicate", "duplicate"⟩ _ rfl rfl
  have hstatus : (final step deployed history).ingest.documents.items.map
      DocumentRow.status = [.processing] := rfl
  have hjobs : (final step deployed history).ingest.jobs = [] := rfl
  have hrow := List.mem_map_of_mem (f := DocumentRow.status) hrow
  rw [hstatus, List.mem_singleton] at hrow
  rcases hcovered with hcompleted | ⟨job, hjob, -⟩
  · rw [hrow] at hcompleted
    cases hcompleted
  · rw [hjobs] at hjob
    cases hjob

end IngestDocument
end AiBackend

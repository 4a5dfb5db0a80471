import AiBackend.Application.IngestDocument

/-!
# What the segments of an ingest call do

One specification for each segment of `IngestDocumentUseCase.execute`, for
every pattern of failing calls: what it returns and what it leaves in the
documents table and the queue, from a given initial state.
-/

namespace AiBackend
namespace IngestDocument

open Program Python PostgresDocumentRepository

variable {env : Env} {outside : Outside} {faults : Faults Site PyExc}
  {request : Request} {tenantId : TenantId}

/-- The table and the queue are as they were; identifiers may have been
drawn. -/
structure Unchanged (s₀ s : State) : Prop where
  documents : s.documents = s₀.documents
  jobs : s.jobs = s₀.jobs
  uuids : s₀.uuids ≤ s.uuids

/-- The collection identifier of the request can be read. -/
def Readable (request : Request) : Prop :=
  ∀ fresh, ∃ collectionId, collectionIdOf request fresh = .ok collectionId

theorem readable_of_collectionIdOf {fresh : Uuid} {collectionId : CollectionId}
    (h : collectionIdOf request fresh = .ok collectionId) : Readable request := by
  intro fresh'
  unfold collectionIdOf at h ⊢
  cases htext : request.collectionId with
  | none => exact ⟨fresh', rfl⟩
  | some text =>
      rw [htext] at h
      by_cases hempty : text = ""
      · exact ⟨fresh', by simp [hempty]⟩
      · simp only [hempty, ↓reduceIte] at h ⊢
        exact ⟨collectionId, h⟩

/-- The check changes nothing; it returns what the table has. -/
theorem ensures_checkSegment (s₀ : State) :
    Ensures (· = s₀) (checkSegment env outside faults request tenantId)
      (fun checked s => Unchanged s₀ s ∧
        (Readable request ∧ faults .findDuplicate = none ∧
          ∃ id, checked.2 = PostgresDocumentRepository.findDuplicate
            env.contentHash outside.scan s₀.documents tenantId request.content id))
      (fun _ s => Unchanged s₀ s ∧
        (¬ Readable request ∨ faults .findDuplicate ≠ none)) := by
  refine Ensures.bind (M := fun _ s => Unchanged s₀ s) ?_ fun uuid4 => ?_
  · rintro s rfl
    exact ⟨rfl, rfl, Nat.le_add_right _ _⟩
  refine ((ensures_ofExcept _).impRaise ?_).bind fun collectionId =>
    ensures_of_fact fun hcollection => ?_
  · intro r s hs
    obtain ⟨hs, e, he⟩ := hs
    refine ⟨hs, Or.inl fun hreadable => ?_⟩
    obtain ⟨collectionId, hok⟩ := hreadable (uuid4 0)
    rw [he] at hok
    cases hok
  have hfind : Ensures (Unchanged s₀)
      (findDuplicate env outside tenantId request.content)
      (fun existing s => Unchanged s₀ s ∧ ∃ id, existing =
        PostgresDocumentRepository.findDuplicate env.contentHash outside.scan
          s₀.documents tenantId request.content id) fun _ _ => False :=
    fun s hs => ⟨⟨hs.documents, hs.jobs, hs.uuids.trans (Nat.le_add_right _ _)⟩,
      _, by rw [← hs.documents]⟩
  refine ((ensures_perform_effect hfind).impRaise ?_).bind fun existing =>
    ensures_pure fun s hs =>
      ⟨hs.2.1, readable_of_collectionIdOf hcollection, hs.1, hs.2.2⟩
  intro r s hs
  obtain ⟨fault, hfault, -, hs⟩ := hs
  refine ⟨?_, Or.inr (by simp [hfault])⟩
  split at hs
  · obtain ⟨_, hs, -⟩ := hs
    exact hs
  · exact hs

/-- The answer to a duplicate names its document. -/
theorem ensures_duplicateSegment (s₀ : State) (existing : Document) :
    Ensures (· = s₀) (duplicateSegment faults existing)
      (fun response s => s = s₀ ∧
        response = ⟨existing.documentId.str, "duplicate", "duplicate"⟩)
      (fun r s => s = s₀ ∧ ∃ fault, faults .logDuplicate = some fault ∧
        r = fault.raised) :=
  ensures_perform_pure.bind fun _ => ensures_pure fun _ hs => ⟨hs.1, rfl⟩

/-- The document a call inserts, and what the insert leaves. -/
structure Inserted (env : Env) (request : Request) (tenantId : TenantId)
    (s₀ : State) (document : Document) (s : State) : Prop where
  tenantId : document.tenantId = tenantId
  content : document.content = request.content
  documentId : document.documentId = env.uuid4 (s₀.uuids + 1)
  documents : s.documents =
    PostgresDocumentRepository.save env.contentHash s₀.documents document
  jobs : s.jobs = s₀.jobs
  uuids : s.uuids = s₀.uuids + 2

theorem ensures_saveSegment (s₀ : State) (collectionId : CollectionId) :
    Ensures (· = s₀) (saveSegment env faults request tenantId collectionId)
      (fun document s => Inserted env request tenantId s₀ document s ∧
        faults .save = none)
      (fun r s => ∃ fault, faults .save = some fault ∧ r = fault.raised ∧
        if fault.landed then
          ∃ document, Inserted env request tenantId s₀ document s
        else Unchanged s₀ s) := by
  rintro s rfl
  have hinserted : ∀ document clock, document.tenantId = tenantId →
      document.content = request.content →
      document.documentId = env.uuid4 (s.uuids + 1) →
      Inserted env request tenantId s document { s with
        documents :=
          PostgresDocumentRepository.save env.contentHash s.documents document
        uuids := s.uuids + 2
        clock := clock } :=
    fun _ _ htenant hcontent hid => ⟨htenant, hcontent, hid, rfl, rfl, rfl⟩
  cases hsite : faults .save with
  | none =>
      simp only [saveSegment, perform_of_none hsite]
      exact ⟨hinserted _ _ rfl rfl rfl, trivial⟩
  | some fault =>
      simp only [saveSegment, perform, hsite]
      refine ⟨fault, rfl, rfl, ?_⟩
      cases fault.landed with
      | true => exact ⟨_, hinserted _ _ rfl rfl rfl⟩
      | false => exact ⟨rfl, rfl, Nat.le_add_right _ _⟩

/-- The document a call has marked, and what the update leaves. -/
structure Marked (s₀ : State) (document marked : Document) (s : State) : Prop where
  documentId : marked.documentId = document.documentId
  documents : ∃ now, s.documents =
    PostgresDocumentRepository.update s₀.documents marked now
  jobs : s.jobs = s₀.jobs
  uuids : s₀.uuids ≤ s.uuids

theorem ensures_updateSegment (s₀ : State) (document : Document) :
    Ensures (· = s₀) (updateSegment env faults document)
      (fun result s => Marked s₀ document result.1 s ∧ faults .update = none)
      (fun r _ => ∃ fault, faults .update = some fault ∧ r = fault.raised) := by
  rintro s rfl
  cases hsite : faults .update with
  | none =>
      simp only [updateSegment, perform_of_none hsite]
      exact ⟨⟨rfl, ⟨_, rfl⟩, rfl, Nat.le_add_right _ _⟩, trivial⟩
  | some fault =>
      simp only [updateSegment, perform, hsite]
      exact ⟨fault, rfl, rfl⟩

theorem ensures_updateSegment_processing (document : Document) :
    Ensures (fun _ => True) (updateSegment env faults document)
      (fun result _ => result.1.status = .processing) fun _ _ => True := by
  intro s _
  cases hsite : faults .update with
  | none =>
      simp only [updateSegment, perform_of_none hsite]
      rfl
  | some fault =>
      simp only [updateSegment, perform, hsite]
      trivial

/-- The queue with one more job, if it accepts it. -/
structure Enqueued (outside : Outside) (tenantId : TenantId)
    (document : Document) (job : IngestionJob) (s₀ s : State) : Prop where
  documents : s.documents = s₀.documents
  jobs : s.jobs = s₀.jobs ++ if outside.accepts then
    [⟨tenantId.str, document.documentId.str, job.jobId.str, false⟩] else []
  uuids : s₀.uuids ≤ s.uuids

theorem ensures_enqueueSegment (s₀ : State) (document : Document)
    (job : IngestionJob) :
    Ensures (· = s₀) (enqueueSegment outside faults tenantId document job)
      (fun response s => Enqueued outside tenantId document job s₀ s ∧
        response = ⟨document.documentId.str, job.jobId.str, "processing"⟩)
      (fun r s => (∃ site fault, faults site = some fault ∧ r = fault.raised) ∧
        (faults.Lands .enqueue → Enqueued outside tenantId document job s₀ s)) := by
  rintro s rfl
  have henqueued : Enqueued outside tenantId document job s
      (finalState ((enqueueJob outside tenantId.str document.documentId.str
        job.jobId.str).run s)) := by
    unfold enqueueJob
    cases haccepts : outside.accepts with
    | true => exact ⟨by simp, by simp [haccepts], by simp⟩
    | false => exact ⟨by simp, by simp [haccepts], by simp⟩
  cases hsite : faults .enqueue with
  | none =>
      cases hlog : faults .logIngested with
      | none =>
          simp only [enqueueSegment, perform_of_none hsite, perform_of_none hlog]
          exact ⟨henqueued, rfl⟩
      | some fault =>
          simp only [enqueueSegment, perform_of_none hsite]
          simp only [perform, hlog]
          refine ⟨⟨_, fault, hlog, rfl⟩, fun _ => ?_⟩
          split
          · exact henqueued
          · exact henqueued
  | some fault =>
      simp only [enqueueSegment, perform, hsite]
      refine ⟨⟨_, fault, hsite, rfl⟩, fun hlands => ?_⟩
      rw [Faults.lands_iff_of_some hsite] at hlands
      rw [if_pos hlands]
      exact henqueued

/-- When nothing fails, a call that has found no duplicate inserts a document,
marks it and enqueues its job. -/
theorem ensures_newSegments (s₀ : State) (collectionId : CollectionId) :
    Ensures (· = s₀)
      (saveSegment env Faults.none request tenantId collectionId >>= fun document =>
        updateSegment env Faults.none document >>= fun result =>
          enqueueSegment outside Faults.none tenantId result.1 result.2)
      (fun response s => ∃ document marked job s₁ s₂,
        Inserted env request tenantId s₀ document s₁ ∧ Marked s₁ document marked s₂ ∧
          marked.status = .processing ∧ Enqueued outside tenantId marked job s₂ s ∧
          response = ⟨marked.documentId.str, job.jobId.str, "processing"⟩)
      fun _ _ => False := by
  refine ((ensures_saveSegment s₀ collectionId).impRaise ?_).bind fun document =>
    ensures_pointwise fun s₁ hs₁ => ?_
  · intro r s h
    obtain ⟨fault, hfault, -⟩ := h
    cases hfault
  have hprocessing : Ensures (fun _ => True)
      (updateSegment env Faults.none document)
      (fun result _ => result.1.status = .processing) fun _ _ => True :=
    ensures_updateSegment_processing document
  have hupdate := (ensures_updateSegment s₁ document).and hprocessing
  refine (hupdate.consequence (fun _ hs => ⟨hs, trivial⟩) (fun _ _ h => h) ?_).bind
    fun result => ensures_pointwise fun s₂ hs₂ => ?_
  · intro r s h
    obtain ⟨⟨fault, hfault, -⟩, -⟩ := h
    cases hfault
  refine (ensures_enqueueSegment s₂ result.1 result.2).imp ?_ ?_
  · intro response s h
    obtain ⟨henqueued, hresponse⟩ := h
    exact ⟨document, result.1, result.2, s₁, s₂, hs₁.1, hs₂.1.1, hs₂.2, henqueued, hresponse⟩
  · intro r s h
    obtain ⟨⟨site, fault, hfault, -⟩, -⟩ := h
    cases hfault

/-! ## A small deployment -/

/-- A deployment that numbers its identifiers and hashes nothing. -/
def noteEnv : Env := ⟨fun i => i, fun i => ⟨Fin.ofNat _ i⟩, id⟩

def noteRequest : Request := { title := "Note", content := "hello" }

/-- A database that scans its rows in order, and a queue that takes the job. -/
def inOrder : Outside := ⟨id, true⟩

end IngestDocument
end AiBackend

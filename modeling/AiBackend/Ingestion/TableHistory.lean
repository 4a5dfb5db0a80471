import AiBackend.Ingestion.Resubmission

/-!
# The documents table over histories

Ingest calls and pipeline runs in any order, with any of their calls failing or
being cancelled.  The table only grows at its end, by one row for an ingest
call at most, and the columns that an insert writes stay as they are.  A run
never gets past a chunk, so no row ever counts one, and no point is ever
stored.
-/

namespace AiBackend

open Program Python PostgresDocumentRepository Run

/-! ## Columns -/

/-- The columns of a row that only its insert writes. -/
structure InsertedColumns where
  documentId : DocumentId
  tenantId : TenantId
  collectionId : CollectionId
  title : String
  content : String
  contentType : String
  contentHash : String
  createdAt : Timestamp

def DocumentRow.inserted (row : DocumentRow) : InsertedColumns where
  documentId := row.documentId
  tenantId := row.tenantId
  collectionId := row.collectionId
  title := row.title
  content := row.content
  contentType := row.contentType
  contentHash := row.contentHash
  createdAt := row.createdAt

/-- There is an error message exactly if the status is `failed`, and nothing
has been counted. -/
structure Unprocessed (status : DocumentStatus) (errorMessage : Option String)
    (chunkCount tokenCount : ℤ) : Prop where
  error : errorMessage.isSome ↔ status = .failed
  chunks : chunkCount = 0
  tokens : tokenCount = 0

def DocumentRow.Unprocessed (row : DocumentRow) : Prop :=
  AiBackend.Unprocessed row.status row.errorMessage row.chunkCount row.tokenCount

namespace Document

variable {document : Document}

def Unprocessed (document : Document) : Prop :=
  AiBackend.Unprocessed document.status document.errorMessage document.chunkCount
    document.tokenCount

theorem Unprocessed.markProcessing (h : document.Unprocessed) (now : Timestamp) :
    (document.markProcessing now).Unprocessed :=
  ⟨by simp [Document.markProcessing], h.chunks, h.tokens⟩

theorem Unprocessed.markFailed (h : document.Unprocessed) (error : String) (now : Timestamp) :
    (document.markFailed error now).Unprocessed :=
  ⟨by simp [Document.markFailed], h.chunks, h.tokens⟩

/-- A document that is completed without a chunk. -/
theorem unprocessed_markCompleted (now : Timestamp) :
    (document.markCompleted 0 0 now).Unprocessed :=
  ⟨by simp [Document.markCompleted], rfl, rfl⟩

end Document

/-! ## Statements on the table -/

/-- The rows have the inserted columns, in this order, and are unprocessed. -/
structure Recorded (columns : List InsertedColumns) (table : DocumentTable) : Prop where
  inserted : table.items.map DocumentRow.inserted = columns
  unprocessed : ∀ row ∈ table.items, row.Unprocessed

section Recorded

variable {columns : List InsertedColumns} {table : DocumentTable} {document : Document}

theorem Recorded.getById (h : Recorded columns table) {documentId : DocumentId} {id : Uuid}
    (hget : PostgresDocumentRepository.getById table documentId id = some document) :
    document.Unprocessed := by
  obtain ⟨row, hrow, rfl⟩ := Option.map_eq_some_iff.mp hget
  exact h.unprocessed row (table.find?_eq_some_iff.mp hrow).1

theorem Recorded.update (h : Recorded columns table) (hdocument : document.Unprocessed)
    (now : Timestamp) :
    Recorded columns (PostgresDocumentRepository.update table document now) := by
  have hinserted : ∀ row : DocumentRow, (if row.documentId = document.documentId then
      updateRow document now row else row).inserted = row.inserted := by
    intro row
    split
    · rfl
    · rfl
  constructor
  · rw [← h.inserted, PostgresDocumentRepository.update, KeyedList.modify]
    simp only [List.map_map]
    exact List.map_congr_left fun row _ => hinserted row
  · intro row hrow
    obtain ⟨old, hold, rfl⟩ := List.mem_map.mp hrow
    split
    · exact hdocument
    · exact h.unprocessed old hold

/-- A saved document adds its row at the end, unless its identifier is
taken. -/
theorem Recorded.save (h : Recorded columns table) (contentHash : String → String)
    (hdocument : document.Unprocessed) :
    ∃ added, (added = [] ∨ added = [(newRow contentHash document).inserted]) ∧
      Recorded (columns ++ added)
        (PostgresDocumentRepository.save contentHash table document) := by
  by_cases hnew : ∀ row ∈ table.items, row.documentId ≠ document.documentId
  · refine ⟨[(newRow contentHash document).inserted], Or.inr rfl, ?_, ?_⟩
    · rw [save_items_of_new hnew, List.map_append, h.inserted]
      rfl
    · rw [save_items_of_new hnew, List.forall_mem_append]
      exact ⟨h.unprocessed, List.forall_mem_singleton.mpr hdocument⟩
  · refine ⟨[], Or.inl rfl, ?_⟩
    push Not at hnew
    obtain ⟨row, hrow, hid⟩ := hnew
    have htaken : (newRow contentHash document).documentId ∈
        table.items.map DocumentRow.documentId := List.mem_map.mpr ⟨row, hrow, hid⟩
    rw [List.append_nil, PostgresDocumentRepository.save, KeyedList.insertNew, if_pos htaken]
    exact h

end Recorded

/-! ## A pipeline run -/

namespace ProcessDocument

variable {env : Env} {faults : Faults Site PyExc} {columns : List InsertedColumns}
  {points : PointStore} {document : Document}

/-- The stores during a run. -/
structure Bare (columns : List InsertedColumns) (points : PointStore) (s : State) : Prop where
  documents : Recorded columns s.documents
  points : s.points = points

/-- The stores of a run that has no chunk. -/
structure Chunkless (columns : List InsertedColumns) (points : PointStore) (s : State) : Prop
    extends Bare columns points s where
  chunks : s.chunks = []

theorem preserves_onJob_bare (method : (ℕ → Timestamp) → EStateM PyExc IngestionJob Unit) :
    Preserves (Bare columns points) (onJob env method) :=
  preserves_onJob_of (fun _ _ _ hs => ⟨hs.documents, hs.points⟩) method

theorem ensures_onJob_chunkless
    (method : (ℕ → Timestamp) → EStateM PyExc IngestionJob Unit) :
    Ensures (Chunkless columns points) (onJob env method)
      (fun _ => Chunkless columns points) fun _ => Bare columns points :=
  (preserves_onJob_of (I := Chunkless columns points)
    (fun _ _ _ hs => ⟨⟨hs.documents, hs.points⟩, hs.chunks⟩) method).impRaise fun _ _ h => h.toBare

theorem ensures_log_chunkless (site : Site) :
    Ensures (Chunkless columns points) (log faults site)
      (fun _ => Chunkless columns points) fun _ => Bare columns points :=
  (preserves_log_of site).impRaise fun _ _ h => h.toBare

/-- Chunk entities are only ever built for an empty list. -/
theorem ensures_newChunks_bare (i : ℕ) (chunkDataList : List ChunkData) :
    Ensures (Bare columns points) (newChunks env faults document i chunkDataList)
      (fun chunks s => Bare columns points s ∧ chunks = []) fun _ => Bare columns points := by
  cases chunkDataList with
  | nil => exact ensures_pure fun s hs => ⟨hs, rfl⟩
  | cons cd rest =>
      have hraised : ∀ tokenCount, Ensures (Bare columns points)
          (newChunk env document cd tokenCount) (fun _ _ => False)
          fun _ => Bare columns points := by
        intro tokenCount s hs
        obtain ⟨e, hrun⟩ := newChunk_raises env document cd tokenCount s
        rw [hrun]
        exact ⟨hs.documents, hs.points⟩
      have hkept : ∀ tokenCount, Preserves (Bare columns points)
          (newChunk env document cd tokenCount) := fun tokenCount =>
        (hraised tokenCount).impReturn fun _ _ h => h.elim
      have hnew : ∀ tokenCount, Ensures (Bare columns points)
          (perform faults (.newChunk i) (newChunk env document cd tokenCount))
          (fun _ _ => False) fun _ => Bare columns points := by
        intro tokenCount
        refine ensures_perform (fun _ => hraised tokenCount) fun fault _ s hs => ?_
        split
        · exact (hkept tokenCount).final hs
        · exact hs
      exact Ensures.bind (Preserves.pure _).perform fun tokenCount =>
        (hnew tokenCount).bind fun _ _ hfalse => hfalse.elim

/-- Chunking passes only if there is no chunk. -/
theorem ensures_chunkStage_bare :
    Ensures (Bare columns points) (chunkStage env faults document)
      (fun _ => Chunkless columns points) fun _ => Bare columns points := by
  apply Ensures.bind (preserves_onJob_bare _)
  intro _
  apply Ensures.bind (Preserves.pure _).perform
  intro chunkDataList
  refine (ensures_newChunks_bare 0 chunkDataList).bind fun chunks =>
    ensures_of_fact fun hnone => ?_
  have hsave : Ensures (Bare columns points)
      (modify fun s : State => { s with
        chunkRepo := InMemoryChunkRepository.saveMany s.chunkRepo chunks
        chunks := chunks })
      (fun _ => Chunkless columns points) fun (_ : Raised PyExc) _ => False :=
    ensures_modify fun s hs => ⟨⟨hs.documents, hs.points⟩, hnone⟩
  have hperformed : Ensures (Bare columns points)
      (perform faults .saveMany (modify fun s : State => { s with
        chunkRepo := InMemoryChunkRepository.saveMany s.chunkRepo chunks
        chunks := chunks }))
      (fun _ => Chunkless columns points) fun _ => Bare columns points := by
    refine (ensures_perform_effect hsave).imp (fun _ _ h => h.2) ?_
    rintro r s ⟨fault, -, -, hs⟩
    split at hs
    · obtain ⟨_, hs⟩ := hs
      exact hs.toBare
    · exact hs
  apply hperformed.bind
  intro _
  refine Ensures.bind ?_ fun _ => ensures_log_chunkless _
  exact (ensures_onJob_chunkless _).bind fun _ =>
    ensures_modify fun s hs => ⟨⟨hs.documents, hs.points⟩, hs.chunks⟩

/-- Without chunks there is nothing to embed. -/
theorem ensures_embedStage_chunkless :
    Ensures (Chunkless columns points) (embedStage env faults)
      (fun totalTokens s => Chunkless columns points s ∧ totalTokens = 0)
      fun _ => Bare columns points := by
  apply (ensures_onJob_chunkless _).bind
  intro _
  refine (ensures_get (Q := fun s₀ s => Chunkless columns points s ∧ s₀.chunks = [])
    fun s hs => ⟨hs, hs.chunks⟩).bind fun s₀ => ensures_of_fact fun hchunks => ?_
  rw [hchunks]
  refine (ensures_pure (Q := fun total s => Chunkless columns points s ∧ total = (0 : ℤ))
    fun s hs => ⟨hs, rfl⟩).bind fun total => ensures_of_fact fun htotal => ?_
  exact (ensures_log_chunkless _).bind fun _ => ensures_pure fun s hs => ⟨hs, htotal⟩

/-- And nothing to store. -/
theorem ensures_storeStage_chunkless :
    Ensures (Chunkless columns points) (storeStage env faults document)
      (fun _ => Chunkless columns points) fun _ => Bare columns points := by
  apply (ensures_onJob_chunkless _).bind
  intro _
  refine (ensures_get (Q := fun s₀ s => Chunkless columns points s ∧ s₀.chunks = [])
    fun s hs => ⟨hs, hs.chunks⟩).bind fun s₀ => ensures_of_fact fun hchunks => ?_
  rw [hchunks]
  exact (ensures_pure fun _ hs => hs).bind fun _ => ensures_log_chunkless _

theorem preserves_readings_bare (n : ℕ) : Preserves (Bare columns points) (readings env n) :=
  fun _ hs => ⟨hs.documents, hs.points⟩

theorem preserves_update_bare (hdocument : document.Unprocessed) :
    Preserves (Bare columns points) (update env document) := by
  apply (preserves_readings_bare 1).bind
  intro now
  exact fun s hs => ⟨hs.documents.update hdocument (now 0), hs.points⟩

theorem ensures_completeStage_chunkless :
    Ensures (Chunkless columns points) (completeStage env faults document 0)
      (fun _ => Bare columns points) fun _ => Bare columns points := by
  apply (ensures_onJob_chunkless _).bind
  intro _
  refine Ensures.bind (M := fun _ => Chunkless columns points)
    (fun s hs => ⟨⟨hs.documents, hs.points⟩, hs.chunks⟩) fun now => ?_
  refine (ensures_get (Q := fun s₀ s => Bare columns points s ∧ s₀.chunks = [])
    fun s hs => ⟨hs.toBare, hs.chunks⟩).bind fun s₀ => ensures_of_fact fun hchunks => ?_
  rw [hchunks]
  exact Ensures.bind (preserves_update_bare (Document.unprocessed_markCompleted _)).perform
    fun _ => preserves_log_of _

theorem preserves_stages_bare : Preserves (Bare columns points) (stages env faults document) := by
  apply Preserves.bind (preserves_log_of _)
  intro _
  apply ensures_chunkStage_bare.bind
  intro _
  refine ensures_embedStage_chunkless.bind fun totalTokens => ensures_of_fact ?_
  rintro rfl
  exact ensures_storeStage_chunkless.bind fun _ => ensures_completeStage_chunkless

/-- What is read is unprocessed. -/
theorem ensures_getById_bare (site : Site) (documentId : DocumentId) :
    Ensures (Bare columns points) (perform faults site (getById env documentId))
      (fun found s => Bare columns points s ∧
        ∀ document, found = some document → document.Unprocessed)
      fun _ => Bare columns points := by
  have hget : Ensures (Bare columns points) (getById env documentId)
      (fun found s => Bare columns points s ∧
        ∀ document, found = some document → document.Unprocessed)
      fun _ _ => False :=
    fun s hs => ⟨⟨hs.documents, hs.points⟩, fun document hfound => hs.documents.getById hfound⟩
  refine (ensures_perform_effect hget).imp (fun _ _ h => h.2) ?_
  rintro r s ⟨fault, -, -, hs⟩
  split at hs
  · obtain ⟨_, hs, -⟩ := hs
    exact hs
  · exact hs

theorem preserves_pipeline_bare (documentId : DocumentId) :
    Preserves (Bare columns points) (pipeline env faults documentId) := by
  apply Preserves.bind (preserves_onJob_bare _)
  intro _
  refine (ensures_getById_bare .getById documentId).bind fun found =>
    ensures_of_fact fun hfound => ?_
  cases found with
  | none => exact preserves_onJob_bare _
  | some document =>
      dsimp only
      split
      · apply Preserves.bind (preserves_onJob_bare _)
        intro _
        apply (preserves_readings_bare 1).bind
        intro now
        exact (preserves_update_bare ((hfound document rfl).markFailed _ _)).perform
      · exact preserves_stages_bare

theorem preserves_handler_bare (documentId : DocumentId) (exc : PyExc) :
    Preserves (Bare columns points) (handler env faults documentId exc) := by
  apply Preserves.bind (preserves_onJob_bare _)
  intro _
  refine Preserves.bind ?_ fun _ => preserves_log_of _
  refine Preserves.tryExcept ?_ fun _ => Preserves.pure _
  refine (ensures_getById_bare .handlerGetById documentId).bind fun found =>
    ensures_of_fact fun hfound => ?_
  cases found with
  | none => exact Preserves.pure _
  | some document =>
      apply (preserves_readings_bare 1).bind
      intro now
      exact (preserves_update_bare ((hfound document rfl).markFailed _ _)).perform

/-- However a run ends, it leaves the inserted columns and the points as they
were. -/
theorem exit_bare (env : Env) (faults : Faults Site PyExc) (documentId : DocumentId)
    {s : State} (hs : Bare columns points s) :
    Bare columns points (exit env faults documentId s) := by
  have hexecute : Preserves (Bare columns points) (execute env faults documentId) :=
    (preserves_pipeline_bare documentId).tryExcept (preserves_handler_bare documentId)
  exact hexecute.final hs

end ProcessDocument

/-! ## An ingest call -/

namespace IngestDocument

/-- The columns that a call may insert. -/
structure FromRequest (env : Env) (request : Request) (tenantId : TenantId)
    (columns : InsertedColumns) : Prop where
  tenantId : columns.tenantId = tenantId
  collectionId : ∃ fresh, collectionIdOf request fresh = .ok columns.collectionId
  title : columns.title = request.title
  content : columns.content = request.content
  contentType : columns.contentType = request.contentType
  contentHash : columns.contentHash = env.contentHash request.content

/-- The table with at most one more row, which the call has inserted. -/
def Grown (env : Env) (request : Request) (tenantId : TenantId)
    (columns : List InsertedColumns) (table : DocumentTable) : Prop :=
  ∃ added : List InsertedColumns, added.length ≤ 1 ∧
    (∀ c ∈ added, FromRequest env request tenantId c) ∧ Recorded (columns ++ added) table

section Call

variable {env : Env} {outside : Outside} {faults : Faults Site PyExc} {request : Request}
  {tenantId : TenantId} {columns : List InsertedColumns} {table : DocumentTable}

theorem grown_of_recorded (h : Recorded columns table) :
    Grown env request tenantId columns table :=
  ⟨[], Nat.zero_le _, by simp, by rwa [List.append_nil]⟩

theorem Grown.update {document : Document} (h : Grown env request tenantId columns table)
    (hdocument : document.Unprocessed) (now : Timestamp) :
    Grown env request tenantId columns
      (PostgresDocumentRepository.update table document now) := by
  obtain ⟨added, hlength, hfrom, hrecorded⟩ := h
  exact ⟨added, hlength, hfrom, hrecorded.update hdocument now⟩

theorem ensures_checkSegment_collection :
    Ensures (fun _ => True) (checkSegment env outside faults request tenantId)
      (fun checked _ => ∃ fresh, collectionIdOf request fresh = .ok checked.1)
      fun _ _ => True := by
  apply ensures_trivial.bind
  intro uuid4
  refine ((ensures_ofExcept (collectionIdOf request (uuid4 0))).impRaise
    fun _ _ _ => trivial).bind fun collectionId => ensures_of_fact fun hcollection => ?_
  exact ensures_trivial.bind fun _ => ensures_pure fun _ _ => ⟨uuid4 0, hcollection⟩

theorem ensures_saveSegment_grown {collectionId : CollectionId}
    (hcollection : ∃ fresh, collectionIdOf request fresh = .ok collectionId) :
    Ensures (fun s => Recorded columns s.documents)
      (saveSegment env faults request tenantId collectionId)
      (fun document s => Grown env request tenantId columns s.documents ∧
        document.Unprocessed)
      fun _ s => Grown env request tenantId columns s.documents := by
  refine Ensures.bind (M := fun _ s => Recorded columns s.documents) ?_ fun uuid4 => ?_
  · exact fun s hs => hs
  refine Ensures.bind (M := fun _ s => Recorded columns s.documents) ?_ fun now => ?_
  · exact fun s hs => hs
  have hunprocessed : ∀ document : Document, document.status = .pending →
      document.errorMessage = none → document.chunkCount = 0 → document.tokenCount = 0 →
      document.Unprocessed :=
    fun document hstatus herror hchunks htokens =>
      ⟨by simp [hstatus, herror], hchunks, htokens⟩
  have hsave : ∀ document : Document, document.Unprocessed →
      FromRequest env request tenantId (newRow env.contentHash document).inserted →
      Ensures (fun s => Recorded columns s.documents) (save env document)
        (fun _ s => Grown env request tenantId columns s.documents)
        fun _ _ => False := by
    intro document hdocument hfrom s hs
    obtain ⟨added, hadded, hrecorded⟩ := hs.save env.contentHash hdocument
    refine ⟨added, ?_, ?_, hrecorded⟩
    · rcases hadded with rfl | rfl
      · exact Nat.zero_le 1
      · exact Nat.le_refl 1
    · rcases hadded with rfl | rfl
      · simp
      · exact List.forall_mem_singleton.mpr hfrom
  refine Ensures.bind (M := fun _ s => Grown env request tenantId columns s.documents) ?_
    fun _ => ensures_pure fun s hs => ⟨hs, hunprocessed _ rfl rfl rfl rfl⟩
  refine (ensures_perform_effect (hsave _ ?_ ?_)).imp (fun _ _ h => h.2) ?_
  · exact hunprocessed _ rfl rfl rfl rfl
  · exact ⟨rfl, hcollection, rfl, rfl, rfl, rfl⟩
  · rintro r s ⟨fault, -, -, hs⟩
    split at hs
    · obtain ⟨_, hs⟩ := hs
      exact hs
    · exact grown_of_recorded hs

theorem preserves_updateSegment_grown {document : Document}
    (hdocument : document.Unprocessed) :
    Preserves (fun s => Grown env request tenantId columns s.documents)
      (updateSegment env faults document) := by
  apply Preserves.bind (fun s hs => hs)
  intro uuid4
  apply Preserves.bind (fun s hs => hs)
  intro now
  refine Preserves.bind (Preserves.perform ?_) fun _ => Preserves.pure _
  apply Preserves.bind (fun s hs => hs)
  intro now'
  exact fun s hs => hs.update (hdocument.markProcessing _) (now' 0)

/-- The queue is not the table. -/
theorem preserves_enqueueSegment {F : DocumentTable → Prop} (document : Document)
    (job : IngestionJob) :
    Preserves (fun s => F s.documents) (enqueueSegment outside faults tenantId document job) := by
  refine Preserves.bind (Preserves.perform ?_) fun _ =>
    (Preserves.pure _).perform.bind fun _ => Preserves.pure _
  refine ensures_modify fun s hs => ?_
  split
  · exact hs
  · exact hs

/-- However a call ends, it has added one row of its request at most. -/
theorem ensures_execute_grown (env : Env) (outside : Outside) (faults : Faults Site PyExc)
    (request : Request) (tenantId : TenantId) :
    Ensures (fun s => Recorded columns s.documents)
      (execute env outside faults request tenantId)
      (fun _ s => Grown env request tenantId columns s.documents)
      fun _ s => Grown env request tenantId columns s.documents := by
  have hcheck : Ensures (fun s => Recorded columns s.documents)
      (checkSegment env outside faults request tenantId)
      (fun checked s => Recorded columns s.documents ∧
        ∃ fresh, collectionIdOf request fresh = .ok checked.1)
      fun _ s => Grown env request tenantId columns s.documents := by
    refine ensures_pointwise fun s₀ hs₀ => ?_
    refine ((ensures_checkSegment s₀).and ensures_checkSegment_collection).consequence
      (fun s hs => ⟨hs, trivial⟩) ?_ ?_
    · rintro checked s ⟨⟨hsame, -⟩, hcollection⟩
      exact ⟨by rwa [hsame.documents], hcollection⟩
    · rintro r s ⟨⟨hsame, -⟩, -⟩
      exact grown_of_recorded (by rwa [hsame.documents])
  refine hcheck.bind fun checked => ensures_of_fact fun hcollection => ?_
  obtain ⟨collectionId, existing⟩ := checked
  cases existing with
  | some document =>
      have hanswer : Preserves (fun s => Recorded columns s.documents)
          (duplicateSegment faults document) :=
        (Preserves.pure _).perform.bind fun _ => Preserves.pure _
      exact hanswer.imp (fun _ _ hs => grown_of_recorded hs) fun _ _ hs => grown_of_recorded hs
  | none =>
      refine (ensures_saveSegment_grown hcollection).bind fun document =>
        ensures_of_fact fun hdocument => ?_
      exact Ensures.bind (preserves_updateSegment_grown hdocument) fun result =>
        preserves_enqueueSegment result.1 result.2

end Call

/-! ## Histories -/

/-- No row counts a chunk, and there is no point. -/
structure Unstored (s : Stores) : Prop where
  unprocessed : ∀ row ∈ s.ingest.documents.items, row.Unprocessed
  points : s.points = KeyedList.empty

/-- What a step may do: the rows before it stay, in their order and with the
columns they were inserted with, and an ingest call may add one of its
request. -/
structure KeepsRecord (t : Transition Stores Event) : Prop where
  grows : ∃ added : List InsertedColumns, added.length ≤ 1 ∧
    t.after.ingest.documents.items.map DocumentRow.inserted =
      t.before.ingest.documents.items.map DocumentRow.inserted ++ added ∧
    ∀ c ∈ added, ∃ env outside faults request tenantId,
      t.input = .ingest env outside faults request tenantId ∧
        FromRequest env request tenantId c
  unstored : Unstored t.after

theorem recorded_of_unstored {s : Stores} (h : Unstored s) :
    Recorded (s.ingest.documents.items.map DocumentRow.inserted) s.ingest.documents :=
  ⟨rfl, h.unprocessed⟩

/-- A step that leaves the inserted columns alone. -/
theorem keepsRecord_of_recorded {s s' : Stores} {event : Event}
    (h : Recorded (s.ingest.documents.items.map DocumentRow.inserted) s'.ingest.documents)
    (hpoints : s'.points = KeyedList.empty) : KeepsRecord ⟨s, event, s'⟩ :=
  ⟨⟨[], Nat.zero_le 1, by rw [h.inserted, List.append_nil], by simp⟩, h.unprocessed, hpoints⟩

theorem runJob_unstored {s : Stores} (h : Unstored s) (env : ProcessDocument.Env)
    (faults : Faults ProcessDocument.Site PyExc) (job : QueuedJob) :
    Recorded (s.ingest.documents.items.map DocumentRow.inserted)
        (runJob env faults job s).ingest.documents ∧
      (runJob env faults job s).points = KeyedList.empty := by
  unfold runJob
  split
  · exact ⟨recorded_of_unstored h, h.points⟩
  next docId jobId _ =>
    have hexit := ProcessDocument.exit_bare env faults docId
      (s := runState env docId jobId s) ⟨recorded_of_unstored h, h.points⟩
    exact ⟨hexit.documents, hexit.points⟩

theorem step_keepsRecord (s : Stores) (event : Event) (h : Unstored s) :
    KeepsRecord ⟨s, event, step s event⟩ := by
  cases event with
  | ingest env outside faults request tenantId =>
      obtain ⟨added, hlength, hfrom, hrecorded⟩ :=
        (ensures_execute_grown env outside faults request tenantId).final
          (recorded_of_unstored h)
      exact ⟨⟨added, hlength, hrecorded.inserted, fun c hc =>
        ⟨env, outside, faults, request, tenantId, rfl, hfrom c hc⟩⟩,
        hrecorded.unprocessed, h.points⟩
  | run k env faults ends =>
      rw [step]
      split
      · exact keepsRecord_of_recorded (recorded_of_unstored h) h.points
      next job _ =>
        obtain ⟨hrecorded, hpoints⟩ := runJob_unstored h env faults job
        generalize runJob env faults job s = s' at hrecorded hpoints ⊢
        split
        · exact keepsRecord_of_recorded hrecorded hpoints
        · exact keepsRecord_of_recorded hrecorded hpoints

theorem unstored_deployed : Unstored deployed := by
  refine ⟨fun row hrow => ?_, rfl⟩
  cases hrow

theorem unstored_final (history : List Event) : Unstored (final step deployed history) :=
  final_of_steps (fun _ _ => True) (fun s event h _ => (step_keepsRecord s event h).unstored)
    unstored_deployed fun _ _ => trivial

/-- In every history of ingest calls and pipeline runs every step keeps the
record of the documents. -/
theorem history_keepsRecord (history : List Event) :
    ∀ t ∈ trace step deployed history, KeepsRecord t :=
  trace_of_steps (I := Unstored) (fun _ _ => True)
    (fun s event h _ => (step_keepsRecord s event h).unstored)
    (fun s event h _ => step_keepsRecord s event h) unstored_deployed fun _ _ => trivial

theorem history_keepsRecord_note :
    KeepsRecord ⟨deployed, .ingest noteEnv inOrder Faults.none noteRequest ⟨1⟩,
      step deployed (.ingest noteEnv inOrder Faults.none noteRequest ⟨1⟩)⟩ :=
  history_keepsRecord noteHistory _ (List.mem_cons_self ..)

end IngestDocument
end AiBackend

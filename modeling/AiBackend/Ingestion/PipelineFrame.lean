import AiBackend.Application.ProcessDocument

/-!
# What a pipeline run leaves alone

A run reads and writes one document.  Whatever fails or is cancelled during
it, the rows of all other documents are as before.
-/

namespace AiBackend
namespace ProcessDocument

open Program Python

variable {env : Env} {faults : Faults Site PyExc}

/-- A method call changes the job and reads the clock. -/
theorem preserves_onJob_of {I : State → Prop}
    (hI : ∀ s job clock, I s → I { s with job := job, clock := clock })
    (method : (ℕ → Timestamp) → EStateM PyExc IngestionJob Unit) :
    Preserves I (onJob env method) := by
  apply Preserves.bind (fun s hs => hI s s.job (s.clock + 2) hs)
  intro now s hs
  simp only [EStateM.run, zoom]
  cases method now s.job with
  | ok a job => exact hI s job s.clock hs
  | error e job => exact hI s job s.clock hs

theorem preserves_log_of {I : State → Prop} (site : Site) :
    Preserves I (log faults site) :=
  (Preserves.pure ()).perform

/-! ## Steps that do not touch the documents -/

section Untouched

variable {F : DocumentTable → Prop}

theorem preserves_onJob
    (method : (ℕ → Timestamp) → EStateM PyExc IngestionJob Unit) :
    Preserves (fun s => F s.documents) (onJob env method) :=
  preserves_onJob_of (fun _ _ _ hs => hs) method

theorem preserves_recordProgress (processed total : ℤ) :
    Preserves (fun s => F s.documents) (recordProgress env processed total) :=
  (preserves_onJob _).bind fun _ _ hs => hs

theorem preserves_log (site : Site) :
    Preserves (fun s => F s.documents) (log faults site) :=
  preserves_log_of site

theorem preserves_newChunk (document : Document) (cd : ChunkData)
    (tokenCount : ℤ) :
    Preserves (fun s => F s.documents) (newChunk env document cd tokenCount) := by
  apply Preserves.bind (fun s hs => hs)
  intro uuid4
  apply Preserves.bind (fun s hs => hs)
  intro now
  split
  · exact Preserves.pure _
  · exact Preserves.throw _

theorem preserves_newChunks (document : Document)
    (chunkDataList : List ChunkData) (i : ℕ) :
    Preserves (fun s => F s.documents)
      (newChunks env faults document i chunkDataList) := by
  induction chunkDataList generalizing i with
  | nil => exact Preserves.pure _
  | cons cd rest ih =>
      exact (Preserves.pure _).perform.bind fun _ =>
        (preserves_newChunk document cd _).perform.bind fun _ =>
          (ih (i + 1)).bind fun _ => Preserves.pure _

theorem preserves_chunkStage (document : Document) :
    Preserves (fun s => F s.documents) (chunkStage env faults document) := by
  apply (preserves_onJob _).bind
  intro _
  apply (Preserves.pure _).perform.bind
  intro list
  apply (preserves_newChunks document list 0).bind
  intro chunks
  apply Preserves.bind (Preserves.perform fun s hs => hs)
  intro _
  exact (preserves_recordProgress _ _).bind fun _ => preserves_log _

theorem preserves_checkLengths (batch embeddings : ℕ) :
    Preserves (fun s => F s.documents) (checkLengths batch embeddings) := by
  unfold checkLengths
  split
  · exact Preserves.throw _
  · split
    · exact Preserves.throw _
    · exact Preserves.pure _

theorem preserves_embedBatchAt (totalTokens : ℤ) (batchStart : ℕ) :
    Preserves (fun s => F s.documents)
      (embedBatchAt env faults totalTokens batchStart) := by
  apply Preserves.bind (fun s hs => hs)
  intro s
  refine Preserves.bind (Preserves.perform ?_) fun embeddings => ?_
  · exact Preserves.bind (fun s hs => hs) fun _ => Preserves.pure _
  apply Preserves.bind (fun s hs => hs)
  intro now
  apply Preserves.bind (fun s hs => hs)
  intro _
  apply (preserves_checkLengths _ _).bind
  intro _
  exact (preserves_recordProgress _ _).bind fun _ => Preserves.pure _

theorem preserves_embedStage :
    Preserves (fun s => F s.documents) (embedStage env faults) := by
  apply (preserves_onJob _).bind
  intro _
  apply Preserves.bind (fun s hs => hs)
  intro s
  have hloop : Preserves (fun s => F s.documents)
      ((batchStarts s.chunks.length).foldlM (embedBatchAt env faults) 0) :=
    ensures_foldlM (I := fun _ (s : State) => F s.documents)
      (fun total start _ => preserves_embedBatchAt total start) 0
  apply hloop.bind
  intro total
  exact (preserves_log _).bind fun _ => Preserves.pure _

theorem preserves_storeStage (document : Document) :
    Preserves (fun s => F s.documents) (storeStage env faults document) := by
  apply (preserves_onJob _).bind
  intro _
  apply Preserves.bind (fun s hs => hs)
  intro s
  refine Preserves.bind ?_ fun _ => preserves_log _
  unfold upsertMany
  split
  · exact Preserves.pure _
  · refine Preserves.bind (Preserves.perform ?_) fun _ => preserves_log _
    exact Preserves.bind (fun s hs => hs) fun _ s hs => hs

end Untouched

/-! ## The rows of other documents -/

/-- The table has the same documents as `table`, and the other documents have
the same rows. -/
structure OthersKept (table : DocumentTable) (documentId : DocumentId)
    (documents : DocumentTable) : Prop where
  keys : documents.keys = table.keys
  others : ∀ row, row.documentId ≠ documentId →
    (row ∈ documents.items ↔ row ∈ table.items)

variable {table : DocumentTable} {documentId : DocumentId}

theorem OthersKept.refl (table : DocumentTable) (documentId : DocumentId) :
    OthersKept table documentId table :=
  ⟨rfl, fun _ _ => Iff.rfl⟩

theorem OthersKept.update {documents : DocumentTable}
    (h : OthersKept table documentId documents) {document : Document}
    (hid : document.documentId = documentId) (now : Timestamp) :
    OthersKept table documentId
      (PostgresDocumentRepository.update documents document now) := by
  refine ⟨(KeyedList.keys_modify ..).trans h.keys, fun row hrow => ?_⟩
  rw [PostgresDocumentRepository.mem_update_of_ne (hid ▸ hrow)]
  exact h.others row hrow

theorem preserves_update (document : Document)
    (hid : document.documentId = documentId) :
    Preserves (fun s => OthersKept table documentId s.documents)
      (update env document) := by
  apply Preserves.bind (fun s hs => hs)
  intro now
  exact fun s hs => hs.update hid (now 0)

/-- What `get_by_id` finds is the document asked for. -/
theorem ensures_getById_documentId (site : Site) :
    Ensures (fun s => OthersKept table documentId s.documents)
      (perform faults site (getById env documentId))
      (fun found s => OthersKept table documentId s.documents ∧
        ∀ document, found = some document → document.documentId = documentId)
      (fun _ s => OthersKept table documentId s.documents) := by
  have hget : Ensures (fun s => OthersKept table documentId s.documents)
      (getById env documentId)
      (fun found s => OthersKept table documentId s.documents ∧
        ∀ document, found = some document → document.documentId = documentId)
      fun _ _ => False :=
    fun s hs => ⟨hs, fun document hfound =>
      PostgresDocumentRepository.getById_documentId hfound⟩
  refine (ensures_perform_effect hget).imp (fun _ _ h => h.2) ?_
  intro r s hs
  obtain ⟨fault, -, -, hs⟩ := hs
  split at hs
  · obtain ⟨_, hs, -⟩ := hs
    exact hs
  · exact hs

theorem preserves_completeStage {document : Document}
    (hid : document.documentId = documentId) (totalTokens : ℤ) :
    Preserves (fun s => OthersKept table documentId s.documents)
      (completeStage env faults document totalTokens) := by
  apply (preserves_onJob _).bind
  intro _
  apply Preserves.bind (fun s hs => hs)
  intro now
  apply Preserves.bind (fun s hs => hs)
  intro s
  exact (preserves_update (document.markCompleted _ _ _) hid).perform.bind
    fun _ => preserves_log _

theorem preserves_stages {document : Document}
    (hid : document.documentId = documentId) :
    Preserves (fun s => OthersKept table documentId s.documents)
      (stages env faults document) :=
  (preserves_log _).bind fun _ =>
    (preserves_chunkStage document).bind fun _ =>
      preserves_embedStage.bind fun totalTokens =>
        (preserves_storeStage document).bind fun _ =>
          preserves_completeStage hid totalTokens

theorem preserves_pipeline :
    Preserves (fun s => OthersKept table documentId s.documents)
      (pipeline env faults documentId) := by
  apply (preserves_onJob _).bind
  intro _
  apply (ensures_getById_documentId .getById).bind
  intro found
  apply ensures_of_fact
  intro hfound
  cases found with
  | none => exact preserves_onJob _
  | some document =>
      have hid := hfound document rfl
      dsimp only
      split
      · apply (preserves_onJob _).bind
        intro _
        apply Preserves.bind (fun s hs => hs)
        intro now
        exact (preserves_update (document.markFailed _ _) hid).perform
      · exact preserves_stages hid

theorem preserves_handler (exc : PyExc) :
    Preserves (fun s => OthersKept table documentId s.documents)
      (handler env faults documentId exc) := by
  apply (preserves_onJob _).bind
  intro _
  refine Preserves.bind ?_ fun _ => preserves_log _
  refine Preserves.tryExcept ?_ fun _ => Preserves.pure _
  apply (ensures_getById_documentId .handlerGetById).bind
  intro found
  apply ensures_of_fact
  intro hfound
  cases found with
  | none => exact Preserves.pure _
  | some document =>
      apply Preserves.bind (fun s hs => hs)
      intro now
      exact (preserves_update (document.markFailed _ _) (hfound document rfl)).perform

/-- A run keeps the rows of all other documents, however it ends. -/
theorem preserves_execute :
    Preserves (fun s => OthersKept table documentId s.documents)
      (execute env faults documentId) :=
  preserves_pipeline.tryExcept preserves_handler

end ProcessDocument
end AiBackend

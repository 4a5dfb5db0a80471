import AiBackend.Infrastructure.DocumentTable
import AiBackend.Infrastructure.MemoryDocuments
import AiBackend.Support.JsonEquality
import AiBackend.Support.Program
import AiBackend.Support.Run

/-!
# One document repository in place of the other

Both repositories are run on the same calls, documents passed and returned by
value.  They hold the same contents as long as no call meets one of the places
where the statements differ from an assignment: `INSERT` leaves a stored row
alone, `UPDATE` inserts nothing and writes only the columns that may change,
and the columns and the foreign key of the table refuse or alter some values.
-/

namespace AiBackend

open Program Python Run Sorting

/-! ## What is compared -/

/-- The fields on which documents are compared; metadata count as equal as
Python compares dictionaries. -/
structure DocumentView where
  documentId : DocumentId
  tenantId : TenantId
  collectionId : CollectionId
  title : String
  content : String
  contentType : String
  status : DocumentStatus
  chunkCount : ℤ
  tokenCount : ℤ
  errorMessage : Option String
  metadata : Json

/-- The fields that `UPDATE` does not write. -/
structure FixedFields where
  tenantId : TenantId
  collectionId : CollectionId
  title : String
  content : String
  contentType : String
  createdAt : Timestamp

/-- What a repository holds of a document: the compared fields and the
instant by which it is ordered. -/
structure Stored where
  view : DocumentView
  createdAt : Timestamp

namespace Document

def view (document : Document) : DocumentView where
  documentId := document.documentId
  tenantId := document.tenantId
  collectionId := document.collectionId
  title := document.title
  content := document.content
  contentType := document.contentType
  status := document.status
  chunkCount := document.chunkCount
  tokenCount := document.tokenCount
  errorMessage := document.errorMessage
  metadata := Json.normal (.dict document.metadata.items)

def stored (document : Document) : Stored := ⟨document.view, document.createdAt⟩

def fixedFields (document : Document) : FixedFields where
  tenantId := document.tenantId
  collectionId := document.collectionId
  title := document.title
  content := document.content
  contentType := document.contentType
  createdAt := document.createdAt

end Document

namespace DocumentRow

def stored (row : DocumentRow) : Stored :=
  (PostgresDocumentRepository.rowToDocument row ⟨0⟩).stored

def fixedFields (row : DocumentRow) : FixedFields :=
  (PostgresDocumentRepository.rowToDocument row ⟨0⟩).fixedFields

end DocumentRow

/-! ## Calls and their answers -/

/-- A call of the common interface. -/
inductive DocumentCall where
  | save (document : Document)
  | update (document : Document)
  | delete (documentId : DocumentId)
  | getById (documentId : DocumentId)
  | getByCollection (collectionId : CollectionId) (pagination : PaginationParams)
  | countByCollection (collectionId : CollectionId)

/-- What a call returns. -/
inductive DocumentAnswer (δ : Type) where
  | document (answer : Option δ)
  | documents (answer : List δ)
  | deleted (answer : Bool)
  | count (answer : ℤ)

def DocumentAnswer.map {δ ε : Type} (f : δ → ε) : DocumentAnswer δ → DocumentAnswer ε
  | .document answer => .document (answer.map f)
  | .documents answer => .documents (answer.map f)
  | .deleted answer => .deleted answer
  | .count answer => .count answer

/-- What the database does at one call: its clock, the order in which it
visits rows, and the identities that the decoder draws for them. -/
structure Ambient where
  now : Timestamp
  scan : List DocumentRow → List DocumentRow
  scan_perm : ∀ rows, (scan rows).Perm rows
  drawn : DocumentRow → Uuid

namespace DocumentCall

/-- The document that is passed. -/
def passed : DocumentCall → Option Document
  | .save document => some document
  | .update document => some document
  | _ => none

open InMemoryDocumentRepository in
/-- The answer of the repository in memory, and what it holds then. -/
def onMemory (store : Store) : DocumentCall → DocumentAnswer Document × Store
  | .save document => (.document (some document), InMemoryDocumentRepository.save store document)
  | .update document =>
      (.document (some document), InMemoryDocumentRepository.update store document)
  | .delete documentId =>
      ((InMemoryDocumentRepository.delete store documentId).map .deleted id)
  | .getById documentId =>
      (.document (InMemoryDocumentRepository.getById store documentId), store)
  | .getByCollection collectionId pagination =>
      (.documents (InMemoryDocumentRepository.getByCollection store collectionId pagination),
        store)
  | .countByCollection collectionId =>
      (.count (InMemoryDocumentRepository.countByCollection store collectionId), store)

open PostgresDocumentRepository in
/-- What the repository in the database returns or raises, and what it holds
then: a statement that is refused changes nothing. -/
def onPostgres (database : Database) (contentHash : String → String) (ambient : Ambient)
    (table : DocumentTable) :
    DocumentCall → Except PyExc (DocumentAnswer Document) × DocumentTable
  | .save document =>
      match insert database contentHash table document with
      | .ok table' => (.ok (.document (some document)), table')
      | .error e => (.error e, table)
  | .update document =>
      match assign database table document ambient.now with
      | .ok table' => (.ok (.document (some document)), table')
      | .error e => (.error e, table)
  | .delete documentId =>
      ((PostgresDocumentRepository.delete table documentId).map (fun d => .ok (.deleted d)) id)
  | .getById documentId =>
      (.ok (.document ((table.find? documentId).map fun row =>
        rowToDocument row (ambient.drawn row))), table)
  | .getByCollection collectionId pagination =>
      ((selectByCollection ambient.scan table collectionId pagination ambient.drawn).map
        .documents, table)
  | .countByCollection collectionId =>
      (.ok (.count (PostgresDocumentRepository.countByCollection table collectionId)), table)

end DocumentCall

/-- The two repositories. -/
structure Repositories where
  memory : InMemoryDocumentRepository.Store
  table : DocumentTable

namespace Repositories

open PostgresDocumentRepository (Database insertedColumns updatedColumns)

def empty : Repositories := ⟨KeyedList.empty, KeyedList.empty⟩

/-- Both repositories take the call. -/
def step (database : Database) (contentHash : String → String) (s : Repositories)
    (input : DocumentCall × Ambient) : Repositories where
  memory := (input.1.onMemory s.memory).2
  table := (input.1.onPostgres database contentHash input.2 s.table).2

/-- Both repositories answer the call alike. -/
def AnswersAgree (database : Database) (contentHash : String → String) (s : Repositories)
    (input : DocumentCall × Ambient) : Prop :=
  ∃ answer, (input.1.onPostgres database contentHash input.2 s.table).1 = .ok answer ∧
    (input.1.onMemory s.memory).1.map Document.view = answer.map Document.view

/-- Both repositories hold the same contents, in the same order. -/
def SameContents (s : Repositories) : Prop :=
  s.memory.items.map Document.stored = s.table.items.map DocumentRow.stored

/-- The columns take a saved document; it is as it is stored, or is not stored
yet, belongs to a tenant there is, and is given back equal.  The columns take
an updated document and give it back equal; it is stored, and has the fields
that `UPDATE` does not write.  A page starts at an offset that fits. -/
def Conforms (database : Database) (s : Repositories) : DocumentCall → Prop
  | .save document => ∃ written, insertedColumns database document = .ok written ∧
      (∀ row ∈ s.table.find? document.documentId, document.stored = row.stored) ∧
      (s.table.find? document.documentId = none →
        document.tenantId ∈ database.tenants ∧ written.stored = document.stored)
  | .update document => ∃ written, updatedColumns database 3 document = .ok written ∧
      written.stored = document.stored ∧
      ∃ row ∈ s.table.find? document.documentId, document.fixedFields = row.fixedFields
  | .getByCollection _ pagination => pagination.offset < 2 ^ 63
  | _ => True

/-! ## Contents -/

/-- The stored documents have pairwise distinct creation instants. -/
def TimesDiffer (s : Repositories) : Prop :=
  ∀ a ∈ s.table.items, ∀ b ∈ s.table.items, a.createdAt = b.createdAt → a = b

section Contents

variable {s : Repositories}

theorem key_eq_str_iff (document : Document) (documentId : DocumentId) :
    InMemoryDocumentRepository.key document = documentId.str ↔
      document.stored.view.documentId = documentId :=
  Uuid.str_injective.eq_iff

/-- Both hold the same under every identifier. -/
theorem find?_stored (h : SameContents s) (documentId : DocumentId) :
    (InMemoryDocumentRepository.getById s.memory documentId).map Document.stored =
      (s.table.find? documentId).map DocumentRow.stored := by
  let p : Stored → Bool := fun stored => decide (stored.view.documentId = documentId)
  have hmemory : InMemoryDocumentRepository.getById s.memory documentId =
      s.memory.items.find? (p ∘ Document.stored) := by
    refine congrArg (fun q => s.memory.items.find? q) (funext fun document => ?_)
    exact decide_eq_decide.mpr (key_eq_str_iff document documentId)
  have htable : s.table.find? documentId = s.table.items.find? (p ∘ DocumentRow.stored) := rfl
  rw [hmemory, htable, ← List.find?_map, ← List.find?_map, h]

/-- Both hold the same in every collection. -/
theorem filter_stored (h : SameContents s) (collectionId : CollectionId) :
    (s.memory.items.filter fun document => document.collectionId = collectionId).map
        Document.stored =
      (s.table.items.filter fun row => row.collectionId = collectionId).map
        DocumentRow.stored := by
  let p : Stored → Bool := fun stored => decide (stored.view.collectionId = collectionId)
  have hmemory := List.filter_map (f := Document.stored) (p := p) (l := s.memory.items)
  have htable := List.filter_map (f := DocumentRow.stored) (p := p) (l := s.table.items)
  exact hmemory.symm.trans ((congrArg (List.filter p) h).trans htable)

theorem page_map {α β : Type} (pagination : PaginationParams) (f : α → β) (xs : List α) :
    (pagination.page xs).map f = pagination.page (xs.map f) := by
  rw [PaginationParams.page, PaginationParams.page, List.map_take, List.map_drop]

/-- A page of a collection is the same in both: no two documents tie. -/
theorem getByCollection_stored (h : SameContents s) (htimes : TimesDiffer s)
    (ambient : Ambient) (collectionId : CollectionId) (pagination : PaginationParams) :
    (InMemoryDocumentRepository.getByCollection s.memory collectionId pagination).map
        Document.stored =
      (PostgresDocumentRepository.getByCollection ambient.scan s.table collectionId
        pagination ambient.drawn).map Document.stored := by
  have hrows : ∀ rows : List DocumentRow, (rows.map fun row =>
      PostgresDocumentRepository.rowToDocument row (ambient.drawn row)).map Document.stored =
        rows.map DocumentRow.stored := by
    intro rows
    rw [List.map_map]
    rfl
  have hscan := ambient.scan_perm
    (s.table.items.filter fun row => row.collectionId = collectionId)
  have hsorted := sortedFalling_eq_of_perm DocumentRow.createdAt hscan.symm
    fun a ha b hb => htimes a (List.mem_of_mem_filter ha) b (List.mem_of_mem_filter hb)
  rw [InMemoryDocumentRepository.getByCollection, PostgresDocumentRepository.getByCollection,
    hrows, page_map, page_map, ← hsorted,
    map_sortedFalling (fun document : Document => document.createdAt) Stored.createdAt
      Document.stored (fun _ => rfl),
    map_sortedFalling DocumentRow.createdAt Stored.createdAt DocumentRow.stored (fun _ => rfl),
    filter_stored h]

end Contents

/-! ## Answers -/

/-- A deletion in memory leaves what is under other keys, and says whether
there was a document. -/
theorem memory_delete_eq (store : InMemoryDocumentRepository.Store) (documentId : DocumentId) :
    InMemoryDocumentRepository.delete store documentId =
      ((InMemoryDocumentRepository.getById store documentId).isSome,
        store.filter fun document =>
          decide (InMemoryDocumentRepository.key document ≠ documentId.str)) := by
  unfold InMemoryDocumentRepository.delete InMemoryDocumentRepository.getById
  split
  next hmem => rw [store.isSome_find?_iff.mpr hmem]
  next hmem =>
    have hnone : store.find? documentId.str = none := by
      rw [← Option.not_isSome_iff_eq_none, store.isSome_find?_iff]
      exact hmem
    have hkept : store.filter (fun document =>
        decide (InMemoryDocumentRepository.key document ≠ documentId.str)) = store := by
      apply KeyedList.ext
      exact List.filter_eq_self.mpr fun document hdocument =>
        decide_eq_true (store.find?_eq_none_iff.mp hnone document hdocument)
    rw [hkept, hnone]
    rfl

variable {s : Repositories} {database : Database} {contentHash : String → String}
  {ambient : Ambient}

theorem view_of_stored {a b : Option Document}
    (hsame : a.map Document.stored = b.map Document.stored) :
    a.map Document.view = b.map Document.view := by
  simpa [Option.map_map, Function.comp_def, Document.stored] using
    congrArg (Option.map Stored.view) hsame

theorem answersAgree_delete (h : SameContents s) (documentId : DocumentId) :
    AnswersAgree database contentHash s (.delete documentId, ambient) := by
  have hfind := congrArg Option.isSome (find?_stored h documentId)
  rw [Option.isSome_map, Option.isSome_map] at hfind
  refine ⟨.deleted (s.table.find? documentId).isSome, rfl, ?_⟩
  change ((InMemoryDocumentRepository.delete s.memory documentId).map DocumentAnswer.deleted
    id).1.map Document.view = _
  rw [memory_delete_eq]
  exact congrArg DocumentAnswer.deleted hfind

theorem answersAgree_getById (h : SameContents s) (documentId : DocumentId) :
    AnswersAgree database contentHash s (.getById documentId, ambient) := by
  refine ⟨_, rfl, congrArg DocumentAnswer.document (view_of_stored ?_)⟩
  rw [find?_stored h, Option.map_map]
  rfl

theorem answersAgree_countByCollection (h : SameContents s) (collectionId : CollectionId) :
    AnswersAgree database contentHash s (.countByCollection collectionId, ambient) := by
  have hlength := congrArg List.length (filter_stored h collectionId)
  rw [List.length_map, List.length_map] at hlength
  exact ⟨_, rfl, congrArg (fun n : ℕ => DocumentAnswer.count (n : ℤ)) hlength⟩

/-- A page is the same in both unless its offset is refused. -/
theorem answersAgree_getByCollection_iff (h : SameContents s) (htimes : TimesDiffer s)
    (collectionId : CollectionId) (pagination : PaginationParams) :
    AnswersAgree database contentHash s (.getByCollection collectionId pagination, ambient) ↔
      pagination.offset < 2 ^ 63 := by
  have hpage := getByCollection_stored h htimes ambient collectionId pagination
  by_cases hoffset : pagination.offset < 2 ^ 63
  · refine iff_of_true ⟨.documents (PostgresDocumentRepository.getByCollection ambient.scan
      s.table collectionId pagination ambient.drawn), ?_, ?_⟩ hoffset
    · have hfits : Postgres.integer 64 3 pagination.offset = .ok (pagination.offset : ℤ) :=
        if_pos (by omega)
      simp only [DocumentCall.onPostgres, PostgresDocumentRepository.selectByCollection, hfits]
      rfl
    · refine congrArg DocumentAnswer.documents ?_
      simpa [List.map_map, Function.comp_def, Document.stored] using
        congrArg (List.map Stored.view) hpage
  · refine iff_of_false ?_ hoffset
    rintro ⟨answer, hanswer, -⟩
    have hrefused : ∃ e, Postgres.integer 64 3 pagination.offset = .error e :=
      ⟨_, if_neg (by omega)⟩
    obtain ⟨e, he⟩ := hrefused
    simp only [DocumentCall.onPostgres, PostgresDocumentRepository.selectByCollection, he]
      at hanswer
    cases hanswer

/-! ## Contents after a call -/

/-- Assigning a document replaces what is stored under its identifier. -/
def assign (document : Document) (stored : Stored) : Stored :=
  if stored.view.documentId = document.documentId then document.stored else stored

theorem assign_of_eq {document : Document} {row : DocumentRow}
    (hid : row.documentId = document.documentId) :
    assign document row.stored = document.stored := if_pos hid

theorem assign_of_ne {document : Document} {row : DocumentRow}
    (hid : row.documentId ≠ document.documentId) :
    assign document row.stored = row.stored := if_neg hid

theorem upsert_stored_of_some (h : SameContents s) {document : Document} {row : DocumentRow}
    (hrow : s.table.find? document.documentId = some row) :
    (s.memory.upsert document).items.map Document.stored =
      s.table.items.map fun row => assign document row.stored := by
  have hfind := find?_stored h document.documentId
  rw [hrow] at hfind
  have hmem : InMemoryDocumentRepository.key document ∈ s.memory.keys := by
    rw [← s.memory.isSome_find?_iff]
    exact Option.isSome_map.symm.trans (congrArg Option.isSome hfind)
  have hitems : (s.memory.upsert document).items = s.memory.items.map fun other =>
      if InMemoryDocumentRepository.key other = InMemoryDocumentRepository.key document then
        document else other := if_pos hmem
  have hassign : ∀ other : Document,
      (if InMemoryDocumentRepository.key other = InMemoryDocumentRepository.key document then
        document else other).stored = assign document other.stored := by
    intro other
    have hiff : InMemoryDocumentRepository.key other = InMemoryDocumentRepository.key document ↔
        other.stored.view.documentId = document.documentId :=
      key_eq_str_iff other document.documentId
    rw [assign, apply_ite Document.stored]
    simp only [hiff]
  calc
    (s.memory.upsert document).items.map Document.stored =
        s.memory.items.map fun other => assign document other.stored := by
      rw [hitems, List.map_map]
      apply List.map_congr_left
      intro other _
      rw [Function.comp_apply, hassign other]
    _ = (s.memory.items.map Document.stored).map (assign document) := by
      rw [List.map_map]
      rfl
    _ = s.table.items.map fun row => assign document row.stored := by
      rw [h, List.map_map]
      rfl

theorem upsert_stored_of_none (h : SameContents s) {document : Document}
    (hrow : s.table.find? document.documentId = none) :
    (s.memory.upsert document).items.map Document.stored =
      s.table.items.map DocumentRow.stored ++ [document.stored] := by
  have hfind := find?_stored h document.documentId
  rw [hrow, Option.map_none, Option.map_eq_none_iff] at hfind
  have hmem : InMemoryDocumentRepository.key document ∉ s.memory.keys := by
    rw [← s.memory.isSome_find?_iff, Option.not_isSome_iff_eq_none]
    exact hfind
  have hitems : (s.memory.upsert document).items = s.memory.items ++ [document] :=
    if_neg hmem
  rw [hitems, List.map_append, h]
  rfl

/-! ## What the table takes -/

section Columns

variable {document written : Document} {table table' : DocumentTable}

theorem updatedColumns_eq {n : ℕ} (h : updatedColumns database n document = .ok written) :
    written = { document with metadata := written.metadata } := by
  obtain ⟨_, -, h⟩ := except_bind_eq_ok_iff.mp h
  obtain ⟨chunkCount, hchunks, h⟩ := except_bind_eq_ok_iff.mp h
  obtain ⟨tokenCount, htokens, h⟩ := except_bind_eq_ok_iff.mp h
  obtain ⟨errorMessage, herror, h⟩ := except_bind_eq_ok_iff.mp h
  obtain ⟨metadata, -, h⟩ := except_bind_eq_ok_iff.mp h
  obtain rfl := Postgres.integer_eq_ok hchunks
  obtain rfl := Postgres.integer_eq_ok htokens
  have hmessage : errorMessage = document.errorMessage := by
    cases hdocument : document.errorMessage with
    | none =>
        rw [hdocument] at herror
        exact (Except.ok.inj herror).symm
    | some message =>
        rw [hdocument] at herror
        obtain ⟨stored, hstored, hsome⟩ := except_bind_eq_ok_iff.mp herror
        rw [← Except.ok.inj hsome, Postgres.text_eq_ok hstored]
  rw [← Except.ok.inj h, hmessage]

/-- Neither the identifier nor the creation instant is altered. -/
theorem insertedColumns_kept (h : insertedColumns database document = .ok written) :
    written.documentId = document.documentId ∧ written.createdAt = document.createdAt := by
  obtain ⟨updated, hupdated, h⟩ := except_bind_eq_ok_iff.mp h
  obtain ⟨_, -, h⟩ := except_bind_eq_ok_iff.mp h
  obtain ⟨_, -, h⟩ := except_bind_eq_ok_iff.mp h
  obtain ⟨_, -, h⟩ := except_bind_eq_ok_iff.mp h
  rw [← Except.ok.inj h, updatedColumns_eq hupdated]
  exact ⟨rfl, rfl⟩

theorem insert_eq_ok_iff :
    PostgresDocumentRepository.insert database contentHash table document = .ok table' ↔
      ∃ written, insertedColumns database document = .ok written ∧
        (table.find? document.documentId = none → document.tenantId ∈ database.tenants) ∧
        table' = PostgresDocumentRepository.save contentHash table written := by
  have hkeys : document.documentId ∉ table.keys ↔ table.find? document.documentId = none := by
    rw [← table.isSome_find?_iff, Option.not_isSome_iff_eq_none]
  rw [PostgresDocumentRepository.insert, except_bind_eq_ok_iff]
  refine exists_congr fun written => and_congr_right fun _ => ?_
  split
  next hrefused =>
    refine iff_of_false (fun h => by cases h) ?_
    rintro ⟨htenant, -⟩
    exact hrefused.2 (htenant (hkeys.mp hrefused.1))
  next haccepted =>
    have htenant : table.find? document.documentId = none →
        document.tenantId ∈ database.tenants := by
      intro hnone
      by_contra hmissing
      exact haccepted ⟨hkeys.mpr hnone, hmissing⟩
    constructor
    · exact fun h => ⟨htenant, (Except.ok.inj h).symm⟩
    · rintro ⟨-, rfl⟩
      rfl

theorem assign_eq_ok_iff {now : Timestamp} :
    PostgresDocumentRepository.assign database table document now = .ok table' ↔
      ∃ written, updatedColumns database 3 document = .ok written ∧
        table' = PostgresDocumentRepository.update table written now := by
  rw [PostgresDocumentRepository.assign, except_bind_eq_ok_iff]
  refine exists_congr fun written => and_congr_right fun _ => ?_
  exact ⟨fun h => (Except.ok.inj h).symm, fun h => congrArg Except.ok h.symm⟩

end Columns

section Steps

variable {document : Document}

/-- After an accepted save the contents are the same exactly if a stored
document is as it was and a new one is given back equal. -/
theorem sameContents_save_iff (h : SameContents s) {written : Document}
    (hid : written.documentId = document.documentId) :
    SameContents ⟨s.memory.upsert document,
        PostgresDocumentRepository.save contentHash s.table written⟩ ↔
      (∀ row ∈ s.table.find? document.documentId, document.stored = row.stored) ∧
        (s.table.find? document.documentId = none → written.stored = document.stored) := by
  cases hrow : s.table.find? document.documentId with
  | none =>
      have hnew : ∀ row ∈ s.table.items, row.documentId ≠ written.documentId := by
        rw [hid]
        exact s.table.find?_eq_none_iff.mp hrow
      have hcontents : SameContents ⟨s.memory.upsert document,
          PostgresDocumentRepository.save contentHash s.table written⟩ ↔
          s.table.items.map DocumentRow.stored ++ [document.stored] =
            s.table.items.map DocumentRow.stored ++ [written.stored] := by
        rw [SameContents, upsert_stored_of_none h hrow,
          PostgresDocumentRepository.save_items_of_new hnew, List.map_append]
        rfl
      rw [hcontents, List.append_cancel_left_eq, List.singleton_inj]
      simp only [Option.mem_def, reduceCtorEq, false_implies, implies_true, true_and,
        forall_const]
      exact eq_comm
  | some row =>
      have hfound : (s.table.find? written.documentId).isSome := by
        rw [hid, hrow]
        rfl
      have hitems : PostgresDocumentRepository.save contentHash s.table written = s.table :=
        if_pos (s.table.isSome_find?_iff.mp hfound)
      have hcontents : SameContents ⟨s.memory.upsert document,
          PostgresDocumentRepository.save contentHash s.table written⟩ ↔
          ∀ other ∈ s.table.items, assign document other.stored = other.stored := by
        rw [SameContents, upsert_stored_of_some h hrow, hitems, List.map_inj_left]
      have hmem := (s.table.find?_eq_some_iff.mp hrow).1
      have hrowId := s.table.find?_key hrow
      rw [hcontents]
      simp only [Option.mem_def, Option.some.injEq, forall_eq', reduceCtorEq, false_implies,
        and_true]
      constructor
      · intro hassign
        rw [← hassign row hmem, assign_of_eq hrowId]
      · intro hsame other hother
        by_cases hotherId : other.documentId = document.documentId
        · have hfound := s.table.find?_eq_some_iff.mpr ⟨hother, hotherId⟩
          rw [hrow] at hfound
          rw [assign_of_eq hotherId, hsame, Option.some.inj hfound]
        · exact assign_of_ne hotherId

/-- A save is answered alike and keeps the contents the same exactly if it
conforms. -/
theorem lawful_save_iff (h : SameContents s) :
    (AnswersAgree database contentHash s (.save document, ambient) ∧
        SameContents (s.step database contentHash (.save document, ambient))) ↔
      Conforms database s (.save document) := by
  cases hinsert : PostgresDocumentRepository.insert database contentHash s.table document with
  | error e =>
      have hrefused : ¬ Conforms database s (.save document) := by
        rintro ⟨written, hwritten, -, hnew⟩
        have haccepted : PostgresDocumentRepository.insert database contentHash s.table document =
            .ok (PostgresDocumentRepository.save contentHash s.table written) :=
          insert_eq_ok_iff.mpr ⟨written, hwritten, fun hnone => (hnew hnone).1, rfl⟩
        rw [hinsert] at haccepted
        cases haccepted
      refine iff_of_false ?_ hrefused
      rintro ⟨⟨answer, hanswer, -⟩, -⟩
      rw [DocumentCall.onPostgres, hinsert] at hanswer
      cases hanswer
  | ok table' =>
      obtain ⟨written, hwritten, htenant, rfl⟩ := insert_eq_ok_iff.mp hinsert
      have hagree : AnswersAgree database contentHash s (.save document, ambient) := by
        refine ⟨.document (some document), ?_, rfl⟩
        rw [DocumentCall.onPostgres, hinsert]
      have hstep : s.step database contentHash (.save document, ambient) =
          ⟨s.memory.upsert document,
            PostgresDocumentRepository.save contentHash s.table written⟩ := by
        rw [step, DocumentCall.onPostgres, hinsert]
        rfl
      rw [hstep, sameContents_save_iff h (insertedColumns_kept hwritten).1]
      constructor
      · rintro ⟨-, hstored, hnew⟩
        exact ⟨written, hwritten, hstored, fun hnone => ⟨htenant hnone, hnew hnone⟩⟩
      · rintro ⟨written', hwritten', hstored, hnew⟩
        rw [hwritten, Except.ok.injEq] at hwritten'
        subst hwritten'
        exact ⟨hagree, hstored, fun hnone => (hnew hnone).2⟩

theorem stored_updateRow_iff {written : Document} {row : DocumentRow} {now : Timestamp}
    (hwritten : written = { document with metadata := written.metadata })
    (hid : row.documentId = document.documentId) :
    document.stored = (PostgresDocumentRepository.updateRow written now row).stored ↔
      written.stored = document.stored ∧ document.fixedFields = row.fixedFields := by
  rw [hwritten]
  simp only [Document.stored, Document.view, Document.fixedFields, DocumentRow.stored,
    DocumentRow.fixedFields, PostgresDocumentRepository.rowToDocument,
    PostgresDocumentRepository.updateRow, Stored.mk.injEq, DocumentView.mk.injEq,
    FixedFields.mk.injEq, hid, true_and, and_true]
  constructor
  · rintro ⟨⟨htenant, hcollection, htitle, hcontent, htype, hmetadata⟩, hcreated⟩
    exact ⟨hmetadata.symm, htenant, hcollection, htitle, hcontent, htype, hcreated⟩
  · rintro ⟨hmetadata, htenant, hcollection, htitle, hcontent, htype, hcreated⟩
    exact ⟨⟨htenant, hcollection, htitle, hcontent, htype, hmetadata.symm⟩, hcreated⟩

/-- After an accepted update the contents are the same exactly if the document
is given back equal and only its mutable columns differ from the row. -/
theorem sameContents_update_iff (h : SameContents s) {written : Document} {now : Timestamp}
    (hwritten : written = { document with metadata := written.metadata }) :
    SameContents ⟨s.memory.upsert document,
        PostgresDocumentRepository.update s.table written now⟩ ↔
      written.stored = document.stored ∧
        ∃ row ∈ s.table.find? document.documentId, document.fixedFields = row.fixedFields := by
  have hid : written.documentId = document.documentId := by rw [hwritten]
  have hitems : (PostgresDocumentRepository.update s.table written now).items =
      s.table.items.map fun row => if row.documentId = document.documentId then
        PostgresDocumentRepository.updateRow written now row else row := by
    rw [← hid]
    rfl
  cases hrow : s.table.find? document.documentId with
  | none =>
      have hfails : ¬ ∃ row ∈ (none : Option DocumentRow),
          document.fixedFields = row.fixedFields := by
        rintro ⟨row, hmem, -⟩
        cases hmem
      refine iff_of_false ?_ fun hand => hfails hand.2
      intro hsame
      have hlength := congrArg List.length ((upsert_stored_of_none h hrow).symm.trans hsame)
      rw [List.length_append, List.length_map, List.length_map] at hlength
      change s.table.items.length + 1 = (PostgresDocumentRepository.update s.table written
        now).items.length at hlength
      rw [hitems, List.length_map] at hlength
      omega
  | some row =>
      have hcontents : SameContents ⟨s.memory.upsert document,
          PostgresDocumentRepository.update s.table written now⟩ ↔
          ∀ other ∈ s.table.items, assign document other.stored =
            (if other.documentId = document.documentId then
              PostgresDocumentRepository.updateRow written now other else other).stored := by
        rw [SameContents, upsert_stored_of_some h hrow, hitems, List.map_map]
        exact List.map_inj_left
      have hmem := (s.table.find?_eq_some_iff.mp hrow).1
      have hrowId := s.table.find?_key hrow
      rw [hcontents]
      simp only [Option.mem_def, Option.some.injEq, exists_eq_left']
      constructor
      · intro hassign
        have hassigned := hassign row hmem
        rw [assign_of_eq hrowId, if_pos hrowId] at hassigned
        exact (stored_updateRow_iff hwritten hrowId).mp hassigned
      · intro hsame other hother
        by_cases hotherId : other.documentId = document.documentId
        · have hfound := s.table.find?_eq_some_iff.mpr ⟨hother, hotherId⟩
          rw [hrow] at hfound
          rw [assign_of_eq hotherId, if_pos hotherId, ← Option.some.inj hfound]
          exact (stored_updateRow_iff hwritten hrowId).mpr hsame
        · rw [assign_of_ne hotherId, if_neg hotherId]

/-- So for an update. -/
theorem lawful_update_iff (h : SameContents s) :
    (AnswersAgree database contentHash s (.update document, ambient) ∧
        SameContents (s.step database contentHash (.update document, ambient))) ↔
      Conforms database s (.update document) := by
  cases hassign : PostgresDocumentRepository.assign database s.table document ambient.now with
  | error e =>
      have hrefused : ¬ Conforms database s (.update document) := by
        rintro ⟨written, hwritten, -⟩
        have haccepted :
            PostgresDocumentRepository.assign database s.table document ambient.now =
              .ok (PostgresDocumentRepository.update s.table written ambient.now) :=
          assign_eq_ok_iff.mpr ⟨written, hwritten, rfl⟩
        rw [hassign] at haccepted
        cases haccepted
      refine iff_of_false ?_ hrefused
      rintro ⟨⟨answer, hanswer, -⟩, -⟩
      rw [DocumentCall.onPostgres, hassign] at hanswer
      cases hanswer
  | ok table' =>
      obtain ⟨written, hwritten, rfl⟩ := assign_eq_ok_iff.mp hassign
      have hagree : AnswersAgree database contentHash s (.update document, ambient) := by
        refine ⟨.document (some document), ?_, rfl⟩
        rw [DocumentCall.onPostgres, hassign]
      have hstep : s.step database contentHash (.update document, ambient) =
          ⟨s.memory.upsert document,
            PostgresDocumentRepository.update s.table written ambient.now⟩ := by
        rw [step, DocumentCall.onPostgres, hassign]
        rfl
      rw [hstep, sameContents_update_iff h (updatedColumns_eq hwritten)]
      constructor
      · rintro ⟨-, hstored⟩
        exact ⟨written, hwritten, hstored⟩
      · rintro ⟨written', hwritten', hstored⟩
        rw [hwritten, Except.ok.injEq] at hwritten'
        subst hwritten'
        exact ⟨hagree, hstored⟩

theorem sameContents_delete (h : SameContents s) (documentId : DocumentId) :
    SameContents (s.step database contentHash (.delete documentId, ambient)) := by
  let p : Stored → Bool := fun stored => decide (stored.view.documentId ≠ documentId)
  have hmemory : (fun document : Document =>
      decide (InMemoryDocumentRepository.key document ≠ documentId.str)) =
        p ∘ Document.stored := by
    funext document
    exact decide_eq_decide.mpr (not_congr (key_eq_str_iff document documentId))
  have htable := List.filter_map (f := DocumentRow.stored) (p := p) (l := s.table.items)
  calc
    (s.step database contentHash (.delete documentId, ambient)).memory.items.map
        Document.stored =
        (s.memory.items.filter (p ∘ Document.stored)).map Document.stored := by
      change (InMemoryDocumentRepository.delete s.memory documentId).2.items.map _ = _
      rw [memory_delete_eq, hmemory]
      rfl
    _ = (s.memory.items.map Document.stored).filter p := List.filter_map.symm
    _ = (s.table.items.filter (p ∘ DocumentRow.stored)).map DocumentRow.stored := by
      rw [h, htable]

/-- A call is answered alike and keeps the contents the same exactly if it
conforms. -/
theorem lawful_step_iff (h : SameContents s) (htimes : TimesDiffer s) (call : DocumentCall) :
    (AnswersAgree database contentHash s (call, ambient) ∧
        SameContents (s.step database contentHash (call, ambient))) ↔
      Conforms database s call := by
  cases call with
  | save document => exact lawful_save_iff h
  | update document => exact lawful_update_iff h
  | delete documentId =>
      exact iff_of_true ⟨answersAgree_delete h documentId, sameContents_delete h documentId⟩
        trivial
  | getById documentId => exact iff_of_true ⟨answersAgree_getById h documentId, h⟩ trivial
  | getByCollection collectionId pagination =>
      exact (and_iff_left h).trans
        (answersAgree_getByCollection_iff h htimes collectionId pagination)
  | countByCollection collectionId =>
      exact iff_of_true ⟨answersAgree_countByCollection h collectionId, h⟩ trivial

end Steps

/-! ## Creation instants -/

/-- The call passes only documents with these identifiers and creation
instants. -/
def Passes (stamps : DocumentId → Timestamp → Prop) (call : DocumentCall) : Prop :=
  ∀ document ∈ call.passed, stamps document.documentId document.createdAt

/-- The stored rows have these identifiers and creation instants. -/
def Stamped (stamps : DocumentId → Timestamp → Prop) (s : Repositories) : Prop :=
  ∀ row ∈ s.table.items, stamps row.documentId row.createdAt

section Stamps

variable {stamps : DocumentId → Timestamp → Prop}

theorem timesDiffer_of_stamped
    (hstamps : ∀ i j t, stamps i t → stamps j t → i = j) (h : Stamped stamps s) :
    TimesDiffer s := by
  intro a ha b hb htime
  have hid : a.documentId = b.documentId := by
    refine hstamps _ _ b.createdAt ?_ (h b hb)
    rw [← htime]
    exact h a ha
  exact List.inj_on_of_nodup_map s.table.nodup ha hb hid

theorem stamped_step {input : DocumentCall × Ambient} (h : Stamped stamps s)
    (hpasses : Passes stamps input.1) : Stamped stamps (s.step database contentHash input) := by
  obtain ⟨call, ambient⟩ := input
  cases call with
  | save document =>
      intro row hrow
      rw [step, DocumentCall.onPostgres] at hrow
      cases hinsert : PostgresDocumentRepository.insert database contentHash s.table document with
      | error e =>
          rw [hinsert] at hrow
          exact h row hrow
      | ok table' =>
          rw [hinsert] at hrow
          obtain ⟨written, hwritten, -, rfl⟩ := insert_eq_ok_iff.mp hinsert
          obtain ⟨hid, hcreated⟩ := insertedColumns_kept hwritten
          dsimp only at hrow
          unfold PostgresDocumentRepository.save KeyedList.insertNew at hrow
          split at hrow
          · exact h row hrow
          · rw [KeyedList.mem_upsert] at hrow
            rcases hrow with rfl | ⟨hrow, -⟩
            · have hstamp := hpasses document rfl
              rw [← hid, ← hcreated] at hstamp
              exact hstamp
            · exact h row hrow
  | update document =>
      intro row hrow
      rw [step, DocumentCall.onPostgres] at hrow
      cases hassign : PostgresDocumentRepository.assign database s.table document
          ambient.now with
      | error e =>
          rw [hassign] at hrow
          exact h row hrow
      | ok table' =>
          rw [hassign] at hrow
          obtain ⟨written, -, rfl⟩ := assign_eq_ok_iff.mp hassign
          obtain ⟨old, hold, rfl⟩ := List.mem_map.mp hrow
          split
          · exact h old hold
          · exact h old hold
  | delete documentId => exact fun row hrow => h row (List.mem_of_mem_filter hrow)
  | getById documentId => exact h
  | getByCollection collectionId pagination => exact h
  | countByCollection collectionId => exact h

end Stamps

/-! ## Runs -/

/-- Documents of different identifiers have different creation instants. -/
def DistinctTimes (inputs : List (DocumentCall × Ambient)) : Prop :=
  ∀ a ∈ inputs, ∀ b ∈ inputs, ∀ document ∈ a.1.passed, ∀ other ∈ b.1.passed,
    document.createdAt = other.createdAt → document.documentId = other.documentId

section Law

variable (database : Database) (contentHash : String → String)
  (inputs : List (DocumentCall × Ambient))

/-- Starting empty, both repositories answer every call alike. -/
def Interchangeable : Prop :=
  ∀ t ∈ trace (step database contentHash) empty inputs,
    AnswersAgree database contentHash t.before t.input

/-- Starting empty, both repositories answer every call alike, and hold the
same contents after it. -/
def StaySame : Prop :=
  ∀ t ∈ trace (step database contentHash) empty inputs,
    AnswersAgree database contentHash t.before t.input ∧ SameContents t.after

/-- Every call of the run conforms. -/
def Conforming : Prop :=
  ∀ t ∈ trace (step database contentHash) empty inputs, Conforms database t.before t.input.1

end Law

/-- The repositories answer alike and hold the same contents throughout a run
exactly if every call of it conforms. -/
theorem staySame_iff_conforming (database : Database) (contentHash : String → String)
    {inputs : List (DocumentCall × Ambient)} (htimes : DistinctTimes inputs) :
    StaySame database contentHash inputs ↔ Conforming database contentHash inputs := by
  let stamps : DocumentId → Timestamp → Prop := fun documentId time =>
    ∃ input ∈ inputs, ∃ document ∈ input.1.passed,
      document.documentId = documentId ∧ document.createdAt = time
  have hstamps : ∀ i j t, stamps i t → stamps j t → i = j := by
    rintro i j t ⟨a, ha, document, hdocument, rfl, rfl⟩ ⟨b, hb, other, hother, rfl, htime⟩
    exact htimes a ha b hb document hdocument other hother htime.symm
  have hpasses : ∀ t ∈ trace (step database contentHash) empty inputs,
      Passes stamps t.input.1 :=
    fun t ht document hdocument =>
      ⟨t.input, input_mem_of_mem_trace ht, document, hdocument, rfl, rfl⟩
  have hrun : (∀ t ∈ trace (step database contentHash) empty inputs,
        (AnswersAgree database contentHash t.before t.input ∧ SameContents t.after) ∧
          Passes stamps t.input.1) ↔
      ∀ t ∈ trace (step database contentHash) empty inputs,
        Conforms database t.before t.input.1 ∧ Passes stamps t.input.1 := by
    refine trace_forall_iff (I := fun s => SameContents s ∧ Stamped stamps s)
      (L := fun t => (AnswersAgree database contentHash t.before t.input ∧
        SameContents t.after) ∧ Passes stamps t.input.1)
      (fun s input => Conforms database s input.1 ∧ Passes stamps input.1) ?_ ?_ ?_ inputs
    · intro s input hs
      exact and_congr_left'
        (lawful_step_iff hs.1 (timesDiffer_of_stamped hstamps hs.2) input.1)
    · intro s input hs hlaw
      exact ⟨hlaw.1.2, stamped_step hs.2 hlaw.2⟩
    · exact ⟨rfl, fun _ hrow => absurd hrow List.not_mem_nil⟩
  constructor
  · intro hsame t ht
    exact (hrun.mp (fun t ht => ⟨hsame t ht, hpasses t ht⟩) t ht).1
  · intro hconforming t ht
    exact (hrun.mpr (fun t ht => ⟨hconforming t ht, hpasses t ht⟩) t ht).1

def sampleAmbient : Ambient where
  now := 7
  scan := List.reverse
  scan_perm := List.reverse_perm
  drawn := fun _ => ⟨9⟩

def sampleMemo : Document where
  id := ⟨1⟩
  createdAt := 0
  updatedAt := 0
  tenantId := ⟨2⟩
  documentId := ⟨3⟩
  collectionId := ⟨4⟩
  title := "Memo"
  content := "First line"
  metadata := ⟨[("year", .int 2026), ("draft", .bool true)], by decide⟩

/-- One tenant; a dictionary comes back in the order of its keys. -/
def sampleDatabase : Database where
  tenants := [⟨2⟩]
  jsonb := fun metadata => .ok (Dict.ofPairs (Json.sortEntries metadata.items))

/-- A document is saved, processed and listed. -/
def sampleRun : List (DocumentCall × Ambient) :=
  [(.save sampleMemo, sampleAmbient), (.update (sampleMemo.markProcessing 5), sampleAmbient),
    (.getByCollection sampleMemo.collectionId {}, sampleAmbient)]

theorem staySame_sampleRun : StaySame sampleDatabase id sampleRun := by
  have htimes : DistinctTimes sampleRun := by
    simp [DistinctTimes, sampleRun, DocumentCall.passed, Document.markProcessing]
  refine (staySame_iff_conforming sampleDatabase id htimes).mpr ?_
  intro t ht
  simp only [sampleRun, trace, List.mem_cons, List.not_mem_nil, or_false] at ht
  rcases ht with rfl | rfl | rfl
  · refine ⟨_, rfl, fun row hrow => ?_, fun _ => ⟨List.mem_singleton_self _, rfl⟩⟩
    cases hrow
  · exact ⟨_, rfl, rfl, _, rfl, rfl⟩
  · exact (by decide : (0 : ℕ) < 2 ^ 63)

/-- A document that was never saved is updated: it is found in memory, and not
in the database. -/
theorem not_interchangeable_update :
    ∃ inputs, DistinctTimes inputs ∧ ¬ Interchangeable sampleDatabase id inputs := by
  refine ⟨[(.update sampleMemo, sampleAmbient), (.getById sampleMemo.documentId, sampleAmbient)],
    by simp [DistinctTimes, DocumentCall.passed], ?_⟩
  intro h
  simp only [Interchangeable, trace, List.forall_mem_cons] at h
  obtain ⟨-, ⟨answer, hanswer, hget⟩, -⟩ := h
  have hfound : (InMemoryDocumentRepository.update empty.memory sampleMemo).find?
      sampleMemo.documentId.str = some sampleMemo := by
    rw [InMemoryDocumentRepository.update, KeyedList.find?_upsert]
    exact if_pos rfl
  have hnone : answer = .document none := (Except.ok.inj hanswer).symm
  rw [hnone] at hget
  have hview : ((InMemoryDocumentRepository.update empty.memory sampleMemo).find?
      sampleMemo.documentId.str).map Document.view = none := DocumentAnswer.document.inj hget
  rw [hfound] at hview
  cases hview

end Repositories
end AiBackend

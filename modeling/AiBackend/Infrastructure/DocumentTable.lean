import AiBackend.Domain.Document
import AiBackend.Infrastructure.PostgresColumns
import AiBackend.Support.JsonText
import AiBackend.Support.Sorting

/-!
# The documents table and its repository

One row per document identifier.  The table has no constraint on the pair of
tenant and content hash: `content_hash` is only indexed.  The hash function is
a parameter.  `save` and `update` are the statements on columns that the
database stores as they are; `insert` and `assign` go through the column types
and the foreign key first, which can refuse or alter them.
-/

namespace AiBackend

open Python

/-- A row of `documents`. -/
structure DocumentRow where
  documentId : DocumentId
  tenantId : TenantId
  collectionId : CollectionId
  title : String
  content : String
  contentType : String
  contentHash : String
  status : DocumentStatus
  chunkCount : ℤ
  tokenCount : ℤ
  errorMessage : Option String
  metadata : Dict Json
  createdAt : Timestamp
  updatedAt : Timestamp

/-- The table; `document_id` is unique. -/
abbrev DocumentTable := KeyedList DocumentRow.documentId

namespace PostgresDocumentRepository

/-- `_row_to_document`.  No column carries the entity identity, so the
constructor draws a new one. -/
def rowToDocument (row : DocumentRow) (id : Uuid) : Document where
  id := id
  createdAt := row.createdAt
  updatedAt := row.updatedAt
  tenantId := row.tenantId
  documentId := row.documentId
  collectionId := row.collectionId
  title := row.title
  content := row.content
  contentType := row.contentType
  metadata := row.metadata
  status := row.status
  chunkCount := row.chunkCount
  tokenCount := row.tokenCount
  errorMessage := row.errorMessage

def getById (table : DocumentTable) (documentId : DocumentId) (id : Uuid) :
    Option Document :=
  (table.find? documentId).map fun row => rowToDocument row id

/-- Whether a row is what `find_duplicate` asks for. -/
def IsDuplicate (contentHash : String → String) (tenantId : TenantId)
    (content : String) (row : DocumentRow) : Prop :=
  row.tenantId = tenantId ∧ row.contentHash = contentHash content

instance (contentHash : String → String) (tenantId : TenantId)
    (content : String) (row : DocumentRow) :
    Decidable (IsDuplicate contentHash tenantId content row) :=
  inferInstanceAs (Decidable (_ ∧ _))

/-- `find_duplicate`.  The query has `LIMIT 1` and no order, so which of
several matching rows it returns is up to the database; `scan` is the order in
which this execution visits the rows. -/
def findDuplicate (contentHash : String → String)
    (scan : List DocumentRow → List DocumentRow) (table : DocumentTable)
    (tenantId : TenantId) (content : String) (id : Uuid) : Option Document :=
  ((scan table.items).find? fun row =>
    IsDuplicate contentHash tenantId content row).map fun row =>
      rowToDocument row id

/-- The row `save` inserts. -/
def newRow (contentHash : String → String) (document : Document) :
    DocumentRow where
  documentId := document.documentId
  tenantId := document.tenantId
  collectionId := document.collectionId
  title := document.title
  content := document.content
  contentType := document.contentType
  contentHash := contentHash document.content
  status := document.status
  chunkCount := document.chunkCount
  tokenCount := document.tokenCount
  errorMessage := document.errorMessage
  metadata := document.metadata
  createdAt := document.createdAt
  updatedAt := document.updatedAt

/-- `INSERT ... ON CONFLICT (document_id) DO NOTHING`. -/
def save (contentHash : String → String) (table : DocumentTable)
    (document : Document) : DocumentTable :=
  table.insertNew (newRow contentHash document)

/-- What `update` writes into the row of the document. -/
def updateRow (document : Document) (now : Timestamp) (row : DocumentRow) :
    DocumentRow :=
  { row with
    status := document.status
    chunkCount := document.chunkCount
    tokenCount := document.tokenCount
    errorMessage := document.errorMessage
    metadata := document.metadata
    updatedAt := now }

theorem updateRow_documentId (document : Document) (now : Timestamp)
    (row : DocumentRow) :
    (updateRow document now row).documentId = row.documentId := rfl

/-- `UPDATE ... WHERE document_id = $1`: without such a row nothing happens. -/
def update (table : DocumentTable) (document : Document) (now : Timestamp) :
    DocumentTable :=
  table.modify document.documentId (updateRow document now)
    (updateRow_documentId document now)

/-- What else the statements depend on: the tenants there are, and what a JSONB
column gives back for a dictionary, or its refusal. -/
structure Database where
  tenants : List TenantId
  jsonb : Dict Json → Except PyExc (Dict Json)

section Constraints

variable (database : Database)

/-- The document with the columns of `update` as the table takes them; the
counts are given from the argument `$n` on. -/
def updatedColumns (n : ℕ) (document : Document) : Except PyExc Document := do
  let _ ← JsonText.dumps (.dict document.metadata.items)
  let chunkCount ← Postgres.integer 32 n document.chunkCount
  let tokenCount ← Postgres.integer 32 (n + 1) document.tokenCount
  let errorMessage ← document.errorMessage.mapM Postgres.text
  let metadata ← database.jsonb document.metadata
  pure { document with
    chunkCount := chunkCount
    tokenCount := tokenCount
    errorMessage := errorMessage
    metadata := metadata }

/-- The document with the columns of `save` as the table takes them. -/
def insertedColumns (document : Document) : Except PyExc Document := do
  let written ← updatedColumns database 9 document
  let title ← Postgres.varchar 1024 document.title
  let content ← Postgres.text document.content
  let contentType ← Postgres.varchar 100 document.contentType
  pure { written with
    title := title
    content := content
    contentType := contentType }

def foreignKeyViolation : PyExc :=
  .other "ForeignKeyViolationError" ("insert or update on table \"documents\" violates " ++
    "foreign key constraint \"documents_tenant_id_fkey\"")

/-- `save` on the table with its constraints; the foreign key is checked for a
new row only. -/
def insert (contentHash : String → String) (table : DocumentTable) (document : Document) :
    Except PyExc DocumentTable := do
  let written ← insertedColumns database document
  if document.documentId ∉ table.keys ∧ document.tenantId ∉ database.tenants then
    throw foreignKeyViolation
  else pure (save contentHash table written)

/-- `update` on the table with its constraints. -/
def assign (table : DocumentTable) (document : Document) (now : Timestamp) :
    Except PyExc DocumentTable := do
  let written ← updatedColumns database 3 document
  pure (update table written now)

end Constraints

/-- `DELETE ... WHERE document_id = $1`; whether there was a row. -/
def delete (table : DocumentTable) (documentId : DocumentId) : Bool × DocumentTable :=
  ((table.find? documentId).isSome,
    table.filter fun row => decide (row.documentId ≠ documentId))

/-- `get_by_collection`: `scan` is the order in which the rows come out of the
filter, before they are ordered by their creation. -/
def getByCollection (scan : List DocumentRow → List DocumentRow) (table : DocumentTable)
    (collectionId : CollectionId) (pagination : PaginationParams) (ids : DocumentRow → Uuid) :
    List Document :=
  (pagination.page (Sorting.sortedFalling DocumentRow.createdAt
    (scan (table.items.filter fun row => row.collectionId = collectionId)))).map
      fun row => rowToDocument row (ids row)

/-- The offset is a BIGINT. -/
def selectByCollection (scan : List DocumentRow → List DocumentRow) (table : DocumentTable)
    (collectionId : CollectionId) (pagination : PaginationParams) (ids : DocumentRow → Uuid) :
    Except PyExc (List Document) := do
  let _ ← Postgres.integer 64 3 pagination.offset
  pure (getByCollection scan table collectionId pagination ids)

def countByCollection (table : DocumentTable) (collectionId : CollectionId) : ℤ :=
  (table.items.filter fun row => row.collectionId = collectionId).length

/-! ## The rows of other documents -/

section Others

variable {table : DocumentTable} {document : Document} {row : DocumentRow}

theorem mem_update_of_ne {now : Timestamp}
    (h : row.documentId ≠ document.documentId) :
    row ∈ (update table document now).items ↔ row ∈ table.items := by
  rw [KeyedList.mem_iff_find?, update, KeyedList.find?_modify, if_neg h,
    ← KeyedList.mem_iff_find?]

theorem mem_save_of_ne {contentHash : String → String}
    (h : row.documentId ≠ document.documentId) :
    row ∈ (save contentHash table document).items ↔ row ∈ table.items := by
  have hnew : row.documentId ≠ (newRow contentHash document).documentId := h
  rw [KeyedList.mem_iff_find?, save, KeyedList.find?_insertNew, if_neg hnew,
    ← KeyedList.mem_iff_find?]

end Others

/-! ## The stored status -/

/-- The status in the document's row, if it has one. -/
def storedStatus (table : DocumentTable) (documentId : DocumentId) :
    Option DocumentStatus :=
  (table.find? documentId).map DocumentRow.status

theorem getById_eq_none_iff {table : DocumentTable} {documentId : DocumentId}
    {id : Uuid} :
    getById table documentId id = none ↔ storedStatus table documentId = none := by
  simp [getById, storedStatus]

theorem getById_documentId {table : DocumentTable} {documentId : DocumentId}
    {id : Uuid} {document : Document}
    (h : getById table documentId id = some document) :
    document.documentId = documentId := by
  obtain ⟨row, hrow, rfl⟩ := Option.map_eq_some_iff.mp h
  exact table.find?_key hrow

theorem storedStatus_update (table : DocumentTable) (document : Document)
    (now : Timestamp) (documentId : DocumentId) :
    storedStatus (update table document now) documentId =
      if documentId = document.documentId then
        (storedStatus table documentId).map fun _ => document.status
      else storedStatus table documentId := by
  unfold storedStatus update
  rw [KeyedList.find?_modify]
  by_cases h : documentId = document.documentId
  · subst h
    rw [if_pos rfl, if_pos rfl, Option.map_map, Option.map_map]
    rfl
  · rw [if_neg h, if_neg h]

/-- Updating a document read from the table sets its status in its row. -/
theorem storedStatus_update_of_getById {table : DocumentTable}
    {documentId : DocumentId} {id : Uuid} {found document : Document}
    (now : Timestamp) (h : getById table documentId id = some found)
    (hid : document.documentId = documentId) :
    storedStatus (update table document now) documentId =
      some document.status := by
  obtain ⟨row, hrow, -⟩ := Option.map_eq_some_iff.mp h
  rw [storedStatus_update, if_pos hid.symm, storedStatus, hrow]
  rfl

/-! ## Duplicates -/

section Duplicates

variable {contentHash : String → String} {tenantId : TenantId}
  {content : String} {table : DocumentTable}

/-- The identifiers of the rows `find_duplicate` asks for. -/
def duplicateIds (contentHash : String → String) (tenantId : TenantId)
    (content : String) (table : DocumentTable) : List DocumentId :=
  (table.items.filter fun row =>
    IsDuplicate contentHash tenantId content row).map DocumentRow.documentId

/-- What `find_duplicate` finds is read from a row it asks for. -/
theorem exists_of_findDuplicate {scan : List DocumentRow → List DocumentRow}
    (hscan : (scan table.items).Perm table.items) {id : Uuid}
    {document : Document}
    (h : findDuplicate contentHash scan table tenantId content id =
      some document) :
    ∃ row ∈ table.items, IsDuplicate contentHash tenantId content row ∧
      document = rowToDocument row id := by
  obtain ⟨row, hrow, rfl⟩ := Option.map_eq_some_iff.mp h
  exact ⟨row, hscan.mem_iff.mp (List.mem_of_find?_eq_some hrow),
    by simpa using List.find?_some hrow, rfl⟩

theorem findDuplicate_documentId {scan : List DocumentRow → List DocumentRow}
    (hscan : (scan table.items).Perm table.items) {id : Uuid}
    {document : Document}
    (h : findDuplicate contentHash scan table tenantId content id =
      some document) :
    document.documentId ∈ duplicateIds contentHash tenantId content table := by
  obtain ⟨row, hrow, hduplicate, rfl⟩ := exists_of_findDuplicate hscan h
  exact List.mem_map.mpr
    ⟨row, List.mem_filter.mpr ⟨hrow, by simpa using hduplicate⟩, rfl⟩

/-- `find_duplicate` overlooks no row, whatever the order of its scan. -/
theorem findDuplicate_eq_none_iff {scan : List DocumentRow → List DocumentRow}
    (hscan : (scan table.items).Perm table.items) {id : Uuid} :
    findDuplicate contentHash scan table tenantId content id = none ↔
      duplicateIds contentHash tenantId content table = [] := by
  simp [findDuplicate, duplicateIds, List.find?_eq_none, hscan.mem_iff]

/-- An update changes neither the tenant nor the content hash of a row. -/
theorem duplicateIds_update (document : Document) (now : Timestamp) :
    duplicateIds contentHash tenantId content (update table document now) =
      duplicateIds contentHash tenantId content table := by
  have hrow : ∀ row : DocumentRow,
      (if row.documentId = document.documentId then updateRow document now row
        else row).documentId = row.documentId ∧
      (IsDuplicate contentHash tenantId content
          (if row.documentId = document.documentId then
            updateRow document now row else row) ↔
        IsDuplicate contentHash tenantId content row) := by
    intro row
    split
    · exact ⟨rfl, Iff.rfl⟩
    · exact ⟨rfl, Iff.rfl⟩
  unfold duplicateIds update KeyedList.modify
  dsimp only
  induction table.items with
  | nil => rfl
  | cons row rows ih =>
      obtain ⟨hid, hduplicate⟩ := hrow row
      rw [List.map_cons, List.filter_cons, List.filter_cons]
      simp only [hduplicate]
      split
      · rw [List.map_cons, List.map_cons, ih, hid]
      · exact ih

/-- Saving a document under a new identifier inserts its row. -/
theorem save_items_of_new {document : Document}
    (h : ∀ row ∈ table.items, row.documentId ≠ document.documentId) :
    (save contentHash table document).items =
      table.items ++ [newRow contentHash document] := by
  have hnew : (newRow contentHash document).documentId ∉
      table.items.map DocumentRow.documentId := by
    intro hmem
    obtain ⟨row, hrow, hid⟩ := List.mem_map.mp hmem
    exact h row hrow hid
  simp [save, KeyedList.insertNew, KeyedList.upsert, hnew]

/-- Updating the document just saved rewrites its new row only. -/
theorem update_save_items_of_new {document marked : Document} {now : Timestamp}
    (h : ∀ row ∈ table.items, row.documentId ≠ document.documentId)
    (hid : marked.documentId = document.documentId) :
    (update (save contentHash table document) marked now).items =
      table.items ++ [updateRow marked now (newRow contentHash document)] := by
  have hrows : ∀ row ∈ table.items, (if row.documentId = marked.documentId then
      updateRow marked now row else row) = row := by
    intro row hrow
    rw [hid, if_neg (h row hrow)]
  have hnew : (newRow contentHash document).documentId = marked.documentId := hid.symm
  rw [update, KeyedList.modify]
  dsimp only
  rw [save_items_of_new h, List.map_append, List.map_congr_left hrows, List.map_id',
    List.map_singleton, if_pos hnew]

theorem duplicateIds_save_of_new {document : Document}
    (h : ∀ row ∈ table.items, row.documentId ≠ document.documentId)
    (htenant : document.tenantId = tenantId)
    (hcontent : document.content = content) :
    duplicateIds contentHash tenantId content (save contentHash table document) =
      duplicateIds contentHash tenantId content table ++ [document.documentId] := by
  have hduplicate : IsDuplicate contentHash tenantId content
      (newRow contentHash document) := ⟨htenant, by rw [← hcontent]; rfl⟩
  unfold duplicateIds
  rw [save_items_of_new h, List.filter_append, List.map_append,
    List.filter_cons_of_pos (by simpa using hduplicate)]
  rfl

end Duplicates

end PostgresDocumentRepository
end AiBackend

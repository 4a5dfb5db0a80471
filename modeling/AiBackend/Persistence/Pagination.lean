import AiBackend.Infrastructure.DocumentTable
import AiBackend.Support.Pages

/-!
# Reading a collection page by page

Every page of `get_by_collection` is a query of its own, and rows created at
the same instant may come in another order in each of them.  Whatever these
orders are, the pages have every document once if and only if no such rows lie
on both sides of a page boundary.
-/

namespace AiBackend
namespace PostgresDocumentRepository

/-- The rows of a collection. -/
def collectionRows (table : DocumentTable) (collectionId : CollectionId) :
    List DocumentRow :=
  table.items.filter fun row => row.collectionId = collectionId

/-- The page at the offset `k * limit`; `scans` and `ids` are what the query
for it does. -/
def pageAt (scans : ℕ → List DocumentRow → List DocumentRow) (table : DocumentTable)
    (collectionId : CollectionId) (pagination : PaginationParams)
    (ids : ℕ → DocumentRow → Uuid) (k : ℕ) : List Document :=
  getByCollection (scans k) table collectionId
    { pagination with offset := k * pagination.limit } (ids k)

/-- The documents are those of the collection, each of them once. -/
structure Complete (table : DocumentTable) (collectionId : CollectionId)
    (documents : List Document) : Prop where
  once : (documents.map Document.documentId).Perm
    ((collectionRows table collectionId).map DocumentRow.documentId)
  count : (documents.length : ℤ) = countByCollection table collectionId

/-- Reading all pages gives the collection. -/
def ReadsAll (table : DocumentTable) (collectionId : CollectionId)
    (pagination : PaginationParams) (scans : ℕ → List DocumentRow → List DocumentRow)
    (ids : ℕ → DocumentRow → Uuid) : Prop :=
  ∃ documents, Pages.Reads (pageAt scans table collectionId pagination ids) 0 documents ∧
    Complete table collectionId documents

section Pages

variable {table : DocumentTable} {collectionId : CollectionId}
  {pagination : PaginationParams} {scans : ℕ → List DocumentRow → List DocumentRow}
  {ids : ℕ → DocumentRow → Uuid}

/-- The order of the rows in the query for a page. -/
def orderAt (scans : ℕ → List DocumentRow → List DocumentRow) (table : DocumentTable)
    (collectionId : CollectionId) (k : ℕ) : List DocumentRow :=
  Sorting.sortedFalling DocumentRow.createdAt (scans k (collectionRows table collectionId))

theorem pageAt_eq (k : ℕ) :
    pageAt scans table collectionId pagination ids k =
      (Pages.page pagination.limit (orderAt scans table collectionId k) k).map fun row =>
        rowToDocument row (ids k row) := rfl

theorem nodup_collectionRows : ((collectionRows table collectionId).map
    DocumentRow.documentId).Nodup :=
  table.nodup.sublist (List.filter_sublist.map _)

theorem complete_of_once {documents : List Document}
    (h : (documents.map Document.documentId).Perm
      ((collectionRows table collectionId).map DocumentRow.documentId)) :
    Complete table collectionId documents := by
  refine ⟨h, ?_⟩
  have hlength := h.length_eq
  rw [List.length_map, List.length_map] at hlength
  rw [hlength]
  rfl

theorem readsAll_of_not_straddles
    (h : ∀ k, ¬ Pages.Straddles DocumentRow.createdAt (collectionRows table collectionId)
      (k * pagination.limit))
    (hscans : ∀ k, (scans k (collectionRows table collectionId)).Perm
      (collectionRows table collectionId)) :
    ReadsAll table collectionId pagination scans ids := by
  obtain ⟨rows, hrows, hperm⟩ := Pages.exists_reads_of_not_straddles pagination.one_le_limit h
    (orderAt scans table collectionId) fun k =>
      ⟨(Sorting.perm_sortedFalling _ _).trans (hscans k), Sorting.pairwise_sortedFalling _ _⟩
  have hpages : ∀ k, pageAt scans table collectionId pagination ids k = _ := pageAt_eq
  obtain ⟨documents, hdocuments, hids⟩ := hrows.map DocumentRow.documentId
    Document.documentId hpages fun _ _ => rfl
  exact ⟨documents, hdocuments, complete_of_once (hids ▸ hperm.map _)⟩

/-- Orders in which reading goes wrong. -/
theorem exists_scans_of_straddles {k : ℕ}
    (h : Pages.Straddles DocumentRow.createdAt (collectionRows table collectionId)
      (k * pagination.limit)) (ids : ℕ → DocumentRow → Uuid) :
    ∃ scans : ℕ → List DocumentRow → List DocumentRow,
      (∀ k, (scans k (collectionRows table collectionId)).Perm
        (collectionRows table collectionId)) ∧
      ¬ ReadsAll table collectionId pagination scans ids := by
  obtain ⟨orders, horders, hbad⟩ := Pages.exists_orders_of_straddles pagination.one_le_limit
    (Sorting.pairwise_sortedFalling DocumentRow.createdAt _)
    (Sorting.perm_sortedFalling _ (collectionRows table collectionId)) h
  refine ⟨fun k _ => orders k, fun k => (horders k).1, ?_⟩
  rintro ⟨documents, hdocuments, hcomplete⟩
  have hsame : ∀ k, orderAt (fun k _ => orders k) table collectionId k = orders k :=
    fun k => Sorting.sortedFalling_of_pairwise _ (horders k).2
  have hpages : ∀ k, pageAt (fun k _ => orders k) table collectionId pagination ids k =
      (Pages.page pagination.limit (orders k) k).map fun row => rowToDocument row (ids k row) := by
    intro k
    rw [pageAt_eq, hsame]
  obtain ⟨rows, hrows, hids⟩ := hdocuments.of_map DocumentRow.documentId
    Document.documentId hpages fun _ _ => rfl
  refine hbad rows hrows (List.Nodup.of_map DocumentRow.documentId ?_)
  rw [hids, hcomplete.once.nodup_iff]
  exact nodup_collectionRows

end Pages

/-- Reading a collection page by page gives every document once, whatever the
orders of the queries, if and only if no rows created at the same instant lie
on both sides of a page boundary. -/
theorem readsAll_iff (table : DocumentTable) (collectionId : CollectionId)
    (pagination : PaginationParams) :
    (∀ (scans : ℕ → List DocumentRow → List DocumentRow) (ids : ℕ → DocumentRow → Uuid),
        (∀ k, (scans k (collectionRows table collectionId)).Perm
          (collectionRows table collectionId)) →
        ReadsAll table collectionId pagination scans ids) ↔
      ∀ k, ¬ Pages.Straddles DocumentRow.createdAt (collectionRows table collectionId)
        (k * pagination.limit) := by
  constructor
  · intro hall k hstraddles
    obtain ⟨scans, hscans, hbad⟩ := exists_scans_of_straddles hstraddles fun _ _ => ⟨0⟩
    exact hbad (hall scans _ hscans)
  · intro h scans ids hscans
    exact readsAll_of_not_straddles h hscans

/-- Documents created at the same instant. -/
def simultaneous (uuid : Uuid) : Document where
  id := uuid
  createdAt := 0
  updatedAt := 0
  tenantId := ⟨1⟩
  documentId := uuid
  collectionId := ⟨1⟩
  title := "Memo"
  content := "First line"

/-- Two such documents, read one by one. -/
theorem not_readsAll_simultaneous :
    ¬ ∀ (table : DocumentTable) (collectionId : CollectionId) (pagination : PaginationParams)
      (scans : ℕ → List DocumentRow → List DocumentRow) (ids : ℕ → DocumentRow → Uuid),
        (∀ k, (scans k (collectionRows table collectionId)).Perm
          (collectionRows table collectionId)) →
        ReadsAll table collectionId pagination scans ids := by
  intro hall
  let table := save id (save id KeyedList.empty (simultaneous ⟨1⟩)) (simultaneous ⟨2⟩)
  let single : PaginationParams := { limit := 1 }
  have hstraddles : Pages.Straddles DocumentRow.createdAt (collectionRows table ⟨1⟩)
      (1 * single.limit) := ⟨0, by decide, by decide⟩
  obtain ⟨scans, hscans, hbad⟩ := exists_scans_of_straddles hstraddles fun _ _ => ⟨0⟩
  exact hbad (hall table ⟨1⟩ single scans _ hscans)

end PostgresDocumentRepository
end AiBackend

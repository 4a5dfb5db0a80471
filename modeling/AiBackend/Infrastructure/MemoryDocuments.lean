import AiBackend.Domain.Document
import AiBackend.Support.Sorting

/-!
# The document repository for development and testing

`InMemoryDocumentRepository`: a dictionary from the text of the identifier to
the document.  Saving and updating are the same assignment.
-/

namespace AiBackend
namespace InMemoryDocumentRepository

/-- `str(document.document_id.value)`. -/
def key (document : Document) : String := document.documentId.str

/-- `_store`. -/
abbrev Store := KeyedList key

def getById (store : Store) (documentId : DocumentId) : Option Document :=
  store.find? documentId.str

def getByCollection (store : Store) (collectionId : CollectionId)
    (pagination : PaginationParams) : List Document :=
  pagination.page (Sorting.sortedFalling (fun document => document.createdAt)
    (store.items.filter fun document => document.collectionId = collectionId))

def save (store : Store) (document : Document) : Store := store.upsert document

def update (store : Store) (document : Document) : Store := store.upsert document

/-- `delete`; whether the key was there. -/
def delete (store : Store) (documentId : DocumentId) : Bool × Store :=
  if documentId.str ∈ store.keys then
    (true, store.filter fun document => decide (key document ≠ documentId.str))
  else (false, store)

def countByCollection (store : Store) (collectionId : CollectionId) : ℤ :=
  (store.items.filter fun document => document.collectionId = collectionId).length

end InMemoryDocumentRepository
end AiBackend

import AiBackend.Infrastructure.VectorStore
import AiBackend.Support.Fault

/-!
# Semantic search

`SearchDocumentsUseCase`: count the tokens of the query, embed it, build the
filters, ask the vector store and map the results.  Nothing in it knows a
tenant.
-/

namespace AiBackend

open Program Python

namespace SearchDocuments

structure SearchRequest where
  query : String
  collectionId : Option String := none
  topK : ℤ := 10
  filters : Option (Dict Json) := none
  query_ne : query ≠ ""
  topK_pos : 1 ≤ topK
  topK_le : topK ≤ 100

/-- The default passes its own check. -/
theorem SearchRequest.one_le_topK : (1 : ℤ) ≤ 10 := by decide

theorem SearchRequest.topK_le_hundred : (10 : ℤ) ≤ 100 := by decide

structure SearchResultDTO where
  chunkId : String
  documentId : String
  content : String
  score : ℚ
  metadata : Dict Json := KeyedList.empty
  documentTitle : String := ""
  chunkIndex : ℤ := 0

structure SearchResponse where
  results : List SearchResultDTO := []
  total : ℤ := 0
  queryTokens : ℤ := 0

/-- The calls that can raise. -/
inductive Site where
  | embed
  | search
  | logCompleted
  deriving DecidableEq, Repr

/-- The token service, the embedding provider, the vector store's server, the
integer reader of pydantic and the identifier generator. -/
structure Env where
  countTokens : String → String → Except PyExc ℤ
  embed : String → EmbeddingVector
  queryPoints : QueryPoints
  intFromStr : String → Option ℤ
  uuid4 : ℕ → Uuid

/-- The state is the number of identifiers drawn so far. -/
abbrev Prog (α : Type) := EStateM (Raised PyExc) ℕ α

/-- The generator from its next identifier on; a step draws at most `n`. -/
def draws (env : Env) (n : ℕ) : Prog (ℕ → Uuid) :=
  modifyGet fun drawn => (fun i => env.uuid4 (drawn + i), drawn + n)

/-- The filters handed to the repository: those of the request, if it has
any, and its collection, if it names one. -/
def requestFilters (request : SearchRequest) : Option (Dict Json) :=
  let filters := request.filters.filter fun d => !d.items.isEmpty
  match request.collectionId with
  | some text =>
      if text = "" then filters
      else some ((filters.getD KeyedList.empty).set "collection_id" (.str text))
  | none => filters

def resultDto (r : SearchResult) : SearchResultDTO where
  chunkId := r.chunkId.str
  documentId := r.documentId.str
  content := r.content
  score := r.score
  metadata := r.metadata
  documentTitle := r.documentTitle
  chunkIndex := r.chunkIndex

/-- `SearchDocumentsUseCase.execute`; the repository is called without a
tenant. -/
def execute (env : Env) (faults : Faults Site PyExc) (request : SearchRequest) :
    Prog SearchResponse := do
  let queryTokens ← ofExcept (env.countTokens request.query "gpt-4o")
  let queryEmbedding ← perform faults .embed (pure (env.embed request.query))
  let uuid4 ← draws env request.topK.toNat
  let results ← perform faults .search (ofExcept
    (QdrantVectorRepository.search env.queryPoints env.intFromStr uuid4
      queryEmbedding request.topK (requestFilters request) none))
  let resultDtos := results.map resultDto
  perform faults .logCompleted (pure ())
  pure ⟨resultDtos, resultDtos.length, queryTokens⟩

end SearchDocuments
end AiBackend

import AiBackend.Domain.SearchResult
import AiBackend.Support.Program
import Mathlib.Algebra.Order.Ring.Rat
import Mathlib.Data.Nat.Digits.Defs

/-!
# The vector store and its adapter

Qdrant holds points with an identifier, a vector and a payload.  The adapter
writes the entries it is given and turns the points of a query answer back
into search results, dropping every point it cannot read.  How the server
evaluates a filter condition and ranks points is not in the repository; it
enters through the answer a query gets.
-/

namespace AiBackend

open Python

/-- A point identifier: an unsigned 64-bit number or a UUID. -/
inductive PointId where
  | num (n : Fin (2 ^ 64))
  | uuid (u : Uuid)
  deriving DecidableEq, Repr

/-- `str(point.id)`; the server gives a UUID back in its canonical text. -/
def PointId.str : PointId → String
  | .num n => Nat.repr n
  | .uuid u => u.str

structure Point where
  id : PointId
  vector : List ℚ
  payload : Dict Json

/-- The points of one collection. -/
abbrev PointStore := KeyedList Point.id

/-- The values a match condition can carry. -/
inductive MatchValue where
  | str (s : String)
  | int (n : ℤ)
  | bool (b : Bool)
  deriving DecidableEq, Repr

structure FieldCondition where
  key : String
  value : MatchValue
  deriving DecidableEq, Repr

/-- A point of a query answer, with its score. -/
structure ScoredPoint where
  point : Point
  score : ℚ

/-- What the server answers to a query: vector, limit and the conditions that
must hold, if a filter is sent at all. -/
abbrev QueryPoints :=
  List ℚ → ℤ → Option (List FieldCondition) → List ScoredPoint

namespace QdrantVectorRepository

/-- An entry of `upsert_many`. -/
abbrev Entry := ChunkId × EmbeddingVector × Dict Json

def point (entry : Entry) : Point where
  id := .uuid entry.1
  vector := entry.2.1.values
  payload := entry.2.2

/-- The store after the points of a batch were upserted: a point replaces the
one with its identifier. -/
def upsertPoints (store : PointStore) (entries : List Entry) : PointStore :=
  entries.foldl (fun store entry => store.upsert (point entry)) store

/-! ## The filter -/

/-- `MatchValue(value=v)`: only strings, integers and Booleans are accepted. -/
def matchValue : Json → Except PyExc MatchValue
  | .str s => .ok (.str s)
  | .int n => .ok (.int n)
  | .bool b => .ok (.bool b)
  | _ => .error (.validationError "MatchValue"
      [("value.bool", "Input should be a valid boolean"),
        ("value.int", "Input should be a valid integer"),
        ("value.str", "Input should be a valid string")])

/-- One condition for each entry of `filters` whose key is not `tenant_id`. -/
def extraConditions : List (String × Json) → Except PyExc (List FieldCondition)
  | [] => .ok []
  | (k, v) :: rest =>
      if k ≠ "tenant_id" then do
        let value ← matchValue v
        let conditions ← extraConditions rest
        pure (⟨k, value⟩ :: conditions)
      else extraConditions rest

/-- The filter of a search: the tenant first, then the other conditions; no
filter when there is no condition. -/
def buildFilter (tenantId : Option TenantId) (filters : Option (Dict Json)) :
    Except PyExc (Option (List FieldCondition)) := do
  let tenant := tenantId.elim []
    fun t => [(⟨"tenant_id", .str t.str⟩ : FieldCondition)]
  let extra ← extraConditions (filters.elim [] KeyedList.items)
  let conditions := tenant ++ extra
  pure (if conditions = [] then none else some conditions)

/-! ## Reading an answer -/

/-- `DocumentId.from_str` on a payload value that need not be a string. -/
def uuidOfValue : Json → Except PyExc Uuid
  | .str s => Uuid.fromStr s
  | .null => .error (.typeError
      "one of the hex, bytes, bytes_le, fields, or int arguments must be given")
  | .bool _ => .error (.attributeError "'bool' object has no attribute 'replace'")
  | .int _ => .error (.attributeError "'int' object has no attribute 'replace'")
  | .float _ => .error (.attributeError "'float' object has no attribute 'replace'")
  | .list _ => .error (.attributeError "'list' object has no attribute 'replace'")
  | .dict _ => .error (.attributeError "'dict' object has no attribute 'replace'")

/-- `payload.get(key, default)`. -/
def payloadGet (payload : Dict Json) (key : String) (default : Json) : Json :=
  (payload.get? key).getD default

/-- The keys that become fields of the result and are left out of its
metadata. -/
def fieldKeys : List String := ["content", "document_title", "chunk_index"]

/-- One point of an answer as a search result; `fresh` is the identifier
drawn for a payload without a collection. -/
def toSearchResult (intFromStr : String → Option ℤ) (fresh : Uuid)
    (scored : ScoredPoint) : Except PyExc SearchResult := do
  let payload := scored.point.payload
  let chunkId ← Uuid.fromStr scored.point.id.str
  let documentId ← uuidOfValue (payloadGet payload "document_id" (.str ""))
  let collectionId ←
    uuidOfValue (payloadGet payload "collection_id" (.str fresh.str))
  SearchResult.construct intFromStr chunkId documentId collectionId
    (payloadGet payload "content" (.str "")) scored.score
    (payload.filter fun entry => entry.1 ∉ fieldKeys)
    (payloadGet payload "document_title" (.str ""))
    (payloadGet payload "chunk_index" (.int 0))

/-- The loop over the points of an answer; a point that raises is logged and
skipped. -/
def readPoints (intFromStr : String → Option ℤ) (uuid4 : ℕ → Uuid) :
    List ScoredPoint → List SearchResult
  | [] => []
  | scored :: rest =>
      match toSearchResult intFromStr (uuid4 0) scored with
      | .ok result =>
          result :: readPoints intFromStr (fun n => uuid4 (n + 1)) rest
      | .error _ => readPoints intFromStr (fun n => uuid4 (n + 1)) rest

/-- `search`. -/
def search (queryPoints : QueryPoints) (intFromStr : String → Option ℤ)
    (uuid4 : ℕ → Uuid) (queryEmbedding : EmbeddingVector) (topK : ℤ)
    (filters : Option (Dict Json)) (tenantId : Option TenantId) :
    Except PyExc (List SearchResult) := do
  let queryFilter ← buildFilter tenantId filters
  pure (readPoints intFromStr uuid4
    (queryPoints queryEmbedding.values topK queryFilter))

/-! ## Basic facts -/

/-- Every result comes from a point of the answer that could be read. -/
theorem exists_of_mem_readPoints {intFromStr : String → Option ℤ}
    {uuid4 : ℕ → Uuid} {answer : List ScoredPoint} {result : SearchResult}
    (h : result ∈ readPoints intFromStr uuid4 answer) :
    ∃ scored ∈ answer, ∃ fresh,
      toSearchResult intFromStr fresh scored = .ok result := by
  induction answer generalizing uuid4 with
  | nil => simp [readPoints] at h
  | cons scored rest ih =>
      rw [readPoints] at h
      cases hread : toSearchResult intFromStr (uuid4 0) scored with
      | ok found =>
          rw [hread, List.mem_cons] at h
          rcases h with rfl | h
          · exact ⟨scored, by simp, uuid4 0, hread⟩
          · obtain ⟨s, hs, hfound⟩ := ih h
            exact ⟨s, by simp [hs], hfound⟩
      | error e =>
          rw [hread] at h
          obtain ⟨s, hs, hfound⟩ := ih h
          exact ⟨s, by simp [hs], hfound⟩

/-- Reading an answer whose points are readable exactly when they pass a
test. -/
theorem forall₂_readPoints {intFromStr : String → Option ℤ}
    {uuid4 : ℕ → Uuid} {answer : List ScoredPoint} (readable : ScoredPoint → Bool)
    {R : ScoredPoint → SearchResult → Prop}
    (hread : ∀ scored ∈ answer, readable scored = true → ∀ fresh,
      ∃ result, toSearchResult intFromStr fresh scored = .ok result ∧
        R scored result)
    (hskip : ∀ scored ∈ answer, readable scored = false → ∀ fresh,
      ∃ e, toSearchResult intFromStr fresh scored = .error e) :
    List.Forall₂ R (answer.filter readable) (readPoints intFromStr uuid4 answer) := by
  induction answer generalizing uuid4 with
  | nil => exact .nil
  | cons scored rest ih =>
      have htail : List.Forall₂ R (rest.filter readable)
          (readPoints intFromStr (fun n => uuid4 (n + 1)) rest) :=
        ih (fun s hs => hread s (by simp [hs])) fun s hs => hskip s (by simp [hs])
      rw [readPoints]
      cases htest : readable scored with
      | true =>
          obtain ⟨result, hresult, hR⟩ := hread scored (by simp) htest (uuid4 0)
          rw [hresult, List.filter_cons_of_pos htest]
          exact .cons hR htail
      | false =>
          obtain ⟨e, he⟩ := hskip scored (by simp) htest (uuid4 0)
          rw [he, List.filter_cons_of_neg (by simp [htest])]
          exact htail

/-- The points of a store after an upsert: those of the batch, and the old
ones whose identifiers the batch does not have. -/
theorem mem_upsertPoints {store : PointStore} {entries : List Entry} {p : Point}
    (h : p ∈ (upsertPoints store entries).items) :
    (∃ entry ∈ entries, p = point entry) ∨
      (p ∈ store.items ∧ ∀ entry ∈ entries, (point entry).id ≠ p.id) := by
  induction entries generalizing store with
  | nil => exact Or.inr ⟨h, by simp⟩
  | cons entry entries ih =>
      rcases ih h with ⟨found, hfound, rfl⟩ | ⟨hold, hnew⟩
      · exact Or.inl ⟨found, by simp [hfound], rfl⟩
      · rcases (KeyedList.mem_upsert _ _ _).mp hold with rfl | ⟨hmem, hid⟩
        · exact Or.inl ⟨entry, by simp, rfl⟩
        · refine Or.inr ⟨hmem, ?_⟩
          simp only [List.forall_mem_cons]
          exact ⟨fun heq => hid heq.symm, hnew⟩

/-- What reading a point consists of. -/
theorem toSearchResult_eq_ok_iff {intFromStr : String → Option ℤ}
    {fresh : Uuid} {scored : ScoredPoint} {result : SearchResult} :
    toSearchResult intFromStr fresh scored = .ok result ↔
      ∃ chunkId, Uuid.fromStr scored.point.id.str = .ok chunkId ∧
        ∃ documentId, uuidOfValue (payloadGet scored.point.payload "document_id"
            (.str "")) = .ok documentId ∧
          ∃ collectionId, uuidOfValue (payloadGet scored.point.payload
              "collection_id" (.str fresh.str)) = .ok collectionId ∧
            SearchResult.construct intFromStr chunkId documentId collectionId
              (payloadGet scored.point.payload "content" (.str "")) scored.score
              (scored.point.payload.filter fun entry => entry.1 ∉ fieldKeys)
              (payloadGet scored.point.payload "document_title" (.str ""))
              (payloadGet scored.point.payload "chunk_index" (.int 0)) =
                .ok result := by
  simp only [toSearchResult, Program.except_bind_eq_ok_iff]

/-- A numeric identifier is no UUID. -/
theorem fromStr_repr {n : ℕ} (h : n < 2 ^ 64) :
    ∃ e, Uuid.fromStr (Nat.repr n) = .error e := by
  have hbound : n < 10 ^ 20 := by omega
  have hlength : (Nat.repr n).length ≤ 20 := Nat.repr_length n 20 (by omega) hbound
  exact Uuid.fromStr_of_length_lt (by omega)

/-- A result has the identifier of its point. -/
theorem id_of_toSearchResult {intFromStr : String → Option ℤ}
    {fresh : Uuid} {scored : ScoredPoint} {result : SearchResult}
    (h : toSearchResult intFromStr fresh scored = .ok result) :
    scored.point.id = .uuid result.chunkId := by
  obtain ⟨chunkId, hid, _, -, _, -, hconstruct⟩ := toSearchResult_eq_ok_iff.mp h
  rw [SearchResult.chunkId_of_construct hconstruct]
  cases hpoint : scored.point.id with
  | num n =>
      obtain ⟨e, herror⟩ := fromStr_repr n.isLt
      rw [hpoint, PointId.str, herror] at hid
      cases hid
  | uuid u =>
      rw [hpoint, PointId.str, Uuid.fromStr_str, Except.ok.injEq] at hid
      rw [hid]

/-- And its score. -/
theorem score_of_toSearchResult {intFromStr : String → Option ℤ}
    {fresh : Uuid} {scored : ScoredPoint} {result : SearchResult}
    (h : toSearchResult intFromStr fresh scored = .ok result) :
    result.score = scored.score := by
  obtain ⟨_, -, _, -, _, -, hconstruct⟩ := toSearchResult_eq_ok_iff.mp h
  exact SearchResult.score_of_construct hconstruct

/-- Whether the collection can be read does not depend on the identifier drawn. -/
theorem collection_ok_of_ok {payload : Dict Json} {fresh : Uuid}
    {collectionId : CollectionId}
    (h : uuidOfValue (payloadGet payload "collection_id" (.str fresh.str)) =
      .ok collectionId) (fresh' : Uuid) :
    ∃ collectionId', uuidOfValue (payloadGet payload "collection_id" (.str fresh'.str)) =
      .ok collectionId' := by
  unfold payloadGet at h ⊢
  cases hget : payload.get? "collection_id" with
  | none => exact ⟨fresh', by simp [uuidOfValue]⟩
  | some value =>
      simp only [hget, Option.getD_some] at h ⊢
      exact ⟨collectionId, h⟩

/-- The identifier drawn can be seen in the collection only. -/
theorem toSearchResult_fresh {intFromStr : String → Option ℤ} {fresh : Uuid}
    {scored : ScoredPoint} {result : SearchResult}
    (h : toSearchResult intFromStr fresh scored = .ok result) (fresh' : Uuid) :
    ∃ collectionId, toSearchResult intFromStr fresh' scored =
      .ok { result with collectionId := collectionId } := by
  obtain ⟨chunkId, hid, documentId, hdocument, collectionId, hcollection,
    hconstruct⟩ := toSearchResult_eq_ok_iff.mp h
  obtain ⟨collectionId', hcollection'⟩ := collection_ok_of_ok hcollection fresh'
  exact ⟨collectionId', toSearchResult_eq_ok_iff.mpr ⟨chunkId, hid, documentId, hdocument,
    collectionId', hcollection',
    SearchResult.construct_collection hconstruct collectionId'⟩⟩

/-- Whether a point can be read depends neither on the identifier drawn for
it nor on which score within the range it has. -/
theorem toSearchResult_ok_of_ok {intFromStr : String → Option ℤ}
    {fresh : Uuid} {p : Point} {score : ℚ} {result : SearchResult}
    (h : toSearchResult intFromStr fresh ⟨p, score⟩ = .ok result)
    (fresh' : Uuid) {score' : ℚ} (hscore' : 0 ≤ score' ∧ score' ≤ 1) :
    ∃ result', toSearchResult intFromStr fresh' ⟨p, score'⟩ = .ok result' ∧
      result'.score = score' := by
  obtain ⟨chunkId, hid, documentId, hdocument, collectionId, hcollection,
    hconstruct⟩ := toSearchResult_eq_ok_iff.mp h
  obtain ⟨collectionId', hcollection'⟩ := collection_ok_of_ok hcollection fresh'
  obtain ⟨result', hresult', hscore⟩ :=
    SearchResult.construct_ok_of_ok hconstruct collectionId' hscore'
  exact ⟨result', toSearchResult_eq_ok_iff.mpr ⟨chunkId, hid, documentId,
    hdocument, collectionId', hcollection', hresult'⟩, hscore⟩

end QdrantVectorRepository
end AiBackend

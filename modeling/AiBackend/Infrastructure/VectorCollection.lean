import AiBackend.Support.Fault
import AiBackend.Support.Python
import Mathlib.Data.Rat.Defs
import Mathlib.Logic.Function.Basic

/-!
# Setting up the vector collection

`QdrantVectorRepository.ensure_collection`, which creates the collection and
its payload indexes in one remote call each.
-/

namespace AiBackend
namespace QdrantVectorRepository

open Program Python

inductive PayloadSchemaType where
  | keyword
  deriving DecidableEq, Repr

/-- `_INDEXED_PAYLOAD_FIELDS`. -/
def indexedPayloadFields : List (String × PayloadSchemaType) :=
  [("tenant_id", .keyword), ("collection_id", .keyword), ("document_id", .keyword)]

/-- A collection of the server, by its configuration and its payload
indexes. -/
structure Collection where
  size : ℤ
  distance : String := "Cosine"
  onDisk : Bool := false
  indexingThreshold : ℤ := 20000
  scalarType : String := "int8"
  /-- The double nearest to 0.99. -/
  quantile : ℚ := 4458563631096791 / 2 ^ 52
  alwaysRam : Bool := true
  indexes : List (String × PayloadSchemaType) := []

/-- The collections of a server, by name. -/
abbrev Server := String → Option Collection

/-- The calls `ensure_collection` makes, one after the other. -/
inductive SetupSite where
  | collectionExists
  | createCollection
  | logCreated
  | createPayloadIndex (fieldName : String)
  | logIndexed (fieldName : String)
  | logExists
  deriving DecidableEq, Repr

abbrev SetupProg := EStateM (Raised PyExc) Server

/-- `create_payload_index`. -/
def createPayloadIndex (collectionName : String) (field : String × PayloadSchemaType) :
    SetupProg Unit :=
  modify fun s => Function.update s collectionName
    ((s collectionName).map fun c => { c with indexes := c.indexes ++ [field] })

/-- The loop over the indexed fields. -/
def createPayloadIndexes (faults : Faults SetupSite PyExc) (collectionName : String) :
    List (String × PayloadSchemaType) → SetupProg Unit
  | [] => pure ()
  | field :: rest => do
      perform faults (.createPayloadIndex field.1) (createPayloadIndex collectionName field)
      perform faults (.logIndexed field.1) (pure ())
      createPayloadIndexes faults collectionName rest

/-- `ensure_collection`. -/
def ensureCollection (faults : Faults SetupSite PyExc) (collectionName : String)
    (vectorSize : ℤ) : SetupProg Unit := do
  let s ← get
  let exists' ← perform faults .collectionExists (pure (s collectionName).isSome)
  if exists' then perform faults .logExists (pure ())
  else do
    perform faults .createCollection
      (modify fun s => Function.update s collectionName (some { size := vectorSize }))
    perform faults .logCreated (pure ())
    createPayloadIndexes faults collectionName indexedPayloadFields

end QdrantVectorRepository
end AiBackend

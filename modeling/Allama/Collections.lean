import Allama.BlobStorage
import Allama.Chunks

/-! Collections in blob storage: chunks, a manifest of their references, and the reads of a page, of an item
and of everything (`storage/object.py`, `storage/collection.py`, `storage/backends`). -/
namespace Allama
namespace Storage
open Chunks Stateful

/-- A reference to a blob, with what is read of it. -/
structure ObjectRef where
  backend : String
  bucket : String
  key : String
  sizeBytes : ℕ
  sha256 : String
deriving DecidableEq

inductive ElementKind
  | value
  | storedObject
deriving DecidableEq

structure CollectionObject where
  manifestRef : ObjectRef
  count : ℕ
  chunkSize : ℕ
  elementKind : ElementKind
  index : Option ℤ
deriving DecidableEq

inductive StoredObject
  | inline (data : Value)
  | external (ref : ObjectRef)
  | collection (coll : CollectionObject)

/-- The discriminator of the union. -/
def StoredObject.type : StoredObject → String
  | .inline _ => "inline"
  | .external _ => "external"
  | .collection _ => "collection"

structure CollectionManifestV1 where
  count : ℕ
  chunkSize : ℕ
  elementKind : ElementKind
  chunks : List ObjectRef

structure CollectionChunkV1 where
  start : ℕ
  items : List Value

/-! What the models dump, and what they accept back. -/

def natOf : Value → Option ℕ
  | .int (.ofNat n) => some n
  | _ => none

def intOf : Value → Option ℤ
  | .int n => some n
  | _ => none

def strOf : Value → Option String
  | .str s => some s
  | _ => none

def listOf : Value → Option (List Value)
  | .list vs => some vs
  | _ => none

def dictOf : Value → Option (List (String × Value))
  | .dict entries => some entries
  | _ => none

/-- A field that is a literal, and may be missing. -/
def literalOf (entries : List (String × Value)) (field text : String) : Option PUnit :=
  match (entries.lookup field).getD (.str text) with
  | .str s => if s = text then some ⟨⟩ else none
  | _ => none

namespace ObjectRef

def modelDump (ref : ObjectRef) : Value :=
  .dict [("backend",.str ref.backend),("bucket",.str ref.bucket),("key",.str ref.key),
    ("size_bytes",.int ref.sizeBytes),("sha256",.str ref.sha256)]

def modelValidate (data : Value) : Option ObjectRef := do
  let entries ← dictOf data
  literalOf entries "backend" "s3"
  let bucket ← (entries.lookup "bucket").bind strOf
  let key ← (entries.lookup "key").bind strOf
  let sizeBytes ← (entries.lookup "size_bytes").bind natOf
  let sha256 ← (entries.lookup "sha256").bind strOf
  pure ⟨"s3",bucket,key,sizeBytes,sha256⟩

theorem modelValidate_modelDump {ref : ObjectRef} (h : ref.backend = "s3") :
    modelValidate ref.modelDump = some ref := by
  obtain ⟨backend,bucket,key,sizeBytes,sha256⟩ := ref
  obtain rfl : backend = "s3" := h
  rfl

end ObjectRef

namespace ElementKind

def text : ElementKind → String
  | .value => "value"
  | .storedObject => "stored_object"

def ofText : String → Option ElementKind
  | "value" => some .value
  | "stored_object" => some .storedObject
  | _ => none

@[simp] theorem ofText_text (kind : ElementKind) : ofText kind.text = some kind := by
  cases kind <;> rfl

end ElementKind

namespace CollectionManifestV1

def modelDump (manifest : CollectionManifestV1) : Value :=
  .dict [("kind",.str "allama.collection_manifest"),("version",.int 1),("count",.int manifest.count),
    ("chunk_size",.int manifest.chunkSize),("element_kind",.str manifest.elementKind.text),
    ("chunks",.list (manifest.chunks.map ObjectRef.modelDump))]

def modelValidate (data : Value) : Option CollectionManifestV1 := do
  let entries ← dictOf data
  literalOf entries "kind" "allama.collection_manifest"
  let count ← (entries.lookup "count").bind natOf
  let chunkSize ← (entries.lookup "chunk_size").bind natOf
  let elementKind ← (entries.lookup "element_kind").bind strOf
  let elementKind ← ElementKind.ofText elementKind
  let chunks ← (entries.lookup "chunks").bind listOf
  let chunks ← chunks.mapM ObjectRef.modelValidate
  pure ⟨count,chunkSize,elementKind,chunks⟩

end CollectionManifestV1

namespace CollectionChunkV1

def modelDump (chunk : CollectionChunkV1) : Value :=
  .dict [("kind",.str "allama.collection_chunk"),("version",.int 1),("start",.int chunk.start),
    ("items",.list chunk.items)]

def modelValidate (data : Value) : Option CollectionChunkV1 := do
  let entries ← dictOf data
  literalOf entries "kind" "allama.collection_chunk"
  let start ← (entries.lookup "start").bind natOf
  let items ← (entries.lookup "items").bind listOf
  pure ⟨start,items⟩

@[simp] theorem modelValidate_modelDump (chunk : CollectionChunkV1) :
    modelValidate chunk.modelDump = some chunk := rfl

end CollectionChunkV1

/-- `StoredObjectValidator.validate_python`, for what a JSON document can hold. -/
def validateStoredObject (data : Value) : Option StoredObject := do
  let entries ← dictOf data
  let type ← (entries.lookup "type").bind strOf
  match type with
  | "inline" => do
    let data ← entries.lookup "data"
    pure (.inline data)
  | "external" => do
    let ref ← (entries.lookup "ref").bind ObjectRef.modelValidate
    pure (.external ref)
  | "collection" => do
    let manifestRef ← (entries.lookup "manifest_ref").bind ObjectRef.modelValidate
    let count ← (entries.lookup "count").bind natOf
    let chunkSize ← (entries.lookup "chunk_size").bind natOf
    let elementKind ← (entries.lookup "element_kind").bind strOf
    let elementKind ← ElementKind.ofText elementKind
    let index ←
      match (entries.lookup "index").getD .none with
      | .none => pure none
      | v => (intOf v).map some
    pure (.collection ⟨manifestRef,count,chunkSize,elementKind,index⟩)
  | _ => none

theorem dictOf_of_validateStoredObject {data : Value} {stored : StoredObject}
    (h : validateStoredObject data = some stored) : ∃ entries, data = .dict entries := by
  cases data with
  | dict entries => exact ⟨entries,rfl⟩
  | _ => cases h

/-- The settings that `store_collection` falls back to. -/
structure CollectionConfig where
  chunkSize : ℕ
  bucket : String

/-- `value or default`. -/
def orDefault {α : Type} [DecidableEq α] (empty : α) (value : Option α) (default : α) : α :=
  match value with
  | none => default
  | some a => if a = empty then default else a

def chunkKey (keyPrefix : String) (i : ℕ) : String := keyPrefix ++ "/chunks/" ++ toString i ++ ".json"

def manifestKey (keyPrefix : String) : String := keyPrefix ++ "/manifest.json"

def uploadDocument (p : Packages) (document : Value) (bucket key : String) : StorageM ObjectRef := do
  let content ← serializeObject p document
  uploadFile content bucket key
  pure ⟨"s3",bucket,key,content.size,p.sha256 content⟩

/-- `math.ceil(count / chunk_size)`, and one empty chunk for an empty list. -/
def numberOfChunks (chunkSize count : ℕ) : ℕ := if 0 < count then numChunks chunkSize count else 1

/-- One turn of the loop of `store_collection`. -/
def storeChunk (p : Packages) (keyPrefix bucket : String) (items : List Value) (chunkSize i : ℕ) :
    StorageM ObjectRef :=
  let start := i*chunkSize
  let stop := min (start+chunkSize) items.length
  uploadDocument p (CollectionChunkV1.mk start (pySlice items start stop)).modelDump bucket
    (chunkKey keyPrefix i)

def storeCollection (p : Packages) (config : CollectionConfig) (keyPrefix : String) (items : List Value)
    (elementKind : ElementKind) (chunkSize : Option ℕ) (bucket : Option String) :
    StorageM CollectionObject :=
  let chunkSize := orDefault 0 chunkSize config.chunkSize
  let bucket := orDefault "" bucket config.bucket
  let count := items.length
  if 0 < count ∧ chunkSize = 0 then throw .zeroDivisionError
  else do
    let chunkRefs ← (List.range (numberOfChunks chunkSize count)).mapM
      (storeChunk p keyPrefix bucket items chunkSize)
    let manifest : CollectionManifestV1 := ⟨count,chunkSize,elementKind,chunkRefs⟩
    let manifestRef ← uploadDocument p manifest.modelDump bucket (manifestKey keyPrefix)
    pure ⟨manifestRef,count,chunkSize,elementKind,none⟩

/-- A blob whose hash is that of its reference. `what` names it in the error. -/
def fetchDocument (p : Packages) (what : String) (ref : ObjectRef) : StorageM Value := do
  let content ← cachedBlobDownload ref.sha256 ref.bucket ref.key
  let actual := p.sha256 content
  if actual = ref.sha256 then
    deserializeObject p content
  else
    throw (.valueError (what ++ ": expected " ++ ref.sha256 ++ ", got " ++ actual))

/-- `model_validate`. -/
def validated {α : Type} (model : String) : Option α → StorageM α
  | none => throw (.validationError model)
  | some a => pure a

def fetchManifest (p : Packages) (coll : CollectionObject) : StorageM CollectionManifestV1 := do
  let data ← fetchDocument p "Manifest integrity check failed" coll.manifestRef
  validated "CollectionManifestV1" (CollectionManifestV1.modelValidate data)

def fetchChunk (p : Packages) (ref : ObjectRef) : StorageM CollectionChunkV1 := do
  let data ← fetchDocument p "Chunk integrity check failed" ref
  validated "CollectionChunkV1" (CollectionChunkV1.modelValidate data)

/-- `manifest.chunks[i]`. -/
def chunkRef (manifest : CollectionManifestV1) (i : ℤ) : StorageM ObjectRef :=
  match pyGet? manifest.chunks i with
  | none => throw (.indexError "list index out of range")
  | some ref => pure ref

/-- One turn of the loop of `get_collection_page`: what chunk `i` has of the page that ends at `stop`. -/
def pageOfChunk (p : Packages) (manifest : CollectionManifestV1) (chunkSize : ℕ) (offset stop i : ℤ) :
    StorageM (List Value) := do
  let ref ← chunkRef manifest i
  let chunk ← fetchChunk p ref
  let chunkStart := i*chunkSize
  let localStart := max 0 (offset-chunkStart)
  let localEnd := min (chunk.items.length : ℤ) (stop-chunkStart)
  pure (pySlice chunk.items localStart localEnd)

def getCollectionPage (p : Packages) (coll : CollectionObject) (offset : ℤ) (limit : Option ℤ) :
    StorageM (List Value) :=
  if offset < 0 then throw (.valueError ("offset must be >= 0, got " ++ toString offset))
  else if coll.count ≤ offset then pure []
  else if limit = some 0 then pure []
  else do
    let limit := limit.getD (coll.count-offset)
    let stop := min (offset+limit) coll.count
    let manifest ← fetchManifest p coll
    if coll.chunkSize = 0 then throw .zeroDivisionError
    else
      let startChunk := offset.fdiv coll.chunkSize
      let endChunk := (stop-1).fdiv coll.chunkSize
      let pages ← (pyRange startChunk (endChunk+1)).mapM
        (pageOfChunk p manifest coll.chunkSize offset stop)
      pure pages.flatten

def getCollectionItem (p : Packages) (coll : CollectionObject) (index : ℤ) : StorageM Value :=
  let index := if index < 0 then coll.count+index else index
  if index < 0 ∨ coll.count ≤ index then
    throw (.indexError ("Collection index " ++ toString index ++ " out of range [0, " ++
      toString coll.count ++ ")"))
  else do
    let manifest ← fetchManifest p coll
    if coll.chunkSize = 0 then throw .zeroDivisionError
    else
      let ref ← chunkRef manifest (index.fdiv coll.chunkSize)
      cachedSelectItem p ref.sha256 ref.bucket ref.key (index.fmod coll.chunkSize).toNat

/-- The two implementations of `ObjectStorage`. -/
inductive Backend
  | inline
  | s3
deriving DecidableEq

def retrieve (p : Packages) : Backend → StoredObject → StorageM Value
  | _, .inline data => pure data
  | .inline, stored =>
    throw (.notImplementedError ("InlineObjectStorage does not support " ++ stored.type ++
      " references. This ref was created by a different storage backend."))
  | .s3, .external ref =>
    if ref.backend ≠ "s3" then
      throw (.valueError ("S3ObjectStorage cannot retrieve from backend: " ++ ref.backend))
    else fetchDocument p ("Integrity check failed for " ++ ref.key) ref
  | .s3, .collection coll =>
    match coll.index with
    | some index => getCollectionItem p coll index
    | none => do
      let items ← getCollectionPage p coll 0 none
      pure (.list items)

def materializeCollectionValues (p : Packages) (backend : Backend) (coll : CollectionObject) (offset : ℤ)
    (limit : Option ℤ) : StorageM (List Value) := do
  let items ← getCollectionPage p coll offset limit
  match coll.elementKind with
  | .value => pure items
  | .storedObject =>
    items.mapM fun item => do
      let stored ← validated "StoredObject" (validateStoredObject item)
      retrieve p backend stored

end Storage
end Allama

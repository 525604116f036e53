import Mathlib.Data.List.Basic
import Allama.DSLTypes
import Allama.SizedCache
import Allama.Stateful

/-! Blobs and the cache before them (`storage/utils.py`, `storage/blob.py`). -/
namespace Allama
namespace Storage
open Stateful

/-- The packages that the storage calls: JSON as bytes, the hash, and a query on a stored object. -/
structure Packages where
  /-- `orjson.dumps(_, default=str)`; `none` is a `TypeError`. -/
  dumps : Value → Option ByteArray
  /-- `orjson.loads`; `none` is a `JSONDecodeError`. -/
  loads : ByteArray → Option Value
  /-- `hashlib.sha256(_).hexdigest()`. -/
  sha256 : ByteArray → String
  /-- The result of `select_object_content` for the content and an expression; `none` is a `ClientError`. -/
  select : ByteArray → String → Option ByteArray

inductive StorageError
  | valueError (message : String)
  | indexError (message : String)
  | typeError (message : String)
  | notImplementedError (message : String)
  | zeroDivisionError
  | attributeError
  | jsonDecodeError
  | fileNotFoundError
  | clientError
  | validationError (model : String)
  | recursionError
deriving DecidableEq

/-- The keys of the cache: the hash of a blob, and `select:{sha256}:{local_index}`. -/
inductive CacheKey
  | blob (sha256 : String)
  | select (sha256 : String) (localIndex : ℕ)
deriving DecidableEq

def CacheKey.text : CacheKey → String
  | .blob sha256 => sha256
  | .select sha256 localIndex => "select:" ++ sha256 ++ ":" ++ toString localIndex

theorem repr_injective {m n : ℕ} (h : toString m = toString n) : m = n := by
  have hdigits : Nat.toDigits 10 m = Nat.toDigits 10 n := by
    rw [← Nat.toList_repr, ← Nat.toList_repr]
    exact congrArg String.toList h
  rw [← Nat.ofDigitChars_ten_toDigits (n := m), hdigits, Nat.ofDigitChars_ten_toDigits]

def maxCacheableBlobSize : ℕ := 50*1024*1024

def blobCacheMaxBytes : ℕ := 500*1024*1024

/-- The objects of the buckets, and `_blob_cache`. -/
structure World where
  blobs : String × String → Option ByteArray
  cache : SizedCache CacheKey ByteArray blobCacheMaxBytes

abbrev StorageM := Prog World StorageError

def serializeObject (p : Packages) (data : Value) : StorageM ByteArray :=
  match p.dumps data with
  | none => throw (.typeError "Type is not JSON serializable")
  | some content => pure content

def deserializeObject (p : Packages) (content : ByteArray) : StorageM Value :=
  match p.loads content with
  | none => throw .jsonDecodeError
  | some data => pure data

def uploadFile (content : ByteArray) (bucket key : String) : StorageM PUnit := do
  let w ← get
  set { w with blobs := Function.update w.blobs (bucket,key) (some content) }

def downloadFile (bucket key : String) : StorageM ByteArray := do
  let w ← get
  match w.blobs (bucket,key) with
  | none => throw .fileNotFoundError
  | some content => pure content

def selectObjectContent (p : Packages) (bucket key expression : String) : StorageM ByteArray := do
  let w ← get
  match (w.blobs (bucket,key)).bind (p.select · expression) with
  | none => throw .clientError
  | some result => pure result

def cacheGet (key : CacheKey) : StorageM (Option ByteArray) := do
  let w ← get
  set { w with cache := (w.cache.get key).2 }
  pure (w.cache.get key).1

def cacheSet (key : CacheKey) (value : ByteArray) : StorageM PUnit := do
  let w ← get
  set { w with cache := w.cache.set ByteArray.size key value }

def cachedBlobDownload (sha256 bucket key : String) : StorageM ByteArray := do
  match ← cacheGet (.blob sha256) with
  | some cached => pure cached
  | none =>
    let content ← downloadFile bucket key
    -- a blob that is too large for the cache is only returned
    if content.size ≤ maxCacheableBlobSize then
      cacheSet (.blob sha256) content
    pure content

def selectExpression (localIndex : ℕ) : String :=
  "SELECT s.items[" ++ toString localIndex ++ "] FROM s3object s"

/-- `data.get("_1")` of what a query gives. -/
def selected : Value → StorageM Value
  | .dict entries => pure ((entries.lookup "_1").getD .none)
  | _ => throw .attributeError

def cachedSelectItem (p : Packages) (sha256 bucket key : String) (localIndex : ℕ) : StorageM Value := do
  match ← cacheGet (.select sha256 localIndex) with
  | some cached => deserializeObject p cached
  | none =>
    let result ← selectObjectContent p bucket key (selectExpression localIndex)
    let data ← deserializeObject p result
    let item ← selected data
    let itemBytes ← serializeObject p item
    if itemBytes.size ≤ maxCacheableBlobSize then
      cacheSet (.select sha256 localIndex) itemBytes
    pure item

end Storage
end Allama

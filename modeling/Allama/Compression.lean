import Mathlib.Logic.Function.Basic
import Mathlib.Data.Int.Notation
import Allama.Checked

/-! The Temporal payload codec that compresses large workflow payloads. -/
namespace Allama
open Function

/-- A Temporal payload: a map of metadata beside the data. -/
structure Payload where
  metadata : String → Option ByteArray
  data : ByteArray

inductive CompressionAlgorithm
  | zstd
  | gzip
  | brotli
deriving DecidableEq

variable (a : CompressionAlgorithm) {compressed : ByteArray}

namespace CompressionAlgorithm

/-- The values of `algorithm` that the codec knows. -/
def ofName : String → Option CompressionAlgorithm
  | "zstd" => some .zstd
  | "gzip" => some .gzip
  | "brotli" => some .brotli
  | _ => none

def encoding : CompressionAlgorithm → String
  | .zstd => "binary/zstd"
  | .gzip => "binary/gzip"
  | .brotli => "binary/brotli"

def ofEncoding : String → Option CompressionAlgorithm
  | "binary/zstd" => some .zstd
  | "binary/gzip" => some .gzip
  | "binary/brotli" => some .brotli
  | _ => none

@[simp] theorem ofEncoding_encoding : ofEncoding a.encoding = some a := by
  cases a <;> rfl

theorem encoding_of_ofEncoding {s : String} {a : CompressionAlgorithm} (h : ofEncoding s = some a) :
    s = a.encoding := by
  unfold ofEncoding at h
  split at h <;> first | (injection h with h; subst h; rfl) | cases h

theorem encoding_prefix : "binary/".toList <+: a.encoding.toList := by
  cases a <;> decide

theorem encoding_ne_null : a.encoding ≠ "binary/null" := by
  cases a <;> decide

theorem encoding_ne_empty : a.encoding.toUTF8.isEmpty = false := by
  cases a <;> decide

end CompressionAlgorithm

/-- The compression library (zstd at the level that the codec asks for). `none` is a call that raises. -/
structure Cramjam where
  compress : CompressionAlgorithm → ByteArray → Option ByteArray
  decompress : CompressionAlgorithm → ByteArray → Option ByteArray

def Cramjam.Inverts (lib : Cramjam) : Prop :=
  ∀ a data compressed, lib.compress a data = some compressed → lib.decompress a compressed = some data

/-- The settings `ALLAMA__CONTEXT_COMPRESSION_*`. -/
structure CompressionConfig where
  enabled : Bool
  thresholdKb : ℤ
  algorithm : String

structure CompressionPayloadCodec where
  enabled : Bool
  threshold : ℤ
  algorithm : String
  supported : enabled = true → (CompressionAlgorithm.ofName algorithm).isSome = true

def sizeText (n : ℕ) : ByteArray := (toString n).toUTF8

namespace CompressionPayloadCodec

def init (config : CompressionConfig) (thresholdBytes : Option ℤ) (algorithm : Option String)
    (enabled : Option Bool) : Except String CompressionPayloadCodec :=
  let enabled := enabled.getD config.enabled
  let threshold := thresholdBytes.getD (config.thresholdKb*1024)
  -- `algorithm or …`: an empty name is no name
  let algorithm := (algorithm.filter (· ≠ "")).getD config.algorithm
  if h : enabled = true → (CompressionAlgorithm.ofName algorithm).isSome = true then
    .ok ⟨enabled,threshold,algorithm,h⟩
  else .error ("Unsupported compression algorithm: " ++ algorithm)

/-- The metadata of a compressed payload. An encoding that is missing is kept as an empty one. -/
def bookkeeping (a : CompressionAlgorithm) (payload : Payload) (compressed : ByteArray) :
    String → Option ByteArray :=
  let originalEncoding := (payload.metadata "encoding").getD ByteArray.empty
  let metadata := update payload.metadata "encoding" (some a.encoding.toUTF8)
  let metadata := update metadata "original_encoding" (some originalEncoding)
  let metadata := update metadata "original_size" (some (sizeText payload.data.size))
  update metadata "compressed_size" (some (sizeText compressed.size))

/-- One turn of the loop of `encode`. -/
def encodePayload (c : CompressionPayloadCodec) (lib : Cramjam) (payload : Payload) : Payload :=
  if payload.data.size ≤ c.threshold then payload
  else
    match CompressionAlgorithm.ofName c.algorithm with
    | none => payload
    | some a =>
      match lib.compress a payload.data with
      | none => payload
      | some compressed => ⟨bookkeeping a payload compressed,compressed⟩

def encode (c : CompressionPayloadCodec) (lib : Cramjam) (payloads : List Payload) : List Payload :=
  if c.enabled then payloads.map (c.encodePayload lib) else payloads

end CompressionPayloadCodec

inductive CodecError
  | unicodeDecodeError
deriving DecidableEq

/-- `payload.metadata.get(key, b"").decode()`, or `none` where it raises. -/
def Payload.text (payload : Payload) (key : String) : Option String :=
  String.fromUTF8? ((payload.metadata key).getD ByteArray.empty)

def bookkeepingKeys : List String :=
  ["encoding", "original_encoding", "original_size", "compressed_size"]

namespace CompressionPayloadCodec

/-- The metadata without the bookkeeping, and with the encoding that was kept there. -/
def restored (payload : Payload) : String → Option ByteArray :=
  let originalEncoding := (payload.metadata "original_encoding").getD ByteArray.empty
  let metadata := fun key => if key ∈ bookkeepingKeys then none else payload.metadata key
  if originalEncoding.isEmpty then metadata
  else update metadata "encoding" (some originalEncoding)

/-- One turn of the loop of `decode`. It reads the encoding before its `try`. -/
def decodePayload (lib : Cramjam) (payload : Payload) : Except CodecError Payload :=
  match payload.text "encoding" with
  | none => .error .unicodeDecodeError
  | some encoding =>
    if ¬ "binary/".toList <+: encoding.toList then .ok payload
    else if encoding = "binary/null" then .ok payload
    else
      match CompressionAlgorithm.ofEncoding encoding with
      | none => .ok payload
      | some a =>
        match lib.decompress a payload.data with
        | none => .ok payload
        | some decompressed =>
          -- the two sizes are read for the log, inside the `try`
          if (payload.text "original_size").isSome ∧ (payload.text "compressed_size").isSome then
            .ok ⟨restored payload,decompressed⟩
          else .ok payload

def decode (lib : Cramjam) (payloads : List Payload) : Except CodecError (List Payload) :=
  payloads.mapM (decodePayload lib)

end CompressionPayloadCodec

@[simp] theorem fromUTF8?_toUTF8 (s : String) : String.fromUTF8? s.toUTF8 = some s := by
  simp only [String.fromUTF8?, String.toUTF8_eq_toByteArray, s.isValidUTF8, dite_true]
  rfl

theorem toUTF8_of_fromUTF8? {b : ByteArray} {s : String} (h : String.fromUTF8? b = some s) :
    s.toUTF8 = b := by
  simp only [String.fromUTF8?] at h
  split at h
  · injection h with h
    subst h
    rfl
  · cases h

theorem sizeText_isSome (n : ℕ) : (String.fromUTF8? (sizeText n)).isSome = true := by
  rw [sizeText, fromUTF8?_toUTF8]
  rfl

namespace CompressionPayloadCodec
variable {lib : Cramjam} {c : CompressionPayloadCodec} {p : Payload}

/-- The data that `decode` gets out of a payload that it takes for a compressed one. -/
def Decompresses (lib : Cramjam) (p : Payload) (data : ByteArray) : Prop :=
  ∃ a, p.text "encoding" = some a.encoding ∧ lib.decompress a p.data = some data ∧
    (p.text "original_size").isSome ∧ (p.text "compressed_size").isSome

theorem decodePayload_decompresses {data : ByteArray} (h : Decompresses lib p data) :
    decodePayload lib p = .ok ⟨restored p,data⟩ := by
  obtain ⟨a,he,hd,hs⟩ := h
  simp only [decodePayload, he, a.encoding_prefix, a.encoding_ne_null, hd, hs,
    CompressionAlgorithm.ofEncoding_encoding, not_true_eq_false, if_false, if_true, and_self]

theorem decodePayload_unchanged {encoding : String} (he : p.text "encoding" = some encoding)
    (h : ∀ data, ¬ Decompresses lib p data) : decodePayload lib p = .ok p := by
  simp only [decodePayload, he]
  by_cases hb : ¬ "binary/".toList <+: encoding.toList
  · rw [if_pos hb]
  rw [if_neg hb]
  by_cases hn : encoding = "binary/null"
  · rw [if_pos hn]
  rw [if_neg hn]
  cases ha : CompressionAlgorithm.ofEncoding encoding with
  | none => rfl
  | some a =>
    rw [CompressionAlgorithm.encoding_of_ofEncoding ha] at he
    cases hd : lib.decompress a p.data with
    | none => simp only [hd]
    | some data =>
      have hsizes : ¬ ((p.text "original_size").isSome ∧ (p.text "compressed_size").isSome) :=
        fun hs => h data ⟨a,he,hd,hs⟩
      simp only [hd, if_neg hsizes]

theorem restored_ne {data : ByteArray} (h : Decompresses lib p data) : restored p ≠ p.metadata := by
  intro hp
  obtain ⟨a,he,-⟩ := h
  have hencoding := toUTF8_of_fromUTF8? he
  have horiginal := congrFun hp "original_encoding"
  have hencoding' := congrFun hp "encoding"
  have hne := a.encoding_ne_empty
  unfold restored at horiginal hencoding'
  split_ifs at horiginal hencoding' with hempty
  · -- no encoding is put back, while the payload has one
    have hnone : p.metadata "encoding" = none := by
      rw [← hencoding']
      rfl
    rw [hencoding, hnone] at hne
    exact absurd hne (by decide)
  · -- an encoding is put back from a key that is not put back itself
    have hnone : p.metadata "original_encoding" = none := by
      rw [← horiginal]
      rfl
    rw [hnone] at hempty
    exact hempty rfl

theorem decodePayload_eq_ok_iff :
    decodePayload lib p = .ok p ↔
      (p.text "encoding").isSome ∧ ∀ data, ¬ Decompresses lib p data := by
  constructor
  · intro h
    constructor
    · cases he : p.text "encoding" with
      | none =>
        rw [decodePayload, he] at h
        cases h
      | some encoding => rfl
    · intro data hd
      rw [decodePayload_decompresses hd] at h
      injection h with h
      exact restored_ne hd (congrArg Payload.metadata h)
  · rintro ⟨he,h⟩
    obtain ⟨encoding,he⟩ := Option.isSome_iff_exists.mp he
    exact decodePayload_unchanged he h

/-- The data that `encode` puts in the place of the payload's. -/
def Compresses (c : CompressionPayloadCodec) (lib : Cramjam) (p : Payload) (a : CompressionAlgorithm)
    (compressed : ByteArray) : Prop :=
  c.enabled = true ∧ c.threshold < p.data.size ∧ CompressionAlgorithm.ofName c.algorithm = some a ∧
    lib.compress a p.data = some compressed

theorem encode_compresses {a : CompressionAlgorithm} (h : c.Compresses lib p a compressed) :
    c.encode lib [p] = [⟨bookkeeping a p compressed,compressed⟩] := by
  obtain ⟨hc,hsize,ha,hz⟩ := h
  rw [encode, if_pos hc, List.map_singleton, encodePayload, if_neg (Int.not_le.mpr hsize)]
  simp only [ha, hz]

theorem encode_unchanged (h : ∀ a compressed, ¬ c.Compresses lib p a compressed) :
    c.encode lib [p] = [p] := by
  unfold encode
  split_ifs with hc
  · rw [List.map_singleton, encodePayload]
    split_ifs with hsize
    · rfl
    · cases ha : CompressionAlgorithm.ofName c.algorithm with
      | none => rfl
      | some a =>
        cases hz : lib.compress a p.data with
        | none => simp only [hz]
        | some compressed => exact absurd ⟨hc,Int.not_le.mp hsize,ha,hz⟩ (h a compressed)
  · rfl

theorem decode_singleton {q : Payload} : decode lib [p] = .ok [q] ↔ decodePayload lib p = .ok q := by
  rw [decode, Checked.mapM_eq_ok, List.forall₂_cons]
  simp

/-- The payload has no key of the bookkeeping but an encoding, and that one is not empty. -/
def Unmarked (p : Payload) : Prop :=
  p.metadata "original_encoding" = none ∧ p.metadata "original_size" = none ∧
    p.metadata "compressed_size" = none ∧ ∀ encoding, p.metadata "encoding" = some encoding →
      encoding.isEmpty = false

theorem bookkeeping_decompresses (hlib : lib.Inverts) {a : CompressionAlgorithm}
    (hz : lib.compress a p.data = some compressed) :
    Decompresses lib ⟨bookkeeping a p compressed,compressed⟩ p.data := by
  refine ⟨a,?_,hlib a p.data compressed hz,?_,?_⟩
  · exact fromUTF8?_toUTF8 a.encoding
  · exact sizeText_isSome p.data.size
  · exact sizeText_isSome compressed.size

theorem bookkeeping_of_not_mem {a : CompressionAlgorithm} {key : String} (h : key ∉ bookkeepingKeys) :
    bookkeeping a p compressed key = p.metadata key := by
  simp only [bookkeepingKeys, List.mem_cons, List.not_mem_nil, or_false, not_or] at h
  obtain ⟨he,ho,hs,hc⟩ := h
  rw [bookkeeping, update_of_ne hc, update_of_ne hs, update_of_ne ho,
    update_of_ne he]

theorem restored_bookkeeping (compressed : ByteArray) (key : String) :
    restored ⟨bookkeeping a p compressed,compressed⟩ key =
      if key = "encoding" then (p.metadata key).filter (fun encoding => !encoding.isEmpty)
      else if key ∈ bookkeepingKeys then none else p.metadata key := by
  have hkept : (bookkeeping a p compressed "original_encoding").getD ByteArray.empty =
      (p.metadata "encoding").getD ByteArray.empty := rfl
  simp only [restored, hkept]
  by_cases hkey : key = "encoding"
  · subst hkey
    cases he : p.metadata "encoding" with
    | none => rfl
    | some encoding => cases hempty : encoding.isEmpty <;> simp [hempty, bookkeepingKeys, Option.filter]
  · have hrest : (if key ∈ bookkeepingKeys then none else bookkeeping a p compressed key) =
        if key ∈ bookkeepingKeys then none else p.metadata key := by
      split_ifs with hmem
      · rfl
      · exact bookkeeping_of_not_mem hmem
    rw [if_neg hkey, ← hrest]
    by_cases hempty : ((p.metadata "encoding").getD ByteArray.empty).isEmpty = true
    · rw [if_pos hempty]
    · rw [if_neg hempty]
      exact update_of_ne hkey _ _

theorem restored_bookkeeping_iff (compressed : ByteArray) :
    restored ⟨bookkeeping a p compressed,compressed⟩ = p.metadata ↔ Unmarked p := by
  rw [funext_iff]
  simp only [restored_bookkeeping]
  constructor
  · intro h
    refine ⟨(h "original_encoding").symm,(h "original_size").symm,(h "compressed_size").symm,?_⟩
    intro encoding he
    have hencoding := h "encoding"
    rw [if_pos rfl, he, Option.filter_eq_some_iff] at hencoding
    simpa using hencoding.2
  · rintro ⟨ho,hs,hc,he⟩ key
    by_cases hkey : key = "encoding"
    · subst hkey
      rw [if_pos rfl]
      cases hencoding : p.metadata "encoding" with
      | none => rfl
      | some encoding => simp [Option.filter, he encoding hencoding]
    · rw [if_neg hkey]
      split_ifs with hmem
      · simp only [bookkeepingKeys, List.mem_cons, List.not_mem_nil, or_false, hkey, false_or] at hmem
        rcases hmem with rfl | rfl | rfl
        · exact ho.symm
        · exact hs.symm
        · exact hc.symm
      · rfl

/-- When a payload comes back: a compressed one has to be unmarked, and any other one has to be left
alone by `decode`. -/
def Returns (c : CompressionPayloadCodec) (lib : Cramjam) (p : Payload) : Prop :=
  ((∃ a compressed, c.Compresses lib p a compressed) → Unmarked p) ∧
    ((∀ a compressed, ¬ c.Compresses lib p a compressed) →
      (p.text "encoding").isSome ∧ ∀ data, ¬ Decompresses lib p data)

/-- Encoding and decoding gives a payload back exactly when its own metadata is not in the way. -/
theorem decode_encode (hlib : lib.Inverts) :
    decode lib (c.encode lib [p]) = .ok [p] ↔ c.Returns lib p := by
  by_cases hcompressed : ∃ a compressed, c.Compresses lib p a compressed
  · obtain ⟨a,compressed,h⟩ := hcompressed
    have hreturns : c.Returns lib p ↔ Unmarked p :=
      ⟨fun hr => hr.1 ⟨a,compressed,h⟩,fun hu => ⟨fun _ => hu,fun hn => absurd h (hn a compressed)⟩⟩
    have hdecode := decodePayload_decompresses (bookkeeping_decompresses hlib h.2.2.2)
    rw [encode_compresses h, decode_singleton, hdecode, hreturns, ← restored_bookkeeping_iff a compressed]
    constructor
    · intro he
      injection he with he
      exact congrArg Payload.metadata he
    · intro he
      rw [he]
  · simp only [not_exists] at hcompressed
    have hreturns : c.Returns lib p ↔
        (p.text "encoding").isSome ∧ ∀ data, ¬ Decompresses lib p data :=
      ⟨fun hr => hr.2 hcompressed,
        fun hu => ⟨fun ⟨a,compressed,h⟩ => absurd h (hcompressed a compressed),fun _ => hu⟩⟩
    rw [encode_unchanged hcompressed, decode_singleton, decodePayload_eq_ok_iff, hreturns]

/-- A library whose compressed bytes are the bytes themselves. -/
def storing : Cramjam := ⟨fun _ data => some data,fun _ data => some data⟩

theorem storing_inverts : storing.Inverts := by
  intro a data compressed h
  exact h.symm

def gzipAbove (threshold : ℤ) : CompressionPayloadCodec := ⟨true,threshold,"gzip",fun _ => rfl⟩

def plainPayload : Payload :=
  ⟨fun key => if key = "encoding" then some "json/plain".toUTF8 else none,"[1]".toUTF8⟩

/-- The same payload with a key of its own that the codec uses too. -/
def sizedPayload : Payload :=
  ⟨update plainPayload.metadata "original_size" (some "large".toUTF8),plainPayload.data⟩

/-- A payload whose encoding is not a text. -/
def rawPayload : Payload :=
  ⟨fun key => if key = "encoding" then some ⟨#[255]⟩ else none,ByteArray.empty⟩

theorem decode_encode_plain :
    (gzipAbove 2).Compresses storing plainPayload .gzip plainPayload.data ∧
      decode storing ((gzipAbove 2).encode storing [plainPayload]) = .ok [plainPayload] := by
  have hcompresses : (gzipAbove 2).Compresses storing plainPayload .gzip plainPayload.data :=
    ⟨rfl,by decide,rfl,rfl⟩
  refine ⟨hcompresses,(decode_encode storing_inverts).mpr ⟨fun _ => ?_,fun hnone => ?_⟩⟩
  · refine ⟨rfl,rfl,rfl,fun encoding he => ?_⟩
    obtain rfl : "json/plain".toUTF8 = encoding := Option.some.inj he
    decide
  · exact absurd hcompresses (hnone _ _)

/-- A large payload loses its own key, and a small one cannot be decoded. -/
theorem decode_encode_changed : storing.Inverts ∧
    decode storing ((gzipAbove 2).encode storing [sizedPayload]) ≠ .ok [sizedPayload] ∧
    decode storing ((gzipAbove 2).encode storing [rawPayload]) ≠ .ok [rawPayload] := by
  refine ⟨storing_inverts,?_,?_⟩
  · intro h
    have hkey : (decode storing ((gzipAbove 2).encode storing [sizedPayload])).map
        (fun ps => ps.map fun q => q.metadata "original_size") = .ok [some "large".toUTF8] := by
      rw [h]
      rfl
    revert hkey
    decide
  · intro h
    have herror : (decode storing ((gzipAbove 2).encode storing [rawPayload])).isOk = true := by
      rw [h]
      rfl
    revert herror
    decide

end CompressionPayloadCodec
end Allama

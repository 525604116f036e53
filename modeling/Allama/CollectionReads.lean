import Mathlib.Data.List.Flatten
import Allama.Collections

/-! Reads of a collection never show where its chunks end, whatever the cache holds. -/
namespace Allama
namespace Storage
open Chunks Stateful
variable {manifest : CollectionManifestV1} {coll : CollectionObject} (offset : ℕ)

/-- What is assumed of the packages: JSON can be read back, the elements of a document that can be dumped
can be dumped too, and the query for an item of a document gives it as `_1`. -/
structure Packages.Lawful (p : Packages) : Prop where
  loads_dumps : ∀ data content, p.dumps data = some content → p.loads content = some data
  dumps_item : ∀ entries key items item, (p.dumps (.dict entries)).isSome →
    entries.lookup key = some (.list items) → item ∈ items → (p.dumps item).isSome
  select_item : ∀ content entries items k item, p.loads content = some (.dict entries) →
    entries.lookup "items" = some (.list items) → items[k]? = some item →
    ∃ result, p.select content (selectExpression k) = some result ∧
      p.loads result = some (.dict [("_1",item)])

/-- What is cached is content of the store, or an item of it, under the hash of that content. -/
structure Coherent (p : Packages) (w : World) : Prop where
  blob : ∀ sha256 v, w.cache.values (.blob sha256) = some v →
    p.sha256 v = sha256 ∧ ∃ key, w.blobs key = some v
  select : ∀ sha256 i v, w.cache.values (.select sha256 i) = some v →
    ∃ key content entries items item, w.blobs key = some content ∧ p.sha256 content = sha256 ∧
      p.loads content = some (.dict entries) ∧ entries.lookup "items" = some (.list items) ∧
      items[i]? = some item ∧ p.loads v = some item

/-- No two contents of the store have one hash. -/
def Distinct (p : Packages) (w : World) : Prop :=
  ∀ key key' content content', w.blobs key = some content → w.blobs key' = some content' →
    p.sha256 content = p.sha256 content' → content = content'

/-- The document behind a reference. -/
def Holds (p : Packages) (w : World) (ref : ObjectRef) (document : Value) : Prop :=
  ∃ content, w.blobs (ref.bucket,ref.key) = some content ∧ ref.sha256 = p.sha256 content ∧
    p.loads content = some document

def Reading (p : Packages) (w s : World) : Prop := s.blobs = w.blobs ∧ Coherent p s

variable {p : Packages} {w : World} {ref : ObjectRef}

theorem gives_serializeObject {I : World → Prop} {data : Value} {content : ByteArray}
    (h : p.dumps data = some content) : Gives I (serializeObject p data) (.ok content) := by
  rw [serializeObject, h]
  exact Gives.pure content

theorem gives_deserializeObject {I : World → Prop} {content : ByteArray} {data : Value}
    (h : p.loads content = some data) : Gives I (deserializeObject p content) (.ok data) := by
  rw [deserializeObject, h]
  exact Gives.pure data

theorem gives_validated {α : Type} {I : World → Prop} {model : String} {data : Option α} {a : α}
    (h : data = some a) : Gives I (validated model data) (.ok a) := by
  rw [h]
  exact Gives.pure a

theorem coherent_of_values {w w' : World} (h : Coherent p w) (hblobs : w'.blobs = w.blobs)
    (hvalues : ∀ key v, w'.cache.values key = some v → w.cache.values key = some v) : Coherent p w' := by
  constructor
  · intro sha256 v hv
    rw [hblobs]
    exact h.blob sha256 v (hvalues _ v hv)
  · intro sha256 i v hv
    rw [hblobs]
    exact h.select sha256 i v (hvalues _ v hv)

theorem exec_cacheGet (key : CacheKey) (s : World) :
    exec (cacheGet key) s = (.ok (s.cache.values key),{ s with cache := (s.cache.get key).2 }) := by
  rw [← SizedCache.get_fst]
  rfl

theorem reading_cacheGet {s : World} (h : Reading p w s) (key : CacheKey) :
    Reading p w { s with cache := (s.cache.get key).2 } := by
  refine ⟨h.1,coherent_of_values h.2 rfl ?_⟩
  intro key' v hv
  rwa [SizedCache.get_values] at hv

theorem gives_cacheSet_blob {bucket key : String} {content : ByteArray}
    (hblob : w.blobs (bucket,key) = some content) :
    Gives (Reading p w) (cacheSet (.blob (p.sha256 content)) content) (.ok ⟨⟩) := by
  intro s hs
  refine ⟨rfl,hs.1,?_⟩
  constructor
  · intro sha256 v hv
    rcases SizedCache.set_values hv with ⟨hkey,rfl⟩ | hv
    · obtain rfl : sha256 = p.sha256 v := by injection hkey
      exact ⟨rfl,(bucket,key),(congrFun hs.1 _).trans hblob⟩
    · exact hs.2.blob sha256 v hv
  · intro sha256 i v hv
    rcases SizedCache.set_values hv with ⟨hkey,-⟩ | hv
    · cases hkey
    · exact hs.2.select sha256 i v hv

theorem gives_cachedBlobDownload (hd : Distinct p w) {bucket key : String} {content : ByteArray}
    (hblob : w.blobs (bucket,key) = some content) :
    Gives (Reading p w) (cachedBlobDownload (p.sha256 content) bucket key) (.ok content) := by
  intro s hs
  have hget := reading_cacheGet hs (.blob (p.sha256 content))
  rw [cachedBlobDownload, exec_bind, exec_cacheGet]
  cases hv : s.cache.values (.blob (p.sha256 content)) with
  | some v =>
    obtain ⟨hsha,key',hkey'⟩ := hs.2.blob _ v hv
    rw [hs.1] at hkey'
    obtain rfl : v = content := hd key' (bucket,key) v content hkey' hblob hsha
    exact ⟨rfl,hget⟩
  | none =>
    have hdownload : Gives (Reading p w) (downloadFile bucket key) (.ok content) := by
      intro s' hs'
      have hcontent : s'.blobs (bucket,key) = some content := (congrFun hs'.1 _).trans hblob
      rw [downloadFile, exec_bind, exec_get]
      simp only [hcontent]
      exact ⟨rfl,hs'⟩
    apply (hdownload.bind ?_) _ hget
    split_ifs
    · exact (gives_cacheSet_blob hblob).bind (Gives.pure content)
    · exact Gives.pure content

theorem gives_fetchDocument (hd : Distinct p w) {document : Value} (h : Holds p w ref document)
    (what : String) : Gives (Reading p w) (fetchDocument p what ref) (.ok document) := by
  obtain ⟨content,hblob,hsha,hloads⟩ := h
  rw [fetchDocument, hsha]
  apply (gives_cachedBlobDownload hd hblob).bind
  rw [if_pos rfl]
  exact gives_deserializeObject hloads

theorem gives_cacheSet_select {chunk : CollectionChunkV1} {k : ℕ} {item : Value} {itemBytes : ByteArray}
    (h : Holds p w ref chunk.modelDump) (hitem : chunk.items[k]? = some item)
    (hloads : p.loads itemBytes = some item) :
    Gives (Reading p w) (cacheSet (.select ref.sha256 k) itemBytes) (.ok ⟨⟩) := by
  intro s hs
  refine ⟨rfl,hs.1,?_⟩
  obtain ⟨content,hblob,hsha,hchunk⟩ := h
  constructor
  · intro sha256 v hv
    rcases SizedCache.set_values hv with ⟨hkey,-⟩ | hv
    · cases hkey
    · exact hs.2.blob sha256 v hv
  · intro sha256 i v hv
    rcases SizedCache.set_values hv with ⟨hkey,rfl⟩ | hv
    · injection hkey with hsha' hi
      subst hsha' hi
      exact ⟨_,content,_,chunk.items,item,(congrFun hs.1 _).trans hblob,hsha.symm,hchunk,rfl,hitem,hloads⟩
    · exact hs.2.select sha256 i v hv

/-- An item is selected from its chunk, or found in the cache. -/
theorem gives_cachedSelectItem (hp : p.Lawful) (hd : Distinct p w) {chunk : CollectionChunkV1} {k : ℕ}
    {item : Value} (h : Holds p w ref chunk.modelDump) (hitem : chunk.items[k]? = some item)
    (hdumps : (p.dumps item).isSome) :
    Gives (Reading p w) (cachedSelectItem p ref.sha256 ref.bucket ref.key k) (.ok item) := by
  intro s hs
  have hget := reading_cacheGet hs (.select ref.sha256 k)
  obtain ⟨content,hblob,hsha,hchunk⟩ := h
  rw [cachedSelectItem, exec_bind, exec_cacheGet]
  cases hv : s.cache.values (.select ref.sha256 k) with
  | some v =>
    -- the cached bytes are an item of a content with this hash, and that is the chunk
    obtain ⟨key,content',entries,items,item',hcontent',hsha',hentries,hitems,hitem',hloads⟩ :=
      hs.2.select _ _ v hv
    rw [hs.1] at hcontent'
    obtain rfl : content' = content := hd key _ content' content hcontent' hblob (hsha'.trans hsha)
    obtain rfl : entries = _ := Value.dict.inj (Option.some.inj (hentries.symm.trans hchunk))
    obtain rfl : items = chunk.items := Value.list.inj (Option.some.inj hitems).symm
    obtain rfl : item' = item := Option.some.inj (hitem'.symm.trans hitem)
    exact gives_deserializeObject hloads _ hget
  | none =>
    obtain ⟨result,hselect,hresult⟩ := hp.select_item content _ chunk.items k item hchunk rfl hitem
    obtain ⟨itemBytes,hitemBytes⟩ := Option.isSome_iff_exists.mp hdumps
    have hquery : Gives (Reading p w)
        (selectObjectContent p ref.bucket ref.key (selectExpression k)) (.ok result) := by
      intro s' hs'
      have hcontent : (s'.blobs (ref.bucket,ref.key)).bind (p.select · (selectExpression k)) = some result := by
        rw [hs'.1, hblob]
        exact hselect
      rw [selectObjectContent, exec_bind, exec_get]
      simp only [hcontent]
      exact ⟨rfl,hs'⟩
    have hselected : Gives (Reading p w) (selected (.dict [("_1",item)])) (.ok item) := Gives.pure item
    have hcached := gives_cacheSet_select ⟨content,hblob,hsha,hchunk⟩ hitem
      (hp.loads_dumps item itemBytes hitemBytes)
    refine (hquery.bind ((gives_deserializeObject hresult).bind (hselected.bind
      ((gives_serializeObject hitemBytes).bind ?_)))) _ hget
    split_ifs
    · exact hcached.bind (Gives.pure item)
    · exact Gives.pure item

/-- The blobs of a collection: the manifest, and in each chunk the items from its start on. -/
structure Stored (p : Packages) (w : World) (coll : CollectionObject) (items : List Value) : Prop where
  count : coll.count = items.length
  chunkSize : 0 < coll.chunkSize
  dumps : ∀ item ∈ items, (p.dumps item).isSome
  documents : ∃ refs : List ObjectRef, (∀ ref ∈ refs, ref.backend = "s3") ∧
    Holds p w coll.manifestRef (CollectionManifestV1.mk coll.count coll.chunkSize coll.elementKind refs).modelDump ∧
    ∀ i, i*coll.chunkSize < items.length → ∃ ref, refs[i]? = some ref ∧
      Holds p w ref (CollectionChunkV1.mk (i*coll.chunkSize) (chunk coll.chunkSize i items)).modelDump

theorem mapM_modelValidate {refs : List ObjectRef} (h : ∀ ref ∈ refs, ref.backend = "s3") :
    (refs.map ObjectRef.modelDump).mapM ObjectRef.modelValidate = some refs := by
  induction refs with
  | nil => rfl
  | cons ref refs ih =>
    rw [List.map_cons, List.mapM_cons, ObjectRef.modelValidate_modelDump (h ref List.mem_cons_self),
      ih fun r hr => h r (List.mem_cons_of_mem _ hr)]
    rfl

theorem CollectionManifestV1.modelValidate_modelDump
    (h : ∀ ref ∈ manifest.chunks, ref.backend = "s3") :
    modelValidate manifest.modelDump = some manifest := by
  obtain ⟨count,chunkSize,elementKind,refs⟩ := manifest
  have hchunks := mapM_modelValidate h
  have hkind := ElementKind.ofText_text elementKind
  have hread : modelValidate (modelDump ⟨count,chunkSize,elementKind,refs⟩) =
      (ElementKind.ofText elementKind.text).bind fun kind =>
        ((refs.map ObjectRef.modelDump).mapM ObjectRef.modelValidate).bind fun chunks =>
          some ⟨count,chunkSize,kind,chunks⟩ := rfl
  rw [hread, hkind, Option.bind_some, hchunks, Option.bind_some]

theorem gives_fetchManifest (hd : Distinct p w) (h : Holds p w coll.manifestRef manifest.modelDump)
    (hs3 : ∀ ref ∈ manifest.chunks, ref.backend = "s3") :
    Gives (Reading p w) (fetchManifest p coll) (.ok manifest) := by
  apply (gives_fetchDocument hd h _).bind
  exact gives_validated (CollectionManifestV1.modelValidate_modelDump hs3)

theorem gives_fetchChunk (hd : Distinct p w) {chunk : CollectionChunkV1}
    (h : Holds p w ref chunk.modelDump) : Gives (Reading p w) (fetchChunk p ref) (.ok chunk) := by
  apply (gives_fetchDocument hd h _).bind
  exact gives_validated (CollectionChunkV1.modelValidate_modelDump chunk)

theorem gives_chunkRef {I : World → Prop} {i : ℕ} (h : manifest.chunks[i]? = some ref) :
    Gives I (chunkRef manifest i) (.ok ref) := by
  rw [chunkRef, pyGet?_natCast, h]
  exact Gives.pure ref

/-- A chunk gives what it has of the window from `offset` to `stop`. -/
theorem gives_pageOfChunk (hd : Distinct p w) {items : List Value} {size i offset : ℕ} {stop : ℕ}
    (hi : i*size < stop) (href : manifest.chunks[i]? = some ref)
    (h : Holds p w ref (CollectionChunkV1.mk (i*size) (chunk size i items)).modelDump) :
    Gives (Reading p w) (pageOfChunk p manifest size offset stop i)
      (.ok (slice (offset-i*size) (stop-i*size) (chunk size i items))) := by
  refine (gives_chunkRef href).bind ((gives_fetchChunk hd h).bind ?_)
  have hstart : max 0 ((offset : ℤ)-i*size) = (offset-i*size : ℕ) := by
    have : ((i*size : ℕ) : ℤ) = i*size := Int.natCast_mul i size
    omega
  have hend : min (((chunk size i items).length : ℕ) : ℤ) ((stop : ℤ)-i*size) =
      (min (stop-i*size) (chunk size i items).length : ℕ) := by
    have : ((i*size : ℕ) : ℤ) = i*size := Int.natCast_mul i size
    omega
  have hslice : pySlice (chunk size i items) (max 0 ((offset : ℤ)-i*size))
      (min (((chunk size i items).length : ℕ) : ℤ) ((stop : ℤ)-i*size)) =
      slice (offset-i*size) (stop-i*size) (chunk size i items) := by
    rw [hstart, hend, pySlice_natCast, slice_min_length]
  rw [← hslice]
  exact Gives.pure _

def pageStop (count : ℕ) (offset : ℕ) (limit : Option ℤ) : ℤ := offset+limit.getD (count-offset)

/-- The chunks from that of the first position to that of the last give the window between them. -/
theorem gives_pages (hd : Distinct p w) {items : List Value} (h : Stored p w coll items)
    {refs : List ObjectRef}
    (hchunks : ∀ i, i*coll.chunkSize < items.length → ∃ ref, refs[i]? = some ref ∧
      Holds p w ref (CollectionChunkV1.mk (i*coll.chunkSize) (chunk coll.chunkSize i items)).modelDump)
    (offset : ℕ) {stop : ℤ} (hstop : stop ≤ items.length) :
    ∃ pages, pages.flatten = slice offset stop.toNat items ∧
      Gives (Reading p w)
        ((pyRange ((offset : ℤ).fdiv coll.chunkSize) ((stop-1).fdiv coll.chunkSize+1)).mapM
          (pageOfChunk p ⟨coll.count,coll.chunkSize,coll.elementKind,refs⟩ coll.chunkSize offset stop))
        (.ok pages) := by
  have hsize := h.chunkSize
  by_cases hneg : stop ≤ 0
  · -- the page ends before the first item: no chunk is read
    have hbefore : (stop-1).fdiv coll.chunkSize < 0 := Int.fdiv_neg_of_neg_of_pos (by omega) (by omega)
    have hfirst : 0 ≤ (offset : ℤ).fdiv coll.chunkSize := Int.fdiv_nonneg (by omega) (by omega)
    refine ⟨[],?_,?_⟩
    · rw [slice_eq_nil (by omega), List.flatten_nil]
    · rw [pyRange_eq_nil (by omega)]
      exact Gives.pure []
  obtain ⟨e,rfl⟩ : ∃ e : ℕ, stop = e := ⟨stop.toNat,by omega⟩
  have hlast : ((e : ℤ)-1).fdiv coll.chunkSize+1 = (((e-1)/coll.chunkSize+1 : ℕ) : ℤ) := by
    have he : ((e : ℤ)-1) = (e-1 : ℕ) := by omega
    rw [he, ← Int.ofNat_fdiv]
    omega
  rw [← Int.ofNat_fdiv, hlast, pyRange_natCast]
  refine ⟨(List.range' (offset/coll.chunkSize) ((e-1)/coll.chunkSize+1-offset/coll.chunkSize)).map fun i =>
      slice (offset-i*coll.chunkSize) (e-i*coll.chunkSize) (chunk coll.chunkSize i items),?_,?_⟩
  · rw [← List.flatMap_def, page_of_chunks hsize, Int.toNat_natCast]
  · apply Gives.mapM
    rw [List.forall₂_map_left_iff, List.forall₂_map_right_iff, List.forall₂_same]
    intro i hi
    have hrange := List.mem_range'_1.mp hi
    have hstart : i*coll.chunkSize < e := by
      have hle : i ≤ (e-1)/coll.chunkSize := by omega
      have := (Nat.le_div_iff_mul_le hsize).mp hle
      omega
    obtain ⟨ref,href,hholds⟩ := hchunks i (by omega)
    exact gives_pageOfChunk hd hstart href hholds

theorem gives_getCollectionPage (hd : Distinct p w) {items : List Value} (h : Stored p w coll items)
    (offset : ℕ) (limit : Option ℤ) :
    Gives (Reading p w) (getCollectionPage p coll offset limit)
      (.ok (slice offset (pageStop items.length offset limit).toNat items)) := by
  obtain ⟨refs,hs3,hmanifest,hchunks⟩ := h.documents
  have hcount := h.count
  have hsize := h.chunkSize
  rw [getCollectionPage, if_neg (by omega)]
  by_cases hpast : (coll.count : ℤ) ≤ offset
  · -- an offset behind the last item
    have hnil : slice offset (pageStop items.length offset limit).toNat items = [] := by
      rw [← slice_min_length]
      apply slice_eq_nil
      omega
    rw [if_pos hpast, hnil]
    exact Gives.pure []
  rw [if_neg hpast]
  by_cases hzero : limit = some 0
  · have hnil : slice offset (pageStop items.length offset limit).toNat items = [] := by
      apply slice_eq_nil
      rw [pageStop, hzero]
      simp
    rw [if_pos hzero, hnil]
    exact Gives.pure []
  rw [if_neg hzero]
  apply (gives_fetchManifest hd hmanifest hs3).bind
  rw [if_neg (by omega)]
  have hwindow : slice offset (pageStop items.length offset limit).toNat items =
      slice offset (min (offset+limit.getD (coll.count-offset)) (coll.count : ℤ)).toNat items := by
    rw [← slice_min_length, pageStop, hcount]
    congr 1
    omega
  have hstop : min (offset+limit.getD (coll.count-offset)) (coll.count : ℤ) ≤ items.length := by omega
  obtain ⟨pages,hpages,hgives⟩ := gives_pages hd h hchunks offset hstop
  rw [hwindow, ← hpages]
  exact hgives.bind (Gives.pure _)

theorem gives_getCollectionItem_of_lt (hp : p.Lawful) (hd : Distinct p w) {coll : CollectionObject}
    {items : List Value} (h : Stored p w coll items) {index : ℤ} {k : ℕ} {item : Value}
    (hindex : (if index < 0 then coll.count+index else index) = k) (hitem : items[k]? = some item) :
    Gives (Reading p w) (getCollectionItem p coll index) (.ok item) := by
  obtain ⟨refs,hs3,hmanifest,hchunks⟩ := h.documents
  have hsize := h.chunkSize
  obtain ⟨hk,hmem⟩ := List.getElem?_eq_some_iff.mp hitem
  have hrange : ¬ ((k : ℤ) < 0 ∨ (coll.count : ℤ) ≤ k) := by
    have := h.count
    omega
  have hbefore : k/coll.chunkSize*coll.chunkSize < items.length :=
    Nat.lt_of_le_of_lt (Nat.div_mul_le_self k coll.chunkSize) hk
  obtain ⟨ref,href,hholds⟩ := hchunks (k/coll.chunkSize) hbefore
  have hlocal : (chunk coll.chunkSize (k/coll.chunkSize) items)[k%coll.chunkSize]? = some item := by
    rw [getElem?_chunk hsize, hitem]
  have hdumps : (p.dumps item).isSome := h.dumps item (List.mem_of_getElem? hitem)
  have hmod : ((k : ℤ).fmod coll.chunkSize).toNat = k%coll.chunkSize := by
    rw [← Int.ofNat_fmod, Int.toNat_natCast]
  rw [getCollectionItem]
  simp only [hindex]
  rw [if_neg hrange]
  apply (gives_fetchManifest hd hmanifest hs3).bind
  rw [if_neg (by omega), ← Int.ofNat_fdiv, hmod]
  apply (gives_chunkRef href).bind
  exact gives_cachedSelectItem hp hd hholds hlocal hdumps

theorem gives_getCollectionItem (hp : p.Lawful) (hd : Distinct p w) {coll : CollectionObject}
    {items : List Value} (h : Stored p w coll items) {index : ℤ} {item : Value}
    (hitem : pyGet? items index = some item) :
    Gives (Reading p w) (getCollectionItem p coll index) (.ok item) := by
  have hcount := h.count
  unfold pyGet? at hitem
  split_ifs at hitem with hneg hfar
  · apply gives_getCollectionItem_of_lt hp hd h ?_ hitem
    rw [if_pos hneg]
    omega
  · apply gives_getCollectionItem_of_lt hp hd h ?_ hitem
    rw [if_neg hneg]
    omega

theorem gives_getCollectionItem_error {I : World → Prop} {items : List Value}
    (h : coll.count = items.length) {index : ℤ} (hitem : pyGet? items index = none) :
    ∃ message, Gives I (getCollectionItem p coll index) (.error (.indexError message)) := by
  have hrange : (if index < 0 then coll.count+index else index) < 0 ∨
      (coll.count : ℤ) ≤ if index < 0 then coll.count+index else index := by
    unfold pyGet? at hitem
    split_ifs at hitem ⊢ with hneg hfar
    · omega
    · have := List.getElem?_eq_none_iff.mp hitem
      omega
    · have := List.getElem?_eq_none_iff.mp hitem
      omega
  unfold getCollectionItem
  rw [if_pos hrange]
  exact ⟨_,Gives.throw _⟩

theorem slice_pageStop {items : List Value} {limit : ℤ} (h : 0 ≤ limit) :
    slice offset (pageStop items.length offset (some limit)).toNat items =
      pySlice items offset (offset+limit) := by
  obtain ⟨n,rfl⟩ : ∃ n : ℕ, limit = n := ⟨limit.toNat,by omega⟩
  have hstop : (offset : ℤ)+n = (offset+n : ℕ) := by omega
  rw [pageStop, Option.getD_some, hstop, pySlice_natCast, Int.toNat_natCast]

theorem slice_pageStop_none {items : List Value} :
    slice offset (pageStop items.length offset none).toNat items = items.drop offset := by
  have hstop : (pageStop items.length offset none).toNat = items.length := by
    rw [pageStop, Option.getD_none]
    omega
  rw [hstop, slice, List.take_length]

theorem slice_pageStop_neg {items : List Value} {limit : ℤ} (h : limit < 0) :
    slice offset (pageStop items.length offset (some limit)).toNat items = [] := by
  apply slice_eq_nil
  rw [pageStop, Option.getD_some]
  omega

/-- An element that is a handle, and the value that the backend retrieves for it. -/
def ElementGives (p : Packages) (w : World) (backend : Backend) (item v : Value) : Prop :=
  ∃ stored, validateStoredObject item = some stored ∧
    Gives (Reading p w) (retrieve p backend stored) (.ok v)

theorem gives_materialize_values (hd : Distinct p w) {items : List Value}
    (h : Stored p w coll items) (hkind : coll.elementKind = .value) (backend : Backend) (offset : ℕ)
    (limit : Option ℤ) :
    Gives (Reading p w) (materializeCollectionValues p backend coll offset limit)
      (.ok (slice offset (pageStop items.length offset limit).toNat items)) := by
  rw [materializeCollectionValues, hkind]
  exact (gives_getCollectionPage hd h offset limit).bind (Gives.pure _)

theorem gives_materialize_objects (hd : Distinct p w) {items : List Value}
    (h : Stored p w coll items) (hkind : coll.elementKind = .storedObject) (backend : Backend)
    (offset : ℕ) (limit : Option ℤ) {vs : List Value} (hvs : List.Forall₂ (ElementGives p w backend)
      (slice offset (pageStop items.length offset limit).toNat items) vs) :
    Gives (Reading p w) (materializeCollectionValues p backend coll offset limit) (.ok vs) := by
  rw [materializeCollectionValues, hkind]
  apply (gives_getCollectionPage hd h offset limit).bind
  apply Gives.mapM
  apply hvs.imp
  rintro item v ⟨stored,hstored,hv⟩
  exact (gives_validated hstored).bind hv

end Storage
end Allama

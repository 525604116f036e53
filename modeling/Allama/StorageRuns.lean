import Mathlib.Algebra.Ring.Nat
import Allama.CollectionReads
import Allama.Runs

/-! Runs of the storage: what is stored stays readable through any later stores, reads and expiries. -/
namespace Allama
namespace Storage
open Chunks Function Stateful

def Grows (w w' : World) : Prop :=
  w'.cache = w.cache ∧ ∀ key content, w.blobs key = some content → w'.blobs key = some content

theorem Grows.refl (w : World) : Grows w w := ⟨rfl,fun _ _ h => h⟩

theorem Grows.trans {w w' w'' : World} (h : Grows w w') (h' : Grows w' w'') : Grows w w'' :=
  ⟨h'.1.trans h.1,fun key content hc => h'.2 key content (h.2 key content hc)⟩

variable {p : Packages} {w w' : World} {ref : ObjectRef} {coll : CollectionObject} {items : List Value}

theorem Coherent.grows (h : Coherent p w) (hw : Grows w w') : Coherent p w' := by
  constructor
  · intro sha256 v hv
    rw [hw.1] at hv
    obtain ⟨hsha,key,hkey⟩ := h.blob sha256 v hv
    exact ⟨hsha,key,hw.2 key v hkey⟩
  · intro sha256 i v hv
    rw [hw.1] at hv
    obtain ⟨key,content,entries,items,item,hkey,hrest⟩ := h.select sha256 i v hv
    exact ⟨key,content,entries,items,item,hw.2 key content hkey,hrest⟩

theorem Holds.mono {document : Value} (h : Holds p w ref document)
    (hw : ∀ key content, w.blobs key = some content → w'.blobs key = some content) :
    Holds p w' ref document := by
  obtain ⟨content,hblob,hrest⟩ := h
  exact ⟨content,hw _ content hblob,hrest⟩

theorem Stored.mono (h : Stored p w coll items)
    (hw : ∀ key content, w.blobs key = some content → w'.blobs key = some content) :
    Stored p w' coll items := by
  obtain ⟨refs,hs3,hmanifest,hchunks⟩ := h.documents
  refine ⟨h.count,h.chunkSize,h.dumps,refs,hs3,hmanifest.mono hw,?_⟩
  intro i hi
  obtain ⟨ref,href,hholds⟩ := hchunks i hi
  exact ⟨ref,href,hholds.mono hw⟩

theorem exec_uploadDocument {document : Value} {content : ByteArray} (h : p.dumps document = some content)
    (bucket key : String) (w : World) :
    exec (uploadDocument p document bucket key) w =
      (.ok ⟨"s3",bucket,key,content.size,p.sha256 content⟩,
        { w with blobs := update w.blobs (bucket,key) (some content) }) := by
  rw [uploadDocument, serializeObject, h]
  rfl

theorem exec_uploadDocument_error {document : Value} (h : p.dumps document = none) (bucket key : String)
    (w : World) : ∃ e, exec (uploadDocument p document bucket key) w = (.error e,w) := by
  rw [uploadDocument, serializeObject, h]
  exact ⟨_,rfl⟩

theorem grows_update {bucketKey : String × String} (hfresh : w.blobs bucketKey = none) (content : ByteArray) :
    Grows w { w with blobs := update w.blobs bucketKey (some content) } := by
  refine ⟨rfl,?_⟩
  intro key content' hkey
  have hne : key ≠ bucketKey := by
    rintro rfl
    rw [hfresh] at hkey
    cases hkey
  exact (update_of_ne hne _ _).trans hkey

/-- What documents uploaded under fresh keys leave behind. -/
structure Uploaded (p : Packages) (bucket : String) (keys : ℕ → String) (documents : ℕ → Value) (is : List ℕ)
    (w : World) (result : Except StorageError (List ObjectRef) × World) : Prop where
  grows : Grows w result.2
  others : ∀ key, (∀ i ∈ is, key ≠ (bucket,keys i)) → result.2.blobs key = w.blobs key
  holds : ∀ refs, result.1 = .ok refs → List.Forall₂ (fun i ref => ref.backend = "s3" ∧
    Holds p result.2 ref (documents i) ∧ (p.dumps (documents i)).isSome) is refs
  returns : (∀ i ∈ is, (p.dumps (documents i)).isSome) → ∃ refs, result.1 = .ok refs

theorem uploaded_mapM (hp : p.Lawful) {bucket : String} {keys : ℕ → String} {documents : ℕ → Value}
    (hkeys : Function.Injective keys) {is : List ℕ} (hnodup : is.Nodup) (w : World)
    (hfresh : ∀ i ∈ is, w.blobs (bucket,keys i) = none) :
    Uploaded p bucket keys documents is w
      (exec (is.mapM fun i => uploadDocument p (documents i) bucket (keys i)) w) := by
  induction is generalizing w with
  | nil =>
    refine ⟨Grows.refl w,fun _ _ => rfl,?_,fun _ => ⟨[],rfl⟩⟩
    intro refs hrefs
    obtain rfl : [] = refs := by injection hrefs
    exact .nil
  | cons i is ih =>
    rw [List.mapM_cons, exec_bind]
    cases hcontent : p.dumps (documents i) with
    | none =>
      obtain ⟨e,he⟩ := exec_uploadDocument_error hcontent bucket (keys i) w
      rw [he]
      refine ⟨Grows.refl w,fun _ _ => rfl,?_,?_⟩
      · intro refs hrefs
        cases hrefs
      · intro hdumps
        have := hdumps i List.mem_cons_self
        rw [hcontent] at this
        cases this
    | some content =>
      obtain ⟨hi,hnodup⟩ := List.nodup_cons.mp hnodup
      have hw := grows_update (hfresh i List.mem_cons_self) content
      rw [exec_uploadDocument hcontent]
      simp only
      rw [exec_bind]
      have hstill : ∀ key, key ≠ (bucket,keys i) →
          update w.blobs (bucket,keys i) (some content) key = w.blobs key :=
        fun key hkey => update_of_ne hkey _ _
      have hrest := ih hnodup { w with blobs := update w.blobs (bucket,keys i) (some content) } <| by
        intro j hj
        have hne : (bucket,keys j) ≠ (bucket,keys i) := by
          intro h
          obtain rfl : j = i := hkeys (Prod.mk.inj h).2
          exact hi hj
        exact (hstill _ hne).trans (hfresh j (List.mem_cons_of_mem i hj))
      have hothers : ∀ key, (∀ j ∈ i :: is, key ≠ (bucket,keys j)) →
          (exec (is.mapM fun i => uploadDocument p (documents i) bucket (keys i))
            { w with blobs := update w.blobs (bucket,keys i) (some content) }).2.blobs key =
              w.blobs key := by
        intro key hkey
        rw [hrest.others key fun j hj => hkey j (List.mem_cons_of_mem i hj)]
        exact hstill key (hkey i List.mem_cons_self)
      rcases hexec : exec (is.mapM fun i => uploadDocument p (documents i) bucket (keys i))
        { w with blobs := update w.blobs (bucket,keys i) (some content) } with ⟨e | refs,w₂⟩
      · rw [hexec] at hrest hothers
        refine ⟨hw.trans hrest.grows,hothers,?_,?_⟩
        · intro refs hrefs
          cases hrefs
        · intro hdumps
          obtain ⟨refs,hrefs⟩ := hrest.returns fun j hj => hdumps j (List.mem_cons_of_mem i hj)
          cases hrefs
      · rw [hexec] at hrest hothers
        refine ⟨hw.trans hrest.grows,hothers,?_,fun _ => ⟨_,rfl⟩⟩
        intro refs' hrefs'
        cases hrefs'
        refine .cons ⟨rfl,?_,Option.isSome_iff_exists.mpr ⟨content,hcontent⟩⟩ (hrest.holds refs rfl)
        exact ⟨content,hrest.grows.2 _ _ (update_self _ _ _),rfl,hp.loads_dumps _ _ hcontent⟩

theorem chunkKey_injective (keyPrefix : String) : Function.Injective (chunkKey keyPrefix) := by
  intro i j h
  have hlists := congrArg String.toList h
  simp only [chunkKey, String.toList_append, List.append_assoc, List.append_cancel_left_eq,
    List.append_cancel_right_eq] at hlists
  exact repr_injective (String.toList_inj.mp hlists)

theorem manifestKey_ne_chunkKey (keyPrefix : String) (i : ℕ) : manifestKey keyPrefix ≠ chunkKey keyPrefix i := by
  intro h
  have hlists := congrArg String.toList h
  simp only [manifestKey, chunkKey, String.toList_append, List.append_assoc,
    List.append_cancel_left_eq] at hlists
  -- the two keys differ after their slash
  have hsecond := congrArg (fun cs => cs[1]?) hlists
  rw [List.getElem?_append_left (by decide)] at hsecond
  exact absurd hsecond (by decide)

/-- The keys that a collection goes to are not used. -/
def Fresh (w : World) (bucket keyPrefix : String) : Prop :=
  w.blobs (bucket,manifestKey keyPrefix) = none ∧ ∀ i, w.blobs (bucket,chunkKey keyPrefix i) = none

def chunkDocument (items : List Value) (chunkSize i : ℕ) : Value :=
  (CollectionChunkV1.mk (i*chunkSize) (chunk chunkSize i items)).modelDump

theorem storeChunk_eq (keyPrefix bucket : String) (chunkSize : ℕ) :
    storeChunk p keyPrefix bucket items chunkSize = fun i =>
      uploadDocument p (chunkDocument items chunkSize i) bucket (chunkKey keyPrefix i) := by
  funext i
  rw [storeChunk, pySlice_chunk, chunkDocument]

theorem lt_numberOfChunks {chunkSize count i : ℕ} (hsize : 0 < chunkSize) (h : i*chunkSize < count) :
    i < numberOfChunks chunkSize count := by
  rw [numberOfChunks, if_pos (by omega)]
  exact (lt_numChunks hsize).mpr h

theorem getElem?_of_forall₂_range {R : ℕ → ObjectRef → Prop} {n i : ℕ} {refs : List ObjectRef}
    (h : List.Forall₂ R (List.range n) refs) (hi : i < n) : ∃ ref, refs[i]? = some ref ∧ R i ref := by
  have hlength : refs.length = n := by rw [← h.length_eq, List.length_range]
  have hi' : i < refs.length := by omega
  refine ⟨refs[i],List.getElem?_eq_getElem hi',?_⟩
  have hget := List.forall₂_iff_get.mp h
  simpa using hget.2 i (by simpa using hi) hi'

theorem stored_of_uploaded (hp : p.Lawful) {chunkSize : ℕ} {elementKind : ElementKind}
    {refs : List ObjectRef} {manifestRef : ObjectRef} (hsize : 0 < chunkSize)
    (hchunks : List.Forall₂ (fun i ref => ref.backend = "s3" ∧ Holds p w ref (chunkDocument items chunkSize i) ∧
      (p.dumps (chunkDocument items chunkSize i)).isSome)
      (List.range (numberOfChunks chunkSize items.length)) refs)
    (hmanifest : Holds p w manifestRef
      (CollectionManifestV1.mk items.length chunkSize elementKind refs).modelDump) :
    Stored p w ⟨manifestRef,items.length,chunkSize,elementKind,none⟩ items := by
  refine ⟨rfl,hsize,?_,refs,?_,hmanifest,?_⟩
  · intro item hitem
    obtain ⟨k,hk⟩ := List.getElem?_of_mem hitem
    have hbefore : k/chunkSize*chunkSize < items.length :=
      Nat.lt_of_le_of_lt (Nat.div_mul_le_self k chunkSize) (List.getElem?_eq_some_iff.mp hk).1
    obtain ⟨ref,-,-,-,hdumps⟩ := getElem?_of_forall₂_range hchunks (lt_numberOfChunks hsize hbefore)
    have hlocal : (chunk chunkSize (k/chunkSize) items)[k%chunkSize]? = some item := by
      rw [getElem?_chunk hsize, hk]
    exact hp.dumps_item _ "items" _ item hdumps rfl (List.mem_of_getElem? hlocal)
  · intro ref href
    obtain ⟨i,hi⟩ := List.getElem?_of_mem href
    have hlength := hchunks.length_eq
    obtain ⟨ref',href',hs3,-⟩ := getElem?_of_forall₂_range hchunks (i := i) (by
      have := (List.getElem?_eq_some_iff.mp hi).1
      rw [List.length_range] at hlength
      omega)
    obtain rfl : ref' = ref := Option.some.inj (href'.symm.trans hi)
    exact hs3
  · intro i hi
    obtain ⟨ref,href,-,hholds,-⟩ := getElem?_of_forall₂_range hchunks (lt_numberOfChunks hsize hi)
    exact ⟨ref,href,hholds⟩

/-- The items are JSON that the encoder takes. -/
def Dumpable (p : Packages) (items : List Value) (elementKind : ElementKind) (chunkSize : ℕ) : Prop :=
  (∀ i, (p.dumps (chunkDocument items chunkSize i)).isSome) ∧ ∀ refs : List ObjectRef,
    (p.dumps (CollectionManifestV1.mk items.length chunkSize elementKind refs).modelDump).isSome

variable {config : CollectionConfig} {keyPrefix : String} {elementKind : ElementKind}
  {chunkSize : Option ℕ} {bucket : Option String}

/-- A collection that is stored under fresh keys is there, and nothing else has changed. -/
theorem storeCollection_spec (hp : p.Lawful) (hsize : 0 < orDefault 0 chunkSize config.chunkSize)
    (hfresh : Fresh w (orDefault "" bucket config.bucket) keyPrefix)
    {result : Except StorageError CollectionObject × World}
    (hresult : exec (storeCollection p config keyPrefix items elementKind chunkSize bucket) w = result) :
    Grows w result.2 ∧ (∀ coll, result.1 = .ok coll →
      Stored p result.2 coll items ∧ coll.elementKind = elementKind ∧ coll.index = none) ∧
      (Dumpable p items elementKind (orDefault 0 chunkSize config.chunkSize) →
        ∃ coll, result.1 = .ok coll) := by
  unfold storeCollection at hresult
  generalize orDefault 0 chunkSize config.chunkSize = size at hsize hresult
  generalize orDefault "" bucket config.bucket = bucket at hfresh hresult
  obtain ⟨hmanifest,hchunks⟩ := hfresh
  have hcount : ¬ (0 < items.length ∧ size = 0) := by omega
  have hnodup : (List.range (numberOfChunks size items.length)).Nodup := List.nodup_range
  have huploaded : Uploaded p bucket (chunkKey keyPrefix) (chunkDocument items size) _ w _ :=
    uploaded_mapM hp (chunkKey_injective keyPrefix) hnodup w fun i _ => hchunks i
  simp only at hresult
  rw [if_neg hcount, exec_bind, storeChunk_eq] at hresult
  rcases hexec : exec ((List.range (numberOfChunks size items.length)).mapM fun i =>
    uploadDocument p (chunkDocument items size i) bucket (chunkKey keyPrefix i)) w with ⟨e | refs,w₁⟩
  · rw [hexec] at huploaded hresult
    subst hresult
    refine ⟨huploaded.grows,?_,?_⟩
    · intro coll hcoll
      cases hcoll
    · intro hdumps
      obtain ⟨refs,hrefs⟩ := huploaded.returns fun i _ => hdumps.1 i
      cases hrefs
  rw [hexec] at huploaded hresult
  simp only at hresult
  rw [exec_bind] at hresult
  -- the key of the manifest is none of those that the chunks went to
  have hstill : w₁.blobs (bucket,manifestKey keyPrefix) = none := by
    rw [huploaded.others _ fun i _ h => manifestKey_ne_chunkKey keyPrefix i (Prod.mk.inj h).2]
    exact hmanifest
  cases hcontent : p.dumps (CollectionManifestV1.mk items.length size elementKind refs).modelDump with
  | none =>
    obtain ⟨e,he⟩ := exec_uploadDocument_error hcontent bucket (manifestKey keyPrefix) w₁
    rw [he] at hresult
    subst hresult
    refine ⟨huploaded.grows,?_,?_⟩
    · intro coll hcoll
      cases hcoll
    · intro hdumps
      have := hdumps.2 refs
      rw [hcontent] at this
      cases this
  | some content =>
    rw [exec_uploadDocument hcontent] at hresult
    simp only [exec_pure] at hresult
    subst hresult
    have hgrows := grows_update hstill content
    have hrefs := (huploaded.holds refs rfl).imp fun i ref h =>
      And.intro h.1 (And.intro (h.2.1.mono hgrows.2) h.2.2)
    refine ⟨huploaded.grows.trans hgrows,?_,fun _ => ⟨_,rfl⟩⟩
    intro coll hcoll
    cases hcoll
    refine ⟨stored_of_uploaded hp hsize hrefs ?_,rfl,rfl⟩
    exact ⟨content,update_self _ _ _,rfl,hp.loads_dumps _ _ hcontent⟩

/-- `S3ObjectStorage.store`. -/
def storeObject (p : Packages) (threshold : ℕ) (bucket key : String) (data : Value) :
    StorageM StoredObject := do
  let serialized ← serializeObject p data
  if serialized.size ≤ threshold then
    pure (.inline data)
  else
    uploadFile serialized bucket key
    pure (.external ⟨"s3",bucket,key,serialized.size,p.sha256 serialized⟩)

theorem storeObject_spec (hp : p.Lawful) {threshold : ℕ} {bucket key : String} {data : Value}
    (hfresh : w.blobs (bucket,key) = none) {result : Except StorageError StoredObject × World}
    (hresult : exec (storeObject p threshold bucket key data) w = result) :
    Grows w result.2 ∧ ∀ ref, result.1 = .ok (.external ref) →
      Holds p result.2 ref data ∧ ref.backend = "s3" := by
  subst hresult
  rw [storeObject, serializeObject]
  cases hcontent : p.dumps data with
  | none =>
    refine ⟨Grows.refl w,?_⟩
    intro ref href
    cases href
  | some content =>
    simp only [pure_bind]
    split_ifs
    · refine ⟨Grows.refl w,?_⟩
      intro ref href
      cases href
    · refine ⟨grows_update hfresh content,?_⟩
      intro ref href
      obtain rfl := StoredObject.external.inj (Except.ok.inj href)
      exact ⟨⟨content,update_self _ _ _,rfl,hp.loads_dumps _ _ hcontent⟩,rfl⟩

/-- What the storage has given out: the handles of the collections with their items, and the references
of the objects with their data. -/
structure StorageState where
  world : World
  collections : List (CollectionObject × List Value)
  objects : List (ObjectRef × Value)

structure StorageConfig extends CollectionConfig where
  threshold : ℕ

def CollectionObject.whole (coll : CollectionObject) : CollectionObject := { coll with index := none }

inductive StorageOp
  | storeCollection (keyPrefix : String) (items : List Value) (elementKind : ElementKind)
    (chunkSize : Option ℕ) (bucket : Option String)
  | storeObject (key : String) (data : Value)
  | readPage (coll : CollectionObject) (offset : ℤ) (limit : Option ℤ)
  | readItem (coll : CollectionObject) (index : ℤ)
  | readObject (ref : ObjectRef)
  | expire (key : CacheKey)

namespace StorageState

def first : StorageState := ⟨⟨fun _ => none,SizedCache.empty⟩,[],[]⟩

def next (p : Packages) (config : StorageConfig) (st : StorageState) : StorageOp → Option StorageState
  | .storeCollection keyPrefix items elementKind chunkSize bucket =>
    match exec (storeCollection p config.toCollectionConfig keyPrefix items elementKind chunkSize bucket)
      st.world with
    | (.ok coll,w) => some ⟨w,st.collections ++ [(coll,items)],st.objects⟩
    | (.error _,w) => some ⟨w,st.collections,st.objects⟩
  | .storeObject key data =>
    match exec (Storage.storeObject p config.threshold config.bucket key data) st.world with
    | (.ok (.external ref),w) => some ⟨w,st.collections,st.objects ++ [(ref,data)]⟩
    | (_,w) => some ⟨w,st.collections,st.objects⟩
  | .readPage coll offset limit =>
    some ⟨(exec (getCollectionPage p coll offset limit) st.world).2,st.collections,st.objects⟩
  | .readItem coll index =>
    some ⟨(exec (getCollectionItem p coll index) st.world).2,st.collections,st.objects⟩
  | .readObject ref =>
    some ⟨(exec (retrieve p .s3 (.external ref)) st.world).2,st.collections,st.objects⟩
  | .expire key =>
    some ⟨{ st.world with cache := st.world.cache.expire key },st.collections,st.objects⟩

/-- Objects are immutable and contents have hashes of their own, chunks have a size, and only handles
that the storage has given out are read. -/
def Allowed (p : Packages) (config : StorageConfig) (st : StorageState) : StorageOp → Prop
  | .storeCollection keyPrefix _ _ chunkSize bucket =>
    0 < orDefault 0 chunkSize config.chunkSize ∧ Fresh st.world (orDefault "" bucket config.bucket) keyPrefix
  | .storeObject key _ => st.world.blobs (config.bucket,key) = none
  | .readPage coll _ _ => Distinct p st.world ∧ ∃ items, (coll.whole,items) ∈ st.collections
  | .readItem coll _ => Distinct p st.world ∧ ∃ items, (coll.whole,items) ∈ st.collections
  | .readObject ref => Distinct p st.world ∧ ∃ data, (ref,data) ∈ st.objects
  | .expire _ => True

/-- The cache is coherent, and everything that was given out is there. -/
structure Sound (p : Packages) (st : StorageState) : Prop where
  coherent : Coherent p st.world
  collections : ∀ coll items, (coll,items) ∈ st.collections → Stored p st.world coll items ∧ coll.index = none
  objects : ∀ ref data, (ref,data) ∈ st.objects → Holds p st.world ref data ∧ ref.backend = "s3"

variable {st st' : StorageState} {op : StorageOp} {config : StorageConfig}

theorem Sound.grows (h : Sound p st) (hw : Grows st.world w) :
    Sound p ⟨w,st.collections,st.objects⟩ := by
  refine ⟨h.coherent.grows hw,?_,?_⟩
  · intro coll items hmem
    obtain ⟨hstored,hindex⟩ := h.collections coll items hmem
    exact ⟨hstored.mono hw.2,hindex⟩
  · intro ref data hmem
    obtain ⟨hholds,hs3⟩ := h.objects ref data hmem
    exact ⟨hholds.mono hw.2,hs3⟩

theorem Sound.reading (h : Sound p st) (hw : Reading p st.world w) :
    Sound p ⟨w,st.collections,st.objects⟩ := by
  have hblobs : ∀ key content, st.world.blobs key = some content → w.blobs key = some content :=
    fun key content hc => (congrFun hw.1 key).trans hc
  refine ⟨hw.2,?_,?_⟩
  · intro coll items hmem
    obtain ⟨hstored,hindex⟩ := h.collections coll items hmem
    exact ⟨hstored.mono hblobs,hindex⟩
  · intro ref data hmem
    obtain ⟨hholds,hs3⟩ := h.objects ref data hmem
    exact ⟨hholds.mono hblobs,hs3⟩

theorem Sound.self (h : Sound p st) : Reading p st.world st.world := ⟨rfl,h.coherent⟩

theorem reading_getCollectionPage (h : Sound p st) (hd : Distinct p st.world)
    (hmem : (coll.whole,items) ∈ st.collections) (offset : ℤ) (limit : Option ℤ) :
    Reading p st.world (exec (getCollectionPage p coll offset limit) st.world).2 := by
  have hstored := (h.collections _ _ hmem).1
  by_cases hneg : offset < 0
  · unfold getCollectionPage
    rw [if_pos hneg]
    exact h.self
  · obtain ⟨n,rfl⟩ : ∃ n : ℕ, offset = n := ⟨offset.toNat,by omega⟩
    exact (gives_getCollectionPage hd hstored n limit st.world h.self).2

theorem reading_getCollectionItem (hp : p.Lawful) (h : Sound p st) (hd : Distinct p st.world)
    (hmem : (coll.whole,items) ∈ st.collections) (index : ℤ) :
    Reading p st.world (exec (getCollectionItem p coll index) st.world).2 := by
  have hstored := (h.collections _ _ hmem).1
  cases hitem : pyGet? items index with
  | some item => exact (gives_getCollectionItem hp hd hstored hitem st.world h.self).2
  | none =>
    obtain ⟨message,hgives⟩ := gives_getCollectionItem_error hstored.count hitem
    exact (hgives st.world h.self).2

theorem gives_retrieve_external (hd : Distinct p w) {data : Value} (h : Holds p w ref data)
    (hs3 : ref.backend = "s3") : Gives (Reading p w) (retrieve p .s3 (.external ref)) (.ok data) := by
  rw [retrieve, if_neg (not_not_intro hs3)]
  exact gives_fetchDocument hd h _

theorem sound_first : Sound p first := by
  refine ⟨⟨?_,?_⟩,?_,?_⟩
  · intro sha256 v hv
    cases hv
  · intro sha256 i v hv
    cases hv
  · intro coll items hmem
    cases hmem
  · intro ref data hmem
    cases hmem

/-- A step that is allowed keeps the storage sound. -/
theorem sound_next (hp : p.Lawful) (h : Sound p st) (hok : Allowed p config st op)
    (hn : next p config st op = some st') : Sound p st' := by
  cases op with
  | storeCollection keyPrefix items elementKind chunkSize bucket =>
    obtain ⟨hsize,hfresh⟩ := hok
    rw [next] at hn
    rcases hexec : exec (storeCollection p config.toCollectionConfig keyPrefix items elementKind chunkSize
      bucket) st.world with ⟨e | coll,w⟩
    · rw [hexec] at hn
      cases hn
      exact h.grows (storeCollection_spec hp hsize hfresh hexec).1
    · rw [hexec] at hn
      cases hn
      obtain ⟨hgrows,hstored,-⟩ := storeCollection_spec hp hsize hfresh hexec
      have hold := h.grows hgrows
      refine ⟨hold.coherent,?_,hold.objects⟩
      intro coll' items' hmem
      rcases List.mem_append.mp hmem with hmem | hmem
      · exact hold.collections coll' items' hmem
      · obtain ⟨rfl,rfl⟩ := Prod.mk.inj (List.mem_singleton.mp hmem)
        obtain ⟨hs,-,hindex⟩ := hstored coll' rfl
        exact ⟨hs,hindex⟩
  | storeObject key data =>
    rw [next] at hn
    rcases hexec : exec (Storage.storeObject p config.threshold config.bucket key data) st.world with
      ⟨e | stored,w⟩
    · rw [hexec] at hn
      cases hn
      exact h.grows (storeObject_spec hp hok hexec).1
    · obtain ⟨hgrows,hholds⟩ := storeObject_spec hp hok hexec
      have hold := h.grows hgrows
      rw [hexec] at hn
      cases stored with
      | inline data' =>
        cases hn
        exact hold
      | collection coll =>
        cases hn
        exact hold
      | external ref =>
        cases hn
        refine ⟨hold.coherent,hold.collections,?_⟩
        intro ref' data' hmem
        rcases List.mem_append.mp hmem with hmem | hmem
        · exact hold.objects ref' data' hmem
        · obtain ⟨rfl,rfl⟩ := Prod.mk.inj (List.mem_singleton.mp hmem)
          exact hholds ref' rfl
  | readPage coll offset limit =>
    obtain ⟨hd,items,hmem⟩ := hok
    cases hn
    exact h.reading (reading_getCollectionPage h hd hmem offset limit)
  | readItem coll index =>
    obtain ⟨hd,items,hmem⟩ := hok
    cases hn
    exact h.reading (reading_getCollectionItem hp h hd hmem index)
  | readObject ref =>
    obtain ⟨hd,data,hmem⟩ := hok
    cases hn
    obtain ⟨hholds,hs3⟩ := h.objects ref data hmem
    exact h.reading (gives_retrieve_external hd hholds hs3 st.world h.self).2
  | expire key =>
    cases hn
    apply h.reading
    refine ⟨rfl,coherent_of_values h.coherent rfl ?_⟩
    intro key' v hv
    exact SizedCache.expire_values hv

theorem sound_of_reaches (hp : p.Lawful)
    (hst : Runs.Reaches (next p config) (Allowed p config) first st) : Sound p st :=
  hst.invariant sound_first fun _ _ _ _ h hok hn => sound_next hp h hok hn

end StorageState

/-- What a call gives in a world. -/
def result {α : Type} (m : StorageM α) (w : World) : Except StorageError α := (exec m w).1

/-- Every read of a collection gives what the list of its items would give. A negative limit is no part
of that: its page is empty. -/
structure ReadsBack (p : Packages) (w : World) (coll : CollectionObject) (items : List Value) : Prop where
  page : ∀ offset limit : ℤ, 0 ≤ offset → 0 ≤ limit →
    result (getCollectionPage p coll offset (some limit)) w = .ok (pySlice items offset (offset+limit))
  rest : ∀ offset : ℤ, 0 ≤ offset →
    result (getCollectionPage p coll offset none) w = .ok (pySlice items offset items.length)
  noPage : ∀ offset limit : ℤ, 0 ≤ offset → limit < 0 →
    result (getCollectionPage p coll offset (some limit)) w = .ok []
  item : ∀ index item, pyGet? items index = some item → result (getCollectionItem p coll index) w = .ok item
  noItem : ∀ index, pyGet? items index = none →
    ∃ message, result (getCollectionItem p coll index) w = .error (.indexError message)
  values : coll.elementKind = .value → ∀ backend,
    result (materializeCollectionValues p backend coll 0 none) w = .ok items
  objects : coll.elementKind = .storedObject → ∀ backend vs, List.Forall₂ (ElementGives p w backend) items vs →
    result (materializeCollectionValues p backend coll 0 none) w = .ok vs

theorem readsBack_of_stored (hp : p.Lawful) (hc : Coherent p w) (hd : Distinct p w)
    (h : Stored p w coll items) : ReadsBack p w coll items := by
  have hw : Reading p w w := ⟨rfl,hc⟩
  have hall : slice 0 (pageStop items.length (0 : ℕ) none).toNat items = items := slice_pageStop_none 0
  constructor
  · intro offset limit ho hl
    obtain ⟨n,rfl⟩ : ∃ n : ℕ, offset = n := ⟨offset.toNat,by omega⟩
    rw [← slice_pageStop n hl]
    exact (gives_getCollectionPage hd h n (some limit) w hw).1
  · intro offset ho
    obtain ⟨n,rfl⟩ : ∃ n : ℕ, offset = n := ⟨offset.toNat,by omega⟩
    rw [pySlice_natCast, slice, List.take_length, ← slice_pageStop_none]
    exact (gives_getCollectionPage hd h n none w hw).1
  · intro offset limit ho hl
    obtain ⟨n,rfl⟩ : ∃ n : ℕ, offset = n := ⟨offset.toNat,by omega⟩
    have hnil : slice n (pageStop items.length n (some limit)).toNat items = [] := slice_pageStop_neg n hl
    rw [← hnil]
    exact (gives_getCollectionPage hd h n (some limit) w hw).1
  · intro index item hitem
    exact (gives_getCollectionItem hp hd h hitem w hw).1
  · intro index hitem
    obtain ⟨message,hgives⟩ := gives_getCollectionItem_error h.count hitem
    exact ⟨message,(hgives w hw).1⟩
  · intro hkind backend
    have hgives := gives_materialize_values hd h hkind backend 0 none
    rw [hall] at hgives
    exact (hgives w hw).1
  · intro hkind backend vs hvs
    rw [← hall] at hvs
    exact (gives_materialize_objects hd h hkind backend 0 none hvs w hw).1

/-- In every run, whatever is stored, read and dropped from the cache, each collection that was stored is
read back at any chunk size. -/
theorem collections_read_back (hp : p.Lawful) {config : StorageConfig} {st : StorageState}
    (hst : Runs.Reaches (StorageState.next p config) (StorageState.Allowed p config) StorageState.first st)
    (hd : Distinct p st.world) {coll : CollectionObject} {items : List Value}
    (hmem : (coll,items) ∈ st.collections) : ReadsBack p st.world coll items := by
  have hsound := StorageState.sound_of_reaches hp hst
  exact readsBack_of_stored hp hsound.coherent hd (hsound.collections coll items hmem).1

/-- Packages that know the documents of a table, with their JSON texts, the hashes of the texts, and what
the query for an item gives. -/
structure Tables where
  texts : List (Value × String)
  selections : List (Value × String)
  digests : List (String × String)

namespace Tables

def IsText (content : ByteArray) (text : String) : Prop := text.toUTF8.data.toList = content.data.toList

instance (content : ByteArray) (text : String) : Decidable (IsText content text) :=
  inferInstanceAs (Decidable (_ = _))

def loads (t : Tables) (content : ByteArray) : Option Value :=
  ((t.texts ++ t.selections).find? fun row => IsText content row.2).map Prod.fst

def textOf (table : List (Value × String)) (document : Value) : Option ByteArray :=
  (table.find? fun row => row.1 = document).map fun row => row.2.toUTF8

def itemsOf : Value → List Value
  | .dict entries =>
    match entries.lookup "items" with
    | some (.list items) => items
    | _ => []
  | _ => []

def select (t : Tables) (content : ByteArray) (expression : String) : Option ByteArray := do
  let document ← t.loads content
  let (item,_) ← (itemsOf document).zipIdx.find? fun entry => selectExpression entry.2 = expression
  textOf t.selections (.dict [("_1",item)])

def packages (t : Tables) : Packages where
  dumps := textOf t.texts
  loads := t.loads
  sha256 := fun content => ((t.digests.find? fun row => IsText content row.1).map Prod.snd).getD ""
  select := t.select

/-- The elements of the lists of a document are in the table. -/
def elementsKnown (t : Tables) : Value → Bool
  | .dict entries => entries.all fun entry =>
    match entry.2 with
    | .list items => items.all fun item => (textOf t.texts item).isSome
    | _ => true
  | _ => true

/-- No text stands for two documents, and no document has an unknown element. -/
structure Complete (t : Tables) : Prop where
  texts : ∀ row ∈ t.texts, t.loads row.2.toUTF8 = some row.1
  elements : ∀ row ∈ t.texts, t.elementsKnown row.1 = true
  selections : ∀ row ∈ t.selections, t.loads row.2.toUTF8 = some row.1
  selected : ∀ row ∈ t.texts ++ t.selections, ∀ item ∈ itemsOf row.1,
    (textOf t.selections (.dict [("_1",item)])).isSome

theorem isText_iff {s t : String} : IsText s.toUTF8 t ↔ t = s := by
  constructor
  · intro h
    have hbytes : t.toUTF8 = s.toUTF8 := ByteArray.ext (Array.toList_inj.mp h)
    exact String.toByteArray_inj.mp hbytes
  · intro h
    exact h ▸ rfl

theorem find?_isText {α : Type} {f : α → String} {rows : List α} (hnodup : (rows.map f).Nodup) {row : α}
    (hmem : row ∈ rows) : (rows.find? fun r => IsText (f row).toUTF8 (f r)) = some row := by
  induction rows with
  | nil => cases hmem
  | cons r rows ih =>
    rw [List.map_cons, List.nodup_cons] at hnodup
    rcases List.mem_cons.mp hmem with rfl | hmem
    · exact List.find?_cons_of_pos (decide_eq_true (isText_iff.mpr rfl))
    · have hne : ¬ IsText (f row).toUTF8 (f r) := fun h => hnodup.1 (isText_iff.mp h ▸ List.mem_map_of_mem hmem)
      rw [List.find?_cons_of_neg (by simpa using hne)]
      exact ih hnodup.2 hmem

theorem loads_of_mem {t : Tables} (hnodup : ((t.texts ++ t.selections).map Prod.snd).Nodup) {row : Value × String}
    (hmem : row ∈ t.texts ++ t.selections) : t.loads row.2.toUTF8 = some row.1 := by
  unfold loads
  rw [find?_isText hnodup hmem, Option.map_some]

theorem sha256_of_mem {t : Tables} (hnodup : (t.digests.map Prod.fst).Nodup) {row : String × String} (hmem : row ∈ t.digests) :
    t.packages.sha256 row.1.toUTF8 = row.2 := by
  show ((t.digests.find? fun r => IsText row.1.toUTF8 r.1).map Prod.snd).getD "" = row.2
  rw [find?_isText hnodup hmem, Option.map_some, Option.getD_some]

theorem size_ofList (cs : List Char) : (String.ofList cs).toUTF8.size = (cs.map Char.utf8Size).sum := by
  induction cs with
  | nil => rfl
  | cons c cs ih =>
    have h : String.ofList (c :: cs) = String.singleton c ++ String.ofList cs := by
      apply String.toList_inj.mp
      rw [String.toList_append, String.toList_singleton, String.toList_ofList, String.toList_ofList, List.singleton_append]
    have hsize : (String.ofList (c :: cs)).utf8ByteSize = c.utf8Size + (String.ofList cs).utf8ByteSize := by
      rw [h, String.utf8ByteSize_append, String.utf8ByteSize_singleton]
    calc (String.ofList (c :: cs)).toUTF8.size = c.utf8Size + (String.ofList cs).toUTF8.size := hsize
      _ = ((c :: cs).map Char.utf8Size).sum := by rw [ih, List.map_cons, List.sum_cons]

theorem textOf_eq_some {table : List (Value × String)} {document : Value} {content : ByteArray}
    (h : textOf table document = some content) : ∃ text, (document,text) ∈ table ∧ content = text.toUTF8 := by
  rw [textOf, Option.map_eq_some_iff] at h
  obtain ⟨⟨document',text⟩,hfind,rfl⟩ := h
  have hdocument : document' = document := by simpa using List.find?_some hfind
  subst hdocument
  exact ⟨text,List.mem_of_find?_eq_some hfind,rfl⟩

theorem selectExpression_injective {i j : ℕ} (h : selectExpression i = selectExpression j) : i = j := by
  change "SELECT s.items[" ++ toString i ++ "] FROM s3object s" =
    "SELECT s.items[" ++ toString j ++ "] FROM s3object s" at h
  have hlists := congrArg String.toList h
  simp only [String.toList_append, List.append_assoc, List.append_cancel_left_eq,
    List.append_cancel_right_eq] at hlists
  exact repr_injective (String.toList_inj.mp hlists)

theorem find?_selectExpression {items : List Value} {k : ℕ} {item : Value} (h : items[k]? = some item) :
    items.zipIdx.find? (fun entry => selectExpression entry.2 = selectExpression k) = some (item,k) := by
  have hmem : (item,k) ∈ items.zipIdx := List.mem_zipIdx_iff_getElem?.mpr h
  cases hfind : items.zipIdx.find? fun entry => selectExpression entry.2 = selectExpression k with
  | none =>
    have := List.find?_eq_none.mp hfind (item,k) hmem
    simp at this
  | some entry =>
    obtain ⟨item',k'⟩ := entry
    have hk : k' = k := selectExpression_injective (by simpa using List.find?_some hfind)
    subst hk
    have hitem := List.mem_zipIdx_iff_getElem?.mp (List.mem_of_find?_eq_some hfind)
    obtain rfl : item' = item := Option.some.inj (hitem.symm.trans h)
    rfl

theorem lawful (t : Tables) (h : t.Complete) : t.packages.Lawful := by
  constructor
  · intro data content hdumps
    obtain ⟨text,hmem,rfl⟩ := textOf_eq_some hdumps
    exact h.texts _ hmem
  · intro entries key items item hdumps hlookup hitem
    obtain ⟨content,hcontent⟩ := Option.isSome_iff_exists.mp hdumps
    obtain ⟨text,hmem,-⟩ := textOf_eq_some hcontent
    have hknown := h.elements _ hmem
    simp only [elementsKnown, List.all_eq_true] at hknown
    have hentry := hknown (key,.list items) (by
      obtain ⟨before,after,hentries,-⟩ := List.lookup_eq_some_iff.mp hlookup
      rw [hentries]
      apply List.mem_append_right
      exact List.mem_cons_self)
    exact List.all_eq_true.mp hentry item hitem
  · intro content entries items k item hloads hlookup hitem
    have hitems : itemsOf (.dict entries) = items := by
      rw [itemsOf, hlookup]
    obtain ⟨row,hfind,hrow⟩ := Option.map_eq_some_iff.mp hloads
    have hselected := h.selected row (List.mem_of_find?_eq_some hfind) item (by
      rw [hrow, hitems]
      exact List.mem_of_getElem? hitem)
    obtain ⟨result,hresult⟩ := Option.isSome_iff_exists.mp hselected
    obtain ⟨text,hmem,htext⟩ := textOf_eq_some hresult
    refine ⟨result,?_,?_⟩
    · change (t.loads content).bind _ = some result
      rw [show t.loads content = some (.dict entries) from hloads, Option.bind_some, hitems,
        find?_selectExpression hitem]
      exact hresult
    · rw [htext]
      exact h.selections _ hmem

end Tables

/-! Two values in chunks of one. -/

def sampleItems : List Value := [.str "a",.str "b"]

def sampleChunkRefs : List ObjectRef :=
  [⟨"s3","workflow","run/chunks/0.json",70,
    "c3bed0b31e3c8ccb7a5f07b3cb2bd32b0a0d5b4526ccb49e8000a918de90284f"⟩,
    ⟨"s3","workflow","run/chunks/1.json",70,
    "1afe81f0debf8c63ab65bb5878e2bb049a0c66d628c8011dfc135a56cf9344f7"⟩]

def sampleManifest : CollectionManifestV1 := ⟨2,1,.value,sampleChunkRefs⟩

def sampleCollection : CollectionObject :=
  ⟨⟨"s3","workflow","run/manifest.json",418,
    "9d6657d2e62eccb8f43af4d6b56445a4ec1dcd600bcd395e060a4b9c18c092c9"⟩,
    2,1,.value,none⟩

def sampleTables : Tables where
  texts := [(.str "a","\"a\""),(.str "b","\"b\""),
    (chunkDocument sampleItems 1 0,
      "\x7b\"kind\":\"allama.collection_chunk\",\"version\":1,\"start\":0,\"items\":[\"a\"]\x7d"),
    (chunkDocument sampleItems 1 1,
      "\x7b\"kind\":\"allama.collection_chunk\",\"version\":1,\"start\":1,\"items\":[\"b\"]\x7d")] ++
    (sampleChunkRefs.map ObjectRef.modelDump).zip
      ["\x7b\"backend\":\"s3\",\"bucket\":\"workflow\",\"key\":\"run/chunks/0.json\",\"size_bytes\":70,\"sha256\":\"c3bed0b31e3c8ccb7a5f07b3cb2bd32b0a0d5b4526ccb49e8000a918de90284f\"\x7d",
        "\x7b\"backend\":\"s3\",\"bucket\":\"workflow\",\"key\":\"run/chunks/1.json\",\"size_bytes\":70,\"sha256\":\"1afe81f0debf8c63ab65bb5878e2bb049a0c66d628c8011dfc135a56cf9344f7\"\x7d"] ++
    [(sampleManifest.modelDump,
      "\x7b\"kind\":\"allama.collection_manifest\",\"version\":1,\"count\":2,\"chunk_size\":1,\"element_kind\":\"value\",\"chunks\":[\x7b\"backend\":\"s3\",\"bucket\":\"workflow\",\"key\":\"run/chunks/0.json\",\"size_bytes\":70,\"sha256\":\"c3bed0b31e3c8ccb7a5f07b3cb2bd32b0a0d5b4526ccb49e8000a918de90284f\"\x7d,\x7b\"backend\":\"s3\",\"bucket\":\"workflow\",\"key\":\"run/chunks/1.json\",\"size_bytes\":70,\"sha256\":\"1afe81f0debf8c63ab65bb5878e2bb049a0c66d628c8011dfc135a56cf9344f7\"\x7d]\x7d")]
  selections := [(.dict [("_1",.str "a")],"\x7b\"_1\":\"a\"\x7d\n"),
    (.dict [("_1",.str "b")],"\x7b\"_1\":\"b\"\x7d\n")]
  digests := [("\x7b\"kind\":\"allama.collection_chunk\",\"version\":1,\"start\":0,\"items\":[\"a\"]\x7d",
      "c3bed0b31e3c8ccb7a5f07b3cb2bd32b0a0d5b4526ccb49e8000a918de90284f"),
    ("\x7b\"kind\":\"allama.collection_chunk\",\"version\":1,\"start\":1,\"items\":[\"b\"]\x7d",
      "1afe81f0debf8c63ab65bb5878e2bb049a0c66d628c8011dfc135a56cf9344f7"),
    ("\x7b\"kind\":\"allama.collection_manifest\",\"version\":1,\"count\":2,\"chunk_size\":1,\"element_kind\":\"value\",\"chunks\":[\x7b\"backend\":\"s3\",\"bucket\":\"workflow\",\"key\":\"run/chunks/0.json\",\"size_bytes\":70,\"sha256\":\"c3bed0b31e3c8ccb7a5f07b3cb2bd32b0a0d5b4526ccb49e8000a918de90284f\"\x7d,\x7b\"backend\":\"s3\",\"bucket\":\"workflow\",\"key\":\"run/chunks/1.json\",\"size_bytes\":70,\"sha256\":\"1afe81f0debf8c63ab65bb5878e2bb049a0c66d628c8011dfc135a56cf9344f7\"\x7d]\x7d",
      "9d6657d2e62eccb8f43af4d6b56445a4ec1dcd600bcd395e060a4b9c18c092c9")]

theorem sampleTexts_nodup : ((sampleTables.texts ++ sampleTables.selections).map Prod.snd).Nodup := by decide +kernel

theorem sampleDigests_nodup : (sampleTables.digests.map Prod.fst).Nodup := by decide +kernel

theorem sampleTables_complete : sampleTables.Complete where
  texts _ hmem := Tables.loads_of_mem sampleTexts_nodup (List.mem_append_left _ hmem)
  elements := by decide
  selections _ hmem := Tables.loads_of_mem sampleTexts_nodup (List.mem_append_right _ hmem)
  selected := by decide

def sampleConfig : StorageConfig := ⟨⟨1000,"workflow"⟩,131072⟩

def sampleOp : StorageOp := .storeCollection "run" sampleItems .value (some 1) none

def sampleContent (document : Value) : ByteArray := (Tables.textOf sampleTables.texts document).getD ⟨#[]⟩

/-- The objects after the collection is stored. -/
def sampleWorld : World where
  blobs := update (update (update (fun _ => none)
    ("workflow","run/chunks/0.json") (some (sampleContent (chunkDocument sampleItems 1 0))))
    ("workflow","run/chunks/1.json") (some (sampleContent (chunkDocument sampleItems 1 1))))
    ("workflow","run/manifest.json") (some (sampleContent sampleManifest.modelDump))
  cache := SizedCache.empty

theorem dumps_sample {document : Value} (h : (sampleTables.packages.dumps document).isSome) :
    sampleTables.packages.dumps document = some (sampleContent document) := by
  obtain ⟨content,hcontent⟩ := Option.isSome_iff_exists.mp h
  have hdefault : sampleContent document = (sampleTables.packages.dumps document).getD ⟨#[]⟩ := rfl
  rw [hdefault, hcontent, Option.getD_some]

theorem uploads_sample {document : Value} {size : ℕ} {sha256 : String} (key : String) (w : World)
    (hdumps : (sampleTables.packages.dumps document).isSome) (hsize : (sampleContent document).size = size)
    (hsha : sampleTables.packages.sha256 (sampleContent document) = sha256) :
    exec (uploadDocument sampleTables.packages document "workflow" key) w =
      (.ok ⟨"s3","workflow",key,size,sha256⟩,
        { w with blobs := update w.blobs ("workflow",key) (some (sampleContent document)) }) := by
  rw [← hsize, ← hsha]
  exact exec_uploadDocument (dumps_sample hdumps) "workflow" key w

theorem content_first : (sampleContent (chunkDocument sampleItems 1 0)).size = 70 ∧
    sampleTables.packages.sha256 (sampleContent (chunkDocument sampleItems 1 0)) =
    sampleChunkRefs[0].sha256 := by
  have htext : sampleContent (chunkDocument sampleItems 1 0) = sampleTables.digests[0].1.toUTF8 := rfl
  rw [htext]
  exact ⟨(Tables.size_ofList _).trans (by decide),
    Tables.sha256_of_mem sampleDigests_nodup (List.getElem_mem (by decide))⟩

theorem content_second : (sampleContent (chunkDocument sampleItems 1 1)).size = 70 ∧
    sampleTables.packages.sha256 (sampleContent (chunkDocument sampleItems 1 1)) =
    sampleChunkRefs[1].sha256 := by
  have htext : sampleContent (chunkDocument sampleItems 1 1) = sampleTables.digests[1].1.toUTF8 := rfl
  rw [htext]
  exact ⟨(Tables.size_ofList _).trans (by decide),
    Tables.sha256_of_mem sampleDigests_nodup (List.getElem_mem (by decide))⟩

set_option maxRecDepth 10000 in
theorem content_manifest : (sampleContent sampleManifest.modelDump).size = 418 ∧
    sampleTables.packages.sha256 (sampleContent sampleManifest.modelDump) =
    sampleCollection.manifestRef.sha256 := by
  have htext : sampleContent sampleManifest.modelDump = sampleTables.digests[2].1.toUTF8 := rfl
  rw [htext]
  exact ⟨(Tables.size_ofList _).trans (by decide),
    Tables.sha256_of_mem sampleDigests_nodup (List.getElem_mem (by decide))⟩

theorem next_sample : StorageState.next sampleTables.packages sampleConfig StorageState.first sampleOp =
    some ⟨sampleWorld,[(sampleCollection,sampleItems)],[]⟩ := by
  have hfirst := fun w => uploads_sample (chunkKey "run" 0) w
    (by decide : (sampleTables.packages.dumps (chunkDocument sampleItems 1 0)).isSome)
    content_first.1 content_first.2
  have hsecond := fun w => uploads_sample (chunkKey "run" 1) w
    (by decide : (sampleTables.packages.dumps (chunkDocument sampleItems 1 1)).isSome)
    content_second.1 content_second.2
  have hmanifest := fun w => uploads_sample (manifestKey "run") w
    (by decide : (sampleTables.packages.dumps sampleManifest.modelDump).isSome)
    content_manifest.1 content_manifest.2
  have hstore : exec (storeCollection sampleTables.packages sampleConfig.toCollectionConfig "run" sampleItems
      .value (some 1) none) StorageState.first.world = (.ok sampleCollection,sampleWorld) := by
    have hsize : orDefault 0 (some 1) sampleConfig.chunkSize = 1 := by decide
    have hbucket : orDefault "" none sampleConfig.bucket = "workflow" := by decide
    have hcount : sampleItems.length = 2 := rfl
    have hrange : List.range (numberOfChunks 1 2) = [0,1] := by decide
    unfold storeCollection
    simp only [hsize, hbucket, hcount]
    rw [if_neg (by decide), exec_bind, storeChunk_eq, hrange, List.mapM_cons, exec_bind, hfirst]
    simp only
    rw [List.mapM_cons, exec_bind, exec_bind, hsecond]
    simp only [List.mapM_nil, exec_bind, exec_pure]
    have hchunks : CollectionManifestV1.mk 2 1 .value
        [⟨"s3","workflow",chunkKey "run" 0,70,sampleChunkRefs[0].sha256⟩,
          ⟨"s3","workflow",chunkKey "run" 1,70,sampleChunkRefs[1].sha256⟩] = sampleManifest := by
      have hkeyFirst : chunkKey "run" 0 = "run/chunks/0.json" := by decide
      have hkeySecond : chunkKey "run" 1 = "run/chunks/1.json" := by decide
      rw [hkeyFirst, hkeySecond]
      rfl
    rw [hchunks, hmanifest]
    simp only
    rfl
  rw [sampleOp, StorageState.next, hstore]
  rfl

theorem blobs_sample {key : String × String} {content : ByteArray} (h : sampleWorld.blobs key = some content) :
    content = sampleContent (chunkDocument sampleItems 1 0) ∨
      content = sampleContent (chunkDocument sampleItems 1 1) ∨
      content = sampleContent sampleManifest.modelDump := by
  simp only [sampleWorld, update_apply] at h
  split_ifs at h
  · exact .inr (.inr (Option.some.inj h).symm)
  · exact .inr (.inl (Option.some.inj h).symm)
  · exact .inl (Option.some.inj h).symm

theorem distinct_sample : Distinct sampleTables.packages sampleWorld := by
  intro key key' content content' hkey hkey' hsha
  -- the three hashes differ, so that equal hashes leave one and the same content
  rcases blobs_sample hkey with h | h | h <;> rcases blobs_sample hkey' with h' | h' | h' <;>
    rw [h, h'] at hsha ⊢ <;> simp only [content_first.2, content_second.2, content_manifest.2] at hsha <;>
    exact absurd hsha (by decide)

theorem reaches_sample : Runs.Reaches (StorageState.next sampleTables.packages sampleConfig)
    (StorageState.Allowed sampleTables.packages sampleConfig) StorageState.first
    ⟨sampleWorld,[(sampleCollection,sampleItems)],[]⟩ := by
  have hallowed : StorageState.Allowed sampleTables.packages sampleConfig StorageState.first sampleOp :=
    ⟨by decide,rfl,fun _ => rfl⟩
  exact .step .refl hallowed next_sample

theorem collections_read_back_sample :
    ReadsBack sampleTables.packages sampleWorld sampleCollection sampleItems :=
  collections_read_back (sampleTables.lawful sampleTables_complete) reaches_sample distinct_sample
    List.mem_cons_self

/-- The page of a negative limit is empty, and the slice is not. -/
theorem negative_limit_not_slice :
    result (getCollectionPage sampleTables.packages sampleCollection 0 (some (-1))) sampleWorld = .ok [] ∧
      pySlice sampleItems 0 (0+(-1)) = [.str "a"] := by
  have hread := readsBack_of_stored (sampleTables.lawful sampleTables_complete)
    (StorageState.sound_of_reaches (sampleTables.lawful sampleTables_complete) reaches_sample).coherent
    distinct_sample
    ((StorageState.sound_of_reaches (sampleTables.lawful sampleTables_complete) reaches_sample).collections
      sampleCollection sampleItems List.mem_cons_self).1
  refine ⟨hread.noPage 0 (-1) ?_ ?_,?_⟩
  · decide
  · decide
  · decide

end Storage
end Allama

import Allama.StorageRuns
import Allama.WorkflowRecords

/-! The readers that turn a stored object into data: `ObjectStorage.retrieve`, `resolve_execution_context`
(`storage/utils.py`) and `_materialize_task_result` (`dsl/action.py`). -/
namespace Allama
namespace Storage
open Chunks Stateful

/-- `TaskResult`, with what the readers use of it. -/
structure TaskResult where
  result : StoredObject
  collectionIndex : Option ℤ

/-- An `ExecutionContext` that is validated. `others` has the fields that are not required. -/
structure ExecutionContext where
  actions : List (String × TaskResult)
  trigger : Option StoredObject
  others : List (String × Value)

/-- What `resolve_execution_context` leaves: plain data, or a context of resolved objects. -/
inductive Resolved
  | value (v : Value)
  | context (trigger : Option Value) (actions : List (String × Resolved)) (others : List (String × Value))

/-- `CollectionObject.at`. -/
def CollectionObject.atIndex (coll : CollectionObject) (index : ℤ) : CollectionObject :=
  { coll with index := some index }

def atCollectionIndex : Option ℤ → Value → StorageM Value
  | some i, .list vs =>
    match pyGet? vs i with
    | none => throw (.indexError "list index out of range")
    | some v => pure v
  | _, v => pure v

/-- The three cases of `_materialize_task_result`. -/
def rawResult (p : Packages) (backend : Backend) : StoredObject → StorageM Value
  | .inline data => pure data
  | .external ref => retrieve p backend (.external ref)
  | .collection coll => do
    let vs ← materializeCollectionValues p backend coll 0 none
    pure (.list vs)

def materializeTaskResult (p : Packages) (backend : Backend) (task : TaskResult) : StorageM Value := do
  let raw ← rawResult p backend task.result
  atCollectionIndex task.collectionIndex raw

def resolveToInline (p : Packages) (backend : Backend) : StoredObject → StorageM Value
  | .inline data => pure data
  | stored => retrieve p backend stored

section Contexts

-- `validate` is `ExecutionContextTA.validate_python`
variable (p : Packages) (validate : Value → Option ExecutionContext) (backend : Backend)

/-- `is_execution_context`, with the context that it finds. -/
def executionContextOf : Value → Option ExecutionContext
  | .dict entries => validate (.dict entries)
  | _ => none

/-- One turn of the loop over `ACTIONS`. `nested` resolves a context that is the data of the task. -/
def resolveTask (nested : ExecutionContext → StorageM Resolved) (task : TaskResult) : StorageM Resolved := do
  let data ← resolveToInline p backend task.result
  match executionContextOf validate data with
  | some ctx => nested ctx
  | none =>
    let item ← atCollectionIndex task.collectionIndex data
    pure (.value item)

def resolveTrigger : Option StoredObject → StorageM (Option Value)
  | none => pure none
  | some stored => do
    let data ← resolveToInline p backend stored
    pure (some data)

/-- `depth` is what is left of the recursion limit. -/
def resolveExecutionContext : ℕ → ExecutionContext → StorageM Resolved
  | 0, _ => throw .recursionError
  | depth+1, ctx => do
    let trigger ← resolveTrigger p backend ctx.trigger
    let actions ← ctx.actions.mapM fun entry => do
      let resolved ← resolveTask p validate backend (resolveExecutionContext depth) entry.2
      pure (entry.1,resolved)
    pure (.context trigger actions ctx.others)

end Contexts

/-- `==` between what is resolved and a JSON value. A resolved action or trigger is no JSON value. -/
def Resolved.Is : Resolved → Value → Prop
  | .value v, w => v = w
  | .context none [] others, w => Value.Same (.dict (("ACTIONS",.dict []) :: ("TRIGGER",.none) :: others)) w
  | .context _ _ _, _ => False

/-- All three readers return, and with the same value. -/
def Agree (p : Packages) (validate : Value → Option ExecutionContext) (backend : Backend) (depth : ℕ)
    (w : World) (stored : StoredObject) : Prop :=
  ∃ v resolved, result (retrieve p backend stored) w = .ok v ∧
    result (resolveTask p validate backend (resolveExecutionContext p validate backend depth) ⟨stored,none⟩) w =
      .ok resolved ∧ resolved.Is v ∧
    result (materializeTaskResult p backend ⟨stored,none⟩) w = .ok v

/-- What an object stands for. -/
inductive Kept (p : Packages) (w : World) : StoredObject → Value → Prop
  | inline {data : Value} : Kept p w (.inline data) data
  | external {ref : ObjectRef} {data : Value} : ref.backend = "s3" → Holds p w ref data →
      Kept p w (.external ref) data
  | whole {coll : CollectionObject} {items : List Value} : coll.index = none → Stored p w coll items →
      Kept p w (.collection coll) (.list items)
  | item {coll : CollectionObject} {items : List Value} {index : ℤ} {v : Value} : coll.index = some index →
      Stored p w coll items → pyGet? items index = some v → Kept p w (.collection coll) v

def StandsFor (p : Packages) (w : World) (item v : Value) : Prop :=
  ∃ stored, validateStoredObject item = some stored ∧ Kept p w stored v

/-- An object with its blobs in the store. The index of a handle may be out of range. -/
def WellStored (p : Packages) (w : World) : StoredObject → Prop
  | .inline _ => True
  | .external ref => ref.backend = "s3" ∧ ∃ data, Holds p w ref data
  | .collection coll => ∃ items, Stored p w coll items ∧ (coll.elementKind = .storedObject →
      ∀ item ∈ items, ∃ v, StandsFor p w item v)

/-- Data that is no context, or a context that has nothing to resolve and that its validation does not change. -/
def Settled (validate : Value → Option ExecutionContext) (data : Value) : Prop :=
  match executionContextOf validate data with
  | none => True
  | some ctx => ctx.trigger = none ∧ ctx.actions = [] ∧
    Value.Same (.dict (("ACTIONS",.dict []) :: ("TRIGGER",.none) :: ctx.others)) data

/-- The objects that the readers agree on: data that is no context to resolve, and whole collections of values.
A handle in a collection would have to be the very data that it stands for. -/
def Agreeing (p : Packages) (w : World) (validate : Value → Option ExecutionContext) (backend : Backend) :
    StoredObject → Prop
  | .inline data => Settled validate data
  | .external ref => backend = .s3 ∧ ∀ data, Holds p w ref data → Settled validate data
  | .collection coll => backend = .s3 ∧ coll.index = none ∧ (coll.elementKind = .storedObject →
      ∀ items, Stored p w coll items → ∀ item ∈ items, StandsFor p w item item)

variable {p : Packages} {validate : Value → Option ExecutionContext} {backend : Backend} {depth : ℕ} {w : World}
  {stored : StoredObject} {v : Value} {coll : CollectionObject} {items : List Value}

theorem holds_unique {ref : ObjectRef} {data data' : Value} (h : Holds p w ref data)
    (h' : Holds p w ref data') : data' = data := by
  obtain ⟨content,hblob,-,hloads⟩ := h
  obtain ⟨content',hblob',-,hloads'⟩ := h'
  obtain rfl : content' = content := Option.some.inj (hblob'.symm.trans hblob)
  exact Option.some.inj (hloads'.symm.trans hloads)

theorem gives_wholePage (hd : Distinct p w) (h : Stored p w coll items) :
    Gives (Reading p w) (getCollectionPage p coll 0 none) (.ok items) := by
  have hall : slice 0 (pageStop items.length (0 : ℕ) none).toNat items = items := slice_pageStop_none 0
  have hgives := gives_getCollectionPage hd h 0 none
  rw [hall] at hgives
  exact hgives

theorem stored_unique (hd : Distinct p w) (hc : Coherent p w) {items' : List Value} (h : Stored p w coll items)
    (h' : Stored p w coll items') : items' = items := by
  have hw : Reading p w w := ⟨rfl,hc⟩
  exact Except.ok.inj ((gives_wholePage hd h').unique (gives_wholePage hd h) hw)

theorem gives_retrieve (hp : p.Lawful) (hd : Distinct p w) (h : Kept p w stored v) :
    Gives (Reading p w) (retrieve p .s3 stored) (.ok v) := by
  cases h with
  | inline => exact Gives.pure v
  | external hs3 hholds => exact StorageState.gives_retrieve_external hd hholds hs3
  | whole hindex hstored =>
    rw [retrieve]
    simp only [hindex]
    exact (gives_wholePage hd hstored).bind (Gives.pure _)
  | item hindex hstored hitem =>
    rw [retrieve]
    simp only [hindex]
    exact gives_getCollectionItem hp hd hstored hitem

theorem resolveToInline_eq : resolveToInline p backend stored = retrieve p backend stored := by
  cases stored with
  | inline data => cases backend <;> rfl
  | external ref => rfl
  | collection coll => rfl

theorem resolveExecutionContext_ok {ctx : ExecutionContext} {resolved : Resolved} {w' : World}
    (h : exec (resolveExecutionContext p validate backend (depth+1) ctx) w = (.ok resolved,w')) :
    ∃ trigger actions, resolved = .context trigger actions ctx.others ∧ (trigger = none → ctx.trigger = none) ∧
      (actions = [] → ctx.actions = []) := by
  rw [resolveExecutionContext] at h
  obtain ⟨trigger,w₁,htrigger,h⟩ := exec_bind_ok h
  obtain ⟨actions,w₂,hactions,h⟩ := exec_bind_ok h
  refine ⟨trigger,actions,(Except.ok.inj (Prod.mk.inj h).1).symm,?_,?_⟩
  · rintro rfl
    cases hctx : ctx.trigger with
    | none => rfl
    | some stored =>
      rw [hctx, resolveTrigger] at htrigger
      obtain ⟨data,_,-,hdata⟩ := exec_bind_ok htrigger
      cases (Prod.mk.inj hdata).1
  · rintro rfl
    exact List.eq_nil_of_length_eq_zero (length_of_exec_mapM hactions).symm

theorem resolveExecutionContext_plain {ctx : ExecutionContext} (htrigger : ctx.trigger = none)
    (hactions : ctx.actions = []) :
    exec (resolveExecutionContext p validate backend (depth+1) ctx) w = (.ok (.context none [] ctx.others),w) := by
  rw [resolveExecutionContext, htrigger, hactions]
  rfl

theorem resolved_is_iff {w' : World} (h : exec (retrieve p backend stored) w = (.ok v,w')) :
    (∃ resolved, result (resolveTask p validate backend
        (resolveExecutionContext p validate backend (depth+1)) ⟨stored,none⟩) w = .ok resolved ∧ resolved.Is v) ↔
      Settled validate v := by
  rw [result, resolveTask, exec_bind, resolveToInline_eq, h]
  unfold Settled
  simp only
  cases hctx : executionContextOf validate v with
  | none =>
    refine ⟨fun _ => trivial,fun _ => ⟨.value v,?_,rfl⟩⟩
    rfl
  | some ctx =>
    simp only
    constructor
    · rintro ⟨resolved,hresolved,his⟩
      rcases hexec : exec (resolveExecutionContext p validate backend (depth+1) ctx) w' with ⟨e | resolved',w''⟩
      · rw [hexec] at hresolved
        cases hresolved
      · rw [hexec] at hresolved
        obtain rfl : resolved' = resolved := Except.ok.inj hresolved
        obtain ⟨trigger,actions,rfl,htrigger,hactions⟩ := resolveExecutionContext_ok hexec
        cases trigger with
        | some data => cases his
        | none =>
          cases actions with
          | cons action actions => cases his
          | nil => exact ⟨htrigger rfl,hactions rfl,his⟩
    · rintro ⟨htrigger,hactions,hsame⟩
      refine ⟨.context none [] ctx.others,?_,hsame⟩
      rw [resolveExecutionContext_plain htrigger hactions]

theorem agree_iff_of_retrieve {w' : World} (h : exec (retrieve p backend stored) w = (.ok v,w'))
    (hm : result (materializeTaskResult p backend ⟨stored,none⟩) w = .ok v) :
    Agree p validate backend (depth+1) w stored ↔ Settled validate v := by
  rw [← resolved_is_iff h]
  constructor
  · rintro ⟨v',resolved,hretrieve,hresolved,his,-⟩
    have hv : v = v' := by
      rw [result, h] at hretrieve
      exact Except.ok.inj hretrieve
    subst hv
    exact ⟨resolved,hresolved,his⟩
  · rintro ⟨resolved,hresolved,his⟩
    exact ⟨v,resolved,by rw [result, h],hresolved,his,hm⟩

theorem not_agree_of_error {e : StorageError} (h : result (retrieve p backend stored) w = .error e) :
    ¬ Agree p validate backend depth w stored := by
  rintro ⟨v,resolved,hretrieve,-⟩
  rw [h] at hretrieve
  cases hretrieve

theorem gives_materializeTaskResult {vs : List Value} {I : World → Prop}
    (h : Gives I (materializeCollectionValues p backend coll 0 none) (.ok vs)) :
    Gives I (materializeTaskResult p backend ⟨.collection coll,none⟩) (.ok (.list vs)) := by
  have hraw : Gives I (rawResult p backend (.collection coll)) (.ok (.list vs)) :=
    h.bind (Gives.pure _)
  rw [materializeTaskResult]
  apply hraw.bind
  exact Gives.pure _

theorem exists_elements (h : ∀ item ∈ items, ∃ v, StandsFor p w item v) :
    ∃ vs, List.Forall₂ (StandsFor p w) items vs := by
  induction items with
  | nil => exact ⟨[],.nil⟩
  | cons item items ih =>
    obtain ⟨v,hv⟩ := h item List.mem_cons_self
    obtain ⟨vs,hvs⟩ := ih fun i hi => h i (List.mem_cons_of_mem item hi)
    exact ⟨v :: vs,.cons hv hvs⟩

theorem gives_elements (hp : p.Lawful) (hd : Distinct p w) (hstored : Stored p w coll items)
    (hkind : coll.elementKind = .storedObject) {vs : List Value}
    (h : List.Forall₂ (StandsFor p w) items vs) :
    Gives (Reading p w) (materializeCollectionValues p .s3 coll 0 none) (.ok vs) := by
  have hall : slice 0 (pageStop items.length (0 : ℕ) none).toNat items = items := slice_pageStop_none 0
  apply gives_materialize_objects hd hstored hkind .s3 0 none
  rw [hall]
  apply h.imp
  rintro item v ⟨stored,hvalid,hkept⟩
  exact ⟨stored,hvalid,gives_retrieve hp hd hkept⟩

theorem gives_values (backend : Backend) (hd : Distinct p w) (hstored : Stored p w coll items)
    (hkind : coll.elementKind = .value) :
    Gives (Reading p w) (materializeCollectionValues p backend coll 0 none) (.ok items) := by
  have hall : slice 0 (pageStop items.length (0 : ℕ) none).toNat items = items := slice_pageStop_none 0
  have hgives := gives_materialize_values hd hstored hkind backend 0 none
  rw [hall] at hgives
  exact hgives

theorem settled_list (vs : List Value) : Settled validate (.list vs) := trivial

theorem list_not_mem (vs : List Value) : Value.list vs ∉ vs := by
  intro h
  have hlt := List.sizeOf_lt_of_mem h
  simp only [Value.list.sizeOf_spec] at hlt
  omega

theorem agree_inline_iff (data : Value) :
    Agree p validate backend (depth+1) w (.inline data) ↔ Agreeing p w validate backend (.inline data) := by
  have hretrieve : exec (retrieve p backend (.inline data)) w = (.ok data,w) := by
    cases backend <;> rfl
  exact agree_iff_of_retrieve hretrieve rfl

section
variable (hp : p.Lawful) (hc : Coherent p w) (hd : Distinct p w)
include hp hc hd

theorem agree_external_iff {ref : ObjectRef} (h : WellStored p w (.external ref)) :
    Agree p validate backend (depth+1) w (.external ref) ↔ Agreeing p w validate backend (.external ref) := by
  obtain ⟨hs3,data,hdata⟩ := h
  cases backend with
  | inline =>
    refine ⟨fun hagree => absurd hagree (not_agree_of_error rfl),?_⟩
    rintro ⟨hbackend,-⟩
    cases hbackend
  | s3 =>
    have hgives := gives_retrieve hp hd (Kept.external hs3 hdata) w ⟨rfl,hc⟩
    have hraw : result (materializeTaskResult p .s3 ⟨.external ref,none⟩) w = .ok data :=
      ((gives_retrieve hp hd (Kept.external hs3 hdata)).bind (Gives.pure data) w ⟨rfl,hc⟩).1
    rw [agree_iff_of_retrieve (Prod.ext hgives.1 rfl) hraw]
    constructor
    · intro hsettled
      refine ⟨rfl,?_⟩
      intro data' hdata'
      rw [holds_unique hdata hdata']
      exact hsettled
    · intro hagreeing
      exact hagreeing.2 data hdata

theorem agree_whole_iff (hstored : Stored p w coll items) (hindex : coll.index = none)
    (hkind : coll.elementKind = .storedObject) (hitems : ∀ item ∈ items, ∃ v, StandsFor p w item v) :
    Agree p validate .s3 (depth+1) w (.collection coll) ↔ ∀ item ∈ items, StandsFor p w item item := by
  have hw : Reading p w w := ⟨rfl,hc⟩
  have hgives := gives_retrieve hp hd (Kept.whole hindex hstored)
  constructor
  · rintro ⟨v,-,hretrieve,-,-,hraw⟩
    obtain ⟨vs,hvs⟩ := exists_elements hitems
    have hmaterialized := (gives_materializeTaskResult (gives_elements hp hd hstored hkind hvs) w hw).1
    have hlist : Value.list vs = .list items :=
      (Except.ok.inj (hmaterialized.symm.trans hraw)).trans
        (Except.ok.inj (hretrieve.symm.trans (hgives w hw).1))
    obtain rfl : vs = items := Value.list.inj hlist
    exact List.forall₂_same.mp hvs
  · intro hown
    have hvs : List.Forall₂ (StandsFor p w) items items := List.forall₂_same.mpr hown
    have hmaterialized := gives_materializeTaskResult (gives_elements hp hd hstored hkind hvs) w hw
    exact (agree_iff_of_retrieve (Prod.ext (hgives w hw).1 rfl) hmaterialized.1).mpr (settled_list items)

theorem not_agree_of_index (hstored : Stored p w coll items) {index : ℤ} (hindex : coll.index = some index)
    (hitems : coll.elementKind = .storedObject → ∀ item ∈ items, ∃ v, StandsFor p w item v) :
    ¬ Agree p validate .s3 depth w (.collection coll) := by
  have hw : Reading p w w := ⟨rfl,hc⟩
  cases hitem : pyGet? items index with
  | none =>
    obtain ⟨message,hgives⟩ := gives_getCollectionItem_error hstored.count hitem
    apply not_agree_of_error
    rw [result, retrieve]
    simp only [hindex]
    exact (hgives w hw).1
  | some item =>
    have hmem : item ∈ items := by
      unfold pyGet? at hitem
      split_ifs at hitem
      · exact List.mem_of_getElem? hitem
      · exact List.mem_of_getElem? hitem
    have hretrieved := (gives_retrieve hp hd (Kept.item hindex hstored hitem) w hw).1
    rintro ⟨v,-,hretrieve,-,-,hraw⟩
    obtain rfl : item = v := Except.ok.inj (hretrieved.symm.trans hretrieve)
    cases hkind : coll.elementKind with
    | value =>
      have hmaterialized := (gives_materializeTaskResult (gives_values .s3 hd hstored hkind) w hw).1
      have hlist : Value.list items = item := Except.ok.inj (hmaterialized.symm.trans hraw)
      -- a list is none of its own elements
      rw [← hlist] at hmem
      exact list_not_mem items hmem
    | storedObject =>
      obtain ⟨vs,hvs⟩ := exists_elements (hitems hkind)
      have hmaterialized := (gives_materializeTaskResult (gives_elements hp hd hstored hkind hvs) w hw).1
      have hlist : Value.list vs = item := Except.ok.inj (hmaterialized.symm.trans hraw)
      -- a list is no handle
      obtain ⟨-,stored,hvalid,-⟩ := hitems hkind item hmem
      obtain ⟨entries,hdict⟩ := dictOf_of_validateStoredObject hvalid
      cases hlist.trans hdict

theorem agree_collection_iff (h : WellStored p w (.collection coll)) :
    Agree p validate backend (depth+1) w (.collection coll) ↔ Agreeing p w validate backend (.collection coll) := by
  obtain ⟨items,hstored,hitems⟩ := h
  cases backend with
  | inline =>
    refine ⟨fun hagree => absurd hagree (not_agree_of_error rfl),?_⟩
    rintro ⟨hbackend,-⟩
    cases hbackend
  | s3 =>
    cases hindex : coll.index with
    | some index =>
      refine ⟨fun hagree => absurd hagree (not_agree_of_index hp hc hd hstored hindex hitems),?_⟩
      rintro ⟨-,hnone,-⟩
      rw [hindex] at hnone
      cases hnone
    | none =>
      have hw : Reading p w w := ⟨rfl,hc⟩
      have hgives := (gives_retrieve hp hd (Kept.whole hindex hstored) w hw).1
      cases hkind : coll.elementKind with
      | value =>
        have hraw := (gives_materializeTaskResult (gives_values .s3 hd hstored hkind) w hw).1
        refine iff_of_true ((agree_iff_of_retrieve (Prod.ext hgives rfl) hraw).mpr (settled_list items)) ?_
        refine ⟨rfl,hindex,?_⟩
        intro hobjects
        rw [hkind] at hobjects
        cases hobjects
      | storedObject =>
        rw [agree_whole_iff hp hc hd hstored hindex hkind (hitems hkind)]
        constructor
        · intro hown
          refine ⟨rfl,hindex,?_⟩
          intro _ items' hstored'
          rw [stored_unique hd hc hstored hstored']
          exact hown
        · intro hagreeing
          exact hagreeing.2.2 hkind items hstored

end

/-- In every run, the readers agree on a stored object exactly when it is data that is no context to resolve,
or a whole collection of values. -/
theorem readers_agree_iff (hp : p.Lawful) {config : StorageConfig} {st : StorageState}
    (hst : Runs.Reaches (StorageState.next p config) (StorageState.Allowed p config) StorageState.first st)
    (hd : Distinct p st.world) (h : WellStored p st.world stored) :
    Agree p validate backend (depth+1) st.world stored ↔ Agreeing p st.world validate backend stored := by
  have hc := (StorageState.sound_of_reaches hp hst).coherent
  cases stored with
  | inline data => exact agree_inline_iff data
  | external ref => exact agree_external_iff hp hc hd h
  | collection coll => exact agree_collection_iff hp hc hd h

/-- A task of a scatter gives the item of its collection to both readers of a task. -/
theorem scattered_item_agrees (hd : Distinct p w) (hc : Coherent p w) (hstored : Stored p w coll items)
    (hindex : coll.index = none) (hkind : coll.elementKind = .value) {i : ℤ} (hitem : pyGet? items i = some v)
    (nested : ExecutionContext → StorageM Resolved) :
    result (materializeTaskResult p .s3 ⟨.collection coll,some i⟩) w = .ok v ∧
      result (resolveTask p validate .s3 nested ⟨.collection coll,some i⟩) w = .ok (.value v) := by
  have hw : Reading p w w := ⟨rfl,hc⟩
  have hpicked : atCollectionIndex (some i) (.list items) = pure v := by
    rw [atCollectionIndex]
    simp only [hitem]
  have hpick : Gives (Reading p w) (atCollectionIndex (some i) (.list items)) (.ok v) := by
    rw [hpicked]
    exact Gives.pure v
  have hraw : Gives (Reading p w) (rawResult p .s3 (.collection coll)) (.ok (.list items)) :=
    (gives_values .s3 hd hstored hkind).bind (Gives.pure _)
  have hinline : Gives (Reading p w) (resolveToInline p .s3 (.collection coll)) (.ok (.list items)) := by
    rw [resolveToInline_eq, retrieve]
    simp only [hindex]
    exact (gives_wholePage hd hstored).bind (Gives.pure _)
  refine ⟨(hraw.bind hpick w hw).1,?_⟩
  exact (hinline.bind (hpick.bind (Gives.pure (Resolved.value v))) w hw).1

theorem result_of_gives {β : Type} {m : StorageM β} {I : World → Prop} {r : Except StorageError β} (h : Gives I m r) (hw : I w) :
    result m w = r := (h w hw).1

theorem stored_atIndex (hstored : Stored p w coll items) (index : ℤ) : Stored p w (coll.atIndex index) items :=
  ⟨hstored.count,hstored.chunkSize,hstored.dumps,hstored.documents⟩

theorem readers_agree_sample :
    Agree sampleTables.packages (fun _ => none) .s3 1 sampleWorld (.collection sampleCollection) := by
  have hlawful := sampleTables.lawful sampleTables_complete
  have hstored := ((StorageState.sound_of_reaches hlawful reaches_sample).collections
    sampleCollection sampleItems List.mem_cons_self).1
  have hkind : sampleCollection.elementKind ≠ .storedObject := by decide
  apply (readers_agree_iff hlawful reaches_sample distinct_sample ?_).mpr
  · exact ⟨rfl,rfl,fun h => absurd h hkind⟩
  · exact ⟨sampleItems,hstored,fun h => absurd h hkind⟩

theorem scattered_item_sample :
    result (resolveTask sampleTables.packages (fun _ => none) .s3 (fun _ => throw .attributeError)
      ⟨.collection sampleCollection,some 0⟩) sampleWorld = .ok (.value (.str "a")) := by
  have hsound := StorageState.sound_of_reaches (sampleTables.lawful sampleTables_complete) reaches_sample
  have hstored := (hsound.collections sampleCollection sampleItems List.mem_cons_self).1
  have hitem : pyGet? sampleItems 0 = some (.str "a") := by decide
  exact (@scattered_item_agrees _ (fun _ => none) _ _ _ _ distinct_sample hsound.coherent hstored rfl rfl _ hitem _).2

/-- The handle of the first item is all items to a task. -/
theorem indexed_handle_disagrees :
    result (retrieve sampleTables.packages .s3 (.collection (sampleCollection.atIndex 0))) sampleWorld =
        .ok (.str "a") ∧
      result (materializeTaskResult sampleTables.packages .s3 ⟨.collection (sampleCollection.atIndex 0),none⟩)
        sampleWorld = .ok (.list [.str "a",.str "b"]) := by
  have hlawful := sampleTables.lawful sampleTables_complete
  have hsound := StorageState.sound_of_reaches hlawful reaches_sample
  have hstored := (hsound.collections sampleCollection sampleItems List.mem_cons_self).1
  have hindexed := stored_atIndex hstored 0
  have hw : Reading sampleTables.packages sampleWorld sampleWorld := ⟨rfl,hsound.coherent⟩
  have hitem : pyGet? sampleItems 0 = some (.str "a") := by decide
  refine ⟨result_of_gives (gives_retrieve hlawful distinct_sample (Kept.item rfl hindexed hitem)) hw,?_⟩
  exact result_of_gives (gives_materializeTaskResult (gives_values .s3 distinct_sample hindexed rfl)) hw

end Storage
end Allama

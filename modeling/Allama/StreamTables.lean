import Allama.ActionKeys
import Allama.ParentTables
import Allama.StreamReads

/-! `streams` and `stream_hierarchy` as the dicts that they are, under the texts of the ids, and their lookups
(`dsl/scheduler.py`). -/
namespace Allama
open Function Relation

namespace StreamIds

def ofIndex : StreamIndex → Index
  | .item i => .int i
  | .skip => .skip

theorem ofIndex_injective {i j : StreamIndex} (h : ofIndex i = ofIndex j) : i = j := by
  cases i with
  | item i =>
    cases j with
    | item j => rw [Int.ofNat_inj.mp (Index.int.inj h)]
    | skip => cases h
  | skip =>
    cases j with
    | item j => cases h
    | skip => rfl

theorem str_ofIndex (i : StreamIndex) : (ofIndex i).str = i.render := by
  cases i <;> rfl

theorem render_root : StreamID.root.render = rootStream := rfl

theorem render_child (p : StreamID) (x : String) (i : StreamIndex) :
    (StreamID.child p x i).render = idText x (ofIndex i) (some p.render) := by
  rw [StreamID.render, idText, segment, str_ofIndex]
  simp only [String.append_assoc]

end StreamIds

open StreamIds

/-- Every scope of the id is one of the refs. -/
def StreamID.ScopesIn (refs : List String) : StreamID → Prop
  | .root => True
  | .child p x _ => x ∈ refs ∧ p.ScopesIn refs

theorem StreamID.render_injective {refs : List String} (hslug : ∀ r ∈ refs, isSlug r) {s s' : StreamID}
    (hs : s.ScopesIn refs) (hs' : s'.ScopesIn refs) (h : s.render = s'.render) : s = s' := by
  induction s generalizing s' with
  | root =>
    cases s' with
    | root => rfl
    | child p x i =>
      rw [render_root, render_child, rootStream] at h
      have hbase := (idText_injective unseparated_rootScope (unseparated_of_isSlug (hslug x hs'.1)) h).2.2
      cases hbase
  | child p x i ih =>
    cases s' with
    | root =>
      rw [render_root, render_child, rootStream] at h
      have hbase := (idText_injective (unseparated_of_isSlug (hslug x hs.1)) unseparated_rootScope h).2.2
      cases hbase
    | child p' x' i' =>
      rw [render_child, render_child] at h
      obtain ⟨hx,hi,hp⟩ := idText_injective (unseparated_of_isSlug (hslug x hs.1))
        (unseparated_of_isSlug (hslug x' hs'.1)) h
      rw [hx, ofIndex_injective hi, ih hs.2 hs'.2 (Option.some.inj hp)]

theorem StreamID.leaf_render {refs : List String} (hslug : ∀ r ∈ refs, isSlug r) {s : StreamID} (hs : s.ScopesIn refs)
    (hindex : (ofIndex s.leaf.2).Converts) : StreamIds.leaf s.render = .ok (s.leaf.1,ofIndex s.leaf.2) := by
  cases s with
  | root =>
    rw [render_root]
    exact leaf_idText unseparated_rootScope hindex none
  | child p x i =>
    rw [render_child]
    exact leaf_idText (unseparated_of_isSlug (hslug x hs.1)) hindex _

/-- `stream_id.endswith(":skip")` asks for the index of the leaf. -/
theorem StreamID.isSkip_render (s : StreamID) : s.isSkip ↔ ":skip".toList <:+ s.render.toList := by
  have hindex : ∀ i : StreamIndex, ofIndex i = .skip ↔ i = .skip :=
    fun i => ⟨fun h => ofIndex_injective h,fun h => by rw [h]; rfl⟩
  have htoken : ":skip".toList = ':' :: skipToken.toList := rfl
  rw [StreamID.isSkip, decide_eq_true_eq, ← hindex, htoken]
  cases s with
  | root =>
    rw [render_root, rootStream, idText, toList_segment, skip_suffix_iff]
    rfl
  | child p x i =>
    have hlist : (StreamID.child p x i).render.toList =
        (p.render.toList ++ '/' :: x.toList) ++ ':' :: (ofIndex i).str.toList := by
      rw [render_child, toList_idText, toList_segment, List.append_assoc, List.cons_append]
    rw [hlist, skip_suffix_iff]
    rfl

structure StreamTables where
  streams : String → Option ExecutionContext
  streamHierarchy : ParentTables.Table String

namespace StreamTables

def init (context : ExecutionContext) : StreamTables where
  streams := update (fun _ => none) rootStream (some context)
  streamHierarchy := update (fun _ => none) rootStream (some none)

/-- What `_queue_skip_stream`, `_handle_scatter_skip_stream` and the loop of `_handle_scatter` do with a new id. -/
def openStream (T : StreamTables) (newStreamId streamId : String) (context : ExecutionContext) : StreamTables where
  streams := update T.streams newStreamId (some context)
  streamHierarchy := update T.streamHierarchy newStreamId (some (some streamId))

def entry (T : StreamTables) (actionRef id : String) : Option TaskResult :=
  (T.streams id).bind fun context => context.actions actionRef

/-- The loop of `get_stream_aware_action_result`, for so many rounds; a context is never empty, so it is always
looked at. -/
def getStreamAwareActionResult (T : StreamTables) (actionRef : String) (rounds : ℕ) (currStream : Option String) :
    Option (Option TaskResult) :=
  ParentTables.climb T.streamHierarchy (T.entry actionRef) rounds currStream

/-- The dicts change in two ways: a stream is opened under the ref of an action below a stream that is there, or the
contexts that are there are written to. -/
inductive Step (refs : List String) (T : StreamTables) : StreamTables → Prop
  | opens {ref streamId : String} (index : Index) (context : ExecutionContext) : ref ∈ refs →
      (T.streamHierarchy streamId).isSome →
      Step refs T (T.openStream (idText ref index (some streamId)) streamId context)
  | writes (streams : String → Option ExecutionContext) : (∀ id, (streams id).isSome = (T.streams id).isSome) →
      Step refs T {T with streams := streams}

/-- The dicts that the steps make of the first ones. -/
def Reached (refs : List String) (context : ExecutionContext) (T : StreamTables) : Prop :=
  ReflTransGen (Step refs) (init context) T

/-- A tree below the root's id, in which every other id is made of its parent's. -/
structure Sound (refs : List String) (T : StreamTables) : Prop where
  tree : ParentTables.IsTree T.streamHierarchy rootStream
  parent : ∀ id p, T.streamHierarchy id = some (some p) → ∃ ref index, ref ∈ refs ∧ id = idText ref index (some p)
  context : ∀ id, (T.streams id).isSome = (T.streamHierarchy id).isSome
  indexed : ∀ id, (T.streamHierarchy id).isSome → Indexed id

theorem indexed_segment (scope : String) (index : Index) : ':' ∈ (segment scope index).toList := by
  rw [toList_segment]
  simp

section
variable {refs : List String} {T T' : StreamTables} {context : ExecutionContext} {id id' p : String}

@[simp] theorem hierarchy_init_root : (init context).streamHierarchy rootStream = some none := by
  simp only [init, update_self]

theorem hierarchy_init_other (h : id ≠ rootStream) : (init context).streamHierarchy id = none := by
  simp only [init, update_of_ne h]

@[simp] theorem streams_init_root : (init context).streams rootStream = some context := by
  simp only [init, update_self]

theorem streams_init_other (h : id ≠ rootStream) : (init context).streams id = none := by
  simp only [init, update_of_ne h]

@[simp] theorem hierarchy_openStream_self : (T.openStream id p context).streamHierarchy id = some (some p) :=
  update_self ..

theorem hierarchy_openStream_other (h : id' ≠ id) :
    (T.openStream id p context).streamHierarchy id' = T.streamHierarchy id' := update_of_ne h ..

@[simp] theorem streams_openStream_self : (T.openStream id p context).streams id = some context :=
  update_self ..

theorem streams_openStream_other (h : id' ≠ id) : (T.openStream id p context).streams id' = T.streams id' :=
  update_of_ne h ..

theorem sound_init (context : ExecutionContext) : (init context).Sound refs := by
  refine ⟨ParentTables.isTree_single rootStream,?_,?_,?_⟩
  · intro id p hp
    by_cases hid : id = rootStream
    · rw [hid, hierarchy_init_root] at hp
      cases hp
    · rw [hierarchy_init_other hid] at hp
      cases hp
  · intro id
    by_cases hid : id = rootStream
    · rw [hid, streams_init_root, hierarchy_init_root]
      rfl
    · rw [streams_init_other hid, hierarchy_init_other hid]
      rfl
  · intro id hsome
    by_cases hid : id = rootStream
    · rw [hid, Indexed, rootStream, streams_idText unseparated_rootScope]
      intro segment hsegment
      rw [List.mem_singleton.mp hsegment]
      exact indexed_segment ..
    · rw [hierarchy_init_other hid] at hsome
      cases hsome

theorem idText_ne_root {ref : String} (href : isSlug ref) (index : Index) (p : String) :
    idText ref index (some p) ≠ rootStream := by
  intro h
  have hbase := (idText_injective (unseparated_of_isSlug href) unseparated_rootScope h).2.2
  cases hbase

section
variable (hslug : ∀ r ∈ refs, isSlug r) (h : T.Sound refs)
include hslug h

theorem Sound.parent_unique {ref p : String} {index : Index} (href : ref ∈ refs) {v : Option String}
    (hv : T.streamHierarchy (idText ref index (some p)) = some v) : v = some p := by
  cases v with
  | none =>
    have hreaches := h.tree.reaches _ (by rw [hv]; rfl)
    have hroot := ParentTables.encloses_top hv hreaches
    exact absurd hroot.symm (idText_ne_root (hslug ref href) index p)
  | some p' =>
    obtain ⟨ref',index',href',heq⟩ := h.parent _ _ hv
    have hbase := (idText_injective (unseparated_of_isSlug (hslug ref href))
      (unseparated_of_isSlug (hslug ref' href')) heq).2.2
    exact hbase.symm

theorem Sound.opens {ref p : String} (index : Index) (context : ExecutionContext) (href : ref ∈ refs)
    (hp : (T.streamHierarchy p).isSome) : (T.openStream (idText ref index (some p)) p context).Sound refs := by
  refine ⟨?_,?_,?_,?_⟩
  · exact h.tree.put hp (idText_ne_root (hslug ref href) index p) fun v hv => h.parent_unique hslug href hv
  · intro id q hq
    by_cases hid : id = idText ref index (some p)
    · rw [hid, hierarchy_openStream_self] at hq
      rw [hid, ← Option.some.inj (Option.some.inj hq)]
      exact ⟨ref,index,href,rfl⟩
    · rw [hierarchy_openStream_other hid] at hq
      exact h.parent id q hq
  · intro id
    by_cases hid : id = idText ref index (some p)
    · rw [hid, streams_openStream_self, hierarchy_openStream_self]
      rfl
    · rw [streams_openStream_other hid, hierarchy_openStream_other hid]
      exact h.context id
  · intro id hsome
    by_cases hid : id = idText ref index (some p)
    · -- the segments of the parent, and one with an index
      rw [hid, Indexed, streams_idText (unseparated_of_isSlug (hslug ref href))]
      intro segment hsegment
      rcases List.mem_append.mp hsegment with hbase | hlast
      · exact h.indexed p hp segment hbase
      · rw [List.mem_singleton.mp hlast]
        exact indexed_segment ..
    · rw [hierarchy_openStream_other hid] at hsome
      exact h.indexed id hsome

theorem Sound.step (hstep : Step refs T T') : T'.Sound refs := by
  cases hstep with
  | opens index context href hp => exact h.opens hslug index context href hp
  | writes streams hsame => exact ⟨h.tree,h.parent,fun id => (hsame id).trans (h.context id),h.indexed⟩

end

theorem sound_of_reached (hslug : ∀ r ∈ refs, isSlug r) (h : T.Reached refs context) : T.Sound refs := by
  induction h with
  | refl => exact sound_init context
  | tail _ hstep ih => exact ih.step hslug hstep

end

/-- The dicts hold what the streams of the scheduler are, each under its own id, and nothing else. -/
structure Holds (T : StreamTables) (c : Contexts) : Prop where
  keys : ∀ id, (T.streamHierarchy id).isSome → ∃ s, (c.streamHierarchy s).isSome ∧ s.render = id
  distinct : ∀ s s', (c.streamHierarchy s).isSome → (c.streamHierarchy s').isSome → s.render = s'.render → s = s'
  hierarchy : ∀ s, (c.streamHierarchy s).isSome →
    T.streamHierarchy s.render = (c.streamHierarchy s).map (Option.map StreamID.render)
  streams : ∀ s, (c.streamHierarchy s).isSome → T.streams s.render = c.streams s

section
variable {refs : List String} {T : StreamTables} {c c' : Contexts} {context : ExecutionContext}

theorem holds_init (context : ExecutionContext) : (init context).Holds (.init context) := by
  have honly : ∀ s, ((Contexts.init context).streamHierarchy s).isSome → s = .root := by
    intro s hs
    by_contra hne
    simp only [Contexts.init, update_of_ne hne] at hs
    cases hs
  refine ⟨?_,?_,?_,?_⟩
  · intro id hid
    refine ⟨.root,rfl,?_⟩
    by_contra hne
    rw [hierarchy_init_other fun heq => hne (render_root.trans heq.symm)] at hid
    cases hid
  · intro s s' hs hs' _
    rw [honly s hs, honly s' hs']
  · intro s hs
    rw [honly s hs, render_root, hierarchy_init_root]
    simp only [Contexts.init, update_self]
    rfl
  · intro s hs
    rw [honly s hs, render_root, streams_init_root]
    simp only [Contexts.init, update_self]

theorem Holds.opens (h : T.Holds c) (hslug : ∀ r ∈ refs, isSlug r) {p : StreamID} {x : String} {i : StreamIndex}
    (hscopes : ∀ s, ((c.openStream (.child p x i) p context).streamHierarchy s).isSome → s.ScopesIn refs) :
    (T.openStream (idText x (ofIndex i) (some p.render)) p.render context).Holds
      (c.openStream (.child p x i) p context) := by
  have hself : (c.openStream (.child p x i) p context).streamHierarchy (.child p x i) = some (some p) := by
    simp only [Contexts.openStream, update_self]
  have hother : ∀ s, s ≠ .child p x i →
      (c.openStream (.child p x i) p context).streamHierarchy s = c.streamHierarchy s := by
    intro s hs
    simp only [Contexts.openStream, update_of_ne hs]
  have hdistinct : ∀ s s', ((c.openStream (.child p x i) p context).streamHierarchy s).isSome →
      ((c.openStream (.child p x i) p context).streamHierarchy s').isSome → s.render = s'.render → s = s' := by
    intro s s' hs hs'
    exact StreamID.render_injective hslug (hscopes s hs) (hscopes s' hs')
  -- no other stream reads as the new one
  have hrender : ∀ s, ((c.openStream (.child p x i) p context).streamHierarchy s).isSome → s ≠ .child p x i →
      s.render ≠ idText x (ofIndex i) (some p.render) := by
    intro s hs hne heq
    rw [← render_child] at heq
    exact hne (hdistinct s _ hs (by rw [hself]; rfl) heq)
  refine ⟨?_,hdistinct,?_,?_⟩
  · intro id hid
    by_cases hnew : id = idText x (ofIndex i) (some p.render)
    · exact ⟨.child p x i,by rw [hself]; rfl,by rw [hnew, render_child]⟩
    · rw [hierarchy_openStream_other hnew] at hid
      obtain ⟨s,hs,rfl⟩ := h.keys id hid
      have hne : s ≠ .child p x i := fun heq => hnew (by rw [heq, render_child])
      exact ⟨s,by rw [hother s hne]; exact hs,rfl⟩
  · intro s hs
    by_cases hne : s = .child p x i
    · rw [hne, hself, render_child, hierarchy_openStream_self]
      rfl
    · rw [hierarchy_openStream_other (hrender s hs hne)]
      rw [hother s hne] at hs ⊢
      exact h.hierarchy s hs
  · intro s hs
    by_cases hne : s = .child p x i
    · rw [hne, render_child, streams_openStream_self]
      simp only [Contexts.openStream, update_self]
    · rw [streams_openStream_other (hrender s hs hne)]
      rw [hother s hne] at hs
      rw [h.streams s hs]
      simp only [Contexts.openStream, update_of_ne hne]

theorem Holds.writes (h : T.Holds c) (hcontext : ∀ id, (T.streams id).isSome = (T.streamHierarchy id).isSome)
    (hc : c.SameStreams c') : ∃ T', Step refs T T' ∧ T'.Holds c' := by
  -- the contexts of the streams that are there, under their ids
  let id : {s // (c.streamHierarchy s).isSome} → String := fun s => s.1.render
  have hinj : Function.Injective id := fun s s' heq => Subtype.ext (h.distinct s.1 s'.1 s.2 s'.2 heq)
  let written : String → Option ExecutionContext := Function.extend id (fun s => c'.streams s.1) fun _ => none
  have hwritten : ∀ s, (c.streamHierarchy s).isSome → written s.render = c'.streams s :=
    fun s hs => hinj.extend_apply (fun s => c'.streams s.1) (fun _ => none) ⟨s,hs⟩
  have hsame : ∀ a, (written a).isSome = (T.streams a).isSome := by
    intro a
    by_cases ha : (T.streamHierarchy a).isSome
    · obtain ⟨s,hs,rfl⟩ := h.keys a ha
      rw [hwritten s hs, h.streams s hs]
      exact hc.streams s
    · have hnone : written a = none := by
        apply Function.extend_apply'
        rintro ⟨s,rfl⟩
        apply ha
        rw [show T.streamHierarchy (id s) = _ from h.hierarchy s.1 s.2, Option.isSome_map]
        exact s.2
      rw [hnone, hcontext a]
      simpa using ha
  refine ⟨{T with streams := written},.writes written hsame,?_⟩
  have hhierarchy := hc.hierarchy
  refine ⟨?_,?_,?_,?_⟩
  · rw [hhierarchy]
    exact h.keys
  · rw [hhierarchy]
    exact h.distinct
  · rw [hhierarchy]
    exact h.hierarchy
  · rw [hhierarchy]
    exact hwritten

end

section
variable {A : Activities} {dsl : DSLInput} {st : State} {context : ExecutionContext}

theorem scopesIn (h : Core dsl st) (s : StreamID) (hs : (st.contexts.streamHierarchy s).isSome) :
    s.ScopesIn dsl.refs := by
  induction s with
  | root => trivial
  | child p x i ih =>
    refine ⟨?_,ih (h.registered.up p x i hs)⟩
    have hscatter : dsl.IsScatter x := h.opened_scatter (h.openers p x i hs)
    by_contra hmem
    rw [DSLInput.IsScatter, DSLInput.task_of_not_mem hmem] at hscatter
    cases hscatter

theorem exists_holds (hacc : dsl.Accepted) (h : Run A dsl context (fun _ _ => True) st) :
    ∃ T, Reached dsl.refs context T ∧ T.Holds st.contexts := by
  have hwf := wellFormed_of_accepted hacc
  have hslug := hacc.1
  refine h.invariant (P := fun st => ∃ T, Reached dsl.refs context T ∧ T.Holds st.contexts)
    ⟨init context,.refl,holds_init context⟩ ?_
  intro st choice st' hr hT _ hs
  obtain ⟨T,hreached,hholds⟩ := hT
  have hcore := Run.core hwf hr
  have hcore' := core_step hwf hcore hs
  cases choice with
  | dequeue =>
    obtain ⟨t,delay,queue,hdeq⟩ := dequeue_cases hcore hs
    rw [hdeq.next]
    exact ⟨T,hreached,hholds⟩
  | resume t =>
    obtain ⟨pc,st1,ending,hres⟩ := resume_cases hwf hcore hs
    have hcontexts : st'.contexts = st1.contexts := by rw [hres.next, finish_contexts]
    rcases hres.cases.contexts with hsame | ⟨i,ctx,-,hopen⟩
    · rw [← hcontexts] at hsame
      obtain ⟨T',hstep,hholds'⟩ := hholds.writes (sound_of_reached hslug hreached).context hsame
      exact ⟨T',hreached.tail hstep,hholds'⟩
    · have hopened : st'.contexts = _ := hcontexts.trans hopen
      have hscopes := scopesIn hcore'
      rw [hopened] at hscopes ⊢
      have hstarted : t ∈ st.flow.started :=
        List.mem_append_left _ (hcore.counted.scheduled_of_status (by rw [hres.before]; simp))
      have hthere := hcore.started t hstarted
      have hbase : (T.streamHierarchy t.streamId.render).isSome := by
        rw [hholds.hierarchy _ hthere, Option.isSome_map]
        exact hthere
      have href : t.ref ∈ dsl.refs := (hscopes (.child t.streamId t.ref i) (by simp [Contexts.openStream])).1
      exact ⟨_,hreached.tail (.opens (ofIndex i) ctx href hbase),hholds.opens hslug hscopes⟩

end

section
variable {refs : List String} {T : StreamTables} {c : Contexts}

/-- The ids form a finite tree in which an id extends that of its parent; from any id the lookup of a result ends, with
that of the nearest enclosing stream that has one; and no object of the run is stored for two streams or two actions. -/
structure Addressed (refs : List String) (T : StreamTables) : Prop where
  tree : ParentTables.IsTree T.streamHierarchy rootStream
  parent : ∀ id p, T.streamHierarchy id = some (some p) → p.toList <+: id.toList ∧ p ≠ id
  search : ∀ ref id, ∃ n r, ParentTables.Finds T.streamHierarchy (T.entry ref) id r ∧
    ∀ rounds, n ≤ rounds → T.getStreamAwareActionResult ref rounds (some id) = some r
  keys : ∀ workspaceId wfExecId id id' ref ref' key, (T.streamHierarchy id).isSome → (T.streamHierarchy id').isSome →
    ref ∈ refs → ref' ∈ refs → IsObjectKey workspaceId wfExecId id ref key →
      IsObjectKey workspaceId wfExecId id' ref' key → id = id' ∧ ref = ref'

theorem Sound.search (h : T.Sound refs) (ref id : String) :
    ∃ n r, ParentTables.Finds T.streamHierarchy (T.entry ref) id r ∧
      ∀ rounds, n ≤ rounds → T.getStreamAwareActionResult ref rounds (some id) = some r := by
  by_cases hid : (T.streamHierarchy id).isSome
  · exact ParentTables.climb_finds h.tree.top (h.tree.reaches id hid)
  · have hparent : T.streamHierarchy id = none := by simpa using hid
    have hstream : T.streams id = none := by
      have hsome := h.context id
      rw [hparent] at hsome
      exact Option.isNone_iff_eq_none.mp (Option.isSome_eq_false_iff.mp hsome)
    have hentry : T.entry ref id = none := by rw [entry, hstream, Option.bind_none]
    exact ⟨1,none,ParentTables.climb_absent hparent hentry⟩

theorem Sound.addressed (hslug : ∀ r ∈ refs, isSlug r) (h : T.Sound refs) : T.Addressed refs := by
  refine ⟨h.tree,?_,h.search,?_⟩
  · intro id p hp
    obtain ⟨ref,index,-,rfl⟩ := h.parent id p hp
    exact base_prefix ref index p
  · intro workspaceId wfExecId id id' ref ref' key hid hid' href href' hkey hkey'
    exact objectKey_unique (h.indexed id hid) (h.indexed id' hid') (hslug ref href) (hslug ref' href') hkey hkey'

end

/-- In every reachable state the dicts of the streams, which come about by their own steps and hold what the streams of
the scheduler are, have these properties, and their ids are read back as what they are made of: their leaves and their
skips are those of the streams. -/
theorem streams_addressed {A : Activities} {dsl : DSLInput} {context : ExecutionContext} {st : State}
    (hacc : dsl.Accepted) (h : Run A dsl context (fun _ _ => True) st) :
    (∃ T, Reached dsl.refs context T ∧ T.Holds st.contexts ∧ T.Addressed dsl.refs) ∧ Invertible ∧
      ∀ s : StreamID, (s.isSkip ↔ ":skip".toList <:+ s.render.toList) ∧
        (s.ScopesIn dsl.refs → (ofIndex s.leaf.2).Converts →
          StreamIds.leaf s.render = .ok (s.leaf.1,ofIndex s.leaf.2)) := by
  obtain ⟨T,hreached,hholds⟩ := exists_holds hacc h
  have hsound := sound_of_reached hacc.1 hreached
  refine ⟨⟨T,hreached,hholds,hsound.addressed hacc.1⟩,invertible,fun s => ⟨s.isSkip_render,?_⟩⟩
  exact StreamID.leaf_render hacc.1

/-- In the first stream of a scatter. -/
theorem streams_addressed_item : ∃ (st : State) (T : StreamTables), (st.context itemStream).isSome ∧
    (T.streamHierarchy "<root>:0/x:0").isSome ∧ T.Holds st.contexts ∧ T.Addressed subflowDSL.refs ∧ Invertible := by
  have hrun : (Runs.follow (step oneItem.activities subflowDSL) (State.init subflowDSL sampleContext)
      subflowChoices).map (fun st => (st.context itemStream).isSome) = some true := by decide
  obtain ⟨st,hst,hs⟩ := Runs.reachable_of_observed hrun
  obtain ⟨⟨T,-,hholds,haddressed⟩,hids,-⟩ := streams_addressed subflowDSL_accepted hst
  have hthere : (st.contexts.streamHierarchy itemStream).isSome := by
    rw [← ((Run.core (wellFormed_of_accepted subflowDSL_accepted) hst).registered).context]
    exact hs
  have hid : itemStream.render = "<root>:0/x:0" := by decide
  refine ⟨st,T,hs,?_,hholds,haddressed,hids⟩
  rw [← hid, hholds.hierarchy _ hthere, Option.isSome_map]
  exact hthere

end StreamTables
end Allama

import Allama.SchedulerCases
import Allama.StreamForest

/-! The invariant of the scheduler that needs no assumption on the run: every call of
`_queue_tasks` comes from one instance, in the way its status says, and no argument is passed
twice. -/
namespace Allama
variable {f : Flow} {r : String} {k : ℕ}

inductive Status
  | idle
  | pending (pc : Pc)
  | ended (outcome : Outcome)

def Flow.status (f : Flow) (t : Task) : Status :=
  match f.pending.lookup t with
  | some pc => .pending pc
  | none =>
    match f.outcomes t with
    | some outcome => .ended outcome
    | none => .idle

section
variable (dsl : DSLInput)

def DSLInput.hasErrorEdge (r : String) : Prop := ∃ d ∈ dsl.adj r, d.2 = .error

instance (r : String) : Decidable (dsl.hasErrorEdge r) := by
  unfold DSLInput.hasErrorEdge; infer_instance

/-- The arguments of the calls of `_queue_tasks` an instance has made, by its status. -/
def Status.calls (t : Task) (streams : List StreamID) : Status → List Task
  | .pending (.scattering _ _) | .ended .scattered => streams.map fun s => ⟨t.ref,s⟩
  | .ended .success => [t]
  | .ended .skipped =>
    if dsl.IsScatter t.ref then [⟨t.ref,.child t.streamId t.ref .skip⟩] else [t]
  | .ended (.failed _) => if t.streamId = .root ∧ ¬ dsl.hasErrorEdge t.ref then [] else [t]
  | .ended .emptied => [⟨t.ref,.child t.streamId t.ref .skip⟩]
  | .ended .published => t.streamId.parent.toList.map fun p => ⟨t.ref,p⟩
  | .ended .closed | .pending _ | .idle => []

/-- The marker its calls leave on the edges of a type. -/
def Status.marker (t : Task) (type : EdgeType) : Status → EdgeMarker
  | .pending (.scattering _ _) | .ended .scattered | .ended .published => .visited
  | .ended .success => if type = .success then .visited else .skipped
  | .ended (.failed _) =>
    if dsl.hasErrorEdge t.ref ∧ type = .error then .visited else .skipped
  | .ended .skipped | .ended .emptied => .skipped
  | .ended .closed | .pending _ | .idle => .pending

/-- What an outcome says about its instance. -/
def OutcomeFits (st : State) (t : Task) : Outcome → Prop
  | .success => ¬ dsl.IsScatter t.ref ∧ ¬ dsl.IsGather t.ref
  | .skipped => dsl.IsGather t.ref → ∃ p x, t.streamId = .child p x .skip
  | .failed _ => True
  | .scattered => dsl.IsScatter t.ref ∧ ∃ n, 0 < n ∧ st.taskStreams t =
      (List.range n).map fun i => .child t.streamId t.ref (.item i)
  | .emptied => dsl.IsScatter t.ref
  | .closed => dsl.IsGather t.ref ∧ ∃ p x i, t.streamId = .child p x (.item i)
  | .published => dsl.IsGather t.ref ∧ ∃ p x i, t.streamId = .child p x i ∧
      ∃ n, st.openStreams ⟨x,p⟩ = some n ∧ ∀ k, i = .item k → n ≤ 0

def Status.IsCloser : Status → Prop
  | .pending (.gatherFinalize _ _) | .pending (.gatherNoop _) | .ended .published => True
  | _ => False

structure Core (st : State) : Prop where
  counted : Counted dsl st.flow
  registered : st.contexts.Registered
  started : ∀ u ∈ st.flow.started, (st.contexts.streamHierarchy u.streamId).isSome
  flat : ¬ dsl.hasScatter → ∀ u ∈ st.flow.started, u.streamId = .root
  fits : ∀ t pc, st.flow.status t = .pending pc → PcFits dsl st t pc
  ended : ∀ t outcome, st.flow.status t = .ended outcome → OutcomeFits dsl st t outcome
  calls : ∀ t, (st.flow.queued.filter (fun q => q.2 = t)).map Prod.fst =
    (st.flow.status t).calls dsl t (st.taskStreams t)
  marks : ∀ u t, (u,t) ∈ st.flow.queued → ∀ d type, (d,type) ∈ dsl.adj u.ref →
    st.flow.edges ⟨u.ref,d,type,u.streamId⟩ = (st.flow.status t).marker dsl t type
  openers : ∀ p x i, (st.contexts.streamHierarchy (.child p x i)).isSome →
    (⟨x,.child p x i⟩,⟨x,p⟩) ∈ st.flow.queued
  observed : ∀ t n, st.openStreams t = some n →
    st.flow.status t = .ended .scattered ∨ st.flow.status t = .ended .emptied
  closers : ∀ g h p x i j, (st.flow.status ⟨g,.child p x (.item i)⟩).IsCloser →
    (st.flow.status ⟨h,.child p x (.item j)⟩).IsCloser → g = h ∧ i = j

variable {u t : Task} {pc : Pc} {x : String} {p : StreamID} {i : StreamIndex}
variable {dsl} {st : State}

theorem DSLInput.not_scatter_of_gather (hg : dsl.IsGather r) : ¬ dsl.IsScatter r := by
  intro hs
  rw [DSLInput.IsGather, show (dsl.task r).action = .transformScatter from hs] at hg
  cases hg

/-- The three ways a call comes about. -/
theorem Core.call_cases (h : Core dsl st) (hq : (u,t) ∈ st.flow.queued) :
    (u = t ∧ (st.flow.status t).calls dsl t (st.taskStreams t) = [t]) ∨
    (dsl.IsScatter t.ref ∧ ∃ i, u = ⟨t.ref,.child t.streamId t.ref i⟩) ∨
    (dsl.IsGather t.ref ∧ st.flow.status t = .ended .published ∧
      ∃ p x i, t.streamId = .child p x i ∧ u = ⟨t.ref,p⟩) := by
  have hu : u ∈ (st.flow.status t).calls dsl t (st.taskStreams t) := by
    rw [← h.calls]
    exact List.mem_map.mpr ⟨(u,t),List.mem_filter.mpr ⟨hq,by simp⟩,rfl⟩
  have hstreams : ∀ n, st.taskStreams t =
      ((List.range n).map fun i => StreamID.child t.streamId t.ref (.item i)) →
      u ∈ (st.taskStreams t).map (fun s => (⟨t.ref,s⟩ : Task)) →
      ∃ i, u = ⟨t.ref,.child t.streamId t.ref i⟩ := by
    intro n hn hm
    rw [hn, List.map_map, List.mem_map] at hm
    obtain ⟨k,-,rfl⟩ := hm
    exact ⟨.item k,rfl⟩
  have hfits := h.fits t
  have hend := h.ended t
  cases hst : st.flow.status t with
  | idle => simp [hst, Status.calls] at hu
  | pending pc =>
    rw [hst] at hu
    cases pc with
    | scattering collection n =>
      obtain ⟨hs,-,-,hts⟩ := hfits _ hst
      exact .inr (.inl ⟨hs,hstreams n hts hu⟩)
    | _ => simp [Status.calls] at hu
  | ended outcome =>
    rw [hst] at hu
    have hend := hend _ hst
    cases outcome with
    | success =>
      obtain rfl : u = t := by simpa [Status.calls] using hu
      exact .inl ⟨rfl,rfl⟩
    | skipped =>
      simp only [Status.calls] at hu ⊢
      split at hu
      · rename_i hs
        exact .inr (.inl ⟨hs,.skip,List.mem_singleton.mp hu⟩)
      · rename_i hs
        exact .inl ⟨List.mem_singleton.mp hu,by rw [if_neg hs]⟩
    | failed exc =>
      simp only [Status.calls] at hu ⊢
      split at hu
      · cases hu
      · rename_i hs
        exact .inl ⟨List.mem_singleton.mp hu,by rw [if_neg hs]⟩
    | scattered =>
      obtain ⟨hs,n,-,hts⟩ := hend
      exact .inr (.inl ⟨hs,hstreams n hts hu⟩)
    | emptied => exact .inr (.inl ⟨hend,.skip,List.mem_singleton.mp hu⟩)
    | closed => simp [Status.calls] at hu
    | published =>
      obtain ⟨hg,p,x,i,ht,-⟩ := hend
      refine .inr (.inr ⟨hg,rfl,p,x,i,ht,?_⟩)
      rw [Status.calls, ht] at hu
      simpa [StreamID.parent] using hu

theorem Flow.mem_pending_of_status (h : f.status t = .pending pc) :
    f.pending.lookup t = some pc := by
  unfold Flow.status at h
  split at h
  · cases h
    assumption
  · split at h <;> cases h

theorem Flow.outcomes_of_status {outcome : Outcome} (h : f.status t = .ended outcome) :
    f.outcomes t = some outcome := by
  unfold Flow.status at h
  split at h
  · cases h
  · split at h
    · cases h
      assumption
    · cases h

theorem Counted.scheduled_of_status (hf : Counted dsl f) (h : f.status t ≠ .idle) :
    t ∈ f.scheduled := by
  rw [hf.scheduled]
  cases hst : f.status t with
  | idle => exact absurd hst h
  | pending pc =>
    have hl := Flow.mem_pending_of_status hst
    exact .inl (AList.lookup_isSome.mp (by rw [hl]; rfl))
  | ended outcome =>
    have ho := Flow.outcomes_of_status hst
    exact .inr ((hf.outcomes t).mp (by rw [ho]; rfl))

theorem Core.caller_started (h : Core dsl st) (hq : (u,t) ∈ st.flow.queued) :
    t ∈ st.flow.started := by
  refine List.mem_append_left _ (h.counted.scheduled_of_status fun hidle => ?_)
  have hm := List.mem_map_of_mem (f := Prod.fst) (List.mem_filter.mpr ⟨hq,by simp⟩ :
    (u,t) ∈ st.flow.queued.filter fun q => q.2 = t)
  rw [h.calls, hidle] at hm
  cases hm

theorem Core.mem_calls (h : Core dsl st) :
    (u,t) ∈ st.flow.queued ↔ u ∈ (st.flow.status t).calls dsl t (st.taskStreams t) := by
  rw [← h.calls, List.mem_map]
  constructor
  · intro hq
    exact ⟨(u,t),List.mem_filter.mpr ⟨hq,by simp⟩,rfl⟩
  · rintro ⟨⟨u',t'⟩,hm,rfl⟩
    obtain ⟨hq,ht⟩ := List.mem_filter.mp hm
    obtain rfl : t' = t := by simpa using ht
    exact hq

theorem child_ne_self (s : StreamID) (x : String) (i : StreamIndex) : StreamID.child s x i ≠ s := by
  intro he
  have := congrArg StreamID.depth he
  simp [StreamID.depth] at this

def streamForest : StreamForest.Forest StreamID String StreamIndex where
  root := .root
  child := .child
  depth := StreamID.depth
  depth_root := rfl
  depth_child := fun _ _ _ => rfl
  child_inj := fun h => StreamID.child.inj h

/-- The status of a gather instance that returned to its parent stream or is about to. -/
def Status.IsReturning : Status → Prop
  | .pending (.gatherFinalize _ _) | .pending (.gatherNoop _) | .pending (.gatherSkipStream _)
  | .ended .published => True
  | _ => False

section
variable (h : Core dsl st)
include h

theorem Core.returning_gather (hr : (st.flow.status t).IsReturning) : dsl.IsGather t.ref := by
  have hfits := h.fits t
  have hend := h.ended t
  cases hst : st.flow.status t with
  | idle => rw [hst] at hr; cases hr
  | pending pc =>
    rw [hst] at hr
    have hfits := hfits pc hst
    cases pc <;> first | exact hfits.1 | cases hr
  | ended outcome =>
    rw [hst] at hr
    have hend := hend outcome hst
    cases outcome <;> first | exact hend.1 | cases hr

theorem Core.returning_closer {g : String} (hr : (st.flow.status ⟨g,.child p x (.item k)⟩).IsReturning) :
    (st.flow.status ⟨g,.child p x (.item k)⟩).IsCloser := by
  cases hst : st.flow.status ⟨g,.child p x (.item k)⟩ with
  | idle => rw [hst] at hr; cases hr
  | pending pc =>
    rw [hst] at hr
    cases pc with
    | gatherSkipStream r =>
      obtain ⟨-,q,y,he,-⟩ := h.fits _ _ hst
      cases he
    | _ => exact hr
  | ended outcome =>
    rw [hst] at hr
    cases outcome <;> exact hr

theorem Core.returning_not_own {g : String} (hr : (st.flow.status ⟨g,.child p x i⟩).IsReturning) :
    (⟨g,.child p x i⟩,⟨g,.child p x i⟩) ∉ st.flow.queued := by
  intro hq
  rw [h.mem_calls] at hq
  cases hst : st.flow.status ⟨g,.child p x i⟩ with
  | idle => rw [hst] at hr; cases hr
  | pending pc =>
    rw [hst] at hr hq
    cases pc <;> first | cases hq | cases hr
  | ended outcome =>
    rw [hst] at hr hq
    cases outcome with
    | published =>
      have he : (⟨g,.child p x i⟩ : Task) = ⟨g,p⟩ := by
        simpa [Status.calls, StreamID.parent] using hq
      exact child_ne_self p x i (Task.mk.inj he).2
    | _ => cases hr

theorem Core.opened_scatter (hq : (⟨r,.child p r i⟩,⟨r,p⟩) ∈ st.flow.queued) : dsl.IsScatter r := by
  rcases h.call_cases hq with ⟨he,-⟩ | ⟨hs,-⟩ | ⟨-,-,q,x,j,hp,he⟩
  · exact absurd (Task.mk.inj he).2 (child_ne_self p r i)
  · exact hs
  · have hd := congrArg StreamID.depth (Task.mk.inj he).2
    dsimp only at hp
    rw [hp] at hd
    simp only [StreamID.depth] at hd
    omega

theorem Core.opened_index (hi : (⟨r,.child p r (.item k)⟩,⟨r,p⟩) ∈ st.flow.queued)
    (hs : (⟨r,.child p r .skip⟩,⟨r,p⟩) ∈ st.flow.queued) : False := by
  have hsc := h.opened_scatter hi
  rw [h.mem_calls] at hi hs
  have hstreams : ∀ n, st.taskStreams ⟨r,p⟩ =
      ((List.range n).map fun i => StreamID.child p r (.item i)) →
      (⟨r,.child p r .skip⟩ : Task) ∉ (st.taskStreams ⟨r,p⟩).map fun s => (⟨r,s⟩ : Task) := by
    intro n hn hm
    rw [hn, List.map_map, List.mem_map] at hm
    obtain ⟨_,-,he⟩ := hm
    simp at he
  cases hst : st.flow.status ⟨r,p⟩ with
  | idle => rw [hst] at hi; cases hi
  | pending pc =>
    rw [hst] at hi hs
    cases pc with
    | scattering collection n => exact hstreams n (h.fits _ _ hst).2.2.2 hs
    | _ => cases hi
  | ended outcome =>
    rw [hst] at hi hs
    cases outcome with
    | scattered =>
      obtain ⟨-,n,-,hn⟩ := h.ended _ _ hst
      exact hstreams n hn hs
    | success => exact (h.ended _ _ hst).1 hsc
    | skipped => simp [Status.calls, hsc] at hi
    | failed exc =>
      simp only [Status.calls] at hi
      split at hi
      · cases hi
      · have he := List.mem_singleton.mp hi
        exact child_ne_self p r _ (Task.mk.inj he).2
    | emptied => simp [Status.calls] at hi
    | closed => cases hi
    | published => exact DSLInput.not_scatter_of_gather (h.ended _ _ hst).1 hsc

theorem Core.stream_opened (hu : u ∈ st.flow.started) (hs : u.streamId = .child p x i) :
    (⟨x,.child p x i⟩,⟨x,p⟩) ∈ st.flow.queued :=
  h.openers p x i (hs ▸ h.started u hu)

theorem Core.started_of_returning (hr : (st.flow.status t).IsReturning) : t ∈ st.flow.started := by
  refine List.mem_append_left _ (h.counted.scheduled_of_status fun hidle => ?_)
  rw [hidle] at hr
  cases hr

theorem Core.returning_once {g h' : String} {j : StreamIndex} (h1 : (st.flow.status ⟨g,.child p x i⟩).IsReturning)
    (h2 : (st.flow.status ⟨h',.child p x j⟩).IsReturning) :
    i = j ∧ (g = h' ∨ (⟨h',.child p x j⟩,⟨h',.child p x j⟩) ∉ st.flow.queued) := by
  have ho1 := h.stream_opened (h.started_of_returning h1) rfl
  have ho2 := h.stream_opened (h.started_of_returning h2) rfl
  cases i with
  | item k =>
    cases j with
    | item l =>
      obtain ⟨rfl,rfl⟩ := h.closers g h' p x k l (h.returning_closer h1) (h.returning_closer h2)
      exact ⟨rfl,.inl rfl⟩
    | skip => exact (h.opened_index ho1 ho2).elim
  | skip =>
    cases j with
    | item l => exact (h.opened_index ho2 ho1).elim
    | skip => exact ⟨rfl,.inr (h.returning_not_own h2)⟩

/-- The calls of `_queue_tasks` are marks that travel through the streams. -/
theorem Core.provenance (hwf : dsl.WellFormed) :
    StreamForest.Provenance streamForest (fun d r => dsl.hasScatter ∧ dsl.Dep d r)
      (fun r s => ⟨r,s⟩ ∈ st.flow.started) (fun r s => ⟨r,s⟩ ∈ st.flow.args)
      (fun r s => (⟨r,s⟩,⟨r,s⟩) ∈ st.flow.queued)
      (fun r p i => (⟨r,.child p r i⟩,⟨r,p⟩) ∈ st.flow.queued)
      (fun g x p i => (st.flow.status ⟨g,.child p x i⟩).IsReturning) where
  dep_wf := by
    by_cases hs : dsl.hasScatter
    · exact Subrelation.wf (fun {d r} hd => hd.2) (dep_wellFounded hwf hs)
    · exact ⟨fun r => ⟨r,fun d hd => absurd hd.1 hs⟩⟩
  started_dep := by
    intro r s hst hroot
    have hs : dsl.hasScatter := by
      by_contra hs
      exact hroot (h.flat hs _ hst)
    rcases (h.counted.mem_started _).mp hst with ⟨hr,-⟩ | ⟨hne,-⟩
    · exact absurd hr hroot
    · have hlen := hwf.deps_length r
      have hdeps : (dsl.task r).deps ≠ [] := by
        intro hnil
        rw [hnil, List.length_nil] at hlen
        exact hne (List.eq_nil_of_length_eq_zero hlen.symm)
      obtain ⟨d,hd⟩ := List.exists_mem_of_ne_nil _ hdeps
      exact ⟨d.1,hs,d,hd,rfl⟩
  started_marked := fun hst hd => h.counted.started_dep hwf hst hd.2
  marked_cases := by
    intro r s hm
    obtain ⟨⟨u,t⟩,hq,he⟩ := List.mem_map.mp hm
    dsimp only at he
    subst he
    rcases h.call_cases hq with ⟨rfl,-⟩ | ⟨-,i,he⟩ | ⟨-,hst,p,x,i,ht,he⟩
    · exact .inl hq
    · obtain ⟨rfl,rfl⟩ := Task.mk.inj he
      exact .inr (.inl ⟨t.streamId,i,rfl,hq⟩)
    · obtain ⟨rfl,rfl⟩ := Task.mk.inj he
      refine .inr (.inr ⟨x,i,?_⟩)
      rw [← ht, hst]
      trivial
  own_started := fun hq => h.caller_started hq
  own_not_opened := by
    intro r s i hown hopen
    rcases h.call_cases hown with ⟨-,hcalls⟩ | ⟨-,j,he⟩ | ⟨-,-,p,x,j,hs,he⟩
    · rw [h.mem_calls, hcalls, List.mem_singleton] at hopen
      exact child_ne_self s r i (Task.mk.inj hopen).2
    · exact child_ne_self s r j (Task.mk.inj he).2.symm
    · dsimp only at hs he
      rw [hs] at he
      exact child_ne_self p x j (Task.mk.inj he).2
  opened_started := fun hq => h.caller_started hq
  returned_started := fun hr => h.started_of_returning hr
  opened_not_returned := fun hq hr =>
    DSLInput.not_scatter_of_gather (h.returning_gather hr) (h.opened_scatter hq)
  returned_once := fun h1 h2 => h.returning_once h1 h2

theorem Core.closer_open {g : String} (hc : (st.flow.status ⟨g,.child p x (.item k)⟩).IsCloser) :
    ∃ n, st.openStreams ⟨x,p⟩ = some n ∧ n ≤ 0 := by
  have hfits := h.fits ⟨g,.child p x (.item k)⟩
  have hend := h.ended ⟨g,.child p x (.item k)⟩
  cases hst : st.flow.status ⟨g,.child p x (.item k)⟩ with
  | idle => rw [hst] at hc; cases hc
  | pending pc =>
    rw [hst] at hc
    have hfits := hfits pc hst
    cases pc with
    | gatherFinalize r f =>
      obtain ⟨-,q,y,j,he,n,hle,hn⟩ := hfits
      obtain ⟨rfl,rfl,-⟩ := StreamID.child.inj he
      exact ⟨n,hn,hle⟩
    | gatherNoop r =>
      obtain ⟨-,q,y,j,he,n,hle,hn⟩ := hfits
      obtain ⟨rfl,rfl,-⟩ := StreamID.child.inj he
      exact ⟨n,hn,hle⟩
    | _ => cases hc
  | ended outcome =>
    rw [hst] at hc
    have hend := hend outcome hst
    cases outcome with
    | published =>
      obtain ⟨-,q,y,j,he,n,hn,hle⟩ := hend
      obtain ⟨rfl,rfl,rfl⟩ := StreamID.child.inj he
      exact ⟨n,hn,hle k rfl⟩
    | _ => cases hc

theorem Core.started_of_pending (hpc : st.flow.status t = .pending pc) : t ∈ st.flow.started :=
  List.mem_append_left _ (h.counted.scheduled_of_status (by rw [hpc]; simp))

end

theorem Pc.NotScattering.calls (h : pc.NotScattering) (t : Task) (streams : List StreamID) :
    (Status.pending pc).calls dsl t streams = [] := by
  cases pc <;> first | rfl | cases h

theorem Counted.ref_mem (hf : Counted dsl f) (hu : u ∈ f.started) : u.ref ∈ dsl.refs := by
  rcases (hf.mem_started u).mp hu with ⟨-,hr,-⟩ | ⟨hne,-⟩
  · exact hr
  · by_contra hr
    rw [dsl.task_of_not_mem hr] at hne
    exact hne rfl

section
variable (h : Core dsl st) (hwf : dsl.WellFormed)
include h hwf

theorem Core.fresh_own (hpc : st.flow.status t = .pending pc) (hns : pc.NotScattering) : t ∉ st.flow.args := by
  intro hm
  have hown : (t,t) ∈ st.flow.queued :=
    (h.provenance hwf).own_of_started (h.started_of_pending hpc) hm
  rw [h.mem_calls, hpc, hns.calls] at hown
  cases hown

theorem Core.fresh_opened (hnew : (⟨t.ref,.child t.streamId t.ref i⟩ : Task) ∉
      (st.flow.status t).calls dsl t (st.taskStreams t)) : (⟨t.ref,.child t.streamId t.ref i⟩ : Task) ∉ st.flow.args := by
  intro hm
  have hopen : (⟨t.ref,.child t.streamId t.ref i⟩,t) ∈ st.flow.queued :=
    (h.provenance hwf).opened_of_marked hm
  rw [h.mem_calls] at hopen
  exact hnew hopen

theorem Core.fresh_returned (ht : t.streamId = .child p x i) (hpc : st.flow.status t = .pending pc)
    (hr : (Status.pending pc).IsReturning) : (⟨t.ref,p⟩ : Task) ∉ st.flow.args := by
  intro hm
  have hP := h.provenance hwf
  obtain ⟨g,s⟩ := t
  dsimp only at ht hm
  subst ht
  have hret : (st.flow.status ⟨g,.child p x i⟩).IsReturning := hpc ▸ hr
  obtain ⟨⟨u,v⟩,hq,he⟩ := List.mem_map.mp hm
  dsimp only at he
  subst he
  rcases h.call_cases hq with ⟨rfl,-⟩ | ⟨hs,j,he⟩ | ⟨-,hv,q,y,j,hvs,he⟩
  · exact hP.not_started_of_returned hret (h.caller_started hq)
  · obtain ⟨rfl,-⟩ := Task.mk.inj he
    exact DSLInput.not_scatter_of_gather (h.returning_gather hret) hs
  · obtain ⟨rfl,rfl⟩ := Task.mk.inj he
    have hv' : (st.flow.status ⟨v.ref,.child p y j⟩).IsReturning := by
      rw [← hvs, hv]
      trivial
    obtain ⟨rfl,rfl⟩ := hP.returned_inj hret hv'
    rw [← hvs] at hpc
    rw [hpc] at hv
    cases hv

end

end
end Allama

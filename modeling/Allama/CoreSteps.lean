import Allama.CoreInvariant
import Allama.Runs

/-! Every step keeps the core invariant. -/
namespace Allama
open Function

/-- A call of `_queue_tasks`. -/
structure Call where
  arg : Task
  delay : ℚ
  unreachable : List DSLEdge

section
variable (dsl : DSLInput)

/-- The call, if there is one, from the coroutine of `t`. -/
def Flow.call (f : Flow) (t : Task) : Option Call → Flow
  | none => f
  | some c => queueTasks dsl t c.arg c.delay c.unreachable f

/-- The coroutine of `t` is suspended or over. -/
def Flow.settle (f : Flow) (t : Task) : Status → Flow
  | .idle => f
  | .pending pc => f.await t pc
  | .ended outcome => f.complete t outcome

variable {dsl} {st : State}

section
variable (f : Flow)
include f

@[simp] theorem Flow.status_await_self (t : Task) (pc : Pc) : (f.await t pc).status t = .pending pc := by
  simp [Flow.status, Flow.await, AList.lookup_insert]

theorem Flow.status_await_ne {t u : Task} (h : u ≠ t) (pc : Pc) : (f.await t pc).status u = f.status u := by
  simp [Flow.status, Flow.await, AList.lookup_insert_ne h]

@[simp] theorem Flow.status_complete_self (t : Task) (outcome : Outcome) :
    (f.complete t outcome).status t = .ended outcome := by
  simp [Flow.status, Flow.complete, AList.lookup_erase]

theorem Flow.status_complete_ne {t u : Task} (h : u ≠ t) (outcome : Outcome) :
    (f.complete t outcome).status u = f.status u := by
  simp [Flow.status, Flow.complete, AList.lookup_erase_ne h, update_of_ne h]

theorem Flow.status_settle_self (t : Task) {new : Status} (h : new ≠ .idle) : (f.settle t new).status t = new := by
  cases new with
  | idle => exact absurd rfl h
  | pending pc => exact f.status_await_self t pc
  | ended outcome => exact f.status_complete_self t outcome

theorem Flow.status_settle_ne {t u : Task} (h : u ≠ t) (new : Status) : (f.settle t new).status u = f.status u := by
  cases new with
  | idle => rfl
  | pending pc => exact f.status_await_ne h pc
  | ended outcome => exact f.status_complete_ne h outcome

theorem Flow.settle_queued (t : Task) (new : Status) : (f.settle t new).queued = f.queued := by
  cases new <;> rfl

theorem Flow.settle_started (t : Task) (new : Status) : (f.settle t new).started = f.started := by
  cases new <;> rfl

theorem Flow.settle_edges (t : Task) (new : Status) : (f.settle t new).edges = f.edges := by
  cases new <;> rfl

theorem Flow.status_call (t u : Task) (call : Option Call) : (f.call dsl t call).status u = f.status u := by
  cases call with
  | none => rfl
  | some c =>
    have hq := @queueTasks_queues dsl t c.arg c.delay c.unreachable f
    simp only [Flow.call, Flow.status, hq.pending, hq.outcomes]

theorem Flow.call_queued (t : Task) (call : Option Call) :
    (f.call dsl t call).queued = f.queued ++ call.toList.map fun c => (c.arg,t) := by
  cases call with
  | none => simp [Flow.call]
  | some c => exact (@queueTasks_queues dsl t c.arg c.delay c.unreachable f).queued

theorem Flow.mem_call_started {t u : Task} {call : Option Call} (hu : u ∈ (f.call dsl t call).started) :
    u ∈ f.started ∨ ∃ c ∈ call, u.streamId = c.arg.streamId := by
  cases call with
  | none => exact .inl hu
  | some c =>
    have hq := @queueTasks_queues dsl t c.arg c.delay c.unreachable f
    obtain ⟨new,hqueue,-,hmem⟩ := hq.queue
    rw [Flow.call, Flow.started, hqueue, hq.scheduled, ← List.append_assoc, List.mem_append] at hu
    rcases hu with hu | hu
    · exact .inl hu
    · refine .inr ⟨c,rfl,?_⟩
      have hdown := (hmem u).mp hu
      rw [hq.indegree] at hdown
      by_contra hne
      rw [if_neg hne] at hdown
      omega

end

section
variable {st1 st' : State} {t : Task} {pc pc' : Pc} {call : Option Call} {new : Status} {outcome : Outcome}

def Lowered (st st' : State) : Prop :=
  ∀ y n, st.openStreams y = some n → ∃ m, m ≤ n ∧ st'.openStreams y = some m

/-- What a step of `t` does to the streams and their counters when it leaves `t` in the status
`new`: the streams of the others are as before, and only `t` gets a counter. -/
structure Counts (st st' : State) (t : Task) (new : Status) : Prop where
  streams : ∀ u, u ≠ t → st'.taskStreams u = st.taskStreams u
  lower : Lowered st st'
  observed : ∀ y m, st'.openStreams y = some m → (st.openStreams y).isSome ∨
    (y = t ∧ (new = .ended .scattered ∨ new = .ended .emptied))

/-- What a step of the coroutine of `t`, suspended at `pc`, does: at most one call, and then
the status `new`. -/
structure Advance (dsl : DSLInput) (st st' : State) (t : Task) (pc : Pc) (call : Option Call)
    (new : Status) : Prop where
  moved : new ≠ .idle
  flow : st'.flow = (st.flow.call dsl t call).settle t new
  registered : st'.contexts.Registered
  kept : ∀ s, (st.contexts.streamHierarchy s).isSome → (st'.contexts.streamHierarchy s).isSome
  opened : ∀ p x i, (st'.contexts.streamHierarchy (.child p x i)).isSome →
    (st.contexts.streamHierarchy (.child p x i)).isSome ∨
      (t = ⟨x,p⟩ ∧ ∃ c ∈ call, c.arg = ⟨x,.child p x i⟩)
  called : ∀ c ∈ call, c.arg ∉ st.flow.args ∧ (st'.contexts.streamHierarchy c.arg.streamId).isSome ∧
    (c.arg.streamId = t.streamId ∨ dsl.hasScatter)
  calls : new.calls dsl t (st'.taskStreams t) =
    (Status.pending pc).calls dsl t (st.taskStreams t) ++ call.toList.map Call.arg
  marksOld : (Status.pending pc).calls dsl t (st.taskStreams t) ≠ [] →
    ∀ type, new.marker dsl t type = (Status.pending pc).marker dsl t type
  marksNew : ∀ c ∈ call, ∀ d type, (d,type) ∈ dsl.adj c.arg.ref →
    (if (⟨c.arg.ref,d,type,c.arg.streamId⟩ : DSLEdge) ∈ c.unreachable then EdgeMarker.skipped
      else .visited) = new.marker dsl t type
  counts : Counts st st' t new
  fits : ∀ pc', new = .pending pc' → PcFits dsl st' t pc'
  ended : ∀ outcome, new = .ended outcome → OutcomeFits dsl st' t outcome
  closes : new.IsCloser → (Status.pending pc).IsCloser ∨
    (∃ p x, t.streamId = .child p x .skip) ∨
    ∃ p x i n, t.streamId = .child p x (.item i) ∧ st.openStreams ⟨x,p⟩ = some n ∧ 0 < n

theorem Lowered.of_eq (h : st'.openStreams = st.openStreams) : Lowered st st' :=
  fun _ n hn => ⟨n,le_rfl,(congrFun h _).trans hn⟩

theorem Counts.quiet (hstreams : ∀ u, u ≠ t → st'.taskStreams u = st.taskStreams u)
    (hopen : st'.openStreams = st.openStreams) : Counts st st' t new := by
  refine ⟨hstreams,.of_eq hopen,fun y m hm => .inl ?_⟩
  rw [← hopen, hm]
  rfl

theorem Counts.sets {n : ℤ} (hstreams : ∀ u, u ≠ t → st'.taskStreams u = st.taskStreams u)
    (hnone : st.openStreams t = none) (hopen : st'.openStreams = update st.openStreams t (some n))
    (hnew : new = .ended .scattered ∨ new = .ended .emptied) : Counts st st' t new := by
  refine ⟨hstreams,fun y m hm => ⟨m,le_rfl,?_⟩,fun y m hm => ?_⟩
  · have hyt : y ≠ t := by
      rintro rfl
      rw [hnone] at hm
      cases hm
    rw [hopen, update_of_ne hyt, hm]
  · by_cases hyt : y = t
    · exact .inr ⟨hyt,hnew⟩
    · rw [hopen, update_of_ne hyt] at hm
      exact .inl (by rw [hm]; rfl)

theorem PcFits.mono (h : PcFits dsl st t pc) (hstreams : st'.taskStreams t = st.taskStreams t)
    (hopen : Lowered st st') : PcFits dsl st' t pc := by
  cases pc with
  | scattering collection opened =>
    obtain ⟨hs,hpos,hle,hts⟩ := h
    exact ⟨hs,hpos,hle,hstreams.trans hts⟩
  | gatherSkipStream r =>
    obtain ⟨hg,p,x,ht,hsome⟩ := h
    obtain ⟨n,hn⟩ := Option.isSome_iff_exists.mp hsome
    obtain ⟨m,-,hm⟩ := hopen _ n hn
    exact ⟨hg,p,x,ht,by rw [hm]; rfl⟩
  | gatherFinalize r f =>
    obtain ⟨hg,p,x,i,ht,n,hle,hn⟩ := h
    obtain ⟨m,hmn,hm⟩ := hopen _ n hn
    exact ⟨hg,p,x,i,ht,m,hmn.trans hle,hm⟩
  | gatherNoop r =>
    obtain ⟨hg,p,x,i,ht,n,hle,hn⟩ := h
    obtain ⟨m,hmn,hm⟩ := hopen _ n hn
    exact ⟨hg,p,x,i,ht,m,hmn.trans hle,hm⟩
  | _ => exact h

theorem OutcomeFits.mono (h : OutcomeFits dsl st t outcome)
    (hstreams : st'.taskStreams t = st.taskStreams t) (hopen : Lowered st st') : OutcomeFits dsl st' t outcome := by
  cases outcome with
  | scattered =>
    obtain ⟨hs,n,hpos,hts⟩ := h
    exact ⟨hs,n,hpos,hstreams.trans hts⟩
  | published =>
    obtain ⟨hg,p,x,i,ht,n,hn,hle⟩ := h
    obtain ⟨m,hmn,hm⟩ := hopen _ n hn
    exact ⟨hg,p,x,i,ht,m,hm,fun k hk => hmn.trans (hle k hk)⟩
  | _ => exact h

theorem Counted.called {f : Flow} (hwf : dsl.WellFormed) (hf : Counted dsl f)
    (hfresh : ∀ c ∈ call, c.arg ∉ f.args) : Counted dsl (f.call dsl t call) := by
  cases call with
  | none => exact hf
  | some c => exact hf.queues hwf (hfresh c rfl) (queueTasks_queues t c.arg c.delay c.unreachable f)

theorem Counted.settle {f : Flow} (hf : Counted dsl f) (ht : t ∈ f.pending) (new : Status) :
    Counted dsl (f.settle t new) := by
  cases new with
  | idle => exact hf
  | pending pc => exact hf.await ht pc
  | ended outcome => exact hf.complete ht outcome

section
variable (ha : Advance dsl st st' t pc call new)
include ha

theorem Advance.self : st'.flow.status t = new := by
  rw [ha.flow, Flow.status_settle_self _ t ha.moved]

theorem Advance.others {u : Task} (hu : u ≠ t) : st'.flow.status u = st.flow.status u := by
  rw [ha.flow, Flow.status_settle_ne _ hu, Flow.status_call]

theorem Advance.queued : st'.flow.queued = st.flow.queued ++ call.toList.map fun c => (c.arg,t) := by
  rw [ha.flow, Flow.settle_queued, Flow.call_queued]

theorem Advance.started {u : Task} (hu : u ∈ st'.flow.started) :
    u ∈ st.flow.started ∨ ∃ c ∈ call, u.streamId = c.arg.streamId := by
  rw [ha.flow, Flow.settle_started] at hu
  exact st.flow.mem_call_started hu

theorem Advance.edges : st'.flow.edges = (st.flow.call dsl t call).edges := by
  rw [ha.flow, Flow.settle_edges]

theorem Advance.edges_old {u v : Task} (hu : (u,v) ∈ st.flow.queued) (d : String) (type : EdgeType) :
    st'.flow.edges ⟨u.ref,d,type,u.streamId⟩ = st.flow.edges ⟨u.ref,d,type,u.streamId⟩ := by
  rw [ha.edges]
  cases hcall : call with
  | none => rfl
  | some c =>
    rw [Flow.call, (queueTasks_queues t c.arg c.delay c.unreachable st.flow).edges, if_neg]
    intro hm
    obtain ⟨hr,hs,-⟩ := mem_outEdges.mp hm
    obtain rfl : u = c.arg := Task.mk.injEq .. ▸ ⟨hr,hs⟩
    exact (ha.called c hcall).1 (List.mem_map_of_mem hu)

theorem Advance.edges_new {c : Call} (hc : call = some c) {d : String} {type : EdgeType}
    (hd : (d,type) ∈ dsl.adj c.arg.ref) :
    st'.flow.edges ⟨c.arg.ref,d,type,c.arg.streamId⟩ = new.marker dsl t type := by
  rw [ha.edges, hc, Flow.call, (queueTasks_queues t c.arg c.delay c.unreachable st.flow).edges, if_pos,
    ha.marksNew c hc d type hd]
  exact mem_outEdges.mpr ⟨rfl,rfl,hd,rfl⟩

theorem Advance.closer (hpc : st.flow.status t = .pending pc) {g x : String} {p : StreamID} {i : ℕ}
    (h : (st'.flow.status ⟨g,.child p x (.item i)⟩).IsCloser) :
    (st.flow.status ⟨g,.child p x (.item i)⟩).IsCloser ∨
      (t = ⟨g,.child p x (.item i)⟩ ∧ ∃ n, st.openStreams ⟨x,p⟩ = some n ∧ 0 < n) := by
  by_cases hut : (⟨g,.child p x (.item i)⟩ : Task) = t
  · subst hut
    rw [ha.self] at h
    rcases ha.closes h with hc | ⟨q,y,he⟩ | ⟨q,y,j,n,he,hn,hpos⟩
    · exact .inl (hpc ▸ hc)
    · cases he
    · obtain ⟨rfl,rfl,-⟩ := StreamID.child.inj he
      exact .inr ⟨rfl,n,hn,hpos⟩
  · exact .inl (ha.others hut ▸ h)

end

theorem Core.no_closer (h : Core dsl st) {g x : String} {p : StreamID} {i : ℕ} {n : ℤ}
    (hn : st.openStreams ⟨x,p⟩ = some n) (hpos : 0 < n) :
    ¬ (st.flow.status ⟨g,.child p x (.item i)⟩).IsCloser := by
  intro hcloser
  obtain ⟨m,hm,hle⟩ := h.closer_open hcloser
  rw [hm] at hn
  have := Option.some.inj hn
  omega

theorem Core.advance (hwf : dsl.WellFormed) (h : Core dsl st) (hpc : st.flow.status t = .pending pc)
    (ha : Advance dsl st st' t pc call new) : Core dsl st' := by
  have hpend : t ∈ (st.flow.call dsl t call).pending := by
    refine AList.lookup_isSome.mp ?_
    rw [Flow.mem_pending_of_status ((st.flow.status_call t t call).trans hpc)]
    rfl
  refine ⟨?_,ha.registered,fun u hu => ?_,fun hs u hu => ?_,fun u pc' hu => ?_,fun u o hu => ?_,
    fun u => ?_,fun u v huv d type hd => ?_,fun p x i hs => ?_,fun y m hm => ?_,
    fun g g' p x i j h1 h2 => ?_⟩
  · rw [ha.flow]
    exact (h.counted.called hwf fun c hc => (ha.called c hc).1).settle hpend new
  · rcases ha.started hu with hu | ⟨c,hc,hs⟩
    · exact ha.kept _ (h.started u hu)
    · rw [hs]
      exact (ha.called c hc).2.1
  · rcases ha.started hu with hu | ⟨c,hc,hst⟩
    · exact h.flat hs u hu
    · rcases (ha.called c hc).2.2 with he | hsc
      · rw [hst, he]
        exact h.flat hs t (h.started_of_pending hpc)
      · exact absurd hsc hs
  · by_cases hut : u = t
    · subst hut
      exact ha.fits pc' (ha.self.symm.trans hu)
    · rw [ha.others hut] at hu
      exact (h.fits u pc' hu).mono (ha.counts.streams u hut) ha.counts.lower
  · by_cases hut : u = t
    · subst hut
      exact ha.ended o (ha.self.symm.trans hu)
    · rw [ha.others hut] at hu
      exact (h.ended u o hu).mono (ha.counts.streams u hut) ha.counts.lower
  · rw [ha.queued, List.filter_append, List.map_append, h.calls]
    by_cases hut : u = t
    · subst hut
      rw [ha.self, hpc, ha.calls]
      congr 1
      rw [List.filter_eq_self.mpr (by simp), List.map_map]
      rfl
    · rw [ha.others hut, ha.counts.streams u hut, List.filter_eq_nil_iff.mpr, List.map_nil, List.append_nil]
      intro q hq
      obtain ⟨c,-,rfl⟩ := List.mem_map.mp hq
      simpa using Ne.symm hut
  · rw [ha.queued, List.mem_append] at huv
    rcases huv with huv | huv
    · rw [ha.edges_old huv, h.marks u v huv d type hd]
      by_cases hvt : v = t
      · subst hvt
        rw [ha.self, hpc]
        refine (ha.marksOld ?_ type).symm
        rw [h.mem_calls, hpc] at huv
        exact List.ne_nil_of_mem huv
      · rw [ha.others hvt]
    · obtain ⟨c,hc,he⟩ := List.mem_map.mp huv
      cases he
      rw [ha.self]
      exact ha.edges_new (by simpa using hc) hd
  · rw [ha.queued, List.mem_append]
    rcases ha.opened p x i hs with hs | ⟨rfl,c,hc,he⟩
    · exact .inl (h.openers p x i hs)
    · exact .inr (List.mem_map.mpr ⟨c,by simpa using hc,by rw [he]⟩)
  · rcases ha.counts.observed y m hm with hs | ⟨rfl,hn⟩
    · obtain ⟨n,hn⟩ := Option.isSome_iff_exists.mp hs
      have hend := h.observed y n hn
      have hyt : y ≠ t := by
        rintro rfl
        rw [hpc] at hend
        rcases hend with he | he <;> cases he
      rwa [ha.others hyt]
    · rwa [ha.self]
  · -- a new closer has just brought a positive counter down, so there is no other
    rcases ha.closer hpc h1 with h1 | ⟨he1,n,hn,hpos⟩
    · rcases ha.closer hpc h2 with h2 | ⟨-,n,hn,hpos⟩
      · exact h.closers g g' p x i j h1 h2
      · exact absurd h1 (h.no_closer hn hpos)
    · rcases ha.closer hpc h2 with h2 | ⟨he2,-⟩
      · exact absurd h2 (h.no_closer hn hpos)
      · rw [he1] at he2
        obtain ⟨rfl,hs⟩ := Task.mk.inj he2
        exact ⟨rfl,StreamIndex.item.inj (StreamID.child.inj hs).2.2⟩

/-- The flow and the streams are as before; contexts and counters may have changed. -/
structure SameFlow (st st1 : State) : Prop where
  flow : st1.flow = st.flow
  streams : st1.taskStreams = st.taskStreams
  contexts : st.contexts.SameStreams st1.contexts
  lower : Lowered st st1
  observed : ∀ y m, st1.openStreams y = some m → (st.openStreams y).isSome

theorem SameFlow.contexts_only (st : State) {c : Contexts} (hc : st.contexts.SameStreams c) :
    SameFlow st { st with contexts := c } :=
  ⟨rfl,rfl,hc,.of_eq rfl,fun _ _ hm => by rw [hm]; rfl⟩

theorem SameFlow.refl (st : State) : SameFlow st st := .contexts_only st (.refl _)

theorem SameFlow.close (st : State) {c : Contexts} (hc : st.contexts.SameStreams c) {y : Task}
    {n : ℤ} (hn : st.openStreams y = some n) (closed : List (Task × StreamOutcome)) :
    SameFlow st { st with
      contexts := c, openStreams := update st.openStreams y (some (n-1)), closed := closed } := by
  refine ⟨rfl,rfl,hc,fun z m hz => ?_,fun z m hz => ?_⟩
  · dsimp only
    rw [update_apply]
    split
    · rename_i hzy
      rw [hzy, hn] at hz
      exact ⟨n-1,by have := Option.some.inj hz; omega,rfl⟩
    · exact ⟨m,le_rfl,hz⟩
  · dsimp only at hz
    rw [update_apply] at hz
    split at hz
    · rename_i hzy
      rw [hzy, hn]
      rfl
    · rw [hz]
      rfl

/-- A step that opens no stream. -/
theorem advance_of_same (h : Core dsl st) (hns : pc.NotScattering) (hsame : SameFlow st st1)
    (hctx : st'.contexts = st1.contexts) (hts : st'.taskStreams = st1.taskStreams)
    (hop : st'.openStreams = st1.openStreams) (hmoved : new ≠ .idle)
    (hflow : st'.flow = (st.flow.call dsl t call).settle t new)
    (hcalled : ∀ c ∈ call, c.arg ∉ st.flow.args ∧
      (st.contexts.streamHierarchy c.arg.streamId).isSome ∧
      (c.arg.streamId = t.streamId ∨ dsl.hasScatter))
    (hcalls : new.calls dsl t (st.taskStreams t) = call.toList.map Call.arg)
    (hmarks : ∀ c ∈ call, ∀ d type, (d,type) ∈ dsl.adj c.arg.ref →
      (if (⟨c.arg.ref,d,type,c.arg.streamId⟩ : DSLEdge) ∈ c.unreachable then EdgeMarker.skipped
        else .visited) = new.marker dsl t type)
    (hfits : ∀ pc', new = .pending pc' → PcFits dsl st1 t pc')
    (hended : ∀ outcome, new = .ended outcome → OutcomeFits dsl st1 t outcome)
    (hcloses : new.IsCloser → (Status.pending pc).IsCloser ∨
      (∃ p x, t.streamId = .child p x .skip) ∨
      ∃ p x i n, t.streamId = .child p x (.item i) ∧ st.openStreams ⟨x,p⟩ = some n ∧ 0 < n) :
    Advance dsl st st' t pc call new := by
  have hhier : st'.contexts.streamHierarchy = st.contexts.streamHierarchy := by
    rw [hctx, hsame.contexts.hierarchy]
  have hnil := @Pc.NotScattering.calls dsl pc hns t (st.taskStreams t)
  have hts' : st'.taskStreams = st.taskStreams := hts.trans hsame.streams
  refine ⟨hmoved,hflow,hctx ▸ h.registered.same hsame.contexts,fun s hs => hhier ▸ hs,
    fun p x i hs => .inl (hhier ▸ hs),fun c hc => ?_,?_,fun hne => absurd hnil hne,hmarks,
    ⟨fun u _ => by rw [hts'],fun y n hn => hop ▸ hsame.lower y n hn,
      fun y m hm => .inl (hsame.observed y m (hop ▸ hm))⟩,fun pc' he => ?_,fun o he => ?_,hcloses⟩
  · obtain ⟨hf,hs,hor⟩ := hcalled c hc
    exact ⟨hf,hhier ▸ hs,hor⟩
  · rw [hnil, hts', hcalls, List.nil_append]
  · exact (hfits pc' he).mono (by rw [hts]) (.of_eq hop)
  · exact (hended o he).mono (by rw [hts]) (.of_eq hop)

theorem nonErrEdges_length (r : Task) :
    (dsl.outEdges r (fun type => type ≠ .error)).length < (dsl.adj r.ref).length ↔
      dsl.hasErrorEdge r.ref := by
  rw [DSLInput.outEdges, List.length_map, List.length_filter_lt_length_iff_exists]
  simp [DSLInput.hasErrorEdge]

theorem handleErrorPath_error (st : State) (exc : Exc) (herr : dsl.hasErrorEdge t.ref) :
    handleErrorPath dsl st t exc = st.queueTasks dsl t t 0 (dsl.outEdges t fun type => type ≠ .error) := by
  unfold handleErrorPath
  exact if_pos ((nonErrEdges_length t).mpr herr)

theorem handleErrorPath_root (st : State) (exc : Exc) (herr : ¬ dsl.hasErrorEdge t.ref) (hroot : t.streamId = .root) :
    handleErrorPath dsl st t exc = { st with
      taskExceptions := st.taskExceptions.insert t.ref ⟨exc,errorInfo t exc⟩ } := by
  unfold handleErrorPath
  exact (if_neg fun hlt => herr ((nonErrEdges_length t).mp hlt)).trans (if_pos hroot)

theorem handleErrorPath_stream (st : State) (exc : Exc) (herr : ¬ dsl.hasErrorEdge t.ref) (hroot : t.streamId ≠ .root) :
    handleErrorPath dsl st t exc = State.queueTasks dsl
      { st with
        streamExceptions := update st.streamExceptions t.streamId
          (some ⟨exc,errorInfo t exc⟩) } t t 0 (dsl.outEdges t fun _ => true) := by
  unfold handleErrorPath
  exact (if_neg fun hlt => herr ((nonErrEdges_length t).mp hlt)).trans (if_neg hroot)

theorem Core.notScattering (h : Core dsl st) (hpc : st.flow.status t = .pending pc) (hs : ¬ dsl.IsScatter t.ref) :
    pc.NotScattering := by
  have hfits := h.fits t pc hpc
  cases pc <;> first | trivial | exact hs hfits.1

theorem Core.uncounted (h : Core dsl st) (hpc : st.flow.status t = .pending pc) : st.openStreams t = none := by
  cases hop : st.openStreams t with
  | none => rfl
  | some n => rcases h.observed t n hop with he | he <;> rw [hpc] at he <;> cases he

theorem finish_await (st : State) (t : Task) (pc : Pc) :
    st.finish dsl t (.await pc) = { st with flow := st.flow.await t pc } := rfl

theorem advance_await (h : Core dsl st) (hns : pc.NotScattering) (hns' : pc'.NotScattering) (hsame : SameFlow st st1)
    (hfits : PcFits dsl st1 t pc')
    (hcloses : (Status.pending pc').IsCloser → (Status.pending pc).IsCloser ∨
      (∃ p x, t.streamId = .child p x .skip) ∨
      ∃ p x i n, t.streamId = .child p x (.item i) ∧ st.openStreams ⟨x,p⟩ = some n ∧ 0 < n) :
    Advance dsl st (st1.finish dsl t (.await pc')) t pc none (.pending pc') := by
  refine advance_of_same h hns hsame rfl rfl rfl (by simp) ?_ (by simp) ?_ (by simp) ?_ (by simp)
    hcloses
  · rw [finish_await]
    dsimp only
    rw [hsame.flow]
    rfl
  · exact hns'.calls t _
  · rintro pc'' he
    cases he
    exact hfits

section
variable (hwf : dsl.WellFormed) (h : Core dsl st) (hpc : st.flow.status t = .pending pc)
include hwf h hpc

/-- A step in which the coroutine of `t` raises. -/
theorem advance_raise (hns : pc.NotScattering) (hsame : SameFlow st st1) (exc : Exc) :
    ∃ call, Advance dsl st (st1.finish dsl t (.raised exc)) t pc call (.ended (.failed exc)) := by
  have hcalled : ∀ unreachable, ∀ c ∈ some (⟨t,0,unreachable⟩ : Call), c.arg ∉ st.flow.args ∧
      (st.contexts.streamHierarchy c.arg.streamId).isSome ∧
      (c.arg.streamId = t.streamId ∨ dsl.hasScatter) := by
    rintro unreachable c hc
    cases hc
    exact ⟨h.fresh_own hwf hpc hns,h.started t (h.started_of_pending hpc),.inl rfl⟩
  have hfits : ∀ pc', (Status.ended (.failed exc)) = .pending pc' → PcFits dsl st1 t pc' := by
    rintro pc' he
    cases he
  have hended : ∀ o, (Status.ended (.failed exc)) = .ended o → OutcomeFits dsl st1 t o := by
    rintro o he
    cases he
    trivial
  by_cases herr : dsl.hasErrorEdge t.ref
  · have heq := handleErrorPath_error st1 exc herr
    refine ⟨some ⟨t,0,dsl.outEdges t fun type => type ≠ .error⟩,advance_of_same h hns hsame
      (by rw [State.finish, heq]; rfl) (by rw [State.finish, heq]; rfl)
      (by rw [State.finish, heq]; rfl) (by simp) ?_ (hcalled _) ?_ ?_ hfits hended fun hc => hc.elim⟩
    · rw [State.finish, heq, State.queueTasks, hsame.flow]
      rfl
    · simp [Status.calls, herr]
    · rintro c hc d type hd
      cases hc
      cases type <;> simp [Status.marker, herr, mem_outEdges, hd]
  by_cases hroot : t.streamId = .root
  · have heq := handleErrorPath_root st1 exc herr hroot
    refine ⟨none,advance_of_same h hns hsame (by rw [State.finish, heq])
      (by rw [State.finish, heq]) (by rw [State.finish, heq]) (by simp) ?_ (by simp) ?_ (by simp)
      hfits hended fun hc => hc.elim⟩
    · rw [State.finish, heq]
      dsimp only
      rw [hsame.flow]
      rfl
    · simp [Status.calls, herr, hroot]
  · have heq := handleErrorPath_stream st1 exc herr hroot
    refine ⟨some ⟨t,0,dsl.outEdges t fun _ => true⟩,advance_of_same h hns hsame
      (by rw [State.finish, heq]; rfl) (by rw [State.finish, heq]; rfl)
      (by rw [State.finish, heq]; rfl) (by simp) ?_ (hcalled _) ?_ ?_ hfits hended fun hc => hc.elim⟩
    · rw [State.finish, heq, State.queueTasks]
      dsimp only
      rw [hsame.flow]
      rfl
    · simp [Status.calls, hroot]
    · rintro c hc d type hd
      cases hc
      simp [Status.marker, herr, mem_outEdges, hd]

/-- A step in which the scatter instance `t` opens a stream. -/
theorem advance_open {context : ExecutionContext} (i : StreamIndex) (delay : ℚ) (unreachable : List DSLEdge)
    (hs : dsl.IsScatter t.ref)
    (hctx : st'.contexts = st.contexts.openStream (.child t.streamId t.ref i) t.streamId context)
    (hfresh : (⟨t.ref,.child t.streamId t.ref i⟩ : Task) ∉
      (Status.pending pc).calls dsl t (st.taskStreams t))
    (hmoved : new ≠ .idle)
    (hflow : st'.flow = (st.flow.call dsl t
      (some ⟨⟨t.ref,.child t.streamId t.ref i⟩,delay,unreachable⟩)).settle t new)
    (hcalls : new.calls dsl t (st'.taskStreams t) =
      (Status.pending pc).calls dsl t (st.taskStreams t) ++
        [⟨t.ref,.child t.streamId t.ref i⟩])
    (hmarksOld : (Status.pending pc).calls dsl t (st.taskStreams t) ≠ [] →
      ∀ type, new.marker dsl t type = (Status.pending pc).marker dsl t type)
    (hmarksNew : ∀ d type, (d,type) ∈ dsl.adj t.ref →
      (if (⟨t.ref,d,type,.child t.streamId t.ref i⟩ : DSLEdge) ∈ unreachable then
        EdgeMarker.skipped else .visited) = new.marker dsl t type)
    (hcounts : Counts st st' t new)
    (hfits : ∀ pc', new = .pending pc' → PcFits dsl st' t pc')
    (hended : ∀ outcome, new = .ended outcome → OutcomeFits dsl st' t outcome)
    (hcloses : ¬ new.IsCloser) :
    Advance dsl st st' t pc (some ⟨⟨t.ref,.child t.streamId t.ref i⟩,delay,unreachable⟩) new := by
  have hreg := h.started t (h.started_of_pending hpc)
  have hhier : st'.contexts.streamHierarchy = update st.contexts.streamHierarchy
      (.child t.streamId t.ref i) (some (some t.streamId)) := by
    rw [hctx]
    rfl
  refine ⟨hmoved,hflow,hctx ▸ h.registered.openStream hreg context,fun s hsome => ?_,
    fun p x j hsome => ?_,fun c hc => ?_,hcalls,hmarksOld,fun c hc d type hd => ?_,hcounts,hfits,hended,
    fun hc => absurd hc hcloses⟩
  · rw [hhier, update_apply]
    split
    · rfl
    · exact hsome
  · rw [hhier, update_apply] at hsome
    split at hsome
    · rename_i he
      obtain ⟨rfl,rfl,rfl⟩ := StreamID.child.inj he
      exact .inr ⟨rfl,_,rfl,rfl⟩
    · exact .inl hsome
  · cases hc
    refine ⟨h.fresh_opened hwf (hpc ▸ hfresh),?_,.inr (dsl.hasScatter_of_isScatter hs)⟩
    rw [hhier, update_self]
    rfl
  · cases hc
    exact hmarksNew d type hd

theorem advance_own (hns : pc.NotScattering) (hsame : SameFlow st st1) {unreachable : List DSLEdge}
    (hcalls : (Status.ended outcome).calls dsl t (st.taskStreams t) = [t])
    (hmarks : ∀ d type, (d,type) ∈ dsl.adj t.ref →
      (if (⟨t.ref,d,type,t.streamId⟩ : DSLEdge) ∈ unreachable then EdgeMarker.skipped
        else .visited) = (Status.ended outcome).marker dsl t type)
    (hfits : OutcomeFits dsl st1 t outcome) (hclose : ¬ (Status.ended outcome).IsCloser) :
    Advance dsl st ((st1.queueTasks dsl t t 0 unreachable).finish dsl t (.done outcome)) t pc
      (some ⟨t,0,unreachable⟩) (.ended outcome) := by
  refine advance_of_same h hns hsame rfl rfl rfl (by simp) ?_ ?_ hcalls ?_ (by simp) ?_
    fun hc => absurd hc hclose
  · rw [State.finish, State.queueTasks, hsame.flow]
    rfl
  · rintro c hc
    cases hc
    exact ⟨h.fresh_own hwf hpc hns,h.started t (h.started_of_pending hpc),.inl rfl⟩
  · rintro c hc d type hd
    cases hc
    exact hmarks d type hd
  · rintro o he
    cases he
    exact hfits

theorem advance_return {p : StreamID} {x : String} {i : StreamIndex} (hr : (Status.pending pc).IsReturning)
    (hg : dsl.IsGather t.ref) (ht : t.streamId = .child p x i) (hsame : SameFlow st st1)
    (hopen : ∃ n, st1.openStreams ⟨x,p⟩ = some n ∧ ∀ k, i = .item k → n ≤ 0)
    (hclose : (Status.pending pc).IsCloser ∨ i = .skip) :
    Advance dsl st ((st1.queueTasks dsl t ⟨t.ref,p⟩ 0 []).finish dsl t (.done .published)) t pc
      (some ⟨⟨t.ref,p⟩,0,[]⟩) (.ended .published) := by
  have hns : pc.NotScattering := by
    cases pc <;> trivial
  refine advance_of_same h hns hsame rfl rfl rfl (by simp) ?_ ?_ ?_ ?_ (by simp) ?_ ?_
  · rw [State.finish, State.queueTasks, hsame.flow]
    rfl
  · rintro c hc
    cases hc
    have hreg := h.started t (h.started_of_pending hpc)
    rw [ht] at hreg
    refine ⟨h.fresh_returned hwf ht hpc hr,h.registered.up p x i hreg,.inr ?_⟩
    have hopened := h.stream_opened (h.started_of_pending hpc) ht
    exact dsl.hasScatter_of_isScatter (h.opened_scatter hopened)
  · simp [Status.calls, ht, StreamID.parent]
  · rintro c hc d type hd
    cases hc
    rfl
  · rintro o he
    cases he
    obtain ⟨n,hn,hle⟩ := hopen
    exact ⟨hg,p,x,i,ht,n,hn,hle⟩
  · rintro -
    rcases hclose with hc | rfl
    · exact .inl hc
    · exact .inr (.inl ⟨p,x,ht⟩)

variable (st1) in
/-- The loop of `_handle_scatter` opens the stream of the next item. -/
theorem advance_item {A : Activities} (args : ScatterArgs) {collection : List Value} {opened : ℕ}
    (hs : dsl.IsScatter t.ref) (hlen : opened < collection.length) (hflow : st1.flow = st.flow)
    (hctx : st1.contexts = st.contexts) (hcounts : Counts st st1 t (.pending (.scattering collection (opened+1))))
    (hts : st1.taskStreams t = (List.range opened).map fun i => .child t.streamId t.ref (.item i))
    (hcalls : (Status.pending pc).calls dsl t (st.taskStreams t) = (st1.taskStreams t).map fun s => ⟨t.ref,s⟩)
    (hmarks : opened ≠ 0 → ∀ type, (Status.pending pc).marker dsl t type = .visited) :
    ∃ call, Advance dsl st ((openExecutionStream A dsl st1 t args collection opened).finish dsl t
      (.await (.scattering collection (opened+1)))) t pc call (.pending (.scattering collection (opened+1))) := by
  have hnew : ((openExecutionStream A dsl st1 t args collection opened).finish dsl t
      (.await (.scattering collection (opened+1)))).taskStreams t =
        st1.taskStreams t ++ [.child t.streamId t.ref (.item opened)] := update_self ..
  refine ⟨_,advance_open hwf h hpc (.item opened) (opened*args.interval.getD 0) [] hs (by rw [← hctx]; rfl) ?_ (by simp) ?_ ?_ ?_
    (fun _ _ _ => rfl) ⟨?_,hcounts.lower,hcounts.observed⟩ ?_ (by simp) id⟩
  · simp [hcalls, hts]
  · rw [← hflow]
    rfl
  · rw [hcalls]
    dsimp only [Status.calls]
    rw [hnew, List.map_append]
    rfl
  · intro hne type
    refine (hmarks ?_ type).symm
    rintro rfl
    exact hne (by simp [hcalls, hts])
  · exact fun u hu => (update_of_ne hu _ _).trans (hcounts.streams u hu)
  · rintro pc' he
    cases he
    refine ⟨hs,by omega,hlen,?_⟩
    rw [hnew, hts, List.range_succ, List.map_append]
    rfl

theorem advance_skip_stream (st1 : State) (outcome : Outcome) (hns : pc.NotScattering) (hs : dsl.IsScatter t.ref)
    (hflow : st1.flow = st.flow) (hctx : st1.contexts = st.contexts) (hcounts : Counts st st1 t (.ended outcome))
    (hor : outcome = .skipped ∨ outcome = .emptied) :
    ∃ call, Advance dsl st ((handleScatterSkipStream dsl st1 t).finish dsl t (.done outcome)) t pc
      call (.ended outcome) := by
  have hnil := @Pc.NotScattering.calls dsl pc hns t (st.taskStreams t)
  refine ⟨_,advance_open hwf h hpc .skip 0
    (dsl.outEdges ⟨t.ref,.child t.streamId t.ref .skip⟩ fun _ => true) hs
    (by rw [← hctx]; rfl) (by rw [hnil]; simp) (by simp) ?_ ?_ (fun hne => absurd hnil hne) ?_
    ⟨hcounts.streams,hcounts.lower,hcounts.observed⟩ (by simp) ?_ ?_⟩
  · rw [State.finish, handleScatterSkipStream, State.queueTasks]
    dsimp only
    rw [hflow]
    rfl
  · rw [hnil]
    rcases hor with rfl | rfl <;> simp [Status.calls, hs]
  · intro d type hd
    rw [if_pos (mem_outEdges.mpr ⟨rfl,rfl,hd,rfl⟩)]
    rcases hor with rfl | rfl <;> rfl
  · rintro o he
    cases he
    rcases hor with rfl | rfl
    · exact fun hg => absurd hs (DSLInput.not_scatter_of_gather hg)
    · exact hs
  · rcases hor with rfl | rfl <;> exact id

end

theorem Pc.IsWait.notScattering (h : pc.IsWait) : pc.NotScattering := by
  cases pc <;> trivial

theorem Pc.IsWait.not_closer (h : pc.IsWait) : ¬ (Status.pending pc).IsCloser := by
  cases pc <;> first | exact id | exact fun _ => h

theorem advance_scattered {collection : List Value} {opened : ℕ}
    (h : Core dsl st) (hpc : st.flow.status t = .pending (.scattering collection opened)) :
    Advance dsl st (State.finish dsl { st with
      openStreams := update st.openStreams t (some (st.taskStreams t).length) } t
        (.done .scattered)) t (.scattering collection opened) none (.ended .scattered) := by
  obtain ⟨hs,hpos,-,hts⟩ := h.fits t _ hpc
  refine ⟨by simp,rfl,h.registered,fun _ hs => hs,fun _ _ _ hs => .inl hs,by simp,by simp [Status.calls,
    State.finish],fun _ _ => rfl,by simp,.sets (fun _ _ => rfl) (h.uncounted hpc) rfl (.inl rfl),by simp,?_,
    fun hc => hc.elim⟩
  rintro o he
  cases he
  exact ⟨hs,opened,hpos,hts⟩

/-- Each stretch of a coroutine makes at most one call, and leaves its instance in a status that
accounts for it. -/
theorem advance_of_case {A : Activities} {ending : BlockEnd} (hwf : dsl.WellFormed) (h : Core dsl st)
    (hpc : st.flow.status t = .pending pc) (hb : BlockCase A dsl st t pc st1 ending) :
    ∃ call new, Advance dsl st (st1.finish dsl t ending) t pc call new := by
  have raise : ∀ {st1 : State} (exc : Exc), pc.NotScattering → SameFlow st st1 →
      ∃ call new, Advance dsl st (st1.finish dsl t (.raised exc)) t pc call new := by
    intro st1 exc hns hsame
    obtain ⟨call,ha⟩ := advance_raise hwf h hpc hns hsame exc
    exact ⟨call,_,ha⟩
  cases hb with
  | raises hns exc => exact raise exc hns (.refl st)
  | waits hearly hw hfits =>
    rename_i pc'
    exact ⟨_,_,advance_await h hearly.notScattering hw.notScattering (.refl st) hfits
      fun hc => absurd hc hw.not_closer⟩
  | executes hs hg hc =>
    exact ⟨_,_,advance_await h (h.notScattering hpc hs) trivial (.contexts_only st hc.same) ⟨hs,hg⟩
      fun hc => hc.elim⟩
  | succeeds hs hg hc =>
    refine ⟨_,_,advance_own hwf h hpc (h.notScattering hpc hs) (.contexts_only st hc.same) rfl ?_ ⟨hs,hg⟩ id⟩
    intro d type hd
    cases type <;> simp [Status.marker, mem_outEdges, hd]
  | fails exc hs hg hc => exact raise exc (h.notScattering hpc hs) (.contexts_only st hc.same)
  | skips hearly hs hg =>
    refine ⟨_,_,advance_own hwf h hpc (h.notScattering hpc hs) (.refl st) (by simp [Status.calls, hs])
      ?_ ?_ id⟩
    · intro d type hd
      simp [Status.marker, mem_outEdges, hd]
    · intro hg'
      obtain ⟨p,x,ht,-⟩ := hg hg'
      exact ⟨p,x,ht⟩
  | skipsScatter hearly hs =>
    obtain ⟨call,ha⟩ := advance_skip_stream hwf h hpc st .skipped hearly.notScattering hs rfl rfl
      (.quiet (fun _ _ => rfl) rfl) (.inl rfl)
    exact ⟨call,_,ha⟩
  | empties hs =>
    obtain ⟨call,ha⟩ := advance_skip_stream hwf h hpc { st with
        taskStreams := update st.taskStreams t []
        openStreams := update st.openStreams t (some 0) } .emptied trivial hs rfl rfl
      (.sets (fun u hu => update_of_ne hu _ _) (h.uncounted hpc) rfl (.inr rfl)) (.inr rfl)
    exact ⟨call,_,ha⟩
  | opensFirst hs args hlen =>
    obtain ⟨call,ha⟩ := advance_item (A := A) { st with taskStreams := update st.taskStreams t [] } hwf h hpc args
      hs hlen rfl rfl (.quiet (fun u hu => update_of_ne hu _ _) rfl) (update_self ..) (by simp [Status.calls]) (fun hne => absurd rfl hne)
    exact ⟨call,_,ha⟩
  | opensNext hs args hlen =>
    obtain ⟨call,ha⟩ := advance_item (A := A) st hwf h hpc args hs hlen rfl rfl (.quiet (fun _ _ => rfl) rfl)
      (h.fits t _ hpc).2.2.2 rfl fun _ _ => rfl
    exact ⟨call,_,ha⟩
  | scatters hs hlen => exact ⟨_,_,advance_scattered h hpc⟩
  | skipPublishes hg ht result =>
    obtain ⟨-,q,y,hs,hobs⟩ := h.fits t _ hpc
    obtain ⟨n,hn⟩ := Option.isSome_iff_exists.mp hobs
    obtain ⟨rfl,rfl,-⟩ := StreamID.child.inj (ht.symm.trans hs)
    exact ⟨_,_,advance_return hwf h hpc trivial hg ht
      (.contexts_only st (Contexts.sameStreams_setAction _ _ _ _)) ⟨n,hn,fun k hk => by cases hk⟩ (.inr rfl)⟩
  | closes harr hg ht o hn hc hend hstores =>
    rename_i p x i c n
    have hsame := SameFlow.close st hc.same hn (st.closed ++ [(t,o)])
    have hns := h.notScattering hpc (DSLInput.not_scatter_of_gather hg)
    cases ending with
    | raised exc => exact raise exc hns hsame
    | done outcome =>
      obtain ⟨rfl,-⟩ := hend
      refine ⟨none,.ended .closed,advance_of_same h hns hsame rfl rfl rfl (by simp) rfl (by simp) rfl
        (by simp) (by simp) ?_ fun hc => hc.elim⟩
      rintro o he
      cases he
      exact ⟨hg,p,x,i,ht⟩
    | await pc' =>
      cases pc' with
      | gatherFinalize r f =>
        have hz : n-1 = 0 := hend
        refine ⟨_,_,advance_await h hns trivial hsame ⟨hg,p,x,i,ht,n-1,by omega,?_⟩ fun _ =>
          .inr (.inr ⟨p,x,i,n,ht,hn,by omega⟩)⟩
        exact update_self _ _ _
      | _ => exact hend.elim
  | finalizeRaises hg info _ _ _ =>
    exact raise _ trivial ⟨rfl,rfl,.refl _,.of_eq rfl,fun _ _ hm => by rw [show st.openStreams _ = some _ from hm]; rfl⟩
  | finalizes hg ht result =>
    exact ⟨_,_,advance_await h trivial trivial
      (.contexts_only st (Contexts.sameStreams_setAction _ _ _ _)) (h.fits t _ hpc) fun _ => .inl trivial⟩
  | publishes hg ht =>
    obtain ⟨-,q,y,j,hs,n,hle,hn⟩ := h.fits t _ hpc
    obtain ⟨rfl,rfl,-⟩ := StreamID.child.inj (ht.symm.trans hs)
    exact ⟨_,_,advance_return hwf h hpc trivial hg ht (.refl st) ⟨n,hn,fun _ _ => hle⟩ (.inl trivial)⟩

end

theorem Flow.status_of_lookup {f : Flow} {t : Task} {pc : Pc} (h : f.pending.lookup t = some pc) :
    f.status t = .pending pc := by
  simp only [Flow.status, h]

theorem advance_of_resume {A : Activities} {t : Task} {pc : Pc} (hwf : dsl.WellFormed)
    (h : Core dsl st) (hpc : st.flow.status t = .pending pc) :
    ∃ call new, Advance dsl st (resume A dsl st t pc) t pc call new := by
  unfold resume
  cases hb : block A dsl st t (dsl.task t.ref) pc with
  | mk st1 ending =>
    exact advance_of_case hwf h hpc (block_case h.registered (h.fits t pc hpc) hb)

theorem core_init (hwf : dsl.WellFormed) (context : ExecutionContext) :
    Core dsl (State.init dsl context) := by
  have hidle : ∀ t, (State.init dsl context).flow.status t = .idle := fun t => rfl
  have hstarted : ∀ u ∈ (State.init dsl context).flow.started, u.streamId = .root := by
    intro u hu
    rcases ((counted_init hwf).mem_started u).mp hu with ⟨hr,-⟩ | ⟨hne,hle⟩
    · exact hr
    · rw [(counted_init hwf).indegree] at hle
      have hz : (dsl.task u.ref).dependsOn.length = 0 := by
        simp [Flow.args, Flow.init] at hle
        exact List.length_eq_zero_iff.mpr hle
      exact absurd (List.length_eq_zero_iff.mp hz) hne
  refine ⟨counted_init hwf,Contexts.registered_init context,fun u hu => ?_,fun _ u hu => hstarted u hu,
    fun t pc hp => ?_,fun t o ho => ?_,fun t => ?_,fun u t hq => ?_,fun p x i hs => ?_,fun t n hn => ?_,
    fun g h p x i j hc => ?_⟩
  · rw [hstarted u hu]
    rfl
  · rw [hidle] at hp
    cases hp
  · rw [hidle] at ho
    cases ho
  · rw [hidle]
    rfl
  · cases hq
  · simp [State.init, Contexts.init] at hs
  · cases hn
  · rw [hidle] at hc
    cases hc

/-- What taking an instance from the queue does. -/
structure Dequeues (st st' : State) (t : Task) (delay : ℚ) (queue : List (Task × ℚ)) : Prop where
  head : st.flow.queue = (t,delay) :: queue
  clear : st.taskExceptions.keys = []
  next : st' = { st with
    flow := { st.flow with
      queue := queue
      pending := st.flow.pending.insert t (.created delay)
      scheduled := st.flow.scheduled ++ [t] } }
  idle : st.flow.status t = .idle
  self : st'.flow.status t = .pending (.created delay)
  others : ∀ u, u ≠ t → st'.flow.status u = st.flow.status u

theorem dequeue_cases {st' : State} (h : Core dsl st) (hd : dequeue st = some st') :
    ∃ t delay queue, Dequeues st st' t delay queue := by
  unfold dequeue at hd
  split at hd
  · cases hd
  rename_i t delay queue hq
  split at hd
  · rename_i hclear
    cases hd
    refine ⟨t,delay,queue,hq,hclear,rfl,?_,Flow.status_of_lookup (AList.lookup_insert _),?_⟩
    · by_contra hne
      have hm := h.counted.scheduled_of_status hne
      have hnd := h.counted.started_nodup
      rw [Flow.started, hq] at hnd
      exact (List.nodup_append.mp hnd).2.2 t hm t (by simp) rfl
    · intro u hu
      simp only [Flow.status, AList.lookup_insert_ne hu]
  · cases hd

theorem core_dequeue {st' : State} (h : Core dsl st) (hd : dequeue st = some st') :
    Core dsl st' := by
  obtain ⟨t,delay,queue,hdeq⟩ := dequeue_cases h hd
  obtain ⟨hq,-,rfl,hnew,hself,hother⟩ := hdeq
  dsimp only at hself hother
  have hcounted := h.counted.dequeue hq (.created delay)
  set f' : Flow := { st.flow with
    queue := queue
    pending := st.flow.pending.insert t (.created delay)
    scheduled := st.flow.scheduled ++ [t] } with hf'
  have hstarted : f'.started = st.flow.started := by
    simp [hf', Flow.started, hq]
  have hcases : ∀ {P : Status → Prop} (u : Task), P (f'.status u) →
      P (.pending (.created delay)) ∨ P (st.flow.status u) := by
    intro P u hu
    by_cases hut : u = t
    · subst hut
      exact .inl (hself ▸ hu)
    · exact .inr (hother u hut ▸ hu)
  have hidle : ∀ u, (f'.status u).calls dsl u (st.taskStreams u) =
      (st.flow.status u).calls dsl u (st.taskStreams u) := by
    intro u
    by_cases hut : u = t
    · subst hut
      rw [hself, hnew]
      rfl
    · rw [hother u hut]
  refine ⟨hcounted,h.registered,fun u hu => h.started u (hstarted ▸ hu),
    fun hs u hu => h.flat hs u (hstarted ▸ hu),fun u pc hp => ?_,fun u o ho => ?_,
    fun u => (h.calls u).trans (hidle u).symm,fun u v huv d type hd => ?_,h.openers,
    fun y n hn => ?_,fun g g' p x i j h1 h2 => ?_⟩
  · by_cases hut : u = t
    · subst hut
      obtain rfl := Status.pending.inj (hself.symm.trans hp)
      trivial
    · exact (h.fits u pc ((hother u hut).symm.trans hp)).mono rfl (.of_eq rfl)
  · by_cases hut : u = t
    · subst hut
      cases hself.symm.trans ho
    · exact (h.ended u o ((hother u hut).symm.trans ho)).mono rfl (.of_eq rfl)
  · have hvt : v ≠ t := by
      rintro rfl
      have hm := h.mem_calls.mp huv
      rw [hnew] at hm
      cases hm
    rw [hother v hvt]
    exact h.marks u v huv d type hd
  · have hend := h.observed y n hn
    have hyt : y ≠ t := by
      rintro rfl
      rw [hnew] at hend
      rcases hend with he | he <;> cases he
    rwa [hother y hyt]
  · rcases hcases _ h1 with h1 | h1
    · cases h1
    rcases hcases _ h2 with h2 | h2
    · cases h2
    exact h.closers g g' p x i j h1 h2

theorem core_step {A : Activities} {st' : State} {choice : Choice} (hwf : dsl.WellFormed)
    (h : Core dsl st) (hs : step A dsl st choice = some st') : Core dsl st' := by
  cases choice with
  | dequeue => exact core_dequeue h hs
  | resume t =>
    obtain ⟨pc,hl,rfl⟩ := Option.map_eq_some_iff.mp hs
    have hpc := Flow.status_of_lookup hl
    obtain ⟨call,new,ha⟩ := @advance_of_resume dsl st A t pc hwf h hpc
    exact h.advance hwf hpc ha

def BlockEnd.status : BlockEnd → Status
  | .await pc => .pending pc
  | .done outcome => .ended outcome
  | .raised exc => .ended (.failed exc)

theorem status_finish_self (st : State) (t : Task) (ending : BlockEnd) :
    (st.finish dsl t ending).flow.status t = ending.status := by
  cases ending with
  | await pc => exact Flow.status_await_self _ t pc
  | done outcome => exact Flow.status_complete_self _ t outcome
  | raised exc => exact Flow.status_complete_self _ t _

/-- What resuming the coroutine of `t` does. -/
structure Resumes (A : Activities) (dsl : DSLInput) (st st' : State) (t : Task) (pc : Pc)
    (st1 : State) (ending : BlockEnd) : Prop where
  before : st.flow.status t = .pending pc
  block : block A dsl st t (dsl.task t.ref) pc = (st1,ending)
  cases : BlockCase A dsl st t pc st1 ending
  next : st' = st1.finish dsl t ending
  self : st'.flow.status t = ending.status
  others : ∀ u, u ≠ t → st'.flow.status u = st.flow.status u

theorem resume_cases {A : Activities} {st' : State} {t : Task} (hwf : dsl.WellFormed)
    (h : Core dsl st) (hs : step A dsl st (.resume t) = some st') :
    ∃ pc st1 ending, Resumes A dsl st st' t pc st1 ending := by
  obtain ⟨pc,hl,rfl⟩ := Option.map_eq_some_iff.mp hs
  have hpc := Flow.status_of_lookup hl
  unfold resume
  cases hb : block A dsl st t (dsl.task t.ref) pc with
  | mk st1 ending =>
    have hcase := block_case h.registered (h.fits t pc hpc) hb
    obtain ⟨call,new,ha⟩ := advance_of_case hwf h hpc hcase
    exact ⟨pc,st1,ending,hpc,hb,hcase,rfl,status_finish_self st1 t ending,fun u hu => ha.others hu⟩

/-- The states of the runs of `start`, whose steps all meet `ok`. -/
def Run (A : Activities) (dsl : DSLInput) (context : ExecutionContext)
    (ok : State → Choice → Prop) (st : State) : Prop :=
  Runs.Reaches (step A dsl) ok (State.init dsl context) st

theorem Run.core {A : Activities} {context : ExecutionContext} {ok : State → Choice → Prop}
    (hwf : dsl.WellFormed) (h : Run A dsl context ok st) : Core dsl st :=
  h.invariant (core_init hwf context) fun _ _ _ _ hc _ hs => core_step hwf hc hs

theorem Run.status_invariant {A : Activities} {context : ExecutionContext}
    {ok : State → Choice → Prop} {P : Task → Status → Prop} (hwf : dsl.WellFormed)
    (h : Run A dsl context ok st) (hidle : ∀ t, P t .idle)
    (hcreated : ∀ t delay, P t (.pending (.created delay)))
    (hstep : ∀ st st' t pc st1 ending, Core dsl st → ok st (.resume t) →
      Resumes A dsl st st' t pc st1 ending → (∀ u, P u (st.flow.status u)) →
      P t ending.status) (t : Task) :
    P t (st.flow.status t) := by
  revert t
  refine h.invariant (P := fun st => ∀ t, P t (st.flow.status t)) (fun t => hidle t) ?_
  intro st choice st' hr hP hok hs u
  have hcore := Run.core hwf hr
  cases choice with
  | dequeue =>
    obtain ⟨t,delay,queue,hdeq⟩ := dequeue_cases hcore hs
    by_cases hut : u = t
    · rw [hut, hdeq.self]
      exact hcreated t delay
    · rw [hdeq.others u hut]
      exact hP u
  | resume t =>
    obtain ⟨pc,st1,ending,hres⟩ := resume_cases hwf hcore hs
    by_cases hut : u = t
    · rw [hut, hres.self]
      exact hstep st st' t pc st1 ending hcore hok hres hP
    · rw [hres.others u hut]
      exact hP u

end
end Allama

import Mathlib.Data.Set.Function
import Allama.StreamReads

/-! Two states of the scheduler that agree off the streams below one of them. -/
namespace Allama
open Function

theorem StreamID.mem_path_parent {u s p : StreamID} (h : s.parent = some p) (hu : u ∈ p.path) :
    u ∈ s.path := by
  cases s with
  | root => cases h
  | child q x i =>
    obtain rfl : q = p := Option.some.inj h
    exact List.mem_cons_of_mem _ hu

theorem StreamID.self_mem_path (s : StreamID) : s ∈ s.path := by
  cases s <;> exact List.mem_cons_self

theorem StreamID.depth_le_of_mem_path {u s : StreamID} (h : u ∈ s.path) : u.depth ≤ s.depth := by
  induction s with
  | root =>
    obtain rfl : u = .root := List.mem_singleton.mp h
    exact le_rfl
  | child p x i ih =>
    rcases List.mem_cons.mp h with rfl | hp
    · exact le_rfl
    · exact (ih hp).trans (Nat.le_succ _)

theorem sibling_not_mem_path (p : StreamID) (x : String) {i j : StreamIndex} (h : i ≠ j) :
    StreamID.child p x j ∉ (StreamID.child p x i).path := by
  intro hm
  rcases List.mem_cons.mp hm with he | hp
  · exact h (StreamID.child.inj he).2.2.symm
  · have hle := StreamID.depth_le_of_mem_path hp
    simp only [StreamID.depth] at hle
    omega

theorem root_not_below {u : StreamID} (hu : u ≠ .root) : u ∉ StreamID.root.path := by
  intro hm
  exact hu (List.mem_singleton.mp hm)

/-- The streams that are not below `u`. -/
def StreamID.off (u : StreamID) : Set StreamID := {s | u ∉ s.path}

def StreamID.offTasks (u : StreamID) : Set Task := {t | u ∉ t.streamId.path}

structure Contexts.AgreeOff (u : StreamID) (c c' : Contexts) : Prop where
  streams : Set.EqOn c'.streams c.streams u.off
  hierarchy : Set.EqOn c'.streamHierarchy c.streamHierarchy u.off

def StreamID.queues (u : StreamID) (q : Task × ℚ) : Bool := decide (u ∉ q.1.streamId.path)

structure Flow.AgreeOff (u : StreamID) (f f' : Flow) : Prop where
  queue : f'.queue.filter u.queues = f.queue.filter u.queues
  pending : ∀ t ∈ u.offTasks, f'.pending.lookup t = f.pending.lookup t
  indegrees : Set.EqOn f'.indegrees f.indegrees u.offTasks
  edges : ∀ e : DSLEdge, e.streamId ∈ u.off → f'.edges e = f.edges e
  outcomes : Set.EqOn f'.outcomes f.outcomes u.offTasks

/-- What the coroutines off the streams below `u` look at is the same. -/
structure State.AgreeOff (u : StreamID) (st st' : State) : Prop where
  contexts : st.contexts.AgreeOff u st'.contexts
  flow : st.flow.AgreeOff u st'.flow
  taskStreams : Set.EqOn st'.taskStreams st.taskStreams u.offTasks
  openStreams : Set.EqOn st'.openStreams st.openStreams u.offTasks
  streamExceptions : Set.EqOn st'.streamExceptions st.streamExceptions u.off

/-- The activities give the same results for the instances off the streams below `u`. -/
structure Activities.SameOff (u : StreamID) (A A' : Activities) : Prop where
  evaluateRunIf : Set.EqOn A'.evaluateRunIf A.evaluateRunIf u.offTasks
  handleScatterInput : Set.EqOn A'.handleScatterInput A.handleScatterInput u.offTasks
  evaluateItems : Set.EqOn A'.evaluateItems A.evaluateItems u.offTasks
  finalizeFailure : Set.EqOn A'.finalizeFailure A.finalizeFailure u.offTasks
  noopGatherAction : Set.EqOn A'.noopGatherAction A.noopGatherAction u.offTasks
  handleTimers : Set.EqOn A'.handleTimers A.handleTimers u.offTasks
  prepareSubflow : Set.EqOn A'.prepareSubflow A.prepareSubflow u.offTasks
  runChildWorkflow : Set.EqOn A'.runChildWorkflow A.runChildWorkflow u.offTasks
  executeAction : Set.EqOn A'.executeAction A.executeAction u.offTasks
  evaluateRetryUntil : Set.EqOn A'.evaluateRetryUntil A.evaluateRetryUntil u.offTasks
  computeLogicalTime : Set.EqOn A'.computeLogicalTime A.computeLogicalTime u.offTasks
  resultExternalizationEnabled : A'.resultExternalizationEnabled = A.resultExternalizationEnabled
  parseInt : A'.parseInt = A.parseInt

section
variable {α β : Type} [DecidableEq α] {f f' : α → β} {S : Set α}

theorem eqOn_update (h : Set.EqOn f' f S) (a : α) (b : β) :
    Set.EqOn (update f' a b) (update f a b) S := by
  intro x hx
  rw [update_apply, update_apply, h hx]

theorem eqOn_update_notMem {a : α} (ha : a ∉ S) (b : β) : Set.EqOn (update f a b) f S := by
  intro x hx
  refine update_of_ne ?_ b f
  rintro rfl
  exact ha hx

end

section
variable {u : StreamID} {dsl : DSLInput}

namespace Contexts
variable {c c' c1 : Contexts}

theorem AgreeOff.refl (u : StreamID) (c : Contexts) : c.AgreeOff u c :=
  ⟨Set.eqOn_refl _ _,Set.eqOn_refl _ _⟩

theorem AgreeOff.symm (h : c.AgreeOff u c') : c'.AgreeOff u c := ⟨h.streams.symm,h.hierarchy.symm⟩

theorem AgreeOff.trans (h : c.AgreeOff u c') (h' : c'.AgreeOff u c1) : c.AgreeOff u c1 :=
  ⟨h'.streams.trans h.streams,h'.hierarchy.trans h.hierarchy⟩

theorem AgreeOff.setAction (h : c.AgreeOff u c') {s : StreamID} (hs : s ∈ u.off) (ref : String)
    (result : TaskResult) : (c.setAction s ref result).AgreeOff u (c'.setAction s ref result) := by
  refine ⟨?_,h.hierarchy⟩
  simp only [Contexts.setAction, h.streams hs]
  exact eqOn_update h.streams s _

theorem AgreeOff.setLogicalTime (h : c.AgreeOff u c') (hu : u ≠ .root) (time : ℤ) :
    (c.setLogicalTime time).AgreeOff u (c'.setLogicalTime time) := by
  refine ⟨?_,h.hierarchy⟩
  simp only [Contexts.setLogicalTime, h.streams (root_not_below hu)]
  exact eqOn_update h.streams _ _

theorem AgreeOff.openStream (h : c.AgreeOff u c') (s b : StreamID) (ctx : ExecutionContext) :
    (c.openStream s b ctx).AgreeOff u (c'.openStream s b ctx) :=
  ⟨eqOn_update h.streams s _,eqOn_update h.hierarchy s _⟩

theorem agreeOff_setAction (c : Contexts) {s : StreamID} (hs : u ∈ s.path) (ref : String)
    (result : TaskResult) : c.AgreeOff u (c.setAction s ref result) :=
  ⟨eqOn_update_notMem (not_not.mpr hs) _,Set.eqOn_refl _ _⟩

theorem agreeOff_openStream (c : Contexts) {s : StreamID} (hs : u ∈ s.path) (b : StreamID)
    (ctx : ExecutionContext) : c.AgreeOff u (c.openStream s b ctx) :=
  ⟨eqOn_update_notMem (not_not.mpr hs) _,eqOn_update_notMem (not_not.mpr hs) _⟩

theorem AgreeOff.rootContext (h : c.AgreeOff u c') (hu : u ≠ .root) :
    c'.rootContext = c.rootContext := by
  rw [Contexts.rootContext, Contexts.rootContext, h.streams (root_not_below hu)]

theorem AgreeOff.searchUp (h : c.AgreeOff u c')
    (hparent : ∀ s v, c.streamHierarchy s = some v → v = s.parent) (ref : String) (n : ℕ)
    {s : StreamID} (hs : s ∈ u.off) : c'.searchUp ref n (some s) = c.searchUp ref n (some s) := by
  induction n generalizing s with
  | zero => rfl
  | succ n ih =>
    simp only [Contexts.searchUp, h.streams hs, h.hierarchy hs]
    cases hv : c.streamHierarchy s with
    | none => simp only [Option.join_none]; cases n <;> rfl
    | some v =>
      obtain rfl := hparent s v hv
      cases hp : s.parent with
      | none => simp only [Option.join_some]; cases n <;> rfl
      | some p =>
        simp only [Option.join_some]
        rw [ih fun hm => hs (StreamID.mem_path_parent hp hm)]

theorem AgreeOff.buildStreamAwareContext (h : c.AgreeOff u c') (hu : u ≠ .root)
    (hparent : ∀ s v, c.streamHierarchy s = some v → v = s.parent) (stmt : ActionStatement)
    {s : StreamID} (hs : s ∈ u.off) :
    c'.buildStreamAwareContext stmt s = c.buildStreamAwareContext stmt s := by
  have hactions : ∀ ref, c'.getStreamAwareActionResult ref s = c.getStreamAwareActionResult ref s :=
    fun ref => h.searchUp hparent ref _ hs
  simp only [Contexts.buildStreamAwareContext, h.rootContext hu, hactions]

theorem AgreeOff.operand (h : c.AgreeOff u c') (hu : u ≠ .root)
    (hparent : ∀ s v, c.streamHierarchy s = some v → v = s.parent) (kind : ActionKind)
    (stmt : ActionStatement) {s : StreamID} (hs : s ∈ u.off) :
    kind.operand c' stmt s = kind.operand c stmt s := by
  cases kind with
  | action => exact congrArg some (h.buildStreamAwareContext hu hparent stmt hs)
  | runIf => exact congrArg some (h.buildStreamAwareContext hu hparent stmt hs)
  | retryUntil => exact congrArg some (h.rootContext hu)
  | collection => exact h.streams hs
  | items => exact h.streams hs
  | subflow => exact h.streams hs

end Contexts

namespace Flow
variable {f f' f1 : Flow} {t : Task}

theorem AgreeOff.refl (u : StreamID) (f : Flow) : f.AgreeOff u f :=
  ⟨rfl,fun _ _ => rfl,Set.eqOn_refl _ _,fun _ _ => rfl,Set.eqOn_refl _ _⟩

theorem AgreeOff.symm (h : f.AgreeOff u f') : f'.AgreeOff u f :=
  ⟨h.queue.symm,fun t ht => (h.pending t ht).symm,h.indegrees.symm,fun e he => (h.edges e he).symm,
    h.outcomes.symm⟩

theorem AgreeOff.trans (h : f.AgreeOff u f') (h' : f'.AgreeOff u f1) : f.AgreeOff u f1 :=
  ⟨h'.queue.trans h.queue,fun t ht => (h'.pending t ht).trans (h.pending t ht),
    h'.indegrees.trans h.indegrees,fun e he => (h'.edges e he).trans (h.edges e he),
    h'.outcomes.trans h.outcomes⟩

theorem agreeOff_queueNext (f : Flow) (ht : u ∈ t.streamId.path) (delay : ℚ)
    (unreachable : List DSLEdge) (next : AdjDst) :
    f.AgreeOff u (queueNext dsl t delay unreachable f next) := by
  rw [queueNext_eq]
  refine ⟨?_,fun _ _ => rfl,eqOn_update_notMem (not_not.mpr ht) _,fun e he => ?_,Set.eqOn_refl _ _⟩
  · dsimp only
    rw [List.filter_append]
    split
    · simp [StreamID.queues, ht]
    · simp
  · refine update_of_ne ?_ _ _
    rintro rfl
    exact he ht

theorem AgreeOff.queueNext (h : f.AgreeOff u f') (t : Task) (delay : ℚ) (unreachable : List DSLEdge)
    (next : AdjDst) : (queueNext dsl t delay unreachable f next).AgreeOff u
      (queueNext dsl t delay unreachable f' next) := by
  by_cases ht : u ∈ t.streamId.path
  · exact (agreeOff_queueNext f ht delay unreachable next).symm.trans
      (h.trans (agreeOff_queueNext f' ht delay unreachable next))
  · have hindegree : f'.indegree dsl ⟨next.1,t.streamId⟩ = f.indegree dsl ⟨next.1,t.streamId⟩ := by
      have hnext : (⟨next.1,t.streamId⟩ : Task) ∈ u.offTasks := ht
      rw [Flow.indegree, Flow.indegree, h.indegrees hnext]
    rw [queueNext_eq, queueNext_eq]
    refine ⟨?_,h.pending,?_,fun e he => ?_,h.outcomes⟩
    · dsimp only
      rw [hindegree, List.filter_append, List.filter_append, h.queue]
    · dsimp only
      rw [hindegree]
      exact eqOn_update h.indegrees _ _
    · simp only [update_apply, h.edges e he]

theorem agreeOff_queueTasks (f : Flow) (caller : Task) (ht : u ∈ t.streamId.path) (delay : ℚ)
    (unreachable : List DSLEdge) :
    f.AgreeOff u (Allama.queueTasks dsl caller t delay unreachable f) := by
  have hfold : ∀ (l : List AdjDst) (f1 : Flow), f.AgreeOff u f1 →
      f.AgreeOff u (l.foldl (Allama.queueNext dsl t delay unreachable) f1) := by
    intro l
    induction l with
    | nil => exact fun _ h => h
    | cons a l ih => exact fun f1 h => ih _ (h.trans (agreeOff_queueNext f1 ht delay unreachable a))
  exact hfold _ _ ⟨rfl,fun _ _ => rfl,Set.eqOn_refl _ _,fun _ _ => rfl,Set.eqOn_refl _ _⟩

theorem AgreeOff.queueTasks (h : f.AgreeOff u f') (caller t : Task) (delay : ℚ)
    (unreachable : List DSLEdge) : (Allama.queueTasks dsl caller t delay unreachable f).AgreeOff u
      (Allama.queueTasks dsl caller t delay unreachable f') := by
  have hfold : ∀ (l : List AdjDst) (f1 f1' : Flow), f1.AgreeOff u f1' →
      (l.foldl (Allama.queueNext dsl t delay unreachable) f1).AgreeOff u
        (l.foldl (Allama.queueNext dsl t delay unreachable) f1') := by
    intro l
    induction l with
    | nil => exact fun _ _ h => h
    | cons a l ih => exact fun f1 f1' h => ih _ _ (h.queueNext t delay unreachable a)
  exact hfold _ _ _ ⟨h.queue,h.pending,h.indegrees,h.edges,h.outcomes⟩

theorem AgreeOff.settle (h : f.AgreeOff u f') (t : Task) (new : Status) :
    (f.settle t new).AgreeOff u (f'.settle t new) := by
  cases new with
  | idle => exact h
  | pending pc =>
    refine ⟨h.queue,fun v hv => ?_,h.indegrees,h.edges,h.outcomes⟩
    by_cases hvt : v = t
    · subst hvt
      simp only [Flow.settle, Flow.await, AList.lookup_insert]
    · simp only [Flow.settle, Flow.await, AList.lookup_insert_ne hvt, h.pending v hv]
  | ended outcome =>
    refine ⟨h.queue,fun v hv => ?_,h.indegrees,h.edges,eqOn_update h.outcomes _ _⟩
    by_cases hvt : v = t
    · subst hvt
      simp only [Flow.settle, Flow.complete, AList.lookup_erase]
    · simp only [Flow.settle, Flow.complete, AList.lookup_erase_ne hvt, h.pending v hv]

theorem agreeOff_settle (f : Flow) (ht : u ∈ t.streamId.path) (new : Status) :
    f.AgreeOff u (f.settle t new) := by
  have hne : ∀ v ∈ u.offTasks, v ≠ t := by
    rintro v hv rfl
    exact hv ht
  cases new with
  | idle => exact .refl u f
  | pending pc =>
    exact ⟨rfl,fun v hv => AList.lookup_insert_ne (hne v hv),Set.eqOn_refl _ _,fun _ _ => rfl,
      Set.eqOn_refl _ _⟩
  | ended outcome =>
    exact ⟨rfl,fun v hv => AList.lookup_erase_ne (hne v hv),Set.eqOn_refl _ _,fun _ _ => rfl,
      eqOn_update_notMem (not_not.mpr ht) _⟩

theorem AgreeOff.edgeHasMarker (h : f.AgreeOff u f') (ht : t ∈ u.offTasks) (marker : EdgeMarker) :
    f'.edgeHasMarker marker t = f.edgeHasMarker marker t := by
  funext src
  have hs : t.streamId ∈ u.off := ht
  rw [Flow.edgeHasMarker, Flow.edgeHasMarker, h.edges (edgeByRefs src t.ref t.streamId) hs]

theorem AgreeOff.skipShouldPropagate (h : f.AgreeOff u f') (ht : t ∈ u.offTasks)
    (stmt : ActionStatement) : f'.skipShouldPropagate t stmt = f.skipShouldPropagate t stmt := by
  unfold Flow.skipShouldPropagate
  rw [h.edgeHasMarker ht]

theorem AgreeOff.isReachable (h : f.AgreeOff u f') (ht : t ∈ u.offTasks) (stmt : ActionStatement) :
    f'.isReachable t stmt = f.isReachable t stmt := by
  unfold Flow.isReachable
  simp only [h.edgeHasMarker ht]

theorem AgreeOff.status (h : f.AgreeOff u f') (ht : t ∈ u.offTasks) : f'.status t = f.status t := by
  rw [Flow.status, Flow.status, h.pending t ht, h.outcomes ht]

end Flow

namespace State
variable {st st' st1 : State} {c c' : Contexts}

theorem AgreeOff.refl (u : StreamID) (st : State) : st.AgreeOff u st :=
  ⟨.refl u _,.refl u _,Set.eqOn_refl _ _,Set.eqOn_refl _ _,Set.eqOn_refl _ _⟩

theorem AgreeOff.symm (h : st.AgreeOff u st') : st'.AgreeOff u st :=
  ⟨h.contexts.symm,h.flow.symm,h.taskStreams.symm,h.openStreams.symm,h.streamExceptions.symm⟩

theorem AgreeOff.trans (h : st.AgreeOff u st') (h' : st'.AgreeOff u st1) : st.AgreeOff u st1 :=
  ⟨h.contexts.trans h'.contexts,h.flow.trans h'.flow,h'.taskStreams.trans h.taskStreams,
    h'.openStreams.trans h.openStreams,h'.streamExceptions.trans h.streamExceptions⟩

theorem AgreeOff.withContexts (h : st.AgreeOff u st') (hc : c.AgreeOff u c') :
    ({ st with contexts := c } : State).AgreeOff u { st' with contexts := c' } :=
  { h with contexts := hc }

theorem AgreeOff.queueTasks (h : st.AgreeOff u st') (caller t : Task) (delay : ℚ)
    (unreachable : List DSLEdge) : (st.queueTasks dsl caller t delay unreachable).AgreeOff u
      (st'.queueTasks dsl caller t delay unreachable) :=
  { h with flow := h.flow.queueTasks caller t delay unreachable }

theorem AgreeOff.handleErrorPath (h : st.AgreeOff u st') (t : Task) (exc : Exc) :
    (handleErrorPath dsl st t exc).AgreeOff u (handleErrorPath dsl st' t exc) := by
  by_cases herr : dsl.hasErrorEdge t.ref
  · rw [handleErrorPath_error st exc herr, handleErrorPath_error st' exc herr]
    exact h.queueTasks t t _ _
  by_cases hroot : t.streamId = .root
  · rw [handleErrorPath_root st exc herr hroot, handleErrorPath_root st' exc herr hroot]
    exact { h with }
  · rw [handleErrorPath_stream st exc herr hroot, handleErrorPath_stream st' exc herr hroot]
    refine AgreeOff.queueTasks ?_ t t _ _
    exact { h with streamExceptions := eqOn_update h.streamExceptions t.streamId _ }

theorem AgreeOff.settle (h : st.AgreeOff u st') (t : Task) (new : Status) :
    ({ st with flow := st.flow.settle t new } : State).AgreeOff u
      { st' with flow := st'.flow.settle t new } :=
  { h with flow := h.flow.settle t new }

theorem AgreeOff.finish (h : st.AgreeOff u st') (t : Task) (ending : BlockEnd) :
    (st.finish dsl t ending).AgreeOff u (st'.finish dsl t ending) := by
  cases ending with
  | await pc => exact h.settle t (.pending pc)
  | done outcome => exact h.settle t (.ended outcome)
  | raised exc => exact (h.handleErrorPath t exc).settle t (.ended (.failed exc))

theorem AgreeOff.withStreams (h : st.AgreeOff u st') (t : Task) (l : List StreamID) :
    ({ st with taskStreams := update st.taskStreams t l } : State).AgreeOff u
      { st' with taskStreams := update st'.taskStreams t l } :=
  { h with taskStreams := eqOn_update h.taskStreams t l }

theorem AgreeOff.withCounter (h : st.AgreeOff u st') (t : Task) (n : Option ℤ) :
    ({ st with openStreams := update st.openStreams t n } : State).AgreeOff u
      { st' with openStreams := update st'.openStreams t n } :=
  { h with openStreams := eqOn_update h.openStreams t n }

theorem AgreeOff.context (h : st.AgreeOff u st') {s : StreamID} (hs : s ∈ u.off) :
    st'.context s = st.context s := h.contexts.streams hs

theorem AgreeOff.parentStreamId (h : st.AgreeOff u st') (t : Task) {s : StreamID} (hs : s ∈ u.off) :
    st'.parentStreamId t s = st.parentStreamId t s := by
  rw [State.parentStreamId, State.parentStreamId, h.contexts.hierarchy hs]

end State

/-- The same end of a stretch of a coroutine, and states that agree. -/
structure BlockAgrees (u : StreamID) (next next' : State × BlockEnd) : Prop where
  state : next.1.AgreeOff u next'.1
  ending : next'.2 = next.2

/-- The same end of a stretch of an execution, and contexts that agree. -/
structure StretchAgrees (u : StreamID) (next next' : Contexts × ExecEnd) : Prop where
  contexts : next.1.AgreeOff u next'.1
  ending : next'.2 = next.2

section
variable {A A' : Activities} {stmt : ActionStatement} {t : Task} {c c' : Contexts}

theorem agrees_finishAction (h : c.AgreeOff u c') (ht : t ∈ u.offTasks) (result : TaskResult)
    (ending : ExecEnd) :
    StretchAgrees u (finishAction t result ending c) (finishAction t result ending c') := by
  have hs : t.streamId ∈ u.off := ht
  unfold finishAction
  rw [h.streams hs]
  split
  · exact ⟨h,rfl⟩
  · exact ⟨h.setAction hs _ _,rfl⟩

/-- The `finally` of `_execute_task`, where a stretch raises before it awaits. -/
def writeError (t : Task) : Contexts × ExecEnd → Contexts × ExecEnd
  | (c, .raised exc) => raiseAction t exc c
  | (c, ending) => (c, ending)

theorem agrees_raise {first first' : Contexts × ExecEnd} (h : StretchAgrees u first first')
    (ht : t ∈ u.offTasks) : StretchAgrees u (writeError t first) (writeError t first') := by
  obtain ⟨c1,ending⟩ := first
  obtain ⟨c1',ending'⟩ := first'
  obtain rfl : ending' = ending := h.ending
  cases ending' with
  | raised exc => exact agrees_finishAction h.contexts ht _ _
  | await pc => exact h
  | returned => exact h

/-- An attempt that has succeeded is followed by the condition of its `retry_until`. -/
def thenRetry (A : Activities) (t : Task) (attempt : ℕ) (retryUntil : String) (result : TaskResult) :
    Contexts × ExecEnd → Contexts × ExecEnd
  | (c, .returned) => beginRetryUntil A t attempt retryUntil result c
  | (c, ending) => (c, ending)

theorem agrees_retry (hA : A.SameOff u A') (hu : u ≠ .root) (ht : t ∈ u.offTasks) (attempt : ℕ)
    (retryUntil : String) (result : TaskResult) {first first' : Contexts × ExecEnd}
    (h : StretchAgrees u first first') :
    StretchAgrees u (thenRetry A t attempt retryUntil result first)
      (thenRetry A' t attempt retryUntil result first') := by
  obtain ⟨c1,ending⟩ := first
  obtain ⟨c1',ending'⟩ := first'
  obtain rfl : ending' = ending := h.ending
  cases ending' with
  | raised exc => exact h
  | await pc => exact h
  | returned =>
    have hroot := h.contexts.setAction (root_not_below hu) t.ref result
    refine ⟨hroot,?_⟩
    simp only [thenRetry, beginRetryUntil, hA.evaluateRetryUntil ht, hroot.rootContext hu]

variable (hA : A.SameOff u A') (hu : u ≠ .root) (ht : t ∈ u.offTasks)
  (hparent : ∀ s v, c.streamHierarchy s = some v → v = s.parent)
include hA hu ht hparent

theorem agrees_beginAction (h : c.AgreeOff u c') (attempt : ℕ) :
    StretchAgrees u (beginAction A stmt t attempt c) (beginAction A' stmt t attempt c') := by
  have hs : t.streamId ∈ u.off := ht
  unfold beginAction
  simp only [h.streams hs, hA.prepareSubflow ht, hA.executeAction ht, hA.computeLogicalTime ht]
  split
  · split <;> exact ⟨h,rfl⟩
  · refine ⟨h,?_⟩
    simp only [h.buildStreamAwareContext hu hparent stmt hs]
  · refine ⟨h,?_⟩
    simp only [h.buildStreamAwareContext hu hparent stmt hs]
  · have hstamped := h.setLogicalTime hu (A.computeLogicalTime t attempt)
    refine ⟨hstamped,?_⟩
    simp only [hstamped.buildStreamAwareContext hu hparent stmt hs]

theorem agrees_beginTask (h : c.AgreeOff u c') (attempt : ℕ) :
    StretchAgrees u (beginTask A stmt t attempt c) (beginTask A' stmt t attempt c') := by
  unfold beginTask
  rw [hA.handleTimers ht]
  split
  · exact ⟨h,rfl⟩
  · exact agrees_beginAction hA hu ht hparent h attempt

theorem agrees_executeTask (h : c.AgreeOff u c') :
    StretchAgrees u (executeTask A stmt t c) (executeTask A' stmt t c') := by
  unfold executeTask
  exact agrees_raise (agrees_beginTask hA hu ht hparent h 0) ht

theorem agrees_resumeTask (pc : ExecPc) (h : c.AgreeOff u c') :
    StretchAgrees u (resumeTask A stmt t pc c) (resumeTask A' stmt t pc c') := by
  have hs : t.streamId ∈ u.off := ht
  cases pc with
  | timers attempt result =>
    cases result with
    | error exc => exact agrees_finishAction h ht _ _
    | ok _ => exact agrees_raise (agrees_beginAction hA hu ht hparent h attempt) ht
  | prepare attempt result =>
    cases result with
    | error exc => exact agrees_finishAction h ht _ _
    | ok prepared =>
      simp only [resumeTask, h.streams hs, hA.runChildWorkflow ht]
      split
      · split
        · exact agrees_finishAction h ht _ _
        · exact ⟨h,rfl⟩
      · exact ⟨h,rfl⟩
  | action attempt result =>
    cases result with
    | error exc => exact agrees_finishAction h ht _ _
    | ok stored =>
      simp only [resumeTask]
      split
      · exact agrees_finishAction h ht _ _
      · exact agrees_retry hA hu ht attempt _ _ (agrees_finishAction h ht _ _)
  | retryUntil attempt result =>
    cases result with
    | error exc => exact ⟨h,rfl⟩
    | ok b =>
      cases b with
      | true => exact ⟨h,rfl⟩
      | false => exact agrees_raise (agrees_beginTask hA hu ht hparent h (attempt+1)) ht

end

section
variable {A A' : Activities} {stmt : ActionStatement} {t y : Task} {st st' : State} {p : StreamID}

theorem agrees_closeStream (h : st.AgreeOff u st') (hy : y ∈ u.offTasks) (t : Task) (o : StreamOutcome) :
    (st.closeStream t y o = none ∧ st'.closeStream t y o = none) ∨
    ∃ s s', st.closeStream t y o = some s ∧ st'.closeStream t y o = some s' ∧ s.AgreeOff u s' := by
  unfold State.closeStream
  rw [h.openStreams hy]
  split
  · exact .inl ⟨rfl,rfl⟩
  · exact .inr ⟨_,_,rfl,rfl,{ h with openStreams := eqOn_update h.openStreams _ _ }⟩

theorem agrees_storeSlot (h : st.AgreeOff u st') (hp : p ∈ u.off) (hy : y ∈ u.offTasks) (ref : String)
    (i : ℕ) (o : StreamOutcome) :
    (∃ exc, st.storeSlot ref p y i o = .error exc ∧ st'.storeSlot ref p y i o = .error exc) ∨
    ∃ s s', st.storeSlot ref p y i o = .ok s ∧ st'.storeSlot ref p y i o = .ok s' ∧ s.AgreeOff u s' := by
  unfold State.storeSlot State.setSlot State.unsetSlots
  rw [h.context hp, h.taskStreams hy]
  split
  · split
    · exact .inl ⟨_,rfl,rfl⟩
    · split
      · exact .inl ⟨_,rfl,rfl⟩
      · exact .inr ⟨_,_,rfl,rfl,h.withContexts (h.contexts.setAction hp ref _)⟩
  · exact .inr ⟨_,_,rfl,rfl,h⟩

theorem agrees_handleGatherResult (hA : A.SameOff u A') (ht : t ∈ u.offTasks) (h : st.AgreeOff u st')
    (hp : p ∈ u.off) (args : GatherArgs) :
    BlockAgrees u (handleGatherResult A st t p args) (handleGatherResult A' st' t p args) := by
  unfold handleGatherResult
  rw [h.context hp]
  split
  · exact ⟨h,rfl⟩
  · dsimp only
    rw [hA.finalizeFailure ht, hA.parseInt, hA.resultExternalizationEnabled]
    split <;> exact ⟨h.withContexts (h.contexts.setAction hp _ _),rfl⟩

theorem agrees_handleScatter (hA : A.SameOff u A') (ht : t ∈ u.offTasks) (h : st.AgreeOff u st') :
    BlockAgrees u (handleScatter A st t stmt) (handleScatter A' st' t stmt) := by
  have hs : t.streamId ∈ u.off := ht
  unfold handleScatter
  rw [h.context hs]
  split
  · exact ⟨h,rfl⟩
  · exact ⟨h,rfl⟩
  · refine ⟨h,?_⟩
    dsimp only
    rw [hA.handleScatterInput ht]

theorem agrees_handleScatterSkipStream (h : st.AgreeOff u st') (t : Task) :
    (handleScatterSkipStream dsl st t).AgreeOff u (handleScatterSkipStream dsl st' t) :=
  (h.withContexts (h.contexts.openStream _ _ _)).queueTasks _ _ _ _

section
variable (hA : A.SameOff u A') (ht : t ∈ u.offTasks) (h : st.AgreeOff u st')
include hA ht h

theorem agrees_openExecutionStream (args : ScatterArgs) (collection : List Value) (i : ℕ) :
    (openExecutionStream A dsl st t args collection i).AgreeOff u
      (openExecutionStream A' dsl st' t args collection i) := by
  unfold openExecutionStream
  rw [hA.resultExternalizationEnabled, h.taskStreams ht]
  exact ((h.withStreams t _).withContexts (h.contexts.openStream _ _ _)).queueTasks _ _ _ _

theorem agrees_scatterCollection (collection : List Value) : BlockAgrees u (scatterCollection A dsl st t stmt collection)
      (scatterCollection A' dsl st' t stmt collection) := by
  have hempty := h.withStreams t []
  unfold scatterCollection
  dsimp only
  split
  · exact ⟨agrees_handleScatterSkipStream (hempty.withCounter t (some 0)) t,rfl⟩
  · exact ⟨agrees_openExecutionStream hA ht hempty _ _ _,rfl⟩

theorem agrees_scatterNext (collection : List Value) (opened : ℕ) :
    BlockAgrees u (scatterNext A dsl st t stmt collection opened)
      (scatterNext A' dsl st' t stmt collection opened) := by
  unfold scatterNext
  split
  · exact ⟨agrees_openExecutionStream hA ht h _ _ _,rfl⟩
  · rw [h.taskStreams ht]
    exact ⟨h.withCounter t _,rfl⟩

theorem agrees_handleGatherSkipStream (hp : p ∈ u.off) (i : ℕ) :
    BlockAgrees u (handleGatherSkipStream A st t stmt p i) (handleGatherSkipStream A' st' t stmt p i) := by
  have hs : t.streamId ∈ u.off := ht
  have hskipped : st'.skippedOutcome t.streamId = st.skippedOutcome t.streamId := by
    rw [State.skippedOutcome, State.skippedOutcome, h.streamExceptions hs]
  have hy : (⟨t.streamId.leaf.1,p⟩ : Task) ∈ u.offTasks := hp
  rw [handleGatherSkipStream_eq, handleGatherSkipStream_eq, hskipped]
  rcases agrees_storeSlot h hp hy t.ref i (st.skippedOutcome t.streamId) with
    ⟨exc,he,he'⟩ | ⟨s,s',he,he',hs'⟩
  · rw [he, he']
    exact ⟨h,rfl⟩
  · rw [he, he']
    dsimp only
    rw [hs'.openStreams hy]
    split
    · split
      · exact ⟨hs',rfl⟩
      · exact agrees_handleGatherResult hA ht hs' hp _
    · exact ⟨hs',rfl⟩

end

theorem parent_off (hreg : st.contexts.Registered) (ht : t ∈ u.offTasks)
    (hp : st.parentStreamId t t.streamId = .ok p) : p ∈ u.off :=
  fun hm => ht (StreamID.mem_path_parent (parentStreamId_ok hreg hp) hm)

section
variable (hA : A.SameOff u A') (ht : t ∈ u.offTasks) (hreg : st.contexts.Registered) (h : st.AgreeOff u st')
include hA ht hreg h

theorem agrees_handleGather (isSkipping : Bool) :
    BlockAgrees u (handleGather A dsl st t stmt isSkipping) (handleGather A' dsl st' t stmt isSkipping) := by
  have hs : t.streamId ∈ u.off := ht
  unfold handleGather
  split
  · exact ⟨h,rfl⟩
  rw [h.parentStreamId t hs]
  split
  · exact ⟨h,rfl⟩
  rename_i parent hparent
  have hp := parent_off hreg ht hparent
  have hy : (⟨t.streamId.leaf.1,parent⟩ : Task) ∈ u.offTasks := hp
  dsimp only
  split
  · rw [h.openStreams hy]
    split
    · refine ⟨h,?_⟩
      dsimp only
      rw [hA.finalizeFailure ht]
    · exact ⟨h.queueTasks _ _ _ _,rfl⟩
  · rename_i idx _
    split
    · have hskipped : st'.skippedOutcome t.streamId = st.skippedOutcome t.streamId := by
        rw [State.skippedOutcome, State.skippedOutcome, h.streamExceptions hs]
      rw [hskipped]
      rcases agrees_closeStream h hy t (st.skippedOutcome t.streamId) with
        ⟨he,he'⟩ | ⟨s,s',he,he',hs'⟩
      · rw [he, he']
        exact ⟨h,rfl⟩
      · rw [he, he']
        exact agrees_handleGatherSkipStream hA ht hs' hp idx
    · rw [h.context hs]
      split
      · exact ⟨h,rfl⟩
      · exact ⟨h,rfl⟩
      · refine ⟨h,?_⟩
        dsimp only
        rw [hA.evaluateItems ht]

theorem agrees_gatherSkipped : BlockAgrees u (gatherSkipped A dsl st t) (gatherSkipped A' dsl st' t) := by
  have hs : t.streamId ∈ u.off := ht
  unfold gatherSkipped
  rw [h.parentStreamId t hs]
  split
  · exact ⟨h,rfl⟩
  rename_i parent hparent
  have hp := parent_off hreg ht hparent
  rw [h.context hp, hA.resultExternalizationEnabled]
  split
  · exact ⟨h,rfl⟩
  · exact ⟨(h.withContexts (h.contexts.setAction hp _ _)).queueTasks _ _ _ _,rfl⟩

theorem agrees_gatherItem (item : StoredObject) :
    BlockAgrees u (gatherItem A st t stmt item) (gatherItem A' st' t stmt item) := by
  have hs : t.streamId ∈ u.off := ht
  unfold gatherItem
  rw [h.parentStreamId t hs]
  split
  · rename_i parent idx args hparent _ _
    have hp := parent_off hreg ht hparent
    have hy : (⟨t.streamId.leaf.1,parent⟩ : Task) ∈ u.offTasks := hp
    dsimp only
    rcases agrees_closeStream h hy t (.value item) with ⟨he,he'⟩ | ⟨s,s',he,he',hs'⟩
    · rw [he, he']
      exact ⟨h,rfl⟩
    rw [he, he']
    dsimp only
    rcases agrees_storeSlot hs' hp hy t.ref idx (.value item) with ⟨exc,he,he'⟩ | ⟨r,r',he,he',hr⟩
    · change s.setSlot t.ref parent _ idx item = _ at he
      change s'.setSlot t.ref parent _ idx item = _ at he'
      rw [he, he']
      exact ⟨hs',rfl⟩
    · change s.setSlot t.ref parent _ idx item = _ at he
      change s'.setSlot t.ref parent _ idx item = _ at he'
      rw [he, he']
      dsimp only
      rw [hr.openStreams hy]
      split
      · exact agrees_handleGatherResult hA ht hr hp args
      · exact ⟨hr,rfl⟩
  · exact ⟨h,rfl⟩
  · exact ⟨h,rfl⟩

end

theorem agrees_gatherFinalized (hA : A.SameOff u A') (h : st.AgreeOff u st') (hp : p ∈ u.off)
    (args : GatherArgs) (r : TaskResult) (stored : StoredObject) (errors : List ActionErrorInfo) :
    BlockAgrees u (gatherFinalized A st t p args r stored errors)
      (gatherFinalized A' st' t p args r stored errors) := by
  have hy : (⟨t.ref,p⟩ : Task) ∈ u.offTasks := hp
  unfold gatherFinalized
  split
  · exact ⟨{ h with },rfl⟩
  · rw [h.context hp, hA.noopGatherAction hy]
    split
    · exact ⟨h,rfl⟩
    · exact ⟨h.withContexts (h.contexts.setAction hp _ _),rfl⟩

theorem agrees_gatherPublished (ht : t ∈ u.offTasks) (h : st.AgreeOff u st') :
    BlockAgrees u (gatherPublished dsl st t) (gatherPublished dsl st' t) := by
  have hs : t.streamId ∈ u.off := ht
  unfold gatherPublished
  rw [h.parentStreamId t hs]
  split
  · exact ⟨h,rfl⟩
  · exact ⟨h.queueTasks _ _ _ _,rfl⟩

theorem agrees_afterExecute (h : st.AgreeOff u st') {next next' : Contexts × ExecEnd}
    (hn : StretchAgrees u next next') : BlockAgrees u (afterExecute dsl st t next.1 next.2)
      (afterExecute dsl st' t next'.1 next'.2) := by
  rw [hn.ending]
  have hc := h.withContexts hn.contexts
  cases next.2 with
  | await pc => exact ⟨hc,rfl⟩
  | returned => exact ⟨hc.queueTasks _ _ _ _,rfl⟩
  | raised exc => exact ⟨hc,rfl⟩

theorem agrees_handleSkipPath (hA : A.SameOff u A') (ht : t ∈ u.offTasks)
    (hreg : st.contexts.Registered) (h : st.AgreeOff u st') :
    BlockAgrees u (handleSkipPath A dsl st t stmt) (handleSkipPath A' dsl st' t stmt) := by
  unfold handleSkipPath
  split
  · exact ⟨agrees_handleScatterSkipStream h t,rfl⟩
  · exact agrees_handleGather hA ht hreg h true
  · exact ⟨h.queueTasks _ _ _ _,rfl⟩

variable (hA : A.SameOff u A') (hu : u ≠ .root) (ht : t ∈ u.offTasks) (hreg : st.contexts.Registered)
  (h : st.AgreeOff u st')
include hA hu ht hreg h

theorem agrees_dispatch : BlockAgrees u (dispatch A dsl st t stmt) (dispatch A' dsl st' t stmt) := by
  unfold dispatch
  split
  · exact agrees_handleScatter hA ht h
  · exact agrees_handleGather hA ht hreg h false
  · exact agrees_afterExecute h (agrees_executeTask hA hu ht hreg.parent h.contexts)

theorem agrees_afterRunIf (delay : ℚ) :
    BlockAgrees u (afterRunIf A dsl st t stmt delay) (afterRunIf A' dsl st' t stmt delay) := by
  unfold afterRunIf
  split
  · exact ⟨h,rfl⟩
  · exact agrees_dispatch hA hu ht hreg h

theorem agrees_begin (delay : ℚ) :
    BlockAgrees u (begin A dsl st t stmt delay) (begin A' dsl st' t stmt delay) := by
  have hs : t.streamId ∈ u.off := ht
  unfold begin
  rw [h.flow.skipShouldPropagate ht, h.flow.isReachable ht]
  split
  · exact agrees_handleSkipPath hA ht hreg h
  split
  · exact ⟨h,rfl⟩
  split
  · refine ⟨h,?_⟩
    dsimp only
    rw [hA.evaluateRunIf ht, h.contexts.buildStreamAwareContext hu hreg.parent stmt hs]
  · exact agrees_afterRunIf hA hu ht hreg h delay

/-- A stretch of a coroutine off `u` does the same in both states. -/
theorem agrees_block (pc : Pc) : BlockAgrees u (block A dsl st t stmt pc) (block A' dsl st' t stmt pc) := by
  have hs : t.streamId ∈ u.off := ht
  unfold block
  split
  · exact agrees_begin hA hu ht hreg h _
  · exact ⟨h,rfl⟩
  · exact agrees_handleSkipPath hA ht hreg h
  · exact agrees_afterRunIf hA hu ht hreg h _
  · exact agrees_dispatch hA hu ht hreg h
  · exact ⟨h,rfl⟩
  · exact agrees_scatterCollection hA ht h _
  · exact agrees_scatterNext hA ht h _ _
  · exact ⟨h,rfl⟩
  · exact agrees_gatherSkipped hA ht hreg h
  · exact ⟨h,rfl⟩
  · exact agrees_gatherItem hA ht hreg h _
  · exact ⟨h,rfl⟩
  · rw [h.parentStreamId t hs]
    split
    · exact agrees_gatherFinalized hA h (parent_off hreg ht ‹_›) _ _ _ _
    · exact ⟨h,rfl⟩
    · exact ⟨h,rfl⟩
  · exact ⟨h,rfl⟩
  · exact agrees_gatherPublished ht h
  · exact agrees_afterExecute h (agrees_resumeTask hA hu ht hreg.parent _ h.contexts)

end
end
end Allama

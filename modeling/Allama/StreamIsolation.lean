import Allama.StreamAgreement
import Allama.Unwinding
import Allama.Oracles

/-! What a stream does is not seen in the other streams of its scatter. -/
namespace Allama

/-- `ENV` without the clock that `_run_action` keeps in it. -/
def unclock (env : Option DSLEnvironment) : Option DSLEnvironment :=
  env.map fun env => { env with logicalTime := none }

def ExecutionContext.view (clock : Option DSLEnvironment → Option DSLEnvironment)
    (ctx : ExecutionContext) : ExecutionContext :=
  { ctx with env := clock ctx.env }

def ExecutionContext.forget (ref : String) (ctx : ExecutionContext) : ExecutionContext :=
  { ctx with actions := Function.update ctx.actions ref none }

/-- `c'` differs from `c` in the result of `t` in its own stream only, where `ENV` is looked at
through `clock`. -/
structure Contexts.ChangesOnly (clock : Option DSLEnvironment → Option DSLEnvironment) (t : Task)
    (c c' : Contexts) : Prop where
  hierarchy : c'.streamHierarchy = c.streamHierarchy
  others : ∀ s, s ≠ t.streamId →
    (c'.streams s).map (ExecutionContext.view clock) = (c.streams s).map (ExecutionContext.view clock)
  own : (c'.streams t.streamId).map (fun ctx => (ctx.view clock).forget t.ref) =
    (c.streams t.streamId).map fun ctx => (ctx.view clock).forget t.ref

/-- The actions that `_run_action` runs, which stamps the clock. -/
def ActionStatement.Stamps (stmt : ActionStatement) : Prop :=
  stmt.action ≠ .childWorkflowExecute ∧ stmt.action ≠ .aiAgent ∧ stmt.action ≠ .aiPresetAgent

/-- Every stretch of every execution of the action below the root changes its own result only. -/
def Isolates (clock : Option DSLEnvironment → Option DSLEnvironment) (stmt : ActionStatement) :
    Prop :=
  ∀ (A : Activities) (t : Task) (c : Contexts), t.streamId ≠ .root →
    c.ChangesOnly clock t (executeTask A stmt t c).1 ∧
      ∀ pc, c.ChangesOnly clock t (resumeTask A stmt t pc c).1

section
variable {clock : Option DSLEnvironment → Option DSLEnvironment} {t : Task} {c c' : Contexts}

namespace Contexts

theorem ChangesOnly.refl (c : Contexts) : c.ChangesOnly clock t c := ⟨rfl,fun _ _ => rfl,rfl⟩

theorem ChangesOnly.trans {a b c : Contexts} (h : a.ChangesOnly clock t b)
    (h' : b.ChangesOnly clock t c) : a.ChangesOnly clock t c :=
  ⟨h'.hierarchy.trans h.hierarchy,fun s hs => (h'.others s hs).trans (h.others s hs),
    h'.own.trans h.own⟩

theorem changesOnly_setAction (c : Contexts) (t : Task) (result : TaskResult) :
    c.ChangesOnly clock t (c.setAction t.streamId t.ref result) := by
  refine ⟨rfl,fun s hs => ?_,?_⟩
  · simp only [setAction, Function.update_of_ne hs]
  · simp only [setAction, Function.update_self, Option.map_map]
    refine congrArg (fun f => Option.map f (c.streams t.streamId)) (funext fun ctx => ?_)
    simp only [Function.comp_apply, ExecutionContext.view, ExecutionContext.forget,
      Function.update_idem]

theorem view_setLogicalTime (c : Contexts) (time : ℤ) (s : StreamID) :
    ((c.setLogicalTime time).streams s).map (ExecutionContext.view unclock) =
      (c.streams s).map (ExecutionContext.view unclock) := by
  simp only [setLogicalTime, Function.update_apply]
  split
  · rename_i hs
    rw [hs, Option.map_map]
    refine congrArg (fun f => Option.map f (c.streams .root)) (funext fun ctx => ?_)
    simp only [Function.comp_apply, ExecutionContext.view, unclock, Option.map_map]
    rfl
  · rfl

theorem changesOnly_setLogicalTime (c : Contexts) (t : Task) (time : ℤ) :
    c.ChangesOnly unclock t (c.setLogicalTime time) := by
  refine ⟨rfl,fun s _ => c.view_setLogicalTime time s,?_⟩
  have hview := congrArg (Option.map (ExecutionContext.forget t.ref))
    (c.view_setLogicalTime time t.streamId)
  rwa [Option.map_map, Option.map_map] at hview

end Contexts

variable {A : Activities} {stmt : ActionStatement}

theorem changesOnly_finishAction (t : Task) (result : TaskResult) (ending : ExecEnd)
    (c : Contexts) : c.ChangesOnly clock t (finishAction t result ending c).1 := by
  rw [finishAction]
  split
  · exact .refl c
  · exact c.changesOnly_setAction t result

theorem changesOnly_raise {first : Contexts × ExecEnd} (h : c.ChangesOnly clock t first.1) :
    c.ChangesOnly clock t (match first with
      | (c, .raised exc) => raiseAction t exc c
      | (c, ending) => (c, ending)).1 := by
  obtain ⟨c1,ending⟩ := first
  cases ending with
  | raised exc => exact h.trans (changesOnly_finishAction t _ _ c1)
  | await pc => exact h
  | returned => exact h

variable (hstamp : ∀ (c : Contexts) (time : ℤ), stmt.Stamps →
  c.ChangesOnly clock t (c.setLogicalTime time))
include hstamp

theorem changesOnly_beginAction (attempt : ℕ) (c : Contexts) :
    c.ChangesOnly clock t (beginAction A stmt t attempt c).1 := by
  rw [beginAction]
  split
  · split <;> exact .refl c
  · exact .refl c
  · exact .refl c
  · rename_i h1 h2 h3
    exact hstamp c _ ⟨h1,h2,h3⟩

theorem changesOnly_beginTask (attempt : ℕ) (c : Contexts) :
    c.ChangesOnly clock t (beginTask A stmt t attempt c).1 := by
  rw [beginTask]
  split
  · exact .refl c
  · exact changesOnly_beginAction hstamp attempt c

theorem changesOnly_executeTask (c : Contexts) :
    c.ChangesOnly clock t (executeTask A stmt t c).1 := by
  unfold executeTask
  exact changesOnly_raise (changesOnly_beginTask hstamp 0 c)

theorem changesOnly_resumeTask (hretry : stmt.retryUntil = none) (pc : ExecPc) (c : Contexts) :
    c.ChangesOnly clock t (resumeTask A stmt t pc c).1 := by
  unfold resumeTask
  split
  · exact changesOnly_finishAction _ _ _ _
  · exact changesOnly_raise (changesOnly_beginAction hstamp _ c)
  · exact changesOnly_finishAction _ _ _ _
  · split
    · split
      · exact changesOnly_finishAction _ _ _ _
      · exact .refl c
    · exact .refl c
  · exact changesOnly_finishAction _ _ _ _
  · dsimp only
    rw [hretry]
    exact changesOnly_finishAction _ _ _ _
  · exact .refl c
  · exact .refl c
  · exact changesOnly_raise (changesOnly_beginTask hstamp _ c)

end

def twoStreams : Contexts :=
  (Contexts.init { ExecutionContext.empty with env := some ⟨.none,none⟩ }).openStream
    (.child .root "x" (.item 0)) .root .empty

section
variable {clock : Option DSLEnvironment → Option DSLEnvironment} {stmt : ActionStatement}

theorem retryUntil_of_isolates (h : Isolates clock stmt) : stmt.retryUntil = none := by
  by_contra hne
  obtain ⟨retryUntil,hr⟩ := Option.ne_none_iff_exists'.mp hne
  -- the result goes into the root context, which had none
  have hothers := ((h ({} : Oracle).activities ⟨"a",.child .root "x" (.item 0)⟩ twoStreams
    (by simp)).2 (.action 0 (.ok ⟨false,.none⟩))).others .root (by simp)
  have hactions := congrArg (Option.map fun ctx => (ctx.actions "a").isSome) hothers
  simp [resumeTask, hr, finishAction, beginRetryUntil, twoStreams, Contexts.init,
    Contexts.openStream, Contexts.setAction, ExecutionContext.view, ExecutionContext.empty]
    at hactions

theorem not_stamps_of_isolates (h : Isolates id stmt) : ¬ stmt.Stamps := by
  intro hs
  have hothers := ((h ({} : Oracle).activities ⟨"a",.child .root "x" (.item 0)⟩ twoStreams
    (by simp)).2 (.timers 0 (.ok ()))).others .root (by simp)
  have hbegin : ∀ c, beginAction ({} : Oracle).activities stmt
      ⟨"a",.child .root "x" (.item 0)⟩ 0 c = (c.setLogicalTime 0,.await (.action 0 (.ok ⟨false,.none⟩))) := by
    intro c
    unfold beginAction
    split
    · exact absurd ‹_› hs.1
    · exact absurd ‹_› hs.2.1
    · exact absurd ‹_› hs.2.2
    · rfl
  rw [resumeTask, hbegin] at hothers
  have htime := congrArg (Option.map fun ctx => ctx.env.map DSLEnvironment.logicalTime) hothers
  simp [Contexts.setLogicalTime, twoStreams, Contexts.init, Contexts.openStream,
    ExecutionContext.view] at htime

/-- Apart from the clock, an action changes its own result only unless it has a `retry_until`. -/
theorem isolates_unclock_iff : Isolates unclock stmt ↔ stmt.retryUntil = none := by
  constructor
  · exact retryUntil_of_isolates
  · intro hretry A t c _
    have hstamp : ∀ (c : Contexts) (time : ℤ), stmt.Stamps →
        c.ChangesOnly unclock t (c.setLogicalTime time) :=
      fun c time _ => c.changesOnly_setLogicalTime t time
    exact ⟨changesOnly_executeTask hstamp c,fun pc => changesOnly_resumeTask hstamp hretry pc c⟩

/-- With the clock, that leaves the actions `_run_action` does not run. -/
theorem isolates_id_iff : Isolates id stmt ↔ stmt.retryUntil = none ∧ ¬ stmt.Stamps := by
  constructor
  · exact fun h => ⟨retryUntil_of_isolates h,not_stamps_of_isolates h⟩
  · rintro ⟨hretry,hno⟩ A t c -
    have hstamp : ∀ (c : Contexts) (time : ℤ), stmt.Stamps →
        c.ChangesOnly id t (c.setLogicalTime time) := fun _ _ hs => absurd hs hno
    exact ⟨changesOnly_executeTask hstamp c,fun pc => changesOnly_resumeTask hstamp hretry pc c⟩

end

/-! Runs in which streams do different things. -/

/-- A choice of the event loop, with the instance that it takes. -/
inductive Move
  | dequeue (t : Task)
  | resume (t : Task)
deriving DecidableEq

def Move.task : Move → Task
  | .dequeue t | .resume t => t

/-- The move is off the streams below `u`. -/
def Move.off (u : StreamID) (m : Move) : Bool := decide (u ∉ m.task.streamId.path)

def move (A : Activities) (dsl : DSLInput) (st : State) : Move → Option State
  | .dequeue t => if st.flow.queue.head?.map Prod.fst = some t then step A dsl st .dequeue else none
  | .resume t => step A dsl st (.resume t)

/-- What an instance in a stream below `u` may be: an action without `retry_until` that does not
stamp the clock, a scatter, or a gather of a stream further below. -/
structure ConfinedTo (dsl : DSLInput) (u : StreamID) (t : Task) : Prop where
  action : ¬ dsl.IsScatter t.ref → ¬ dsl.IsGather t.ref →
    (dsl.task t.ref).retryUntil = none ∧ ¬ (dsl.task t.ref).Stamps
  gather : dsl.IsGather t.ref → t.streamId ≠ u

section
variable {A A' : Activities} {dsl : DSLInput} {st st' st1 : State} {u : StreamID} {t : Task} {pc : Pc}
  {ending : BlockEnd} {context : ExecutionContext} {ok : State → Choice → Prop}

theorem Executes.changesOnly {c c' : Contexts} (h : Executes A dsl t c c')
    (hretry : (dsl.task t.ref).retryUntil = none) (hno : ¬ (dsl.task t.ref).Stamps) :
    c.ChangesOnly id t c' := by
  have hstamp : ∀ (c : Contexts) (time : ℤ), (dsl.task t.ref).Stamps →
      c.ChangesOnly id t (c.setLogicalTime time) := fun _ _ hs => absurd hs hno
  cases h with
  | first => exact changesOnly_executeTask hstamp c
  | next pc => exact changesOnly_resumeTask hstamp hretry pc c

theorem Contexts.ChangesOnly.agreeOff {c c' : Contexts} (h : c.ChangesOnly id t c')
    (ht : u ∈ t.streamId.path) : c.AgreeOff u c' := by
  refine ⟨fun s hs => ?_,fun s _ => by rw [h.hierarchy]⟩
  have hother := h.others s (by rintro rfl; exact hs ht)
  have hid : (ExecutionContext.view id : ExecutionContext → ExecutionContext) = id := rfl
  rwa [hid, Option.map_id_fun, id, id] at hother

theorem Contexts.Sets.agreeOff {c c' : Contexts} {p : StreamID} {ref : String} (h : c.Sets p ref c')
    (hp : u ∈ p.path) : c.AgreeOff u c' :=
  h.respects (.refl u) fun c1 result h1 => h1.trans (c1.agreeOff_setAction hp ref result)

theorem step_changesOnly (hwf : dsl.WellFormed) (h : Core dsl st) (hns : ¬ dsl.IsScatter t.ref)
    (hng : ¬ dsl.IsGather t.ref) (hretry : (dsl.task t.ref).retryUntil = none)
    (hno : ¬ (dsl.task t.ref).Stamps) (hs : step A dsl st (.resume t) = some st') :
    st.contexts.ChangesOnly id t st'.contexts := by
  obtain ⟨pc,st1,ending,hres⟩ := resume_cases hwf h hs
  rw [hres.next, finish_contexts]
  cases hres.cases with
  | executes _ _ hc => exact hc.changesOnly hretry hno
  | succeeds _ _ hc => exact hc.changesOnly hretry hno
  | fails exc _ _ hc => exact hc.changesOnly hretry hno
  | skipsScatter _ hscatter => exact absurd hscatter hns
  | empties hscatter => exact absurd hscatter hns
  | opensFirst hscatter => exact absurd hscatter hns
  | opensNext hscatter => exact absurd hscatter hns
  | skipPublishes hgather => exact absurd hgather hng
  | closes _ hgather => exact absurd hgather hng
  | finalizes hgather => exact absurd hgather hng
  | _ => exact .refl _

/-! A hidden step is not seen. -/

theorem hides_queueTasks (st : State) (caller : Task) {v : Task} (hv : u ∈ v.streamId.path) (delay : ℚ)
    (unreachable : List DSLEdge) : st.AgreeOff u (st.queueTasks dsl caller v delay unreachable) :=
  { State.AgreeOff.refl u st with flow := st.flow.agreeOff_queueTasks caller hv delay unreachable }

theorem hides_handleErrorPath (st : State) (hu : u ≠ .root) (ht : u ∈ t.streamId.path) (exc : Exc) :
    st.AgreeOff u (handleErrorPath dsl st t exc) := by
  by_cases herr : dsl.hasErrorEdge t.ref
  · rw [handleErrorPath_error st exc herr]
    exact hides_queueTasks st t ht _ _
  · have hroot : t.streamId ≠ .root := by
      intro he
      rw [he] at ht
      exact root_not_below hu ht
    rw [handleErrorPath_stream st exc herr hroot]
    refine .trans ?_ (hides_queueTasks _ t ht _ _)
    exact { State.AgreeOff.refl u st with streamExceptions := eqOn_update_notMem (not_not.mpr ht) _ }

theorem hides_finish (st : State) (hu : u ≠ .root) (ht : u ∈ t.streamId.path) (ending : BlockEnd) :
    st.AgreeOff u (st.finish dsl t ending) := by
  have hsettle : ∀ (st1 : State) (new : Status), st1.AgreeOff u { st1 with flow := st1.flow.settle t new } :=
    fun st1 new => { State.AgreeOff.refl u st1 with flow := st1.flow.agreeOff_settle ht new }
  cases ending with
  | await pc => exact hsettle st (.pending pc)
  | done outcome => exact hsettle st (.ended outcome)
  | raised exc => exact (hides_handleErrorPath st hu ht exc).trans (hsettle _ (.ended (.failed exc)))

/-- What a confined instance below `u` does is not seen off the streams below `u`. -/
theorem BlockCase.hidden (h : BlockCase A dsl st t pc st1 ending) (ht : u ∈ t.streamId.path)
    (hc : ConfinedTo dsl u t) : st.AgreeOff u st1 := by
  have hrefl := State.AgreeOff.refl u st
  have hexec : ∀ {c}, ¬ dsl.IsScatter t.ref → ¬ dsl.IsGather t.ref → Executes A dsl t st.contexts c →
      st.AgreeOff u { st with contexts := c } := by
    intro c hs hg hexec
    obtain ⟨hretry,hno⟩ := hc.action hs hg
    exact { hrefl with contexts := (hexec.changesOnly hretry hno).agreeOff ht }
  have hchild : ∀ i, u ∈ (StreamID.child t.streamId t.ref i).path := fun i => List.mem_cons_of_mem _ ht
  have hout : t ∉ u.offTasks := not_not.mpr ht
  -- a gather comes back to a stream that is still below `u`
  have hparent : ∀ {p x i}, dsl.IsGather t.ref → t.streamId = .child p x i → u ∈ p.path := by
    intro p x i hg hs
    rw [hs] at ht
    rcases List.mem_cons.mp ht with he | hp
    · exact absurd (hs.trans he.symm) (hc.gather hg)
    · exact hp
  cases h with
  | executes hs hg hexe => exact hexec hs hg hexe
  | succeeds hs hg hexe => exact (hexec hs hg hexe).trans (hides_queueTasks _ t ht _ _)
  | fails exc hs hg hexe => exact hexec hs hg hexe
  | skips => exact hides_queueTasks st t ht _ _
  | skipsScatter hearly hs =>
    refine .trans ?_ (hides_queueTasks _ t (hchild .skip) _ _)
    exact { hrefl with contexts := st.contexts.agreeOff_openStream (hchild _) _ _ }
  | empties hs =>
    refine .trans ?_ (hides_queueTasks _ t (hchild .skip) _ _)
    exact { hrefl with
      contexts := st.contexts.agreeOff_openStream (hchild _) _ _
      taskStreams := eqOn_update_notMem hout _
      openStreams := eqOn_update_notMem hout _ }
  | opensFirst hs args hlen =>
    refine .trans ?_ (hides_queueTasks _ t (hchild (.item 0)) _ _)
    exact { hrefl with
      contexts := st.contexts.agreeOff_openStream (hchild _) _ _
      taskStreams := (eqOn_update_notMem hout _).trans (eqOn_update_notMem hout _) }
  | opensNext hs args hlen =>
    refine .trans ?_ (hides_queueTasks _ t (hchild (.item _)) _ _)
    exact { hrefl with
      contexts := st.contexts.agreeOff_openStream (hchild _) _ _
      taskStreams := eqOn_update_notMem hout _ }
  | scatters hs hlen => exact { hrefl with openStreams := eqOn_update_notMem hout _ }
  | skipPublishes hg hs result =>
    have hp := hparent hg hs
    refine .trans ?_ (hides_queueTasks _ t hp _ _)
    exact { hrefl with contexts := st.contexts.agreeOff_setAction hp _ _ }
  | closes harr hg hs o hn hsets hend hstores =>
    have hp := hparent hg hs
    exact { hrefl with
      contexts := hsets.agreeOff hp
      openStreams := eqOn_update_notMem (not_not.mpr hp) _ }
  | finalizeRaises => exact { hrefl with }
  | finalizes hg hs result =>
    exact { hrefl with contexts := st.contexts.agreeOff_setAction (hparent hg hs) _ _ }
  | publishes hg hs => exact hides_queueTasks st t (hparent hg hs) _ _
  | _ => exact hrefl

/-! Steps of two runs. -/

theorem Dequeues.hidden {delay : ℚ} {queue : List (Task × ℚ)} (h : Dequeues st st' t delay queue)
    (ht : u ∈ t.streamId.path) : st.AgreeOff u st' := by
  rw [h.next]
  refine { State.AgreeOff.refl u st with flow := ?_ }
  refine ⟨?_,fun v hv => AList.lookup_insert_ne ?_,Set.eqOn_refl _ _,fun _ _ => rfl,Set.eqOn_refl _ _⟩
  · have hq : u.queues (t,delay) = false := decide_eq_false (not_not.mpr ht)
    rw [h.head, List.filter_cons_of_neg (Bool.eq_false_iff.mp hq)]
  · rintro rfl
    exact hv ht

theorem Dequeues.agree {s s' : State} {d d' : ℚ} {q q' : List (Task × ℚ)} (hd : Dequeues st s t d q)
    (hd' : Dequeues st' s' t d' q') (h : st.AgreeOff u st') (ht : t ∈ u.offTasks) :
    s.AgreeOff u s' := by
  have hkeep : ∀ d : ℚ, u.queues (t,d) = true := fun d => decide_eq_true ht
  have hqueue := h.flow.queue
  rw [hd.head, hd'.head, List.filter_cons_of_pos (hkeep d), List.filter_cons_of_pos (hkeep d')] at hqueue
  obtain ⟨he,hrest⟩ := List.cons.inj hqueue
  obtain ⟨-,rfl⟩ := Prod.mk.inj he
  rw [hd.next, hd'.next]
  refine { h with flow := { h.flow with queue := hrest, pending := fun v hv => ?_ } }
  by_cases hvt : v = t
  · subst hvt
    simp only [AList.lookup_insert]
  · simp only [AList.lookup_insert_ne hvt, h.flow.pending v hv]

theorem move_cases (h : Core dsl st) {m : Move} (hm : move A dsl st m = some st') :
    (∃ t delay queue, m = .dequeue t ∧ Dequeues st st' t delay queue) ∨
      ∃ t, m = .resume t ∧ step A dsl st (.resume t) = some st' := by
  cases m with
  | resume t => exact .inr ⟨t,rfl,hm⟩
  | dequeue t =>
    simp only [move] at hm
    split at hm
    · rename_i hhead
      obtain ⟨v,delay,queue,hdeq⟩ := dequeue_cases h hm
      rw [hdeq.head] at hhead
      obtain rfl : v = t := by simpa using hhead
      exact .inl ⟨v,delay,queue,rfl,hdeq⟩
    · cases hm

theorem Core.move (hwf : dsl.WellFormed) (h : Core dsl st) {m : Move}
    (hm : move A dsl st m = some st') : Core dsl st' := by
  cases m with
  | resume t =>
    have hs : step A dsl st (.resume t) = some st' := hm
    exact core_step hwf h hs
  | dequeue t =>
    simp only [Allama.move] at hm
    split at hm
    · exact core_step hwf h hm
    · cases hm

theorem Core.hidden (hwf : dsl.WellFormed) (h : Core dsl st) {m : Move} (hoff : m.off u = false)
    (hu : u ≠ .root) (hc : ConfinedTo dsl u m.task) (hm : Allama.move A dsl st m = some st') :
    st.AgreeOff u st' := by
  have hbelow : u ∈ m.task.streamId.path := not_not.mp (of_decide_eq_false hoff)
  rcases move_cases h hm with ⟨t,delay,queue,rfl,hdeq⟩ | ⟨t,rfl,hs⟩
  · exact hdeq.hidden hbelow
  · obtain ⟨pc,st1,ending,hres⟩ := resume_cases hwf h hs
    rw [hres.next]
    exact (hres.cases.hidden hbelow hc).trans (hides_finish st1 hu hbelow ending)

/-- Runs whose moves off the streams below `u` are the same keep agreeing off them. -/
theorem unwinds_agreeOff (hwf : dsl.WellFormed) (hu : u ≠ .root) (hA : A.SameOff u A') :
    Unwinding.Unwinds (Allama.move A dsl) (Allama.move A' dsl) (fun m => ConfinedTo dsl u m.task) (Move.off u)
      fun st st' => Core dsl st ∧ Core dsl st' ∧ st.AgreeOff u st' where
  left := by
    rintro s s' t m ⟨h,h',hagree⟩ hoff hc hm
    exact ⟨h.move hwf hm,h',(h.hidden hwf hoff hu hc hm).symm.trans hagree⟩
  right := by
    rintro s t t' m ⟨h,h',hagree⟩ hoff hc hm
    exact ⟨h,h'.move hwf hm,hagree.trans (h'.hidden hwf hoff hu hc hm)⟩
  both := by
    rintro s s' t t' m ⟨h,h',hagree⟩ hoff hm hm'
    have hv : u ∉ m.task.streamId.path := of_decide_eq_true hoff
    refine ⟨h.move hwf hm,h'.move hwf hm',?_⟩
    rcases move_cases h hm with ⟨v,delay,queue,rfl,hdeq⟩ | ⟨v,rfl,hs⟩
    · rcases move_cases h' hm' with ⟨w,delay',queue',he,hdeq'⟩ | ⟨w,he,-⟩
      · cases he
        exact hdeq.agree hdeq' hagree hv
      · cases he
    · obtain ⟨pc,hpc,rfl⟩ := Option.map_eq_some_iff.mp hs
      obtain ⟨pc',hpc',rfl⟩ := Option.map_eq_some_iff.mp hm'
      rw [hagree.flow.pending v hv, hpc] at hpc'
      cases hpc'
      have hblock : BlockAgrees u (block A dsl s v (dsl.task v.ref) pc)
          (block A' dsl t v (dsl.task v.ref) pc) :=
        agrees_block hA hu hv h.registered hagree pc
      unfold resume
      dsimp only
      rw [hblock.ending]
      exact hblock.state.finish v _

/-- The stream `s` has the same context and the same instances, and any expression of an action in
it is evaluated in the same operand. -/
structure SameIn (s : StreamID) (st st' : State) : Prop where
  context : st'.contexts.streams s = st.contexts.streams s
  operand : ∀ (kind : ActionKind) (stmt : ActionStatement),
    kind.operand st'.contexts stmt s = kind.operand st.contexts stmt s
  status : ∀ ref, st'.flow.status ⟨ref,s⟩ = st.flow.status ⟨ref,s⟩

theorem State.AgreeOff.sameIn (h : st.AgreeOff u st') (hu : u ≠ .root) (hcore : Core dsl st)
    {s : StreamID} (hs : s ∈ u.off) : SameIn s st st' :=
  ⟨h.contexts.streams hs,fun kind stmt => h.contexts.operand hu hcore.registered.parent kind stmt hs,
    fun ref => h.flow.status (t := ⟨ref,s⟩) hs⟩

end

/-- An action changes its own result in its stream only if and only if it has no `retry_until` and
does not stamp the clock, and so it is in every step of a run. Two runs that differ in what such
actions do in one stream of a scatter, and in when they run there, are the same in another. -/
theorem execution_isolated {dsl : DSLInput} (hacc : dsl.Accepted) :
    (∀ stmt : ActionStatement,
      (Isolates id stmt ↔ stmt.retryUntil = none ∧ ¬ stmt.Stamps) ∧
      (Isolates unclock stmt ↔ stmt.retryUntil = none)) ∧
    (∀ (A : Activities) (context : ExecutionContext) (ok : State → Choice → Prop) (st st' : State)
      (t : Task), Run A dsl context ok st → step A dsl st (.resume t) = some st' →
      ¬ dsl.IsScatter t.ref → ¬ dsl.IsGather t.ref → (dsl.task t.ref).retryUntil = none →
      ¬ (dsl.task t.ref).Stamps → st.contexts.ChangesOnly id t st'.contexts) ∧
    ∀ (A A' : Activities) (context context' : ExecutionContext) (ok ok' : State → Choice → Prop)
      (p : StreamID) (x : String) (i j : ℕ) (st st' : State) (as bs : List Move) (st1 st1' : State),
      i ≠ j → A.SameOff (.child p x (.item j)) A' → Run A dsl context ok st →
      Run A' dsl context' ok' st' → st.AgreeOff (.child p x (.item j)) st' →
      (∀ a ∈ as, a.off (.child p x (.item j)) = false → ConfinedTo dsl (.child p x (.item j)) a.task) →
      (∀ b ∈ bs, b.off (.child p x (.item j)) = false → ConfinedTo dsl (.child p x (.item j)) b.task) →
      as.filter (Move.off (.child p x (.item j))) = bs.filter (Move.off (.child p x (.item j))) →
      Runs.follow (move A dsl) st as = some st1 → Runs.follow (move A' dsl) st' bs = some st1' →
      SameIn (.child p x (.item i)) st1 st1' := by
  have hwf := wellFormed_of_accepted hacc
  refine ⟨fun stmt => ⟨isolates_id_iff,isolates_unclock_iff⟩,?_,?_⟩
  · intro A context ok st st' t hrun hs hns hng hretry hno
    exact step_changesOnly hwf (Run.core hwf hrun) hns hng hretry hno hs
  · intro A A' context context' ok ok' p x i j st st' as bs st1 st1' hij hA hrun hrun' hagree hc hc' hvis
      hfollow hfollow'
    have hu : StreamID.child p x (.item j) ≠ .root := by simp
    have hoff : StreamID.child p x (.item i) ∈ (StreamID.child p x (.item j)).off :=
      sibling_not_mem_path p x fun he => hij (StreamIndex.item.inj he)
    obtain ⟨hcore,-,hend⟩ := (unwinds_agreeOff hwf hu hA).runs
      ⟨Run.core hwf hrun,Run.core hwf hrun',hagree⟩ hc hc' hvis hfollow hfollow'
    exact hend.sameIn hu hcore hoff

/-- An action in the scope of the scatter `x`. -/
def bodyStatement (action : PlatformAction) (retryUntil : Option String) : ActionStatement where
  ref := "a"
  action := action
  dependsOn := ["x"]
  retryUntil := retryUntil

def bodyDSL (action : PlatformAction) (retryUntil : Option String) : DSLInput where
  actions := [
    { ref := "x", action := .transformScatter,
      args := { scatter := some { collection := .none } } },
    bodyStatement action retryUntil]

/-- The two streams of the scatter `x`. -/
def firstStream : StreamID := .child .root "x" (.item 0)

def secondStream : StreamID := .child .root "x" (.item 1)

/-- The action gives `1` in the first stream and `second` in the second. -/
def bodyOracle (second : ℤ) : Oracle where
  collection := fun _ => .ok [.int 0,.int 1]
  action := fun t => .ok ⟨false,.int (if t.streamId = secondStream then second else 1)⟩

/-- The action runs in the first stream. -/
def firstMoves : List Move :=
  let x : Task := ⟨"x",.root⟩
  let a : Task := ⟨"a",firstStream⟩
  [.dequeue x,.resume x,.resume x,.resume x,.resume x,.dequeue a,.resume a,.resume a]

/-- It runs in the second stream as well. -/
def bothMoves : List Move :=
  let x : Task := ⟨"x",.root⟩
  let a : Task := ⟨"a",firstStream⟩
  let a' : Task := ⟨"a",secondStream⟩
  [.dequeue x,.resume x,.resume x,.resume x,.resume x,.dequeue a,.dequeue a',.resume a,.resume a',
    .resume a,.resume a']

theorem bodyOracle_same :
    (bodyOracle 2).activities.SameOff secondStream (bodyOracle 3).activities := by
  have haction : ∀ t ∈ secondStream.offTasks, (bodyOracle 3).action t = (bodyOracle 2).action t := by
    intro t ht
    have hne : t.streamId ≠ secondStream := fun he => ht (he ▸ StreamID.self_mem_path _)
    simp only [bodyOracle, if_neg hne]
  refine ⟨fun _ _ => rfl,fun _ _ => rfl,fun _ _ => rfl,fun _ _ => rfl,fun _ _ => rfl,fun _ _ => rfl,
    fun _ _ => rfl,fun t ht => ?_,fun t ht => ?_,fun _ _ => rfl,fun _ _ => rfl,rfl,rfl⟩
  · funext _ _ _
    exact haction t ht
  · funext _ _
    exact haction t ht

/-- The number under `a`. -/
def ExecutionContext.number (ctx : ExecutionContext) : Option ℤ :=
  (ctx.actions "a").bind fun r =>
    match r.result with
    | .object ⟨_,.int n⟩ => some n
    | _ => none

/-- The results of the action in the two streams. -/
def resultsOf (st : State) : Option ℤ × Option ℤ :=
  ((st.contexts.streams firstStream).bind ExecutionContext.number,
    (st.contexts.streams secondStream).bind ExecutionContext.number)

theorem execution_isolated_streams : ∃ st st',
    Runs.follow (move (bodyOracle 2).activities (bodyDSL .aiAgent none))
      (State.init (bodyDSL .aiAgent none) .empty) bothMoves = some st ∧
    Runs.follow (move (bodyOracle 3).activities (bodyDSL .aiAgent none))
      (State.init (bodyDSL .aiAgent none) .empty) firstMoves = some st' ∧
    resultsOf st = (some 1,some 2) ∧ resultsOf st' = (some 1,none) ∧ SameIn firstStream st st' := by
  have hboth : (Runs.follow (move (bodyOracle 2).activities (bodyDSL .aiAgent none))
      (State.init (bodyDSL .aiAgent none) .empty) bothMoves).map resultsOf =
        some (some 1,some 2) := by decide +kernel
  have hfirst : (Runs.follow (move (bodyOracle 3).activities (bodyDSL .aiAgent none))
      (State.init (bodyDSL .aiAgent none) .empty) firstMoves).map resultsOf =
        some (some 1,none) := by decide +kernel
  obtain ⟨st,hst,hresults⟩ := Option.map_eq_some_iff.mp hboth
  obtain ⟨st',hst',hresults'⟩ := Option.map_eq_some_iff.mp hfirst
  have hacc : (bodyDSL .aiAgent none).Accepted := by decide
  -- the agent does not stamp the clock
  have hconfined : ∀ m ∈ bothMoves, m.off secondStream = false →
      ConfinedTo (bodyDSL .aiAgent none) secondStream m.task := by
    intro m hm hoff
    have hbody : m.task = ⟨"a",secondStream⟩ := by
      revert m
      decide
    rw [hbody]
    exact ⟨fun _ _ => ⟨rfl,fun hs => hs.2.1 rfl⟩,fun hg => absurd hg (by decide)⟩
  refine ⟨st,st',hst,hst',hresults,hresults',?_⟩
  refine (execution_isolated hacc).2.2 _ _ .empty .empty (fun _ _ => True) (fun _ _ => True)
    .root "x" 0 1 _ _ bothMoves firstMoves st st' (by decide) bodyOracle_same .refl .refl (.refl _ _)
    hconfined ?_ (by decide) hst hst'
  intro m hm hoff
  have hseen : ∀ m ∈ firstMoves, m.off secondStream = true := by decide
  exact Bool.noConfusion ((hseen m hm).symm.trans hoff)

/-- The number a `retry_until` in the first stream finds under `a`. -/
def retryReads (st : State) : Option ℤ :=
  (ActionKind.retryUntil.operand st.contexts (bodyStatement (.udf "a") (some "done"))
    firstStream).bind ExecutionContext.number

/-- An action with `retry_until` writes its result into the root context, where the conditions of
the other streams find it. -/
theorem retry_until_leaks :
    (¬ ∀ stmt : ActionStatement, stmt.action ≠ .transformGather → Isolates unclock stmt) ∧
    bothMoves.filter (Move.off secondStream) = firstMoves.filter (Move.off secondStream) ∧
    ∃ st st',
      Runs.follow (move (bodyOracle 2).activities (bodyDSL (.udf "a") (some "done")))
        (State.init (bodyDSL (.udf "a") (some "done")) .empty) bothMoves = some st ∧
      Runs.follow (move (bodyOracle 2).activities (bodyDSL (.udf "a") (some "done")))
        (State.init (bodyDSL (.udf "a") (some "done")) .empty) firstMoves = some st' ∧
      retryReads st = some 2 ∧ retryReads st' = some 1 ∧ ¬ SameIn firstStream st st' := by
  have hboth : (Runs.follow (move (bodyOracle 2).activities (bodyDSL (.udf "a") (some "done")))
      (State.init (bodyDSL (.udf "a") (some "done")) .empty) bothMoves).map retryReads = some (some 2) := by
    decide +kernel
  have hfirst : (Runs.follow (move (bodyOracle 2).activities (bodyDSL (.udf "a") (some "done")))
      (State.init (bodyDSL (.udf "a") (some "done")) .empty) firstMoves).map retryReads = some (some 1) := by
    decide +kernel
  obtain ⟨st,hst,hreads⟩ := Option.map_eq_some_iff.mp hboth
  obtain ⟨st',hst',hreads'⟩ := Option.map_eq_some_iff.mp hfirst
  refine ⟨fun hclaim => ?_,by decide,st,st',hst,hst',hreads,hreads',fun hsame => ?_⟩
  · have hretry := isolates_unclock_iff.mp (hclaim (bodyStatement (.udf "a") (some "done")) (by decide))
    cases hretry
  · rw [retryReads, hsame.operand, ← retryReads, hreads] at hreads'
    cases hreads'

end Allama

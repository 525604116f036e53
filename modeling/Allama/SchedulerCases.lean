import Allama.SchedulerStep
import Allama.FlowSpec

/-! What a stretch of `_schedule_task` between two awaits can do, case by case. -/
namespace Allama
open Function
variable {st st' : State}

def StreamID.parent : StreamID → Option StreamID
  | .root => none
  | .child p _ _ => some p

/-- The `TRIGGER` of a context, and the fixed part of its `ENV`. -/
def ExecutionContext.inputs (ctx : ExecutionContext) : Option StoredObject × Option Value :=
  (ctx.trigger,ctx.env.map DSLEnvironment.metadata)

/-- The same streams with the same parents and inputs; the results they hold may differ. -/
structure Contexts.SameStreams (c c' : Contexts) : Prop where
  hierarchy : c'.streamHierarchy = c.streamHierarchy
  inputs : ∀ s, (c'.streams s).map ExecutionContext.inputs =
    (c.streams s).map ExecutionContext.inputs

/-- `stream_hierarchy` is the structure of the ids, closed under parents, and every stream has
its context. -/
structure Contexts.Registered (c : Contexts) : Prop where
  parent : ∀ s v, c.streamHierarchy s = some v → v = s.parent
  context : ∀ s, (c.streams s).isSome = (c.streamHierarchy s).isSome
  up : ∀ p x i, (c.streamHierarchy (.child p x i)).isSome → (c.streamHierarchy p).isSome
  root : (c.streamHierarchy .root).isSome

namespace Contexts

theorem SameStreams.refl (c : Contexts) : SameStreams c c := ⟨rfl,fun _ => rfl⟩

theorem SameStreams.trans {a b c : Contexts} (h : SameStreams a b) (h' : SameStreams b c) :
    SameStreams a c :=
  ⟨h'.hierarchy.trans h.hierarchy,fun s => (h'.inputs s).trans (h.inputs s)⟩

theorem SameStreams.streams {c c' : Contexts} (h : SameStreams c c') (s : StreamID) :
    (c'.streams s).isSome = (c.streams s).isSome := by
  have hs := congrArg Option.isSome (h.inputs s)
  rwa [Option.isSome_map, Option.isSome_map] at hs

theorem sameStreams_setAction (c : Contexts) (s : StreamID) (ref : String) (result : TaskResult) :
    SameStreams c (c.setAction s ref result) := by
  refine ⟨rfl,fun u => ?_⟩
  rw [setAction]
  dsimp only
  rw [update_apply]
  split
  · rename_i hu
    rw [hu, Option.map_map]
    rfl
  · rfl

theorem sameStreams_setLogicalTime (c : Contexts) (time : ℤ) :
    SameStreams c (c.setLogicalTime time) := by
  refine ⟨rfl,fun u => ?_⟩
  rw [setLogicalTime]
  dsimp only
  rw [update_apply]
  split
  · rename_i hu
    rw [hu, Option.map_map]
    -- only `logical_time` changes, which is no input
    refine congrArg (fun f => Option.map f (c.streams .root)) (funext fun ctx => ?_)
    simp only [Function.comp_apply, ExecutionContext.inputs, Option.map_map]
    rfl
  · rfl

theorem Registered.same {c c' : Contexts} (h : c.Registered) (hc : SameStreams c c') :
    c'.Registered := by
  refine ⟨fun s v hv => h.parent s v (hc.hierarchy ▸ hv),fun s => ?_,fun p x i hs => ?_,?_⟩
  · rw [hc.streams, h.context, hc.hierarchy]
  · rw [hc.hierarchy] at hs ⊢
    exact h.up p x i hs
  · rw [hc.hierarchy]
    exact h.root

theorem registered_init (context : ExecutionContext) : (Contexts.init context).Registered := by
  have hroot : ∀ s v, (Contexts.init context).streamHierarchy s = some v → s = .root ∧ v = none := by
    intro s v hv
    rw [init] at hv
    dsimp only at hv
    rw [update_apply] at hv
    split at hv
    · exact ⟨‹_›,(Option.some.inj hv).symm⟩
    · cases hv
  refine ⟨fun s v hv => ?_,fun s => ?_,fun p x i hs => ?_,rfl⟩
  · obtain ⟨rfl,rfl⟩ := hroot s v hv
    rfl
  · simp only [init, update_apply]
    split <;> rfl
  · obtain ⟨v,hv⟩ := Option.isSome_iff_exists.mp hs
    exact absurd (hroot _ v hv).1 (by simp)

theorem Registered.openStream {c : Contexts} (h : c.Registered) {p : StreamID} {x : String}
    {i : StreamIndex} (hp : (c.streamHierarchy p).isSome) (context : ExecutionContext) :
    (c.openStream (.child p x i) p context).Registered := by
  have hsome : ∀ s, (c.streamHierarchy s).isSome →
      ((c.openStream (.child p x i) p context).streamHierarchy s).isSome := by
    intro s hs
    simp only [Contexts.openStream, update_apply]
    split
    · rfl
    · exact hs
  refine ⟨fun s v hv => ?_,fun s => ?_,fun q y j hs => ?_,hsome _ h.root⟩
  · simp only [Contexts.openStream, update_apply] at hv
    split at hv
    · rename_i hs
      rw [hs]
      exact (Option.some.inj hv).symm
    · exact h.parent s v hv
  · simp only [Contexts.openStream, update_apply]
    split
    · rfl
    · exact h.context s
  · simp only [Contexts.openStream, update_apply] at hs
    split at hs
    · rename_i he
      obtain ⟨rfl,-,-⟩ := StreamID.child.inj he
      exact hsome _ hp
    · exact hsome _ (h.up q y j hs)

end Contexts

section
variable {A : Activities} {dsl : DSLInput}

/-- A preorder on contexts that holds across every write of `execute_task`. -/
structure RespectsWrites (R : Contexts → Contexts → Prop) (ref : String) : Prop where
  refl : ∀ c, R c c
  trans : ∀ {a b c}, R a b → R b c → R a c
  setAction : ∀ (c : Contexts) s result, R c (c.setAction s ref result)
  setLogicalTime : ∀ (c : Contexts) time, R c (c.setLogicalTime time)

namespace RespectsWrites
variable {R : Contexts → Contexts → Prop} {t : Task}

theorem finishAction (h : RespectsWrites R t.ref) (result : TaskResult) (ending : ExecEnd)
    (c : Contexts) : R c (finishAction t result ending c).1 := by
  rw [Allama.finishAction]
  split
  · exact h.refl c
  · exact h.setAction c _ _

theorem beginAction (h : RespectsWrites R t.ref) (stmt : ActionStatement) (attempt : ℕ)
    (c : Contexts) : R c (beginAction A stmt t attempt c).1 := by
  rw [Allama.beginAction]
  split
  · split <;> exact h.refl c
  · exact h.refl c
  · exact h.refl c
  · exact h.setLogicalTime c _

theorem beginTask (h : RespectsWrites R t.ref) (stmt : ActionStatement) (attempt : ℕ)
    (c : Contexts) : R c (beginTask A stmt t attempt c).1 := by
  rw [Allama.beginTask]
  split
  · exact h.refl c
  · exact h.beginAction stmt attempt c

theorem raise (h : RespectsWrites R t.ref) {c : Contexts} {first : Contexts × ExecEnd}
    (hfirst : R c first.1) : R c (match first with
      | (c, .raised exc) => raiseAction t exc c
      | (c, ending) => (c, ending)).1 := by
  obtain ⟨c',ending⟩ := first
  cases ending with
  | raised exc => exact h.trans hfirst (h.finishAction _ _ c')
  | await pc => exact hfirst
  | returned => exact hfirst

theorem executeTask (h : RespectsWrites R t.ref) (stmt : ActionStatement) (c : Contexts) :
    R c (executeTask A stmt t c).1 := by
  unfold Allama.executeTask
  exact h.raise (h.beginTask stmt 0 c)

theorem resumeTask (h : RespectsWrites R t.ref) (stmt : ActionStatement) (pc : ExecPc)
    (c : Contexts) : R c (resumeTask A stmt t pc c).1 := by
  unfold Allama.resumeTask
  split
  · exact h.finishAction _ _ c
  · exact h.raise (h.beginAction stmt _ c)
  · exact h.finishAction _ _ c
  · split
    · split
      · exact h.finishAction _ _ c
      · exact h.refl c
    · exact h.refl c
  · exact h.finishAction _ _ c
  · dsimp only
    split
    · exact h.finishAction _ _ c
    · split
      · rename_i c' he
        have hf := congrArg Prod.fst he ▸ h.finishAction _ .returned c
        exact h.trans hf (h.setAction c' _ _)
      · rename_i c' ending _ he
        exact congrArg Prod.fst he ▸ h.finishAction _ .returned c
  · exact h.refl c
  · exact h.refl c
  · exact h.raise (h.beginTask stmt _ c)

end RespectsWrites

theorem sameStreams_writes (ref : String) : RespectsWrites Contexts.SameStreams ref :=
  ⟨.refl,.trans,fun c s result => c.sameStreams_setAction s ref result,
    fun c time => c.sameStreams_setLogicalTime time⟩

variable (A dsl) in
/-- The contexts that a stretch of the execution of `t` leaves. -/
inductive Executes (t : Task) (c : Contexts) : Contexts → Prop
  | first : Executes t c (executeTask A (dsl.task t.ref) t c).1
  | next (pc : ExecPc) : Executes t c (resumeTask A (dsl.task t.ref) t pc c).1

theorem Executes.respects {t : Task} {c c' : Contexts} (h : Executes A dsl t c c')
    {R : Contexts → Contexts → Prop} (hR : RespectsWrites R t.ref) : R c c' := by
  cases h with
  | first => exact hR.executeTask _ c
  | next pc => exact hR.resumeTask _ pc c

theorem Executes.same {t : Task} {c c' : Contexts} (h : Executes A dsl t c c') : c.SameStreams c' :=
  h.respects (sameStreams_writes t.ref)

def Pc.IsEarly : Pc → Prop
  | .created _ | .runIf _ _ | .sleeping => True
  | _ => False

def Pc.NotScattering : Pc → Prop
  | .scattering _ _ => False
  | _ => True

theorem Pc.IsEarly.notScattering {pc : Pc} (h : pc.IsEarly) : pc.NotScattering := by
  cases pc <;> trivial

def Pc.IsWait : Pc → Prop
  | .runIf _ _ | .sleeping | .scatterInput _ | .gatherSkipStream _ | .gatherItems _ => True
  | _ => False

def Pc.IsArriving : Pc → Prop
  | .created _ | .runIf _ _ | .sleeping | .gatherItems _ => True
  | _ => False

theorem Pc.IsEarly.isArriving {pc : Pc} (h : pc.IsEarly) : pc.IsArriving := by
  cases pc <;> trivial

/-- What the position of a coroutine says about its instance. -/
def PcFits (dsl : DSLInput) (st : State) (t : Task) : Pc → Prop
  | .created _ | .runIf _ _ | .sleeping => True
  | .scatterInput _ => dsl.IsScatter t.ref
  | .scattering collection opened => dsl.IsScatter t.ref ∧ 0 < opened ∧
      opened ≤ collection.length ∧ st.taskStreams t =
        (List.range opened).map fun i => .child t.streamId t.ref (.item i)
  | .gatherSkipStream _ => dsl.IsGather t.ref ∧ ∃ p x, t.streamId = .child p x .skip ∧
      (st.openStreams ⟨x,p⟩).isSome
  | .gatherItems _ => dsl.IsGather t.ref ∧ ∃ p x i, t.streamId = .child p x (.item i)
  | .gatherFinalize _ _ | .gatherNoop _ => dsl.IsGather t.ref ∧
      ∃ p x i, t.streamId = .child p x (.item i) ∧ ∃ n, n ≤ 0 ∧ st.openStreams ⟨x,p⟩ = some n
  | .executing _ => ¬ dsl.IsScatter t.ref ∧ ¬ dsl.IsGather t.ref

/-- At most the entry of `ref` in `p` was written. -/
inductive Contexts.Sets (p : StreamID) (ref : String) (c : Contexts) : Contexts → Prop
  | refl : Sets p ref c c
  | set {c' : Contexts} (h : Sets p ref c c') (result : TaskResult) :
      Sets p ref c (c'.setAction p ref result)

theorem Contexts.Sets.respects {p : StreamID} {ref : String} {c c' : Contexts} (h : c.Sets p ref c')
    {R : Contexts → Contexts → Prop} (hrefl : ∀ c, R c c)
    (hset : ∀ c1 (result : TaskResult), R c c1 → R c (c1.setAction p ref result)) : R c c' := by
  induction h with
  | refl => exact hrefl c
  | set _ result ih => exact hset _ result ih

theorem Contexts.Sets.trans {p : StreamID} {ref : String} {a b c : Contexts} (h : a.Sets p ref b)
    (h' : b.Sets p ref c) : a.Sets p ref c := by
  induction h' with
  | refl => exact h
  | set _ result ih => exact .set ih result

theorem Contexts.Sets.same {p : StreamID} {ref : String} {c c' : Contexts} (h : c.Sets p ref c') :
    c.SameStreams c' :=
  h.respects .refl fun c1 result h1 => h1.trans (c1.sameStreams_setAction p ref result)

def State.storeSlot (st : State) (ref : String) (p : StreamID) (scatter : Task) (i : ℕ)
    (o : StreamOutcome) : Except Exc State :=
  match o.slot with
  | .stored item => st.setSlot ref p scatter i item
  | _ => .ok st

variable (A dsl) in
/-- What follows once `t` has closed the stream `i`: its slot is stored, and behind the last
stream the result is handled. -/
inductive Stores (st : State) (t : Task) (p : StreamID) (x : String) (i : ℕ) (o : StreamOutcome) :
    State → BlockEnd → Prop
  | refuses {exc} (hslot : st.storeSlot t.ref p ⟨x,p⟩ i o = .error exc) :
      Stores st t p x i o st (.raised exc)
  | stays {st2} (hslot : st.storeSlot t.ref p ⟨x,p⟩ i o = .ok st2)
      (hopen : st2.openStreams ⟨x,p⟩ ≠ some 0) : Stores st t p x i o st2 (.done .closed)
  | lacks {st2} (hslot : st.storeSlot t.ref p ⟨x,p⟩ i o = .ok st2)
      (hargs : (dsl.task t.ref).args.gather = none) (exc : Exc) :
      Stores st t p x i o st2 (.raised exc)
  | gathers {st2 st3 args ending} (hslot : st.storeSlot t.ref p ⟨x,p⟩ i o = .ok st2)
      (hopen : st2.openStreams ⟨x,p⟩ = some 0) (hargs : (dsl.task t.ref).args.gather = some args)
      (hresult : handleGatherResult A st2 t p args = (st3,ending)) :
      Stores st t p x i o st3 ending

/-- How a gather goes on once it has closed one of `n` open streams. -/
def CloseEnd (n : ℤ) : BlockEnd → Prop
  | .raised _ => True
  | .done outcome => outcome = .closed ∧ n-1 ≠ 0
  | .await (.gatherFinalize _ _) => n-1 = 0
  | .await _ => False

variable (A dsl) in
/-- The stretches of `_schedule_task` for the instance `t`: the position it is resumed at, the
state it leaves and how it ends. -/
inductive BlockCase (st : State) (t : Task) : Pc → State → BlockEnd → Prop
  | raises {pc} (hpc : pc.NotScattering) (exc : Exc) : BlockCase st t pc st (.raised exc)
  | waits {pc pc'} (hpc : pc.IsEarly) (hw : pc'.IsWait) (hfits : PcFits dsl st t pc') :
      BlockCase st t pc st (.await pc')
  | executes {pc c pc'} (hs : ¬ dsl.IsScatter t.ref) (hg : ¬ dsl.IsGather t.ref)
      (hc : Executes A dsl t st.contexts c) :
      BlockCase st t pc { st with contexts := c } (.await (.executing pc'))
  | succeeds {pc c} (hs : ¬ dsl.IsScatter t.ref) (hg : ¬ dsl.IsGather t.ref)
      (hc : Executes A dsl t st.contexts c) :
      BlockCase st t pc (handleSuccessPath dsl { st with contexts := c } t) (.done .success)
  | fails {pc c} (exc : Exc) (hs : ¬ dsl.IsScatter t.ref) (hg : ¬ dsl.IsGather t.ref)
      (hc : Executes A dsl t st.contexts c) :
      BlockCase st t pc { st with contexts := c } (.raised exc)
  | skips {pc} (hpc : pc.IsEarly) (hs : ¬ dsl.IsScatter t.ref)
      (hg : dsl.IsGather t.ref → ∃ p x, t.streamId = .child p x .skip ∧
        st.openStreams ⟨x,p⟩ = none) :
      BlockCase st t pc (st.queueTasks dsl t t 0 (dsl.outEdges t fun _ => true)) (.done .skipped)
  | skipsScatter {pc} (hpc : pc.IsEarly) (hs : dsl.IsScatter t.ref) :
      BlockCase st t pc (handleScatterSkipStream dsl st t) (.done .skipped)
  | empties (hs : dsl.IsScatter t.ref) :
      BlockCase st t (.scatterInput (.ok [])) (handleScatterSkipStream dsl { st with
        taskStreams := update st.taskStreams t []
        openStreams := update st.openStreams t (some 0) } t) (.done .emptied)
  | opensFirst (hs : dsl.IsScatter t.ref) (args : ScatterArgs) {collection : List Value}
      (hlen : 0 < collection.length) :
      BlockCase st t (.scatterInput (.ok collection)) (openExecutionStream A dsl
        { st with taskStreams := update st.taskStreams t [] } t args collection 0)
        (.await (.scattering collection 1))
  | opensNext (hs : dsl.IsScatter t.ref) (args : ScatterArgs) {collection : List Value}
      {opened : ℕ} (hlen : opened < collection.length) :
      BlockCase st t (.scattering collection opened)
        (openExecutionStream A dsl st t args collection opened)
        (.await (.scattering collection (opened+1)))
  | scatters (hs : dsl.IsScatter t.ref) {collection : List Value} {opened : ℕ}
      (hlen : collection.length ≤ opened) :
      BlockCase st t (.scattering collection opened) { st with
        openStreams := update st.openStreams t (some (st.taskStreams t).length) }
        (.done .scattered)
  | skipPublishes (hg : dsl.IsGather t.ref) {p x} (ht : t.streamId = .child p x .skip)
      (result : TaskResult) :
      BlockCase st t (.gatherSkipStream (.ok ()))
        (({ st with contexts := st.contexts.setAction p t.ref result } : State).queueTasks dsl t
          ⟨t.ref,p⟩ 0 []) (.done .published)
  | closes {pc} (hpc : pc.IsArriving) (hg : dsl.IsGather t.ref) {p x i c n ending} (ht : t.streamId = .child p x (.item i))
      (o : StreamOutcome) (hn : st.openStreams ⟨x,p⟩ = some n) (hc : st.contexts.Sets p t.ref c)
      (hend : CloseEnd n ending)
      (hstores : Stores A dsl { st with
        openStreams := update st.openStreams ⟨x,p⟩ (some (n-1))
        closed := st.closed ++ [(t,o)] } t p x i o { st with
        contexts := c
        openStreams := update st.openStreams ⟨x,p⟩ (some (n-1))
        closed := st.closed ++ [(t,o)] } ending) :
      BlockCase st t pc { st with
        contexts := c
        openStreams := update st.openStreams ⟨x,p⟩ (some (n-1))
        closed := st.closed ++ [(t,o)] } ending
  | finalizeRaises (hg : dsl.IsGather t.ref) {r stored errors args} (info : TaskExceptionInfo)
      (hargs : (dsl.task t.ref).args.gather = some args) (hraise : args.errorStrategy = .raise) (herrors : errors ≠ []) :
      BlockCase st t (.gatherFinalize r (.ok (stored,errors)))
        { st with taskExceptions := st.taskExceptions.insert t.ref info } (.raised info.exception)
  | finalizes (hg : dsl.IsGather t.ref) {r f noop p x i} (ht : t.streamId = .child p x (.item i))
      (result : TaskResult) :
      BlockCase st t (.gatherFinalize r f)
        { st with contexts := st.contexts.setAction p t.ref result } (.await (.gatherNoop noop))
  | publishes (hg : dsl.IsGather t.ref) {p x i} (ht : t.streamId = .child p x (.item i)) :
      BlockCase st t (.gatherNoop (.ok ())) (st.queueTasks dsl t ⟨t.ref,p⟩ 0 []) (.done .published)

variable {p : StreamID} {pc : Pc} {x : String} {i : ℕ} {o : StreamOutcome} {ending : BlockEnd}

theorem parentStreamId_ok {st : State} (hreg : st.contexts.Registered) {t : Task}
    {s p : StreamID} (h : st.parentStreamId t s = .ok p) : s.parent = some p := by
  unfold State.parentStreamId at h
  split at h
  · cases h
  · cases h
  · rename_i parent hp
    obtain rfl : parent = p := by simpa using h
    exact (hreg.parent _ _ hp).symm

theorem StreamID.parent_eq_some {s : StreamID} (h : s.parent = some p) :
    s = .child p s.leaf.1 s.leaf.2 := by
  cases s with
  | root => cases h
  | child base x i =>
    obtain rfl : base = p := by simpa [StreamID.parent] using h
    rfl

theorem setSlot_ok {ref : String} {scatter : Task} {idx : ℕ} {item : StoredObject}
    (h : st.setSlot ref p scatter idx item = .ok st') :
    ∃ c, st.contexts.Sets p ref c ∧ st' = { st with contexts := c } := by
  unfold State.setSlot at h
  split at h
  · cases h
  · split at h
    · cases h
    · cases h
      exact ⟨_,.set .refl _,rfl⟩

theorem handleGatherResult_end {t : Task} {args : GatherArgs}
    (h : handleGatherResult A st t p args = (st',ending)) :
    ∃ c, st.contexts.Sets p t.ref c ∧ st' = { st with contexts := c } ∧
      ((∃ exc, ending = .raised exc) ∨ ∃ r f, ending = .await (.gatherFinalize r f)) := by
  unfold handleGatherResult at h
  split at h
  · cases h
    exact ⟨_,.refl,rfl,.inl ⟨_,rfl⟩⟩
  · dsimp only at h
    split at h <;> cases h
    · exact ⟨_,.set .refl _,rfl,.inl ⟨_,rfl⟩⟩
    · exact ⟨_,.set .refl _,rfl,.inr ⟨_,_,rfl⟩⟩

theorem storeSlot_ok {ref : String} {scatter : Task} (h : st.storeSlot ref p scatter i o = .ok st') :
    ∃ c, st.contexts.Sets p ref c ∧ st' = { st with contexts := c } := by
  unfold State.storeSlot at h
  split at h
  · exact setSlot_ok h
  · cases h
    exact ⟨_,.refl,rfl⟩

theorem Stores.sets {t : Task} (h : Stores A dsl st t p x i o st' ending) :
    ∃ c, st.contexts.Sets p t.ref c ∧ st' = { st with contexts := c } := by
  cases h with
  | refuses hslot => exact ⟨_,.refl,rfl⟩
  | stays hslot hopen => exact storeSlot_ok hslot
  | lacks hslot hargs exc => exact storeSlot_ok hslot
  | gathers hslot hopen hargs hresult =>
    obtain ⟨c,hc,rfl⟩ := storeSlot_ok hslot
    obtain ⟨c',hc',rfl,-⟩ := handleGatherResult_end hresult
    exact ⟨c',hc.trans hc',rfl⟩

theorem Stores.ends {t : Task} {n : ℤ} (h : Stores A dsl st t p x i o st' ending)
    (hn : st.openStreams ⟨x,p⟩ = some (n-1)) : CloseEnd n ending := by
  cases h with
  | refuses hslot => trivial
  | stays hslot hopen =>
    obtain ⟨c,-,rfl⟩ := storeSlot_ok hslot
    exact ⟨rfl,fun hz => hopen (hn.trans (congrArg some hz))⟩
  | lacks hslot hargs exc => trivial
  | gathers hslot hopen hargs hresult =>
    obtain ⟨c,-,rfl⟩ := storeSlot_ok hslot
    obtain ⟨c',-,rfl,hend⟩ := handleGatherResult_end hresult
    rcases hend with ⟨exc,rfl⟩ | ⟨r,f,rfl⟩
    · trivial
    · exact Option.some.inj (hn.symm.trans hopen)

theorem closeCase {st1 st2 : State} {t : Task} {n : ℤ} (hpc : pc.IsArriving)
    (hg : dsl.IsGather t.ref) (ht : t.streamId = .child p x (.item i))
    (hn : st.openStreams ⟨x,p⟩ = some n) (hst1 : st1 = { st with
      openStreams := update st.openStreams ⟨x,p⟩ (some (n-1))
      closed := st.closed ++ [(t,o)] }) (h : Stores A dsl st1 t p x i o st2 ending) :
    BlockCase A dsl st t pc st2 ending := by
  subst hst1
  have hend := h.ends (update_self _ _ _)
  obtain ⟨c,hc,rfl⟩ := h.sets
  exact .closes hpc hg ht o hn hc hend h

theorem stores_of_slot {st2 st3 : State} {t : Task}
    (hslot : st.storeSlot t.ref p ⟨x,p⟩ i o = .ok st2) (h : (if st2.openStreams ⟨x,p⟩ = some 0 then
        match (dsl.task t.ref).args.gather with
        | none => (st2, .raised (.ofType "ValidationError" "GatherArgs"))
        | some args => handleGatherResult A st2 t p args
      else (st2, .done .closed)) = (st3,ending)) : Stores A dsl st t p x i o st3 ending := by
  split at h
  · rename_i hz
    split at h
    · rename_i hargs
      cases h
      exact .lacks hslot hargs _
    · rename_i args hargs
      exact .gathers hslot hz hargs h
  · rename_i hz
    cases h
    exact .stays hslot hz

theorem closeStream_some {st1 : State} {t scatter : Task}
    (h : st.closeStream t scatter o = some st1) :
    ∃ n, st.openStreams scatter = some n ∧ st1 = { st with
      openStreams := update st.openStreams scatter (some (n-1))
      closed := st.closed ++ [(t,o)] } := by
  unfold State.closeStream at h
  split at h
  · cases h
  · rename_i n hn
    exact ⟨n,hn,(Option.some.inj h).symm⟩

theorem handleGatherSkipStream_eq (st : State) (t : Task) (stmt : ActionStatement) (p : StreamID)
    (i : ℕ) : handleGatherSkipStream A st t stmt p i =
      match st.storeSlot t.ref p ⟨t.streamId.leaf.1,p⟩ i (st.skippedOutcome t.streamId) with
      | .error exc => (st, .raised exc)
      | .ok st =>
        if st.openStreams ⟨t.streamId.leaf.1,p⟩ = some 0 then
          match stmt.args.gather with
          | none => (st, .raised (.ofType "ValidationError" "GatherArgs"))
          | some args => handleGatherResult A st t p args
        else (st, .done .closed) := by
  unfold handleGatherSkipStream State.storeSlot State.skippedOutcome
  cases st.streamExceptions t.streamId <;> rfl

theorem handleGather_case {st st' : State} (hreg : st.contexts.Registered) {t : Task} {pc : Pc}
    (hpc : pc.IsEarly) (hg : dsl.IsGather t.ref) {isSkipping : Bool} {ending : BlockEnd}
    (h : handleGather A dsl st t (dsl.task t.ref) isSkipping = (st',ending)) :
    BlockCase A dsl st t pc st' ending := by
  have hns : ¬ dsl.IsScatter t.ref := by
    intro hs
    rw [DSLInput.IsGather, show (dsl.task t.ref).action = .transformScatter from hs] at hg
    cases hg
  unfold handleGather at h
  split at h
  · cases h
    exact .raises hpc.notScattering _
  split at h
  · cases h
    exact .raises hpc.notScattering _
  rename_i parent hparent
  have hstream := StreamID.parent_eq_some (parentStreamId_ok hreg hparent)
  dsimp only at h
  split at h
  · -- a skip stream
    rename_i hleaf
    rw [hleaf] at hstream
    split at h
    · rename_i hobs
      cases h
      exact .waits hpc trivial ⟨hg,parent,_,hstream,hobs⟩
    · rename_i hobs
      cases h
      exact .skips hpc hns fun _ => ⟨parent,_,hstream,Option.not_isSome_iff_eq_none.mp hobs⟩
  · -- an execution stream
    rename_i idx hleaf
    rw [hleaf] at hstream
    split at h
    · split at h
      · cases h
        exact .raises hpc.notScattering _
      · rename_i st1 hclose
        obtain ⟨n,hn,hst1⟩ := closeStream_some hclose
        have hskip : st1.skippedOutcome t.streamId = st.skippedOutcome t.streamId := by
          rw [hst1]
          rfl
        refine closeCase hpc.isArriving hg hstream hn hst1 ?_
        rw [handleGatherSkipStream_eq, hskip] at h
        split at h
        · rename_i exc hslot
          cases h
          exact .refuses hslot
        · rename_i st2 hslot
          exact stores_of_slot hslot h
    · split at h
      · cases h
        exact .raises hpc.notScattering _
      · cases h
        exact .raises hpc.notScattering _
      · cases h
        exact .waits hpc trivial ⟨hg,parent,_,idx,hstream⟩

theorem handleSkipPath_case (hreg : st.contexts.Registered) {t : Task} (hpc : pc.IsEarly)
    (h : handleSkipPath A dsl st t (dsl.task t.ref) = (st',ending)) :
    BlockCase A dsl st t pc st' ending := by
  unfold handleSkipPath at h
  split at h
  · rename_i hs
    cases h
    exact .skipsScatter hpc hs
  · rename_i hg
    exact handleGather_case hreg hpc hg h
  · rename_i hs hg
    cases h
    exact .skips hpc hs fun hg' => absurd hg' hg

theorem afterExecute_case {t : Task} (hs : ¬ dsl.IsScatter t.ref) (hg : ¬ dsl.IsGather t.ref)
    {c : Contexts} (hc : Executes A dsl t st.contexts c) {e : ExecEnd}
    (h : afterExecute dsl st t c e = (st',ending)) : BlockCase A dsl st t pc st' ending := by
  unfold afterExecute at h
  split at h <;> cases h
  · exact .executes hs hg hc
  · exact .succeeds hs hg hc
  · exact .fails _ hs hg hc

theorem dispatch_case (hreg : st.contexts.Registered) {t : Task} (hpc : pc.IsEarly)
    (h : dispatch A dsl st t (dsl.task t.ref) = (st',ending)) :
    BlockCase A dsl st t pc st' ending := by
  unfold dispatch at h
  split at h
  · rename_i hs
    unfold handleScatter at h
    split at h
    · cases h
      exact .raises hpc.notScattering _
    · cases h
      exact .raises hpc.notScattering _
    · cases h
      exact .waits hpc trivial hs
  · rename_i hg
    exact handleGather_case hreg hpc hg h
  · rename_i hs hg
    exact afterExecute_case hs hg .first h

theorem afterRunIf_case (hreg : st.contexts.Registered) {t : Task} (hpc : pc.IsEarly) {delay : ℚ}
    (h : afterRunIf A dsl st t (dsl.task t.ref) delay = (st',ending)) :
    BlockCase A dsl st t pc st' ending := by
  unfold afterRunIf at h
  split at h
  · cases h
    exact .waits hpc trivial trivial
  · exact dispatch_case hreg hpc h

theorem begin_case (hreg : st.contexts.Registered) {t : Task} {delay : ℚ}
    (h : begin A dsl st t (dsl.task t.ref) delay = (st',ending)) :
    BlockCase A dsl st t (.created delay) st' ending := by
  unfold begin at h
  split at h
  · exact handleSkipPath_case hreg (by trivial) h
  split at h
  · cases h
    exact .raises (by trivial) _
  split at h
  · cases h
    exact .waits trivial trivial trivial
  · exact afterRunIf_case hreg (by trivial) h

theorem gatherItem_case {st st' : State} (hreg : st.contexts.Registered) {t : Task}
    (hg : dsl.IsGather t.ref) {result : Except Exc StoredObject} {item : StoredObject}
    {ending : BlockEnd} (h : gatherItem A st t (dsl.task t.ref) item = (st',ending)) :
    BlockCase A dsl st t (.gatherItems result) st' ending := by
  unfold gatherItem at h
  split at h
  · rename_i parent idx args hparent hleaf hargs
    have hstream := StreamID.parent_eq_some (parentStreamId_ok hreg hparent)
    rw [hleaf] at hstream
    dsimp only at h
    split at h
    · cases h
      exact .raises (by trivial) _
    · rename_i st1 hclose
      obtain ⟨n,hn,hst1⟩ := closeStream_some hclose
      refine closeCase trivial hg hstream hn hst1 ?_
      split at h
      · rename_i exc hslot
        cases h
        exact .refuses hslot
      · rename_i st2 hslot
        refine stores_of_slot (o := .value item) hslot ?_
        rwa [hargs]
  · cases h
    exact .raises (by trivial) _
  · cases h
    exact .raises (by trivial) _

theorem gatherFinalized_case {t : Task} {args : GatherArgs} (ht : t.streamId = .child p x (.item i))
    {r taskResult : TaskResult} {stored : StoredObject} {errors : List ActionErrorInfo}
    (hg : dsl.IsGather t.ref) (hargs : (dsl.task t.ref).args.gather = some args)
    (h : gatherFinalized A st t p args taskResult stored errors = (st',ending)) :
    BlockCase A dsl st t (.gatherFinalize r (.ok (stored,errors))) st' ending := by
  unfold gatherFinalized at h
  split at h
  · rename_i hraise
    cases h
    exact .finalizeRaises hg ⟨_,_⟩ hargs hraise.1 hraise.2
  · split at h <;> cases h
    · exact .raises (by trivial) _
    · exact .finalizes hg ht _

theorem block_case {st st' : State} (hreg : st.contexts.Registered) {t : Task} {pc : Pc}
    (hfits : PcFits dsl st t pc) {ending : BlockEnd}
    (h : block A dsl st t (dsl.task t.ref) pc = (st',ending)) :
    BlockCase A dsl st t pc st' ending := by
  unfold block at h
  split at h
  · exact begin_case hreg h
  · cases h
    exact .raises (by trivial) _
  · exact handleSkipPath_case hreg (by trivial) h
  · exact afterRunIf_case hreg (by trivial) h
  · exact dispatch_case hreg (by trivial) h
  · cases h
    exact .raises (by trivial) _
  · rename_i collection
    unfold scatterCollection at h
    dsimp only at h
    split at h <;> cases h
    · rename_i hz
      obtain rfl := List.eq_nil_of_length_eq_zero hz
      exact .empties hfits
    · exact .opensFirst hfits _ (Nat.pos_of_ne_zero ‹_›)
  · unfold scatterNext at h
    split at h <;> cases h
    · exact .opensNext hfits.1 _ ‹_›
    · exact .scatters hfits.1 (not_lt.mp ‹_›)
  · cases h
    exact .raises (by trivial) _
  · obtain ⟨hg,p,x,hstream,-⟩ := hfits
    unfold gatherSkipped at h
    split at h
    · cases h
      exact .raises (by trivial) _
    · rename_i parent hparent
      have hp := parentStreamId_ok hreg hparent
      rw [hstream] at hp
      obtain rfl : p = parent := by simpa [StreamID.parent] using hp
      split at h <;> cases h
      · exact .raises (by trivial) _
      · exact .skipPublishes hg hstream _
  · cases h
    exact .raises (by trivial) _
  · exact gatherItem_case hreg hfits.1 h
  · cases h
    exact .raises (by trivial) _
  · split at h
    · rename_i hparent hargs
      obtain ⟨hg,p,x,i,hstream,-⟩ := hfits
      have hp := parentStreamId_ok hreg hparent
      rw [hstream] at hp
      cases hp
      exact gatherFinalized_case hstream hg hargs h
    · cases h
      exact .raises (by trivial) _
    · cases h
      exact .raises (by trivial) _
  · cases h
    exact .raises (by trivial) _
  · obtain ⟨hg,p,x,i,hstream,-⟩ := hfits
    unfold gatherPublished at h
    split at h <;> cases h
    · exact .raises (by trivial) _
    · rename_i parent hparent
      have hp := parentStreamId_ok hreg hparent
      rw [hstream] at hp
      obtain rfl : p = parent := by simpa [StreamID.parent] using hp
      exact .publishes hg hstream
  · exact afterExecute_case hfits.1 hfits.2 (.next _) h

end
end Allama

import Allama.EdgeMarking

/-! Which results the expressions of an action read, and in which operand they are evaluated. -/
namespace Allama

/-- The streams from `s` up to the root. -/
def StreamID.path : StreamID → List StreamID
  | .root => [.root]
  | .child p x i => .child p x i :: p.path

/-- The result a stream stores for `ref`. -/
def Contexts.entry (c : Contexts) (ref : String) (s : StreamID) : Option TaskResult :=
  (c.streams s).bind fun ctx => ctx.actions ref

/-- The result stored for `ref` in the nearest stream on the path from `s` up to the root. -/
def Contexts.nearest (c : Contexts) (ref : String) (s : StreamID) : Option TaskResult :=
  s.path.findSome? (c.entry ref)

/-- The expressions the workflow has evaluated for an action. Those of `action` are its
arguments and the loops over them; those of `subflow` are the arguments and the loops of a child
workflow. -/
inductive ActionKind
  | action
  | runIf
  | retryUntil
  | collection
  | items
  | subflow
deriving DecidableEq

/-- The operand an expression is evaluated in, for an action in the stream `s`. -/
def ActionKind.operand (c : Contexts) (stmt : ActionStatement) (s : StreamID) :
    ActionKind → Option ExecutionContext
  | .action | .runIf => some (c.buildStreamAwareContext stmt s)
  | .retryUntil => some c.rootContext
  | .collection | .items | .subflow => c.streams s

/-- The kinds whose operand is built by `build_stream_aware_context`. -/
def ActionKind.StreamAware (kind : ActionKind) : Prop := kind = .action ∨ kind = .runIf

/-- `ACTIONS` resolves through the streams up to the root, `TRIGGER` and `ENV` to those of the
workflow. -/
structure Resolves (context : ExecutionContext) (c : Contexts) (stmt : ActionStatement)
    (s : StreamID) (operand : ExecutionContext) : Prop where
  actions : ∀ ref ∈ stmt.actionRefs, operand.actions ref = c.nearest ref s
  inputs : operand.inputs = context.inputs

/-- The root stream has the inputs of the workflow, the others have none. -/
structure Contexts.InputsOf (context : ExecutionContext) (c : Contexts) : Prop where
  root : (c.streams .root).map ExecutionContext.inputs = some context.inputs
  below : ∀ s ctx, s ≠ .root → c.streams s = some ctx → ctx.inputs = (none,none)

/-- The blocks that have an expression of the kind evaluated send this operand. An attempt of a registry
action leaves its logical time in the contexts, and one that succeeded its result; the operand is of these. -/
def ActionKind.Sends (A : Activities) (dsl : DSLInput) (st : State) (stmt : ActionStatement) (t : Task)
    (operand : ExecutionContext) : ActionKind → Prop
  | .action => ∀ attempt,
    (stmt.action = .aiAgent ∨ stmt.action = .aiPresetAgent →
      beginAction A stmt t attempt st.contexts =
        (st.contexts,.await (.action attempt (A.executeAction t attempt operand)))) ∧
    ∀ key c, stmt.action = .udf key → st.contexts = c.setLogicalTime (A.computeLogicalTime t attempt) →
      beginAction A stmt t attempt c =
        (st.contexts,.await (.action attempt (A.executeAction t attempt operand)))
  | .runIf => ∀ delay runIf, st.flow.skipShouldPropagate t stmt = false → st.flow.isReachable t stmt = true →
    stmt.runIf = some runIf →
      begin A dsl st t stmt delay = (st,.await (.runIf delay (A.evaluateRunIf t runIf operand)))
  | .retryUntil => ∀ attempt retryUntil result c, st.contexts = c.setAction .root t.ref result →
    beginRetryUntil A t attempt retryUntil result c =
      (st.contexts,.await (.retryUntil attempt (A.evaluateRetryUntil t attempt retryUntil operand)))
  | .collection => ∀ args, stmt.args.scatter = some args →
    handleScatter A st t stmt = (st,.await (.scatterInput (A.handleScatterInput t args.collection operand)))
  | .items => ∀ args p x i, t.streamId = .child p x (.item i) → st.parentStreamId t t.streamId = .ok p →
    stmt.args.gather = some args →
      handleGather A dsl st t stmt false = (st,.await (.gatherItems (A.evaluateItems t args.items operand)))
  | .subflow => ∀ attempt,
    (stmt.action = .childWorkflowExecute → beginAction A stmt t attempt st.contexts =
      (st.contexts,.await (.prepare attempt (A.prepareSubflow t attempt operand)))) ∧
    ∀ prepared, stmt.forEach = [] → resumeTask A stmt t (.prepare attempt (.ok prepared)) st.contexts =
      (st.contexts,.await (.action attempt (A.runChildWorkflow t attempt prepared (some operand))))

section
variable {A : Activities} {dsl : DSLInput} {st : State} {stmt : ActionStatement}

theorem operand_sent {kind : ActionKind} {t : Task} {operand : ExecutionContext}
    (hop : kind.operand st.contexts stmt t.streamId = some operand) : kind.Sends A dsl st stmt t operand := by
  cases kind with
  | action =>
    intro attempt
    cases hop
    refine ⟨?_,?_⟩
    · rintro (hagent | hagent) <;> simp only [beginAction, hagent]
    · intro key c hudf hc
      simp only [beginAction, hudf, hc]
  | runIf =>
    intro delay runIf hskip hreach hrun
    cases hop
    simp only [begin, hskip, hreach, hrun, Bool.not_true, Bool.false_eq_true, if_false]
  | retryUntil =>
    intro attempt retryUntil result c hc
    cases hop
    rw [hc]
    rfl
  | collection =>
    intro args hargs
    have hctx : st.context t.streamId = some operand := hop
    rw [handleScatter, hargs, hctx]
  | items =>
    intro args p x i ht hparent hargs
    have hctx : st.context t.streamId = some operand := hop
    have hroot : t.streamId ≠ .root := by
      rw [ht]
      simp
    rw [handleGather, if_neg hroot, hparent]
    simp only [ht, StreamID.leaf, Bool.false_eq_true, if_false, hargs]
    rw [ht] at hctx
    rw [hctx]
  | subflow =>
    intro attempt
    have hctx : st.contexts.streams t.streamId = some operand := hop
    refine ⟨?_,?_⟩
    · intro hsub
      simp only [beginAction, hsub, hctx]
    · intro prepared hloop
      rw [resumeTask, if_pos hloop, hctx]

/-! The upward search finds the nearest result. -/

theorem getStreamAwareActionResult_eq {c : Contexts} (hreg : c.Registered) (ref : String)
    {s : StreamID} (hs : (c.streamHierarchy s).isSome) :
    c.getStreamAwareActionResult ref s = c.nearest ref s := by
  unfold Contexts.getStreamAwareActionResult
  induction s with
  | root =>
    obtain ⟨v,hv⟩ := Option.isSome_iff_exists.mp hs
    have hnone : v = none := hreg.parent _ v hv
    rw [hnone] at hv
    simp only [Contexts.searchUp, Contexts.nearest, StreamID.path, List.findSome?_cons,
      List.findSome?_nil, Contexts.entry, hv, Option.join_some]
    cases (c.streams .root).bind fun ctx => ctx.actions ref <;> rfl
  | child p x i ih =>
    obtain ⟨v,hv⟩ := Option.isSome_iff_exists.mp hs
    have hsome : v = some p := hreg.parent _ v hv
    rw [hsome] at hv
    have hup := ih (hreg.up p x i hs)
    rw [Contexts.searchUp, Contexts.nearest, StreamID.path, List.findSome?_cons, Contexts.entry, hv,
      Option.join_some, StreamID.depth]
    split
    · rename_i result hres
      rw [hres]
    · rename_i hres
      rw [hres]
      exact hup

theorem nearest_root (c : Contexts) (ref : String) : c.nearest ref .root = c.entry ref .root := by
  simp only [Contexts.nearest, StreamID.path, List.findSome?_cons, List.findSome?_nil]
  cases c.entry ref .root <;> rfl

/-! The inputs stay in the root stream. -/

theorem inputsOf_init (context : ExecutionContext) :
    (Contexts.init context).InputsOf context := by
  refine ⟨by simp [Contexts.init],fun s ctx hs hctx => ?_⟩
  simp only [Contexts.init, Function.update_of_ne hs] at hctx
  cases hctx

theorem Contexts.InputsOf.same {context : ExecutionContext} {c c' : Contexts}
    (h : c.InputsOf context) (hc : c.SameStreams c') : c'.InputsOf context := by
  refine ⟨(hc.inputs _).trans h.root,fun s ctx hs hctx => ?_⟩
  have hmap := hc.inputs s
  rw [hctx] at hmap
  obtain ⟨ctx',hctx',he⟩ := Option.map_eq_some_iff.mp hmap.symm
  rw [← he]
  exact h.below s ctx' hs hctx'

theorem Contexts.InputsOf.openStream {context : ExecutionContext} {c : Contexts}
    (h : c.InputsOf context) {p : StreamID} {x : String} {i : StreamIndex}
    {ctx : ExecutionContext} (hctx : ctx.inputs = (none,none)) :
    (c.openStream (.child p x i) p ctx).InputsOf context := by
  refine ⟨h.root,fun s ctx' hs hctx' => ?_⟩
  simp only [Contexts.openStream, Function.update_apply] at hctx'
  split at hctx'
  · rw [← Option.some.inj hctx']
    exact hctx
  · exact h.below s ctx' hs hctx'

theorem BlockCase.contexts {t : Task} {pc : Pc} {st1 : State} {ending : BlockEnd}
    (h : BlockCase A dsl st t pc st1 ending) : st.contexts.SameStreams st1.contexts ∨
      ∃ i ctx, ctx.inputs = (none,none) ∧
        st1.contexts = st.contexts.openStream (.child t.streamId t.ref i) t.streamId ctx := by
  cases h with
  | executes hs hg hc => exact .inl hc.same
  | succeeds hs hg hc => exact .inl hc.same
  | fails exc hs hg hc => exact .inl hc.same
  | skipPublishes hg ht result => exact .inl (Contexts.sameStreams_setAction _ _ _ _)
  | closes harr hg ht o hn hc hend hstores => exact .inl hc.same
  | finalizes hg ht result => exact .inl (Contexts.sameStreams_setAction _ _ _ _)
  | skipsScatter hpc hs => exact .inr ⟨_,_,rfl,rfl⟩
  | empties hs => exact .inr ⟨_,_,rfl,rfl⟩
  | opensFirst hs args hlen => exact .inr ⟨_,_,rfl,rfl⟩
  | opensNext hs args hlen => exact .inr ⟨_,_,rfl,rfl⟩
  | _ => exact .inl (.refl _)

theorem handleErrorPath_contexts (st : State) (t : Task) (exc : Exc) :
    (handleErrorPath dsl st t exc).contexts = st.contexts := by
  by_cases herr : dsl.hasErrorEdge t.ref
  · rw [handleErrorPath_error st exc herr]
    rfl
  by_cases hroot : t.streamId = .root
  · rw [handleErrorPath_root st exc herr hroot]
  · rw [handleErrorPath_stream st exc herr hroot]
    rfl

theorem finish_contexts (st : State) (t : Task) (ending : BlockEnd) :
    (st.finish dsl t ending).contexts = st.contexts := by
  cases ending with
  | await pc => rfl
  | done outcome => rfl
  | raised exc => exact handleErrorPath_contexts st t exc

theorem Run.inputsOf {context : ExecutionContext} {ok : State → Choice → Prop}
    (hwf : dsl.WellFormed) (h : Run A dsl context ok st) : st.contexts.InputsOf context := by
  refine h.invariant (P := fun st => st.contexts.InputsOf context) (inputsOf_init context) ?_
  intro st choice st' hr hin _ hs
  have hcore := Run.core hwf hr
  cases choice with
  | dequeue =>
    obtain ⟨t,delay,queue,hdeq⟩ := dequeue_cases hcore hs
    rw [hdeq.next]
    exact hin
  | resume t =>
    obtain ⟨pc,st1,ending,hres⟩ := resume_cases hwf hcore hs
    rw [hres.next, finish_contexts]
    rcases hres.cases.contexts with hc | ⟨i,ctx,hctx,he⟩
    · exact hin.same hc
    · rw [he]
      exact hin.openStream hctx

/-! Which kinds resolve their expressions as the stream-aware ones do. -/

theorem rootContext_eq {c : Contexts} {ctx : ExecutionContext} (h : c.streams .root = some ctx) :
    c.rootContext = ctx := by
  rw [Contexts.rootContext, h, Option.getD_some]

theorem resolves_streamAware {context : ExecutionContext} {c : Contexts} (hreg : c.Registered)
    (hin : c.InputsOf context) {s : StreamID} (hs : (c.streamHierarchy s).isSome) :
    Resolves context c stmt s (c.buildStreamAwareContext stmt s) := by
  obtain ⟨ctx,hctx,he⟩ := Option.map_eq_some_iff.mp hin.root
  refine ⟨fun ref href => ?_,?_⟩
  · rw [Contexts.buildStreamAwareContext]
    dsimp only
    rw [if_pos href, getStreamAwareActionResult_eq hreg ref hs]
  · rw [← he, ← rootContext_eq hctx]
    rfl

/-- In every reachable state, an expression in the stream `s` resolves through the streams up to
the root, with the inputs of the workflow, exactly in these cases: its kind is stream-aware, `s` is
the root stream, or it is a `retry_until` all of whose references have the same result from `s` as
from the root. The operand is the one that the blocks of the kind send. -/
theorem operand_resolves_iff {context : ExecutionContext} (hacc : dsl.Accepted)
    (henv : context.env.isSome) (h : Run A dsl context (fun _ _ => True) st) (kind : ActionKind)
    (stmt : ActionStatement) {s : StreamID} (hs : (st.context s).isSome) :
    ((∃ operand, kind.operand st.contexts stmt s = some operand ∧
      Resolves context st.contexts stmt s operand) ↔
    kind.StreamAware ∨ s = .root ∨ (kind = .retryUntil ∧ ∀ ref ∈ stmt.actionRefs,
      st.contexts.nearest ref .root = st.contexts.nearest ref s)) ∧
    ∀ t operand, t.streamId = s → kind.operand st.contexts stmt s = some operand →
      kind.Sends A dsl st stmt t operand := by
  refine ⟨?_,fun t operand ht hop => operand_sent (ht ▸ hop)⟩
  have hwf := wellFormed_of_accepted hacc
  have hreg := (h.core hwf).registered
  have hin := h.inputsOf hwf
  have hsr : (st.contexts.streamHierarchy s).isSome := by
    rwa [← hreg.context]
  obtain ⟨root,hroot,hinputs⟩ := Option.map_eq_some_iff.mp hin.root
  have hentry : ∀ ref, st.contexts.nearest ref .root = root.actions ref := by
    intro ref
    rw [nearest_root, Contexts.entry, hroot, Option.bind_some]
  -- the raw context of a stream below the root has no environment
  have hraw : ∀ operand, st.contexts.streams s = some operand →
      (Resolves context st.contexts stmt s operand ↔ s = .root) := by
    intro operand hop
    constructor
    · intro hres
      by_contra hne
      have hnone := hin.below s operand hne hop
      rw [hres.inputs] at hnone
      obtain ⟨env,henv⟩ := Option.isSome_iff_exists.mp henv
      have hsnd := congrArg Prod.snd hnone
      simp [ExecutionContext.inputs, henv] at hsnd
    · rintro rfl
      obtain rfl := Option.some.inj (hroot.symm.trans hop)
      exact ⟨fun ref _ => (hentry ref).symm,hinputs⟩
  have hstream : (∃ operand, st.contexts.streams s = some operand ∧
      Resolves context st.contexts stmt s operand) ↔ s = .root := by
    constructor
    · rintro ⟨operand,hop,hres⟩
      exact (hraw operand hop).mp hres
    · intro hr
      obtain ⟨operand,hop⟩ := Option.isSome_iff_exists.mp hs
      exact ⟨operand,hop,(hraw operand hop).mpr hr⟩
  have haware : ∃ operand, some (st.contexts.buildStreamAwareContext stmt s) = some operand ∧
      Resolves context st.contexts stmt s operand := ⟨_,rfl,resolves_streamAware hreg hin hsr⟩
  cases kind with
  | action => exact iff_of_true haware (.inl (.inl rfl))
  | runIf => exact iff_of_true haware (.inl (.inr rfl))
  | retryUntil =>
    have hroots : st.contexts.rootContext = root := rootContext_eq hroot
    constructor
    · rintro ⟨operand,hop,hres⟩
      cases hop
      refine .inr (.inr ⟨rfl,fun ref href => ?_⟩)
      rw [hentry, ← hres.actions ref href, hroots]
    · rintro (hk | rfl | ⟨-,hall⟩)
      · rcases hk with hk | hk <;> cases hk
      · exact ⟨_,rfl,fun ref _ => by rw [hentry, hroots],by rw [hroots, hinputs]⟩
      · exact ⟨_,rfl,fun ref href => by rw [← hall ref href, hentry, hroots],by rw [hroots, hinputs]⟩
  | collection => simpa [ActionKind.operand, ActionKind.StreamAware] using hstream
  | items => simpa [ActionKind.operand, ActionKind.StreamAware] using hstream
  | subflow => simpa [ActionKind.operand, ActionKind.StreamAware] using hstream

end

/-- A child workflow in the scope of `x` whose arguments name the result of `a`, outside it. -/
def subflowStatement : ActionStatement where
  ref := "c"
  action := .childWorkflowExecute
  dependsOn := ["x"]
  expressions := [("args",["a"])]

def subflowDSL : DSLInput where
  actions := [
    { ref := "a", action := .udf "a" },
    { ref := "x", action := .transformScatter, dependsOn := ["a"],
      args := { scatter := some { collection := .none } } },
    subflowStatement]

/-- The choices up to the first stream of the scatter. -/
def subflowChoices : List Choice :=
  let a : Task := ⟨"a",.root⟩
  let x : Task := ⟨"x",.root⟩
  [.dequeue,.resume a,.resume a,.dequeue,.resume x,.resume x]

def itemStream : StreamID := .child .root "x" (.item 0)

def sampleContext : ExecutionContext :=
  { ExecutionContext.empty with env := some ⟨.none,none⟩ }

theorem subflowDSL_accepted : subflowDSL.Accepted := by decide

theorem operand_resolves_plain : ∃ st,
    Run oneItem.activities subflowDSL sampleContext (fun _ _ => True) st ∧
      ∃ operand, ActionKind.action.operand st.contexts subflowStatement itemStream = some operand ∧
        Resolves sampleContext st.contexts subflowStatement itemStream operand := by
  have hrun : (Runs.follow (step oneItem.activities subflowDSL) (State.init subflowDSL sampleContext)
      subflowChoices).map (fun st => (st.context itemStream).isSome) = some true := by decide
  obtain ⟨st,hst,hs⟩ := Runs.reachable_of_observed hrun
  exact ⟨st,hst,(operand_resolves_iff subflowDSL_accepted (by rfl) hst .action subflowStatement
    hs).1.mpr (.inl (.inl rfl))⟩

/-- Whether the stream is there, the result of `a` is found from it, and the operand of a child
workflow has it. -/
def subflowReads (st : State) : Bool × Bool × Bool :=
  ((st.context itemStream).isSome,(st.contexts.nearest "a" itemStream).isSome,
    ((st.contexts.streams itemStream).bind fun ctx => ctx.actions "a").isSome)

/-- The arguments of a child workflow do not see the results of the outer streams. -/
theorem subflow_misses_outer_result : ¬ ∀ (A : Activities) (dsl : DSLInput)
    (context : ExecutionContext) (st : State) (kind : ActionKind) (stmt : ActionStatement)
    (s : StreamID), dsl.Accepted → context.env.isSome → Run A dsl context (fun _ _ => True) st →
      (st.context s).isSome → stmt ∈ dsl.actions →
      ∃ operand, kind.operand st.contexts stmt s = some operand ∧
        Resolves context st.contexts stmt s operand := by
  intro hclaim
  have hrun : (Runs.follow (step oneItem.activities subflowDSL) (State.init subflowDSL sampleContext)
      subflowChoices).map subflowReads = some (true,true,false) := by decide
  obtain ⟨st,hst,hobs⟩ := Runs.reachable_of_observed hrun
  obtain ⟨hs,hobs⟩ := Prod.mk.inj hobs
  obtain ⟨hfound,hmissed⟩ := Prod.mk.inj hobs
  obtain ⟨operand,hop,hres⟩ := hclaim _ _ _ st .subflow subflowStatement itemStream
    subflowDSL_accepted (by rfl) hst hs (by simp [subflowDSL])
  have hop : st.contexts.streams itemStream = some operand := hop
  rw [hop, Option.bind_some, hres.actions "a" (by decide), hfound] at hmissed
  cases hmissed

end Allama

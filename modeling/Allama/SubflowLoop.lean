import Allama.Batches
import Allama.Checked
import Allama.DSLTypes

/-! Looped child workflows (`dsl/workflow.py`, `dsl/action.py`): how the iterations are put into batches, in
the prepared path and in the legacy path. -/
namespace Allama
open Checked

inductive LoopStrategy
  | parallel
  | batch
  | sequential
deriving DecidableEq

inductive FailStrategy
  | isolated
  | all
deriving DecidableEq

/-- `task.args`, as written in the workflow: templates are not evaluated. -/
abbrev TaskArgs := List (String × Value)

def TaskArgs.get (args : TaskArgs) (key : String) : Option Value := args.lookup key

def raised (typeName message : String) : Exc := ⟨typeName,message,.absent⟩

/-- `LoopStrategy(task.args.get("loop_strategy", LoopStrategy.BATCH))`. -/
def TaskArgs.loopStrategy (args : TaskArgs) : Except Exc LoopStrategy :=
  match args.get "loop_strategy" with
  | none => .ok .batch
  | some (.str "parallel") => .ok .parallel
  | some (.str "batch") => .ok .batch
  | some (.str "sequential") => .ok .sequential
  | some _ => .error (raised "ValueError" "not a valid LoopStrategy")

/-- `FailStrategy(task.args.get("fail_strategy", FailStrategy.ISOLATED))`. -/
def TaskArgs.failStrategy (args : TaskArgs) : Except Exc FailStrategy :=
  match args.get "fail_strategy" with
  | none => .ok .isolated
  | some (.str "isolated") => .ok .isolated
  | some (.str "all") => .ok .all
  | some _ => .error (raised "ValueError" "not a valid FailStrategy")

inductive WaitStrategy
  | wait
  | detach
deriving DecidableEq

/-- The validation of `ChildWorkflowMemo(wait_strategy=args.wait_strategy)`. -/
def TaskArgs.waitStrategy (args : TaskArgs) : Except Exc WaitStrategy :=
  match args.get "wait_strategy" with
  | none => .ok .wait
  | some (.str "wait") => .ok .wait
  | some (.str "detach") => .ok .detach
  | some _ => .error (raised "ValidationError" "Input should be 'wait' or 'detach'")

/-- What the evaluated arguments of one iteration say. -/
structure IterationArgs where
  environment : Option String
  timeout : Option ℚ
  triggerInputs : Value

structure DSLRunArgs where
  triggerInputs : StoredObject
  runtimeConfig : DSLConfig

/-- A child workflow to start for an index of the loop. -/
structure ChildRun where
  loopIndex : ℤ
  runArgs : DSLRunArgs

/-- Child workflows of the engine: `start` gives the id of one that goes on by itself, `execute` the
result of one that is waited for. -/
structure ChildWorkflows where
  start : ChildRun → Except Exc String
  execute : ChildRun → Except Exc StoredObject

/-- What the loop asks of the interpreter and of the blob storage. -/
structure SubflowRuntime (Item : Type) where
  /-- The arguments of the task, evaluated and validated with `var` set for one item. -/
  evalArgs : Item → Except Exc IterationArgs
  /-- `int(s)` of a text. -/
  intOfStr : String → Option ℤ
  /-- Whether `storage.store` puts a value into a blob. -/
  externalizes : Value → Bool
  /-- `ALLAMA__RESULT_EXTERNALIZATION_ENABLED`. -/
  externalization : Bool

/-- `T | list[T]`: one value for all iterations or one for each. -/
inductive OneOrEach (α : Type)
  | one (a : α)
  | each (l : List α)

def OneOrEach.of {α : Type} [DecidableEq α] : List α → OneOrEach α
  | [] => .each []
  | a :: l => if ∀ b ∈ l, b = a then .one a else .each (a :: l)

/-- `l[i]`; `none` is its `IndexError`. -/
def pyIndex {α : Type} (l : List α) (i : ℤ) : Option α :=
  if 0 ≤ i then l[i.toNat]? else if 0 ≤ l.length+i then l[(l.length+i).toNat]? else none

/-- `l[a:b]`. -/
def pySlice {α : Type} (l : List α) (a b : ℤ) : List α :=
  let bound := fun i : ℤ => (if i < 0 then max 0 (l.length+i) else min (l.length:ℤ) i).toNat
  (l.take (bound b)).drop (bound a)

def listIndexError : Exc := raised "IndexError" "list index out of range"

def OneOrEach.get {α : Type} (values : OneOrEach α) (index : ℤ) : Except Exc α :=
  match values with
  | .one a => .ok a
  | .each l => (pyIndex l index).elim (.error listIndexError) .ok

/-- `a or b`, where `b` also stands in for a falsy `a`. -/
def orDefault {α : Type} [DecidableEq α] (falsy : α) (a : Option α) (b : α) : α :=
  match a with
  | none => b
  | some a => if a = falsy then b else a

def MAX_LOOP_ITERATIONS : ℕ := 4096

/-- `PreparedSubflowResult` of a looped task; the trigger inputs are a collection or an inline list. -/
structure PreparedSubflowResult where
  triggerInputs : StoredObject
  runtimeConfigs : OneOrEach DSLConfig

namespace PreparedSubflowResult

def typeError : Exc := raised "TypeError" "Expected CollectionObject or InlineObject with list"

def count (prepared : PreparedSubflowResult) : Except Exc ℕ :=
  match prepared.triggerInputs.data with
  | .list values => .ok values.length
  | _ => .error typeError

/-- A handle to one item of the collection, or the item itself. -/
def getTriggerInputAt (prepared : PreparedSubflowResult) (index : ℤ) : Except Exc StoredObject :=
  match prepared.triggerInputs.data with
  | .list values => (pyIndex values index).elim (.error listIndexError)
      fun value => .ok ⟨prepared.triggerInputs.external,value⟩
  | _ => .error typeError

def getConfig (prepared : PreparedSubflowResult) (index : ℤ) : Except Exc DSLConfig :=
  prepared.runtimeConfigs.get index

end PreparedSubflowResult

/-- `ResolvedSubflowBatch`. -/
structure ResolvedSubflowBatch where
  configs : OneOrEach (Option String × Option ℚ)
  triggerInputs : List StoredObject

/-- The part of `SubflowContext` that the loop reads. -/
structure SubflowContext where
  config : DSLConfig
  batchSize : ℤ

variable {α : Type} {sfContext : SubflowContext} {batchSize : ℤ}

section
variable {Item : Type} (rt : SubflowRuntime Item) (children : ChildWorkflows) (args : TaskArgs)

/-- `int(value)`. -/
def SubflowRuntime.int : Value → Except Exc ℤ
  | .int n => .ok n
  | .bool b => .ok (if b then 1 else 0)
  | .float q => .ok (q.num.tdiv q.den)
  | .str s => (rt.intOfStr s).elim (.error (raised "ValueError" "invalid literal for int() with base 10")) .ok
  | _ => .error (raised "TypeError" "int() argument must be a string or a real number")

/-- `_evaluate_loop_iterations`, for the items that `for_each` ranges over. -/
def evaluateLoopIterations (dslConfig : DSLConfig) (items : List Item) :
    Except Exc (List Value × OneOrEach DSLConfig) :=
  if MAX_LOOP_ITERATIONS < items.length then
    .error (raised "ApplicationError"
      s!"Loop exceeds max iterations: {items.length} > {MAX_LOOP_ITERATIONS}")
  else do
    let iterations ← items.mapM rt.evalArgs
    let configs := iterations.map fun iteration =>
      DSLConfig.mk (orDefault "" iteration.environment dslConfig.environment)
        (orDefault 0 iteration.timeout dslConfig.timeout)
    .ok (iterations.map IterationArgs.triggerInputs,.of configs)

/-- The end of `_prepare_subflow`: the trigger inputs of all iterations as one stored object. -/
def prepareSubflow (dslConfig : DSLConfig) (items : List Item) : Except Exc PreparedSubflowResult := do
  let (triggerInputs,runtimeConfigs) ← evaluateLoopIterations rt dslConfig items
  .ok ⟨⟨rt.externalization,.list triggerInputs⟩,runtimeConfigs⟩

def resolveSubflowBatch (items : List Item) (batchStart batchSize : ℤ) :
    Except Exc ResolvedSubflowBatch :=
  let batchItems := pySlice items batchStart (batchStart+batchSize)
  if batchItems = [] then
    .error (raised "ApplicationError"
      s!"Empty batch: start={batchStart}, size={batchSize}, total={items.length}")
  else do
    let iterations ← batchItems.mapM rt.evalArgs
    .ok ⟨.of (iterations.map fun iteration => (iteration.environment,iteration.timeout)),
      iterations.map fun iteration => ⟨rt.externalizes iteration.triggerInputs,iteration.triggerInputs⟩⟩

/-- The children come to what is asked of them: a detached one to its id, every other one to a result. -/
def ChildWorkflows.Succeed : Prop :=
  ∀ child, match args.waitStrategy with
    | .ok .detach => ∃ id, children.start child = .ok id
    | _ => ∃ val, children.execute child = .ok val

/-- `_run_child_workflow`: a detached child gives its id, every other one its result. Without a memo none is started. -/
def runChildWorkflow (child : ChildRun) : Except Exc StoredObject :=
  match args.waitStrategy with
  | .error e => .error e
  | .ok .detach => (children.start child).map fun id => ⟨false,.str id⟩
  | .ok .wait => children.execute child

/-- The children of a batch that `_run_child_workflow` gets to start. -/
def startedOf (batch : List ChildRun) : List ChildRun :=
  match args.waitStrategy with
  | .ok _ => batch
  | .error _ => []

def dslExecutionErrorFromException (e : Exc) : Value :=
  .dict [("is_error",.bool true),("type",.str e.typeName),("message",.str e.message)]

/-- What stands for a child in the results: an exception becomes a value. -/
def childResult (child : ChildRun) : StoredObject :=
  match runChildWorkflow children args child with
  | .ok val => val
  | .error e => ⟨false,dslExecutionErrorFromException e⟩

/-- `asyncio.gather` over the children of a batch, under the fail strategy. -/
def gatherBatch (failStrategy : FailStrategy) (batch : List ChildRun) : Except Exc (List StoredObject) :=
  if failStrategy = .all ∧ ∃ child ∈ batch, (runChildWorkflow children args child).toOption = none then
    .error (raised "RuntimeError" "One or more child workflows failed")
  else .ok (batch.map (childResult children args))

/-- A batch with the children that it starts: none when their arguments raise. -/
def startBatch (failStrategy : FailStrategy) (batch : Except Exc (List ChildRun)) :
    List ChildRun × Except Exc (List StoredObject) :=
  match batch with
  | .error e => ([],.error e)
  | .ok batch => (startedOf args batch,gatherBatch children args failStrategy batch)

/-- `iter_run_args` of `_execute_child_workflow_batch_prepared`. -/
def preparedRunArgs (prepared : PreparedSubflowResult) (batchStart batchSize : ℤ) :
    Except Exc (List ChildRun) :=
  (List.range batchSize.toNat).mapM fun i : ℕ => do
    let loopIndex := batchStart+i
    let config ← prepared.getConfig loopIndex
    let triggerInputs ← prepared.getTriggerInputAt loopIndex
    .ok ⟨loopIndex,triggerInputs,config⟩

def executeChildWorkflowBatchPrepared (prepared : PreparedSubflowResult) (failStrategy : FailStrategy)
    (batchStart batchSize : ℤ) : List ChildRun × Except Exc (List StoredObject) :=
  startBatch children args failStrategy (preparedRunArgs prepared batchStart batchSize)

/-- `iter_run_args` of `_execute_child_workflow_batch`. -/
def resolvedRunArgs (sfContext : SubflowContext) (resolvedBatch : ResolvedSubflowBatch) (batchStart : ℤ) :
    Except Exc (List ChildRun) :=
  (List.range resolvedBatch.triggerInputs.length).mapM fun i : ℕ => do
    let config ← resolvedBatch.configs.get i
    let triggerInputs ← (pyIndex resolvedBatch.triggerInputs i).elim (.error listIndexError) .ok
    .ok ⟨batchStart+i,triggerInputs,orDefault "" config.1 sfContext.config.environment,
      orDefault 0 config.2 sfContext.config.timeout⟩

/-- A round of the legacy loop: the arguments of the batch are resolved, then its children run. -/
def executeChildWorkflowBatch (sfContext : SubflowContext) (items : List Item)
    (failStrategy : FailStrategy) (batchStart batchSize : ℤ) :
    List ChildRun × Except Exc (List StoredObject) :=
  startBatch children args failStrategy do
    let resolvedBatch ← resolveSubflowBatch rt items batchStart batchSize
    resolvedRunArgs sfContext resolvedBatch batchStart

/-- `synchronize_collection_object_activity`. -/
def synchronizeCollection (results : List StoredObject) : StoredObject :=
  ⟨rt.externalization,.list (results.map StoredObject.data)⟩

/-- `while batch_start < total_count`, and the collection of its results. -/
def loopBatches (batch : ℤ → ℤ → List ChildRun × Except Exc (List StoredObject))
    (batchSize totalCount : ℤ) (fuel : ℕ) : Option (List ChildRun × Except Exc StoredObject) :=
  (Batches.run batch batchSize totalCount fuel 0 [] []).map fun out =>
    (out.1,out.2.map (synchronizeCollection rt))

def batchSizeOf (loopStrategy : LoopStrategy) (batchSize totalCount : ℤ) : ℤ :=
  match loopStrategy with
  | .sequential => 1
  | .batch => batchSize
  | .parallel => totalCount

/-- What is read before the loop: the fail strategy, the number of iterations and the batch size. -/
def preparedPlan (prepared : PreparedSubflowResult) : Except Exc (FailStrategy × ℤ × ℤ) := do
  let loopStrategy ← args.loopStrategy
  let failStrategy ← args.failStrategy
  let totalCount ← prepared.count
  let batchSize ← rt.int ((args.get "batch_size").getD (.int 32))
  .ok (failStrategy,totalCount,batchSizeOf loopStrategy batchSize totalCount)

/-- `_execute_child_workflow_loop_prepared`: what is started, and the result or what is raised. -/
def executeChildWorkflowLoopPrepared (prepared : PreparedSubflowResult) (fuel : ℕ) :
    Option (List ChildRun × Except Exc StoredObject) :=
  match preparedPlan rt args prepared with
  | .error e => some ([],.error e)
  | .ok (failStrategy,totalCount,batchSize) =>
    loopBatches rt (executeChildWorkflowBatchPrepared children args prepared failStrategy) batchSize
      totalCount fuel

def legacyPlan (sfContext : SubflowContext) (items : List Item) : Except Exc (FailStrategy × ℤ × ℤ) := do
  let loopStrategy ← args.loopStrategy
  let failStrategy ← args.failStrategy
  .ok (failStrategy,items.length,batchSizeOf loopStrategy sfContext.batchSize items.length)

def executeChildWorkflowLoop (sfContext : SubflowContext) (items : List Item) (fuel : ℕ) :
    Option (List ChildRun × Except Exc StoredObject) :=
  match legacyPlan args sfContext items with
  | .error e => some ([],.error e)
  | .ok (failStrategy,totalCount,batchSize) =>
    loopBatches rt (executeChildWorkflowBatch rt children args sfContext items failStrategy) batchSize
      totalCount fuel

def ChildRun.iteration (child : ChildRun) : ℤ × Option Value :=
  (child.loopIndex,some child.runArgs.triggerInputs.data)

def iterationsOf (items : List Item) : List (ℤ × Option Value) :=
  items.mapIdx fun i item => (i,(rt.evalArgs item).toOption.map IterationArgs.triggerInputs)

/-- A loop comes to an end and starts its iterations in order, none of them twice. What it collects are
the results of all iterations, each of the child started for it; and it fails to collect them only where
`FailStrategy.ALL` makes the loop raise for a child that failed. -/
def LoopContract (items : List Item) (loop : ℕ → Option (List ChildRun × Except Exc StoredObject)) :
    Prop :=
  ∃ fuel started result, loop fuel = some (started,result) ∧
    started.map ChildRun.iteration <+: iterationsOf rt items ∧
    (∀ collected, result = .ok collected → started.map ChildRun.iteration = iterationsOf rt items ∧
      collected.data = .list (started.map fun child => (childResult children args child).data)) ∧
    (args.failStrategy = .ok .isolated ∨ children.Succeed args → ∃ collected, result = .ok collected)

/-- The strategies and the batch size are written as such, that of waiting where there is an iteration, and where the batch
size counts, the loop advances. -/
def BatchesAdvance (sfContext : SubflowContext) (n : ℕ) : Prop :=
  ∃ loopStrategy failStrategy batchSize, args.loopStrategy = .ok loopStrategy ∧
    args.failStrategy = .ok failStrategy ∧
    rt.int ((args.get "batch_size").getD (.int 32)) = .ok batchSize ∧
    (n = 0 ∨ ∃ waitStrategy, args.waitStrategy = .ok waitStrategy) ∧
    (loopStrategy = .batch → n = 0 ∨ 1 ≤ batchSize ∧ 1 ≤ sfContext.batchSize)

end

theorem pyIndex_natCast (l : List α) (i : ℕ) : pyIndex l i = l[i]? := by
  rw [pyIndex, if_pos (by omega), Int.toNat_natCast]

theorem pySlice_natCast (l : List α) {a c : ℕ} (h : a+c ≤ l.length) :
    pySlice l a (a+c) = (l.drop a).take c := by
  have hb : (if (a:ℤ)+c < 0 then max 0 (l.length+((a:ℤ)+c)) else min (l.length:ℤ) (a+c)).toNat = a+c := by
    rw [if_neg (by omega)]
    omega
  have ha : (if (a:ℤ) < 0 then max 0 (l.length+(a:ℤ)) else min (l.length:ℤ) a).toNat = a := by
    rw [if_neg (by omega)]
    omega
  unfold pySlice
  simp only [hb, ha]
  rw [List.drop_take, Nat.add_sub_cancel_left]

theorem OneOrEach.get_of [DecidableEq α] {l : List α} {i : ℕ} (h : i < l.length) :
    ∃ a, (OneOrEach.of l).get i = .ok a := by
  cases l with
  | nil => simp at h
  | cons b l =>
    rw [OneOrEach.of]
    split
    · exact ⟨b,rfl⟩
    · refine ⟨(b :: l)[i],?_⟩
      rw [OneOrEach.get, pyIndex_natCast, List.getElem?_eq_getElem h]
      rfl

section
variable {Item : Type} {rt : SubflowRuntime Item} {children : ChildWorkflows} {args : TaskArgs}

theorem prepareSubflow_eq_ok {dslConfig : DSLConfig} {items : List Item}
    {prepared : PreparedSubflowResult} (h : prepareSubflow rt dslConfig items = .ok prepared) :
    ∃ iterations configs, items.mapM rt.evalArgs = .ok iterations ∧ configs.length = items.length ∧
      prepared = ⟨⟨rt.externalization,.list (iterations.map IterationArgs.triggerInputs)⟩,
        .of configs⟩ := by
  obtain ⟨⟨inputs,runtimeConfigs⟩,heval,hp⟩ := bind_eq_ok.mp h
  rw [evaluateLoopIterations] at heval
  split at heval
  · cases heval
  obtain ⟨iterations,hiterations,heq⟩ := bind_eq_ok.mp heval
  have hlen := (mapM_eq_ok.mp hiterations).length_eq
  injection heq with heq
  cases heq
  injection hp with hp
  exact ⟨iterations,_,hiterations,by rw [List.length_map, hlen],hp.symm⟩

theorem count_of_prepareSubflow {dslConfig : DSLConfig} {items : List Item}
    {prepared : PreparedSubflowResult} (h : prepareSubflow rt dslConfig items = .ok prepared) :
    prepared.count = .ok items.length := by
  obtain ⟨iterations,configs,hiterations,_,rfl⟩ := prepareSubflow_eq_ok h
  rw [(mapM_eq_ok.mp hiterations).length_eq]
  exact congrArg _ (List.length_map _)

theorem iterationsOf_getElem? {items : List Item} {iterations : List IterationArgs}
    (h : items.mapM rt.evalArgs = .ok iterations) (i : ℕ) :
    (iterationsOf rt items)[i]? = iterations[i]?.map fun iteration => ((i:ℤ),some iteration.triggerInputs) := by
  have hf := mapM_eq_ok.mp h
  rw [iterationsOf, List.getElem?_mapIdx]
  by_cases hi : i < items.length
  · have hi' : i < iterations.length := by rwa [← hf.length_eq]
    have hget := (List.forall₂_iff_get.mp hf).2 i hi hi'
    simp only [List.get_eq_getElem] at hget
    rw [List.getElem?_eq_getElem hi, List.getElem?_eq_getElem hi', Option.map_some, Option.map_some, hget]
    rfl
  · rw [List.getElem?_eq_none (by omega), List.getElem?_eq_none (by rw [← hf.length_eq]; omega)]
    rfl

theorem length_iterationsOf (items : List Item) : (iterationsOf rt items).length = items.length :=
  List.length_mapIdx

def Gathers (children : ChildWorkflows) (args : TaskArgs) (failStrategy : FailStrategy) : Prop :=
  failStrategy = .isolated ∨ children.Succeed args

theorem runChildWorkflow_eq_ok {waitStrategy : WaitStrategy} (hwait : args.waitStrategy = .ok waitStrategy)
    (h : children.Succeed args) (child : ChildRun) : ∃ val, runChildWorkflow children args child = .ok val := by
  have hchild := h child
  rw [hwait] at hchild
  unfold runChildWorkflow
  rw [hwait]
  cases waitStrategy with
  | detach =>
    obtain ⟨id,hid⟩ := hchild
    exact ⟨_,by rw [hid]; rfl⟩
  | wait => exact hchild

theorem gatherBatch_eq_ok {waitStrategy : WaitStrategy} (hwait : args.waitStrategy = .ok waitStrategy)
    {failStrategy : FailStrategy} {batch : List ChildRun} (h : Gathers children args failStrategy) :
    gatherBatch children args failStrategy batch = .ok (batch.map (childResult children args)) := by
  rw [gatherBatch, if_neg]
  rintro ⟨hall,child,_,hnone⟩
  rcases h with h | h
  · rw [h] at hall
    cases hall
  · obtain ⟨val,hval⟩ := runChildWorkflow_eq_ok hwait h child
    rw [hval] at hnone
    cases hnone

theorem gatherBatch_ok {failStrategy : FailStrategy} {batch : List ChildRun} {results : List StoredObject}
    (h : gatherBatch children args failStrategy batch = .ok results) :
    results = batch.map (childResult children args) := by
  rw [gatherBatch] at h
  split at h
  · cases h
  · injection h with h
    exact h.symm

variable {items : List Item} {failStrategy : FailStrategy}
  {batch : ℤ → ℤ → List ChildRun × Except Exc (List StoredObject)}
variable {iterations : List IterationArgs}

theorem exact_startBatch {runArgs : ℤ → ℤ → Except Exc (List ChildRun)}
    (hbatch : ∀ a c, batch a c = startBatch children args failStrategy (runArgs a c))
    (hwait : items.length = 0 ∨ ∃ waitStrategy, args.waitStrategy = .ok waitStrategy)
    (hargs : ∀ a c : ℕ, 1 ≤ c → a+c ≤ items.length → ∃ cs, runArgs a c = .ok cs ∧
      cs.map ChildRun.iteration = ((iterationsOf rt items).drop a).take c) :
    Batches.Exact batch (iterationsOf rt items) ChildRun.iteration (childResult children args)
      (Gathers children args failStrategy) := by
  intro a c hc hle
  rw [length_iterationsOf] at hle
  obtain ⟨cs,hcs,hmap⟩ := hargs a c hc hle
  obtain ⟨waitStrategy,hwait⟩ : ∃ waitStrategy, args.waitStrategy = .ok waitStrategy :=
    hwait.resolve_left (by omega)
  have hstarted : startedOf args cs = cs := by rw [startedOf, hwait]
  rw [hbatch, hcs, startBatch, hstarted]
  refine ⟨hmap,fun results h => gatherBatch_ok h,?_⟩
  intro hgathers
  exact ⟨_,gatherBatch_eq_ok hwait hgathers⟩

theorem preparedRunArgs_spec {configs : List DSLConfig} {prepared : PreparedSubflowResult}
    (hiterations : items.mapM rt.evalArgs = .ok iterations)
    (hconfigs : configs.length = items.length)
    (hp : prepared = ⟨⟨rt.externalization,.list (iterations.map IterationArgs.triggerInputs)⟩,.of configs⟩)
    {a c : ℕ} (hle : a+c ≤ items.length) : ∃ cs, preparedRunArgs prepared a c = .ok cs ∧
      cs.map ChildRun.iteration = ((iterationsOf rt items).drop a).take c := by
  rw [preparedRunArgs, Int.toNat_natCast]
  apply mapM_range_eq_ok
  intro i hi
  have hlen := (mapM_eq_ok.mp hiterations).length_eq
  have hlt : a+i < iterations.length := by omega
  obtain ⟨config,hconfig⟩ := OneOrEach.get_of (l := configs) (i := a+i) (by omega)
  have hget : prepared.getConfig ((a:ℤ)+i) = .ok config := by
    rw [hp]
    exact_mod_cast hconfig
  have htrigger : prepared.getTriggerInputAt ((a:ℤ)+i) =
      .ok ⟨rt.externalization,iterations[a+i].triggerInputs⟩ := by
    rw [hp, PreparedSubflowResult.getTriggerInputAt]
    simp only [← Nat.cast_add, pyIndex_natCast, List.getElem?_map, List.getElem?_eq_getElem hlt]
    rfl
  refine ⟨⟨(a:ℤ)+i,⟨rt.externalization,iterations[a+i].triggerInputs⟩,config⟩,?_,?_⟩
  · simp only [hget, htrigger]
    rfl
  · rw [iterationsOf_getElem? hiterations, List.getElem?_eq_getElem hlt]
    simp [ChildRun.iteration]

theorem forall₂_slice {f : Item → Except Exc IterationArgs} (h : items.mapM f = .ok iterations)
    (a c : ℕ) : ((items.drop a).take c).mapM f = .ok ((iterations.drop a).take c) :=
  mapM_eq_ok.mpr (List.forall₂_take c (List.forall₂_drop a (mapM_eq_ok.mp h)))

theorem resolveSubflowBatch_spec (hiterations : items.mapM rt.evalArgs = .ok iterations) {a c : ℕ}
    (hc : 1 ≤ c) (hle : a+c ≤ items.length) :
    ∃ configs : List (Option String × Option ℚ), configs.length = c ∧
      resolveSubflowBatch rt items a c = .ok ⟨.of configs,((iterations.drop a).take c).map fun iteration =>
        ⟨rt.externalizes iteration.triggerInputs,iteration.triggerInputs⟩⟩ := by
  have hlen := (mapM_eq_ok.mp hiterations).length_eq
  have hne : (items.drop a).take c ≠ [] := by
    apply List.ne_nil_of_length_pos
    rw [List.length_take, List.length_drop]
    omega
  refine ⟨((iterations.drop a).take c).map fun iteration => (iteration.environment,iteration.timeout),?_,?_⟩
  · rw [List.length_map, List.length_take, List.length_drop]
    omega
  · simp only [resolveSubflowBatch]
    rw [pySlice_natCast items hle, if_neg hne, forall₂_slice hiterations]
    rfl

theorem resolvedRunArgs_spec (sfContext : SubflowContext)
    (hiterations : items.mapM rt.evalArgs = .ok iterations) {a c : ℕ} (hc : 1 ≤ c)
    (hle : a+c ≤ items.length) : ∃ cs, (do
      let resolvedBatch ← resolveSubflowBatch rt items a c
      resolvedRunArgs sfContext resolvedBatch a) = .ok cs ∧
      cs.map ChildRun.iteration = ((iterationsOf rt items).drop a).take c := by
  obtain ⟨configs,hconfigs,hresolved⟩ := resolveSubflowBatch_spec hiterations hc hle
  have hlen := (mapM_eq_ok.mp hiterations).length_eq
  rw [hresolved]
  have hcount : (((iterations.drop a).take c).map fun iteration =>
      StoredObject.mk (rt.externalizes iteration.triggerInputs) iteration.triggerInputs).length = c := by
    rw [List.length_map, List.length_take, List.length_drop]
    omega
  change ∃ cs, resolvedRunArgs sfContext _ a = .ok cs ∧ _
  rw [resolvedRunArgs]
  simp only [hcount]
  apply mapM_range_eq_ok
  intro i hi
  have hlt : a+i < iterations.length := by omega
  obtain ⟨config,hconfig⟩ := OneOrEach.get_of (l := configs) (i := i) (by omega)
  have htrigger : (((iterations.drop a).take c).map fun iteration =>
      StoredObject.mk (rt.externalizes iteration.triggerInputs) iteration.triggerInputs)[i]? =
      some ⟨rt.externalizes iterations[a+i].triggerInputs,iterations[a+i].triggerInputs⟩ := by
    rw [List.getElem?_map, List.getElem?_take_of_lt hi, List.getElem?_drop, List.getElem?_eq_getElem hlt]
    rfl
  refine ⟨⟨(a:ℤ)+i,⟨rt.externalizes iterations[a+i].triggerInputs,iterations[a+i].triggerInputs⟩,
    orDefault "" config.1 sfContext.config.environment,
    orDefault 0 config.2 sfContext.config.timeout⟩,?_,?_⟩
  · simp only [hconfig, pyIndex_natCast, htrigger]
    rfl
  · rw [iterationsOf_getElem? hiterations, List.getElem?_eq_getElem hlt]
    simp [ChildRun.iteration]

theorem loopContract_of_exact (hfail : args.failStrategy = .ok failStrategy)
    (hbatch : Batches.Exact batch (iterationsOf rt items) ChildRun.iteration (childResult children args)
      (Gathers children args failStrategy)) (hsize : items.length = 0 ∨ 1 ≤ batchSize) :
    LoopContract rt children args items (loopBatches rt batch batchSize items.length) := by
  have hgathers : args.failStrategy = .ok .isolated ∨ children.Succeed args → Gathers children args failStrategy := by
    rw [hfail]
    rintro (h | h)
    · injection h with h
      exact .inl h
    · exact .inr h
  have hrun : ∃ fuel started result,
      Batches.run batch batchSize items.length fuel 0 [] [] = some (started,result) ∧
      started.map ChildRun.iteration <+: iterationsOf rt items ∧
      (∀ results, result = .ok results → started.map ChildRun.iteration = iterationsOf rt items ∧
        results = started.map (childResult children args)) ∧
      (Gathers children args failStrategy → ∃ results, result = .ok results) := by
    rcases hsize with hzero | hsize
    · have hnil : iterationsOf rt items = [] :=
        List.eq_nil_of_length_eq_zero (by rw [length_iterationsOf, hzero])
      refine ⟨0,[],.ok [],Batches.run_stop (by omega) _ _,List.nil_prefix,?_,fun _ => ⟨[],rfl⟩⟩
      intro results h
      injection h with h
      exact ⟨hnil.symm,by rw [← h]; rfl⟩
    · have h := Batches.run_exact hbatch hsize (Nat.zero_le _) (Nat.sub_le _ _)
        (show [].map ChildRun.iteration = _ from List.take_zero.symm) rfl
      rw [length_iterationsOf] at h
      obtain ⟨started,result,h⟩ := h
      exact ⟨items.length,started,result,h⟩
  obtain ⟨fuel,started,result,hrun,hpre,hok,hgood⟩ := hrun
  refine ⟨fuel,started,result.map (synchronizeCollection rt),by rw [loopBatches, hrun]; rfl,hpre,?_,?_⟩
  · intro collected h
    cases result with
    | error e => cases h
    | ok results =>
      obtain ⟨hstarted,hresults⟩ := hok results rfl
      injection h with h
      refine ⟨hstarted,?_⟩
      rw [← h, hresults, synchronizeCollection, List.map_map]
      rfl
  · intro h
    obtain ⟨results,hresults⟩ := hgood (hgathers h)
    exact ⟨_,by rw [hresults]; rfl⟩

theorem batchSize_of_loopBatches {totalCount : ℤ} {fuel : ℕ} {started : List ChildRun}
    {collected : StoredObject}
    (h : loopBatches rt batch batchSize totalCount fuel = some (started,.ok collected)) :
    totalCount ≤ 0 ∨ 1 ≤ batchSize := by
  by_contra hneither
  push Not at hneither
  rw [loopBatches, Option.map_eq_some_iff] at h
  obtain ⟨⟨s,result⟩,hrun,hout⟩ := h
  cases result with
  | error e => cases hout
  | ok results => exact Batches.run_ne_ok (by omega) hneither.1 s results hrun

theorem preparedPlan_eq_ok {prepared : PreparedSubflowResult} {plan : FailStrategy × ℤ × ℤ} :
    preparedPlan rt args prepared = .ok plan ↔ ∃ loopStrategy failStrategy totalCount batchSize,
      args.loopStrategy = .ok loopStrategy ∧ args.failStrategy = .ok failStrategy ∧
      prepared.count = .ok totalCount ∧
      rt.int ((args.get "batch_size").getD (.int 32)) = .ok batchSize ∧
      plan = (failStrategy,(totalCount:ℤ),batchSizeOf loopStrategy batchSize totalCount) := by
  simp only [preparedPlan, bind_eq_ok, Except.ok.injEq]
  constructor
  · rintro ⟨l,hl,f,hf,t,ht,b,hb,h⟩
    exact ⟨l,f,t,b,hl,hf,ht,hb,h.symm⟩
  · rintro ⟨l,f,t,b,hl,hf,ht,hb,h⟩
    exact ⟨l,hl,f,hf,t,ht,b,hb,h.symm⟩

theorem legacyPlan_eq_ok {plan : FailStrategy × ℤ × ℤ} :
    legacyPlan args sfContext items = .ok plan ↔ ∃ loopStrategy failStrategy,
      args.loopStrategy = .ok loopStrategy ∧ args.failStrategy = .ok failStrategy ∧
      plan = (failStrategy,(items.length:ℤ),
        batchSizeOf loopStrategy sfContext.batchSize items.length) := by
  simp only [legacyPlan, bind_eq_ok, Except.ok.injEq]
  constructor
  · rintro ⟨l,hl,f,hf,h⟩
    exact ⟨l,f,hl,hf,h.symm⟩
  · rintro ⟨l,f,hl,hf,h⟩
    exact ⟨l,hl,f,hf,h.symm⟩

theorem one_le_batchSizeOf {loopStrategy : LoopStrategy} {n : ℕ}
    (h : loopStrategy = .batch → n = 0 ∨ 1 ≤ batchSize) :
    n = 0 ∨ 1 ≤ batchSizeOf loopStrategy batchSize n := by
  cases loopStrategy with
  | sequential => exact .inr le_rfl
  | batch => exact h rfl
  | parallel =>
    change n = 0 ∨ 1 ≤ (n:ℤ)
    omega

variable {dslConfig : DSLConfig} {prepared : PreparedSubflowResult}

theorem loops_of_advance (h : prepareSubflow rt dslConfig items = .ok prepared)
    (hadvance : BatchesAdvance rt args sfContext items.length) (children : ChildWorkflows) :
    LoopContract rt children args items (executeChildWorkflowLoopPrepared rt children args prepared) ∧
    LoopContract rt children args items (executeChildWorkflowLoop rt children args sfContext items) := by
  obtain ⟨iterations,configs,hiterations,hconfigs,hp⟩ := prepareSubflow_eq_ok h
  obtain ⟨loopStrategy,failStrategy,batchSize,hloop,hfail,hbatch,hwait,hadvance⟩ := hadvance
  have hcount := count_of_prepareSubflow h
  have hprepared := preparedPlan_eq_ok.mpr ⟨_,_,_,_,hloop,hfail,hcount,hbatch,rfl⟩
  have hlegacy : legacyPlan args sfContext items = _ := legacyPlan_eq_ok.mpr ⟨_,_,hloop,hfail,rfl⟩
  constructor
  · have heq : executeChildWorkflowLoopPrepared rt children args prepared = loopBatches rt
        (executeChildWorkflowBatchPrepared children args prepared failStrategy)
        (batchSizeOf loopStrategy batchSize items.length) items.length := by
      funext fuel
      rw [executeChildWorkflowLoopPrepared, hprepared]
    rw [heq]
    apply loopContract_of_exact hfail
    · apply exact_startBatch (fun a c => rfl) hwait
      intro a c _ hle
      exact preparedRunArgs_spec hiterations hconfigs hp hle
    · exact one_le_batchSizeOf fun hl => (hadvance hl).imp_right And.left
  · have heq : executeChildWorkflowLoop rt children args sfContext items = loopBatches rt
        (executeChildWorkflowBatch rt children args sfContext items failStrategy)
        (batchSizeOf loopStrategy sfContext.batchSize items.length) items.length := by
      funext fuel
      rw [executeChildWorkflowLoop, hlegacy]
    rw [heq]
    apply loopContract_of_exact hfail
    · apply exact_startBatch (fun a c => rfl) hwait
      intro a c hc hle
      exact resolvedRunArgs_spec sfContext hiterations hc hle
    · exact one_le_batchSizeOf fun hl => (hadvance hl).imp_right And.right

/-- Children that all come to a result. -/
def succeedingChildren : ChildWorkflows where
  start _ := .ok "child"
  execute _ := .ok ⟨false,.none⟩

theorem succeedingChildren_succeed : succeedingChildren.Succeed args := by
  intro child
  split
  · exact ⟨_,rfl⟩
  · exact ⟨_,rfl⟩

theorem started_eq_nil {e : Exc} (hwait : args.waitStrategy = .error e)
    {prepared : PreparedSubflowResult} {totalCount : ℤ} {fuel : ℕ} {started : List ChildRun}
    {result : Except Exc StoredObject}
    (h : loopBatches rt (executeChildWorkflowBatchPrepared children args prepared failStrategy) batchSize totalCount fuel =
      some (started,result)) : started = [] := by
  have hnil : ∀ a c, (executeChildWorkflowBatchPrepared children args prepared failStrategy a c).1 = [] := by
    intro a c
    unfold executeChildWorkflowBatchPrepared startBatch
    split
    · rfl
    · unfold startedOf
      rw [hwait]
  obtain ⟨⟨s,results⟩,hrun,hout⟩ := Option.map_eq_some_iff.mp h
  rw [← (Prod.mk.inj hout).1]
  exact Batches.run_started_eq hnil hrun

theorem advance_of_loops (h : prepareSubflow rt dslConfig items = .ok prepared)
    (hprepared : LoopContract rt succeedingChildren args items
      (executeChildWorkflowLoopPrepared rt succeedingChildren args prepared))
    (hlegacy : LoopContract rt succeedingChildren args items
      (executeChildWorkflowLoop rt succeedingChildren args sfContext items)) :
    BatchesAdvance rt args sfContext items.length := by
  have hcount := count_of_prepareSubflow h
  obtain ⟨fuel,started,result,hrun,_,hstarted,hok⟩ := hprepared
  obtain ⟨collected,rfl⟩ := hok (.inr succeedingChildren_succeed)
  obtain ⟨fuel',started',result',hrun',_,_,hok'⟩ := hlegacy
  obtain ⟨collected',rfl⟩ := hok' (.inr succeedingChildren_succeed)
  rw [executeChildWorkflowLoopPrepared] at hrun
  rw [executeChildWorkflowLoop] at hrun'
  cases hplan : preparedPlan rt args prepared with
  | error e =>
    rw [hplan] at hrun
    cases hrun
  | ok plan =>
    obtain ⟨loopStrategy,failStrategy,n,batchSize,hloop,hfail,hn,hbatch,rfl⟩ := preparedPlan_eq_ok.mp hplan
    have hnlen : n = items.length := by
      rw [hcount] at hn
      injection hn with hn
      exact hn.symm
    subst hnlen
    have hlegacyPlan : legacyPlan args sfContext items = _ := legacyPlan_eq_ok.mpr ⟨_,_,hloop,hfail,rfl⟩
    rw [hplan] at hrun
    rw [hlegacyPlan] at hrun'
    have hsize := batchSize_of_loopBatches hrun
    have hsize' := batchSize_of_loopBatches hrun'
    refine ⟨loopStrategy,failStrategy,batchSize,hloop,hfail,hbatch,?_,?_⟩
    · cases hwait : args.waitStrategy with
      | ok waitStrategy => exact .inr ⟨waitStrategy,rfl⟩
      | error e =>
        have hall := (hstarted collected rfl).1
        rw [started_eq_nil hwait hrun] at hall
        left
        rw [← @length_iterationsOf _ rt items, ← hall]
        rfl
    · rintro rfl
      simp only [batchSizeOf] at hsize hsize'
      omega

/-- Whatever the children do, both loops keep their contract exactly where the batches advance. -/
theorem subflow_loops_iff (h : prepareSubflow rt dslConfig items = .ok prepared)
    (sfContext : SubflowContext) :
    (∀ children : ChildWorkflows,
      LoopContract rt children args items (executeChildWorkflowLoopPrepared rt children args prepared) ∧
      LoopContract rt children args items (executeChildWorkflowLoop rt children args sfContext items)) ↔
    BatchesAdvance rt args sfContext items.length := by
  constructor
  · intro hloops
    obtain ⟨hprepared,hlegacy⟩ := hloops succeedingChildren
    exact advance_of_loops h hprepared hlegacy
  · intro hadvance children
    exact loops_of_advance h hadvance children

end

/-- A runtime whose items are the trigger inputs of their iterations. -/
def sampleRuntime : SubflowRuntime Value where
  evalArgs item := .ok ⟨none,none,item⟩
  intOfStr _ := none
  externalizes _ := false
  externalization := false

def sampleConfig : DSLConfig := ⟨"default",300⟩

def samplePrepared (items : List Value) : PreparedSubflowResult :=
  ⟨⟨false,.list items⟩,.one sampleConfig⟩

def pairsArgs : TaskArgs := [("batch_size",.int 2),("wait_strategy",.str "detach")]

theorem subflow_loops_of_three :
    LoopContract sampleRuntime succeedingChildren pairsArgs [.int 7,.int 8,.int 9]
      (executeChildWorkflowLoopPrepared sampleRuntime succeedingChildren pairsArgs (samplePrepared [.int 7,.int 8,.int 9])) ∧
    LoopContract sampleRuntime succeedingChildren pairsArgs [.int 7,.int 8,.int 9]
      (executeChildWorkflowLoop sampleRuntime succeedingChildren pairsArgs ⟨sampleConfig,2⟩ [.int 7,.int 8,.int 9]) :=
  (subflow_loops_iff (show prepareSubflow sampleRuntime sampleConfig [.int 7,.int 8,.int 9] =
    .ok (samplePrepared [.int 7,.int 8,.int 9]) from rfl) ⟨sampleConfig,2⟩).mpr
    ⟨.batch,.isolated,2,rfl,rfl,rfl,.inr ⟨.detach,rfl⟩,fun _ => .inr ⟨by decide,by decide⟩⟩ succeedingChildren

/-- With a batch size of zero the prepared loop goes on for ever. -/
theorem zero_batch_never_ends : ∃ prepared,
    prepareSubflow sampleRuntime sampleConfig [.int 7] = .ok prepared ∧
    ∀ fuel, executeChildWorkflowLoopPrepared sampleRuntime succeedingChildren [("batch_size",.int 0)]
      prepared fuel = none := by
  refine ⟨samplePrepared [.int 7],rfl,?_⟩
  have hrun : ∀ fuel, Batches.run (executeChildWorkflowBatchPrepared succeedingChildren
      [("batch_size",.int 0)] (samplePrepared [.int 7]) .isolated) 0 1 fuel 0 [] [] = none := by
    intro fuel
    induction fuel with
    | zero => rfl
    | succ fuel ih =>
      have hb : executeChildWorkflowBatchPrepared succeedingChildren [("batch_size",.int 0)]
          (samplePrepared [.int 7]) .isolated 0 (min 0 (1-0)) = ([],.ok []) := rfl
      rw [Batches.run_ok (by decide) hb]
      exact ih
  intro fuel
  change (Batches.run _ 0 1 fuel 0 [] []).map _ = none
  rw [hrun]
  rfl

end Allama

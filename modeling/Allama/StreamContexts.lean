import Mathlib.Logic.Function.Basic
import Allama.GatherFinalize

/-! Execution contexts of the streams (`DSLScheduler.streams`, `stream_hierarchy`) and what
`DSLWorkflow.execute_task` reads from them and writes to them. -/
namespace Allama

/-- An entry of a gather's in-place list: the sentinel, a stored item, or a raw value of a list
that was finalized before. -/
inductive GatherItem
  | unset
  | stored (item : StoredObject)
  | raw (v : Value)

inductive ResultData
  | object (stored : StoredObject)
  | items (xs : List GatherItem)

inductive ResultError
  | errors (infos : List ActionErrorInfo)
  | raised (exc : Exc)

structure TaskResult where
  result : ResultData
  collectionIndex : Option ℕ := none
  error : Option ResultError := none

/-- `ENV`: the fixed metadata, and the entry `workflow.logical_time`. -/
structure DSLEnvironment where
  metadata : Value
  logicalTime : Option ℤ := none

structure ExecutionContext where
  actions : String → Option TaskResult
  trigger : Option StoredObject
  env : Option DSLEnvironment

/-- `ExecutionContext(ACTIONS={}, TRIGGER=None)`. -/
def ExecutionContext.empty : ExecutionContext := ⟨fun _ => none, none, none⟩

/-- `streams` and `stream_hierarchy`. The root stream's context is `_root_context`. -/
structure Contexts where
  streams : StreamID → Option ExecutionContext
  streamHierarchy : StreamID → Option (Option StreamID)

def Contexts.init (context : ExecutionContext) : Contexts where
  streams := Function.update (fun _ => none) .root (some context)
  streamHierarchy := Function.update (fun _ => none) .root (some none)

/-- A new stream below `base` with its own context. -/
def Contexts.openStream (c : Contexts) (s base : StreamID) (context : ExecutionContext) :
    Contexts where
  streams := Function.update c.streams s (some context)
  streamHierarchy := Function.update c.streamHierarchy s (some (some base))

/-- `context["ACTIONS"][ref] = result` in the context of stream `s`. -/
def Contexts.setAction (c : Contexts) (s : StreamID) (ref : String) (result : TaskResult) :
    Contexts where
  streams := Function.update c.streams s
    ((c.streams s).map fun ctx =>
      { ctx with actions := Function.update ctx.actions ref (some result) })
  streamHierarchy := c.streamHierarchy

/-- The upward search of `get_stream_aware_action_result`; the first argument bounds the
number of streams visited. -/
def Contexts.searchUp (c : Contexts) (ref : String) : ℕ → Option StreamID → Option TaskResult
  | _, none => none
  | 0, some _ => none
  | n+1, some s =>
    match (c.streams s).bind (fun ctx => ctx.actions ref) with
    | some result => some result
    | none => c.searchUp ref n (c.streamHierarchy s).join

def Contexts.getStreamAwareActionResult (c : Contexts) (ref : String) (s : StreamID) :
    Option TaskResult :=
  c.searchUp ref (s.depth+1) (some s)

def Contexts.rootContext (c : Contexts) : ExecutionContext :=
  (c.streams .root).getD .empty

/-- `build_stream_aware_context`: a copy of the root context in which `ACTIONS` holds what the
statement's expressions refer to. -/
def Contexts.buildStreamAwareContext (c : Contexts) (stmt : ActionStatement) (s : StreamID) :
    ExecutionContext :=
  { c.rootContext with
    actions := fun ref =>
      if ref ∈ stmt.actionRefs then c.getStreamAwareActionResult ref s else none }

/-- `_run_action` writes the current logical time into the `ENV` mapping of its context, which
is the mapping of the root context. -/
def Contexts.setLogicalTime (c : Contexts) (time : ℤ) : Contexts :=
  { c with
    streams := Function.update c.streams .root
      ((c.streams .root).map fun ctx =>
        { ctx with env := ctx.env.map fun env => { env with logicalTime := some time } }) }

def Exc.ofType (typeName message : String) : Exc := ⟨typeName, message, .absent⟩

def Exc.keyError (key : String) : Exc := .ofType "KeyError" key

/-- The results of the activities, child workflows and timers a workflow awaits, as functions of
the task instance, the attempt and the operand that is sent. -/
structure Activities where
  evaluateRunIf : Task → String → ExecutionContext → Except Exc Bool
  handleScatterInput : Task → Value → ExecutionContext → Except Exc (List Value)
  evaluateItems : Task → String → ExecutionContext → Except Exc StoredObject
  /-- A failure of `finalize_gather_activity` outside its own code, such as its storage. -/
  finalizeFailure : Task → Option Exc
  noopGatherAction : Task → Except Exc Unit
  handleTimers : Task → ℕ → Except Exc Unit
  prepareSubflow : Task → ℕ → ExecutionContext → Except Exc Value
  /-- The child workflow (or the loop of them); a single one is given the context its
  `trigger_inputs` are evaluated in. -/
  runChildWorkflow : Task → ℕ → Value → Option ExecutionContext → Except Exc StoredObject
  executeAction : Task → ℕ → ExecutionContext → Except Exc StoredObject
  evaluateRetryUntil : Task → ℕ → String → ExecutionContext → Except Exc Bool
  computeLogicalTime : Task → ℕ → ℤ
  resultExternalizationEnabled : Bool
  parseInt : String → Option ℤ

/-- Where `execute_task` is suspended, with the result it will be resumed with. -/
inductive ExecPc
  | timers (attempt : ℕ) (result : Except Exc Unit)
  | prepare (attempt : ℕ) (result : Except Exc Value)
  | action (attempt : ℕ) (result : Except Exc StoredObject)
  | retryUntil (attempt : ℕ) (result : Except Exc Bool)

/-- How a stretch of `execute_task` between two awaits ends: suspended again, returned, or
raised. -/
inductive ExecEnd
  | await (pc : ExecPc)
  | returned
  | raised (exc : Exc)

def ActionStatement.hasTimers (stmt : ActionStatement) : Bool :=
  stmt.waitUntil.any (fun w => w ≠ "") || decide (0 < stmt.startDelay)

section
variable (A : Activities)

/-- The `match task.action` of `_execute_task`, up to its first await. -/
def beginAction (stmt : ActionStatement) (t : Task) (attempt : ℕ) (c : Contexts) :
    Contexts × ExecEnd :=
  match stmt.action with
  | .childWorkflowExecute =>
    match c.streams t.streamId with
    | none => (c, .raised (.keyError t.streamId.render))
    | some operand => (c, .await (.prepare attempt (A.prepareSubflow t attempt operand)))
  | .aiAgent | .aiPresetAgent =>
    (c, .await (.action attempt
      (A.executeAction t attempt (c.buildStreamAwareContext stmt t.streamId))))
  | _ =>
    let c := c.setLogicalTime (A.computeLogicalTime t attempt)
    (c, .await (.action attempt
      (A.executeAction t attempt (c.buildStreamAwareContext stmt t.streamId))))

/-- `_execute_task` up to its first await. -/
def beginTask (stmt : ActionStatement) (t : Task) (attempt : ℕ) (c : Contexts) :
    Contexts × ExecEnd :=
  if stmt.hasTimers then (c, .await (.timers attempt (A.handleTimers t attempt)))
  else beginAction A stmt t attempt c

/-- The `finally` of `_execute_task` writes the result under the stream of the task. -/
def finishAction (t : Task) (result : TaskResult) (ending : ExecEnd) (c : Contexts) :
    Contexts × ExecEnd :=
  match c.streams t.streamId with
  | none => (c, .raised (.keyError t.streamId.render))
  | some _ => (c.setAction t.streamId t.ref result, ending)

def raiseAction (t : Task) (exc : Exc) (c : Contexts) : Contexts × ExecEnd :=
  finishAction t { result := .object ⟨false, .none⟩, error := some (.raised exc) } (.raised exc) c

/-- `_execute_task_until_condition`, after an attempt that succeeded: the result goes into
`self.context`, the root context, and the condition is evaluated against it. -/
def beginRetryUntil (t : Task) (attempt : ℕ) (retryUntil : String) (result : TaskResult)
    (c : Contexts) : Contexts × ExecEnd :=
  let c := c.setAction .root t.ref result
  (c, .await (.retryUntil attempt (A.evaluateRetryUntil t attempt retryUntil c.rootContext)))

/-- `execute_task` from one await to the next. -/
def resumeTask (stmt : ActionStatement) (t : Task) (pc : ExecPc) (c : Contexts) :
    Contexts × ExecEnd :=
  match pc with
  | .timers _ (.error exc) => raiseAction t exc c
  | .timers attempt (.ok _) =>
    match beginAction A stmt t attempt c with
    | (c, .raised exc) => raiseAction t exc c
    | (c, ending) => (c, ending)
  | .prepare _ (.error exc) => raiseAction t exc c
  | .prepare attempt (.ok prepared) =>
    if stmt.forEach = [] then
      match c.streams t.streamId with
      | none => raiseAction t (.keyError t.streamId.render) c
      | some operand =>
        (c, .await (.action attempt (A.runChildWorkflow t attempt prepared (some operand))))
    else (c, .await (.action attempt (A.runChildWorkflow t attempt prepared none)))
  | .action _ (.error exc) => raiseAction t exc c
  | .action attempt (.ok stored) =>
    let result : TaskResult := { result := .object stored }
    match stmt.retryUntil with
    | none => finishAction t result .returned c
    | some retryUntil =>
      match finishAction t result .returned c with
      | (c, .returned) => beginRetryUntil A t attempt retryUntil result c
      | (c, ending) => (c, ending)
  | .retryUntil _ (.error exc) => (c, .raised exc)
  | .retryUntil _ (.ok true) => (c, .returned)
  | .retryUntil attempt (.ok false) =>
    match beginTask A stmt t (attempt+1) c with
    | (c, .raised exc) => raiseAction t exc c
    | (c, ending) => (c, ending)

/-- `execute_task` up to its first await. -/
def executeTask (stmt : ActionStatement) (t : Task) (c : Contexts) : Contexts × ExecEnd :=
  match beginTask A stmt t 0 c with
  | (c, .raised exc) => raiseAction t exc c
  | (c, ending) => (c, ending)

end
end Allama

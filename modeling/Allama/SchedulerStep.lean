import Allama.SchedulerState

/-! `_schedule_task` with its handlers, and the loop of `start`, as steps between two awaits.
`await queue.put(..)` on the unbounded queue never suspends, so `_queue_tasks` is atomic. -/
namespace Allama

/-- How a stretch of `_schedule_task` between two awaits ends. -/
inductive BlockEnd
  | await (pc : Pc)
  | done (outcome : Outcome)
  | raised (exc : Exc)

def applicationError (message : String) : Exc := .ofType "ApplicationError" message

def Task.repr (t : Task) : String :=
  "Task(ref='" ++ t.ref ++ "', stream_id='" ++ t.streamId.render ++ "', delay=0.0)"

def indexError : Exc := .ofType "IndexError" "list assignment index out of range"

def ActionErrorInfo.ofMessage (t : Task) (exc : Exc) (message : String) : ActionErrorInfo :=
  .mk t.ref message exc.typeName .actions 1 (.str t.streamId.render) none

def jsonSuffix (intro : String) (json : Option String) : String :=
  match json with
  | some text => intro ++ text
  | none => "Couldn't parse error details as json."

/-- The error info `_handle_error_path` keeps for a failure without error edges. -/
def errorInfo (t : Task) (exc : Exc) : ActionErrorInfo :=
  match exc.details with
  | .absent => .ofMessage t exc exc.message
  | .notDict json => .ofMessage t exc
      ("Application error details are not a dictionary." ++ jsonSuffix "\nGot: " json)
  | .info (.ok info) _ => info
  | .info (.error e) json => .ofMessage t exc
      ("Failed to parse regular application error details: " ++ e ++ "." ++ jsonSuffix "\n" json)
  | .childWorkflow (.ok info) _ => info
  | .childWorkflow (.error _) json => .ofMessage t exc
      ("Child workflow error details are not a dictionary." ++ jsonSuffix "\nGot: " json)

/-- `get_data()[idx] = item` on a gather's entry. -/
def TaskResult.setItem (r : TaskResult) (idx : ℕ) (item : GatherItem) : Except Exc TaskResult :=
  match r.result with
  | .items xs =>
    if idx < xs.length then .ok { r with result := .items (xs.set idx item) }
    else .error indexError
  | .object ⟨true, _⟩ => .error (.ofType "ValueError" "Cannot get data from ExternalObject.")
  | .object ⟨false, .list vs⟩ =>
    if idx < vs.length then .ok { r with result := .items ((vs.map .raw).set idx item) }
    else .error indexError
  | .object ⟨false, _⟩ => .error (.ofType "TypeError" "object does not support item assignment")

/-- The loop over `task_result.get_data()`: unset slots are dropped, items are validated as
stored objects. -/
def storedItems : List GatherItem → Except Exc (List StoredObject)
  | [] => .ok []
  | .unset :: xs => storedItems xs
  | .stored item :: xs => (storedItems xs).map (item :: ·)
  | .raw _ :: _ => .error (.ofType "ValidationError" "not a StoredObject")

def TaskResult.items (r : TaskResult) : Except Exc (List GatherItem) :=
  match r.result with
  | .items xs => .ok xs
  | .object ⟨true, _⟩ => .error (.ofType "ValueError" "Cannot get data from ExternalObject.")
  | .object ⟨false, .list vs⟩ => .ok (vs.map .raw)
  | .object ⟨false, _⟩ => .error (.ofType "TypeError" "object is not iterable")

section
variable (A : Activities) (dsl : DSLInput)

def State.queueTasks (st : State) (caller t : Task) (delay : ℚ) (unreachable : List DSLEdge) :
    State :=
  { st with flow := Allama.queueTasks dsl caller t delay unreachable st.flow }

def State.context (st : State) (s : StreamID) : Option ExecutionContext := st.contexts.streams s

def handleErrorPath (st : State) (t : Task) (exc : Exc) : State :=
  let nonErrEdges := dsl.outEdges t (fun type => type ≠ .error)
  if nonErrEdges.length < (dsl.adj t.ref).length then st.queueTasks dsl t t 0 nonErrEdges
  else
    let info : TaskExceptionInfo := ⟨exc, errorInfo t exc⟩
    if t.streamId = .root then
      { st with taskExceptions := st.taskExceptions.insert t.ref info }
    else
      let st := { st with
        streamExceptions := Function.update st.streamExceptions t.streamId (some info) }
      st.queueTasks dsl t t 0 (dsl.outEdges t fun _ => true)

def handleSuccessPath (st : State) (t : Task) : State :=
  st.queueTasks dsl t t 0 (dsl.outEdges t fun type => type ≠ .success)

def handleScatterSkipStream (st : State) (t : Task) : State :=
  let newStream := StreamID.child t.streamId t.ref .skip
  let st := { st with contexts := st.contexts.openStream newStream t.streamId .empty }
  let skipTask : Task := ⟨t.ref, newStream⟩
  st.queueTasks dsl t skipTask 0 (dsl.outEdges skipTask fun _ => true)

/-- The body of the loop of `_handle_scatter` for index `i`, up to the sleep of
`cooperative`. -/
def openExecutionStream (st : State) (t : Task) (args : ScatterArgs) (collection : List Value)
    (i : ℕ) : State :=
  let newStream := StreamID.child t.streamId t.ref (.item i)
  let item : TaskResult :=
    { result := .object ⟨A.resultExternalizationEnabled, .list collection⟩
      collectionIndex := some i }
  let context : ExecutionContext :=
    { ExecutionContext.empty with
      actions := Function.update ExecutionContext.empty.actions t.ref (some item) }
  let st := { st with
    taskStreams := Function.update st.taskStreams t (st.taskStreams t ++ [newStream])
    contexts := st.contexts.openStream newStream t.streamId context }
  st.queueTasks dsl t ⟨t.ref, newStream⟩ (i*args.interval.getD 0) []

/-- `_handle_scatter` up to its activity. -/
def handleScatter (st : State) (t : Task) (stmt : ActionStatement) : State × BlockEnd :=
  match stmt.args.scatter, st.context t.streamId with
  | none, _ => (st, .raised (.ofType "ValidationError" "ScatterArgs"))
  | some _, none => (st, .raised (.keyError t.streamId.render))
  | some args, some operand =>
    (st, .await (.scatterInput (A.handleScatterInput t args.collection operand)))

/-- `_handle_scatter` once the collection is there. -/
def scatterCollection (st : State) (t : Task) (stmt : ActionStatement)
    (collection : List Value) : State × BlockEnd :=
  let st := { st with taskStreams := Function.update st.taskStreams t [] }
  if collection.length = 0 then
    let st := { st with openStreams := Function.update st.openStreams t (some 0) }
    (handleScatterSkipStream dsl st t, .done .emptied)
  else
    (openExecutionStream A dsl st t (stmt.args.scatter.getD ⟨.none, none⟩) collection 0,
      .await (.scattering collection 1))

/-- The loop of `_handle_scatter` after a sleep. -/
def scatterNext (st : State) (t : Task) (stmt : ActionStatement) (collection : List Value)
    (opened : ℕ) : State × BlockEnd :=
  if opened < collection.length then
    (openExecutionStream A dsl st t (stmt.args.scatter.getD ⟨.none, none⟩) collection opened,
      .await (.scattering collection (opened+1)))
  else
    ({ st with
        openStreams := Function.update st.openStreams t (some (st.taskStreams t).length) },
      .done .scattered)

/-- `_get_parent_stream_id_safe`. -/
def State.parentStreamId (st : State) (t : Task) (s : StreamID) : Except Exc StreamID :=
  match st.contexts.streamHierarchy s with
  | none => .error (.keyError s.render)
  | some none => .error (.ofType "RuntimeError"
      ("Invalid state: Gather encountered in skip stream with no parent stream for task " ++
        t.repr ++ " (stream_id='" ++ s.render ++ "')."))
  | some (some parent) => .ok parent

/-- `self.open_streams[parent_scatter] -= 1` by the gather instance `t`; `none` is a
`KeyError`. -/
def State.closeStream (st : State) (t parentScatter : Task) (outcome : StreamOutcome) :
    Option State :=
  match st.openStreams parentScatter with
  | none => none
  | some n => some { st with
      openStreams := Function.update st.openStreams parentScatter (some (n-1))
      closed := st.closed ++ [(t, outcome)] }

def State.unsetSlots (st : State) (parentScatter : Task) : TaskResult :=
  { result := .items (List.replicate (st.taskStreams parentScatter).length .unset) }

/-- Store an item in the slot of a gather in the parent stream, which the first stream
creates. -/
def State.setSlot (st : State) (ref : String) (parent : StreamID) (parentScatter : Task)
    (idx : ℕ) (item : StoredObject) : Except Exc State :=
  match st.context parent with
  | none => .error (.keyError parent.render)
  | some ctx =>
    match ((ctx.actions ref).getD (st.unsetSlots parentScatter)).setItem idx (.stored item) with
    | .error exc => .error exc
    | .ok result => .ok { st with contexts := st.contexts.setAction parent ref result }

/-- `_handle_gather_result` up to its first activity. -/
def handleGatherResult (st : State) (t : Task) (parent : StreamID) (args : GatherArgs) :
    State × BlockEnd :=
  match st.context parent with
  | none => (st, .raised (.keyError parent.render))
  | some ctx =>
    let taskResult := (ctx.actions t.ref).getD { result := .items [] }
    let st := { st with contexts := st.contexts.setAction parent t.ref taskResult }
    match taskResult.items.bind storedItems with
    | .error exc => (st, .raised exc)
    | .ok items =>
      let finalized := match A.finalizeFailure t with
        | some exc => .error exc
        | none =>
          let (results, errors) := finalizeGather A.parseInt (items.map StoredObject.data)
            args.dropNulls args.errorStrategy
          .ok (⟨A.resultExternalizationEnabled, .list results⟩, errors)
      (st, .await (.gatherFinalize taskResult finalized))

/-- The message of the error of a gather whose strategy is `raise`. -/
def gatherErrorMessage (ref : String) (errors : List ActionErrorInfo) : String :=
  "Gather '" ++ ref ++ "' encountered " ++ toString errors.length ++ " error(s)"

def gatherError (ref : String) (parent : StreamID) (errors : List ActionErrorInfo) :
    ActionErrorInfo :=
  .mk ref (gatherErrorMessage ref errors) "ApplicationError" .actions 1 (.str parent.render)
    (some errors)

/-- The exception of that gather: its details are `{ref: gather_error}`. -/
def gatherException (ref : String) (parent : StreamID) (errors : List ActionErrorInfo) : Exc :=
  ⟨"ApplicationError", gatherErrorMessage ref errors,
    .childWorkflow (.ok (gatherError ref parent errors)) none⟩

/-- `_handle_gather_result` after `finalize_gather_activity`. -/
def gatherFinalized (st : State) (t : Task) (parent : StreamID) (args : GatherArgs)
    (taskResult : TaskResult) (stored : StoredObject) (errors : List ActionErrorInfo) :
    State × BlockEnd :=
  if args.errorStrategy = .raise ∧ errors ≠ [] then
    let exc := gatherException t.ref parent errors
    ({ st with
        taskExceptions := st.taskExceptions.insert t.ref ⟨exc, gatherError t.ref parent errors⟩ },
      .raised exc)
  else
    match st.context parent with
    | none => (st, .raised (.keyError parent.render))
    | some _ =>
      let result : TaskResult := { taskResult with
        result := .object stored
        error := if errors = [] then taskResult.error else some (.errors errors) }
      ({ st with contexts := st.contexts.setAction parent t.ref result },
        .await (.gatherNoop (A.noopGatherAction ⟨t.ref, parent⟩)))

/-- `_handle_gather_skip_stream`, after the stream of `t` is closed. -/
def handleGatherSkipStream (st : State) (t : Task) (stmt : ActionStatement)
    (parent : StreamID) (idx : ℕ) : State × BlockEnd :=
  let parentScatter : Task := ⟨t.streamId.leaf.1, parent⟩
  let slotted := match st.streamExceptions t.streamId with
    | some info => st.setSlot t.ref parent parentScatter idx ⟨false, info.details.dump⟩
    | none => .ok st
  match slotted with
  | .error exc => (st, .raised exc)
  | .ok st =>
    if st.openStreams parentScatter = some 0 then
      match stmt.args.gather with
      | none => (st, .raised (.ofType "ValidationError" "GatherArgs"))
      | some args => handleGatherResult A st t parent args
    else (st, .done .closed)

def State.skippedOutcome (st : State) (s : StreamID) : StreamOutcome :=
  match st.streamExceptions s with
  | some info => .error info
  | none => .skipped

/-- `_handle_gather` up to its first await. -/
def handleGather (st : State) (t : Task) (stmt : ActionStatement) (isSkipping : Bool) :
    State × BlockEnd :=
  if t.streamId = .root then (st, .raised (.ofType "RuntimeError"
    (if isSkipping then "We are skipping but we should be in a skip stream"
      else "Found gather in root stream but not skipping: " ++ t.repr ++
        ". User has probably made a mistake")))
  else
    match st.parentStreamId t t.streamId with
    | .error exc => (st, .raised exc)
    | .ok parent =>
      let parentScatter : Task := ⟨t.streamId.leaf.1, parent⟩
      match t.streamId.leaf.2 with
      | .skip =>
        if (st.openStreams parentScatter).isSome then
          (st, .await (.gatherSkipStream (match A.finalizeFailure t with
            | some exc => .error exc
            | none => .ok ())))
        else (st.queueTasks dsl t t 0 (dsl.outEdges t fun _ => true), .done .skipped)
      | .item idx =>
        if isSkipping then
          match st.closeStream t parentScatter (st.skippedOutcome t.streamId) with
          | none => (st, .raised (.keyError parentScatter.ref))
          | some st => handleGatherSkipStream A st t stmt parent idx
        else
          match stmt.args.gather, st.context t.streamId with
          | none, _ => (st, .raised (.ofType "ValidationError" "GatherArgs"))
          | some _, none => (st, .raised (.keyError t.streamId.render))
          | some args, some operand =>
            (st, .await (.gatherItems (A.evaluateItems t args.items operand)))

/-- `_handle_gather` in a skip stream whose scatter was observed, after its activity: the
result is the empty collection. -/
def gatherSkipped (st : State) (t : Task) : State × BlockEnd :=
  match st.parentStreamId t t.streamId with
  | .error exc => (st, .raised exc)
  | .ok parent =>
    match st.context parent with
    | none => (st, .raised (.keyError parent.render))
    | some _ =>
      let result : TaskResult := { result := .object ⟨A.resultExternalizationEnabled, .list []⟩ }
      let st := { st with contexts := st.contexts.setAction parent t.ref result }
      (st.queueTasks dsl t ⟨t.ref, parent⟩ 0 [], .done .published)

/-- `_handle_gather` in an execution stream, once its item is there. -/
def gatherItem (st : State) (t : Task) (stmt : ActionStatement) (item : StoredObject) :
    State × BlockEnd :=
  match st.parentStreamId t t.streamId, t.streamId.leaf.2, stmt.args.gather with
  | .ok parent, .item idx, some args =>
    let parentScatter : Task := ⟨t.streamId.leaf.1, parent⟩
    match st.closeStream t parentScatter (.value item) with
    | none => (st, .raised (.keyError parentScatter.ref))
    | some st =>
      match st.setSlot t.ref parent parentScatter idx item with
      | .error exc => (st, .raised exc)
      | .ok st =>
        if st.openStreams parentScatter = some 0 then handleGatherResult A st t parent args
        else (st, .done .closed)
  | .error exc, _, _ => (st, .raised exc)
  | _, _, _ => (st, .raised (.ofType "TypeError" "list indices must be integers"))

/-- `_handle_gather_result` after the no-op activity of the gather. -/
def gatherPublished (st : State) (t : Task) : State × BlockEnd :=
  match st.parentStreamId t t.streamId with
  | .error exc => (st, .raised exc)
  | .ok parent => (st.queueTasks dsl t ⟨t.ref, parent⟩ 0 [], .done .published)

def handleSkipPath (st : State) (t : Task) (stmt : ActionStatement) : State × BlockEnd :=
  match stmt.action with
  | .transformScatter => (handleScatterSkipStream dsl st t, .done .skipped)
  | .transformGather => handleGather A dsl st t stmt true
  | _ => (st.queueTasks dsl t t 0 (dsl.outEdges t fun _ => true), .done .skipped)

/-- What follows a stretch of `execute_task`: on success `_handle_success_path`. -/
def afterExecute (st : State) (t : Task) (c : Contexts) : ExecEnd → State × BlockEnd
  | .await pc => ({ st with contexts := c }, .await (.executing pc))
  | .returned => (handleSuccessPath dsl { st with contexts := c } t, .done .success)
  | .raised exc => ({ st with contexts := c }, .raised exc)

/-- The dispatch of `_schedule_task` on the action type. -/
def dispatch (st : State) (t : Task) (stmt : ActionStatement) : State × BlockEnd :=
  match stmt.action with
  | .transformScatter => handleScatter A st t stmt
  | .transformGather => handleGather A dsl st t stmt false
  | _ =>
    let (c, ending) := executeTask A stmt t st.contexts
    afterExecute dsl st t c ending

/-- `_schedule_task` past the `run_if` check. -/
def afterRunIf (st : State) (t : Task) (stmt : ActionStatement) (delay : ℚ) :
    State × BlockEnd :=
  if 0 < delay then (st, .await .sleeping) else dispatch A dsl st t stmt

/-- The start of `_schedule_task`: skip propagation, reachability, `run_if`. -/
def begin (st : State) (t : Task) (stmt : ActionStatement) (delay : ℚ) : State × BlockEnd :=
  if st.flow.skipShouldPropagate t stmt then handleSkipPath A dsl st t stmt
  else if !st.flow.isReachable t stmt then
    (st, .raised (.ofType "TaskUnreachable" ("Task " ++ t.repr ++ " is unreachable")))
  else
    match stmt.runIf with
    | some runIf => (st, .await (.runIf delay
        (A.evaluateRunIf t runIf (st.contexts.buildStreamAwareContext stmt t.streamId))))
    | none => afterRunIf A dsl st t stmt delay

/-- `_schedule_task` from one await to the next. -/
def block (st : State) (t : Task) (stmt : ActionStatement) : Pc → State × BlockEnd
  | .created delay => begin A dsl st t stmt delay
  | .runIf _ (.error exc) =>
    (st, .raised (applicationError ("Error evaluating `run_if` condition: " ++ exc.message)))
  | .runIf _ (.ok false) => handleSkipPath A dsl st t stmt
  | .runIf delay (.ok true) => afterRunIf A dsl st t stmt delay
  | .sleeping => dispatch A dsl st t stmt
  | .scatterInput (.error exc) => (st, .raised exc)
  | .scatterInput (.ok collection) => scatterCollection A dsl st t stmt collection
  | .scattering collection opened => scatterNext A dsl st t stmt collection opened
  | .gatherSkipStream (.error exc) => (st, .raised exc)
  | .gatherSkipStream (.ok _) => gatherSkipped A dsl st t
  | .gatherItems (.error exc) =>
    (st, .raised (applicationError
      ("Error evaluating `items` expression in `core.transform.gather`: " ++ exc.message)))
  | .gatherItems (.ok item) => gatherItem A st t stmt item
  | .gatherFinalize _ (.error exc) => (st, .raised exc)
  | .gatherFinalize taskResult (.ok (stored, errors)) =>
    match st.parentStreamId t t.streamId, stmt.args.gather with
    | .ok parent, some args => gatherFinalized A st t parent args taskResult stored errors
    | .error exc, _ => (st, .raised exc)
    | _, none => (st, .raised (.ofType "ValidationError" "GatherArgs"))
  | .gatherNoop (.error exc) => (st, .raised exc)
  | .gatherNoop (.ok _) => gatherPublished dsl st t
  | .executing pc =>
    let (c, ending) := resumeTask A stmt t pc st.contexts
    afterExecute dsl st t c ending

/-- `_schedule_task`'s `try`, `except` and `finally` around a block. -/
def State.finish (st : State) (t : Task) : BlockEnd → State
  | .await pc => { st with flow := st.flow.await t pc }
  | .done outcome => { st with flow := st.flow.complete t outcome }
  | .raised exc =>
    let st := handleErrorPath dsl st t exc
    { st with flow := st.flow.complete t (.failed exc) }

def resume (st : State) (t : Task) (pc : Pc) : State :=
  let (st, ending) := block A dsl st t (dsl.task t.ref) pc
  st.finish dsl t ending

/-- A choice of the event loop: the main coroutine takes an instance from the queue, or a
suspended instance goes on. -/
inductive Choice
  | dequeue
  | resume (t : Task)
deriving DecidableEq

def dequeue (st : State) : Option State :=
  match st.flow.queue with
  | [] => none
  | (t, delay) :: queue =>
    if st.taskExceptions.keys = [] then
      some { st with
        flow := { st.flow with
          queue := queue
          pending := st.flow.pending.insert t (.created delay)
          scheduled := st.flow.scheduled ++ [t] } }
    else none

def step (st : State) : Choice → Option State
  | .dequeue => dequeue st
  | .resume t => (st.flow.pending.lookup t).map (resume A dsl st t)

/-- What `start` returns in a state where its loop ends: the exceptions, or `None` when queue
and coroutines are used up. The outer `none` is a loop that goes on. -/
def startResult (st : State) : Option (Option (AList fun _ : String => TaskExceptionInfo)) :=
  if st.taskExceptions.keys = [] then
    if st.flow.queue = [] ∧ st.flow.pending.keys = [] then some none else none
  else some (some st.taskExceptions)

end
end Allama

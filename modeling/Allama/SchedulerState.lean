import Mathlib.Data.List.AList
import Mathlib.Data.List.Sort
import Mathlib.Data.String.Basic
import Mathlib.Data.Finset.Insert
import Allama.StreamContexts

/-! The mutable state of `DSLScheduler` and `_queue_tasks`. -/
namespace Allama

/-- Where a coroutine of `_schedule_task` is suspended, with the result of the awaited activity
where there is one. -/
inductive Pc
  | created (delay : ℚ)
  | runIf (delay : ℚ) (result : Except Exc Bool)
  | sleeping
  | scatterInput (result : Except Exc (List Value))
  | scattering (collection : List Value) (opened : ℕ)
  | gatherSkipStream (result : Except Exc Unit)
  | gatherItems (result : Except Exc StoredObject)
  | gatherFinalize (taskResult : TaskResult)
      (result : Except Exc (StoredObject × List ActionErrorInfo))
  | gatherNoop (result : Except Exc Unit)
  | executing (pc : ExecPc)

/-- How a task instance ended. -/
inductive Outcome
  | success
  | skipped
  | failed (exc : Exc)
  | scattered
  | emptied
  | closed
  | published

/-- Queue, coroutines, counters and markers. The last three fields are a history of what the
source logs; no function reads them. -/
structure Flow where
  queue : List (Task × ℚ)
  pending : AList (fun _ : Task => Pc)
  indegrees : Task → Option ℤ
  completedTasks : Finset Task
  edges : DSLEdge → EdgeMarker
  /-- The instances taken from the queue. -/
  scheduled : List Task
  /-- The calls of `_queue_tasks`: its argument and the instance whose coroutine calls it. -/
  queued : List (Task × Task)
  outcomes : Task → Option Outcome

/-- How an execution stream reaches the gather: with an item, skipped, or with the exception of
the stream. -/
inductive StreamOutcome
  | value (item : StoredObject)
  | skipped
  | error (info : TaskExceptionInfo)

def StreamOutcome.slot : StreamOutcome → GatherItem
  | .value item => .stored item
  | .skipped => .unset
  | .error info => .stored ⟨false, info.details.dump⟩

/-- `closed` is history too: the gather instances that closed their execution stream, in the order
in which they did, with how it reached them. -/
structure State where
  flow : Flow
  contexts : Contexts
  taskStreams : Task → List StreamID
  openStreams : Task → Option ℤ
  taskExceptions : AList (fun _ : String => TaskExceptionInfo)
  streamExceptions : StreamID → Option TaskExceptionInfo
  closed : List (Task × StreamOutcome)

/-- `self.tasks[ref]`. -/
def DSLInput.task (dsl : DSLInput) (ref : String) : ActionStatement :=
  (dsl.actions.find? (fun a => a.ref = ref)).getD { ref := ref, action := .udf "" }

def adjSortKey (a b : AdjDst) : Prop :=
  a.1 < b.1 ∨ (a.1 = b.1 ∧ a.2.value ≤ b.2.value)

instance : DecidableRel adjSortKey := fun a b => by unfold adjSortKey; infer_instance

/-- `adj_temp[ref]` before it is sorted. -/
def DSLInput.adjSet (dsl : DSLInput) (ref : String) : List AdjDst :=
  (dsl.actions.flatMap fun task =>
    (task.deps.filter (fun d => d.1 = ref)).map fun d => (task.ref, d.2)).dedup

/-- `self.adj[ref]`: the outgoing edges of an action, sorted. -/
def DSLInput.adj (dsl : DSLInput) (ref : String) : List AdjDst :=
  (dsl.adjSet ref).insertionSort adjSortKey

/-- The `DSLEdge`s out of an instance whose type satisfies `p`. -/
def DSLInput.outEdges (dsl : DSLInput) (t : Task) (p : EdgeType → Bool) : List DSLEdge :=
  ((dsl.adj t.ref).filter (fun d => p d.2)).map fun d => ⟨t.ref, d.1, d.2, t.streamId⟩

section
variable (dsl : DSLInput)

def Flow.indegree (f : Flow) (t : Task) : ℤ :=
  (f.indegrees t).getD (dsl.task t.ref).dependsOn.length

def markEdge (edge : DSLEdge) (marker : EdgeMarker) (f : Flow) : Flow :=
  { f with edges := Function.update f.edges edge marker }

/-- One iteration of the loop of `_queue_tasks`. -/
def queueNext (t : Task) (delay : ℚ) (unreachable : List DSLEdge) (f : Flow) (next : AdjDst) :
    Flow :=
  let edge : DSLEdge := ⟨t.ref, next.1, next.2, t.streamId⟩
  let f := markEdge edge (if edge ∈ unreachable then .skipped else .visited) f
  let nextTask : Task := ⟨next.1, t.streamId⟩
  let indegree := f.indegree dsl nextTask-1
  let f := { f with indegrees := Function.update f.indegrees nextTask (some indegree) }
  if indegree = 0 then { f with queue := f.queue ++ [(nextTask, delay)] } else f

/-- `_queue_tasks(t, unreachable)`, called from the coroutine of `caller`. -/
def queueTasks (caller t : Task) (delay : ℚ) (unreachable : List DSLEdge) (f : Flow) : Flow :=
  (dsl.adj t.ref).foldl (queueNext dsl t delay unreachable)
    { f with queued := f.queued ++ [(t, caller)] }

/-- The source's edges of a `depends_on` entry. -/
def edgeByRefs (src : AdjDst) (dst : String) (s : StreamID) : DSLEdge := ⟨src.1, dst, src.2, s⟩

def Flow.edgeHasMarker (f : Flow) (marker : EdgeMarker) (t : Task) (src : AdjDst) : Bool :=
  f.edges (edgeByRefs src t.ref t.streamId) = marker

/-- `_is_reachable`. With one dependency the join strategy is ignored. -/
def Flow.isReachable (f : Flow) (t : Task) (stmt : ActionStatement) : Bool :=
  match stmt.deps with
  | [] => true
  | [dep] => f.edgeHasMarker .visited t dep
  | deps =>
    let nSuccessPaths := deps.countP (f.edgeHasMarker .visited t)
    match stmt.joinStrategy with
    | .any => decide (0 < nSuccessPaths)
    | .all => decide (nSuccessPaths = deps.length)

def Flow.skipShouldPropagate (f : Flow) (t : Task) (stmt : ActionStatement) : Bool :=
  match stmt.deps with
  | [] => false
  | deps => deps.all (f.edgeHasMarker .skipped t)

/-- The coroutine of `t` is suspended again. -/
def Flow.await (f : Flow) (t : Task) (pc : Pc) : Flow :=
  { f with pending := f.pending.insert t pc }

/-- The `finally` of `_schedule_task`. -/
def Flow.complete (f : Flow) (t : Task) (outcome : Outcome) : Flow :=
  { f with
    pending := f.pending.erase t
    completedTasks := insert t f.completedTasks
    outcomes := Function.update f.outcomes t (some outcome) }

/-- The state `start` begins with: `__init__`, and the instances without dependencies queued. -/
def Flow.init : Flow where
  queue := (dsl.actions.filter (fun a => a.dependsOn.length = 0)).map fun a => (⟨a.ref, .root⟩, 0)
  pending := ∅
  indegrees := fun t =>
    if t.streamId = .root ∧ t.ref ∈ dsl.actions.map ActionStatement.ref then
      some (dsl.task t.ref).dependsOn.length
    else none
  completedTasks := ∅
  edges := fun _ => .pending
  scheduled := []
  queued := []
  outcomes := fun _ => none

def State.init (context : ExecutionContext) : State where
  flow := Flow.init dsl
  contexts := .init context
  taskStreams := fun _ => []
  openStreams := fun _ => none
  taskExceptions := ∅
  streamExceptions := fun _ => none
  closed := []

end
end Allama

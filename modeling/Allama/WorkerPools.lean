import Allama.Runs
import Mathlib.Data.List.Nodup
import Mathlib.Data.Nat.Notation

/-! The pool of warm workers (`executor/backends/pool/pool.py`): calls of `execute` that share the slots of the workers. -/
namespace Allama
namespace WorkerPools

structure WorkerInfo where
  worker_id : ℕ
  /-- Whether its process has no return code. -/
  running : Bool := true
  active_tasks : ℕ := 0
  tasks_completed : ℕ := 0
  recycling : Bool := false
deriving DecidableEq, Repr

/-- The workers by reference: `workers` is the list of the pool, `objects` are all that were created, `created` is their number. -/
structure Pool where
  workers : List ℕ
  objects : ℕ → WorkerInfo
  created : ℕ
  next_worker_index : ℕ

structure Config where
  max_tasks_per_worker : ℕ
  max_concurrent_per_worker : ℕ

/-- Where a call of `execute` awaits. -/
inductive Phase
  | acquiring
  | executing (worker : ℕ)
  | releasing (worker : ℕ)
  | terminating (worker : ℕ)
  | killing (worker : ℕ)
  | spawning (worker : ℕ)
  | replacing (worker : ℕ) (spawned : Bool)
  | done
deriving DecidableEq, Repr

/-- A call, with the number of times that it acquired and released a slot. -/
structure Call where
  phase : Phase
  acquired : ℕ := 0
  released : ℕ := 0
deriving DecidableEq, Repr

/-- How an await of a call ends. -/
inductive Event
  | acquire
  /-- The time for acquiring is over. -/
  | giveUp
  /-- The task is over, whatever its outcome. -/
  | finish
  | release
  | terminated
  | timeout
  /-- The process to be terminated or killed is not there (`ProcessLookupError`). -/
  | noProcess
  | killed
  | spawn (succeeds : Bool)
  | replace
  | cancel
deriving DecidableEq, Repr

def Pool.change (worker : ℕ) (f : WorkerInfo → WorkerInfo) (pool : Pool) : Pool :=
  { pool with objects := fun w => if w = worker then f (pool.objects w) else pool.objects w }

section Acquire
variable (config : Config) (pool : Pool)

/-- The workers that are alive, are not being recycled and have a free slot. -/
def availableWorkers : List ℕ :=
  pool.workers.filter fun w => (pool.objects w).running && !(pool.objects w).recycling &&
    decide ((pool.objects w).active_tasks < config.max_concurrent_per_worker)

/-- Of the available workers with the least load one in turn. -/
def selectWorker : Option ℕ :=
  ((availableWorkers config pool).map fun w => (pool.objects w).active_tasks).min?.bind fun min_load =>
    let candidates := (availableWorkers config pool).filter fun w => (pool.objects w).active_tasks == min_load
    candidates[pool.next_worker_index % candidates.length]?

def acquireWorker (worker : ℕ) : Pool :=
  { pool.change worker fun info => { info with active_tasks := info.active_tasks + 1 } with
    next_worker_index := (pool.next_worker_index + 1) % pool.workers.length }

end Acquire

/-- `max(0, active_tasks - 1)`, and one more completed task. -/
def WorkerInfo.completed (info : WorkerInfo) : WorkerInfo :=
  { info with active_tasks := info.active_tasks - 1, tasks_completed := info.tasks_completed + 1 }

def forceRelease (worker : ℕ) (pool : Pool) : Pool := pool.change worker WorkerInfo.completed

def shouldRecycle (config : Config) (info : WorkerInfo) : Bool :=
  decide (config.max_tasks_per_worker ≤ info.tasks_completed) && info.active_tasks == 0 && !info.recycling

/-- `_release_worker` up to the recycling of the worker. -/
def releaseWorker (config : Config) (worker : ℕ) (pool : Pool) : Pool × Bool :=
  let recycle := shouldRecycle config (pool.objects worker).completed
  (pool.change worker fun info => { info.completed with recycling := info.recycling || recycle },recycle)

/-- The end of `_recycle_worker`: the old worker is replaced in the list, or removed from it. -/
def replaceWorker (worker : ℕ) (spawned : Bool) (pool : Pool) : Pool :=
  if spawned then
    { pool with
      workers := pool.workers.replace worker pool.created
      objects := fun w => if w = pool.created then { worker_id := (pool.objects worker).worker_id } else pool.objects w
      created := pool.created + 1 }
  else { pool with workers := pool.workers.erase worker }

def exited (worker : ℕ) (pool : Pool) : Pool := pool.change worker fun info => { info with running := false }

/-- A call proceeds. A task is released whatever its outcome, a cancellation of the release releases it as well, and an
exception of the recycling passes. -/
def advance (config : Config) (pool : Pool) (call : Call) (event : Event) : Option (Pool × Call) :=
  match call.phase, event with
  | .acquiring, .acquire =>
    match selectWorker config pool with
    | none => some (pool,call)
    | some worker =>
      some (acquireWorker pool worker,{ call with phase := .executing worker, acquired := call.acquired + 1 })
  | .acquiring, .giveUp | .acquiring, .cancel => some (pool,{ call with phase := .done })
  | .executing worker, .finish | .executing worker, .cancel => some (pool,{ call with phase := .releasing worker })
  | .releasing worker, .release =>
    let (pool,recycle) := releaseWorker config worker pool
    some (pool,{ call with phase := if recycle then .terminating worker else .done, released := call.released + 1 })
  | .terminating worker, .terminated => some (exited worker pool,{ call with phase := .spawning worker })
  | .terminating worker, .timeout => some (pool,{ call with phase := .killing worker })
  | .killing worker, .killed => some (exited worker pool,{ call with phase := .spawning worker })
  | .terminating worker, .noProcess | .killing worker, .noProcess =>
    if (pool.objects worker).running then none else some (pool,{ call with phase := .done })
  | .spawning worker, .spawn succeeds => some (pool,{ call with phase := .replacing worker succeeds })
  | .replacing worker spawned, .replace => some (replaceWorker worker spawned pool,{ call with phase := .done })
  | .releasing worker, .cancel | .terminating worker, .cancel | .killing worker, .cancel | .spawning worker, .cancel
  | .replacing worker _, .cancel =>
    some (forceRelease worker pool,{ call with phase := .done, released := call.released + 1 })
  | _, _ => none

structure State where
  pool : Pool
  calls : List Call

inductive Action
  | start
  | event (call : ℕ) (event : Event)
  /-- A process of a worker exits by itself. -/
  | crash (worker : ℕ)
deriving DecidableEq, Repr

def next (config : Config) (state : State) : Action → Option State
  | .start => some { state with calls := state.calls ++ [{ phase := .acquiring }] }
  | .event i event =>
    state.calls[i]?.bind fun call => (advance config state.pool call event).map fun result =>
      ⟨result.1,state.calls.set i result.2⟩
  | .crash worker => some { state with pool := exited worker state.pool }

/-- A started pool, with the workers that could be spawned. -/
def started (ids : List ℕ) : State where
  pool :=
    { workers := List.range ids.length
      objects := fun w => { worker_id := ids.getD w 0 }
      created := ids.length
      next_worker_index := 0 }
  calls := []

end WorkerPools
end Allama

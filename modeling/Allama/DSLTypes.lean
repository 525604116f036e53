import Mathlib.Data.Rat.Defs
import Mathlib.Algebra.Order.Ring.Rat

/-! The data of `allama/dsl/{enums,types,schemas,common}.py` that the scheduler reads. -/
namespace Allama

inductive EdgeType
  | success
  | error
deriving DecidableEq, Repr

def EdgeType.value : EdgeType → String
  | .success => "success"
  | .error => "error"

inductive EdgeMarker
  | pending
  | visited
  | skipped
deriving DecidableEq, Repr

inductive JoinStrategy
  | any
  | all
deriving DecidableEq, Repr

inductive StreamErrorHandlingStrategy
  | partition
  | include
  | drop
  | raise
deriving DecidableEq, Repr

/-- The action types the scheduler and `_execute_task` branch on; `udf` is every other key. -/
inductive PlatformAction
  | childWorkflowExecute
  | transformScatter
  | transformGather
  | aiAgent
  | aiPresetAgent
  | udf (key : String)
deriving DecidableEq, Repr

/-- The index of a `StreamID` segment: a position in the collection or the skip token. -/
inductive StreamIndex
  | item (i : ℕ)
  | skip
deriving DecidableEq, Repr

/-- `StreamID`, split at its separators: `root` is `ROOT_STREAM` (`<root>:0`) and
`child base scope index` is the string `base/scope:index`. -/
inductive StreamID
  | root
  | child (base : StreamID) (scope : String) (index : StreamIndex)
deriving DecidableEq, Repr

def rootScope : String := "<root>"

def StreamIndex.render : StreamIndex → String
  | .item i => toString i
  | .skip => "skip"

/-- The string the source keeps. -/
def StreamID.render : StreamID → String
  | .root => rootScope ++ ":0"
  | .child base scope index => base.render ++ "/" ++ scope ++ ":" ++ index.render

def StreamID.leaf : StreamID → String × StreamIndex
  | .root => (rootScope, .item 0)
  | .child _ scope index => (scope, index)

/-- `stream_id.endswith(":skip")`. -/
def StreamID.isSkip (s : StreamID) : Bool := s.leaf.2 = .skip

def StreamID.depth : StreamID → ℕ
  | .root => 0
  | .child base _ _ => base.depth+1

/-- A stream-aware task instance. The source's `delay` takes no part in its equality
(`compare=False`); it is kept beside the task in the queue. -/
structure Task where
  ref : String
  streamId : StreamID
deriving DecidableEq, Repr

structure DSLEdge where
  src : String
  dst : String
  type : EdgeType
  streamId : StreamID
deriving DecidableEq, Repr

/-- A JSON value. -/
inductive Value
  | none
  | bool (b : Bool)
  | int (n : ℤ)
  | float (q : ℚ)
  | str (s : String)
  | list (xs : List Value)
  | dict (entries : List (String × Value))

mutual

def Value.same : Value → Value → Bool
  | .none, .none => true
  | .bool a, .bool b => a == b
  | .int a, .int b => a == b
  | .float a, .float b => a == b
  | .str a, .str b => a == b
  | .list xs, .list ys => sameValues xs ys
  | .dict xs, .dict ys => sameEntries xs ys
  | _, _ => false

def sameValues : List Value → List Value → Bool
  | [], [] => true
  | x :: xs, y :: ys => x.same y && sameValues xs ys
  | _, _ => false

def sameEntries : List (String × Value) → List (String × Value) → Bool
  | [], [] => true
  | (k,x) :: xs, (l,y) :: ys => k == l && x.same y && sameEntries xs ys
  | _, _ => false

end

mutual

theorem Value.same_iff (a b : Value) : a.same b = true ↔ a = b := by
  cases a with
  | list xs =>
    cases b with
    | list ys => rw [Value.same, sameValues_iff, Value.list.injEq]
    | _ => simp [Value.same]
  | dict xs =>
    cases b with
    | dict ys => rw [Value.same, sameEntries_iff, Value.dict.injEq]
    | _ => simp [Value.same]
  | _ => cases b <;> simp [Value.same]

theorem sameValues_iff (xs ys : List Value) : sameValues xs ys = true ↔ xs = ys := by
  cases xs with
  | nil => cases ys <;> simp [sameValues]
  | cons x xs =>
    cases ys with
    | nil => simp [sameValues]
    | cons y ys => rw [sameValues, Bool.and_eq_true, Value.same_iff, sameValues_iff, List.cons.injEq]

theorem sameEntries_iff (xs ys : List (String × Value)) : sameEntries xs ys = true ↔ xs = ys := by
  cases xs with
  | nil => cases ys <;> simp [sameEntries]
  | cons x xs =>
    cases ys with
    | nil => simp [sameEntries]
    | cons y ys =>
      rw [sameEntries, Bool.and_eq_true, Bool.and_eq_true, Value.same_iff, sameEntries_iff, beq_iff_eq,
        List.cons.injEq, Prod.ext_iff]

end

instance : DecidableEq Value := fun a b => decidable_of_iff _ (Value.same_iff a b)

/-- `StoredObject`: an inline value, or a handle to a value in blob storage. `data` is what
`ObjectStorage.retrieve` gives back. -/
structure StoredObject where
  external : Bool
  data : Value

inductive ExprContext
  | actions
  | secrets
  | vars
  | fn
  | env
  | trigger
  | localVars
  | templateActionInputs
  | templateActionSteps
deriving DecidableEq, Repr

def ExprContext.value : ExprContext → String
  | .actions => "ACTIONS"
  | .secrets => "SECRETS"
  | .vars => "VARS"
  | .fn => "FN"
  | .env => "ENV"
  | .trigger => "TRIGGER"
  | .localVars => "var"
  | .templateActionInputs => "inputs"
  | .templateActionSteps => "steps"

def ExprContext.all : List ExprContext :=
  [.actions, .secrets, .vars, .fn, .env, .trigger, .localVars, .templateActionInputs,
    .templateActionSteps]

/-- `ActionErrorInfo`; `stream_id` is untyped at run time (`StreamID = Any`). -/
inductive ActionErrorInfo
  | mk (ref message type : String) (exprContext : ExprContext) (attempt : ℤ)
      (streamId : Value) (children : Option (List ActionErrorInfo))

/-- What `exc.details[0]` of an exception turns out to be when the error path looks at it.
`json` is the result of `to_json`, `none` where that raises. -/
inductive ErrorDetails
  | absent
  | notDict (json : Option String)
  | info (parsed : Except String ActionErrorInfo) (json : Option String)
  | childWorkflow (parsed : Except String ActionErrorInfo) (json : Option String)

structure Exc where
  typeName : String
  message : String
  details : ErrorDetails

structure TaskExceptionInfo where
  exception : Exc
  details : ActionErrorInfo

structure ScatterArgs where
  collection : Value
  interval : Option ℚ := none

structure GatherArgs where
  items : String
  dropNulls : Bool := false
  errorStrategy : StreamErrorHandlingStrategy := .partition

/-- `ActionStatement.args` as the scheduler uses it: what `ScatterArgs(**args)` and
`GatherArgs(**args)` give, `none` where pydantic rejects the mapping. -/
structure ActionArgs where
  scatter : Option ScatterArgs := none
  gather : Option GatherArgs := none

/-- `expressions` lists, for each field of `model_dump()`, the refs that
`extract_expressions` finds under `ACTIONS`; `forEach` is empty where `for_each` is falsy. -/
structure ActionStatement where
  ref : String
  action : PlatformAction
  args : ActionArgs := {}
  dependsOn : List String := []
  runIf : Option String := none
  forEach : List String := []
  retryUntil : Option String := none
  startDelay : ℚ := 0
  waitUntil : Option String := none
  joinStrategy : JoinStrategy := .all
  expressions : List (String × List String) := []

structure DSLConfig where
  environment : String
  timeout : ℚ
deriving DecidableEq

structure DSLInput where
  actions : List ActionStatement

/-- The refs of `extract_expressions(task.model_dump())[ExprContext.ACTIONS]`. -/
def ActionStatement.actionRefs (stmt : ActionStatement) : List String :=
  stmt.expressions.flatMap Prod.snd

abbrev AdjDst := String × EdgeType

/-- `edge_components_from_dep`; `none` is its `ValueError`. -/
def edgeComponentsFromDep (depRef : String) : Option AdjDst :=
  match depRef.toList.span (· ≠ '.') with
  | (src, []) => some (String.ofList src, .success)
  | (src, _ :: path) =>
    if path = EdgeType.success.value.toList then some (String.ofList src, .success)
    else if path = EdgeType.error.value.toList then some (String.ofList src, .error)
    else none

/-- The `depends_on` entries of an action, parsed. -/
def ActionStatement.deps (stmt : ActionStatement) : List AdjDst :=
  stmt.dependsOn.filterMap edgeComponentsFromDep

example : edgeComponentsFromDep "a" = some ("a", .success) ∧
    edgeComponentsFromDep "a.error" = some ("a", .error) ∧
    edgeComponentsFromDep "a.skip" = none := by decide

end Allama

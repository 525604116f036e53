import Mathlib.Logic.Function.Basic
import Mathlib.Data.List.Dedup
import Allama.SchedulerState

/-! `DSLInput.validate_structure` (`allama/dsl/common.py`). -/
namespace Allama

/-- The errors of `validate_structure`, with what their texts name. -/
inductive DSLError
  | noActions
  | duplicateRefs (refs : List String)
  | noEntrypoints
  | invalidDependsOnRef (dep ref : String)
  | invalidDependsOnRefs (invalid valid : List String)
  | unknownAction (ref field dep : String)
  | moreGathers
  | multipleScopes (ref old new : String)
  | gatherInRootScope (ref : String)
  | cycle
  | scatterEdge (ref dep : String)
  | gatherEdge (ref dep : String)
  | scopeEdge (ref dep : String)
  | scatterExpression (ref field dep : String)
  | gatherExpression (ref field dep : String)
  | scopeExpression (ref field dep : String)
deriving DecidableEq

/-- `{text!r}` for a text without quotes and escapes. -/
def quoted (text : String) : String := "'" ++ text ++ "'"

def setRepr (refs : List String) : String := "\x7b" ++ ", ".intercalate (refs.map quoted) ++ "\x7d"

def DSLError.message : DSLError → String
  | .noActions => "At least one action must be defined."
  | .duplicateRefs refs =>
    "All action references (the action title in snake case) must be unique. Duplicate refs: " ++
      ", ".intercalate (refs.map quoted)
  | .noEntrypoints => "No entrypoints found"
  | .invalidDependsOnRef dep ref =>
    "Invalid depends_on ref: " ++ quoted dep ++ " in action " ++ quoted ref
  | .invalidDependsOnRefs invalid valid =>
    "Invalid depends_on refs in actions: " ++ setRepr invalid ++ ". Valid actions: " ++
      setRepr valid
  | .unknownAction ref field dep => "Action '" ++ ref ++ "' has an expression in field '" ++
      field ++ "' that references unknown action '" ++ dep ++ "'"
  | .moreGathers => "There are more gather actions than scatter actions."
  | .multipleScopes ref old new => "Action " ++ quoted ref ++
      " cannot belong to multiple scopes: already in " ++ quoted old ++ ", trying to assign to " ++
      quoted new
  | .gatherInRootScope ref =>
    "You cannot use a gather action " ++ quoted ref ++ " in the root scope"
  | .cycle => "Cycle detected in scatter-gather workflow"
  | .scatterEdge ref dep => "Scatter action '" ++ ref ++ "' has an edge from '" ++ dep ++
      "', which isn't the parent scope"
  | .gatherEdge ref dep => "Gather action '" ++ ref ++ "' has an edge from '" ++ dep ++
      "', which isn't the child scope"
  | .scopeEdge ref dep => "Action '" ++ ref ++ "' has an edge from '" ++ dep ++
      "', which is in a different scatter-gather scope"
  | .scatterExpression ref field dep => "Scatter action '" ++ ref ++
      "' has an expression in field '" ++ field ++ "' that references '" ++ dep ++
      "', which isn't the parent scope"
  | .gatherExpression ref field dep => "Gather action '" ++ ref ++
      "' has an expression in field '" ++ field ++ "' that references '" ++ dep ++
      "', which isn't the child scope"
  | .scopeExpression ref field dep => "Action '" ++ ref ++ "' has an expression in field '" ++
      field ++ "' that references '" ++ dep ++ "' which cannot be referenced from this scope"

def DSLInput.refs (dsl : DSLInput) : List String := dsl.actions.map ActionStatement.ref

/-- `SLUG_PATTERN`, which the field `ref` is declared with. -/
def isSlug (ref : String) : Bool :=
  !ref.toList.isEmpty && ref.toList.all fun c =>
    (decide ('a' ≤ c) && decide (c ≤ 'z')) || (decide ('0' ≤ c) && decide (c ≤ '9')) || c == '_'

def key2loc (key : String) : String := if key = "args" then "inputs" else key

/-- The state of the loop of `_assign_action_scopes`; `visited` are the `n_visited` refs taken
from the queue. -/
structure ScopeState where
  scopes : String → Option String
  scopeHierarchy : String → Option (Option String)
  indegrees : String → ℤ
  queue : List (String × String)
  visited : List String

section
variable (dsl : DSLInput)

/-- `_to_adjacency`, an entry for each `depends_on` entry. -/
def DSLInput.adjacency (ref : String) : List String :=
  dsl.actions.flatMap fun a => (a.deps.filter (fun d => d.1 = ref)).map fun _ => a.ref

def ScopeState.init : ScopeState where
  scopes := fun _ => none
  scopeHierarchy := Function.update (fun _ => none) rootScope (some none)
  indegrees := fun ref => (dsl.task ref).dependsOn.length
  queue := (dsl.actions.filter (fun a => a.dependsOn.length = 0)).map fun a => (a.ref, rootScope)
  visited := []

def assignScope (actionRef scope : String) (st : ScopeState) : Except DSLError ScopeState :=
  match st.scopes actionRef with
  | none => .ok { st with scopes := Function.update st.scopes actionRef (some scope) }
  | some old => if old = scope then .ok st else .error (.multipleScopes actionRef old scope)

/-- The scope transition at an action taken from the queue; it gives `next_scope`. -/
def enterScope (ref currScope : String) (st : ScopeState) :
    Except DSLError (ScopeState × String) :=
  match (dsl.task ref).action with
  | .transformScatter =>
    (assignScope ref ref st).map fun st =>
      ({ st with
          scopeHierarchy := Function.update st.scopeHierarchy ref (some (some currScope)) }, ref)
  | .transformGather =>
    match (st.scopeHierarchy currScope).join with
    | none => .error (.gatherInRootScope ref)
    | some nextScope => (assignScope ref nextScope st).map fun st => (st, nextScope)
  | _ => (assignScope ref currScope st).map fun st => (st, currScope)

/-- Count an edge down and queue its target once all its edges are counted. -/
def releaseNext (nextScope : String) (st : ScopeState) (nextRef : String) : ScopeState :=
  let indegree := st.indegrees nextRef-1
  { st with
    indegrees := Function.update st.indegrees nextRef indegree
    queue := if indegree = 0 then st.queue ++ [(nextRef, nextScope)] else st.queue }

/-- The `while queue` loop; the first argument bounds its iterations. -/
def scopeLoop : ℕ → ScopeState → Except DSLError ScopeState
  | 0, st => .ok st
  | n+1, st =>
    match st.queue with
    | [] => .ok st
    | (ref, currScope) :: queue =>
      match enterScope dsl ref currScope
          { st with queue := queue, visited := st.visited ++ [ref] } with
      | .error e => .error e
      | .ok (st, nextScope) =>
        scopeLoop n ((dsl.adjacency ref).foldl (releaseNext nextScope) st)

/-- `_assign_action_scopes`. Every ref is queued once, so the loop ends within the bound. -/
def assignActionScopes : Except DSLError ScopeState :=
  match scopeLoop dsl dsl.actions.length (.init dsl) with
  | .error e => .error e
  | .ok st => if st.visited.length ≠ dsl.actions.length then .error .cycle else .ok st

/-- Walk up the scopes from `scope`, looking for `target`. -/
def isAncestorScope (st : ScopeState) (target : String) : ℕ → Option String → Bool
  | _, none => false
  | 0, some scope => target = scope
  | n+1, some scope =>
    if target = scope then true else isAncestorScope st target n (st.scopeHierarchy scope).join

/-- The check of one `depends_on` entry in `_validate_scope_dependencies`. -/
def checkEdge (st : ScopeState) (action : ActionStatement) (dep : String) :
    Except DSLError Unit :=
  let actionScope := (st.scopes action.ref).getD rootScope
  let depScope := ((edgeComponentsFromDep dep).bind fun d => st.scopes d.1).getD rootScope
  match action.action with
  | .transformScatter =>
    if some depScope ≠ (st.scopeHierarchy actionScope).join then
      .error (.scatterEdge action.ref dep) else .ok ()
  | .transformGather =>
    if some actionScope ≠ (st.scopeHierarchy depScope).join then
      .error (.gatherEdge action.ref dep) else .ok ()
  | _ => if depScope ≠ actionScope then .error (.scopeEdge action.ref dep) else .ok ()

/-- The check of one reference of an expression there. -/
def checkExpression (st : ScopeState) (action : ActionStatement) (key dep : String) :
    Except DSLError Unit :=
  let actionScope := (st.scopes action.ref).getD rootScope
  let depScope := (st.scopes dep).getD rootScope
  match action.action with
  | .transformScatter =>
    if some depScope ≠ (st.scopeHierarchy actionScope).join then
      .error (.scatterExpression action.ref (key2loc key) dep) else .ok ()
  | .transformGather =>
    if some actionScope ≠ (st.scopeHierarchy depScope).join then
      .error (.gatherExpression action.ref (key2loc key) dep) else .ok ()
  | _ =>
    if isAncestorScope st depScope dsl.actions.length (some actionScope) then .ok ()
    else .error (.scopeExpression action.ref (key2loc key) dep)

def validateScopeDependencies (st : ScopeState) : Except DSLError Unit :=
  dsl.actions.forM fun action => do
    action.dependsOn.forM (checkEdge st action)
    (action.expressions.filter (fun e => e.1 ≠ "depends_on")).forM fun e =>
      e.2.forM (checkExpression dsl st action e.1)

def validateScatterGatherScopes : Except DSLError Unit :=
  let scatterActions := dsl.actions.filter (fun a => a.action = .transformScatter)
  let gatherActions := dsl.actions.filter (fun a => a.action = .transformGather)
  if scatterActions.length < gatherActions.length then .error .moreGathers
  else if scatterActions = [] then .ok ()
  else assignActionScopes dsl >>= validateScopeDependencies dsl

def allActionExpressionsValid : Except DSLError Unit :=
  dsl.actions.forM fun action => action.expressions.forM fun e => e.2.forM fun dep =>
    if dep ∈ dsl.refs then .ok () else .error (.unknownAction action.ref (key2loc e.1) dep)

def validDependsOn : Except DSLError Unit :=
  dsl.actions.forM fun a => a.dependsOn.forM fun dep =>
    if (edgeComponentsFromDep dep).isSome then .ok () else .error (.invalidDependsOnRef dep a.ref)

def validateStructure : Except DSLError Unit :=
  if dsl.actions = [] then .error .noActions
  else if dsl.refs.dedup.length ≠ dsl.actions.length then
    .error (.duplicateRefs (dsl.refs.eraseDups.filter (fun r => 1 < dsl.refs.count r)))
  else if (dsl.actions.filter (fun a => a.dependsOn.length = 0)).length = 0 then
    .error .noEntrypoints
  else do
    validDependsOn dsl
    let invalidDeps := ((dsl.actions.flatMap fun a => a.deps.map Prod.fst).dedup).filter
      (fun d => d ∉ dsl.refs)
    if invalidDeps ≠ [] then throw (.invalidDependsOnRefs invalidDeps dsl.refs)
    allActionExpressionsValid dsl
    validateScatterGatherScopes dsl

/-- The inputs a `DSLInput` object holds: its refs match their pattern, and
`validate_structure` accepts them. -/
def DSLInput.Accepted : Prop :=
  (∀ r ∈ dsl.refs, isSlug r) ∧ validateStructure dsl = .ok ()

instance : Decidable dsl.Accepted := by
  unfold DSLInput.Accepted; infer_instance

end
end Allama

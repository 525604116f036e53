import Allama.DependencySets
import Allama.Expressions
import Allama.GraphEdges

/-! A workflow made from a DSL and the DSL built from a workflow (`workflow/management/management.py`,
`dsl/common.py`): the records, the rows, and what goes from one to the other. -/
namespace Allama

def JoinStrategy.value : JoinStrategy → String
  | .any => "any"
  | .all => "all"

def PlatformAction.ofKey (key : String) : PlatformAction :=
  if key = "core.workflow.execute" then .childWorkflowExecute
  else if key = "core.transform.scatter" then .transformScatter
  else if key = "core.transform.gather" then .transformGather
  else if key = "ai.agent" then .aiAgent
  else if key = "ai.preset_agent" then .aiPresetAgent
  else .udf key

/-- `bool(value)`. -/
def Value.truthy : Value → Bool
  | .none => false
  | .bool b => b
  | .int n => n ≠ 0
  | .float q => q ≠ 0
  | .str s => s ≠ ""
  | .list vs => !vs.isEmpty
  | .dict es => !es.isEmpty

mutual

/-- The texts among the nodes of a value, the keys of its dicts included (`traverse_nodes`). -/
def Value.strings : Value → List String
  | .str s => [s]
  | .list vs => itemStrings vs
  | .dict es => entryStrings es
  | _ => []

def itemStrings : List Value → List String
  | [] => []
  | v :: vs => v.strings ++ itemStrings vs

def entryStrings : List (String × Value) → List String
  | [] => []
  | (k,v) :: es => k :: v.strings ++ entryStrings es

end

mutual

/-- The value with the keys of every dict in order. -/
def Value.sortKeys : Value → Value
  | .list vs => .list (sortItems vs)
  | .dict es => .dict ((sortEntries es).mergeSort fun e e' => decide (e.1 ≤ e'.1))
  | v => v

def sortItems : List Value → List Value
  | [] => []
  | v :: vs => v.sortKeys :: sortItems vs

def sortEntries : List (String × Value) → List (String × Value)
  | [] => []
  | (k,v) :: es => (k,v.sortKeys) :: sortEntries es

end

/-- `==`, for which the order of a dict's keys does not count. -/
def Value.Same (v w : Value) : Prop := v.sortKeys = w.sortKeys

/-- `STANDALONE_TEMPLATE.match(template) is not None`. -/
def isStandaloneTemplate (template : Text) : Bool :=
  -- `$` also matches before a newline at the end
  let line := if template.getLast? = some '\n' then template.dropLast else template
  let rest := line.drop openMark.length
  let body := strip (rest.take (rest.length-closeMark.length))
  openMark.isPrefixOf line && closeMark.isSuffixOf rest && !body.contains '\n' &&
    !decide (openMark <:+: body)

namespace Management

/-- The packages that the conversions call, and the grammar of expressions. -/
structure Packages where
  /-- `slugify(_, separator="_")`. -/
  slugify : String → String
  /-- `yaml.dump`. -/
  dump : Value → String
  /-- `yaml.safe_load`; `none` is a `YAMLError`. -/
  safeLoad : String → Option Value
  /-- `dateparser.parse(_, ...) is not None`. -/
  parsesDate : String → Bool
  /-- The refs that an expression names under `ACTIONS`. -/
  actionRefs : Text → List String

/-- A pydantic `ValidationError` of a model, an `AllamaValidationError`, an `AllamaDSLError`, or a
`YAMLError`. -/
inductive ManagementError
  | validationError (model : String)
  | allamaValidationError (message : String)
  | dslError (error : DSLError)
  | yamlError
deriving DecidableEq

structure ActionRetryPolicy where
  maxAttempts : ℤ := 1
  timeout : ℤ := 300
  retryUntil : Option String := none
deriving DecidableEq

/-- `for_each`: an expression, or a list of them. -/
inductive ForEach
  | one (expression : String)
  | many (expressions : List String)
deriving DecidableEq

def ForEach.length : ForEach → ℕ
  | .one expression => expression.length
  | .many expressions => expressions.length

def ForEach.expressions : ForEach → List String
  | .one expression => if expression = "" then [] else [expression]
  | .many expressions => expressions

structure ActionStatement where
  ref : String
  description : String := ""
  action : String
  args : List (String × Value) := []
  dependsOn : List String := []
  interaction : Option Value := none
  runIf : Option String := none
  forEach : Option ForEach := none
  retryPolicy : ActionRetryPolicy := {}
  startDelay : ℚ := 0
  waitUntil : Option String := none
  joinStrategy : JoinStrategy := .all
  environment : Option String := none

/-- `entrypoint` is its field `expects`, the only one that is stored. -/
structure DSLInput where
  title : String
  description : String
  expects : Option Value := none
  actions : List ActionStatement
  config : DSLConfig
  returns : Option Value := none
  errorHandler : Option String := none

structure ActionControlFlow where
  runIf : Option String := none
  forEach : Option ForEach := none
  joinStrategy : JoinStrategy := .all
  retryPolicy : ActionRetryPolicy := {}
  startDelay : ℚ := 0
  waitUntil : Option String := none
  environment : Option String := none
deriving DecidableEq

/-- The row of an action, with the columns of its interaction. -/
structure ActionRow extends Action where
  isInteractive : Bool := false
  interaction : Option Value := none

structure WorkflowRow where
  id : Uuid
  title : String
  description : String
  returns : Option Value
  config : Value
  expects : Option Value
  errorHandler : Option String := none
  actions : List ActionRow

def WorkflowRow.graph (w : WorkflowRow) : Workflow where
  id := w.id
  graphVersion := 1
  triggerPositionX := 0
  triggerPositionY := 0
  viewportX := 0
  viewportY := 0
  viewportZoom := 1
  actions := w.actions.map ActionRow.toAction

/-! `model_dump` and the reading of what it gives. -/

def dumpText : Option String → Value
  | none => .none
  | some s => .str s

def dumpForEach : Option ForEach → Value
  | none => .none
  | some (.one expression) => .str expression
  | some (.many expressions) => .list (expressions.map .str)

def ActionRetryPolicy.modelDump (p : ActionRetryPolicy) : Value :=
  .dict [("max_attempts",.int p.maxAttempts),("timeout",.int p.timeout),
    ("retry_until",dumpText p.retryUntil)]

def ActionControlFlow.modelDump (c : ActionControlFlow) : Value :=
  .dict [("run_if",dumpText c.runIf),("for_each",dumpForEach c.forEach),
    ("join_strategy",.str c.joinStrategy.value),("retry_policy",c.retryPolicy.modelDump),
    ("start_delay",.float c.startDelay),("wait_until",dumpText c.waitUntil),
    ("environment",dumpText c.environment)]

def ActionStatement.modelDump (a : ActionStatement) : List (String × Value) :=
  [("ref",.str a.ref),("description",.str a.description),("action",.str a.action),("args",.dict a.args),
    ("depends_on",.list (a.dependsOn.map .str)),("interaction",a.interaction.getD .none),
    ("run_if",dumpText a.runIf),("for_each",dumpForEach a.forEach),
    ("retry_policy",a.retryPolicy.modelDump),("start_delay",.float a.startDelay),
    ("wait_until",dumpText a.waitUntil),("join_strategy",.str a.joinStrategy.value),
    ("environment",dumpText a.environment)]

def dumpConfig (c : DSLConfig) : Value :=
  .dict [("environment",.str c.environment),("timeout",.float c.timeout)]

/-! A field as its type reads it, from the types that `model_dump` writes; `none` is a `ValidationError`. -/

def readText : Option Value → Option (Option String)
  | none => some none
  | some .none => some none
  | some (.str s) => some (some s)
  | some _ => none

def readInt (byDefault : ℤ) : Option Value → Option ℤ
  | none => some byDefault
  | some (.int n) => some n
  | some _ => none

def readFloat (byDefault : ℚ) : Option Value → Option ℚ
  | none => some byDefault
  | some (.float q) => some q
  | some (.int n) => some n
  | some _ => none

def readStr : Value → Option String
  | .str s => some s
  | _ => none

def readForEach : Option Value → Option (Option ForEach)
  | none => some none
  | some .none => some none
  | some (.str s) => some (some (.one s))
  | some (.list vs) => (vs.mapM readStr).map fun ss => some (.many ss)
  | some _ => none

def readJoinStrategy : Option Value → Option JoinStrategy
  | none => some .all
  | some (.str s) =>
    if s = JoinStrategy.any.value then some .any else if s = JoinStrategy.all.value then some .all else none
  | some _ => none

def readRetryPolicy : Option Value → Option ActionRetryPolicy
  | none => some {}
  | some (.dict es) => do
    let maxAttempts ← readInt 1 (es.lookup "max_attempts")
    let timeout ← readInt 300 (es.lookup "timeout")
    let retryUntil ← readText (es.lookup "retry_until")
    if retryUntil.all (fun s => isStandaloneTemplate s.toList) then some ⟨maxAttempts,timeout,retryUntil⟩
    else none
  | some _ => none

def readControlFlow : Value → Option ActionControlFlow
  | .dict es => do
    let runIf ← readText (es.lookup "run_if")
    let forEach ← readForEach (es.lookup "for_each")
    let joinStrategy ← readJoinStrategy (es.lookup "join_strategy")
    let retryPolicy ← readRetryPolicy (es.lookup "retry_policy")
    let startDelay ← readFloat 0 (es.lookup "start_delay")
    let waitUntil ← readText (es.lookup "wait_until")
    let environment ← readText (es.lookup "environment")
    some ⟨runIf,forEach,joinStrategy,retryPolicy,startDelay,waitUntil,environment⟩
  | _ => none

def readConfig : Value → Option DSLConfig
  | .dict es => do
    let environment ← readStr ((es.lookup "environment").getD (.str "default"))
    let timeout ← readFloat 0 (es.lookup "timeout")
    some ⟨environment,timeout⟩
  | _ => none

def orRaise {α : Type} (model : String) : Option α → Except ManagementError α
  | none => .error (.validationError model)
  | some a => .ok a

/-- `str.capitalize`, of ASCII. -/
def capitalize : Text → Text
  | [] => []
  | c :: cs => c.toUpper :: cs.map Char.toLower

def spaced (c : Char) : Char := if c = '_' then ' ' else c

/-- `ActionStatement.title`, of the ref. -/
def titleOf (ref : String) : String := String.ofList ((capitalize ref.toList).map spaced)

/-- `ACTION_TYPE_PATTERN`. -/
def isActionType (type : String) : Bool :=
  !type.toList.isEmpty && type.toList.all fun c =>
    (decide ('a' ≤ c) && decide (c ≤ 'z')) || (decide ('0' ≤ c) && decide (c ≤ '9')) || c == '_' || c == '.'

/-- The construction of an `ActionStatement`, which checks its fields and `validate_interaction`. -/
def ActionStatement.new (a : ActionStatement) : Except ManagementError ActionStatement :=
  if !(isSlug a.ref && isActionType a.action &&
      a.retryPolicy.retryUntil.all fun s => isStandaloneTemplate s.toList) then
    .error (.validationError "ActionStatement")
  else if a.interaction.isSome && a.forEach.any (fun f => f.expressions ≠ []) then
    .error (.allamaValidationError "Interaction is not allowed when for_each is provided.")
  else .ok a

section
variable (P : Packages)

/-- `extract_expressions(value)[ExprContext.ACTIONS]`. -/
def extractExpressions (value : Value) : List String :=
  value.strings.flatMap fun s => (findall s.toList).flatMap fun m => P.actionRefs m.2

/-- The action as `validate_structure` and the scheduler read it. -/
def ActionStatement.scheduled (a : ActionStatement) : Allama.ActionStatement where
  ref := a.ref
  action := .ofKey a.action
  dependsOn := a.dependsOn
  runIf := a.runIf
  forEach := (a.forEach.map ForEach.expressions).getD []
  retryUntil := a.retryPolicy.retryUntil
  startDelay := a.startDelay
  waitUntil := a.waitUntil
  joinStrategy := a.joinStrategy
  expressions := a.modelDump.map fun field => (field.1,extractExpressions P field.2)

def DSLInput.scheduled (dsl : DSLInput) : Allama.DSLInput :=
  ⟨dsl.actions.map (ActionStatement.scheduled P)⟩

/-- The construction of a `DSLInput`, of which `validate_structure` is a part. -/
def DSLInput.new (dsl : DSLInput) : Except ManagementError DSLInput :=
  match validateStructure (dsl.scheduled P) with
  | .ok _ => .ok dsl
  | .error e => .error (.dslError e)

/-- A `DSLInput` that has been constructed, from statements that have been. -/
def DSLInput.Accepted (dsl : DSLInput) : Prop :=
  (∀ a ∈ dsl.actions, a.new = .ok a) ∧ dsl.new P = .ok dsl

/-- The checks of the fields of `ActionControlFlow`. -/
def ActionControlFlow.isValid (c : ActionControlFlow) : Bool :=
  c.runIf.all (fun s => s.length ≤ 1000) && c.forEach.all (fun f => f.length ≤ 1000) &&
    c.waitUntil.all P.parsesDate

def ActionControlFlow.new (c : ActionControlFlow) : Except ManagementError ActionControlFlow :=
  orRaise "ActionControlFlow" (if c.isValid P then some c else none)

def ActionControlFlow.modelValidate (value : Value) : Except ManagementError ActionControlFlow := do
  let c ← orRaise "ActionControlFlow" (readControlFlow value)
  c.new P

/-- `yaml.safe_load(inputs)`, or an empty dict for what is falsy, as the arguments of a statement. -/
def loadArgs (inputs : String) : Except ManagementError (List (String × Value)) :=
  match P.safeLoad inputs with
  | none => .error .yamlError
  | some value =>
    if value.truthy then
      match value with
      | .dict es => .ok es
      | _ => .error (.validationError "ActionStatement")
    else .ok []

/-- The control flow that `create_actions_from_dsl` takes over. -/
def ActionStatement.controlFlow (a : ActionStatement) : ActionControlFlow where
  runIf := a.runIf
  forEach := a.forEach
  retryPolicy := a.retryPolicy
  startDelay := a.startDelay
  waitUntil := a.waitUntil
  joinStrategy := a.joinStrategy

/-- The new row of a statement, before its edges. `uuid4` is the id drawn for each ref. -/
def newAction (uuid4 : String → Uuid) (stmt : ActionStatement) : Except ManagementError ActionRow := do
  let controlFlow ← stmt.controlFlow.new P
  .ok
    {id := uuid4 stmt.ref
     type := stmt.action
     inputs := P.dump (.dict stmt.args)
     title := titleOf stmt.ref
     description := stmt.description
     controlFlow := controlFlow.modelDump
     positionX := 0
     positionY := 0
     upstreamEdges := []}

/-- The edges of a row; a dependency that is no key of `ref_to_action` becomes none. -/
def upstreamEdgesOf (workflowId : Uuid) (refToAction : List (String × ActionRow)) (stmt : ActionStatement) :
    List ActionEdge :=
  if stmt.dependsOn ≠ [] then
    stmt.dependsOn.filterMap fun depRef =>
      (refToAction.lookup depRef).map fun depAction => ⟨depAction.id.str,.udf,some .success⟩
  else [⟨"trigger-" ++ workflowId.str,.trigger,none⟩]

/-- `create_actions_from_dsl`. The refs are distinct, so each is the key of its own row. -/
def createActionsFromDsl (uuid4 : String → Uuid) (workflowId : Uuid) (dsl : DSLInput) :
    Except ManagementError (List ActionRow) := do
  let actions ← dsl.actions.mapM (newAction P uuid4)
  let refToAction := (dsl.actions.map ActionStatement.ref).zip actions
  .ok (List.zipWith
    (fun stmt action => {action with upstreamEdges := upstreamEdgesOf workflowId refToAction stmt})
    dsl.actions actions)

def createDbWorkflowFromDsl (uuid4 : String → Uuid) (workflowId : Uuid) (dsl : DSLInput) :
    Except ManagementError WorkflowRow := do
  let actions ← createActionsFromDsl P uuid4 workflowId dsl
  .ok
    {id := workflowId
     title := dsl.title
     description := dsl.description
     returns := dsl.returns
     config := dumpConfig dsl.config
     expects := dsl.expects
     actions := actions}

/-- The statement of one row in `build_action_statements_from_actions`. -/
def buildActionStatement (w : WorkflowRow) (action : ActionRow) : Except ManagementError ActionStatement := do
  let controlFlow ← ActionControlFlow.modelValidate P action.controlFlow
  let args ← loadArgs P action.inputs
  ActionStatement.new
    {ref := action.ref P.slugify
     action := action.type
     args := args
     dependsOn := w.graph.dependsOn P.slugify action.toAction
     runIf := controlFlow.runIf
     forEach := controlFlow.forEach
     retryPolicy := controlFlow.retryPolicy
     startDelay := controlFlow.startDelay
     waitUntil := controlFlow.waitUntil
     joinStrategy := controlFlow.joinStrategy
     interaction := if action.isInteractive then action.interaction.filter Value.truthy else none
     environment := controlFlow.environment}

def buildDslFromWorkflow (w : WorkflowRow) : Except ManagementError DSLInput :=
  if w.actions = [] then
    .error (.allamaValidationError
      "Workflow has no actions. Please add an action to the workflow before saving.")
  else do
    let statements ← w.actions.mapM (buildActionStatement P w)
    let config ← orRaise "DSLConfig" (readConfig w.config)
    DSLInput.new P
      {title := w.title
       description := w.description
       expects := w.expects
       actions := statements
       config := config
       returns := w.returns
       errorHandler := w.errorHandler}

/-- The DSL built from the workflow that was made from `dsl`, whose rows the database gives back in the
order of `select`. -/
def rebuild (uuid4 : String → Uuid) (workflowId : Uuid) (select : List ActionRow → List ActionRow)
    (dsl : DSLInput) : Except ManagementError DSLInput := do
  let w ← createDbWorkflowFromDsl P uuid4 workflowId dsl
  buildDslFromWorkflow P {w with actions := select w.actions}

end
end Management
end Allama

import Allama.DSLTypes
import Allama.Identifiers

/-! The workflow graph of `workflow/graph/service.py`: the actions of a workflow, which hold the edges
that enter them, and the operations on them. -/
namespace Allama

inductive SourceType
  | trigger
  | udf
deriving DecidableEq

/-- `ActionEdge`, an element of `upstream_edges`; only `udf` edges have a handle. -/
structure ActionEdge where
  sourceId : String
  sourceType : SourceType
  sourceHandle : Option EdgeType
deriving DecidableEq

/-- The row of an action. -/
structure Action where
  id : Uuid
  type : String
  title : String
  description : String
  inputs : String
  controlFlow : Value
  positionX : ℚ
  positionY : ℚ
  upstreamEdges : List ActionEdge

/-- The row without its edges from `id`, whose text they compare with. -/
def Action.dropSource (id : Uuid) (a : Action) : Action :=
  {a with upstreamEdges := a.upstreamEdges.filter (fun e => e.sourceId ≠ id.str)}

/-- The row of a workflow with the rows of its actions. -/
structure Workflow where
  id : Uuid
  graphVersion : ℤ
  triggerPositionX : ℚ
  triggerPositionY : ℚ
  viewportX : ℚ
  viewportY : ℚ
  viewportZoom : ℚ
  actions : List Action

structure AddNodePayload where
  type : String
  title : String
  description : Option String
  inputs : Option String
  controlFlow : Option Value
  positionX : ℚ
  positionY : ℚ

structure UpdateNodePayload where
  actionId : Uuid
  title : Option String
  description : Option String
  inputs : Option String
  controlFlow : Option Value

structure DeleteNodePayload where
  actionId : Uuid

/-- `AddEdgePayload` and `DeleteEdgePayload`: the target is a UUID, the source a text. -/
structure EdgePayload where
  sourceId : String
  sourceType : SourceType
  targetId : Uuid
  sourceHandle : Option EdgeType

/-- An element of `MoveNodesPayload.positions`, of which each key may be missing. -/
structure NodePosition where
  actionId : Option String
  x : Option ℚ
  y : Option ℚ

structure MoveNodesPayload where
  positions : List NodePosition

structure UpdateTriggerPositionPayload where
  x : ℚ
  y : ℚ

structure UpdateViewportPayload where
  x : ℚ
  y : ℚ
  zoom : ℚ

inductive GraphOperationType
  | addNode
  | updateNode
  | deleteNode
  | addEdge
  | deleteEdge
  | moveNodes
  | updateTriggerPosition
  | updateViewport
deriving DecidableEq

/-- A `GraphOperation` whose payload is read by the schema of its type, and `malformed` where the
schema rejects it. An added node comes with the id that `uuid4` draws for it. -/
inductive GraphOperation
  | addNode (payload : AddNodePayload) (uuid4 : Uuid)
  | updateNode (payload : UpdateNodePayload)
  | deleteNode (payload : DeleteNodePayload)
  | addEdge (payload : EdgePayload)
  | deleteEdge (payload : EdgePayload)
  | moveNodes (payload : MoveNodesPayload)
  | updateTriggerPosition (payload : UpdateTriggerPositionPayload)
  | updateViewport (payload : UpdateViewportPayload)
  | malformed (type : GraphOperationType)

def GraphOperation.type : GraphOperation → GraphOperationType
  | .addNode _ _ => .addNode
  | .updateNode _ => .updateNode
  | .deleteNode _ => .deleteNode
  | .addEdge _ => .addEdge
  | .deleteEdge _ => .deleteEdge
  | .moveNodes _ => .moveNodes
  | .updateTriggerPosition _ => .updateTriggerPosition
  | .updateViewport _ => .updateViewport
  | .malformed type => type

/-- What `apply_operations` raises: a `ValueError` with its text, the rejection of a payload, an
error of the database, or the conflict of versions with the current one. -/
inductive GraphError
  | valueError (message : String)
  | validationError (type : GraphOperationType)
  | databaseError
  | versionConflict (currentVersion : ℤ)
deriving DecidableEq

namespace Workflow
variable (w : Workflow)

def triggerId : String := "trigger-" ++ w.id.str

def find? (id : Uuid) : Option Action := w.actions.find? (fun a => a.id = id)

/-- The actions with their rows changed by `f`. -/
def mapActions (f : Action → Action) : Workflow := {w with actions := w.actions.map f}

/-- The row of the action `id` changed by `f`. -/
def modify (id : Uuid) (f : Action → Action) : Workflow :=
  w.mapActions fun a => if a.id = id then f a else a

def setEdges (id : Uuid) (edges : List ActionEdge) : Workflow :=
  w.modify id fun a => {a with upstreamEdges := edges}

/-- The update and the delete that `_delete_node` and `delete_action` share. -/
def dropAction (id : Uuid) : Workflow :=
  let kept := w.mapActions (Action.dropSource id)
  {kept with actions := kept.actions.filter (fun a => a.id ≠ id)}

end Workflow

/-- The edge that `_add_edge` builds. -/
def EdgePayload.newEdge (p : EdgePayload) : ActionEdge :=
  ⟨p.sourceId,p.sourceType,
    match p.sourceType with
    | .udf => some (p.sourceHandle.getD .success)
    | .trigger => none⟩

def EdgePayload.others (p : EdgePayload) (edges : List ActionEdge) : List ActionEdge :=
  edges.filter fun e => ¬ (e.sourceId = p.sourceId ∧ e.sourceType = p.sourceType)

section
-- `cast` is the database's reading of a text as a UUID
variable (cast : String → Option Uuid)

/-- `_add_node`. The primary key refuses an id that is taken. -/
def addNode (w : Workflow) (p : AddNodePayload) (uuid4 : Uuid) : Except GraphError Workflow :=
  if (w.find? uuid4).isSome then .error .databaseError
  else .ok {w with
    actions := w.actions ++
      [{id := uuid4
        type := p.type
        title := p.title
        description := p.description.getD ""
        inputs := p.inputs.getD ""
        controlFlow := p.controlFlow.getD (.dict [])
        positionX := p.positionX
        positionY := p.positionY
        upstreamEdges := []}]}

/-- `_update_node`; an id without a row updates nothing. -/
def updateNode (w : Workflow) (p : UpdateNodePayload) : Except GraphError Workflow :=
  .ok (w.modify p.actionId fun a =>
    {a with
      title := p.title.getD a.title
      description := p.description.getD a.description
      inputs := p.inputs.getD a.inputs
      controlFlow := p.controlFlow.getD a.controlFlow})

def deleteNode (w : Workflow) (p : DeleteNodePayload) : Except GraphError Workflow :=
  .ok (w.dropAction p.actionId)

/-- The first check of `_add_edge`: the source exists. -/
def checkSource (w : Workflow) (p : EdgePayload) : Except GraphError Unit :=
  match p.sourceType with
  | .udf =>
    match cast p.sourceId with
    | none => .error .databaseError
    | some id =>
      if (w.find? id).isSome then .ok ()
      else .error (.valueError ("Source action " ++ p.sourceId ++ " not found"))
  | .trigger =>
    if p.sourceId = w.triggerId then .ok ()
    else .error (.valueError ("Invalid trigger ID: " ++ p.sourceId ++ ", expected " ++ w.triggerId))

def targetAction (w : Workflow) (p : EdgePayload) : Except GraphError Action :=
  match w.find? p.targetId with
  | none => .error (.valueError ("Target action " ++ p.targetId.str ++ " not found"))
  | some a => .ok a

def addEdge (w : Workflow) (p : EdgePayload) : Except GraphError Workflow := do
  checkSource cast w p
  let target ← targetAction w p
  return w.setEdges p.targetId (p.others target.upstreamEdges ++ [p.newEdge])

def deleteEdge (w : Workflow) (p : EdgePayload) : Except GraphError Workflow := do
  let target ← targetAction w p
  return w.setEdges p.targetId (p.others target.upstreamEdges)

/-- One update of `_move_nodes`. -/
def moveNode (w : Workflow) (pos : NodePosition) : Except GraphError Workflow :=
  match pos.actionId, pos.x, pos.y with
  | some text, some x, some y =>
    match cast text with
    | none => .error .databaseError
    | some id => .ok (w.modify id fun a => {a with positionX := x, positionY := y})
  | _, _, _ => .ok w

def moveNodes (w : Workflow) (p : MoveNodesPayload) : Except GraphError Workflow :=
  p.positions.foldlM (moveNode cast) w

def updateTriggerPosition (w : Workflow) (p : UpdateTriggerPositionPayload) :
    Except GraphError Workflow :=
  .ok {w with triggerPositionX := p.x, triggerPositionY := p.y}

def updateViewport (w : Workflow) (p : UpdateViewportPayload) : Except GraphError Workflow :=
  .ok {w with viewportX := p.x, viewportY := p.y, viewportZoom := p.zoom}

def applyOperation (w : Workflow) : GraphOperation → Except GraphError Workflow
  | .addNode p uuid4 => addNode w p uuid4
  | .updateNode p => updateNode w p
  | .deleteNode p => deleteNode w p
  | .addEdge p => addEdge cast w p
  | .deleteEdge p => deleteEdge w p
  | .moveNodes p => moveNodes cast w p
  | .updateTriggerPosition p => updateTriggerPosition w p
  | .updateViewport p => updateViewport w p
  | .malformed type => .error (.validationError type)

/-- `_is_structural`, membership in `_STRUCTURAL_OPS`. -/
def GraphOperation.isStructural (op : GraphOperation) : Bool :=
  op.type ∈ [GraphOperationType.addNode, .updateNode, .deleteNode, .addEdge, .deleteEdge]

def Workflow.bumpVersion (w : Workflow) (shouldBump : Bool) : Workflow :=
  if shouldBump then {w with graphVersion := w.graphVersion+1} else w

def applyAll (w : Workflow) (ops : List GraphOperation) : Except GraphError Workflow :=
  ops.foldlM (applyOperation cast) w

/-- `apply_operations`, the whole transaction; an error rolls it back. -/
def applyOperations (w : Workflow) (baseVersion : ℤ) (ops : List GraphOperation) :
    Except GraphError Workflow :=
  if w.graphVersion ≠ baseVersion then .error (.versionConflict w.graphVersion)
  else do
    let w' ← applyAll cast w ops
    return w'.bumpVersion (ops.any GraphOperation.isStructural)

end

/-- `delete_action`, of an action of the workflow. -/
def deleteAction (w : Workflow) (action : Action) : Workflow := w.dropAction action.id

section
-- `slug` is `slugify(_, separator="_")`
variable (slug : String → String)

def Action.ref (a : Action) : String := slug a.title

/-- The dependency that an edge from `sourceRef` becomes. -/
def dependencyOf (sourceRef : String) (handle : Option EdgeType) : String :=
  match handle with
  | some .error => sourceRef ++ "." ++ EdgeType.error.value
  | _ => sourceRef

/-- The dependency of an upstream edge in `build_action_statements_from_actions`, if its source
still exists. -/
def Workflow.edgeDependency (w : Workflow) (e : ActionEdge) : Option String :=
  match Uuid.parse e.sourceId with
  | none => none
  | some id => (w.find? id).map fun source => dependencyOf (source.ref slug) e.sourceHandle

/-- `depends_on` of the statement that `build_action_statements_from_actions` makes of `a`. -/
def Workflow.dependsOn (w : Workflow) (a : Action) : List String :=
  (a.upstreamEdges.filterMap (w.edgeDependency slug)).mergeSort (· ≤ ·)

end
end Allama

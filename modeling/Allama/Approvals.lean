import Mathlib.Logic.Function.Basic
import Allama.Checked
import Allama.DSLTypes
import Allama.Runs

/-! Approvals of the tool calls of an agent run: the manager (`agent/approvals/service.py`), and the workflow that asks
it (`agent/workflows/durable.py`). -/
namespace Allama
namespace Approvals

abbrev Args := List (String × Value)

/-- `bool | ToolApproved | ToolDenied`. -/
inductive Decision
  | bool (value : Bool)
  | approved (overrideArgs : Option Args)
  | denied (message : String)

def Decision.approves : Decision → Bool
  | .bool value => value
  | .approved _ => true
  | .denied _ => false

/-- A call that waits for approval, as the runtime requested it. -/
structure ToolCall where
  id : String
  name : String
  input : Args

/-- `WorkflowApprovalSubmission`; its approvals are a dict. -/
structure Submission where
  approvals : List (String × Decision)
  approvedBy : Option String
  keys : (approvals.map Prod.fst).Nodup

inductive ApprovalStatus
  | pending
  | approved
  | rejected
deriving DecidableEq

/-- A row of the table of approvals, without its timestamp. -/
structure Approval where
  toolName : String
  toolCallArgs : Option Args
  status : ApprovalStatus := .pending
  reason : Option String := none
  approvedBy : Option String := none
  decision : Option Value := none

/-- The rows of the session, by their tool call. -/
abbrev Table := String → Option Approval

structure ApprovalDecisionPayload where
  toolCallId : String
  approved : Bool
  reason : Option String
  decision : Value
  approvedBy : Option String

inductive ManagerStatus
  | idle
  | pending
  | ready
deriving DecidableEq

/-- `ApprovalManager`. The expected calls are a dict of which only the values matter. -/
structure ApprovalManager where
  approvals : List (String × Decision) := []
  status : ManagerStatus := .idle
  expectedToolCalls : List ToolCall := []
  approvedBy : Option String := none

def sortedSet (texts : List String) : List String := texts.dedup.mergeSort fun a b => decide (a ≤ b)

namespace ApprovalManager
variable (m : ApprovalManager)

def set (submission : Submission) : ApprovalManager :=
  {m with approvals := submission.approvals, status := .ready, approvedBy := submission.approvedBy}

/-- `prepare`, up to its activity. -/
def prepare (calls : List ToolCall) : ApprovalManager := {expectedToolCalls := calls}

def nameOf (id : String) : String := ((m.expectedToolCalls.reverse.find? (·.id = id)).map ToolCall.name).getD ""

/-- `validate_responses`. A decision of the type is never `None`. -/
def validateResponses (approvals : List (String × Decision)) : Except String Unit := do
  if m.expectedToolCalls = [] then throw "No pending approvals to validate"
  if approvals = [] then throw "Approval responses cannot be empty"
  let expectedIds := m.expectedToolCalls.map ToolCall.id
  let providedIds := approvals.map Prod.fst
  let missing := expectedIds.filter (· ∉ providedIds)
  if missing ≠ [] then
    let names := ", ".intercalate ((sortedSet missing).map fun id => s!"{m.nameOf id} ({id})")
    throw s!"Missing approval responses for {missing.dedup.length} tool call(s). Expected approvals for: {names}"
  let unexpected := providedIds.filter (· ∉ expectedIds)
  if unexpected ≠ [] then
    let ids := ", ".intercalate (sortedSet unexpected)
    let expected := ", ".intercalate (sortedSet expectedIds)
    throw s!"Received {unexpected.length} unexpected approval response(s) for tool call IDs: {ids}. Expected only: {expected}"

/-- What `handle_decisions` persists of a decision. -/
def payload (approvedBy : Option String) : String × Decision → ApprovalDecisionPayload
  | (id,.bool value) => ⟨id,value,none,.bool value,approvedBy⟩
  | (id,.approved overrideArgs) =>
    let override := (overrideArgs.map fun args => [("override_args",Value.dict args)]).getD []
    ⟨id,true,none,.dict (("kind",.str "tool-approved") :: override),approvedBy⟩
  | (id,.denied message) =>
    let text := if message = "" then [] else [("message",Value.str message)]
    ⟨id,false,some message,.dict (("kind",.str "tool-denied") :: text),approvedBy⟩

/-- The decisions that `handle_decisions` hands to its activity. -/
def decisions : List ApprovalDecisionPayload := m.approvals.map (payload m.approvedBy)

end ApprovalManager

def recordApprovalRequests (calls : List ToolCall) (table : Table) : Table :=
  calls.foldl (fun table call => Function.update table call.id (some {toolName := call.name, toolCallArgs := some call.input})) table

/-- The row after a decision. -/
def applyDecision (row : Option Approval) (d : ApprovalDecisionPayload) : Approval :=
  {row.getD {toolName := "unknown", toolCallArgs := none} with
    status := if d.approved then .approved else .rejected
    reason := d.reason
    approvedBy := d.approvedBy
    decision := some d.decision}

def applyApprovalDecisions (decisions : List ApprovalDecisionPayload) (table : Table) : Table :=
  decisions.foldl (fun table d => Function.update table d.toolCallId (some (applyDecision (table d.toolCallId) d))) table

structure ApprovedToolCall where
  toolCallId : String
  toolName : String
  args : Args

structure DeniedToolCall where
  toolCallId : String
  toolName : String
  reason : String

/-- `dict[key] = value`. -/
def setArg (args : Args) (key : String) (value : Value) : Args :=
  if (args.lookup key).isSome then args.map fun arg => if arg.1 = key then (key,value) else arg else args ++ [(key,value)]

/-- `{**original, **override}`. -/
def mergeArgs (original override : Args) : Args := override.foldl (fun args arg => setArg args arg.1 arg.2) original

/-- What becomes of a call by its decision. -/
def treat (call : ToolCall) : Option Decision → ApprovedToolCall ⊕ DeniedToolCall
  | none => .inr ⟨call.id,call.name,"No approval decision received"⟩
  | some (.bool true) => .inl ⟨call.id,call.name,call.input⟩
  | some (.approved overrideArgs) => .inl ⟨call.id,call.name,mergeArgs call.input (overrideArgs.getD [])⟩
  | some (.denied message) => .inr ⟨call.id,call.name,if message = "" then "Tool denied by user" else message⟩
  | some (.bool false) => .inr ⟨call.id,call.name,"Tool denied by user"⟩

/-- `_build_tool_lists_from_approvals`. -/
def buildToolLists (approvals : List (String × Decision)) (calls : List ToolCall) :
    List ApprovedToolCall × List DeniedToolCall :=
  let treated := calls.map fun call => treat call (approvals.lookup call.id)
  (treated.filterMap Sum.getLeft?,treated.filterMap Sum.getRight?)

/-- What the workflow awaits. -/
inductive Phase
  | running
  | recording (calls : List ToolCall)
  | waiting (calls : List ToolCall)
  | persisting (calls : List ToolCall) (decisions : List ApprovalDecisionPayload)
  | executing (calls : List ToolCall) (approved : List ApprovedToolCall) (denied : List DeniedToolCall)
  | reloading
  | finished

/-- A submission, and the turn whose calls it was accepted for. -/
structure Accepted where
  submission : Submission
  turn : ℕ

/-- The workflow and the table. Of the run so far, `prepared` is the turn of the expected calls, `accepted` the last
submission that was accepted, and `used` the one that the last lists of tools were made of. -/
structure System where
  manager : ApprovalManager := {}
  phase : Phase := .running
  table : Table := fun _ => none
  turn : ℕ := 0
  prepared : ℕ := 0
  accepted : Option Accepted := none
  used : Option Accepted := none

/-- What can happen next: an update comes in, or what the workflow awaits is there. -/
inductive Event
  | submit (submission : Submission)
  | turnEnded (approvalRequested : Bool) (calls : List ToolCall)
  | requestsRecorded
  | ready
  | decisionsApplied
  | toolsExecuted
  | sessionReloaded

namespace System
variable (s : System)

/-- `set_approvals`, after its validator. -/
def submit (submission : Submission) : System :=
  match s.manager.validateResponses submission.approvals with
  | .error _ => s
  | .ok () => {s with manager := s.manager.set submission, accepted := some ⟨submission,s.prepared⟩}

/-- From the end of `handle_decisions` to the activity that executes the tools, if there are any. -/
def buildLists (calls : List ToolCall) : System :=
  let lists := buildToolLists s.manager.approvals calls
  {s with
    manager := {s.manager with approvedBy := none}
    used := s.accepted
    phase := if lists.1.isEmpty && lists.2.isEmpty then .reloading else .executing calls lists.1 lists.2}

def next : Event → Option System
  | .submit submission =>
    match s.phase with
    | .finished => none
    | _ => some (s.submit submission)
  | .turnEnded approvalRequested calls =>
    match s.phase with
    | .running =>
      if approvalRequested then
        if calls = [] then some {s with phase := .waiting []}
        else some {s with manager := .prepare calls, prepared := s.turn, phase := .recording calls}
      else some {s with phase := .finished}
    | _ => none
  | .requestsRecorded =>
    match s.phase with
    | .recording calls => some {s with table := recordApprovalRequests calls s.table, phase := .waiting calls}
    | _ => none
  | .ready =>
    match s.phase with
    | .waiting calls =>
      if s.manager.status = .ready then
        if s.manager.approvals = [] then some (s.buildLists calls)
        else some {s with phase := .persisting calls s.manager.decisions}
      else none
    | _ => none
  | .decisionsApplied =>
    match s.phase with
    | .persisting calls decisions => some ({s with table := applyApprovalDecisions decisions s.table}.buildLists calls)
    | _ => none
  | .toolsExecuted =>
    match s.phase with
    | .executing _ _ _ => some {s with phase := .reloading}
    | _ => none
  | .sessionReloaded =>
    match s.phase with
    | .reloading => some {s with phase := .running, turn := s.turn+1}
    | _ => none

end System
end Approvals
end Allama

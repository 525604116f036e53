import Allama.Approvals
import Allama.SandboxRun
import Allama.SessionHistory

/-! A turn with approval requests: from the messages of the runtime (`agent/executor/loopback.py`) by way of the workflow
to the results of `execute_approved_tools_activity` (`agent/executor/activity.py`). -/
namespace Allama
namespace ApprovalTurn
open AgentStream Approvals Runs Sandbox SessionHistory

/-- `_process_runtime_events`: messages are read until one ends the loop. -/
def readMessages (h : Handler) : List RuntimeMessage → Handler
  | [] => h
  | message :: messages =>
    match (h.process message).phase with
    | .appending _ true => h.process message
    | _ => readMessages (h.process message) messages

def argsOf : Value → Args
  | .dict args => args
  | _ => []

def toCall (item : ToolCallContent) : ToolCall := ⟨item.id,item.name,argsOf item.input⟩

def requestOf : RuntimeMessage → Option (List ToolCall)
  | .streamEvent event => if event.type = .approvalRequest then some ((event.approvalItems.getD []).map toCall) else none
  | _ => none

/-- The calls for which approval is requested. -/
def requestedCalls (messages : List RuntimeMessage) : List ToolCall := (messages.filterMap requestOf).flatten

/-- The calls of the last request. -/
def lastRequest (messages : List RuntimeMessage) : List ToolCall := (messages.filterMap requestOf).getLast?.getD []

/-- What the execution of an action ends with; an error is its text. -/
inductive ActionOutcome
  | value (value : Value)
  | actionError (text : String)
  | unexpected (text : String)

/-- The activity at work; `executed` are the calls whose action was executed, and `appends` counts what was appended to
the stream, or failed to be. -/
structure Activity where
  results : List ToolResult := []
  appends : ℕ := 0
  executed : List ApprovedToolCall := []

section Results
variable (execute : ApprovedToolCall → ActionOutcome) (appendError : ℕ → Option String)

/-- The result of an execution. -/
def executionResult (call : ApprovedToolCall) : ToolResult :=
  match execute call with
  | .value value => ⟨call.toolCallId,call.toolName,value,false⟩
  | .actionError text => ⟨call.toolCallId,call.toolName,.str ("Tool execution failed: " ++ text),true⟩
  | .unexpected text => ⟨call.toolCallId,call.toolName,.str ("Unexpected error: " ++ text),true⟩

def denialResult (call : DeniedToolCall) : ToolResult :=
  ⟨call.toolCallId,call.toolName,.str ("Tool denied by user: " ++ call.reason),true⟩

/-- `results.append(result)` and `stream.append(result)`, which can fail. -/
def Activity.emit (activity : Activity) (result : ToolResult) : Activity × Option String :=
  ({activity with results := activity.results ++ [result], appends := activity.appends+1},appendError activity.appends)

/-- The body of the loop over the approved tools. After an execution that succeeds, an error of the stream is caught as
one of the execution; in the handlers it is not. -/
def executeTool (activity : Activity) (call : ApprovedToolCall) : Except String Activity :=
  let started := {activity with executed := activity.executed ++ [call]}
  match execute call,started.emit appendError (executionResult execute call) with
  | _,(emitted,none) => .ok emitted
  | .value _,(emitted,some error) =>
    match emitted.emit appendError ⟨call.toolCallId,call.toolName,.str ("Unexpected error: " ++ error),true⟩ with
    | (emitted,none) => .ok emitted
    | (_,some error) => .error error
  | _,(_,some error) => .error error

def denyTool (activity : Activity) (call : DeniedToolCall) : Except String Activity :=
  match activity.emit appendError (denialResult call) with
  | (emitted,none) => .ok emitted
  | (_,some error) => .error error

/-- `execute_approved_tools_activity` up to the rewrite of the history. -/
def executeApprovedTools (approved : List ApprovedToolCall) (denied : List DeniedToolCall) : Except String Activity := do
  let activity ← approved.foldlM (executeTool execute appendError) {}
  denied.foldlM (denyTool appendError) activity

def resultOf (call : ToolCall) (decision : Decision) : ToolResult :=
  (treat call (some decision)).elim (executionResult execute) denialResult

end Results

def builtLists : Phase → Option (List ApprovedToolCall × List DeniedToolCall)
  | .executing _ approved denied => some (approved,denied)
  | .reloading => some ([],[])
  | _ => none

def WithinTurn (_ : Approvals.System) : Approvals.Event → Prop
  | .sessionReloaded => False
  | _ => True

def endsLoop : RuntimeMessage → Bool
  | .done => true
  | message => message.failed

def turnResult (messages : List RuntimeMessage) : LoopbackResult := (readMessages {} (messages ++ [.done])).result

/-- A turn that succeeds, and the workflow from its end to the step that builds the lists of tools. -/
structure Turn where
  messages : List RuntimeMessage
  calm : ∀ message ∈ messages, endsLoop message = false
  before : Approvals.System
  ended : Approvals.System
  ends : before.next (.turnEnded (turnResult messages).approvalRequested ((turnResult messages).approvalItems.map toCall)) =
    some ended
  deciding : Approvals.System
  reached : Reaches Approvals.System.next WithinTurn ended deciding
  event : Approvals.Event
  built : Approvals.System
  builds : deciding.next event = some built
  unbuilt : builtLists deciding.phase = none
  approved : List ApprovedToolCall
  denied : List DeniedToolCall
  lists : builtLists built.phase = some (approved,denied)

section Settled
variable (execute : ApprovedToolCall → ActionOutcome) (appendError : ℕ → Option String) (dumps : Value → String) (uuid : String)

/-- A call is handed to the manager, decided in this turn, and has exactly one result, in the results and in the history:
that of its execution, which is the only one, if it is approved, and a denial otherwise. -/
structure CallSettled (history : List HistoryLine) (turn : Turn) (call : ToolCall) : Prop where
  prepared : call ∈ turn.built.manager.expectedToolCalls
  settled : ∃ submission decision activity, turn.built.used = some ⟨submission,turn.built.turn⟩ ∧
    submission.approvals.lookup call.id = some decision ∧
    executeApprovedTools execute appendError turn.approved turn.denied = .ok activity ∧
    resultOf execute call decision ∈ activity.results ∧
    activity.results.countP (·.toolCallId = call.id) = 1 ∧
    activity.executed.countP (·.toolCallId = call.id) = (if decision.approves then 1 else 0) ∧
    resultCount call.id (replaceInterrupt dumps uuid activity.results history).history = 1

/-- Around the last use of the calls, the history has no result of a call that the rewrite keeps. -/
def FreeOfResults (toolCallIds : List String) (history : List HistoryLine) : Prop :=
  ∀ before anchor after, lastUse toolCallIds history = some (before,anchor,after) →
    (∀ id ∈ toolCallIds, ∀ line ∈ before ++ [anchor], ∀ block ∈ line.blocks, block.resultOf id = false) ∧
    ∀ id ∈ toolCallIds, ∀ line ∈ after, isInterrupt toolCallIds line = false → ∀ block ∈ line.blocks, block.resultOf id = false

end Settled
end ApprovalTurn
end Allama

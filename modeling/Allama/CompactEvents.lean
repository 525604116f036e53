import Allama.DSLTypes
import Allama.RecordFields

/-! The compact events of a workflow execution: `list_workflow_execution_events_compact` of
`workflow/executions/service.py`, with the event kinds of `workflow/executions/{common,enums,schemas}.py`. -/
namespace Allama
open RecordFields

namespace CompactEvents

inductive WorkflowExecutionEventStatus
  | scheduled
  | started
  | completed
  | failed
  | canceled
  | terminated
  | timedOut
  | unknown
  | detached
deriving DecidableEq, Repr

/-- The event types that the listing sets. -/
inductive WorkflowEventType
  | activityTaskScheduled
  | activityTaskStarted
  | activityTaskCompleted
  | activityTaskFailed
  | activityTaskTimedOut
  | activityTaskCanceled
  | startChildWorkflowExecutionInitiated
  | childWorkflowExecutionStarted
  | childWorkflowExecutionCompleted
  | childWorkflowExecutionFailed
  | childWorkflowExecutionTimedOut
  | childWorkflowExecutionCanceled
  | workflowExecutionUpdateAccepted
  | workflowExecutionUpdateCompleted
  | workflowExecutionFailed
deriving DecidableEq, Repr

def WorkflowEventType.toStatus : WorkflowEventType → WorkflowExecutionEventStatus
  | .activityTaskScheduled | .startChildWorkflowExecutionInitiated | .workflowExecutionUpdateAccepted => .scheduled
  | .activityTaskStarted | .childWorkflowExecutionStarted => .started
  | .activityTaskCompleted | .childWorkflowExecutionCompleted | .workflowExecutionUpdateCompleted => .completed
  | .activityTaskFailed | .childWorkflowExecutionFailed => .failed
  | .activityTaskCanceled | .childWorkflowExecutionCanceled => .canceled
  | .activityTaskTimedOut | .childWorkflowExecutionTimedOut => .timedOut
  | .workflowExecutionFailed => .unknown

inductive WaitStrategy
  | wait
  | detach
deriving DecidableEq, Repr

/-- What a history event tells of a task that was scheduled before. -/
inductive TaskEvent (Failure : Type)
  | started
  | completed (result : Value)
  | failed (failure : Failure)
  | timedOut
  | canceled

/-- The part of `ActionStatement` that is shown. -/
structure ActionTask (Input : Type) where
  ref : String
  action : String
  args : Input

/-- `RunActionInput` or `ScatterActionInput`, as it is parsed from the payload of the activity. -/
structure ActionInput (Input : Type) where
  task : Option (ActionTask Input)
  stream_id : Option StreamID
  session_id : Option String

structure ChildWorkflowMemo where
  action_ref : String
  loop_index : Option ℕ
  wait_strategy : WaitStrategy
  stream_id : StreamID

structure AgentActionMemo where
  action_ref : String
  loop_index : Option ℕ
  stream_id : StreamID

/-- The workflows that a run starts as children. -/
inductive ChildWorkflow (Input : Type)
  | dslWorkflow (memo : ChildWorkflowMemo) (workflow_id : String) (parentCloseAbandon : Bool) (trigger_inputs : Input)
  | durableAgentWorkflow (memo : AgentActionMemo) (args : Input) (session_id : Option String)

/-- `InteractionInput`, as far as it is shown. -/
structure UpdateInput (Input : Type) where
  action_ref : String
  input : Input

/-- The attributes of a history event. Payloads are decoded; `input` of an activity is `none` when it has not the schema
of an action. An update that completes is one whose handler returned. -/
inductive EventAttributes (Input Failure : Type)
  | activityTaskScheduled (activity_id activity_type : String) (input : Option (ActionInput Input))
  | activityTask (scheduled_event_id : ℕ) (event : TaskEvent Failure)
  | startChildWorkflowExecutionInitiated (workflow : ChildWorkflow Input)
  | childWorkflowExecution (initiated_event_id : ℕ) (event : TaskEvent Failure)
  | workflowExecutionUpdateAccepted (request : UpdateInput Input)
  | workflowExecutionUpdateCompleted (accepted_event_id : ℕ) (result : Value)
  | workflowExecutionFailed (failure : Failure)
  | other

structure HistoryEvent (Input Failure : Type) where
  event_id : ℕ
  event_time : ℕ
  attributes : EventAttributes Input Failure

/-- A pending activity of the description; `started` is `PENDING_ACTIVITY_STATE_STARTED`. -/
structure PendingActivity where
  activity_id : String
  started : Bool
  last_started_time : Option ℕ

/-- `WorkflowExecutionEventCompact`. -/
structure Compact (Input Failure : Type) where
  source_event_id : ℕ
  schedule_time : ℕ
  start_time : Option ℕ := none
  close_time : Option ℕ := none
  curr_event_type : WorkflowEventType
  status : WorkflowExecutionEventStatus
  action_name : String
  action_ref : String
  action_input : Option Input := none
  action_result : Value := .none
  action_error : Option Failure := none
  stream_id : StreamID := .root
  child_wf_exec_id : Option String := none
  child_wf_count : ℕ := 0
  loop_index : Option ℕ := none
  child_wf_wait_strategy : Option WaitStrategy := none
  session : Option String := none

section Pass
variable {Input Failure : Type}

/-- The key under which compact events are merged. -/
def Compact.task (c : Compact Input Failure) : Task := ⟨c.action_ref,c.stream_id⟩

def actionActivities : List String :=
  ["execute_action_activity","noop_gather_action_activity","handle_scatter_input_activity"]

def isActionActivity (activity_name : String) : Bool := activity_name ∈ actionActivities

def wfFailureRef : String := "__workflow_failure__"

def fromScheduledActivity (event_id event_time : ℕ) (act_type : String) (input : Option (ActionInput Input)) :
    Option (Compact Input Failure) :=
  if !isActionActivity act_type then none
  else match input with
    | none => none
    | some action_input =>
      match action_input.task with
      | none => none
      | some task =>
        some
          { source_event_id := event_id
            schedule_time := event_time
            curr_event_type := .activityTaskScheduled
            status := .scheduled
            action_name := task.action
            action_ref := task.ref
            action_input := some task.args
            stream_id := action_input.stream_id.getD .root
            session := if act_type = "handle_scatter_input_activity" then none else action_input.session_id }

def fromInitiatedChildWorkflow (event_id event_time : ℕ) : ChildWorkflow Input → Compact Input Failure
  | .dslWorkflow memo workflow_id parentCloseAbandon trigger_inputs =>
    { source_event_id := event_id
      schedule_time := event_time
      curr_event_type := .startChildWorkflowExecutionInitiated
      status := if parentCloseAbandon ∧ memo.wait_strategy = .detach then .detached else .scheduled
      action_name := "core.workflow.execute"
      action_ref := memo.action_ref
      action_input := some trigger_inputs
      child_wf_exec_id := some workflow_id
      loop_index := memo.loop_index
      child_wf_wait_strategy := some memo.wait_strategy
      stream_id := memo.stream_id }
  | .durableAgentWorkflow memo args session_id =>
    { source_event_id := event_id
      schedule_time := event_time
      curr_event_type := .startChildWorkflowExecutionInitiated
      status := .scheduled
      action_name := "ai.agent"
      action_ref := memo.action_ref
      action_input := some args
      loop_index := memo.loop_index
      stream_id := memo.stream_id
      session := session_id }

def fromWorkflowUpdateAccepted (event_id event_time : ℕ) (request : UpdateInput Input) : Compact Input Failure where
  source_event_id := event_id
  schedule_time := event_time
  curr_event_type := .workflowExecutionUpdateAccepted
  status := .scheduled
  action_name := request.action_ref
  action_ref := request.action_ref
  action_input := some request.input

/-- The compact event of a top-level workflow failure. -/
def fromWorkflowFailure (event_id event_time : ℕ) (failure : Failure) : Compact Input Failure where
  source_event_id := event_id
  schedule_time := event_time
  start_time := some event_time
  close_time := some event_time
  curr_event_type := .workflowExecutionFailed
  status := .failed
  action_name := wfFailureRef
  action_ref := wfFailureRef
  action_error := some failure

/-- The compact event that a history event adds to the listing. -/
def fromSourceEvent (event : HistoryEvent Input Failure) : Option (Compact Input Failure) :=
  match event.attributes with
  | .activityTaskScheduled _ act_type input => fromScheduledActivity event.event_id event.event_time act_type input
  | .startChildWorkflowExecutionInitiated workflow =>
    some (fromInitiatedChildWorkflow event.event_id event.event_time workflow)
  | .workflowExecutionUpdateAccepted request => some (fromWorkflowUpdateAccepted event.event_id event.event_time request)
  | .workflowExecutionFailed failure => some (fromWorkflowFailure event.event_id event.event_time failure)
  | _ => none

def getSourceEventId (event : HistoryEvent Input Failure) : Option ℕ :=
  match event.attributes with
  | .activityTask id _ | .childWorkflowExecution id _ | .workflowExecutionUpdateCompleted id _ => some id
  | _ => none

/-- What an event tells of its source. -/
def taskEvent (event : HistoryEvent Input Failure) : Option (TaskEvent Failure) :=
  match event.attributes with
  | .activityTask _ e | .childWorkflowExecution _ e => some e
  | .workflowExecutionUpdateCompleted _ result => some (.completed result)
  | _ => none

/-- `HISTORY_TO_WF_EVENT_TYPE` of the events that have a source. -/
def historyToWfEventType (event : HistoryEvent Input Failure) : Option WorkflowEventType :=
  match event.attributes with
  | .activityTask _ .started => some .activityTaskStarted
  | .activityTask _ (.completed _) => some .activityTaskCompleted
  | .activityTask _ (.failed _) => some .activityTaskFailed
  | .activityTask _ .timedOut => some .activityTaskTimedOut
  | .activityTask _ .canceled => some .activityTaskCanceled
  | .childWorkflowExecution _ .started => some .childWorkflowExecutionStarted
  | .childWorkflowExecution _ (.completed _) => some .childWorkflowExecutionCompleted
  | .childWorkflowExecution _ (.failed _) => some .childWorkflowExecutionFailed
  | .childWorkflowExecution _ .timedOut => some .childWorkflowExecutionTimedOut
  | .childWorkflowExecution _ .canceled => some .childWorkflowExecutionCanceled
  | .workflowExecutionUpdateCompleted _ _ => some .workflowExecutionUpdateCompleted
  | _ => none

/-- An event is attached to its source. -/
def attach (source : Compact Input Failure) (event : HistoryEvent Input Failure) : Compact Input Failure :=
  match historyToWfEventType event, taskEvent event with
  | some wf_event_type, some e =>
    { source with
      curr_event_type := wf_event_type
      status := if source.status ≠ .detached then wf_event_type.toStatus else source.status
      start_time := match e with
        | .started => some event.event_time
        | _ => source.start_time
      close_time := match e with
        | .completed _ => some event.event_time
        | _ => source.close_time
      action_result := match e with
        | .completed result => result
        | _ => source.action_result
      action_error := match e with
        | .failed failure => some failure
        | _ => source.action_error }
  | _, _ => source

/-- `id2event` and `activity2eventid`. -/
structure Scan (Input Failure : Type) where
  id2event : List (ℕ × Compact Input Failure)
  activity2eventid : List (String × ℕ)

/-- One turn of the loop over the history. -/
def Scan.next (scan : Scan Input Failure) (event : HistoryEvent Input Failure) : Scan Input Failure :=
  match fromSourceEvent event with
  | some source =>
    { id2event := put event.event_id source scan.id2event
      activity2eventid := match event.attributes with
        | .activityTaskScheduled activity_id _ _ => put activity_id event.event_id scan.activity2eventid
        | _ => scan.activity2eventid }
  | none =>
    match getSourceEventId event with
    | none => scan
    | some source_id =>
      match scan.id2event.lookup source_id with
      | none => scan
      | some source => { scan with id2event := put source_id (attach source event) scan.id2event }

def scanHistory (events : List (HistoryEvent Input Failure)) : Scan Input Failure := events.foldl Scan.next ⟨[],[]⟩

def applyPending (source : Compact Input Failure) (act : PendingActivity) : Compact Input Failure :=
  { source with
    curr_event_type := .activityTaskStarted
    status := .started
    start_time := act.last_started_time.or source.start_time }

/-- One turn of the loop over the pending activities. -/
def nextPending (activity2eventid : List (String × ℕ)) (id2event : List (ℕ × Compact Input Failure)) (act : PendingActivity) :
    List (ℕ × Compact Input Failure) :=
  match activity2eventid.lookup act.activity_id with
  | none => id2event
  | some source_id =>
    if source_id = 0 then id2event
    else match id2event.lookup source_id with
      | none => id2event
      | some source => if act.started then put source_id (applyPending source act) id2event else id2event

def asGroup (event : Compact Input Failure) : Compact Input Failure :=
  match event.loop_index with
  | some _ => { event with action_result := .list [event.action_result] }
  | none => event

/-- `min` or `max` of two times that are there. -/
def bothTimes (f : ℕ → ℕ → ℕ) : Option ℕ → Option ℕ → Option ℕ
  | some a, some b => some (f a b)
  | a, _ => a

/-- `group_event.action_result.append(...)`, on a list that is not empty. -/
def appendResult : Value → Value → Value
  | .list (x :: xs), result => .list (x :: xs ++ [result])
  | group, _ => group

/-- A further event of a task. -/
def mergeInto (event group_event : Compact Input Failure) : Compact Input Failure :=
  { group_event with
    child_wf_count := group_event.child_wf_count + 1
    start_time := bothTimes min group_event.start_time event.start_time
    schedule_time := min group_event.schedule_time event.schedule_time
    close_time := bothTimes max group_event.close_time event.close_time
    action_result := appendResult group_event.action_result event.action_result }

/-- One turn of the loop over `id2event.values()`. -/
def nextGroup (task2events : List (Task × Compact Input Failure)) (event : Compact Input Failure) :
    List (Task × Compact Input Failure) :=
  match task2events.lookup event.task with
  | some group_event => put event.task (mergeInto event group_event) task2events
  | none => put event.task (asGroup event) task2events

def mergeEvents (events : List (Compact Input Failure)) : List (Task × Compact Input Failure) := events.foldl nextGroup []

def listWorkflowExecutionEventsCompact (events : List (HistoryEvent Input Failure)) (pending : List PendingActivity) :
    List (Compact Input Failure) :=
  let scan := scanHistory events
  let id2event := pending.foldl (nextPending scan.activity2eventid) scan.id2event
  (mergeEvents (id2event.map Prod.snd)).map Prod.snd

end Pass
end CompactEvents
end Allama

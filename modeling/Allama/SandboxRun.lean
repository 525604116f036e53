import Allama.Runs
import Allama.StreamContext

/-! A run of the agent in its sandbox: the handler of the runtime's connection (`agent/executor/loopback.py`), and the
executor that waits for it (`agent/executor/activity.py`). -/
namespace Allama
namespace Sandbox
open AgentStream

/-- What the runtime sends. Of the kinds that leave the stream and the result as they are (messages, session lines,
updates, logs) only one is kept. -/
inductive RuntimeMessage
  | streamEvent (event : UnifiedStreamEvent)
  | error (error : Option String)
  | done
  | other

/-- A message after which the handler reports an error. -/
def RuntimeMessage.failed : RuntimeMessage → Bool
  | .streamEvent event => event.type = .error
  | .error _ => true
  | .done | .other => false

/-- What is appended to the stream of the session. -/
inductive StreamItem
  | event (event : UnifiedStreamEvent)
  | error (error : String)
  | endMarker

/-- The flag of `_emit_stream_done`, after an item. -/
def StreamItem.marks (emitted : Bool) : StreamItem → Bool
  | .endMarker => true
  | _ => emitted

structure LoopbackResult where
  success : Bool := false
  error : Option String := none
  approvalRequested : Bool := false
  approvalItems : List ToolCallContent := []

structure AgentExecutorResult where
  success : Bool := false
  error : Option String := none
  approvalRequested : Bool := false
  approvalItems : Option (List ToolCallContent) := none

/-- Where `handle_connection` is: `appending` what a message leaves to append, after which the loop ends or goes on. -/
inductive HandlerPhase
  | absent
  | starting
  | reading
  | appending (items : List StreamItem) (ends : Bool)
  | finishing
  | closed

/-- `LoopbackHandler`. -/
structure Handler where
  phase : HandlerPhase := .absent
  result : LoopbackResult := {}
  streamDoneEmitted : Bool := false

/-- `a or b`, of texts. -/
def textOr (text : Option String) (byDefault : String) : String := (text.filter (· ≠ "")).getD byDefault

namespace Handler
variable (h : Handler)

/-- One turn of the loop of `_process_runtime_events`, for a message that has been read. -/
def process : RuntimeMessage → Handler
  | .streamEvent event =>
    if event.type = .error then
      let error := textOr event.error "Unknown error"
      {h with phase := .appending [.event event,.error error,.endMarker] true, result := {h.result with error := some error}}
    else if event.type = .approvalRequest then
      {h with
        phase := .appending [.event event] false
        result := {h.result with approvalRequested := true, approvalItems := event.approvalItems.getD []}}
    else {h with phase := .appending [.event event] false}
  | .error error =>
    let error := textOr error "Unknown runtime error"
    {h with phase := .appending [.error error,.endMarker] true, result := {h.result with error := some error}}
  | .done => {h with phase := .appending [.endMarker] true}
  | .other => {h with phase := .reading}

def connectionLost : Handler :=
  let error := "Runtime disconnected during execution"
  {h with phase := .appending [.error error] true, result := {h.result with error := some error}}

def initFailed (error : String) : Handler :=
  {h with
    phase := .appending [.error error] true
    result := {h.result with error := some ("Connection error: " ++ error)}}

end Handler

/-- Where `run` is: waiting, appending the error of a run that it gives up, or leaving the server. -/
inductive ExecutorPhase
  | waiting
  | reporting (error : String)
  | closing (gaveUp : Bool)
  | returned

/-- The runtime, its connection, the handler and the executor. `sent` is all that the runtime has sent, and `buffered`
what of it the handler has not read. -/
structure System where
  sent : List RuntimeMessage := []
  buffered : List RuntimeMessage := []
  disconnected : Bool := false
  killed : Bool := false
  exited : Option (ℤ × String) := none
  fatalError : Option String := none
  elapsed : ℕ := 0
  handler : Handler := {}
  loopbackResult : Option LoopbackResult := none
  executor : ExecutorPhase := .waiting
  result : AgentExecutorResult := {}
  stream : List StreamItem := []

/-- What happens next: to the runtime, to the handler, or to the executor. -/
inductive Event
  | connect
  | send (message : RuntimeMessage)
  | disconnect
  | exit (returncode : ℤ) (stderr : String)
  | llmError (error : String)
  | initSent
  | initFailed (error : String)
  | read
  | append
  | finish
  | deliver
  | heartbeat
  | wake
  | report
  | leave

namespace System
variable (timeoutSeconds : ℕ) (s : System)

def setHandler (h : Handler) : System := {s with handler := h}

def giveUp (error : String) : System :=
  {s with result := {s.result with error := some error}, executor := .reporting error}

def crashText (returncode : ℤ) (stderr : String) : String :=
  let tail := if stderr = "" then "empty" else String.ofList (stderr.toList.drop (stderr.length - 1000))
  s!"Runtime process exited with code {returncode} before connecting. stderr: {tail}"

/-- The executor finds something done, or its time over. -/
def wake : Option System :=
  if timeoutSeconds ≤ s.elapsed then some (s.giveUp s!"Agent execution timed out after {timeoutSeconds}s")
  else
    match s.fatalError,s.exited,s.loopbackResult with
    | some error,_,_ => some {s.giveUp error with killed := true}
    | none,some (returncode,stderr),none => some (s.giveUp (crashText returncode stderr))
    | none,_,some loopback =>
      some {s with
        result :=
          {success := loopback.success
           error := loopback.error
           approvalRequested := loopback.approvalRequested
           approvalItems := if loopback.approvalItems.isEmpty then none else some loopback.approvalItems}
        executor := .closing false}
    | none,none,none => none

/-- The runtime, while its process and its connection are there. -/
def nextRuntime : Event → Option System
  | .connect =>
    match s.handler.phase,s.executor with
    | .absent,.waiting | .absent,.reporting _ =>
      if s.exited.isSome || s.killed then none else some (s.setHandler {s.handler with phase := .starting})
    | _,_ => none
  | .send message =>
    match s.handler.phase with
    | .absent | .starting | .closed => none
    | _ =>
      if s.disconnected || s.killed then none
      else some {s with sent := s.sent ++ [message], buffered := s.buffered ++ [message]}
  | .disconnect =>
    match s.handler.phase with
    | .absent => none
    | _ => some {s with disconnected := true}
  | .exit returncode stderr =>
    if s.exited.isSome then none else some {s with exited := some (returncode,stderr), disconnected := true}
  | .llmError error => some {s with fatalError := some error}
  | _ => none

def nextHandler : Event → Option System
  | .initSent =>
    match s.handler.phase with
    | .starting => some (s.setHandler {s.handler with phase := .reading})
    | _ => none
  | .initFailed error =>
    match s.handler.phase with
    | .starting => if s.disconnected then some (s.setHandler (s.handler.initFailed error)) else none
    | _ => none
  | .read =>
    match s.handler.phase,s.buffered with
    | .reading,message :: buffered => some {s.setHandler (s.handler.process message) with buffered := buffered}
    | .reading,[] => if s.disconnected then some (s.setHandler s.handler.connectionLost) else none
    | _,_ => none
  | .append =>
    match s.handler.phase with
    | .appending (item :: items) ends =>
      some {s with
        handler :=
          {s.handler with
            phase := .appending items ends
            streamDoneEmitted := item.marks s.handler.streamDoneEmitted}
        stream := s.stream ++ [item]}
    | .appending [] ends => some (s.setHandler {s.handler with phase := if ends then .finishing else .reading})
    | _ => none
  | .finish =>
    match s.handler.phase with
    | .finishing =>
      -- `_emit_stream_done` of the `finally`, unless the marker is there
      some {s with
        handler :=
          {phase := .closed
           result := {s.handler.result with success := s.handler.result.error.isNone}
           streamDoneEmitted := true}
        stream := if s.handler.streamDoneEmitted then s.stream else s.stream ++ [.endMarker]}
    | _ => none
  | .deliver =>
    match s.handler.phase,s.loopbackResult with
    | .closed,none => some {s with loopbackResult := some s.handler.result}
    | _,_ => none
  | _ => none

def nextExecutor : Event → Option System
  | .heartbeat =>
    match s.executor with
    | .waiting =>
      if s.elapsed < timeoutSeconds ∧ s.fatalError = none ∧ s.exited = none ∧ s.loopbackResult.isNone then
        some {s with elapsed := s.elapsed+30}
      else none
    | _ => none
  | .wake =>
    match s.executor with
    | .waiting => s.wake timeoutSeconds
    | _ => none
  | .report =>
    match s.executor with
    | .reporting error => some {s with stream := s.stream ++ [.error error], executor := .closing true}
    | _ => none
  | .leave =>
    -- the server waits for its connections
    match s.executor,s.handler.phase with
    | .closing _,.absent | .closing _,.closed => some {s with executor := .returned}
    | _,_ => none
  | _ => none

/-- Each event is one of the runtime, of the handler, or of the executor. -/
def next (event : Event) : Option System :=
  ((s.nextRuntime event).or (s.nextHandler event)).or (s.nextExecutor timeoutSeconds event)

end System
end Sandbox
end Allama

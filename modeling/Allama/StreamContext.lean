import Mathlib.Logic.Function.Basic
import Mathlib.Algebra.Order.Ring.Int
import Allama.Templates
import Allama.WorkflowRecords

/-! Stream events as frames of the AI SDK (`agent/adapter/vercel.py`, `agent/common/stream_types.py`). -/
namespace Allama
open Function
namespace AgentStream

inductive StreamEventType
  | textStart
  | textDelta
  | textStop
  | thinkingStart
  | thinkingDelta
  | thinkingStop
  | toolCallStart
  | toolCallDelta
  | toolCallStop
  | toolResult
  | messageStart
  | messageStop
  | userMessage
  | error
  | done
  | approvalRequest
deriving DecidableEq

structure ToolCallContent where
  id : String
  name : String
  input : Value

/-- The event without its timestamp. -/
structure UnifiedStreamEvent where
  type : StreamEventType
  partId : Option ℤ := none
  text : Option String := none
  thinking : Option String := none
  toolCallId : Option String := none
  toolName : Option String := none
  toolInput : Option Value := none
  toolOutput : Value := .none
  isError : Bool := false
  error : Option String := none
  approvalItems : Option (List ToolCallContent) := none

inductive PartType
  | text
  | reasoning
  | tool
deriving DecidableEq

structure ToolCallPart where
  toolName : String
  toolCallId : String
  args : Value

/-- A part that is open; its id is the number of the draw of `uuid4`, which does not repeat. A part that is closed is in
no dict any more, so the flag is left out. -/
structure PartState where
  partId : ℕ
  partType : PartType
  toolCall : Option ToolCallPart := none

inductive Frame
  | start
  | finish
  | done
  | keepAlive
  | textStart (id : ℕ)
  | textDelta (id : ℕ) (delta : String)
  | textEnd (id : ℕ)
  | reasoningStart (id : ℕ)
  | reasoningDelta (id : ℕ) (delta : String)
  | reasoningEnd (id : ℕ)
  | toolInputStart (toolCallId toolName : String)
  | toolInputDelta (toolCallId inputTextDelta : String)
  | toolInputAvailable (toolCallId toolName : String) (input : Value)
  | toolOutputAvailable (toolCallId : String) (output : Value)
  | data (items : List ToolCallContent)
  | error (errorText : String)

/-- `VercelStreamContext`, with the number of ids drawn. The parts are in the order of their dict. -/
structure Context where
  partStates : List (ℤ × PartState) := []
  toolFinished : String → Option Bool := fun _ => none
  toolInputEmitted : String → Option Bool := fun _ => none
  toolIndex : String → Option ℤ := fun _ => none
  pendingDataEvents : List Frame := []
  approvalToolName : String → Option String := fun _ => none
  approvalInput : String → Option Value := fun _ => none
  drawn : ℕ := 0

namespace Context
variable (ctx : Context)

/-- `self.part_states.get(part_id)`, of an index that is given. -/
def partAt (partId : Option ℤ) : Option PartState := partId.bind fun index => ctx.partStates.lookup index

/-- `self.part_states[index] = state`. -/
def setPart (index : ℤ) (state : PartState) : Context :=
  {ctx with partStates :=
    if (ctx.partStates.lookup index).isSome then
      ctx.partStates.map fun part => if part.1 = index then (index,state) else part
    else ctx.partStates ++ [(index,state)]}

def createPartState (index : ℤ) (partType : PartType) (toolCall : Option ToolCallPart) : Context × PartState :=
  let state : PartState := ⟨ctx.drawn,partType,toolCall⟩
  let ctx := {ctx.setPart index state with drawn := ctx.drawn+1}
  match toolCall with
  | none => (ctx,state)
  | some call => ({ctx with toolIndex := update ctx.toolIndex call.toolCallId (some index)},state)

/-- `self.part_states.pop(index, None)`. -/
def popPart (index : ℤ) : Context := {ctx with partStates := ctx.partStates.filter (·.1 ≠ index)}

/-- What `_finalize_part` emits for a part that has been taken out. -/
def closePart (state : PartState) : Context × List Frame :=
  match state.partType,state.toolCall with
  | .text,_ => (ctx,[.textEnd state.partId])
  | .reasoning,_ => (ctx,[.reasoningEnd state.partId])
  | .tool,none => (ctx,[])
  | .tool,some call =>
    let id := call.toolCallId
    let toolIndex := update ctx.toolIndex id none
    if ctx.toolInputEmitted id = some true then ({ctx with toolIndex := toolIndex},[])
    else
      ({ctx with toolIndex := toolIndex, toolInputEmitted := update ctx.toolInputEmitted id (some true)},
        [.toolInputAvailable id call.toolName call.args])

def finalizePart (index : ℤ) : Context × List Frame :=
  match ctx.partStates.lookup index with
  | none => (ctx,[])
  | some state => (ctx.popPart index).closePart state

/-- `_finalize_part` of each index. -/
def finalizeParts : List ℤ → Context → Context × List Frame
  | [], ctx => (ctx,[])
  | index :: indices, ctx =>
    let (ctx,frames) := ctx.finalizePart index
    let (ctx,frames') := finalizeParts indices ctx
    (ctx,frames ++ frames')

/-- `collect_current_part_end_events` without an index. -/
def collectCurrentPartEndEvents : Context × List Frame := finalizeParts (ctx.partStates.map Prod.fst) ctx

def closeAt (partId : Option ℤ) : Context × List Frame :=
  match partId with
  | none => (ctx,[])
  | some index => ctx.finalizePart index

def closeCall (toolCallId : String) : Context × List Frame := ctx.closeAt (ctx.toolIndex toolCallId)

end Context

/-- `_extract_structured_error`; `loads` is `json.loads`, and `none` its error. -/
def extractStructuredError (loads : String → Option Value) (output : Value) : Option String :=
  let ofDict (entries : List (String × Value)) : Option String :=
    match entries.lookup "success",entries.lookup "error" with
    | some (.bool false),some (.str error) => some error
    | _,_ => none
  let ofText (text : String) : Option String :=
    if text = "" then none
    else
      match loads text with
      | some (.dict entries) => ofDict entries
      | _ => none
  match output with
  | .list (.dict entries :: _) =>
    match entries.lookup "type",entries.lookup "text" with
    | some (.str "text"),some (.str text) => ofText text
    | _,_ => none
  | .str text => ofText text
  | .dict entries => ofDict entries
  | _ => none

/-- `a or b or ...` -/
def firstTruthy (byDefault : Value) : List Value → Value
  | [] => byDefault
  | v :: vs => if v.truthy then v else firstTruthy byDefault vs

section Events
variable (uuid4 : ℕ → String) (loads : String → Option Value)

def deltaFrames (frame : String → Frame) (delta : Option String) : List Frame :=
  match delta with
  | none => []
  | some delta => if delta = "" then [] else [frame delta]

/-- `TEXT_START` and `THINKING_START`. -/
def startPart (partType : PartType) (start : ℕ → Frame) (delta : ℕ → String → Frame) (partId : Option ℤ)
    (initial : Option String) (ctx : Context) : Context × List Frame :=
  let (ctx,ends) := ctx.closeAt partId
  let (ctx,state) := ctx.createPartState (partId.getD 0) partType none
  (ctx,ends ++ start state.partId :: deltaFrames (delta state.partId) initial)

/-- `TEXT_DELTA` and `THINKING_DELTA`, which do not ask for the type of the part. -/
def partDelta (delta : ℕ → String → Frame) (partId : Option ℤ) (text : Option String) (ctx : Context) : List Frame :=
  match ctx.partAt partId with
  | none => []
  | some state => deltaFrames (delta state.partId) text

/-- `event.tool_call_id or str(uuid.uuid4())`, with the number of ids drawn. -/
def callId (event : UnifiedStreamEvent) (drawn : ℕ) : String × ℕ :=
  match event.toolCallId.filter (· ≠ "") with
  | some id => (id,drawn)
  | none => (uuid4 drawn,drawn+1)

def toolCallStart (event : UnifiedStreamEvent) (ctx : Context) : Context × List Frame :=
  let (ctx,ends) := ctx.closeAt event.partId
  let (id,drawn) := callId uuid4 event ctx.drawn
  let toolName := (event.toolName.filter (· ≠ "")).getD "unknown"
  let args := (event.toolInput.filter Value.truthy).getD (.dict [])
  let (ctx,_) := {ctx with drawn := drawn}.createPartState (event.partId.getD 0) .tool (some ⟨toolName,id,args⟩)
  ({ctx with
    toolFinished := update ctx.toolFinished id none
    toolInputEmitted := update ctx.toolInputEmitted id (some false)},
    ends ++ [.toolInputStart id toolName])

def toolCallDelta (event : UnifiedStreamEvent) (ctx : Context) : List Frame :=
  match (ctx.partAt event.partId).bind PartState.toolCall with
  | none => []
  | some call => deltaFrames (.toolInputDelta call.toolCallId) event.text

/-- The input of a tool call that stops, unless it has been emitted. -/
def emitInput (event : UnifiedStreamEvent) (call : ToolCallPart) (ctx : Context) : Context × List Frame :=
  if ctx.toolInputEmitted call.toolCallId = some true then (ctx,[])
  else
    ({ctx with toolInputEmitted := update ctx.toolInputEmitted call.toolCallId (some true)},
      [.toolInputAvailable call.toolCallId ((event.toolName.filter (· ≠ "")).getD call.toolName)
        ((event.toolInput.filter Value.truthy).getD call.args)])

def toolCallStop (event : UnifiedStreamEvent) (ctx : Context) : Context × List Frame :=
  let (ctx,inputs) :=
    match (ctx.partAt event.partId).bind PartState.toolCall with
    | none => (ctx,[])
    | some call => emitInput event call ctx
  let (ctx,ends) := ctx.closeAt event.partId
  (ctx,inputs ++ ends)

/-- The output that `TOOL_RESULT` shows. -/
def resultOutput (event : UnifiedStreamEvent) : Value :=
  let structuredError := (extractStructuredError loads event.toolOutput).filter (· ≠ "")
  if event.isError ∨ structuredError.isSome then
    .dict [("errorText",firstTruthy (.str "Unknown error")
      [(structuredError.map Value.str).getD .none,event.toolOutput,(event.error.map Value.str).getD .none])]
  else event.toolOutput

/-- The input that `TOOL_RESULT` makes available before the output. -/
def ensureInput (id : String) (event : UnifiedStreamEvent) (ctx : Context) : List Frame :=
  if ctx.toolInputEmitted id = some true then []
  else
    [.toolInputAvailable id ((ctx.approvalToolName id).getD ((event.toolName.filter (· ≠ "")).getD "tool"))
      ((ctx.approvalInput id).getD (.dict []))]

def resultId (event : UnifiedStreamEvent) : String := (event.toolCallId.filter (· ≠ "")).getD "unknown"

def toolResult (event : UnifiedStreamEvent) (ctx : Context) : Context × List Frame :=
  let id := resultId event
  let (ctx,ends) := ctx.closeCall id
  ({ctx with
    toolFinished := update ctx.toolFinished id (some true)
    toolInputEmitted := update ctx.toolInputEmitted id none},
    ends ++ ensureInput id event ctx ++ [.toolOutputAvailable id (resultOutput loads event)])

/-- The call of an approval is remembered, and its part ends. -/
def approvalItem (item : ToolCallContent) (ctx : Context) : Context × List Frame :=
  {ctx with
    approvalToolName := update ctx.approvalToolName item.id (some item.name)
    approvalInput := update ctx.approvalInput item.id (some item.input)}.closeCall item.id

def approvalItems : List ToolCallContent → Context → Context × List Frame
  | [], ctx => (ctx,[])
  | item :: items, ctx =>
    let (ctx,frames) := approvalItem item ctx
    let (ctx,frames') := approvalItems items ctx
    (ctx,frames ++ frames')

def handleUnifiedEvent (event : UnifiedStreamEvent) (ctx : Context) : Context × List Frame :=
  match event.type with
  | .textStart => startPart .text .textStart .textDelta event.partId event.text ctx
  | .textDelta => (ctx,partDelta .textDelta event.partId event.text ctx)
  | .textStop => ctx.closeAt event.partId
  | .thinkingStart => startPart .reasoning .reasoningStart .reasoningDelta event.partId event.thinking ctx
  | .thinkingDelta => (ctx,partDelta .reasoningDelta event.partId event.thinking ctx)
  | .thinkingStop => ctx.closeAt event.partId
  | .toolCallStart => toolCallStart uuid4 event ctx
  | .toolCallDelta => (ctx,toolCallDelta event ctx)
  | .toolCallStop => toolCallStop event ctx
  | .toolResult => toolResult loads event ctx
  | .error => (ctx,[.error ((event.error.filter (· ≠ "")).getD "Unknown error")])
  | .approvalRequest =>
    match event.approvalItems with
    | none | some [] => (ctx,[])
    | some items =>
      let (ctx,frames) := approvalItems items ctx
      (ctx,frames ++ [.data items])
  | .messageStart | .messageStop | .done | .userMessage => (ctx,[])

/-- `handle_event` of a unified event. -/
def handleEvent (event : UnifiedStreamEvent) (ctx : Context) : Context × List Frame :=
  let (ctx',frames) := handleUnifiedEvent uuid4 loads event {ctx with pendingDataEvents := []}
  (ctx',ctx.pendingDataEvents ++ frames)

/-- What comes from the store, with the calls of a message that requests approval. -/
inductive StoredEvent
  | delta (event : UnifiedStreamEvent)
  | message (approvals : Option (List ToolCallContent))
  | keepAlive
  | error (error : String)
  | endOfStream

/-- `StreamError.format`. -/
def formatError (error : String) : String :=
  "The agent could not complete the request: " ++ String.ofList (strip error.toList)

/-- One turn of the loop of `sse_vercel`. -/
def handleStored (event : StoredEvent) (ctx : Context) : Context × List Frame :=
  match event with
  | .delta event => handleEvent uuid4 loads event ctx
  | .message none => (ctx,[])
  | .message (some calls) =>
    let (ctx,frames) := approvalItems calls ctx
    ({ctx with pendingDataEvents := []},frames ++ ctx.pendingDataEvents ++ [.data calls])
  | .keepAlive => (ctx,[.keepAlive])
  | .error error =>
    let id := ctx.drawn
    let text := formatError error
    ({ctx with drawn := id+1},[.textStart id,.textDelta id text,.textEnd id,.error text])
  | .endOfStream => (ctx,[])

/-- The loop of `sse_vercel`, up to the marker of the end. -/
def runStored : List StoredEvent → Context → Context × List Frame
  | [], ctx => (ctx,[])
  | .endOfStream :: _, ctx => (ctx,[])
  | event :: events, ctx =>
    let (ctx,frames) := handleStored uuid4 loads event ctx
    let (ctx,frames') := runStored events ctx
    (ctx,frames ++ frames')

def sseVercel (events : List StoredEvent) : List Frame :=
  let (ctx,frames) := runStored uuid4 loads events {}
  .start :: frames ++ ctx.collectCurrentPartEndEvents.2 ++ [.finish,.done]

end Events
end AgentStream
end Allama

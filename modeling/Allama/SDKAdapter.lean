import Allama.FrameRuns
import Allama.ToolNames

/-! Native events of the model as stream events (`agent/runtime/claude_code/adapter.py`), and the frames of a turn
(`agent/runtime/claude_code/runtime.py`). -/
namespace Allama
namespace AgentStream

inductive BlockType
  | text
  | thinking
  | toolUse
  | unknown
deriving DecidableEq

structure ContentBlock where
  type : BlockType
  id : Option String := none
  name : Option String := none
deriving DecidableEq

inductive Delta
  | text (text : String)
  | thinking (thinking : String)
  | inputJson (partialJson : String)
  | unknown
deriving DecidableEq

inductive NativeEvent
  | contentBlockStart (index : ℤ) (block : ContentBlock)
  | contentBlockDelta (index : ℤ) (delta : Delta)
  | contentBlockStop (index : ℤ)
  | messageStart
  | messageDelta
  | messageStop
  | error (type message : String)
  | unknown (type : String)
deriving DecidableEq

/-- What a block keeps between its start and its stop. -/
structure BlockState where
  blockType : BlockType
  toolCallId : Option String
  toolName : Option String
  argsJson : String := ""

/-- `ClaudeSDKAdapter.context`. -/
abbrev AdapterContext := ℤ → Option BlockState

def normalizeName (name : String) : String := String.ofList (ToolNames.normalizeMcpToolName name.toList)

def convertContentBlockStart (index : ℤ) (block : ContentBlock) (context : AdapterContext) :
    Except String (UnifiedStreamEvent × AdapterContext) :=
  let context := Function.update context index (some ⟨block.type,block.id,block.name,""⟩)
  match block.type with
  | .text => .ok ({type := .textStart, partId := some index},context)
  | .thinking => .ok ({type := .thinkingStart, partId := some index},context)
  | .toolUse =>
    match block.id with
    | none => .error "Claude tool_use block missing required 'id' field"
    | some id =>
      .ok
        ({type := .toolCallStart
          partId := some index
          toolCallId := some id
          toolName := some (normalizeName (block.name.getD "unknown"))
          toolInput := some (.dict [])},context)
  | .unknown => .ok ({type := .messageStart, partId := some index},context)

def convertContentBlockDelta (index : ℤ) (delta : Delta) (context : AdapterContext) : UnifiedStreamEvent × AdapterContext :=
  match delta with
  | .text text => ({type := .textDelta, partId := some index, text := some text},context)
  | .thinking thinking => ({type := .thinkingDelta, partId := some index, thinking := some thinking},context)
  | .inputJson partialJson =>
    ({type := .toolCallDelta, partId := some index, text := some partialJson},
      Function.update context index
        ((context index).map fun state => {state with argsJson := state.argsJson ++ partialJson}))
  | .unknown => ({type := .textDelta, partId := some index},context)

/-- The arguments of the accumulated text; `loads` is `json.loads`, and `none` its error. -/
def parseArgs (loads : String → Option Value) (argsJson : String) : Value :=
  if argsJson = "" then .dict [] else (loads argsJson).getD (.dict [])

def convertContentBlockStop (loads : String → Option Value) (index : ℤ) (context : AdapterContext) :
    Except String (UnifiedStreamEvent × AdapterContext) :=
  let popped := Function.update context index none
  match context index with
  | some ⟨.thinking,_,_,_⟩ => .ok ({type := .thinkingStop, partId := some index},popped)
  | some ⟨.toolUse,none,_,_⟩ => .error "Missing tool_call_id in context for tool_use stop event"
  | some ⟨.toolUse,some id,toolName,argsJson⟩ =>
    .ok
      ({type := .toolCallStop
        partId := some index
        toolCallId := some id
        toolName := some (normalizeName ((toolName.filter (· ≠ "")).getD "unknown"))
        toolInput := some (parseArgs loads argsJson)},popped)
  | _ => .ok ({type := .textStop, partId := some index},popped)

def toUnifiedEvent (loads : String → Option Value) (native : NativeEvent) (context : AdapterContext) :
    Except String (UnifiedStreamEvent × AdapterContext) :=
  match native with
  | .contentBlockStart index block => convertContentBlockStart index block context
  | .contentBlockDelta index delta => .ok (convertContentBlockDelta index delta context)
  | .contentBlockStop index => convertContentBlockStop loads index context
  | .messageStart => .ok ({type := .messageStart},context)
  | .messageDelta => .ok ({type := .messageStop},context)
  | .messageStop => .ok ({type := .messageStop},context)
  | .error type message =>
    .ok ({type := .error, error := some s!"{type}: {message}", isError := true},context)
  | .unknown type => .error s!"Unknown event type: {type}"

section Runtime
variable (uuid4 : ℕ → String) (loads : String → Option Value)

def forwardEvent (native : NativeEvent) : Except String UnifiedStreamEvent :=
  (toUnifiedEvent loads native fun _ => none).map Prod.fst

def nativeStep (native : NativeEvent) (ctx : Context) : Except String (Context × List Frame) :=
  (forwardEvent loads native).map fun event => handleEvent uuid4 loads event ctx

/-- The native events of a turn, down to their frames. -/
def nativeRun : List NativeEvent → Context → Except String (Context × List Frame)
  | [], ctx => .ok (ctx,[])
  | native :: natives, ctx => do
    let (ctx,frames) ← nativeStep uuid4 loads native ctx
    let (ctx,frames') ← nativeRun natives ctx
    .ok (ctx,frames ++ frames')

end Runtime
end AgentStream
end Allama

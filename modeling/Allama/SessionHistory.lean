import Mathlib.Data.List.Infix
import Mathlib.Data.List.Nodup
import Mathlib.Data.List.Perm.Basic
import Allama.DSLTypes

/-! The rewrite of a session's history when the calls that waited for approval have their results
(`agent/session/service.py`). -/
namespace Allama
namespace SessionHistory

inductive LineType
  | user
  | assistant
  | other
deriving DecidableEq

/-- A block of the content of a message, of which the content of a result is kept as its text. -/
inductive Block
  | toolUse (id : String)
  | toolResult (toolUseId content : String) (isError : Bool)
  | text (text : String)
  | other
deriving DecidableEq

inductive Content
  | text (text : String)
  | blocks (blocks : List Block)
deriving DecidableEq

/-- A line of the history, with the fields that the rewrite reads. -/
structure HistoryLine where
  type : LineType
  uuid : Option String
  parentUuid : Option String
  model : Option String := none
  content : Content
deriving DecidableEq

/-- `ToolExecutionResult`. -/
structure ToolResult where
  toolCallId : String
  toolName : String
  result : Value
  isError : Bool

def Content.toBlocks : Content → List Block
  | .text s => [.text s]
  | .blocks bs => bs

def HistoryLine.blocks (line : HistoryLine) : List Block := line.content.toBlocks

def Block.usesOne (toolCallIds : List String) : Block → Bool
  | .toolUse id => id ∈ toolCallIds
  | _ => false

section Rewrite
variable (toolCallIds : List String)

/-- The assistant line uses one of the calls. -/
def usesTool (line : HistoryLine) : Bool :=
  line.type = .assistant &&
    match line.content with
    | .text _ => false
    | .blocks blocks => blocks.any (·.usesOne toolCallIds)

def interruptText (text : String) : Bool := decide ("[Request interrupted".toList <:+: text.toList)

def isInterruptBlock : Block → Bool
  | .toolResult toolUseId _ isError => isError && toolUseId ∈ toolCallIds
  | .text text => interruptText text
  | _ => false

/-- What `_delete_interrupt_entries_for_tool_calls` takes for an interrupt. -/
def isInterrupt (line : HistoryLine) : Bool :=
  match line.type,line.content with
  | .user,.blocks blocks => blocks.any (isInterruptBlock toolCallIds)
  | .assistant,_ => line.model = some "<synthetic>"
  | _,_ => false

/-- The last line that uses one of the calls, between the lines before it and after it. -/
def lastUse : List HistoryLine → Option (List HistoryLine × HistoryLine × List HistoryLine)
  | [] => none
  | line :: lines =>
    match lastUse lines with
    | some (before,anchor,after) => some (line :: before,anchor,after)
    | none => if usesTool toolCallIds line then some ([],line,lines) else none

end Rewrite

/-- `_serialize_tool_result`; `dumps` is `json.dumps`. -/
def serializeToolResult (dumps : Value → String) : Value → String
  | .str text => text
  | value => dumps value

/-- The line of the results, without its constant fields. -/
def resultLine (dumps : Value → String) (uuid parentUuid : String) (results : List ToolResult) : HistoryLine where
  type := .user
  uuid := some uuid
  parentUuid := some parentUuid
  content := .blocks (results.map fun r => .toolResult r.toolCallId (serializeToolResult dumps r.result) r.isError)

/-- The lines that are kept, and the one that is added. -/
structure Rewritten where
  kept : List HistoryLine
  added : Option HistoryLine

def Rewritten.history (r : Rewritten) : List HistoryLine := r.kept ++ r.added.toList

/-- `replace_interrupt_with_tool_results`, for a session that is there. -/
def replaceInterrupt (dumps : Value → String) (uuid : String) (results : List ToolResult) (history : List HistoryLine) :
    Rewritten :=
  if results = [] then ⟨history,none⟩
  else
    let toolCallIds := results.map ToolResult.toolCallId
    match lastUse toolCallIds history with
    | none => ⟨history,none⟩
    | some (before,anchor,after) =>
      match anchor.uuid with
      | none => ⟨history,none⟩
      | some anchorUuid =>
        ⟨before ++ anchor :: after.filter (! isInterrupt toolCallIds ·),some (resultLine dumps uuid anchorUuid results)⟩

def Block.resultOf (id : String) : Block → Bool
  | .toolResult toolUseId _ _ => toolUseId = id
  | _ => false

def resultCount (id : String) (history : List HistoryLine) : ℕ := (history.flatMap HistoryLine.blocks).countP (·.resultOf id)

/-- The results and texts of a line that do not belong to the interrupt of the calls. -/
def foreignBlocks (toolCallIds : List String) (line : HistoryLine) : List Block :=
  if line.type = .assistant ∧ line.model = some "<synthetic>" then []
  else
    line.blocks.filter fun block =>
      match block with
      | .toolResult _ _ _ | .text _ => ! isInterruptBlock toolCallIds block
      | _ => false

/-- Each line that names a parent names a line that is there. -/
def ParentsNamed (history : List HistoryLine) : Prop :=
  ∀ line ∈ history, ∀ parent, line.parentUuid = some parent → ∃ other ∈ history, other.uuid = some parent

theorem parentsNamed_iff {history : List HistoryLine} : ParentsNamed history ↔
    ∀ line ∈ history, line.parentUuid = none ∨ ∃ other ∈ history, other.uuid = line.parentUuid := by
  constructor
  · intro h line hline
    cases hparent : line.parentUuid with
    | none => exact .inl rfl
    | some parent => exact .inr (h line hline parent hparent)
  · intro h line hline parent hparent
    have hnamed := h line hline
    rw [hparent] at hnamed
    exact hnamed.resolve_left nofun

instance (history : List HistoryLine) : Decidable (ParentsNamed history) := decidable_of_iff _ parentsNamed_iff.symm

/-- After some line that uses one of the calls, there is no interrupt. -/
def NoInterruptAfterUse (toolCallIds : List String) (lines : List HistoryLine) : Prop :=
  ∀ before line after, lines = before ++ line :: after → (∃ use ∈ before, usesTool toolCallIds use = true) →
    isInterrupt toolCallIds line = false

/-- What the rewrite is for. -/
structure Repaired (results : List ToolResult) (history : List HistoryLine) (r : Rewritten) : Prop where
  once : ∀ result ∈ results, resultCount result.toolCallId r.history = 1
  kept : (history.flatMap (foreignBlocks (results.map ToolResult.toolCallId))).Sublist
    (r.kept.flatMap (foreignBlocks (results.map ToolResult.toolCallId)))
  gone : NoInterruptAfterUse (results.map ToolResult.toolCallId) r.kept
  parents : ParentsNamed r.history

/-- A history of the SDK: its uuids are distinct, its parents are there, and its assistant lines have a uuid. -/
structure Coherent (uuid : String) (history : List HistoryLine) : Prop where
  distinct : (history.filterMap HistoryLine.uuid).Nodup
  parents : ParentsNamed history
  assistants : ∀ line ∈ history, line.type = .assistant → line.uuid ≠ none
  fresh : ∀ line ∈ history, line.uuid ≠ some uuid

/-- The results of calls that are in the history, one for each. -/
structure Awaited (results : List ToolResult) (history : List HistoryLine) : Prop where
  distinct : (results.map ToolResult.toolCallId).Nodup
  used : ∀ result ∈ results, ∃ line ∈ history, usesTool [result.toolCallId] line = true

/-- The lines around the last use of the calls, when the rewrite does what it is for. -/
structure Tidy (toolCallIds : List String) (before : List HistoryLine) (anchor : HistoryLine) (after : List HistoryLine) :
    Prop where
  resultsBefore : ∀ id ∈ toolCallIds, ∀ line ∈ before ++ [anchor], ∀ block ∈ line.blocks, block.resultOf id = false
  resultsAfter : ∀ id ∈ toolCallIds, ∀ line ∈ after, isInterrupt toolCallIds line = false →
    ∀ block ∈ line.blocks, block.resultOf id = false
  interrupts : NoInterruptAfterUse toolCallIds (before ++ [anchor])
  pure : ∀ line ∈ after, isInterrupt toolCallIds line = true → foreignBlocks toolCallIds line = []
  parents : ∀ line ∈ before ++ anchor :: after.filter (! isInterrupt toolCallIds ·), ∀ interrupt ∈ after,
    isInterrupt toolCallIds interrupt = true → line.parentUuid = none ∨ line.parentUuid ≠ interrupt.uuid

end SessionHistory
end Allama

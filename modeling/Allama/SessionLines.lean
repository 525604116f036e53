import Allama.TextLines
import Allama.WorkflowRecords

/-! The lines of the SDK's session file, from the runtime (`agent/runtime/claude_code/runtime.py`) to the store
(`agent/executor/loopback.py`). -/
namespace Allama
namespace SessionFile
open TextLines

/-- `needle in value`, and `none` where Python raises. -/
def occursIn (needle : String) : Value → Option Bool
  | .str s => some (decide (needle.toList <:+: s.toList))
  | .list xs => some (xs.any fun x => match x with | .str s => s = needle | _ => false)
  | .dict entries => some (entries.lookup needle).isSome
  | _ => none

section Runtime

/- `loads` is `json.loads`, and `none` its error; `str` is the text of a value. -/
variable (loads : Text → Option Value) (str : Value → String)

/-- A part of the content that marks an interrupt. -/
def isInterruptPart : Value → Option Bool
  | .dict part =>
    match part.lookup "type" with
    | some (.str "tool_result") =>
      if ((part.lookup "is_error").getD .none).truthy then
        some (decide ("doesn't want to take this action".toList <:+: (str ((part.lookup "content").getD (.str ""))).toList))
      else some false
    | some (.str "text") => occursIn "[Request interrupted by user" ((part.lookup "text").getD (.str ""))
    | _ => some false
  | _ => some false

def anyInterruptPart : List Value → Option Bool
  | [] => some false
  | part :: parts => (isInterruptPart str part).bind fun found => if found then some true else anyInterruptPart parts

def isInternalSessionLine (lineData : List (String × Value)) : Option Bool :=
  let ofMessage (message : List (String × Value)) : Option Bool :=
    match message.lookup "model" with
    | some (.str "<synthetic>") => some true
    | _ =>
      match (message.lookup "content").getD (.list []) with
      | .str text =>
        some ("Tool '".toList.isPrefixOf text.toList &&
          (decide ("Result:".toList <:+: text.toList) || decide ("Error:".toList <:+: text.toList)))
      | .list parts => anyInterruptPart str parts
      | _ => some false
  match lineData.lookup "type" with
  | some (.str "user") | some (.str "assistant") =>
    match (lineData.lookup "message").getD (.dict []) with
    | .dict message => ofMessage message
    | _ => none
  | _ => some true

def isUser (lineData : List (String × Value)) : Bool :=
  match lineData.lookup "type" with
  | some (.str "user") => true
  | _ => false

/-- A line with its flag, as it is sent to the orchestrator. -/
structure SessionLine where
  line : Text
  internal : Bool
deriving DecidableEq

structure ReaderState where
  lastSeenLineIndex : ℕ := 0
  captured : Bool := false
  isContinuation : Bool

/-- The line data that the runtime goes by: an error of any kind ends the pass. -/
def lineInfo (line : Text) : Option (List (String × Value) × Bool) :=
  match loads line with
  | some (.dict lineData) => (isInternalSessionLine str lineData).map fun internal => (lineData,internal)
  | _ => none

/-- The loop of `_emit_new_session_lines` over the lines that are new. -/
def emitLines : List Text → ReaderState → ReaderState × List SessionLine
  | [], s => (s,[])
  | line :: lines, s =>
    if strip line = [] then emitLines lines {s with lastSeenLineIndex := s.lastSeenLineIndex+1}
    else
      match lineInfo loads str line with
      | none => (s,[])
      | some (lineData,internal) =>
        let marked := s.isContinuation && isUser lineData
        let (s,sent) := emitLines lines
          {s with lastSeenLineIndex := s.lastSeenLineIndex+1, isContinuation := s.isContinuation && !marked}
        (s,⟨line,internal || marked⟩ :: sent)

/-- `_emit_new_session_lines`, when the file holds `content`. -/
def emitNewSessionLines (content : Text) (s : ReaderState) : ReaderState × List SessionLine :=
  if s.captured then emitLines loads str ((splitLines content).drop s.lastSeenLineIndex) s else (s,[])

/-- A message of the SDK that has the runtime look at the file: a stream event, or one that ends a message. -/
inductive Read
  | streamEvent
  | emit
deriving DecidableEq

/-- One turn of the loop over `receive_response`. -/
def readStep (resumed : Bool) (content : Text) (s : ReaderState) : Read → ReaderState × List SessionLine
  | .streamEvent =>
    if s.captured then (s,[])
    else
      ({s with
        captured := true
        lastSeenLineIndex := if resumed then (splitLines content).length else s.lastSeenLineIndex},[])
  | .emit => emitNewSessionLines loads str content s

/-- The loop over `receive_response`, where each message finds some of what the turn has appended. -/
def readAll (resumed : Bool) (earlier appended : Text) : List (Read × ℕ) → ReaderState → ReaderState × List SessionLine
  | [], s => (s,[])
  | (read,seen) :: reads, s =>
    let (s,sent) := readStep loads str resumed (earlier ++ appended.take seen) s read
    let (s,sent') := readAll resumed earlier appended reads s
    (s,sent ++ sent')

end Runtime

section Loopback
variable (loads : Text → Option Value)

/-- A row of the history: its content, and whether its kind is internal. -/
structure HistoryEntry where
  content : Value
  internal : Bool

/-- `line_data.get("uuid")`, when it is a text that is not empty. -/
def uuidOf : Value → Option String
  | .dict lineData =>
    match lineData.lookup "uuid" with
    | some (.str uuid) => if uuid = "" then none else some uuid
    | _ => none
  | _ => none

/-- `_persist_session_line` of each line that arrives, with the uuids of those that are stored. -/
def persistSessionLines : List SessionLine → List String → List HistoryEntry
  | [], _ => []
  | line :: lines, persisted =>
    match loads line.line with
    | none => []
    | some content =>
      match uuidOf content with
      | none => ⟨content,line.internal⟩ :: persistSessionLines lines persisted
      | some uuid =>
        if uuid ∈ persisted then persistSessionLines lines persisted
        else ⟨content,line.internal⟩ :: persistSessionLines lines (uuid :: persisted)

end Loopback
end SessionFile
end Allama

import Allama.Runs
import Mathlib.Data.Nat.Notation

/-! Interactions of a workflow (`InteractionManager`): an interactive action waits for a response from outside. -/
namespace Allama
namespace Interactions
section Model
variable (Data : Type)

inductive InteractionStatus
  | idle
  | pending
  | error
  | timed_out
  | completed
deriving DecidableEq, Repr

/-- The state of an interaction in the workflow. -/
structure InteractionState where
  status : InteractionStatus
  data : Data
deriving DecidableEq, Repr

/-- The row of an interaction in the database. -/
structure Interaction where
  status : InteractionStatus
  response_payload : Option Data := none
deriving DecidableEq, Repr

structure InteractionInput where
  interaction_id : ℕ
  execution_id : String
  data : Data
deriving DecidableEq, Repr

structure InteractionResult where
  message : String
  detail : Data
deriving DecidableEq, Repr

/-- A workflow with its states, the rows of the database, the number of rows, and the accepted responses in order. -/
structure Workflow where
  wf_exec_id : String
  states : ℕ → Option (InteractionState Data)
  rows : ℕ → Option (Interaction Data)
  created : ℕ
  responses : List (ℕ × Data)

/-- Where an interactive action awaits. -/
inductive Phase
  | preparing
  | executing (interaction_id : ℕ)
  /-- Its row is being set to pending. -/
  | marking (interaction_id : ℕ)
  | waiting (interaction_id : ℕ)
  /-- Its row is being completed with a payload. -/
  | completing (interaction_id : ℕ) (response_payload : Data)
  | returned (interaction_id : ℕ) (result : Data)
  | timingOut (interaction_id : ℕ)
  | timedOut (interaction_id : ℕ)
  | failing (interaction_id : ℕ)
  | raised (interaction_id : Option ℕ)
deriving DecidableEq, Repr

/-- A run of `maybe_interactive` around an action, and whether its wait has a timeout. -/
structure Call where
  timeout : Bool
  phase : Phase Data
deriving DecidableEq, Repr

end Model

/-- How an await ends. -/
inductive Event
  | succeed
  /-- An activity, or the action, raises. The activity may have written its row all the same. -/
  | fail (applied : Bool)
  /-- The condition of the wait is true. -/
  | activate
  | timeout
  | cancel
deriving DecidableEq, Repr

section Manager
variable {Data : Type}

def InteractionState.isActivated (state : InteractionState Data) : Bool := state.status == .completed

def validateInteraction (wf : Workflow Data) (input : InteractionInput Data) : Except String Unit :=
  if wf.states input.interaction_id = none then
    .error "Workflow interaction handler could not find interaction state"
  else if wf.wf_exec_id ≠ input.execution_id then
    .error "Workflow interaction handler received invalid execution ID"
  else .ok ()

def Workflow.changeState (interaction_id : ℕ) (f : InteractionState Data → InteractionState Data) (wf : Workflow Data) :
    Workflow Data :=
  { wf with states := fun id => if id = interaction_id then (wf.states id).map f else wf.states id }

/-- A response is accepted whatever the status of the interaction. -/
def handleInteraction (wf : Workflow Data) (input : InteractionInput Data) :
    Except String (InteractionResult Data) × Workflow Data :=
  if wf.states input.interaction_id = none then (.error "Received interaction for unknown action",wf)
  else
    let wf := wf.changeState input.interaction_id fun _ => ⟨.completed,input.data⟩
    (.ok ⟨"success",input.data⟩,{ wf with responses := wf.responses ++ [(input.interaction_id,input.data)] })

/-- A response from outside: only an input that is valid reaches the handler. -/
def respond (wf : Workflow Data) (input : InteractionInput Data) : Except String (InteractionResult Data) × Workflow Data :=
  match validateInteraction wf input with
  | .error message => (.error message,wf)
  | .ok () => handleInteraction wf input

/-- The fields that an update sets. -/
def updateInteraction (interaction_id : ℕ) (status : InteractionStatus) (response_payload : Option Data) (wf : Workflow Data) :
    Workflow Data :=
  { wf with
    rows := fun id => if id = interaction_id then (wf.rows id).map fun row =>
        ⟨status,response_payload.or row.response_payload⟩
      else wf.rows id }

def createInteraction (wf : Workflow Data) : Workflow Data :=
  { wf with
    rows := fun id => if id = wf.created then some { status := .idle } else wf.rows id
    created := wf.created + 1 }

variable [EmptyCollection Data]

/-- The end of `prepare_interaction`: a new row, and an idle state for it. -/
def prepareInteraction (wf : Workflow Data) : Workflow Data :=
  { createInteraction wf with
    states := fun id => if id = wf.created then some ⟨.idle,∅⟩ else wf.states id }

/-- An interactive action proceeds: `prepare_interaction`, the action itself, and `wait_for_response`. -/
def advance (wf : Workflow Data) (call : Call Data) (event : Event) : Option (Workflow Data × Call Data) :=
  match call.phase, event with
  | .preparing, .succeed => some (prepareInteraction wf,{ call with phase := .executing wf.created })
  | .preparing, .fail applied => some (if applied then createInteraction wf else wf,{ call with phase := .raised none })
  | .executing id, .succeed =>
    some (wf.changeState id fun state => { state with status := .pending },{ call with phase := .marking id })
  | .executing id, .fail _ => some (wf,{ call with phase := .raised (some id) })
  | .marking id, .succeed => some (updateInteraction id .pending none wf,{ call with phase := .waiting id })
  | .marking id, .fail applied =>
    some (if applied then updateInteraction id .pending none wf else wf,{ call with phase := .failing id })
  | .waiting id, .activate =>
    match wf.states id with
    | none => none
    | some state => if state.isActivated then some (wf,{ call with phase := .completing id state.data }) else none
  | .waiting id, .timeout =>
    match wf.states id with
    | none => none
    | some state => if call.timeout && !state.isActivated then some (wf,{ call with phase := .timingOut id }) else none
  | .waiting id, .cancel => some (wf,{ call with phase := .raised (some id) })
  | .completing id payload, .succeed =>
    match wf.states id with
    | none => none
    | some state => some (updateInteraction id .completed (some payload) wf,{ call with phase := .returned id state.data })
  | .completing id payload, .fail applied =>
    some (if applied then updateInteraction id .completed (some payload) wf else wf,{ call with phase := .failing id })
  | .timingOut id, .succeed => some (updateInteraction id .timed_out none wf,{ call with phase := .timedOut id })
  | .timingOut id, .fail applied =>
    some (if applied then updateInteraction id .timed_out none wf else wf,{ call with phase := .raised (some id) })
  | .failing id, .succeed => some (updateInteraction id .error none wf,{ call with phase := .raised (some id) })
  | .failing id, .fail applied =>
    some (if applied then updateInteraction id .error none wf else wf,{ call with phase := .raised (some id) })
  | _, _ => none

end Manager

section Runs
variable (Data : Type)

structure State where
  wf : Workflow Data
  calls : List (Call Data)

inductive Action
  /-- An interactive action is scheduled. -/
  | start (timeout : Bool)
  | event (call : ℕ) (event : Event)
  | response (input : InteractionInput Data)
deriving DecidableEq, Repr

variable {Data} [EmptyCollection Data]

def next (state : State Data) : Action Data → Option (State Data)
  | .start timeout => some { state with calls := state.calls ++ [⟨timeout,.preparing⟩] }
  | .event i event =>
    state.calls[i]?.bind fun call => (advance state.wf call event).map fun result => ⟨result.1,state.calls.set i result.2⟩
  | .response input => some { state with wf := (respond state.wf input).2 }

def started (wf_exec_id : String) : State Data := ⟨⟨wf_exec_id,fun _ => none,fun _ => none,0,[]⟩,[]⟩

end Runs
end Interactions
end Allama

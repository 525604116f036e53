import Allama.CasePages
import Allama.RecordFields

/-! Updates of a case within a session (`CasesService.update_case`), and the events that they record. -/
namespace Allama
namespace Cases

set_option linter.constructorNameAsVariable false

open RecordFields
section Model
variable (Value Payload : Type)

/-- The columns of a case that updates write. -/
structure Attributes where
  status : CaseStatus
  priority : CasePriority
  severity : CaseSeverity
  assignee_id : Option Nat
  summary : String
  description : String
  payload : Option Payload
deriving DecidableEq, Repr

structure FieldDiff where
  field : String
  old : Option Value
  new : Option Value
deriving DecidableEq, Repr

inductive EventData
  | closed (old new : CaseStatus)
  | reopened (old new : CaseStatus)
  | statusChanged (old new : CaseStatus)
  | priorityChanged (old new : CasePriority)
  | severityChanged (old new : CaseSeverity)
  | fieldsChanged (changes : List (FieldDiff Value))
  | assigneeChanged (old new : Option Nat)
  /-- Of the field `summary`. -/
  | updated (old new : String)
  | payloadChanged
deriving DecidableEq, Repr

structure CaseEvent where
  data : EventData Value
  wf_exec_id : Option String
deriving DecidableEq, Repr

/-- The row of a case, its row of custom fields, and its events. -/
structure Tables where
  row : Attributes Payload
  fields : List (String × Option Value)
  events : List (CaseEvent Value)
deriving DecidableEq, Repr

/-- What is committed, and what a session sees. -/
structure Session where
  committed : Tables Value Payload
  working : Tables Value Payload
deriving DecidableEq, Repr

/-- A dict of custom fields. -/
def Fields := { fields : List (String × Option Value) // (fields.map Prod.fst).Nodup }

/-- The supplied fields: a field that is omitted is `none`, one that is null `some none`. -/
structure CaseUpdate where
  summary : Option (Option String) := none
  description : Option (Option String) := none
  status : Option (Option CaseStatus) := none
  priority : Option (Option CasePriority) := none
  severity : Option (Option CaseSeverity) := none
  fields : Option (Option (Fields Value)) := none
  assignee_id : Option (Option Nat) := none
  payload : Option (Option Payload) := none

/-- Where an update writes to the database. -/
inductive Stage
  | status
  | priority
  | severity
  | fields
  | finish
deriving DecidableEq, Repr

/-- The workflow execution of the run context, and where the database fails. -/
structure Environment where
  wf_exec_id : Option String
  fails : Stage → Bool

inductive UpdateError
  | field (message : String)
  | database
deriving DecidableEq, Repr

end Model

section Update
variable {Value Payload : Type} [DecidableEq Value] [DecidableEq Payload]

def Tables.fieldValue (tables : Tables Value Payload) (field : String) : Option Value :=
  (tables.fields.lookup field).getD none

def statusEvent (old new : CaseStatus) : EventData Value :=
  if new = .closed then .closed old new
  else if old = .closed then .reopened old new
  else .statusChanged old new

/-- A change of an attribute, with its event; none if the event cannot be written. A value that is null is skipped, and one
that is the old value is no change. -/
def changeAttribute {A : Type} [DecidableEq A] (get : Attributes Payload → A)
    (set : A → Attributes Payload → Attributes Payload) (event : A → A → EventData Value) (wf_exec_id : Option String)
    (fails : Bool) (new : Option A) (tables : Tables Value Payload) : Option (Tables Value Payload) :=
  match new with
  | none => some tables
  | some new =>
    let old := get tables.row
    if old = new then some tables
    else if fails then none
    else some { tables with row := set new tables.row, events := tables.events ++ [⟨event old new,wf_exec_id⟩] }

def changeStatus (env : Environment) (new : Option CaseStatus) (tables : Tables Value Payload) :
    Option (Tables Value Payload) :=
  changeAttribute Attributes.status (fun new row => { row with status := new }) statusEvent env.wf_exec_id
    (env.fails .status) new tables

def changePriority (env : Environment) (new : Option CasePriority) (tables : Tables Value Payload) :
    Option (Tables Value Payload) :=
  changeAttribute Attributes.priority (fun new row => { row with priority := new }) .priorityChanged env.wf_exec_id
    (env.fails .priority) new tables

def changeSeverity (env : Environment) (new : Option CaseSeverity) (tables : Tables Value Payload) :
    Option (Tables Value Payload) :=
  changeAttribute Attributes.severity (fun new row => { row with severity := new }) .severityChanged env.wf_exec_id
    (env.fails .severity) new tables

variable (bind : String → Option Value → Except String (Option Value))

/-- The values of the columns that an update of the field row binds; the first that cannot be bound raises. -/
def bindAll : List (String × Option Value) → Except String (List (String × Option Value))
  | [] => .ok []
  | (field,value) :: rest =>
    match bind field value with
    | .error message => .error message
    | .ok stored =>
      match bindAll rest with
      | .error message => .error message
      | .ok rows => .ok ((field,stored) :: rows)

/-- The supplied fields that differ from the stored ones. -/
def diffsOf (tables : Tables Value Payload) (fields : List (String × Option Value)) : List (FieldDiff Value) :=
  fields.filterMap fun entry =>
    if tables.fieldValue entry.1 = entry.2 then none else some ⟨entry.1,tables.fieldValue entry.1,entry.2⟩

def suppliedFields (fields : Option (Option (Fields Value))) : List (String × Option Value) :=
  match fields with
  | some (some fields) => fields.1
  | _ => []

/-- Custom fields are written as they are bound, and recorded as they are supplied. -/
def changeFields (env : Environment) (fields : List (String × Option Value)) (tables : Tables Value Payload) :
    Except UpdateError (Tables Value Payload) :=
  if fields = [] then .ok tables
  else
    match bindAll bind fields with
    | .error message => .error (.field message)
    | .ok stored =>
      if env.fails .fields then .error .database
      else .ok
        { tables with
          fields := stored.foldl (fun fields row => put row.1 row.2 fields) tables.fields
          events := tables.events ++ [⟨.fieldsChanged (diffsOf tables fields),env.wf_exec_id⟩] }

/-- The remaining attributes are set whatever they were; a null summary or description violates its column. -/
def setAttributes (params : CaseUpdate Value Payload) (row : Attributes Payload) : Option (Attributes Payload) :=
  match params.summary.getD (some row.summary), params.description.getD (some row.description) with
  | some summary, some description => some
    { row with
      summary := summary
      description := description
      assignee_id := params.assignee_id.getD row.assignee_id
      payload := params.payload.getD row.payload }
  | _, _ => none

/-- Their events: of the payload only if it changed. -/
def attributeEvents (env : Environment) (params : CaseUpdate Value Payload) (row row' : Attributes Payload) :
    List (CaseEvent Value) :=
  (if params.summary.isSome then [⟨.updated row.summary row'.summary,env.wf_exec_id⟩] else []) ++
    (if params.assignee_id.isSome then [⟨.assigneeChanged row.assignee_id row'.assignee_id,env.wf_exec_id⟩] else []) ++
    (if row.payload = row'.payload then [] else [⟨.payloadChanged,env.wf_exec_id⟩])

/-- The end of an update: one commit of everything, or a rollback. -/
def finishUpdate (env : Environment) (params : CaseUpdate Value Payload) (tables : Tables Value Payload) :
    Option (Tables Value Payload) :=
  match setAttributes params tables.row with
  | none => none
  | some row =>
    if env.fails .finish then none
    else some { tables with row := row, events := tables.events ++ attributeEvents env params tables.row row }

/-- A session that is rolled back, as one is after a failure of the database. -/
def Session.rollback (session : Session Value Payload) : Session Value Payload := ⟨session.committed,session.committed⟩

def updateCase (session : Session Value Payload) (params : CaseUpdate Value Payload) (env : Environment) :
    Except UpdateError Unit × Session Value Payload :=
  match ((changeStatus env params.status.join session.working).bind (changePriority env params.priority.join)).bind
      (changeSeverity env params.severity.join) with
  | none => (.error .database,session.rollback)
  | some tables =>
    match changeFields bind env (suppliedFields params.fields) tables with
    | .error .database => (.error .database,session.rollback)
    -- an error in the fields themselves is raised with the changes before them in the session
    | .error (.field message) => (.error (.field message),{ session with working := tables })
    | .ok tables =>
      match finishUpdate env params tables with
      | none => (.error .database,session.rollback)
      | some tables => (.ok (),⟨tables,tables⟩)

/-- A call, or the end of a session. -/
inductive Action (Value Payload : Type)
  | update (params : CaseUpdate Value Payload) (env : Environment)
  | discard

def next (session : Session Value Payload) : Action Value Payload → Option (Session Value Payload)
  | .update params env => some (updateCase bind session params env).2
  | .discard => some session.rollback

end Update
end Cases
end Allama

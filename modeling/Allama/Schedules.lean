import Allama.RecordFields
import Allama.Templates

/-! Schedules of workflows: a row of the database, and what the bridge last sent to Temporal for it. -/
namespace Allama
namespace Schedules
open RecordFields

inductive Status
  | online
  | offline
deriving DecidableEq, Repr

section Rows
variable (Inputs Timeout : Type)

/-- The fields of a row. Durations and instants are numbers of microseconds. -/
structure Schedule where
  status : Status
  cron : Option String
  inputs : Option Inputs
  every : Option Int
  offset : Option Int
  start_at : Option Int
  end_at : Option Int
  timeout : Timeout
deriving DecidableEq, Repr

structure ScheduleCreate where
  inputs : Option Inputs := none
  cron : Option String := none
  every : Option Int := none
  offset : Option Int := none
  start_at : Option Int := none
  end_at : Option Int := none
  status : Status := .online
  timeout : Timeout
deriving DecidableEq, Repr

/-- The supplied fields of an update: a field that is omitted is `none`, one that is null `some none`. -/
structure ScheduleUpdate where
  inputs : Option (Option Inputs) := none
  cron : Option (Option String) := none
  every : Option (Option Int) := none
  offset : Option (Option Int) := none
  start_at : Option (Option Int) := none
  end_at : Option (Option Int) := none
  status : Option (Option Status) := none
deriving DecidableEq, Repr

end Rows

structure ScheduleIntervalSpec where
  every : Int
  offset : Option Int
deriving DecidableEq, Repr

structure ScheduleSpec where
  cron_expressions : List String
  intervals : List ScheduleIntervalSpec
  start_at : Option Int
  end_at : Option Int
deriving DecidableEq, Repr

/-- A schedule of Temporal, with the timeout of its action and the paused flag of its state. -/
structure TemporalSchedule where
  spec : ScheduleSpec
  execution_timeout : Option Int
  paused : Bool
deriving DecidableEq, Repr

/-- `not cron.strip()`. -/
def blank (cron : String) : Bool := cron.toList.all isSpace

section Models
variable {Inputs Timeout : Type} (isValid : String → Bool)

def validateCronExpression (cron : Option String) : Bool := cron.all fun cron => cron = "" || isValid cron

def ScheduleCreate.valid (params : ScheduleCreate Inputs Timeout) : Bool :=
  validateCronExpression isValid params.cron && (params.cron.isSome || params.every.isSome)

def ScheduleUpdate.valid (params : ScheduleUpdate Inputs) : Bool := validateCronExpression isValid params.cron.join

end Models

section Bridge
variable {Inputs Timeout : Type} (truthy : Timeout → Bool) (timedeltaOf : Timeout → Option Int)

def executionTimeout (timeout : Timeout) : Option (Option Int) :=
  if truthy timeout then (timedeltaOf timeout).map some else some none

/-- The schedule that is created, or none if the bridge raises. -/
def bridgeCreateSchedule (params : ScheduleCreate Inputs Timeout) : Option TemporalSchedule :=
  match executionTimeout truthy timedeltaOf params.timeout with
  | none => none
  | some execution_timeout =>
    match params.cron.filter fun cron => !blank cron, params.every with
    | none, none => none
    | some cron, _ => some ⟨⟨[cron],[],params.start_at,params.end_at⟩,execution_timeout,false⟩
    | none, some every => some ⟨⟨[],[⟨every,params.offset⟩],params.start_at,params.end_at⟩,execution_timeout,false⟩

def suppliedCron (params : ScheduleUpdate Inputs) : Option String := params.cron.join.filter fun cron => cron ≠ ""

/-- A cron expression clears the intervals. -/
def updateCron (params : ScheduleUpdate Inputs) (spec : ScheduleSpec) : ScheduleSpec :=
  match params.cron, suppliedCron params with
  | none, _ => spec
  | some _, some cron => { spec with cron_expressions := [cron], intervals := [] }
  | some _, none => { spec with cron_expressions := [] }

/-- An interval clears the cron expressions; what is not supplied of it is what it was. -/
def updateInterval (params : ScheduleUpdate Inputs) (spec : ScheduleSpec) : ScheduleSpec :=
  let current_interval := spec.intervals.head?
  let every := params.every.getD (current_interval.map ScheduleIntervalSpec.every)
  let offset := params.offset.getD (current_interval.bind ScheduleIntervalSpec.offset)
  match every with
  | none => { spec with intervals := [] }
  | some every => { spec with intervals := [⟨every,offset⟩], cron_expressions := [] }

def updateTrigger (params : ScheduleUpdate Inputs) (spec : ScheduleSpec) : ScheduleSpec :=
  let spec := updateCron params spec
  if (suppliedCron params).isNone ∧ (params.every.isSome ∨ params.offset.isSome) then updateInterval params spec else spec

/-- The schedule that is sent back, or none if the bridge raises: the arguments of the action have no `dsl`. -/
def bridgeUpdateSchedule (params : ScheduleUpdate Inputs) (schedule : TemporalSchedule) : Option TemporalSchedule :=
  if params.inputs.isSome then none
  else
    let spec := updateTrigger params schedule.spec
    some
      { schedule with
        paused := match params.status with
          | none => schedule.paused
          | some status => status ≠ some .online
        spec :=
          { spec with
            start_at := params.start_at.getD spec.start_at
            end_at := params.end_at.getD spec.end_at } }

end Bridge

section Service
variable {Inputs Timeout : Type} [EmptyCollection Inputs] (isValid : String → Bool) (truthy : Timeout → Bool)
  (timedeltaOf : Timeout → Option Int)

/-- The rows and the schedules of Temporal by their ids. -/
structure State (Inputs Timeout : Type) where
  rows : List (Nat × Schedule Inputs Timeout)
  temporal : List (Nat × TemporalSchedule)
  next_id : Nat
deriving DecidableEq, Repr

def State.empty : State Inputs Timeout := ⟨[],[],0⟩

/-- The row of a create: it is online whatever the status that is asked for. -/
def Schedule.ofCreate (params : ScheduleCreate Inputs Timeout) : Schedule Inputs Timeout where
  status := .online
  cron := params.cron
  inputs := some (params.inputs.getD ∅)
  every := params.every
  offset := params.offset
  start_at := params.start_at
  end_at := params.end_at
  timeout := params.timeout

/-- The supplied fields are set, each by itself; a null status violates the column. -/
def Schedule.setFields (row : Schedule Inputs Timeout) (params : ScheduleUpdate Inputs) :
    Option (Schedule Inputs Timeout) :=
  match params.status.getD (some row.status) with
  | none => none
  | some status => some
    { status := status
      cron := params.cron.getD row.cron
      inputs := params.inputs.getD row.inputs
      every := params.every.getD row.every
      offset := params.offset.getD row.offset
      start_at := params.start_at.getD row.start_at
      end_at := params.end_at.getD row.end_at
      timeout := row.timeout }

/-- The row is committed, and then the schedule created; an error of the bridge is logged. -/
def createSchedule (st : State Inputs Timeout) (params : ScheduleCreate Inputs Timeout) : State Inputs Timeout where
  rows := put st.next_id (Schedule.ofCreate params) st.rows
  temporal := match bridgeCreateSchedule truthy timedeltaOf params with
    | none => st.temporal
    | some schedule => put st.next_id schedule st.temporal
  next_id := st.next_id + 1

/-- The row is committed, and then the schedule updated; none if the update raises. -/
def updateSchedule (st : State Inputs Timeout) (schedule_id : Nat) (params : ScheduleUpdate Inputs) :
    Option (State Inputs Timeout) :=
  match (st.rows.lookup schedule_id).bind fun row => row.setFields params with
  | none => none
  | some row => some
    { st with
      rows := put schedule_id row st.rows
      temporal := match (st.temporal.lookup schedule_id).bind (bridgeUpdateSchedule params) with
        | none => st.temporal
        | some schedule => put schedule_id schedule st.temporal }

inductive Call (Inputs Timeout : Type)
  | create (params : ScheduleCreate Inputs Timeout)
  | update (schedule_id : Nat) (params : ScheduleUpdate Inputs)
deriving DecidableEq, Repr

/-- A call with valid parameters; one that raises leaves everything as it was. -/
def next (st : State Inputs Timeout) : Call Inputs Timeout → Option (State Inputs Timeout)
  | .create params => if params.valid isValid then some (createSchedule truthy timedeltaOf st params) else none
  | .update schedule_id params =>
    if params.valid isValid then some ((updateSchedule st schedule_id params).getD st) else none

end Service
end Schedules
end Allama

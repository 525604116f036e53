import Allama.RowPages

/-! Cases in pages (`cases/service.py`, `pagination.py`). -/
namespace Allama
namespace Cases
open Tables (Cursor PageError Packages SortDirection SortValue encodeCursor decodeCursor)

inductive CaseStatus
  | unknown
  | new
  | in_progress
  | on_hold
  | resolved
  | closed
  | other
deriving DecidableEq, Repr

inductive CasePriority
  | unknown
  | low
  | medium
  | high
  | critical
  | other
deriving DecidableEq, Repr

inductive CaseSeverity
  | unknown
  | informational
  | low
  | medium
  | high
  | critical
  | fatal
  | other
deriving DecidableEq, Repr

inductive CaseTaskStatus
  | todo
  | in_progress
  | completed
  | blocked
deriving DecidableEq, Repr

/-- The values of an enumeration in the order of the database, with their texts. -/
def CaseStatus.texts : List (CaseStatus × String) :=
  [(.unknown,"unknown"),(.new,"new"),(.in_progress,"in_progress"),(.on_hold,"on_hold"),(.resolved,"resolved"),
    (.closed,"closed"),(.other,"other")]

def CasePriority.texts : List (CasePriority × String) :=
  [(.unknown,"unknown"),(.low,"low"),(.medium,"medium"),(.high,"high"),(.critical,"critical"),(.other,"other")]

def CaseSeverity.texts : List (CaseSeverity × String) :=
  [(.unknown,"unknown"),(.informational,"informational"),(.low,"low"),(.medium,"medium"),(.high,"high"),
    (.critical,"critical"),(.fatal,"fatal"),(.other,"other")]

def rankOf {E : Type} (texts : List (E × String)) (text : String) : Option Nat :=
  (texts.map Prod.snd).findIdx? (· = text)

def textOf {E : Type} [DecidableEq E] (texts : List (E × String)) (value : E) : String := (texts.lookup value).getD ""

structure CaseTag where
  id : Nat
  name : String
  ref : String
  color : Option String
deriving DecidableEq, Repr

/-- A case, with the tags and the tasks that refer to it. Instants are numbers of microseconds. -/
structure Case where
  id : Nat
  workspace_id : Nat
  case_number : Nat
  created_at : Int
  updated_at : Int
  summary : String
  description : String
  status : CaseStatus
  priority : CasePriority
  severity : CaseSeverity
  assignee_id : Option Nat
  tags : List CaseTag
  tasks : List CaseTaskStatus
deriving DecidableEq, Repr

/-- `f"CASE-{case_number:04d}"`. -/
def Case.short_id (case : Case) : String :=
  let digits := toString case.case_number
  "CASE-" ++ String.ofList (List.replicate (4 - digits.length) '0') ++ digits

structure CaseReadMinimal where
  id : Nat
  short_id : String
  created_at : Int
  updated_at : Int
  summary : String
  status : CaseStatus
  priority : CasePriority
  severity : CaseSeverity
  assignee : Option Nat
  tags : List CaseTag
  num_tasks_completed : Nat
  num_tasks_total : Nat
deriving DecidableEq, Repr

def Case.readMinimal (case : Case) : CaseReadMinimal where
  id := case.id
  short_id := case.short_id
  created_at := case.created_at
  updated_at := case.updated_at
  summary := case.summary
  status := case.status
  priority := case.priority
  severity := case.severity
  assignee := case.assignee_id
  tags := case.tags
  num_tasks_completed := case.tasks.count .completed
  num_tasks_total := case.tasks.length

inductive OrderBy
  | created_at
  | updated_at
  | priority
  | severity
  | status
  | tasks
deriving DecidableEq, Repr

def OrderBy.name : OrderBy → String
  | .created_at => "created_at"
  | .updated_at => "updated_at"
  | .priority => "priority"
  | .severity => "severity"
  | .status => "status"
  | .tasks => "tasks"

/-- The ids and the values of sort columns, as the driver gives them. -/
inductive Scalar
  | uuid (id : Nat)
  | datetime (t : Int)
  | enum (text : String)
  | count (n : Int)
deriving DecidableEq, Repr

def Case.sortValue (case : Case) : OrderBy → Scalar
  | .created_at => .datetime case.created_at
  | .updated_at => .datetime case.updated_at
  | .priority => .enum (textOf CasePriority.texts case.priority)
  | .severity => .enum (textOf CaseSeverity.texts case.severity)
  | .status => .enum (textOf CaseStatus.texts case.status)
  | .tasks => .count case.tasks.length

/-- Where a value of a column comes in its order; none when it is no value of the column. -/
def OrderBy.rank : OrderBy → Scalar → Option Int
  | .created_at, .datetime t => some t
  | .updated_at, .datetime t => some t
  | .priority, .enum text => (rankOf CasePriority.texts text).map fun n => (n : Int)
  | .severity, .enum text => (rankOf CaseSeverity.texts text).map fun n => (n : Int)
  | .status, .enum text => (rankOf CaseStatus.texts text).map fun n => (n : Int)
  | .tasks, .count n => some n
  | _, _ => none

def Case.rank (column : OrderBy) (case : Case) : Int := (column.rank (case.sortValue column)).getD 0

/-- A bound parameter as a value of a column. -/
def operand : SortValue Int → Option Scalar
  | .datetime t => some (.datetime t)
  | .str text => some (.enum text)
  | .int n => some (.count n)
  | .float _ => none

section Queries
variable (fromIsoformat : String → Option Int) (isoformat : Int → String) (ilike : String → String → Bool)

/-- The packages of a cursor, for the values of cases. -/
def packages : Packages Scalar Int where
  fromIsoformat := fromIsoformat
  isoformat := isoformat
  text
    | .enum text => some text
    | _ => none
  validate
    | .datetime t => some (.datetime t)
    | .count n => some (.int n)
    | _ => none
  operand := fun _ => operand
  ilike := fun _ _ => false

/-- The arguments next to the cursor. -/
structure ListParams where
  search_term : Option String
  status : List CaseStatus
  priority : List CasePriority
  severity : List CaseSeverity
  assignee_ids : List Nat
  include_unassigned : Bool
  tag_ids : List Nat
  order_by : Option OrderBy
  sort : Option SortDirection

def ListParams.sortColumn (q : ListParams) : OrderBy := q.order_by.getD .created_at

def ListParams.sortDirection (q : ListParams) : SortDirection := q.sort.getD .desc

/-- `'CASE-' || lpad(case_number::text, 4, '0')`, which cuts a longer number. -/
def paddedShortId (case : Case) : String :=
  let digits := (toString case.case_number).toList
  "CASE-" ++ String.ofList (List.replicate (4 - digits.length) '0' ++ digits.take 4)

def checkSearchTerm (search_term : Option String) : Except PageError Unit :=
  match search_term with
  | none => .ok ()
  | some term =>
    if 1000 < term.length then .error (.valueError "Search term cannot exceed 1000 characters")
    else if term.contains '\x00' then .error (.valueError "Search term cannot contain null bytes")
    else .ok ()

def searchMatches (search_term : Option String) (case : Case) : Bool :=
  match search_term with
  | none => true
  | some term => term = "" ||
      (ilike case.summary ("%" ++ term ++ "%") || ilike case.description ("%" ++ term ++ "%") ||
        ilike (paddedShortId case) ("%" ++ term ++ "%"))

def assigneeMatches (assignee_ids : List Nat) (include_unassigned : Bool) (case : Case) : Bool :=
  if include_unassigned || !assignee_ids.isEmpty then
    match case.assignee_id with
    | none => include_unassigned
    | some id => assignee_ids.contains id
  else true

def inFilter {E : Type} [DecidableEq E] (values : List E) (value : E) : Bool := values.isEmpty || values.contains value

/-- The filters, and the workspace. -/
def filters (workspace_id : Nat) (q : ListParams) (case : Case) : Bool :=
  case.workspace_id = workspace_id && searchMatches ilike q.search_term case && inFilter q.status case.status &&
    inFilter q.priority case.priority && inFilter q.severity case.severity &&
    assigneeMatches q.assignee_ids q.include_unassigned case &&
    q.tag_ids.all fun tag_id => case.tags.any fun tag => tag.id = tag_id

/-- `sort_col < v OR (sort_col = v AND id < cursor_id)`. -/
def isBefore (column : OrderBy) (v : Int) (cursor_id : Nat) (case : Case) : Bool :=
  case.rank column < v ∨ (case.rank column = v ∧ case.id < cursor_id)

/-- `sort_col > v OR (sort_col = v AND id > cursor_id)`. -/
def isBehind (column : OrderBy) (v : Int) (cursor_id : Nat) (case : Case) : Bool :=
  v < case.rank column ∨ (case.rank column = v ∧ cursor_id < case.id)

/-- The four comparisons with a cursor. -/
def cursorCondition (direction : SortDirection) (reverse : Bool) (column : OrderBy) (v : Int) (cursor_id : Nat) :
    Case → Bool :=
  match direction, reverse with
  | .asc, true => isBefore column v cursor_id
  | .asc, false => isBehind column v cursor_id
  | .desc, true => isBehind column v cursor_id
  | .desc, false => isBefore column v cursor_id

/-- What a cursor adds to the query. One of another sort column, or without a value, adds nothing. -/
def whereCursor (q : ListParams) (reverse : Bool) : Option (Cursor Scalar) → Except PageError (Case → Bool)
  | none => .ok fun _ => true
  | some cursor => do
    let data ← decodeCursor (packages fromIsoformat isoformat) cursor
    match data.id with
    | .uuid cursor_id =>
      if data.sortColumn = q.sortColumn.name then
        match data.sortValue with
        | none => pure fun _ => true
        | some sortValue =>
          match (operand sortValue).bind q.sortColumn.rank with
          | none => throw .programmingError
          | some v => pure (cursorCondition q.sortDirection reverse q.sortColumn v cursor_id)
      else pure fun _ => true
    | _ => throw (.valueError "badly formed hexadecimal UUID string")

/-- `ORDER BY` the column and the id. -/
def orderedBefore (direction : SortDirection) (column : OrderBy) (a b : Case) : Bool :=
  match direction with
  | .asc => a.rank column < b.rank column ∨ (a.rank column = b.rank column ∧ a.id ≤ b.id)
  | .desc => b.rank column < a.rank column ∨ (a.rank column = b.rank column ∧ b.id ≤ a.id)

def caseCursor (q : ListParams) (case : Case) : Except PageError (Cursor Scalar) :=
  match encodeCursor (packages fromIsoformat isoformat) (.uuid case.id) q.sortColumn.name
      (some (case.sortValue q.sortColumn)) with
  | none => .error .validationError
  | some cursor => .ok cursor

structure CursorPaginationParams where
  limit : Nat
  cursor : Option (Cursor Scalar)
  reverse : Bool

structure CursorPaginatedResponse where
  items : List CaseReadMinimal
  next_cursor : Option (Cursor Scalar)
  prev_cursor : Option (Cursor Scalar)
  has_more : Bool
  has_previous : Bool
  total_estimate : Nat

def cursorOf (q : ListParams) (wanted : Bool) (case : Option Case) : Except PageError (Option (Cursor Scalar)) :=
  match wanted, case with
  | true, some case => (caseCursor fromIsoformat isoformat q case).map some
  | _, _ => .ok none

/-- The response for what the query gives, which may be one case more than the limit. -/
def respond (q : ListParams) (params : CursorPaginationParams) (total_estimate : Nat) (all_cases : List Case) :
    Except PageError CursorPaginatedResponse := do
  let has_more := decide (params.limit < all_cases.length)
  let cases := if has_more then all_cases.take params.limit else all_cases
  let next_cursor ← cursorOf fromIsoformat isoformat q has_more cases.getLast?
  let first_cursor ← cursorOf fromIsoformat isoformat q params.cursor.isSome cases.head?
  -- going back, the first case gives the next cursor
  let next_cursor := if params.reverse then first_cursor.or next_cursor else next_cursor
  let prev_cursor := if params.reverse then none else first_cursor
  pure ⟨cases.map Case.readMinimal,next_cursor,prev_cursor,has_more,params.cursor.isSome,total_estimate⟩

def listCasesPaginated (workspace_id : Nat) (cases : List Case) (q : ListParams) (params : CursorPaginationParams) :
    Except PageError CursorPaginatedResponse := do
  checkSearchTerm q.search_term
  let keep ← whereCursor fromIsoformat isoformat q params.reverse params.cursor
  let all_cases := ((cases.filter fun case => filters ilike workspace_id q case && keep case).mergeSort
    (orderedBefore q.sortDirection q.sortColumn)).take (params.limit + 1)
  respond fromIsoformat isoformat q params (cases.countP (filters ilike workspace_id q)) all_cases

end Queries
end Cases
end Allama

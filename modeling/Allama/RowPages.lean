import Mathlib.Data.Prod.Lex
import Mathlib.Order.WithBot
import Mathlib.Order.TypeTags
import Allama.DSLTypes
import Allama.Collections
import Allama.Tables

/-! Rows of a table in pages (`tables/service.py`, `pagination.py`). -/
namespace Allama
namespace Tables

/-- A row, with the values of its columns that are not NULL. Values of one column are ordered as the database
orders them. -/
structure Row (V : Type) where
  id : V
  cells : String → Option V

def Row.get {V : Type} (row : Row V) (column : String) : Option V :=
  if column = "id" then some row.id else row.cells column

/-- `CursorData.sort_value`, when it is not `None`. -/
inductive SortValue (D : Type)
  | datetime (d : D)
  | str (s : String)
  | int (n : ℤ)
  | float (q : ℚ)

/-- The packages behind a cursor and a query. -/
structure Packages (V D : Type) where
  /-- `datetime.fromisoformat`; `none` is its `ValueError`. -/
  fromIsoformat : String → Option D
  /-- The text of a datetime in `model_dump_json`. -/
  isoformat : D → String
  /-- The text of a value that the driver gives as a `str`. -/
  text : V → Option String
  /-- What the union of `sort_value` makes of a value that is no `str`; `none` is a `ValidationError`. -/
  validate : V → Option (SortValue D)
  /-- The value of a column that a bound parameter is compared as; `none` when there is no such operator. -/
  operand : String → SortValue D → Option V
  /-- Whether the text of a value is `ILIKE` the concatenation of `%`, a term and `%`. -/
  ilike : V → String → Bool

inductive PageError
  | valueError (message : String)
  | validationError
  | programmingError
deriving DecidableEq

/-- What a cursor encodes: the fields of `CursorData` in JSON. -/
structure Cursor (V : Type) where
  id : V
  sortColumn : String
  sortValue : Value

structure CursorData (V D : Type) where
  id : V
  sortColumn : String
  sortValue : Option (SortValue D)

section Cursors
variable {V D : Type} (p : Packages V D)

def parseDatetimeString (s : String) : SortValue D :=
  match p.fromIsoformat (s.replace "Z" "+00:00") with
  | some d => .datetime d
  | none => .str s

/-- The field `sort_value` of `CursorData(...)`. -/
def validateSortValue (v : V) : Option (SortValue D) :=
  match p.text v with
  | some s => some (parseDatetimeString p s)
  | none => p.validate v

/-- The field in `model_dump_json`. -/
def dumpSortValue : Option (SortValue D) → Value
  | none => .none
  | some (.datetime d) => .str (p.isoformat d)
  | some (.str s) => .str s
  | some (.int n) => .int n
  | some (.float q) => .float q

def encodeCursor (id : V) (sortColumn : String) : Option V → Option (Cursor V)
  | none => some ⟨id,sortColumn,dumpSortValue p none⟩
  | some v => (validateSortValue p v).map fun sortValue => ⟨id,sortColumn,dumpSortValue p (some sortValue)⟩

/-- Of what `encode_cursor` writes. -/
def decodeCursor (cursor : Cursor V) : Except PageError (CursorData V D) :=
  match cursor.sortValue with
  | .none => .ok ⟨cursor.id,cursor.sortColumn,none⟩
  | .str s => .ok ⟨cursor.id,cursor.sortColumn,some (parseDatetimeString p s)⟩
  | .int n => .ok ⟨cursor.id,cursor.sortColumn,some (.int n)⟩
  | .float q => .ok ⟨cursor.id,cursor.sortColumn,some (.float q)⟩
  | _ => .error (.valueError "Invalid cursor")

end Cursors

inductive SortDirection
  | asc
  | desc
deriving DecidableEq

structure CursorPaginationParams (V : Type) where
  limit : ℕ
  cursor : Option (Cursor V)
  reverse : Bool

/-- The arguments of `list_rows_paginated` next to the cursor. -/
structure ListParams (V : Type) where
  searchTerm : Option String
  startTime : Option V
  endTime : Option V
  updatedBefore : Option V
  updatedAfter : Option V
  orderBy : Option String
  sort : Option SortDirection

structure CursorPaginatedResponse (V : Type) where
  items : List (Row V)
  nextCursor : Option (Cursor V)
  prevCursor : Option (Cursor V)
  hasMore : Bool
  hasPrevious : Bool

namespace ListParams
variable {V : Type} (q : ListParams V)

def sortColumn : String := Storage.orDefault "" q.orderBy "created_at"

def sortDirection : SortDirection := q.sort.getD .desc

end ListParams

section Queries
variable {V D : Type} [LinearOrder V] (p : Packages V D) (table : Table) (q : ListParams V)

def searchableColumns : List Column :=
  table.columns.filter fun column => column.type ∈ [SqlType.text,.jsonb,.select,.multiSelect]

/-- `sa.or_` over the columns. A comparison with NULL is not true. -/
def searchCondition (term : String) (row : Row V) : Bool :=
  (searchableColumns table).any fun column =>
    match row.get column.name with
    | none => false
    | some v => p.ilike v term

def timeCondition (holds : V → V → Bool) (column : String) : Option V → List (Row V → Bool)
  | none => []
  | some time => [fun row => match row.get column with
    | none => false
    | some v => holds v time]

/-- A search term that is empty, or that no column can be searched for, is no condition. -/
def searchConditions : Except PageError (List (Row V → Bool)) :=
  match q.searchTerm with
  | none => .ok []
  | some term =>
    if term = "" then .ok []
    else if 1000 < term.length then .error (.valueError "Search term cannot exceed 1000 characters")
    else if term.contains '\x00' then .error (.valueError "Search term cannot contain null bytes")
    else if searchableColumns table = [] then .ok []
    else .ok [searchCondition p table term]

def whereConditions : Except PageError (List (Row V → Bool)) := do
  let search ← searchConditions p table q
  pure (search ++ timeCondition (fun v time => decide (time ≤ v)) "created_at" q.startTime ++
    timeCondition (fun v time => decide (v ≤ time)) "created_at" q.endTime ++
    timeCondition (fun v time => decide (time ≤ v)) "updated_at" q.updatedAfter ++
    timeCondition (fun v time => decide (v ≤ time)) "updated_at" q.updatedBefore)

def checkSortColumn : Except PageError Unit :=
  if q.sortColumn ∈ table.columns.map Column.name ++ ["id","created_at","updated_at"] then .ok ()
  else .error (.valueError ("Invalid order_by column: " ++ q.sortColumn))

/-- `sort_col < v OR (sort_col = v AND id < cursor_id)`. -/
def isBefore (column : String) (v cursorId : V) (row : Row V) : Bool :=
  match row.get column with
  | none => false
  | some u => decide (u < v ∨ (u = v ∧ row.id < cursorId))

/-- `sort_col > v OR (sort_col = v AND id > cursor_id)`. -/
def isBehind (column : String) (v cursorId : V) (row : Row V) : Bool :=
  match row.get column with
  | none => false
  | some u => decide (v < u ∨ (u = v ∧ cursorId < row.id))

/-- The four comparisons with a cursor. -/
def cursorCondition (direction : SortDirection) (reverse : Bool) (column : String) (v cursorId : V) :
    Row V → Bool :=
  match direction, reverse with
  | .asc, true => isBefore column v cursorId
  | .asc, false => isBehind column v cursorId
  | .desc, true => isBehind column v cursorId
  | .desc, false => isBefore column v cursorId

/-- What a cursor adds to the query. One of another sort column, or without a value, adds nothing. -/
def whereCursor (reverse : Bool) : Option (Cursor V) → Except PageError (Row V → Bool)
  | none => .ok fun _ => true
  | some cursor => do
    let data ← decodeCursor p cursor
    if data.sortColumn = q.sortColumn then
      match data.sortValue with
      | none => pure fun _ => true
      | some sortValue =>
        match p.operand q.sortColumn sortValue with
        | none => throw .programmingError
        | some v => pure (cursorCondition q.sortDirection reverse q.sortColumn v data.id)
    else pure fun _ => true

/-- The key of `ORDER BY`: NULL behind every value, and the id as a tie-breaker unless it is the sort column. -/
def sortKey (column : String) (row : Row V) : WithTop V ×ₗ WithTop V :=
  toLex (row.get column,if column = "id" then ⊤ else (row.id : WithTop V))

def sortsBefore (direction : SortDirection) (column : String) (row row' : Row V) : Bool :=
  match direction with
  | .asc => decide (sortKey column row ≤ sortKey column row')
  | .desc => decide (sortKey column row' ≤ sortKey column row)

/-- `WHERE` and `ORDER BY`. -/
def select (conditions : List (Row V → Bool)) (rows : List (Row V)) : List (Row V) :=
  (rows.filter fun row => conditions.all fun condition => condition row).mergeSort
    (sortsBefore q.sortDirection q.sortColumn)

def rowCursor (row : Row V) : Except PageError (Cursor V) :=
  match encodeCursor p row.id q.sortColumn (row.get q.sortColumn) with
  | none => .error .validationError
  | some cursor => .ok cursor

def nextCursorOf (hasMore : Bool) (rows : List (Row V)) : Except PageError (Option (Cursor V)) :=
  match hasMore, rows.getLast? with
  | true, some lastItem => (rowCursor p q lastItem).map some
  | _, _ => .ok none

def prevCursorOf (cursor : Option (Cursor V)) (rows : List (Row V)) : Except PageError (Option (Cursor V)) :=
  match cursor, rows.head? with
  | some _, some firstItem => (rowCursor p q firstItem).map some
  | _, _ => .ok none

/-- The response for what the query gives, which may be one row more than the limit. -/
def respond (params : CursorPaginationParams V) (rows : List (Row V)) :
    Except PageError (CursorPaginatedResponse V) := do
  let hasMore := decide (params.limit < rows.length)
  let rows := if hasMore then rows.take params.limit else rows
  let nextCursor ← nextCursorOf p q hasMore rows
  let prevCursor ← prevCursorOf p q params.cursor rows
  -- going back, the rows are reversed and the cursors swapped
  if params.reverse then
    pure ⟨rows.reverse,prevCursor,nextCursor,hasMore,params.cursor.isSome⟩
  else
    pure ⟨rows,nextCursor,prevCursor,hasMore,params.cursor.isSome⟩

def listRowsPaginated (rows : List (Row V)) (params : CursorPaginationParams V) :
    Except PageError (CursorPaginatedResponse V) := do
  let conditions ← whereConditions p table q
  checkSortColumn table q
  let cursor ← whereCursor p q params.reverse params.cursor
  respond p q params ((select q (conditions ++ [cursor]) rows).take (params.limit+1))

end Queries
end Tables
end Allama

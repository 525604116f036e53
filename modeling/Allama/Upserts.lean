import Mathlib.Data.Finset.Dedup
import Allama.KeyedStore
import Allama.RowWrites

/-! Rows written with upsert by `insert_row` and `batch_insert_rows` (`tables/service.py`). -/
namespace Allama
namespace Tables
open KeyedStore

/-- A row of the database by the names of its columns. -/
abbrev TableRow (S : Type) := String → S

/-- The rows of a table by the value of its unique column; rows with NULL there are not unique. -/
abbrev Content (S : Type) := Store S (TableRow S)

/-- What the database knows of the columns. -/
structure Relation (S : Type) where
  /-- NULL for a column without a default. -/
  serverDefault : String → S
  notNull : String → Bool

section Statements
variable {D T U S : Type} (p : RowPackages D T U S) (relation : Relation S) [DecidableEq S]

/-- The row that an INSERT proposes, which is `excluded` on a conflict. -/
def proposed (cells : StoredCells S) : TableRow S := fun name =>
  (cells.lookup name).getD (relation.serverDefault name)

def allowed (table : Table) (row : TableRow S) : Bool :=
  table.columns.all fun column => !relation.notNull column.name || row column.name ≠ p.null

/-- A statement at work: the keys that it has written, and its row count. -/
structure Progress (S : Type) where
  content : Content S
  touched : List S
  affected : ℕ

/-- `set_={column: excluded[column], ...}`. -/
def excluded (set : Finset String) (row old : TableRow S) : TableRow S := fun name =>
  if name ∈ set then row name else old name

/-- `set_={column: coalesce(excluded[column], column), ...}`. -/
def coalesced (set : Finset String) (row old : TableRow S) : TableRow S := fun name =>
  if name ∈ set ∧ row name ≠ p.null then row name else old name

def Progress.insert (key : S) (row : TableRow S) (progress : Progress S) : Progress S where
  content := { progress.content with rows := Function.update progress.content.rows key (some row) }
  touched := key :: progress.touched
  affected := progress.affected + 1

def Progress.insertNull (row : TableRow S) (progress : Progress S) : Progress S where
  content := { progress.content with unkeyed := row ::ₘ progress.content.unkeyed }
  touched := progress.touched
  affected := progress.affected + 1

/-- A row of `INSERT ... ON CONFLICT (index) DO UPDATE SET ...`, or `DO NOTHING` where there is no update. NULL is in
conflict with nothing, and no row is updated twice by one statement. -/
def onConflict (error : WriteError) (table : Table) (index : String)
    (update : Option (TableRow S → TableRow S → TableRow S)) (progress : Progress S) (cells : StoredCells S) :
    Except WriteError (Progress S) :=
  let row := proposed relation cells
  if allowed p relation table row then
    if row index = p.null then .ok (progress.insertNull row)
    else match progress.content.rows (row index), update with
      | none, _ => .ok (progress.insert (row index) row)
      | some _, none => .ok progress
      | some old, some set =>
        if row index ∈ progress.touched then .error error else .ok (progress.insert (row index) (set row old))
  else .error error

/-- `insert_row` with upsert. SQLAlchemy refuses an empty `set_`. -/
def insertRowUpsert (table : Table) (indexes : List String) (data : RowData D T U) (content : Content S) :
    Except WriteError (Content S) := do
  let clauses ← valueClauses p table data
  match indexes with
  | [] => .error (.valueError "Table must have at least one unique index for upsert")
  | [index] =>
    let names := (clauses.map (·.1.name)).toFinset
    if index ∈ names then
      if names.erase index = ∅ then .error .raised
      else do
        let cells ← clauses.mapM fun clause => execute p .raised clause.1 clause.2
        let progress ← onConflict p relation .raised table index (some (excluded (names.erase index))) ⟨content,[],0⟩ cells
        .ok progress.content
    else .error (.valueError "Data to upsert must contain the unique index column")
  | _ => .error (.valueError "Table cannot have multiple unique indexes. This is an unexpected error. Please contact support.")

/-- What a group of `batch_insert_rows` sets on a conflict; `none` is `on_conflict_do_nothing`. -/
def groupUpdate (index : String) (names : Finset String) : Option (TableRow S → TableRow S → TableRow S) :=
  if names.erase index = ∅ then none else some (coalesced p (names.erase index))

/-- The statement of a group. -/
def executeGroup (table : Table) (index : String) (content : Content S)
    (group : Finset String × List (List (Column × PyValue D T U))) : Except WriteError (Progress S) := do
  if group.2.all fun row => index ∈ columnNames row then do
    let cells ← group.2.mapM (executeRow p)
    cells.foldlM (onConflict p relation (.dbapiError "Failed to insert batch") table index (groupUpdate p index group.1))
      ⟨content,[],0⟩
  else .error (.valueError "Each row to upsert must contain the unique index column")

/-- The statements one after another, and the rows that they affect. An exception leaves the transaction as it is. -/
def executeGroups (table : Table) (index : String) :
    List (Finset String × List (List (Column × PyValue D T U))) → Content S → ℕ → Except WriteError ℕ × Content S
  | [], content, affected => (.ok affected,content)
  | group :: groups, content, affected =>
    match executeGroup p relation table index content group with
    | .ok progress => executeGroups table index groups progress.content (affected + progress.affected)
    | .error error => (.error error,content)

/-- `BaseTablesService.batch_insert_rows` with upsert: the result, and what the transaction sees. -/
def batchUpsertRows (table : Table) (indexes : List String) (rows : List (RowData D T U)) (chunkSize : ℕ)
    (content : Content S) : Except WriteError ℕ × Content S :=
  if rows = [] then (.ok 0,content)
  else if chunkSize < rows.length then
    (.error (.valueError s!"Batch size {rows.length} exceeds maximum of {chunkSize}"),content)
  else match rows.mapM (normalizeRowInputs p table), indexes with
    | .error error, _ => (.error error,content)
    | .ok _, [] => (.error (.valueError "Table must have at least one unique index for upsert"),content)
    | .ok normalised, [index] => executeGroups p relation table index (groupRows columnNames normalised) content 0
    | .ok _, _ =>
      (.error (.valueError "Table cannot have multiple unique indexes. This is an unexpected error. Please contact support."),
        content)

/-- `TablesService.batch_insert_rows` and the end of its session: a result is committed, an exception rolls back. -/
def batchUpsertCommitted (table : Table) (indexes : List String) (rows : List (RowData D T U)) (chunkSize : ℕ)
    (content : Content S) : Except WriteError ℕ × Content S :=
  let result := batchUpsertRows p relation table indexes rows chunkSize content
  match result.1 with
  | .ok _ => result
  | .error error => (.error error,content)

end Statements

section InOrder
variable {D T U S : Type} (p : RowPackages D T U S) (relation : Relation S) [DecidableEq S]

/-- The cells of a row that is not rejected. -/
def storedRow (table : Table) (index : String) (data : RowData D T U) : Except WriteError (StoredCells S) := do
  let cells ← storeRow p table data
  if (cells.any fun cell => cell.1 = index) && allowed p relation table (proposed relation cells) then .ok cells
  else .error .raised

def keyOf (index : String) (cells : StoredCells S) : Option S :=
  if proposed relation cells index = p.null then none else some (proposed relation cells index)

/-- A row with an existing key updates exactly the columns it supplies, otherwise it is inserted. -/
def supplying (index : String) : Writer S (TableRow S) (StoredCells S) where
  key := keyOf p relation index
  make := proposed relation
  merge cells old name := if name = index then old name else (cells.lookup name).getD (old name)

/-- As `supplying`, but NULL leaves a column of an existing row as it is. -/
def coalescing (index : String) : Writer S (TableRow S) (StoredCells S) where
  key := keyOf p relation index
  make := proposed relation
  merge cells old name :=
    if name = index then old name else ((cells.lookup name).filter (· ≠ p.null)).getD (old name)

/-- The rows one after another in list order. -/
def upsertsInOrder (w : Writer S (TableRow S) (StoredCells S)) (table : Table) (index : String) :
    List (RowData D T U) → Content S → Except WriteError (Content S)
  | [], content => .ok content
  | data :: rows, content => do
    let cells ← storedRow p relation table index data
    upsertsInOrder w table index rows (w.put cells content)

/-- A batch does what its rows do one after another; with a row that is rejected it changes nothing. -/
def UpsertedInOrder (w : Writer S (TableRow S) (StoredCells S)) (table : Table) (index : String)
    (rows : List (RowData D T U)) (chunkSize : ℕ) (content : Content S) : Prop :=
  let result := batchUpsertCommitted p relation table [index] rows chunkSize content
  match upsertsInOrder p relation w table index rows content with
  | .ok expected => (∃ affected, result.1 = .ok affected) ∧ result.2 = expected
  | .error _ => (∃ error, result.1 = .error error) ∧ result.2 = content

end InOrder
end Tables
end Allama

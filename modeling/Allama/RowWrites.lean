import Mathlib.Data.Finset.Sort
import Allama.Checked
import Allama.RowValues

/-! Rows written by `insert_row`, `update_row` and `batch_insert_rows` (`tables/service.py`). -/
namespace Allama
open Checked
namespace Tables

/-- A row dictionary, in the order of its keys. -/
abbrev RowData (D T U : Type) := List (String × PyValue D T U)

/-- What a statement writes of a row, by the names of the columns. -/
abbrev StoredCells (S : Type) := List (String × S)

/-- `{column.name: column for column in table.columns}`; the last column of a name stays. -/
def columnIndex (table : Table) (name : String) : Option Column := table.columns.reverse.find? (·.name = name)

section Writes
variable {D T U S : Type} (p : RowPackages D T U S)

/-- The value of a column in `_normalize_row_inputs`. -/
def normalizeValue (column : Column) (value : PyValue D T U) : Except WriteError (PyValue D T U) :=
  coerceOptional value <| match column.type with
    | .select => (coerceSelectValue p value column.options).map .str
    | .multiSelect => (coerceMultiSelectValue p value column.options).map .list
    | .timestamp | .timestamptz => (coerceToUtcDatetime p value).map .datetime
    | .date => (coerceToDate p value).map .date
    | _ => .ok value

/-- With each value comes its column. -/
def normalizeEntry (table : Table) (entry : String × PyValue D T U) : Except WriteError (Column × PyValue D T U) :=
  match columnIndex table entry.1 with
  | none => .error (.valueError s!"Column '{entry.1}' does not exist in table '{table.name}'")
  | some column => (normalizeValue p column entry.2).map fun value => (column,value)

def normalizeRowInputs (table : Table) (data : RowData D T U) : Except WriteError (List (Column × PyValue D T U)) :=
  data.mapM (normalizeEntry p table)

def saTypeForColumn : SqlType → SaType
  | .text | .select => .string
  | .integer => .bigInteger
  | .numeric => .numeric
  | .date => .date
  | .boolean => .boolean
  | .timestamp | .timestamptz => .timestamp
  | .jsonb | .multiSelect => .jsonb
  | .uuid => .uuid

/-- A parameter of a statement, written to its column. -/
def execute (error : WriteError) (column : Column) (parameter : BindParameter D T U) :
    Except WriteError (String × S) :=
  match p.bind column.type parameter.type parameter.value with
  | some stored => .ok (column.name,stored)
  | none => .error error

/-- The values of the statement of `insert_row` and `update_row`. -/
def valueClauses (table : Table) (data : RowData D T U) :
    Except WriteError (List (Column × BindParameter D T U)) := do
  let rowData ← normalizeRowInputs p table data
  rowData.mapM fun entry =>
    (toSqlClause p entry.2 entry.1.name entry.1.type).map fun clause => (entry.1,clause)

/-- Without upsert. What is returned are the columns of the new row that the data names. -/
def insertRow (table : Table) (data : RowData D T U) : Except WriteError (StoredCells S) := do
  let clauses ← valueClauses p table data
  clauses.mapM fun clause => execute p .raised clause.1 clause.2

/-- The row of the id is there or is not. -/
def updateRow (table : Table) (rowId : String) (found : Bool) (data : RowData D T U) :
    Except WriteError (StoredCells S) := do
  let clauses ← valueClauses p table data
  let cells ← clauses.mapM fun clause => execute p .raised clause.1 clause.2
  if found then .ok cells else .error (.notFound s!"Row {rowId} not found in table {table.name}")

/-- `rows_by_columns[frozenset(row)].append(row)`, with the groups in the order they were made. -/
def addToGroup {A : Type} (keys : Finset String) (row : A) :
    List (Finset String × List A) → List (Finset String × List A)
  | [] => [(keys,[row])]
  | group :: groups =>
    if group.1 = keys then (group.1,group.2 ++ [row]) :: groups else group :: addToGroup keys row groups

def groupRows {A : Type} (keys : A → Finset String) (rows : List A) : List (Finset String × List A) :=
  rows.foldl (fun groups row => addToGroup (keys row) row groups) []

def columnNames (row : List (Column × PyValue D T U)) : Finset String := (row.map (·.1.name)).toFinset

/-- A row of `sa.insert(table_obj).values(group_rows)`: the type of a value is the type of its column. -/
def executeRow (row : List (Column × PyValue D T U)) : Except WriteError (StoredCells S) :=
  row.mapM fun entry =>
    execute p (.dbapiError "Failed to insert batch") entry.1 ⟨entry.1.name,entry.2,saTypeForColumn entry.1.type⟩

/-- Without upsert. The rows that are stored, in the order of the statements. -/
def batchInsertRows (table : Table) (rows : List (RowData D T U)) (chunkSize : ℕ) :
    Except WriteError (List (StoredCells S)) :=
  if rows.length ≤ chunkSize then do
    let normalised ← rows.mapM (normalizeRowInputs p table)
    let stored ← (groupRows columnNames normalised).mapM fun group => group.2.mapM (executeRow p)
    .ok stored.flatten
  else .error (.valueError s!"Batch size {rows.length} exceeds maximum of {chunkSize}")

/-- A row that is alone in its batch. -/
def storeRow (table : Table) (data : RowData D T U) : Except WriteError (StoredCells S) := do
  let row ← normalizeRowInputs p table data
  executeRow p row

theorem addToGroup_perm {A : Type} (keys : Finset String) (row : A) (groups : List (Finset String × List A)) :
    ((addToGroup keys row groups).flatMap (·.2)).Perm (groups.flatMap (·.2) ++ [row]) := by
  induction groups with
  | nil => simp [addToGroup]
  | cons group groups ih =>
    rw [addToGroup]
    split
    · -- the row goes to the end of the first group
      simp only [List.flatMap_cons, List.append_assoc]
      exact List.Perm.append_left _ List.perm_append_comm
    · simp only [List.flatMap_cons, List.append_assoc]
      exact List.Perm.append_left _ ih

theorem groupRows_perm {A : Type} (keys : A → Finset String) (rows : List A) :
    ((groupRows keys rows).flatMap (·.2)).Perm rows := by
  have hfold : ∀ groups : List (Finset String × List A),
      ((rows.foldl (fun groups row => addToGroup (keys row) row groups) groups).flatMap (·.2)).Perm
        (groups.flatMap (·.2) ++ rows) := by
    induction rows with
    | nil => intro groups; simp
    | cons row rows ih =>
      intro groups
      refine (ih _).trans ?_
      rw [List.append_cons]
      exact List.Perm.append_right rows (addToGroup_perm (keys row) row groups)
  exact hfold []

theorem groupRows_same {A : Type} {keys : A → Finset String} {names : Finset String} {row : A} {rows : List A}
    (hrow : keys row = names) (h : ∀ row ∈ rows, keys row = names) : groupRows keys (row :: rows) = [(names,row :: rows)] := by
  have hfold : ∀ seen : List A, rows.foldl (fun groups row => addToGroup (keys row) row groups) [(names,seen)] =
      [(names,seen ++ rows)] := by
    induction rows with
    | nil =>
      intro seen
      rw [List.append_nil]
      rfl
    | cons row rows ih =>
      intro seen
      rw [List.forall_mem_cons] at h
      rw [List.foldl_cons, h.1, addToGroup, if_pos rfl, ih h.2, List.append_assoc]
      rfl
  rw [groupRows, List.foldl_cons, hrow]
  exact hfold [row]

variable {p}

theorem name_of_normalizeEntry {table : Table} {entry : String × PyValue D T U} {cell : Column × PyValue D T U}
    (h : normalizeEntry p table entry = .ok cell) : cell.1.name = entry.1 := by
  unfold normalizeEntry at h
  cases hcolumn : columnIndex table entry.1 with
  | none =>
    rw [hcolumn] at h
    cases h
  | some column =>
    rw [hcolumn] at h
    obtain ⟨value,-,rfl⟩ := map_eq_ok.mp h
    simpa using List.find?_some hcolumn

theorem columnNames_normalised {table : Table} {data : RowData D T U} {row : List (Column × PyValue D T U)}
    (h : normalizeRowInputs p table data = .ok row) : columnNames row = (data.map Prod.fst).toFinset := by
  have hnames : data.map Prod.fst = row.map (·.1.name) := by
    rw [← List.forall₂_eq_eq_eq, List.forall₂_map_left_iff, List.forall₂_map_right_iff]
    exact (mapM_eq_ok.mp h).imp fun entry cell hcell => (name_of_normalizeEntry hcell).symm
  rw [columnNames, hnames]

theorem batchInsertRows_same {table : Table} {rows : List (RowData D T U)} {names : List String}
    (hnames : ∀ row ∈ rows, row.map Prod.fst = names) {chunkSize : ℕ} {stored : List (StoredCells S)}
    (h : batchInsertRows p table rows chunkSize = .ok stored) :
    List.Forall₂ (fun row cells => storeRow p table row = .ok cells) rows stored := by
  rw [batchInsertRows] at h
  split at h
  swap
  · cases h
  obtain ⟨normalised,hnormalised,h⟩ := bind_eq_ok.mp h
  obtain ⟨groups,hgroups,h⟩ := bind_eq_ok.mp h
  cases h
  have hall := mapM_eq_ok.mp hnormalised
  have hcolumns : ∀ row ∈ normalised, columnNames row = names.toFinset := by
    intro row hrow
    obtain ⟨data,hdata,hnormal⟩ := exists_of_forall₂ hall.flip hrow
    rw [columnNames_normalised hnormal, hnames data hdata]
  have hexecuted : List.Forall₂ (fun row cells => executeRow p row = .ok cells) normalised groups.flatten := by
    cases normalised with
    | nil =>
      cases hgroups
      exact .nil
    | cons row rest =>
      rw [List.forall_mem_cons] at hcolumns
      rw [groupRows_same hcolumns.1 hcolumns.2] at hgroups
      obtain ⟨cells,_,hcells,hnil,rfl⟩ := List.forall₂_cons_left_iff.mp (mapM_eq_ok.mp hgroups)
      cases hnil
      rw [List.flatten_singleton]
      exact mapM_eq_ok.mp hcells
  apply forall₂_comp hall hexecuted
  intro data row cells hrow hcells
  exact bind_eq_ok.mpr ⟨row,hrow,hcells⟩

variable (p)

theorem batchInsertRows_singleton (table : Table) (data : RowData D T U) {chunkSize : ℕ} (h : 1 ≤ chunkSize) :
    batchInsertRows p table [data] chunkSize = (storeRow p table data).map ([·]) := by
  rw [batchInsertRows, if_pos (by simpa using h), storeRow]
  simp only [List.mapM_cons, List.mapM_nil]
  cases normalizeRowInputs p table data with
  | error error => rfl
  | ok row =>
    change (([(columnNames row,[row])].mapM fun group => group.2.mapM (executeRow p)) >>=
      fun stored => .ok stored.flatten) = (executeRow p row).map ([·])
    simp only [List.mapM_cons, List.mapM_nil]
    cases executeRow p row <;> rfl

end Writes
end Tables
end Allama

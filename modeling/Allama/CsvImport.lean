import Allama.RowWrites

/-! Rows read from CSV files (`tables/importer.py`, `TablesService.import_table_from_csv`). -/
namespace Allama
open Checked
namespace Tables
variable {D T U S : Type} (p : RowPackages D T U S)

section Importer

/-- `CSVImporter.convert_value`, with the error of `map_row`. -/
def importerValue (column : Column) (value : Option String) : Except WriteError (PyValue D T U) :=
  match value with
  | none => .ok .none
  | some "" => .ok (.str "")
  | some s =>
    match convertValue p (some s) column.type with
    | .ok v => .ok v
    | .error _ => .error (.importError
        s!"Cannot convert value {p.repr (.str s)} in column {p.repr (.str column.name)} to SQL type {column.type.value}")

/-- The columns that `map_row` fills, each with its header in the file. -/
def mappedColumns (table : Table) (columnMapping : List (String × String)) : List (String × Column) :=
  columnMapping.filterMap fun entry =>
    if entry.2 = "" ∨ entry.2 = "skip" then none else (columnIndex table entry.2).map fun column => (entry.1,column)

/-- `CSVImporter.map_row`, of a mapping that fills a column once. -/
def mapRow (table : Table) (columnMapping : List (String × String)) (csvRow : String → Option (Option String)) :
    Except WriteError (RowData D T U) :=
  (mappedColumns table columnMapping).mapM fun entry =>
    match csvRow entry.1 with
    | none => .error (.keyError entry.1)
    | some value => (importerValue p entry.2 value).map fun v => (entry.2.name,v)

end Importer

section Inference

def looksLikeJson (s : String) : Bool :=
  let text := s.toList.dropWhile isSpace
  text.head? = some '\x7b' || text.head? = some '['

structure ColumnStats where
  seenNonEmpty : Bool
  boolCandidate : Bool
  intCandidate : Bool
  numericCandidate : Bool
  timestampCandidate : Bool
  uuidCandidate : Bool
  jsonCandidate : Bool

def ColumnStats.fresh : ColumnStats := ⟨false,true,true,true,true,true,true⟩

/-- A candidate that a text has ruled out is not tried again. -/
def ColumnStats.observe (stats : ColumnStats) : Option String → ColumnStats
  | none => stats
  | some value =>
    let s := stripped value
    if s = "" then stats
    else
      ⟨true,stats.boolCandidate && (matchBool s).isSome,stats.intCandidate && (p.int s).isSome,
        stats.numericCandidate && (p.float s).isSome,
        stats.timestampCandidate && (coerceToUtcDatetime p (.str s)).toOption.isSome,
        stats.uuidCandidate && (p.uuid s).isSome,stats.jsonCandidate && (looksLikeJson s && (p.loads s).isSome)⟩

def ColumnStats.inferType (stats : ColumnStats) : SqlType :=
  if !stats.seenNonEmpty then .text
  else if stats.boolCandidate then .boolean
  else if stats.intCandidate then .integer
  else if stats.numericCandidate then .numeric
  else if stats.timestampCandidate then .timestamptz
  else if stats.uuidCandidate then .uuid
  else if stats.jsonCandidate then .jsonb
  else .text

structure InferredCSVColumn where
  originalName : String
  name : String
  type : SqlType

def InferredCSVColumn.column (column : InferredCSVColumn) : Column := ⟨column.name,column.type,none⟩

/-- A line of the file: `row.get(header)`. -/
abbrev CsvLine := String → Option String

/-- `CSVSchemaInferer.result` after it has observed the lines; the headers come with the names of their columns. -/
def inferColumns (headers : List (String × String)) (lines : List CsvLine) : List InferredCSVColumn :=
  headers.map fun header =>
    ⟨header.1,header.2,(lines.foldl (fun stats line => stats.observe p (line header.1)) ColumnStats.fresh).inferType⟩

theorem inferType_mem (stats : ColumnStats) :
    stats.inferType ∈ [SqlType.text,.boolean,.integer,.numeric,.timestamptz,.uuid,.jsonb] := by
  unfold ColumnStats.inferType
  repeat' split
  all_goals decide

theorem uuidCandidate_of_inferType {stats : ColumnStats} (h : stats.inferType = .uuid) : stats.uuidCandidate = true := by
  unfold ColumnStats.inferType at h
  repeat' split at h
  all_goals first | assumption | cases h

theorem uuidCandidate_of_observe {stats : ColumnStats} {value : Option String}
    (h : (stats.observe p value).uuidCandidate = true) : stats.uuidCandidate = true := by
  cases value with
  | none => exact h
  | some s =>
    simp only [ColumnStats.observe] at h
    split at h
    · exact h
    · exact (Bool.and_eq_true_iff.mp h).1

theorem isSome_uuid_of_observe {stats : ColumnStats} {s : String}
    (h : (stats.observe p (some s)).uuidCandidate = true) (hs : stripped s ≠ "") : (p.uuid (stripped s)).isSome = true := by
  simp only [ColumnStats.observe, if_neg hs] at h
  exact (Bool.and_eq_true_iff.mp h).2

theorem isSome_uuid_of_observed {header : String} {lines : List CsvLine} {line : CsvLine} (hline : line ∈ lines)
    {s : String} (hs : line header = some s) (hblank : stripped s ≠ "") : ∀ {stats : ColumnStats},
    (lines.foldl (fun stats line => stats.observe p (line header)) stats).uuidCandidate = true →
      (p.uuid (stripped s)).isSome = true := by
  -- a candidate that is left was there after each line
  have hleft : ∀ (lines : List CsvLine) (stats : ColumnStats),
      (lines.foldl (fun stats line => stats.observe p (line header)) stats).uuidCandidate = true →
        stats.uuidCandidate = true := by
    intro lines
    induction lines with
    | nil => exact fun stats h => h
    | cons line lines ih => exact fun stats h => uuidCandidate_of_observe p (ih _ h)
  induction lines with
  | nil => cases hline
  | cons first lines ih =>
    intro stats h
    rcases List.mem_cons.mp hline with rfl | hline
    · have hobserved : (stats.observe p (line header)).uuidCandidate = true := hleft lines _ h
      rw [hs] at hobserved
      exact isSome_uuid_of_observe p hobserved hblank
    · exact ih hline h

end Inference

section TableImport

/-- The value of a column in the loop of `import_table_from_csv`. -/
def importedValue (column : InferredCSVColumn) : Option String → Except WriteError (PyValue D T U)
  | none => .ok .none
  | some s =>
    if stripped s = "" then .ok (if column.type = .text then .str "" else .none)
    else
      match convertValue p (some (if column.type = .text then s else stripped s)) column.type with
      | .ok v => .ok v
      | .error _ => .error (.importError
          s!"Cannot convert value {p.repr (.str s)} in column {p.repr (.str column.originalName)} to type {column.type.value}")

def importedRow (columns : List InferredCSVColumn) (line : CsvLine) : Except WriteError (RowData D T U) :=
  columns.mapM fun column => (importedValue p column (line column.originalName)).map fun v => (column.name,v)

/-- `_insert_import_chunk`; the text of the driver's exception follows in the message. -/
def insertImportChunk (table : Table) (chunk : List (RowData D T U)) (chunkSize : ℕ) :
    Except WriteError (List (StoredCells S)) :=
  match batchInsertRows p table chunk chunkSize with
  | .error (.dbapiError _) => .error (.importError s!"Failed to insert rows into table '{table.name}': ")
  | result => result

/-- The loop over the lines, with the chunk that waits to be inserted. -/
def importRows (table : Table) (columns : List InferredCSVColumn) (chunkSize : ℕ) :
    List (RowData D T U) → List CsvLine → Except WriteError (List (StoredCells S))
  | chunk, [] => if chunk = [] then .ok [] else insertImportChunk p table chunk chunkSize
  | chunk, line :: lines => do
    let row ← importedRow p columns line
    let chunk := if row = [] then chunk else chunk ++ [row]
    if chunkSize ≤ chunk.length then
      let stored ← insertImportChunk p table chunk chunkSize
      let rest ← importRows table columns chunkSize [] lines
      .ok (stored ++ rest)
    else importRows table columns chunkSize chunk lines

def importedTable (tableName : String) (columns : List InferredCSVColumn) : Table :=
  ⟨tableName,columns.map InferredCSVColumn.column⟩

/-- The new table, and the rows that it holds. -/
def importTableFromCsv (tableName : String) (headers : List (String × String)) (lines : List CsvLine) (chunkSize : ℕ) :
    Except WriteError (Table × List (StoredCells S)) :=
  let columns := inferColumns p headers lines
  let table := importedTable tableName columns
  if columns = [] then .error (.importError "CSV file does not contain any columns")
  else do
    let stored ← importRows p table columns chunkSize [] lines
    .ok (table,stored)

variable {p}

theorem ne_nil_of_importedRow {columns : List InferredCSVColumn} {line : CsvLine} {row : RowData D T U}
    (hcolumns : columns ≠ []) (h : importedRow p columns line = .ok row) : row ≠ [] := by
  rintro rfl
  have hlength := (mapM_eq_ok.mp h).length_eq
  exact hcolumns (List.length_eq_zero_iff.mp hlength)

theorem importedRow_names {columns : List InferredCSVColumn} {line : CsvLine} {row : RowData D T U}
    (h : importedRow p columns line = .ok row) : row.map Prod.fst = columns.map InferredCSVColumn.name := by
  symm
  rw [← List.forall₂_eq_eq_eq, List.forall₂_map_left_iff, List.forall₂_map_right_iff]
  refine (mapM_eq_ok.mp h).imp fun column entry hentry => ?_
  obtain ⟨value,-,rfl⟩ := map_eq_ok.mp hentry
  rfl

theorem insertImportChunk_same {table : Table} {chunk : List (RowData D T U)} {names : List String}
    (hnames : ∀ row ∈ chunk, row.map Prod.fst = names) {chunkSize : ℕ} {stored : List (StoredCells S)}
    (h : insertImportChunk p table chunk chunkSize = .ok stored) :
    List.Forall₂ (fun row cells => storeRow p table row = .ok cells) chunk stored := by
  rw [insertImportChunk] at h
  split at h
  · cases h
  · exact batchInsertRows_same hnames h

theorem importRows_stores {table : Table} {columns : List InferredCSVColumn} (hcolumns : columns ≠ []) {chunkSize : ℕ}
    {lines : List CsvLine} : ∀ {chunk : List (RowData D T U)} {stored : List (StoredCells S)},
      (∀ row ∈ chunk, row.map Prod.fst = columns.map InferredCSVColumn.name) →
      importRows p table columns chunkSize chunk lines = .ok stored →
      ∃ rows, List.Forall₂ (fun line row => importedRow p columns line = .ok row) lines rows ∧
        List.Forall₂ (fun row cells => storeRow p table row = .ok cells) (chunk ++ rows) stored := by
  induction lines with
  | nil =>
    intro chunk stored hchunk h
    rw [importRows] at h
    split at h
    · rename_i hempty
      cases h
      subst hempty
      exact ⟨[],.nil,.nil⟩
    · refine ⟨[],.nil,?_⟩
      rw [List.append_nil]
      exact insertImportChunk_same hchunk h
  | cons line lines ih =>
    intro chunk stored hchunk h
    rw [importRows] at h
    obtain ⟨row,hrow,h⟩ := bind_eq_ok.mp h
    rw [if_neg (ne_nil_of_importedRow hcolumns hrow)] at h
    dsimp only at h
    have hnext : ∀ row' ∈ chunk ++ [row], row'.map Prod.fst = columns.map InferredCSVColumn.name :=
      List.forall_mem_append.mpr ⟨hchunk,List.forall_mem_singleton.mpr (importedRow_names hrow)⟩
    split at h
    · -- the chunk is full: it is inserted, and the next one starts empty
      obtain ⟨first,hfirst,h⟩ := bind_eq_ok.mp h
      obtain ⟨rest,hrest,h⟩ := bind_eq_ok.mp h
      cases h
      obtain ⟨rows,hrows,hothers⟩ := ih (List.forall_mem_nil _) hrest
      refine ⟨row :: rows,.cons hrow hrows,?_⟩
      rw [List.append_cons]
      exact List.rel_append (insertImportChunk_same hnext hfirst) hothers
    · obtain ⟨rows,hrows,hstored⟩ := ih hnext h
      refine ⟨row :: rows,.cons hrow hrows,?_⟩
      rwa [List.append_cons]

end TableImport
end Tables
end Allama

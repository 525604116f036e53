import Allama.Mirrors
import Allama.RowValues

/-! Tables and columns of a workspace: the metadata, the statements that change the physical tables, and the service that
does both (`tables/service.py`). -/
namespace Allama
namespace TableDdl
open Mirrors Tables

/-- Beside the packages of rows: characters of Python's strings, and what writes literals. -/
structure DdlPackages (D T : Type) where
  isAlnum : Char → Bool
  isAlpha : Char → Bool
  lower : String → String
  /-- `orjson.dumps`. -/
  dumps : Value → String
  dateIsoformat : D → String
  isoformat : T → String

structure PhysicalColumn where
  name : String
  type : String
  notNull : Bool
  default : Option String
deriving DecidableEq

/-- A table of the database, without its columns `id`, `created_at` and `updated_at`. -/
structure PhysicalTable where
  name : String
  columns : List PhysicalColumn
deriving DecidableEq

def systemColumns : List String := ["id","created_at","updated_at"]

/-- The statements, with identifiers and defaults as they are written. -/
inductive Ddl
  | createTable (table : String)
  | renameTable (table newName : String)
  | dropTable (table : String)
  | addColumn (table column type : String) (notNull : Bool) (default : Option String)
  | renameColumn (table oldName newName : String)
  | alterType (table column type : String)
  | alterNull (table column : String) (notNull : Bool)
  | dropDefault (table column : String)
  | setDefault (table column default : String)
  | dropColumn (table column : String)
  | createUniqueIndex (table column : String)

def Ddl.defaultText : Ddl → Option String
  | .addColumn _ _ _ _ default => default
  | .setDefault _ _ default => some default
  | _ => none

/-- PostgreSQL, as far as the statements leave it open. -/
structure Database where
  /-- The name that an identifier is read as, which is cut at 63 bytes. -/
  identifier : String → String
  /-- The text is read as one expression, as it is written. -/
  isExpression : String → Bool
  /-- The default of a column whose type is altered from one to another, if it can be cast. -/
  castDefault : String → String → String → Option String
  /-- What a statement does whose default is not one expression. -/
  otherwise : List PhysicalTable → Ddl → Option (List PhysicalTable)

section Execution
variable (db : Database)

/-- The table of a name is altered. -/
def alterTable (table : String) (f : PhysicalTable → Option PhysicalTable) (tables : List PhysicalTable) :
    Option (List PhysicalTable) :=
  (tables.find? (·.name = table)).bind fun t => (f t).map fun t' => replaceAt PhysicalTable.name table t' tables

/-- The column of a name is altered. -/
def alterColumn (column : String) (f : PhysicalColumn → Option PhysicalColumn) (t : PhysicalTable) : Option PhysicalTable :=
  (t.columns.find? (·.name = column)).bind fun c =>
    (f c).map fun c' => { t with columns := replaceAt PhysicalColumn.name column c' t.columns }

def freeColumn (t : PhysicalTable) (column : String) : Bool := column ∉ systemColumns ∧ column ∉ t.columns.map PhysicalColumn.name

/-- A type is altered, and the default cast with it. -/
def retype (type : String) (c : PhysicalColumn) : Option PhysicalColumn :=
  match c.default with
  | none => some { c with type := type }
  | some text => (db.castDefault c.type type text).map fun text' => { c with type := type, default := some text' }

/-- What a statement does to tables when nothing is in its way; `none` is an error. -/
def perform (tables : List PhysicalTable) : Ddl → Option (List PhysicalTable)
  | .createTable table =>
    if db.identifier table ∈ tables.map PhysicalTable.name then none else some (tables ++ [⟨db.identifier table,[]⟩])
  | .renameTable table newName =>
    if db.identifier newName ∈ tables.map PhysicalTable.name then none
    else alterTable (db.identifier table) (fun t => some { t with name := db.identifier newName }) tables
  | .dropTable table => some (removeAt PhysicalTable.name (db.identifier table) tables)
  | .addColumn table column type notNull default =>
    alterTable (db.identifier table) (fun t =>
      if freeColumn t (db.identifier column) then
        some { t with columns := t.columns ++ [⟨db.identifier column,type,notNull,default⟩] }
      else none) tables
  | .renameColumn table oldName newName =>
    alterTable (db.identifier table) (fun t =>
      if freeColumn t (db.identifier newName) then
        alterColumn (db.identifier oldName) (fun c => some { c with name := db.identifier newName }) t
      else none) tables
  | .alterType table column type => alterTable (db.identifier table) (alterColumn (db.identifier column) (retype db type)) tables
  | .alterNull table column notNull =>
    alterTable (db.identifier table) (alterColumn (db.identifier column) fun c => some { c with notNull := notNull }) tables
  | .dropDefault table column =>
    alterTable (db.identifier table) (alterColumn (db.identifier column) fun c => some { c with default := none }) tables
  | .setDefault table column default =>
    alterTable (db.identifier table) (alterColumn (db.identifier column) fun c => some { c with default := some default }) tables
  | .dropColumn table column =>
    alterTable (db.identifier table) (fun t =>
      (t.columns.find? (·.name = db.identifier column)).map fun _ =>
        { t with columns := removeAt PhysicalColumn.name (db.identifier column) t.columns }) tables
  | .createUniqueIndex _ _ => some tables

/-- A statement, which the database can also refuse. -/
def execute (refuses : Ddl → Bool) (ddl : Ddl) (tables : List PhysicalTable) : Except WriteError (List PhysicalTable) :=
  if refuses ddl then .error .raised
  else
    let result := if (ddl.defaultText.all db.isExpression : Bool) then perform db tables ddl else db.otherwise tables ddl
    result.elim (.error .raised) .ok

end Execution

/-- A row of `table_column`. -/
structure ColumnMeta where
  id : ℕ
  name : String
  type : SqlType
  nullable : Bool
  default : Value
  options : Option (List String)

/-- A row of `tables`, with its columns. -/
structure TableMeta where
  id : ℕ
  name : String
  columns : List ColumnMeta

/-- The metadata and the physical tables of a workspace. -/
structure Catalog where
  tables : List TableMeta := []
  physical : List PhysicalTable := []

structure TableColumnCreate where
  name : String
  type : SqlType
  nullable : Bool := true
  default : Value := .none
  options : Option (List String) := none

/-- What is not `none` is set. -/
structure TableColumnUpdate where
  name : Option (Option String) := none
  type : Option (Option SqlType) := none
  nullable : Option (Option Bool) := none
  default : Option Value := none
  isIndex : Option (Option Bool) := none
  options : Option (Option (List String)) := none

section Service
variable {D T U S : Type} (p : RowPackages D T U S) (q : DdlPackages D T) (db : Database) (refuses : Ddl → Bool)

def sanitizeIdentifier (identifier : String) : Except WriteError String :=
  match identifier.toList.filter fun c => q.isAlnum c || c = '_' with
  | [] => .error .raised
  | c :: cs =>
    if q.isAlpha c then .ok (q.lower (String.ofList (c :: cs)))
    else .error (.valueError "Identifier must start with a letter")

/-- `bool(value)`. -/
def truthy : Value → Bool
  | .none => false
  | .bool b => b
  | .int n => n ≠ 0
  | .float r => r ≠ 0
  | .str s => s ≠ ""
  | .list items => ! items.isEmpty
  | .dict entries => ! entries.isEmpty

/-- `text.replace("'", "''")`. -/
def doubledQuotes (text : String) : String :=
  String.ofList (text.toList.flatMap fun c => if c = Char.ofNat 39 then [c,c] else [c])

def quoted (text : String) : String := (String.ofList [Char.ofNat 39]) ++ text ++ (String.ofList [Char.ofNat 39])

def handleDefaultValue (type : SqlType) (default : Value) : Except WriteError String :=
  match type with
  | .multiSelect => (coerceMultiSelectValue p (.json default) none).map fun labels =>
      quoted (doubledQuotes (q.dumps (.list (labels.map .str)))) ++ "::jsonb"
  | .jsonb => .ok (quoted (doubledQuotes (q.dumps default)) ++ "::jsonb")
  | .text | .select => .ok (quoted (Tables.str p (.json default)))
  | .date => (coerceToDate p (.json default)).map fun d => quoted (q.dateIsoformat d) ++ "::date"
  | .timestamp | .timestamptz => (coerceToUtcDatetime p (.json default)).map fun t => quoted (q.isoformat t) ++ "::timestamptz"
  | .boolean => .ok (if truthy default then "true" else "false")
  | .integer | .numeric => .ok (Tables.str p (.json default))
  | .uuid => .ok (quoted (Tables.str p (.json default)) ++ "::uuid")

/-- The literal of a default, if there is one. -/
def literalOf (type : SqlType) : Value → Except WriteError (Option String)
  | .none => .ok none
  | value => (handleDefaultValue p q type value).map some

def physicalType : SqlType → String
  | .select => "TEXT"
  | .multiSelect => "JSONB"
  | .integer => "BIGINT"
  | type => type.value

/-- Labels from the last one on, with those that came before. -/
def cleanedLabels : List String → List String → Except WriteError (List String)
  | _, [] => .ok []
  | seen, raw :: rest =>
    let candidate := stripped raw
    if candidate = "" then .error (.valueError "Option labels cannot be empty")
    else if candidate ∈ seen then .error (.valueError "Duplicate option labels are not allowed")
    else (cleanedLabels (candidate :: seen) rest).map (candidate :: ·)

def normalizeColumnOptions : Option (List String) → Except WriteError (Option (List String))
  | none => .ok none
  | some labels => (cleanedLabels [] labels).map some

def hasOptions (type : SqlType) : Bool := type = .select || type = .multiSelect

/-- Neither `None` nor empty. -/
def someOptions (options : Option (List String)) : Bool := options.any (! ·.isEmpty)

def normalizeOptionsForType (type : SqlType) (options : Option (List String)) : Except WriteError (Option (List String)) :=
  if hasOptions type then do
    let normalized ← normalizeColumnOptions options
    if someOptions normalized then .ok normalized
    else .error (.valueError "SELECT and MULTI_SELECT columns must define at least one option")
  else if someOptions options then .error (.valueError "Options are only supported for SELECT or MULTI_SELECT")
  else .ok none

def getTable (catalog : Catalog) (tableId : ℕ) : Except WriteError TableMeta :=
  match catalog.tables.find? (·.id = tableId) with
  | some table => .ok table
  | none => .error (.notFound "Table not found")

def getColumn (table : TableMeta) (columnId : ℕ) : Except WriteError ColumnMeta :=
  match table.columns.find? (·.id = columnId) with
  | some column => .ok column
  | none => .error (.notFound "Column not found")

/-- `session.flush()`: the keys of the rows are unique. -/
def flush (catalog : Catalog) : Except WriteError Catalog :=
  if (catalog.tables.map TableMeta.id).Nodup ∧ (catalog.tables.map TableMeta.name).Nodup ∧
      ∀ table ∈ catalog.tables, (table.columns.map ColumnMeta.id).Nodup ∧ (table.columns.map ColumnMeta.name).Nodup then
    .ok catalog
  else .error .raised

def setTable (table : TableMeta) (catalog : Catalog) : Catalog :=
  { catalog with tables := replaceAt TableMeta.id table.id table catalog.tables }

def setColumn (table : TableMeta) (column : ColumnMeta) : TableMeta :=
  { table with columns := replaceAt ColumnMeta.id column.id column table.columns }

def createColumn (tableId columnId : ℕ) (params : TableColumnCreate) (catalog : Catalog) : Except WriteError Catalog := do
  let table ← getTable catalog tableId
  let columnName ← sanitizeIdentifier q params.name
  let fullTableName ← sanitizeIdentifier q table.name
  if params.type = .timestamp then .error (.valueError s!"Invalid type: {params.type.value}")
  else do
    let options ← normalizeOptionsForType params.type params.options
    let text ← literalOf p q params.type params.default
    let column : ColumnMeta :=
      ⟨columnId,columnName,params.type,params.nullable,text.elim .none .str,options⟩
    let physical ← execute db refuses
      (.addColumn fullTableName columnName (physicalType params.type) (! params.nullable) text) catalog.physical
    flush { setTable { table with columns := table.columns ++ [column] } catalog with physical := physical }

/-- The columns of `create_table`, each with its id. -/
def createColumns (tableId : ℕ) : List (ℕ × TableColumnCreate) → Catalog → Except WriteError Catalog
  | [], catalog => .ok catalog
  | column :: columns, catalog => do
    let catalog ← createColumn p q db refuses tableId column.1 column.2 catalog
    createColumns tableId columns catalog

def createTable (tableId : ℕ) (name : String) (columns : List (ℕ × TableColumnCreate)) (catalog : Catalog) :
    Except WriteError Catalog := do
  let tableName ← sanitizeIdentifier q name
  let physical ← execute db refuses (.createTable tableName) catalog.physical
  let catalog ← flush ⟨catalog.tables ++ [⟨tableId,tableName,[]⟩],physical⟩
  createColumns p q db refuses tableId columns catalog

/-- The statement of `update_table`, if there is a new name. -/
def renameTable (table : TableMeta) (name : Option (Option String)) (physical : List PhysicalTable) :
    Except WriteError (List PhysicalTable) :=
  match name with
  | some (some newName) =>
    if newName = "" then .ok physical
    else do
      let oldFullTableName ← sanitizeIdentifier q table.name
      let sanitizedNewName ← sanitizeIdentifier q newName
      execute db refuses (.renameTable oldFullTableName sanitizedNewName) physical
  | _ => .ok physical

/-- `TableUpdate` has the name alone. -/
def updateTable (tableId : ℕ) (name : Option (Option String)) (catalog : Catalog) : Except WriteError Catalog := do
  let table ← getTable catalog tableId
  let physical ← renameTable q db refuses table name catalog.physical
  match name with
  | none => flush { catalog with physical := physical }
  | some none => .error .raised
  | some (some newName) => flush { setTable { table with name := newName } catalog with physical := physical }

def deleteTable (tableId : ℕ) (catalog : Catalog) : Except WriteError Catalog := do
  let table ← getTable catalog tableId
  let fullTableName ← sanitizeIdentifier q table.name
  let physical ← execute db refuses (.dropTable fullTableName) catalog.physical
  flush ⟨removeAt TableMeta.id tableId catalog.tables,physical⟩

def deleteColumn (tableId columnId : ℕ) (catalog : Catalog) : Except WriteError Catalog := do
  let table ← getTable catalog tableId
  let column ← getColumn table columnId
  let fullTableName ← sanitizeIdentifier q table.name
  let sanitizedColumn ← sanitizeIdentifier q column.name
  let physical ← execute db refuses (.dropColumn fullTableName sanitizedColumn) catalog.physical
  flush { setTable { table with columns := removeAt ColumnMeta.id columnId table.columns } catalog with physical := physical }

def targetType (column : ColumnMeta) (params : TableColumnUpdate) : Except WriteError SqlType :=
  match params.type with
  | none => .ok column.type
  | some (some type) => .ok type
  | some none => .error (.valueError "None is not a valid SqlType")

/-- The options that are set, if any are. -/
def updatedOptions (column : ColumnMeta) (params : TableColumnUpdate) (type : SqlType) :
    Except WriteError (Option (Option (List String))) :=
  match params.options,params.type with
  | some (some requested),_ => (normalizeOptionsForType type (some requested)).map some
  | _,none => .ok none
  | _,some _ =>
    if hasOptions type then
      if someOptions column.options then .ok none
      else .error (.valueError "SELECT and MULTI_SELECT columns must define at least one option")
    else .ok (some none)

/-- `set_fields.get("name", column.name)`, sanitised. -/
def updatedName (column : ColumnMeta) (params : TableColumnUpdate) : Except WriteError String :=
  match params.name with
  | none => sanitizeIdentifier q column.name
  | some (some name) => sanitizeIdentifier q name
  | some none => .error .raised

def renameStep (fullTableName oldName newName : String) (params : TableColumnUpdate) (physical : List PhysicalTable) :
    Except WriteError (List PhysicalTable) :=
  if params.name.isSome then execute db refuses (.renameColumn fullTableName oldName newName) physical else .ok physical

def typeStep (fullTableName newName : String) (type : SqlType) (params : TableColumnUpdate) (physical : List PhysicalTable) :
    Except WriteError (List PhysicalTable) :=
  if params.type.isSome then execute db refuses (.alterType fullTableName newName (physicalType type)) physical else .ok physical

def nullStep (fullTableName newName : String) (params : TableColumnUpdate) (physical : List PhysicalTable) :
    Except WriteError (List PhysicalTable) :=
  match params.nullable with
  | none => .ok physical
  | some nullable => execute db refuses (.alterNull fullTableName newName (nullable ≠ some true)) physical

def defaultStep (fullTableName newName : String) (type : SqlType) (params : TableColumnUpdate) (physical : List PhysicalTable) :
    Except WriteError (List PhysicalTable) :=
  match params.default with
  | none => .ok physical
  | some default => do
    let text ← literalOf p q type default
    match text with
    | none => execute db refuses (.dropDefault fullTableName newName) physical
    | some text => execute db refuses (.setDefault fullTableName newName text) physical

/-- The statements of `update_column`, which are all under the condition that the name or the type is set. -/
def alterSteps (fullTableName : String) (column : ColumnMeta) (type : SqlType) (params : TableColumnUpdate)
    (physical : List PhysicalTable) : Except WriteError (List PhysicalTable) :=
  if params.name.isSome || params.type.isSome then do
    let oldName ← sanitizeIdentifier q column.name
    let newName ← updatedName q column params
    if type = .timestamp then .error (.valueError s!"Invalid type: {type.value}")
    else do
      let physical ← renameStep db refuses fullTableName oldName newName params physical
      let physical ← typeStep db refuses fullTableName newName type params physical
      let physical ← nullStep db refuses fullTableName newName params physical
      defaultStep p q db refuses fullTableName newName type params physical
  else .ok physical

/-- `setattr(column, key, value)` of the fields that are set; no name, type or nullability is NULL. -/
def setFields (column : ColumnMeta) (params : TableColumnUpdate) (options : Option (Option (List String))) :
    Except WriteError ColumnMeta :=
  match params.name.getD (some column.name),params.type.getD (some column.type),params.nullable.getD (some column.nullable) with
  | some name,some type,some nullable =>
    .ok ⟨column.id,name,type,nullable,params.default.getD column.default,options.getD column.options⟩
  | _,_,_ => .error .raised

/-- `create_unique_index`; that there is an index already is among what the database refuses here. -/
def indexStep (fullTableName : String) (column : ColumnMeta) (params : TableColumnUpdate) (physical : List PhysicalTable) :
    Except WriteError (List PhysicalTable) :=
  if params.isIndex = some (some true) then do
    let sanitizedColumn ← sanitizeIdentifier q column.name
    execute db refuses (.createUniqueIndex fullTableName sanitizedColumn) physical
  else .ok physical

def updateColumn (tableId columnId : ℕ) (params : TableColumnUpdate) (catalog : Catalog) : Except WriteError Catalog := do
  let table ← getTable catalog tableId
  let column ← getColumn table columnId
  let fullTableName ← sanitizeIdentifier q table.name
  let physical ← indexStep q db refuses fullTableName column params catalog.physical
  let type ← targetType column params
  let options ← updatedOptions column params type
  let physical ← alterSteps p q db refuses fullTableName column type params physical
  let updated ← setFields column params options
  flush { setTable (setColumn table updated) catalog with physical := physical }

end Service

/-- A call of the service. -/
inductive Call
  | createTable (tableId : ℕ) (name : String) (columns : List (ℕ × TableColumnCreate))
  | updateTable (tableId : ℕ) (name : Option (Option String))
  | deleteTable (tableId : ℕ)
  | createColumn (tableId columnId : ℕ) (params : TableColumnCreate)
  | updateColumn (tableId columnId : ℕ) (params : TableColumnUpdate)
  | deleteColumn (tableId columnId : ℕ)

section Steps
variable {D T U S : Type} (p : RowPackages D T U S) (q : DdlPackages D T) (db : Database)

def attempt (refuses : Ddl → Bool) (catalog : Catalog) : Call → Except WriteError Catalog
  | .createTable tableId name columns => createTable p q db refuses tableId name columns catalog
  | .updateTable tableId name => updateTable q db refuses tableId name catalog
  | .deleteTable tableId => deleteTable q db refuses tableId catalog
  | .createColumn tableId columnId params => createColumn p q db refuses tableId columnId params catalog
  | .updateColumn tableId columnId params => updateColumn p q db refuses tableId columnId params catalog
  | .deleteColumn tableId columnId => deleteColumn q db refuses tableId columnId catalog

/-- A call and what the database refuses of it. Its transaction is committed, or rolled back after an exception. -/
def next (catalog : Catalog) (step : Call × (Ddl → Bool)) : Option Catalog :=
  match attempt p q db step.2 catalog step.1 with
  | .ok after => some after
  | .error _ => some catalog

/-- The metadata of a column says what the physical column is. -/
structure ColumnDescribed (column : ColumnMeta) (c : PhysicalColumn) : Prop where
  name : c.name = column.name
  type : c.type = physicalType column.type
  notNull : c.notNull = ! column.nullable
  default : literalOf p q column.type column.default = .ok c.default

structure TableDescribed (table : TableMeta) (t : PhysicalTable) : Prop where
  name : t.name = table.name
  columns : List.Forall₂ (ColumnDescribed p q) table.columns t.columns

/-- The metadata describes the physical tables, all of them and nothing else. -/
def Described (catalog : Catalog) : Prop := List.Forall₂ (TableDescribed p q) catalog.tables catalog.physical

end Steps
end TableDdl
end Allama

import Allama.Checked
import Allama.Runs
import Allama.TableDdl

/-! Runs of the service in which the metadata describes the physical tables. -/
namespace Allama
open Checked
namespace TableDdl
open Mirrors Runs Tables
variable {tableId : ℕ} {table : TableMeta} {columnId : ℕ}
section Conditions
variable {D T U S : Type} (p : RowPackages D T U S) (q : DdlPackages D T) (db : Database)

/-- A name that is sanitised already, and that the database reads as it is. -/
structure Clean (name : String) : Prop where
  sanitized : sanitizeIdentifier q name = .ok name
  read : db.identifier name = name

def Sanitary (name : String) : Prop := ∀ sanitized, sanitizeIdentifier q name = .ok sanitized → Clean q db sanitized

/-- A default of a new column is one expression, and the literal of its own text. -/
structure CarefulCreate (params : TableColumnCreate) : Prop where
  name : Sanitary q db params.name
  default : ∀ text, literalOf p q params.type params.default = .ok (some text) →
    db.isExpression text = true ∧ handleDefaultValue p q params.type (.str text) = .ok text

/-- A new name is sanitised, nullability and default are not changed alone, a new default is one expression, and a default
that is kept is cast to its literal of the new type. -/
structure CarefulUpdate (column : ColumnMeta) (params : TableColumnUpdate) : Prop where
  name : ∀ name, params.name = some (some name) → Clean q db name
  nullable : params.name = none → params.type = none → ∀ nullable, params.nullable = some (some nullable) →
    nullable = column.nullable
  default : params.name = none → params.type = none → ∀ default, params.default = some default →
    literalOf p q column.type default = literalOf p q column.type column.default
  expression : ∀ default, params.default = some default → ∀ type, targetType column params = .ok type → ∀ text,
    literalOf p q type default = .ok (some text) → db.isExpression text = true
  cast : params.default = none → ∀ type, params.type = some (some type) → ∀ text text',
    literalOf p q column.type column.default = .ok (some text) →
    db.castDefault (physicalType column.type) (physicalType type) text = some text' →
    literalOf p q type column.default = .ok (some text')

/-- A call that does not part the metadata from the tables. -/
def Careful (catalog : Catalog) (step : Call × (Ddl → Bool)) : Prop :=
  match step.1 with
  | .createTable _ name columns => Sanitary q db name ∧ ∀ column ∈ columns, CarefulCreate p q db column.2
  | .updateTable _ name => ∀ newName, name = some (some newName) → Clean q db newName
  | .createColumn _ _ params => CarefulCreate p q db params
  | .updateColumn tableId columnId params => ∀ table column, getTable catalog tableId = .ok table →
      getColumn table columnId = .ok column → CarefulUpdate p q db column params
  | .deleteTable _ | .deleteColumn _ _ => True

end Conditions

section Invariant
variable {D T U S : Type} (p : RowPackages D T U S) (q : DdlPackages D T) (db : Database)

structure ColumnKept (column : ColumnMeta) (c : PhysicalColumn) : Prop where
  described : ColumnDescribed p q column c
  clean : Clean q db column.name

structure TableKept (table : TableMeta) (t : PhysicalTable) : Prop where
  name : t.name = table.name
  clean : Clean q db table.name
  columns : Mirrored (ColumnKept p q db) ColumnMeta.id ColumnMeta.name table.columns t.columns

/-- What every careful call keeps. -/
def Kept (catalog : Catalog) : Prop :=
  Mirrored (TableKept p q db) TableMeta.id TableMeta.name catalog.tables catalog.physical

variable {p q db}

theorem Kept.described {catalog : Catalog} (h : Kept p q db catalog) : Described p q catalog :=
  h.related.imp fun _ _ ht => ⟨ht.name,ht.columns.related.imp fun _ _ hc => hc.described⟩

theorem name_of_columnKept (column : ColumnMeta) (c : PhysicalColumn) (h : ColumnKept p q db column c) : c.name = column.name :=
  h.described.name

theorem name_of_tableKept (table : TableMeta) (t : PhysicalTable) (h : TableKept p q db table t) : t.name = table.name := h.name

end Invariant

section Statements
variable {db : Database} {refuses : Ddl → Bool} {tables tables' : List PhysicalTable}

theorem perform_of_execute {ddl : Ddl} (hdefault : ddl.defaultText.all db.isExpression = true)
    (h : execute db refuses ddl tables = .ok tables') : perform db tables ddl = some tables' := by
  rw [execute] at h
  split at h
  · cases h
  · cases hperform : perform db tables ddl with
    | none =>
      rw [hperform] at h
      cases h
    | some after =>
      rw [hperform] at h
      rw [Except.ok.inj h]

theorem alterTable_some {table : String} {f : PhysicalTable → Option PhysicalTable} {t : PhysicalTable}
    (ht : tables.find? (·.name = table) = some t) (h : alterTable table f tables = some tables') :
    ∃ t', f t = some t' ∧ tables' = replaceAt PhysicalTable.name table t' tables := by
  rw [alterTable, ht] at h
  obtain ⟨t',hf,htables⟩ := Option.map_eq_some_iff.mp h
  exact ⟨t',hf,htables.symm⟩

theorem alterColumn_some {column : String} {f : PhysicalColumn → Option PhysicalColumn} {t t' : PhysicalTable}
    {c : PhysicalColumn} (hc : t.columns.find? (·.name = column) = some c) (h : alterColumn column f t = some t') :
    ∃ c', f c = some c' ∧ t' = { t with columns := replaceAt PhysicalColumn.name column c' t.columns } := by
  rw [alterColumn, hc] at h
  obtain ⟨c',hf,ht⟩ := Option.map_eq_some_iff.mp h
  exact ⟨c',hf,ht.symm⟩

theorem free_of_freeColumn {t : PhysicalTable} {column : String} (h : freeColumn t column = true) :
    column ∉ t.columns.map PhysicalColumn.name := (of_decide_eq_true h).2

end Statements

section Flush
variable {catalog after : Catalog}

theorem flush_ok (h : flush catalog = .ok after) : after = catalog ∧ (catalog.tables.map TableMeta.id).Nodup ∧
    ∀ table ∈ catalog.tables, (table.columns.map ColumnMeta.id).Nodup := by
  rw [flush] at h
  split at h
  · rename_i hkeys
    exact ⟨(Except.ok.inj h).symm,hkeys.1,fun table htable => (hkeys.2.2 table htable).1⟩
  · cases h

theorem getTable_ok (h : getTable catalog tableId = .ok table) :
    table ∈ catalog.tables ∧ table.id = tableId := by
  rw [getTable] at h
  split at h
  · rename_i hfind
    cases h
    exact ⟨List.mem_of_find?_eq_some hfind,by simpa using List.find?_some hfind⟩
  · cases h

theorem getColumn_ok {column : ColumnMeta} (h : getColumn table columnId = .ok column) :
    column ∈ table.columns ∧ column.id = columnId := by
  rw [getColumn] at h
  split at h
  · rename_i hfind
    cases h
    exact ⟨List.mem_of_find?_eq_some hfind,by simpa using List.find?_some hfind⟩
  · cases h

end Flush

section Calls
variable {D T U S : Type} {p : RowPackages D T U S} {q : DdlPackages D T} {db : Database} {refuses : Ddl → Bool}
variable {catalog after : Catalog}

theorem Kept.find (h : Kept p q db catalog) {table : TableMeta} (htable : table ∈ catalog.tables) {fullTableName : String}
    (hfull : sanitizeIdentifier q table.name = .ok fullTableName) :
    db.identifier fullTableName = table.name ∧
      ∃ t, catalog.physical.find? (·.name = table.name) = some t ∧ TableKept p q db table t := by
  obtain ⟨t,hfind,ht⟩ := Mirrored.find h name_of_tableKept htable
  obtain rfl := Except.ok.inj (ht.clean.sanitized.symm.trans hfull)
  exact ⟨ht.clean.read,t,hfind,ht⟩

theorem Kept.setTable (h : Kept p q db catalog) {table table' : TableMeta} (htable : table ∈ catalog.tables) {t' : PhysicalTable}
    (hkept : TableKept p q db table' t') (hid : table'.id = table.id)
    (hfree : table'.name = table.name ∨ table'.name ∉ catalog.physical.map PhysicalTable.name) :
    Kept p q db { TableDdl.setTable table' catalog with
      physical := replaceAt PhysicalTable.name table.name t' catalog.physical } := by
  have hreplace := Mirrored.replace h name_of_tableKept htable hkept hid hfree
  unfold Kept TableDdl.setTable
  rw [hid]
  exact hreplace

theorem mem_setTable {table' : TableMeta} (h : ∃ table ∈ catalog.tables, table.id = table'.id) :
    table' ∈ (TableDdl.setTable table' catalog).tables := by
  obtain ⟨table,htable,hid⟩ := h
  exact List.mem_map.mpr ⟨table,htable,if_pos hid⟩

section
variable (h : Kept p q db catalog)
include h

theorem createColumn_kept {params : TableColumnCreate} (hcareful : CarefulCreate p q db params)
    (hok : createColumn p q db refuses tableId columnId params catalog = .ok after) : Kept p q db after := by
  obtain ⟨table,htable,hok⟩ := bind_eq_ok.mp hok
  obtain ⟨columnName,hname,hok⟩ := bind_eq_ok.mp hok
  obtain ⟨fullTableName,hfull,hok⟩ := bind_eq_ok.mp hok
  split at hok
  · cases hok
  obtain ⟨options,-,hok⟩ := bind_eq_ok.mp hok
  obtain ⟨text,htext,hok⟩ := bind_eq_ok.mp hok
  obtain ⟨physical,hphysical,hok⟩ := bind_eq_ok.mp hok
  obtain ⟨rfl,-,hids⟩ := flush_ok hok
  obtain ⟨hmem,-⟩ := getTable_ok htable
  obtain ⟨hread,t,hfind,ht⟩ := h.find hmem hfull
  have hclean := hcareful.name columnName hname
  have hperform := perform_of_execute (by
    cases text with
    | none => rfl
    | some text => exact (hcareful.default text htext).1) hphysical
  rw [perform, hread] at hperform
  obtain ⟨t',ht',rfl⟩ := alterTable_some hfind hperform
  rw [hclean.read] at ht'
  split at ht'
  swap
  · cases ht'
  rename_i hfreeColumn
  cases ht'
  refine h.setTable hmem ⟨ht.name,ht.clean,?_⟩ rfl (.inl rfl)
  refine ht.columns.append name_of_columnKept ⟨⟨rfl,rfl,rfl,?_⟩,hclean⟩ ?_ (free_of_freeColumn hfreeColumn)
  · cases text with
    | none => rfl
    | some text =>
      change (handleDefaultValue p q params.type (.str text)).map some = _
      rw [(hcareful.default text htext).2]
      rfl
  · have hnodup := hids _ (mem_setTable ⟨table,hmem,rfl⟩)
    rw [List.map_append] at hnodup
    exact List.disjoint_singleton.mp (List.disjoint_of_nodup_append hnodup)

theorem createColumns_kept {columns : List (ℕ × TableColumnCreate)}
    (hcareful : ∀ column ∈ columns, CarefulCreate p q db column.2)
    (hok : createColumns p q db refuses tableId columns catalog = .ok after) : Kept p q db after := by
  induction columns generalizing catalog with
  | nil =>
    cases hok
    exact h
  | cons column columns ih =>
    obtain ⟨between,hfirst,hrest⟩ := bind_eq_ok.mp hok
    have hbetween := createColumn_kept h (hcareful column List.mem_cons_self) hfirst
    exact ih hbetween (fun c hc => hcareful c (List.mem_cons_of_mem _ hc)) hrest

theorem createTable_kept {name : String} {columns : List (ℕ × TableColumnCreate)} (hname : Sanitary q db name)
    (hcareful : ∀ column ∈ columns, CarefulCreate p q db column.2)
    (hok : createTable p q db refuses tableId name columns catalog = .ok after) : Kept p q db after := by
  obtain ⟨tableName,hsanitized,hok⟩ := bind_eq_ok.mp hok
  obtain ⟨physical,hphysical,hok⟩ := bind_eq_ok.mp hok
  obtain ⟨between,hflush,hok⟩ := bind_eq_ok.mp hok
  refine createColumns_kept ?_ hcareful hok
  obtain ⟨rfl,hids,-⟩ := flush_ok hflush
  have hclean := hname tableName hsanitized
  have hperform := perform_of_execute rfl hphysical
  rw [perform, hclean.read] at hperform
  split at hperform
  · cases hperform
  rename_i hfree
  cases hperform
  refine Mirrored.append h name_of_tableKept ⟨rfl,hclean,.nil⟩ ?_ hfree
  rw [List.map_append] at hids
  exact List.disjoint_singleton.mp (List.disjoint_of_nodup_append hids)

theorem renameTable_kept {newName : String} {physical : List PhysicalTable} (htable : table ∈ catalog.tables)
    (hclean : Clean q db newName)
    (hok : renameTable q db refuses table (some (some newName)) catalog.physical = .ok physical) :
    Kept p q db { setTable { table with name := newName } catalog with physical := physical } := by
  have hnotEmpty : newName ≠ "" := by
    rintro rfl
    cases hclean.sanitized
  rw [renameTable, if_neg hnotEmpty] at hok
  obtain ⟨oldFullTableName,hold,hok⟩ := bind_eq_ok.mp hok
  obtain ⟨sanitizedNewName,hnew,hok⟩ := bind_eq_ok.mp hok
  obtain rfl := Except.ok.inj (hclean.sanitized.symm.trans hnew)
  obtain ⟨hread,t,hfind,ht⟩ := h.find htable hold
  have hperform := perform_of_execute rfl hok
  rw [perform, hread, hclean.read] at hperform
  split at hperform
  · cases hperform
  rename_i hfree
  obtain ⟨t',ht',rfl⟩ := alterTable_some hfind hperform
  cases ht'
  exact h.setTable htable ⟨rfl,hclean,ht.columns⟩ rfl (.inr hfree)

theorem updateTable_kept {name : Option (Option String)}
    (hcareful : ∀ newName, name = some (some newName) → Clean q db newName)
    (hok : updateTable q db refuses tableId name catalog = .ok after) : Kept p q db after := by
  obtain ⟨table,htable,hok⟩ := bind_eq_ok.mp hok
  obtain ⟨physical,hphysical,hok⟩ := bind_eq_ok.mp hok
  rcases name with _ | _ | newName
  · cases hphysical
    obtain ⟨rfl,-⟩ := flush_ok hok
    exact h
  · cases hok
  · obtain ⟨rfl,-⟩ := flush_ok hok
    exact renameTable_kept h (getTable_ok htable).1 (hcareful newName rfl) hphysical

theorem deleteTable_kept (hok : deleteTable q db refuses tableId catalog = .ok after) : Kept p q db after := by
  obtain ⟨table,htable,hok⟩ := bind_eq_ok.mp hok
  obtain ⟨fullTableName,hfull,hok⟩ := bind_eq_ok.mp hok
  obtain ⟨physical,hphysical,hok⟩ := bind_eq_ok.mp hok
  obtain ⟨rfl,-⟩ := flush_ok hok
  obtain ⟨hmem,rfl⟩ := getTable_ok htable
  obtain ⟨hread,-⟩ := h.find hmem hfull
  have hperform := perform_of_execute rfl hphysical
  rw [perform, hread] at hperform
  cases hperform
  exact Mirrored.remove h name_of_tableKept hmem

theorem deleteColumn_kept (hok : deleteColumn q db refuses tableId columnId catalog = .ok after) : Kept p q db after := by
  obtain ⟨table,htable,hok⟩ := bind_eq_ok.mp hok
  obtain ⟨column,hcolumn,hok⟩ := bind_eq_ok.mp hok
  obtain ⟨fullTableName,hfull,hok⟩ := bind_eq_ok.mp hok
  obtain ⟨sanitizedColumn,hsanitized,hok⟩ := bind_eq_ok.mp hok
  obtain ⟨physical,hphysical,hok⟩ := bind_eq_ok.mp hok
  obtain ⟨rfl,-⟩ := flush_ok hok
  obtain ⟨hmem,-⟩ := getTable_ok htable
  obtain ⟨hmemColumn,rfl⟩ := getColumn_ok hcolumn
  obtain ⟨hread,t,hfind,ht⟩ := h.find hmem hfull
  obtain ⟨c,hfindColumn,hc⟩ := Mirrored.find ht.columns name_of_columnKept hmemColumn
  obtain rfl := Except.ok.inj (hc.clean.sanitized.symm.trans hsanitized)
  have hperform := perform_of_execute rfl hphysical
  rw [perform, hread, hc.clean.read] at hperform
  obtain ⟨t',ht',rfl⟩ := alterTable_some hfind hperform
  rw [hfindColumn] at ht'
  cases ht'
  exact h.setTable hmem ⟨ht.name,ht.clean,ht.columns.remove name_of_columnKept hmemColumn⟩ rfl (.inl rfl)

end

end Calls
end TableDdl
end Allama

import Allama.TableCatalog

/-! The statements of one update of a column, followed through the table that they alter. -/
namespace Allama
namespace TableDdl
open Checked Mirrors Tables

/-- The tables with another column in the place of `c` of `t`. -/
def altered (t : PhysicalTable) (c c' : PhysicalColumn) (tables : List PhysicalTable) : List PhysicalTable :=
  replaceAt PhysicalTable.name t.name { t with columns := replaceAt PhysicalColumn.name c.name c' t.columns } tables

/-- A column that can stand in the place of `c`: it has its name, or one that is free. -/
def Fits (t : PhysicalTable) (c c' : PhysicalColumn) : Prop :=
  c'.name = c.name ∨ c'.name ∉ t.columns.map PhysicalColumn.name

section Altered
variable {db : Database} {refuses : Ddl → Bool} {tables tables' : List PhysicalTable} {t : PhysicalTable} {c c' : PhysicalColumn}

theorem altered_self (htables : (tables.map PhysicalTable.name).Nodup) (ht : t ∈ tables)
    (hcolumns : (t.columns.map PhysicalColumn.name).Nodup) (hc : c ∈ t.columns) : altered t c c tables = tables := by
  rw [altered, replaceAt_self hcolumns hc]
  exact replaceAt_self htables ht

theorem alterTable_altered {f : PhysicalTable → Option PhysicalTable} (ht : t ∈ tables)
    (h : alterTable t.name f (altered t c c' tables) = some tables') :
    ∃ t', f { t with columns := replaceAt PhysicalColumn.name c.name c' t.columns } = some t' ∧
      tables' = replaceAt PhysicalTable.name t.name t' tables := by
  let u : PhysicalTable := { t with columns := replaceAt PhysicalColumn.name c.name c' t.columns }
  have hsame : u.name = t.name ∨ u.name ∉ tables.map PhysicalTable.name := .inl rfl
  have hfind : (altered t c c' tables).find? (·.name = u.name) = some u :=
    find_replaceAt PhysicalTable.name (List.mem_map_of_mem ht) hsame
  obtain ⟨t',hf,rfl⟩ := alterTable_some hfind h
  exact ⟨t',hf,replaceAt_replaceAt PhysicalTable.name hsame t'⟩

theorem alterColumn_altered {f : PhysicalColumn → Option PhysicalColumn} (ht : t ∈ tables) (hc : c ∈ t.columns)
    (hfits : Fits t c c') (h : alterTable t.name (alterColumn c'.name f) (altered t c c' tables) = some tables') :
    ∃ c'', f c' = some c'' ∧ tables' = altered t c c'' tables := by
  obtain ⟨t',ht',rfl⟩ := alterTable_altered ht h
  have hfind : (replaceAt PhysicalColumn.name c.name c' t.columns).find? (·.name = c'.name) = some c' :=
    find_replaceAt PhysicalColumn.name (List.mem_map_of_mem hc) hfits
  obtain ⟨c'',hf,rfl⟩ := alterColumn_some hfind ht'
  refine ⟨c'',hf,?_⟩
  rw [altered]
  dsimp only
  rw [replaceAt_replaceAt PhysicalColumn.name hfits]

theorem execute_altered {ddl : Ddl} {f : PhysicalColumn → Option PhysicalColumn} (ht : t ∈ tables) (hc : c ∈ t.columns)
    (hfits : Fits t c c') (hddl : ∀ tables, perform db tables ddl = alterTable t.name (alterColumn c'.name f) tables)
    (hdefault : ddl.defaultText.all db.isExpression = true)
    (h : execute db refuses ddl (altered t c c' tables) = .ok tables') :
    ∃ c'', f c' = some c'' ∧ tables' = altered t c c'' tables := by
  have hperform := perform_of_execute hdefault h
  rw [hddl] at hperform
  exact alterColumn_altered ht hc hfits hperform

end Altered

section UpdateSteps
variable {D T U S : Type} {p : RowPackages D T U S} {q : DdlPackages D T} {db : Database} {refuses : Ddl → Bool}
variable {tables tables' : List PhysicalTable} {t : PhysicalTable} {c c' : PhysicalColumn}
variable {fullTableName newName : String} {type : SqlType} {params : TableColumnUpdate}

theorem renameStep_altered (ht : tables.find? (·.name = t.name) = some t) (hc : t.columns.find? (·.name = c.name) = some c)
    (hself : altered t c c tables = tables) (htable : db.identifier fullTableName = t.name)
    (hold : db.identifier c.name = c.name) (hnew : db.identifier newName = newName) (hsame : params.name = none → newName = c.name)
    (h : renameStep db refuses fullTableName c.name newName params tables = .ok tables') :
    tables' = altered t c { c with name := newName } tables ∧ Fits t c { c with name := newName } := by
  rw [renameStep] at h
  split at h
  · have hperform := perform_of_execute rfl h
    rw [perform, htable, hold, hnew] at hperform
    obtain ⟨t',ht',rfl⟩ := alterTable_some ht hperform
    split at ht'
    swap
    · cases ht'
    rename_i hfree
    obtain ⟨c',hc',rfl⟩ := alterColumn_some hc ht'
    cases hc'
    exact ⟨rfl,.inr (free_of_freeColumn hfree)⟩
  · rename_i hnone
    have hname : newName = c.name := hsame (Option.not_isSome_iff_eq_none.mp hnone)
    cases h
    rw [hname]
    exact ⟨hself.symm,.inl rfl⟩

section
variable (ht : t ∈ tables) (hc : c ∈ t.columns) (hfits : Fits t c c') (htable : db.identifier fullTableName = t.name)
include ht hc hfits htable

theorem typeStep_altered (hcolumn : db.identifier newName = c'.name)
    (h : typeStep db refuses fullTableName newName type params (altered t c c' tables) = .ok tables') :
    ∃ c'', (if params.type.isSome then retype db (physicalType type) c' else some c') = some c'' ∧
      tables' = altered t c c'' tables := by
  rw [typeStep] at h
  split at h
  · rename_i hset
    rw [if_pos hset]
    exact execute_altered ht hc hfits (fun tables => by rw [perform, htable, hcolumn]) rfl h
  · rename_i hnone
    rw [if_neg hnone]
    exact ⟨c',rfl,(Except.ok.inj h).symm⟩

theorem nullStep_altered (hcolumn : db.identifier newName = c'.name)
    (h : nullStep db refuses fullTableName newName params (altered t c c' tables) = .ok tables') :
    tables' = altered t c { c' with notNull := params.nullable.elim c'.notNull fun nullable => nullable ≠ some true } tables := by
  rw [nullStep] at h
  split at h
  · rename_i hnone
    rw [hnone]
    exact (Except.ok.inj h).symm
  · rename_i nullable hsome
    rw [hsome]
    obtain ⟨c'',hc'',rfl⟩ := execute_altered ht hc hfits (fun tables => by rw [perform, htable, hcolumn]) rfl h
    rw [← Option.some.inj hc'']
    rfl

theorem defaultStep_altered (hcolumn : db.identifier newName = c'.name)
    (hexpression : ∀ default, params.default = some default → ∀ text, literalOf p q type default = .ok (some text) →
      db.isExpression text = true)
    (h : defaultStep p q db refuses fullTableName newName type params (altered t c c' tables) = .ok tables') :
    ∃ text, (params.default.elim (.ok c'.default) fun default => literalOf p q type default) = .ok text ∧
      tables' = altered t c { c' with default := text } tables := by
  rw [defaultStep] at h
  split at h
  · rename_i hnone
    rw [hnone]
    exact ⟨c'.default,rfl,(Except.ok.inj h).symm⟩
  · rename_i default hsome
    rw [hsome]
    obtain ⟨text,htext,h⟩ := bind_eq_ok.mp h
    refine ⟨text,htext,?_⟩
    cases text with
    | none =>
      obtain ⟨c'',hc'',rfl⟩ := execute_altered ht hc hfits (fun tables => by rw [perform, htable, hcolumn]) rfl h
      rw [← Option.some.inj hc'']
    | some text =>
      have hdefault : (Ddl.setDefault fullTableName newName text).defaultText.all db.isExpression = true :=
        hexpression default hsome text htext
      obtain ⟨c'',hc'',rfl⟩ := execute_altered ht hc hfits (fun tables => by rw [perform, htable, hcolumn]) hdefault h
      rw [← Option.some.inj hc'']

end

end UpdateSteps

section Updated
variable {D T U S : Type} {p : RowPackages D T U S} {q : DdlPackages D T} {db : Database} {refuses : Ddl → Bool}
variable {column updated : ColumnMeta} {params : TableColumnUpdate} {type : SqlType}

/-- What a column becomes by the fields that are set. -/
structure SetTo (column : ColumnMeta) (params : TableColumnUpdate) (updated : ColumnMeta) : Prop where
  id : updated.id = column.id
  name : params.name.getD (some column.name) = some updated.name
  type : params.type.getD (some column.type) = some updated.type
  nullable : params.nullable.getD (some column.nullable) = some updated.nullable
  default : updated.default = params.default.getD column.default

theorem setTo_of_setFields {options : Option (Option (List String))} (h : setFields column params options = .ok updated) :
    SetTo column params updated := by
  unfold setFields at h
  split at h
  · rename_i hname htype hnullable
    cases h
    exact ⟨rfl,hname,htype,hnullable,rfl⟩
  · cases h

theorem targetType_eq (hset : SetTo column params updated) (h : targetType column params = .ok type) : type = updated.type := by
  have htype := hset.type
  rw [targetType] at h
  split at h
  · rename_i hnone
    rw [hnone] at htype
    exact (Except.ok.inj h).symm.trans (Option.some.inj htype)
  · rename_i hsome
    rw [hsome] at htype
    exact (Except.ok.inj h).symm.trans (Option.some.inj htype)
  · cases h

theorem clean_updated (hset : SetTo column params updated) (hclean : Clean q db column.name)
    (hcareful : ∀ name, params.name = some (some name) → Clean q db name) : Clean q db updated.name := by
  have hname := hset.name
  rcases hparams : params.name with _ | _ | name
  · rw [hparams] at hname
    exact Option.some.inj hname ▸ hclean
  · rw [hparams] at hname
    cases hname
  · rw [hparams] at hname
    exact Option.some.inj hname ▸ hcareful name hparams

theorem updatedName_eq {newName : String} (hset : SetTo column params updated) (hclean : Clean q db updated.name)
    (h : updatedName q column params = .ok newName) : newName = updated.name := by
  have hname := hset.name
  have hsanitized : sanitizeIdentifier q updated.name = .ok newName := by
    rw [updatedName] at h
    split at h
    · rename_i hnone
      rw [hnone] at hname
      exact Option.some.inj hname ▸ h
    · rename_i hsome
      rw [hsome] at hname
      exact Option.some.inj hname ▸ h
    · cases h
  exact Except.ok.inj (hsanitized.symm.trans hclean.sanitized)

theorem literalOf_none {default : Value} (h : literalOf p q type default = .ok none) : default = .none := by
  rw [literalOf.eq_def] at h
  split at h
  · rfl
  · cases hliteral : handleDefaultValue p q type default with
    | error err =>
      rw [hliteral] at h
      cases h
    | ok text =>
      rw [hliteral] at h
      cases h

theorem retyped {c c' : PhysicalColumn} (hset : SetTo column params updated) (hcareful : CarefulUpdate p q db column params)
    (htype : c.type = physicalType column.type) (hdefault : literalOf p q column.type column.default = .ok c.default)
    (h : (if params.type.isSome then retype db (physicalType updated.type) c else some c) = some c') :
    c' = { c with type := physicalType updated.type, default := c'.default } ∧
      (params.default = none → literalOf p q updated.type column.default = .ok c'.default) := by
  have hnew := hset.type
  rcases hparams : params.type with _ | _ | type
  · rw [hparams] at h hnew
    cases h
    rw [← Option.some.inj hnew, ← htype]
    exact ⟨rfl,fun _ => hdefault⟩
  · rw [hparams] at hnew
    cases hnew
  · rw [hparams] at h hnew
    cases hnew
    change retype db (physicalType updated.type) c = some c' at h
    rw [retype] at h
    split at h
    · rename_i hnone
      cases h
      rw [hnone] at hdefault
      refine ⟨rfl,fun _ => ?_⟩
      rw [literalOf_none hdefault]
      exact congrArg Except.ok hnone.symm
    · rename_i text hsome
      obtain ⟨text',hcast,rfl⟩ := Option.map_eq_some_iff.mp h
      rw [hsome] at hdefault
      rw [htype] at hcast
      exact ⟨rfl,fun hkept => hcareful.cast hkept updated.type hparams text text' hdefault hcast⟩

theorem kept_unaltered {c : PhysicalColumn} (hkept : ColumnKept p q db column c) (hset : SetTo column params updated)
    (hcareful : CarefulUpdate p q db column params) (hname : params.name = none) (htype : params.type = none) :
    ColumnKept p q db updated c := by
  have hnames : column.name = updated.name := Option.some.inj (by simpa [hname] using hset.name)
  have htypes : column.type = updated.type := Option.some.inj (by simpa [htype] using hset.type)
  have hnullable : updated.nullable = column.nullable := by
    have hnew := hset.nullable
    rcases hparams : params.nullable with _ | _ | nullable
    · rw [hparams] at hnew
      exact (Option.some.inj hnew).symm
    · rw [hparams] at hnew
      cases hnew
    · rw [hparams] at hnew
      exact (Option.some.inj hnew).symm.trans (hcareful.nullable hname htype nullable hparams)
  have hdefault : literalOf p q column.type updated.default = literalOf p q column.type column.default := by
    rw [hset.default]
    rcases hparams : params.default with _ | default
    · rfl
    · exact hcareful.default hname htype default hparams
  refine ⟨⟨?_,?_,?_,?_⟩,hnames ▸ hkept.clean⟩
  · rw [← hnames, hkept.described.name]
  · rw [← htypes, hkept.described.type]
  · rw [hnullable, hkept.described.notNull]
  · rw [← htypes, hdefault, hkept.described.default]

theorem notNull_updated {notNull : Bool} (hset : SetTo column params updated) (h : notNull = ! column.nullable) :
    params.nullable.elim notNull (fun nullable => decide (nullable ≠ some true)) = ! updated.nullable := by
  have hnullable := hset.nullable
  rcases hparams : params.nullable with _ | _ | nullable
  · rw [hparams] at hnullable
    rw [← Option.some.inj hnullable]
    exact h
  · rw [hparams] at hnullable
    cases hnullable
  · rw [hparams] at hnullable
    rw [← Option.some.inj hnullable]
    cases nullable <;> rfl

/-- The statements of an update make the column that the fields describe. -/
theorem alterSteps_kept {tables tables' : List PhysicalTable} {t : PhysicalTable} {c : PhysicalColumn} {fullTableName : String}
    (ht : t ∈ tables) (hfindTable : tables.find? (·.name = t.name) = some t) (hc : c ∈ t.columns)
    (hfindColumn : t.columns.find? (·.name = c.name) = some c) (hself : altered t c c tables = tables)
    (htable : db.identifier fullTableName = t.name) (hkept : ColumnKept p q db column c) (hset : SetTo column params updated)
    (hcareful : CarefulUpdate p q db column params) (htype : targetType column params = .ok type)
    (h : alterSteps p q db refuses fullTableName column type params tables = .ok tables') :
    ∃ c', tables' = altered t c c' tables ∧ Fits t c c' ∧ ColumnKept p q db updated c' := by
  rw [alterSteps] at h
  split at h
  swap
  · rename_i hneither
    rw [Bool.or_eq_true, not_or, Option.not_isSome_iff_eq_none, Option.not_isSome_iff_eq_none] at hneither
    cases h
    exact ⟨c,hself.symm,.inl rfl,kept_unaltered hkept hset hcareful hneither.1 hneither.2⟩
  obtain ⟨oldName,hold,h⟩ := bind_eq_ok.mp h
  obtain ⟨newName,hnew,h⟩ := bind_eq_ok.mp h
  split at h
  · cases h
  obtain ⟨tables₁,hrename,h⟩ := bind_eq_ok.mp h
  obtain ⟨tables₂,hretype,h⟩ := bind_eq_ok.mp h
  obtain ⟨tables₃,hnull,hdefault⟩ := bind_eq_ok.mp h
  have hclean : Clean q db updated.name := clean_updated hset hkept.clean hcareful.name
  obtain rfl := updatedName_eq hset hclean hnew
  obtain rfl := targetType_eq hset htype
  have hcname : oldName = c.name := by
    rw [hkept.described.name]
    exact Except.ok.inj (hold.symm.trans hkept.clean.sanitized)
  subst hcname
  have hread : db.identifier c.name = c.name := by
    rw [hkept.described.name]
    exact hkept.clean.read
  have hsame : params.name = none → updated.name = c.name := by
    intro hnone
    rw [hkept.described.name]
    exact (Option.some.inj (by simpa [hnone] using hset.name)).symm
  -- The four statements, each on the column that the one before has left.
  obtain ⟨rfl,hfits⟩ := renameStep_altered hfindTable hfindColumn hself htable hread hclean.read hsame hrename
  obtain ⟨c₂,hc₂,rfl⟩ := typeStep_altered ht hc hfits htable hclean.read hretype
  obtain ⟨hretyped,hcast⟩ := retyped hset hcareful (c := { c with name := updated.name }) hkept.described.type
    hkept.described.default hc₂
  have hname₂ : c₂.name = updated.name := by rw [hretyped]
  have hfits₂ : Fits t c c₂ := by
    rw [Fits, hname₂]
    exact hfits
  have hcolumn₂ : db.identifier updated.name = c₂.name := hclean.read.trans hname₂.symm
  obtain rfl := nullStep_altered ht hc hfits₂ htable hcolumn₂ hnull
  let c₃ : PhysicalColumn := { c₂ with notNull := params.nullable.elim c₂.notNull fun nullable => nullable ≠ some true }
  have hfits₃ : Fits t c c₃ := hfits₂
  obtain ⟨text,htext,rfl⟩ := defaultStep_altered ht hc hfits₃ htable hcolumn₂
    (fun default hdefault => hcareful.expression default hdefault _ htype) hdefault
  refine ⟨_,rfl,hfits₂,⟨hname₂,?_,?_,?_⟩,hclean⟩
  · change c₂.type = _
    rw [hretyped]
  · apply notNull_updated hset
    rw [hretyped]
    exact hkept.described.notNull
  · rw [hset.default]
    rcases hparams : params.default with _ | default
    · rw [hparams] at htext
      exact (hcast hparams).trans htext
    · rw [hparams] at htext
      exact htext

theorem indexStep_eq {tables tables' : List PhysicalTable} {fullTableName : String}
    (h : indexStep q db refuses fullTableName column params tables = .ok tables') : tables' = tables := by
  rw [indexStep] at h
  split at h
  · obtain ⟨sanitizedColumn,-,h⟩ := bind_eq_ok.mp h
    exact (Option.some.inj (perform_of_execute rfl h)).symm
  · exact (Except.ok.inj h).symm

variable {catalog after : Catalog}

theorem updateColumn_kept {tableId columnId : ℕ} (h : Kept p q db catalog)
    (hcareful : ∀ table column, getTable catalog tableId = .ok table → getColumn table columnId = .ok column →
      CarefulUpdate p q db column params)
    (hok : updateColumn p q db refuses tableId columnId params catalog = .ok after) : Kept p q db after := by
  obtain ⟨table,htable,hok⟩ := bind_eq_ok.mp hok
  obtain ⟨column,hcolumn,hok⟩ := bind_eq_ok.mp hok
  obtain ⟨fullTableName,hfull,hok⟩ := bind_eq_ok.mp hok
  obtain ⟨physical,hindex,hok⟩ := bind_eq_ok.mp hok
  obtain ⟨type,htype,hok⟩ := bind_eq_ok.mp hok
  obtain ⟨options,-,hok⟩ := bind_eq_ok.mp hok
  obtain ⟨physical',hsteps,hok⟩ := bind_eq_ok.mp hok
  obtain ⟨updated,hfields,hok⟩ := bind_eq_ok.mp hok
  obtain ⟨rfl,-⟩ := flush_ok hok
  obtain rfl := indexStep_eq hindex
  obtain ⟨hmem,-⟩ := getTable_ok htable
  obtain ⟨hmemColumn,-⟩ := getColumn_ok hcolumn
  obtain ⟨hread,t,hfindTable,ht⟩ := h.find hmem hfull
  obtain ⟨c,hfindColumn,hc⟩ := Mirrored.find ht.columns name_of_columnKept hmemColumn
  have hset := setTo_of_setFields hfields
  have htmem : t ∈ catalog.physical := List.mem_of_find?_eq_some hfindTable
  have hcmem : c ∈ t.columns := List.mem_of_find?_eq_some hfindColumn
  rw [← ht.name] at hfindTable hread
  rw [← hc.described.name] at hfindColumn
  have htables : (catalog.physical.map PhysicalTable.name).Nodup := by
    rw [names_eq name_of_tableKept h.related]
    exact h.names
  have hcolumns : (t.columns.map PhysicalColumn.name).Nodup := by
    rw [names_eq name_of_columnKept ht.columns.related]
    exact ht.columns.names
  obtain ⟨c',rfl,hfits,hkept⟩ := alterSteps_kept htmem hfindTable hcmem hfindColumn
    (altered_self htables htmem hcolumns hcmem) hread hc hset (hcareful table column htable hcolumn) htype hsteps
  have hfree : updated.name = column.name ∨ updated.name ∉ t.columns.map PhysicalColumn.name := by
    rw [← hkept.described.name, ← hc.described.name]
    exact hfits
  have hreplaced := ht.columns.replace name_of_columnKept hmemColumn hkept hset.id hfree
  rw [← hset.id, ← hc.described.name] at hreplaced
  have htableKept : TableKept p q db (setColumn table updated)
      { t with columns := replaceAt PhysicalColumn.name c.name c' t.columns } := ⟨ht.name,ht.clean,hreplaced⟩
  have hresult := h.setTable hmem htableKept rfl (.inl rfl)
  rw [← ht.name] at hresult
  exact hresult

end Updated
end TableDdl
end Allama

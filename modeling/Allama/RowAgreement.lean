import Allama.CsvImport

/-! When a row is stored alike, whichever way it is written (`tables/service.py`, `tables/importer.py`). -/
namespace Allama
open Checked
namespace Tables
variable (table : Table) {s : String}
variable {D T U S : Type} (p : RowPackages D T U S)
variable {v : PyValue D T U}

section Cells

/-- What `insert_row` and `update_row` leave in a column. -/
def insertedValue (column : Column) (value : PyValue D T U) : Option S :=
  (normalizeValue p column value).toOption.bind fun v =>
    (clauseValue p v column.type).toOption.bind (p.bind column.type (clauseType column.type))

/-- What `batch_insert_rows` leaves in a column. -/
def batchedValue (column : Column) (value : PyValue D T U) : Option S :=
  (normalizeValue p column value).toOption.bind (p.bind column.type (clauseType column.type))

/-- An entry of a row, stored in its column. -/
def storedCell (table : Table) (store : Column → PyValue D T U → Option S) (entry : String × PyValue D T U) :
    Option (String × S) :=
  (columnIndex table entry.1).bind fun column => (store column entry.2).map fun stored => (column.name,stored)

theorem saTypeForColumn_eq (sqlType : SqlType) : saTypeForColumn sqlType = clauseType sqlType := by
  cases sqlType <;> rfl

theorem toOption_execute (error : WriteError) (column : Column) (parameter : BindParameter D T U) :
    (execute p error column parameter).toOption =
      (p.bind column.type parameter.type parameter.value).map fun stored => (column.name,stored) := by
  rw [execute]
  split
  · rename_i stored h
    rw [h]
    rfl
  · rename_i h
    rw [h]
    rfl

theorem toOption_normalizeEntry (entry : String × PyValue D T U) :
    (normalizeEntry p table entry).toOption = (columnIndex table entry.1).bind fun column =>
      (normalizeValue p column entry.2).toOption.map fun value => (column,value) := by
  rw [normalizeEntry]
  split
  · rename_i h
    rw [h]
    rfl
  · rename_i column h
    rw [h, toOption_map]
    rfl

theorem toOption_insertRow (data : RowData D T U) :
    (insertRow p table data).toOption = data.mapM (storedCell table (insertedValue p)) := by
  rw [insertRow, valueClauses, normalizeRowInputs]
  simp only [toOption_bind, toOption_mapM, mapM_bind_mapM, toOption_normalizeEntry,
    toOption_map, toOption_execute, toSqlClause]
  congr 1
  funext entry
  rw [storedCell]
  cases columnIndex table entry.1 with
  | none => rfl
  | some column =>
    simp only [Option.bind_some, insertedValue]
    cases (normalizeValue p column entry.2).toOption with
    | none => rfl
    | some value =>
      simp only [Option.bind_some, Option.map_some]
      cases (clauseValue p value column.type).toOption <;> rfl

theorem toOption_storeRow (data : RowData D T U) :
    (storeRow p table data).toOption = data.mapM (storedCell table (batchedValue p)) := by
  rw [storeRow, normalizeRowInputs]
  simp only [executeRow, toOption_bind, toOption_mapM, mapM_bind_mapM, toOption_normalizeEntry,
    toOption_execute, saTypeForColumn_eq]
  congr 1
  funext entry
  rw [storedCell]
  cases columnIndex table entry.1 with
  | none => rfl
  | some column =>
    simp only [Option.bind_some, batchedValue]
    cases (normalizeValue p column entry.2).toOption <;> rfl

end Cells

section Values

/-- The values that every way of writing a row stores alike in a column of a type. -/
def Uniform : SqlType → PyValue D T U → Prop
  | .text, .json (.str s) => stripped s = "" → s = ""
  | .text, _ => False
  | .boolean, .json .none => False
  | .boolean, .json (.float q) => q ≠ 0 ∧ q ≠ 1
  | .boolean, .json (.str s) => matchBool s = none
  | .boolean, _ => True
  | .jsonb, .json .none => False
  | .multiSelect, .json .none => False
  | _, _ => True

variable {p}

theorem coerceOptional_eq_ok {value : PyValue D T U} {coerced : Except WriteError (PyValue D T U)}
    (h : coerceOptional value coerced = .ok v) : v = .none ∨ coerced = .ok v := by
  unfold coerceOptional at h
  split at h
  · exact .inl (Except.ok.inj h).symm
  · exact .inr h

theorem coerceToUtcDatetime_utc (h : p.Lawful) {value : PyValue D T U} {t : T}
    (ht : coerceToUtcDatetime p value = .ok t) : p.utc t = t := by
  have hutc : ∀ u, p.utc u = t → p.utc t = t := by
    rintro u rfl
    exact h.utc_utc u
  cases value with
  | datetime u => exact hutc u (Except.ok.inj ht)
  | date d => exact hutc _ (Except.ok.inj ht)
  | uuid u => cases ht
  | json v =>
    have hnumber : ∀ q, (fromTimestamp p q).map p.utc = .ok t → p.utc t = t := by
      intro q hq
      obtain ⟨u,-,hu⟩ := map_eq_ok.mp hq
      exact hutc u hu
    cases v with
    | str s =>
      rw [coerceToUtcDatetime] at ht
      split at ht
      · exact hutc _ (Except.ok.inj ht)
      · cases ht
    | bool b => exact hnumber _ ht
    | int n => exact hnumber _ ht
    | float q => exact hnumber _ ht
    | none | list | dict => cases ht

theorem clauseValue_of_normalized (h : p.Lawful) {column : Column} {value : PyValue D T U}
    (htext : column.type ≠ .text) (hboolean : column.type ≠ .boolean)
    (hv : normalizeValue p column value = .ok v) : clauseValue p v column.type = .ok v := by
  obtain ⟨name,type,options⟩ := column
  rcases coerceOptional_eq_ok hv with rfl | hv
  · cases type with
    | text => exact absurd rfl htext
    | boolean => exact absurd rfl hboolean
    | _ => rfl
  · cases type with
    | text => exact absurd rfl htext
    | boolean => exact absurd rfl hboolean
    | integer | numeric | jsonb | uuid => rfl
    | select =>
      obtain ⟨label,-,rfl⟩ := map_eq_ok.mp hv
      rfl
    | multiSelect =>
      obtain ⟨labels,-,rfl⟩ := map_eq_ok.mp hv
      have hlabels : (labels.map Value.str).map (fun item => str p (.json item)) = labels := by
        rw [List.map_map]
        exact List.map_id _
      simp only [clauseValue, PyValue.list, coerceOptional, coerceMultiSelectValue, hlabels, invalidLabels]
      rfl
    | date =>
      obtain ⟨d,-,rfl⟩ := map_eq_ok.mp hv
      rfl
    | timestamp | timestamptz =>
      obtain ⟨t,ht,rfl⟩ := map_eq_ok.mp hv
      simp only [clauseValue, coerceOptional, coerceToUtcDatetime, coerceToUtcDatetime_utc h ht]
      rfl

theorem insertedValue_of_clause {column : Column} {value : PyValue D T U}
    (h : ∀ v, normalizeValue p column value = .ok v → clauseValue p v column.type = .ok v) :
    insertedValue p column value = batchedValue p column value := by
  rw [insertedValue, batchedValue]
  cases hv : normalizeValue p column value with
  | error error => rfl
  | ok v =>
    change (clauseValue p v column.type).toOption.bind _ = p.bind column.type (clauseType column.type) v
    rw [h v hv]
    rfl

theorem normalizeValue_boolean {column : Column} (hcolumn : column.type = .boolean) (value : PyValue D T U) :
    normalizeValue p column value = .ok value := by
  obtain ⟨name,type,options⟩ := column
  obtain rfl : type = .boolean := hcolumn
  cases value with
  | json v => cases v <;> rfl
  | _ => rfl

theorem insertedValue_boolean {column : Column} (hcolumn : column.type = .boolean) (value : PyValue D T U) :
    insertedValue p column value = (matchBool (str p value)).bind fun b => p.bind .boolean .boolean (.bool b) := by
  rw [insertedValue, normalizeValue_boolean hcolumn, hcolumn]
  change (clauseValue p value .boolean).toOption.bind _ = _
  rw [clauseValue]
  cases matchBool (str p value) <;> rfl

section
variable (h : p.Lawful)
include h

theorem batchedValue_boolean {column : Column} (hcolumn : column.type = .boolean) {value : PyValue D T U}
    (hvalue : value ≠ .none) :
    batchedValue p column value = (strictBool value).bind fun b => p.bind .boolean .boolean (.bool b) := by
  rw [batchedValue, normalizeValue_boolean hcolumn, hcolumn, ← h.bind_boolean value hvalue]
  rfl

/-- Where `str(value)` and `Boolean` find the same truth value. -/
theorem uniform_boolean_iff {value : PyValue D T U} (hvalue : value ≠ .none) :
    Uniform .boolean value ↔ matchBool (str p value) = strictBool value := by
  cases value with
  | date | datetime | uuid => simp [Uniform, strictBool, str, h.matchBool_printed]
  | json v =>
    cases v with
    | none => exact absurd rfl hvalue
    | bool b =>
      refine iff_of_true trivial ?_
      cases b with
      | false => exact (by decide : matchBool "False" = some false)
      | true => exact (by decide : matchBool "True" = some true)
    | int n => exact iff_of_true trivial (matchBool_toString_int n)
    | float q =>
      have htext : str p (.json (.float q)) = p.printed (.json (.float q)) := rfl
      rw [htext, h.matchBool_printed]
      simp only [Uniform, strictBool]
      by_cases hone : q = 1
      · simp [hone]
      · by_cases hzero : q = 0
        · simp [hzero]
        · simp [hone, hzero]
    | str s => simp [Uniform, strictBool, str]
    | list | dict => simp [Uniform, strictBool, str, h.matchBool_printed]

theorem insertedValue_eq_batchedValue {column : Column} {value : PyValue D T U} (hvalue : Uniform column.type value) :
    insertedValue p column value = batchedValue p column value := by
  by_cases hboolean : column.type = .boolean
  · have hne : value ≠ .none := by
      rintro rfl
      rw [hboolean] at hvalue
      exact hvalue
    rw [hboolean] at hvalue
    rw [insertedValue_boolean hboolean, batchedValue_boolean h hboolean hne, (uniform_boolean_iff h hne).mp hvalue]
  · apply insertedValue_of_clause
    intro v hv
    by_cases htext : column.type = .text
    · -- of the values of a text column only texts are uniform
      obtain ⟨name,type,options⟩ := column
      obtain rfl : type = .text := htext
      cases value with
      | date | datetime | uuid => exact hvalue.elim
      | json w =>
        cases w with
        | str s =>
          cases hv
          rfl
        | none | bool | int | float | list | dict => exact hvalue.elim
    · exact clauseValue_of_normalized h htext hboolean hv

theorem insertedValue_none {column : Column} (hvalue : Uniform column.type (.none : PyValue D T U)) :
    insertedValue p column .none = some p.null := by
  rw [insertedValue_eq_batchedValue h hvalue]
  apply h.bind_none
  intro htype
  obtain ⟨name,type,options⟩ := column
  cases type with
  | jsonb | multiSelect => exact hvalue
  | _ => cases htype

theorem matchBool_eq_strictBool {value : PyValue D T U} {b c : Bool} (hb : matchBool (str p value) = some b)
    (hc : strictBool value = some c) : b = c := by
  have hprinted : ∀ v, matchBool (p.printed v) ≠ some b := by
    intro v hv
    rw [h.matchBool_printed] at hv
    cases hv
  cases value with
  | date | datetime | uuid => cases hc
  | json v =>
    cases v with
    | none | str | list | dict => cases hc
    | float q => exact absurd hb (hprinted _)
    | bool a =>
      have htrue : matchBool "True" = some true := by decide
      have hfalse : matchBool "False" = some false := by decide
      obtain rfl := Option.some.inj hc
      cases a with
      | false => exact Option.some.inj (hb.symm.trans hfalse)
      | true => exact Option.some.inj (hb.symm.trans htrue)
    | int n => exact Option.some.inj ((hb.symm.trans (matchBool_toString_int n)).trans hc)

/-- A column that stores a value alike, and NULL for `None`, has a uniform value; a text that is blank in a column of
texts is left out. -/
theorem uniform_of_stored {column : Column} {value : PyValue D T U}
    (hagree : insertedValue p column value = batchedValue p column value)
    (hnull : value = .none → insertedValue p column value = some p.null)
    (hblank : ∀ s, column.type = .text → value = .str s → stripped s = "" → s = "") : Uniform column.type value := by
  by_cases hnone : value = .none
  · obtain ⟨name,type,options⟩ := column
    have hstored := hnull hnone
    subst hnone
    cases type with
    | text => exact absurd hstored (h.bind_str_ne_null .text "None")
    | boolean =>
      rw [insertedValue_boolean rfl] at hstored
      have hnone : matchBool "None" = none := by decide
      rw [show str p (.none : PyValue D T U) = "None" from rfl, hnone] at hstored
      cases hstored
    | jsonb => exact absurd hstored (h.bind_jsonb_none .jsonb)
    | multiSelect => exact absurd hstored (h.bind_jsonb_none .multiSelect)
    | _ => trivial
  by_cases hboolean : column.type = .boolean
  · rw [insertedValue_boolean hboolean, batchedValue_boolean h hboolean hnone] at hagree
    rw [hboolean, uniform_boolean_iff h hnone]
    -- a truth value that only one of the two finds would be stored there alone
    have hstored : ∀ b, p.bind .boolean .boolean (.bool b) ≠ none := by
      intro b hb
      obtain ⟨stored,hstored⟩ := h.bind_bool b
      rw [hb] at hstored
      cases hstored
    cases hmatch : matchBool (str p value) with
    | none =>
      cases hstrict : strictBool value with
      | none => rfl
      | some c =>
        rw [hmatch, hstrict] at hagree
        exact absurd hagree.symm (hstored c)
    | some b =>
      cases hstrict : strictBool value with
      | none =>
        rw [hmatch, hstrict] at hagree
        exact absurd hagree (hstored b)
      | some c => rw [matchBool_eq_strictBool h hmatch hstrict]
  obtain ⟨name,type,options⟩ := column
  cases type with
  | boolean => exact absurd rfl hboolean
  | text =>
    by_cases hstr : ∃ s, value = .str s
    · obtain ⟨s,rfl⟩ := hstr
      exact hblank s rfl rfl
    · -- the text of any other object is inserted, and the object itself is bound to no text
      have hne : ∀ s, value ≠ .str s := fun s hs => hstr ⟨s,hs⟩
      obtain ⟨stored,hprinted⟩ := h.bind_printed value hnone hne
      have hnormalize : normalizeValue p ⟨name,.text,options⟩ value = .ok value := by
        cases value with
        | json v => cases v <;> rfl
        | _ => rfl
      have hinserted : insertedValue p ⟨name,.text,options⟩ value = some stored := by
        rw [insertedValue, hnormalize]
        exact hprinted
      have hbatched : batchedValue p ⟨name,.text,options⟩ value = p.bind .text .string value := by
        rw [batchedValue, hnormalize]
        rfl
      rw [hinserted, hbatched] at hagree
      rcases h.bind_string .text value (by rw [← hagree]; exact Option.some_ne_none stored) with hv | hv
      · exact absurd hv hnone
      · exact absurd hv hstr
  | jsonb | multiSelect =>
    cases value with
    | json v =>
      cases v with
      | none => exact absurd rfl hnone
      | _ => trivial
    | _ => trivial
  | _ => trivial

end

end Values

section Files
variable {p}

theorem convertValue_eq_ok {type : SqlType} :
    convertValue p (some s) type = .ok v ↔ parseValue p s type = .ok v := by
  simp only [convertValue]
  split
  · rename_i w hw
    rw [hw]
  · rename_i error herror
    rw [herror]
    exact iff_of_false (by rintro ⟨⟩) (by rintro ⟨⟩)

section
variable (h : p.Lawful)
include h

theorem parseValue_of_blank (hs : stripped s = "") {type : SqlType} (hv : parseValue p s type = .ok v) :
    (type = .text ∨ type = .select) ∧ v = .str s := by
  obtain ⟨hint,hfloat,huuid,hloads,-,-⟩ := h.blank s hs
  have hempty : stripped "" = "" := by decide
  obtain ⟨-,-,-,-,hiso,hdate⟩ := h.blank "" hempty
  cases type with
  | text => exact ⟨.inl rfl,(Except.ok.inj hv).symm⟩
  | select => exact ⟨.inr rfl,(Except.ok.inj hv).symm⟩
  | integer =>
    rw [parseValue, hint] at hv
    cases hv
  | numeric =>
    rw [parseValue, hfloat] at hv
    cases hv
  | uuid =>
    rw [parseValue, huuid] at hv
    cases hv
  | jsonb | multiSelect =>
    rw [parseValue, hloads] at hv
    cases hv
  | boolean =>
    cases hmatch : matchBool s with
    | none =>
      rw [parseValue, hmatch] at hv
      cases hv
    | some b =>
      -- a text that matches is not blank
      rw [stripped_of_matchBool hmatch] at hs
      have hnone : matchBool "" = none := by decide
      rw [hs, hnone] at hmatch
      cases hmatch
  | date =>
    simp only [parseValue, PyValue.str, coerceToDate, hs, hiso, hdate] at hv
    cases hv
  | timestamp | timestamptz =>
    simp only [parseValue, PyValue.str, coerceToUtcDatetime, isoText_of_blank hs, hiso] at hv
    cases hv

theorem parseValue_stripped {type : SqlType}
    (hinferred : type ∈ [SqlType.boolean,.integer,.numeric,.timestamptz,.uuid,.jsonb])
    (huuid : type = .uuid → (p.uuid (stripped s)).isSome = true) (hv : parseValue p s type = .ok v) :
    parseValue p (stripped s) type = .ok v := by
  cases type with
  | text | date | timestamp | select | multiSelect => exact absurd hinferred (by decide)
  | boolean =>
    cases hmatch : matchBool s with
    | none =>
      rw [parseValue, hmatch] at hv
      cases hv
    | some b => rwa [stripped_of_matchBool hmatch]
  | integer =>
    rw [parseValue, h.int_stripped]
    exact hv
  | numeric =>
    rw [parseValue, h.float_stripped]
    exact hv
  | timestamptz =>
    simp only [parseValue, PyValue.str, coerceToUtcDatetime] at hv ⊢
    rw [isoText_stripped]
    cases hparsed : p.fromIsoformat (isoText s) with
    | none =>
      rw [hparsed] at hv
      cases hv
    | some t =>
      rw [hparsed] at hv
      exact hv
  | uuid =>
    obtain ⟨w,hw⟩ := Option.isSome_iff_exists.mp (huuid rfl)
    cases hu : p.uuid s with
    | none =>
      rw [parseValue, hu] at hv
      cases hv
    | some u =>
      rw [parseValue, hu] at hv
      rw [parseValue, hw, ← h.uuid_stripped s u w hu hw]
      exact hv
  | jsonb =>
    cases hloads : p.loads s with
    | none =>
      rw [parseValue, hloads] at hv
      cases hv
    | some w =>
      rw [parseValue, hloads] at hv
      rw [parseValue, h.loads_stripped s w hloads]
      exact hv

theorem importerValue_eq {column : Column} {value : Option String} (hv : convertValue p value column.type = .ok v) :
    importerValue p column value = .ok v := by
  unfold importerValue
  split
  · exact hv
  · have hempty : stripped "" = "" := by decide
    rw [(parseValue_of_blank h hempty (convertValue_eq_ok.mp hv)).2]
  · rw [hv]

theorem importedValue_eq {column : InferredCSVColumn} {value : Option String}
    (hinferred : column.type ∈ [SqlType.text,.boolean,.integer,.numeric,.timestamptz,.uuid,.jsonb])
    (huuid : column.type = .uuid → ∀ s, value = some s → stripped s ≠ "" → (p.uuid (stripped s)).isSome = true)
    (huniform : Uniform column.type v) (hv : convertValue p value column.type = .ok v) :
    importedValue p column value = .ok v := by
  cases value with
  | none => exact hv
  | some s =>
    rw [importedValue]
    have hparsed := convertValue_eq_ok.mp hv
    by_cases hblank : stripped s = ""
    · obtain ⟨htype,rfl⟩ := parseValue_of_blank h hblank hparsed
      have htext : column.type = .text := by
        rcases htype with htype | htype
        · exact htype
        · rw [htype] at hinferred
          exact absurd hinferred (by decide)
      rw [htext] at huniform
      rw [if_pos hblank, if_pos htext, huniform hblank]
    · rw [if_neg hblank]
      by_cases htext : column.type = .text
      · rw [if_pos htext, hv]
      · have hothers := (List.mem_cons.mp hinferred).resolve_left htext
        have hstripped := parseValue_stripped h hothers (fun htype => huuid htype s rfl hblank) hparsed
        rw [if_neg htext, convertValue_eq_ok.mpr hstripped]

theorem mapRow_eq {table : Table} {columnMapping : List (String × String)} {csvRow : String → Option (Option String)}
    {data : RowData D T U}
    (hread : List.Forall₂ (fun entry item => entry.2.name = item.1 ∧ ∃ value, csvRow entry.1 = some value ∧
      convertValue p value entry.2.type = .ok item.2) (mappedColumns table columnMapping) data) :
    mapRow p table columnMapping csvRow = .ok data := by
  apply mapM_eq_ok.mpr
  apply hread.imp
  rintro ⟨header,column⟩ ⟨name,v⟩ ⟨rfl,value,hvalue,hv⟩
  simp only [hvalue, importerValue_eq h hv]
  rfl

theorem importedRow_eq {headers : List (String × String)} {lines : List CsvLine} {line : CsvLine} (hline : line ∈ lines)
    {data : RowData D T U} (hread : List.Forall₂ (fun column item => column.name = item.1 ∧ Uniform column.type item.2 ∧
      convertValue p (line column.originalName) column.type = .ok item.2) (inferColumns p headers lines) data) :
    importedRow p (inferColumns p headers lines) line = .ok data := by
  apply mapM_eq_ok.mpr
  rw [inferColumns, List.forall₂_map_left_iff] at hread ⊢
  apply hread.imp
  rintro ⟨header,_⟩ ⟨name,v⟩ ⟨rfl,huniform,hv⟩
  rw [importedValue_eq h (inferType_mem _) ?_ huniform hv]
  · rfl
  · intro htype s hs hblank
    exact isSome_uuid_of_observed p hline hs hblank (uuidCandidate_of_inferType htype)

end

theorem toOption_insertImportChunk (chunk : List (RowData D T U)) (chunkSize : ℕ) :
    (insertImportChunk p table chunk chunkSize).toOption = (batchInsertRows p table chunk chunkSize).toOption := by
  rw [insertImportChunk]
  split
  · rename_i error herror
    rw [herror]
    rfl
  · rfl

end Files

section Rows

/-- `insert_row` and the other ways to write a row: an update of a row that is there, a batch of the row, and a file
with a line of texts that `convert_value` reads as the row, imported to the table or to a new table with its types. -/
structure WrittenAlike (table : Table) (data : RowData D T U) : Prop where
  updated : ∀ rowId, (updateRow p table rowId true data).toOption = (insertRow p table data).toOption
  batched : (batchInsertRows p table [data] 1000).toOption = (insertRow p table data).toOption.map ([·])
  mapped : ∀ (columnMapping : List (String × String)) (csvRow : String → Option (Option String)),
    List.Forall₂ (fun entry item => entry.2.name = item.1 ∧ ∃ value, csvRow entry.1 = some value ∧
      convertValue p value entry.2.type = .ok item.2) (mappedColumns table columnMapping) data →
    (mapRow p table columnMapping csvRow >>= fun row => batchInsertRows p table [row] 1000).toOption =
      (insertRow p table data).toOption.map ([·])
  imported : ∀ (tableName : String) (headers : List (String × String)) (lines : List CsvLine), ∀ line ∈ lines,
    (∀ column ∈ inferColumns p headers lines, ∃ c, columnIndex table column.name = some c ∧ c.type = column.type) →
    List.Forall₂ (fun column item => column.name = item.1 ∧
      convertValue p (line column.originalName) column.type = .ok item.2) (inferColumns p headers lines) data →
    (importedRow p (inferColumns p headers lines) line >>= fun row =>
      insertImportChunk p (importedTable tableName (inferColumns p headers lines)) [row] 1000).toOption =
        (insertRow p table data).toOption.map ([·])

/-- However a part of the row is written the same is stored, and `None` is stored as NULL. -/
def StoredAlike (table : Table) (row : RowData D T U) : Prop :=
  (∀ data, data.Sublist row → WrittenAlike p table data) ∧
    ∀ name column, (name,.none) ∈ row → columnIndex table name = some column →
      insertRow p table [(name,.none)] = .ok [(name,p.null)]

variable {p}

theorem columnIndex_name {table : Table} {name : String} {column : Column} (h : columnIndex table name = some column) :
    column.name = name := by
  have hfound := List.find?_some h
  simpa using hfound

theorem mapM_congr {A B : Type} {f g : A → Option B} {xs : List A} (h : ∀ x ∈ xs, f x = g x) :
    xs.mapM f = xs.mapM g := by
  induction xs with
  | nil => rfl
  | cons x xs ih =>
    rw [List.mapM_cons, List.mapM_cons, h x List.mem_cons_self, ih fun y hy => h y (List.mem_cons_of_mem x hy)]

theorem updateRow_of_found (rowId : String) (data : RowData D T U) :
    updateRow p table rowId true data = insertRow p table data := by
  rw [updateRow, insertRow]
  cases valueClauses p table data with
  | error error => rfl
  | ok clauses =>
    change ((clauses.mapM fun clause => execute p .raised clause.1 clause.2) >>= fun cells => .ok cells) = _
    exact bind_pure _

theorem columnIndex_importedTable {tableName : String} {columns : List InferredCSVColumn} {column : InferredCSVColumn}
    (hcolumn : column ∈ columns) (htypes : ∀ other ∈ columns, other.name = column.name → other.type = column.type) :
    columnIndex (importedTable tableName columns) column.name = some column.column := by
  have hmem : column.column ∈ (columns.map InferredCSVColumn.column).reverse := by
    rw [List.mem_reverse]
    exact List.mem_map_of_mem hcolumn
  obtain ⟨found,hfound⟩ : ∃ found, columnIndex (importedTable tableName columns) column.name = some found := by
    apply Option.isSome_iff_exists.mp
    exact List.find?_isSome.mpr ⟨column.column,hmem,decide_eq_true rfl⟩
  have hname := columnIndex_name hfound
  obtain ⟨other,hother,rfl⟩ := List.mem_map.mp (List.mem_reverse.mp (List.mem_of_find?_eq_some hfound))
  -- columns of one name have one type, so it does not matter which of them is found
  have heq : other.column = column.column := by
    rw [InferredCSVColumn.column, InferredCSVColumn.column, htypes other hother hname]
    exact congrArg (Column.mk · column.type none) hname
  rw [hfound, heq]

theorem batchedValue_congr {c d : Column} (htype : c.type = d.type)
    (hinferred : c.type ∈ [SqlType.text,.boolean,.integer,.numeric,.timestamptz,.uuid,.jsonb]) (value : PyValue D T U) :
    batchedValue p c value = batchedValue p d value := by
  have hnormalize : normalizeValue p c value = normalizeValue p d value := by
    rw [normalizeValue, normalizeValue, ← htype]
    cases hc : c.type with
    | select | multiSelect =>
      rw [hc] at hinferred
      exact absurd hinferred (by decide)
    | _ => rfl
  rw [batchedValue, batchedValue, hnormalize, htype]

theorem writtenAlike_of_uniform (h : p.Lawful) {table : Table} {data : RowData D T U}
    (hdata : ∀ entry ∈ data, ∀ column, columnIndex table entry.1 = some column → Uniform column.type entry.2) :
    WrittenAlike p table data := by
  have hstored : (storeRow p table data).toOption = (insertRow p table data).toOption := by
    rw [toOption_storeRow, toOption_insertRow]
    apply mapM_congr
    intro entry hentry
    rw [storedCell, storedCell]
    cases hcolumn : columnIndex table entry.1 with
    | none => rfl
    | some column =>
      simp only [Option.bind_some]
      rw [insertedValue_eq_batchedValue h (hdata entry hentry column hcolumn)]
  have hbatched : (batchInsertRows p table [data] 1000).toOption = (insertRow p table data).toOption.map ([·]) := by
    rw [batchInsertRows_singleton p table data (by decide), toOption_map, hstored]
  refine ⟨fun rowId => by rw [updateRow_of_found],hbatched,?_,?_⟩
  · intro columnMapping csvRow hread
    rw [mapRow_eq h hread]
    exact hbatched
  · intro tableName headers lines line hline htypes hread
    have hfound : ∀ column ∈ inferColumns p headers lines,
        columnIndex (importedTable tableName (inferColumns p headers lines)) column.name = some column.column := by
      intro column hcolumn
      apply columnIndex_importedTable hcolumn
      intro other hother hname
      obtain ⟨c,hc,hctype⟩ := htypes column hcolumn
      obtain ⟨d,hd,hdtype⟩ := htypes other hother
      rw [hname, hc] at hd
      rw [← hctype, ← hdtype, Option.some.inj hd]
    have hinferred : ∀ column ∈ inferColumns p headers lines,
        column.type ∈ [SqlType.text,.boolean,.integer,.numeric,.timestamptz,.uuid,.jsonb] := by
      intro column hcolumn
      obtain ⟨header,-,rfl⟩ := List.mem_map.mp hcolumn
      exact inferType_mem _
    have hpairs : ∀ entry ∈ data, ∃ column ∈ inferColumns p headers lines, column.name = entry.1 := by
      intro entry hentry
      obtain ⟨column,hcolumn,hname,-⟩ := exists_of_forall₂ hread.flip hentry
      exact ⟨column,hcolumn,hname⟩
    have hrow : importedRow p (inferColumns p headers lines) line = .ok data := by
      apply importedRow_eq h hline
      have htyped := (List.forall₂_and_left _ _).mpr ⟨htypes,hread⟩
      have huniform := (List.forall₂_and_left _ _).mpr ⟨hdata,htyped.flip⟩
      apply huniform.flip.imp
      rintro column entry ⟨hentry,⟨c,hc,hctype⟩,hname,hv⟩
      rw [hname] at hc
      rw [← hctype] at hv ⊢
      exact ⟨hname,hentry c hc,hv⟩
    have himported : (storeRow p (importedTable tableName (inferColumns p headers lines)) data).toOption =
        (storeRow p table data).toOption := by
      rw [toOption_storeRow, toOption_storeRow]
      apply mapM_congr
      intro entry hentry
      obtain ⟨column,hcolumn,hname⟩ := hpairs entry hentry
      obtain ⟨c,hc,hctype⟩ := htypes column hcolumn
      rw [storedCell, storedCell, ← hname, hfound column hcolumn, hc]
      simp only [Option.bind_some]
      rw [batchedValue_congr (d := c) hctype.symm (hinferred column hcolumn), columnIndex_name hc]
      rfl
    rw [hrow]
    refine (toOption_insertImportChunk _ [data] 1000).trans ?_
    rw [batchInsertRows_singleton p _ data (by decide), toOption_map, himported, hstored]

theorem mapM_storedCell_singleton {table : Table} {name : String} {column : Column}
    (hcolumn : columnIndex table name = some column) (store : Column → PyValue D T U → Option S) (value : PyValue D T U) :
    [(name,value)].mapM (storedCell table store) = (store column value).map fun stored => [(name,stored)] := by
  have hcell : storedCell table store (name,value) = (store column value).map fun stored => (name,stored) := by
    rw [storedCell, hcolumn, Option.bind_some, columnIndex_name hcolumn]
  rw [List.mapM_cons, hcell]
  cases store column value <;> rfl

theorem inferColumns_of_blank (hs : stripped s = "") (name : String) :
    inferColumns p [(name,name)] [fun _ => some s] = [⟨name,name,.text⟩] := by
  have hobserve : ColumnStats.fresh.observe p (some s) = ColumnStats.fresh := by
    simp only [ColumnStats.observe, if_pos hs]
  simp only [inferColumns, List.map_cons, List.map_nil, List.foldl_cons, List.foldl_nil, hobserve]
  rfl

/-- A blank text that an import stores as `insert_row` does is empty. -/
theorem eq_empty_of_imported (h : p.Lawful) {table : Table} {name : String} {column : Column}
    (hcolumn : columnIndex table name = some column) (htext : column.type = .text)
    (hs : stripped s = "") (hpart : WrittenAlike p table [(name,.str s)]) : s = "" := by
  obtain ⟨stored,hstored⟩ := h.bind_blank s hs
  have hinsert : (insertRow p table [(name,.str s)]).toOption = some [(name,stored)] := by
    have hvalue : insertedValue p column (.str s) = some stored := by
      rw [insertedValue, normalizeValue, htext]
      exact hstored
    rw [toOption_insertRow, mapM_storedCell_singleton hcolumn, hvalue]
    rfl
  have hinfer := inferColumns_of_blank (p := p) hs name
  have himported := hpart.imported "" [(name,name)] [fun _ => some s] _ List.mem_cons_self (by
    rw [hinfer]
    intro c hc
    obtain rfl := List.mem_singleton.mp hc
    exact ⟨column,hcolumn,htext⟩) (by
    rw [hinfer]
    exact .cons ⟨rfl,rfl⟩ .nil)
  rw [hinfer, hinsert] at himported
  have hrow : importedRow p [⟨name,name,.text⟩] (fun _ => some s) = .ok [(name,.str "")] := by
    simp only [importedRow, List.mapM_cons, List.mapM_nil, importedValue, if_pos hs]
    rfl
  have hfound : columnIndex (importedTable "" [⟨name,name,.text⟩]) name = some ⟨name,.text,none⟩ :=
    columnIndex_importedTable (List.mem_singleton_self (⟨name,name,.text⟩ : InferredCSVColumn)) (by simp)
  have hbatch : (batchInsertRows p (importedTable "" [⟨name,name,.text⟩]) [[(name,.str "")]] 1000).toOption =
      some [[(name,stored)]] := by
    rw [hrow] at himported
    exact (toOption_insertImportChunk _ _ _).symm.trans himported
  rw [batchInsertRows_singleton p _ _ (by decide), toOption_map, toOption_storeRow,
    mapM_storedCell_singleton hfound, Option.map_map] at hbatch
  obtain ⟨other,hother,hcells⟩ := Option.map_eq_some_iff.mp hbatch
  have hsame : other = stored := by simpa using hcells
  subst hsame
  exact h.bind_str_injective s "" other hstored hother

/-- Each value is stored alike, and as NULL if it is `None`, exactly when each is uniform for the type of its column. -/
theorem storedAlike_iff (h : p.Lawful) (table : Table) (row : RowData D T U) :
    StoredAlike p table row ↔
      ∀ entry ∈ row, ∀ column, columnIndex table entry.1 = some column → Uniform column.type entry.2 := by
  constructor
  · rintro ⟨halike,hnulls⟩ ⟨name,value⟩ hentry column hcolumn
    have hpart := halike [(name,value)] (List.singleton_sublist.mpr hentry)
    have hinsert : (insertRow p table [(name,value)]).toOption =
        (insertedValue p column value).map fun stored => [(name,stored)] := by
      rw [toOption_insertRow, mapM_storedCell_singleton hcolumn]
    apply uniform_of_stored h
    · have hbatched := hpart.batched
      rw [batchInsertRows_singleton p table _ (by decide), toOption_map, hinsert, toOption_storeRow,
        mapM_storedCell_singleton hcolumn] at hbatched
      cases hleft : insertedValue p column value <;> cases hright : batchedValue p column value <;>
        simp_all
    · rintro rfl
      have hnull := toOption_eq_some.mpr (hnulls name column hentry hcolumn)
      rw [hinsert] at hnull
      obtain ⟨stored,hstored,hcells⟩ := Option.map_eq_some_iff.mp hnull
      obtain ⟨-,rfl⟩ := Prod.mk.inj (List.cons.inj hcells).1
      exact hstored
    · rintro s htext rfl hs
      exact eq_empty_of_imported h hcolumn htext hs hpart
  · rintro huniform
    refine ⟨?_,?_⟩
    · intro data hdata
      exact writtenAlike_of_uniform h fun entry hentry => huniform entry (hdata.subset hentry)
    · intro name column hentry hcolumn
      have hvalue := insertedValue_none h (huniform _ hentry column hcolumn)
      apply toOption_eq_some.mp
      rw [toOption_insertRow, mapM_storedCell_singleton hcolumn, hvalue]
      rfl

/-- Packages that know one number and no dates; a stored value is NULL or the value of the parameter. -/
def threePackages : RowPackages Unit Unit Unit (Option (PyValue Unit Unit Unit)) where
  printed _ := "object"
  repr _ := "object"
  int s := if stripped s = "3" then some 3 else none
  float s := if stripped s = "3" then some 3 else none
  uuid _ := none
  loads s := if stripped s = "3" then some (.int 3) else none
  fromIsoformat _ := none
  dateFromIsoformat _ := none
  fromTimestamp _ := none
  midnight d := d
  dateOf t := t
  utc t := t
  bind _ type value :=
    match type, value with
    | .jsonb, v => some (some v)
    | _, .json .none => some none
    | .string, .json (.str s) => some (some (.str s))
    | .string, _ => none
    | .boolean, v => (strictBool v).map fun b => some (.bool b)
    | .bigInteger, .json (.int n) => some (some (.json (.int n)))
    | .bigInteger, _ => none
    | _, v => some (some v)
  null := none

theorem threePackages_lawful : threePackages.Lawful where
  utc_utc _ := rfl
  matchBool_printed _ := (by decide : matchBool "object" = none)
  blank s hs := by simp [threePackages, hs]
  int_stripped s := by simp only [threePackages, stripped_stripped]
  float_stripped s := by simp only [threePackages, stripped_stripped]
  uuid_stripped s u w hu := by cases hu
  loads_stripped s v hv := by simpa only [threePackages, stripped_stripped] using hv
  bind_none column type hne := by
    cases type with
    | jsonb => exact absurd rfl hne
    | _ => rfl
  bind_jsonb_none column := by
    rintro ⟨⟩
  bind_string column v hv := by
    cases v with
    | json w =>
      cases w with
      | none => exact .inl rfl
      | str s => exact .inr ⟨s,rfl⟩
      | _ => exact absurd rfl hv
    | _ => exact absurd rfl hv
  bind_str_ne_null column s := by
    rintro ⟨⟩
  bind_str_injective s t stored hs ht := by
    have hst := hs.trans ht.symm
    injection hst with hst
    injection hst with hst
    injection hst with hst
    injection hst
  bind_blank s _ := ⟨_,rfl⟩
  bind_printed v _ _ := ⟨_,rfl⟩
  bind_boolean v hne := by
    cases v with
    | json w =>
      cases w with
      | none => exact absurd rfl hne
      | bool b => rfl
      | int n =>
        change (strictBool (.json (.int n)) : Option Bool).map _ = _
        cases strictBool (.json (.int n) : PyValue Unit Unit Unit) <;> rfl
      | float q =>
        change (strictBool (.json (.float q)) : Option Bool).map _ = _
        cases strictBool (.json (.float q) : PyValue Unit Unit Unit) <;> rfl
      | _ => rfl
    | _ => rfl
  bind_bool b := ⟨_,rfl⟩

def noteTable : Table := ⟨"notes",[⟨"note",.text,none⟩,⟨"size",.integer,none⟩,⟨"done",.boolean,none⟩]⟩

theorem storedAlike_note :
    StoredAlike threePackages noteTable [("note",.str "call back"),("size",.json (.int 3)),("done",.bool true)] := by
  apply (storedAlike_iff threePackages_lawful _ _).mpr
  intro entry hentry column hcolumn
  simp only [List.mem_cons, List.not_mem_nil, or_false] at hentry
  rcases hentry with rfl | rfl | rfl
  · obtain rfl : ⟨"note",.text,none⟩ = column := Option.some.inj hcolumn
    exact fun hblank => absurd hblank (by decide)
  · obtain rfl : ⟨"size",.integer,none⟩ = column := Option.some.inj hcolumn
    trivial
  · obtain rfl : ⟨"done",.boolean,none⟩ = column := Option.some.inj hcolumn
    trivial

/-- Inserted alone, `None` is the text of a note. -/
theorem none_stored_as_text : ¬ StoredAlike threePackages noteTable [("note",.none)] := by
  rintro ⟨-,hnulls⟩
  have hinsert : insertRow threePackages noteTable [("note",.none)] = .ok [("note",some (.str "None"))] := rfl
  have hnull := hnulls "note" ⟨"note",.text,none⟩ List.mem_cons_self rfl
  rw [hinsert] at hnull
  cases hnull

/-- The rows of an imported table are its lines in their order, each stored as it would be alone. -/
theorem importTableFromCsv_stores {p : RowPackages D T U S} {tableName : String} {headers : List (String × String)}
    {lines : List CsvLine} {chunkSize : ℕ} {table : Table} {stored : List (StoredCells S)}
    (h : importTableFromCsv p tableName headers lines chunkSize = .ok (table,stored)) :
    ∃ rows, List.Forall₂ (fun line row => importedRow p (inferColumns p headers lines) line = .ok row) lines rows ∧
      List.Forall₂ (fun row cells => storeRow p table row = .ok cells) rows stored := by
  rw [importTableFromCsv] at h
  split at h
  · cases h
  · rename_i hcolumns
    obtain ⟨rest,hrest,h⟩ := bind_eq_ok.mp h
    obtain ⟨rfl,rfl⟩ := Prod.mk.inj (Except.ok.inj h)
    exact importRows_stores hcolumns (List.forall_mem_nil _) hrest

def noteLines : List CsvLine := [fun _ => some "3",fun _ => some " ",fun _ => some "3"]

theorem imported_notes : ∃ rows,
    List.Forall₂ (fun line row => importedRow threePackages (inferColumns threePackages [("note","note")] noteLines)
      line = .ok row) noteLines rows ∧
    List.Forall₂ (fun row cells => storeRow threePackages ⟨"notes",[⟨"note",.integer,none⟩]⟩ row = .ok cells) rows
      [[("note",some (.json (.int 3)))],[("note",none)],[("note",some (.json (.int 3)))]] := by
  have himport : importTableFromCsv threePackages "notes" [("note","note")] noteLines 2 =
      .ok (⟨"notes",[⟨"note",.integer,none⟩]⟩,
        [[("note",some (.json (.int 3)))],[("note",none)],[("note",some (.json (.int 3)))]]) := by rfl
  exact importTableFromCsv_stores himport

end Rows
end Tables
end Allama

import Allama.DSLTypes
import Allama.Expressions
import Allama.Tables

/-! Values of rows, and what they are bound as (`tables/common.py`). -/
namespace Allama
namespace Tables

/-- The value of the enumeration. -/
def SqlType.value : SqlType → String
  | .text => "TEXT"
  | .integer => "INTEGER"
  | .numeric => "NUMERIC"
  | .date => "DATE"
  | .boolean => "BOOLEAN"
  | .timestamp => "TIMESTAMP"
  | .timestamptz => "TIMESTAMPTZ"
  | .jsonb => "JSONB"
  | .uuid => "UUID"
  | .select => "SELECT"
  | .multiSelect => "MULTI_SELECT"

/-- The types of SQLAlchemy that values are bound with; `timestamp` is the one with a time zone. -/
inductive SaType
  | string
  | bigInteger
  | numeric
  | date
  | boolean
  | timestamp
  | jsonb
  | uuid
deriving DecidableEq

/-- A value of a row dictionary: JSON, or an object that a text was converted to. -/
inductive PyValue (D T U : Type)
  | json (v : Value)
  | date (d : D)
  | datetime (t : T)
  | uuid (u : U)

namespace PyValue
variable {D T U : Type}

def none : PyValue D T U := .json .none

def str (s : String) : PyValue D T U := .json (.str s)

def bool (b : Bool) : PyValue D T U := .json (.bool b)

def list (texts : List String) : PyValue D T U := .json (.list (texts.map .str))

/-- `type(value).__name__`. -/
def typeName : PyValue D T U → String
  | .json .none => "NoneType"
  | .json (.bool _) => "bool"
  | .json (.int _) => "int"
  | .json (.float _) => "float"
  | .json (.str _) => "str"
  | .json (.list _) => "list"
  | .json (.dict _) => "dict"
  | .date _ => "date"
  | .datetime _ => "datetime"
  | .uuid _ => "UUID"

end PyValue

/-- The standard library, the JSON package, and SQLAlchemy with its driver and the database. -/
structure RowPackages (D T U S : Type) where
  /-- `str(value)` of a float, a list, a dict, a date, a datetime or a UUID. -/
  printed : PyValue D T U → String
  /-- `repr(value)`, in messages. -/
  repr : PyValue D T U → String
  /-- `int(text)`; `none` is an exception here and below. -/
  int : String → Option ℤ
  float : String → Option ℚ
  uuid : String → Option U
  /-- `orjson.loads`. -/
  loads : String → Option Value
  /-- `datetime.fromisoformat`. -/
  fromIsoformat : String → Option T
  /-- `date.fromisoformat`. -/
  dateFromIsoformat : String → Option D
  /-- `datetime.fromtimestamp(value, tz=UTC)`. -/
  fromTimestamp : ℚ → Option T
  /-- `datetime(value.year, value.month, value.day)`. -/
  midnight : D → T
  /-- `dt.date()`. -/
  dateOf : T → D
  /-- A datetime without a time zone is in UTC, one with a time zone is converted. -/
  utc : T → T
  /-- What a column of a table holds once a parameter of a type and a value is written to it. -/
  bind : SqlType → SaType → PyValue D T U → Option S
  /-- SQL NULL. -/
  null : S

inductive WriteError
  | typeError (message : String)
  | valueError (message : String)
  | keyError (key : String)
  | importError (message : String)
  | notFound (message : String)
  /-- An exception of a package. -/
  | raised
  | dbapiError (message : String)
deriving DecidableEq

/-- `s.strip()`. -/
def stripped (s : String) : String := String.ofList (strip s.toList)

/-- `s.lower()`, as far as ASCII letters go. -/
def lower (s : String) : Text := s.toList.map Char.toLower

/-- The truth value that `"true" | "1"` and `"false" | "0"` match. -/
def matchBool (s : String) : Option Bool :=
  if lower s = "true".toList ∨ lower s = "1".toList then some true
  else if lower s = "false".toList ∨ lower s = "0".toList then some false
  else none

/-- The number of an `int | float`, a truth value among them. -/
def number : Value → Option ℚ
  | .bool b => some (if b then 1 else 0)
  | .int n => some n
  | .float q => some q
  | _ => none

section Conversions
variable {D T U S : Type} (p : RowPackages D T U S)

/-- `str(value)`. -/
def str : PyValue D T U → String
  | .json .none => "None"
  | .json (.bool b) => if b then "True" else "False"
  | .json (.int n) => toString n
  | .json (.str s) => s
  | v => p.printed v

/-- The text that `coerce_to_utc_datetime` parses. -/
def isoText (s : String) : String :=
  let text := strip s.toList
  if text.getLast? = some 'Z' ∨ text.getLast? = some 'z' then String.ofList (text.dropLast ++ "+00:00".toList)
  else String.ofList text

def fromTimestamp (q : ℚ) : Except WriteError T :=
  match p.fromTimestamp q with
  | some t => .ok t
  | none => .error .raised

def coerceToUtcDatetime : PyValue D T U → Except WriteError T
  | .datetime t => .ok (p.utc t)
  | .date d => .ok (p.utc (p.midnight d))
  | .json (.str s) =>
    match p.fromIsoformat (isoText s) with
    | some t => .ok (p.utc t)
    | none => .error (.typeError s!"Invalid ISO datetime string: {p.repr (.str s)}")
  | .json v =>
    match number v with
    | some q => (fromTimestamp p q).map p.utc
    | none => .error (.typeError s!"Unable to coerce {p.repr (.json v)} to UTC datetime")
  | .uuid u => .error (.typeError s!"Unable to coerce {p.repr (.uuid u)} to UTC datetime")

def coerceToDate : PyValue D T U → Except WriteError D
  | .date d => .ok d
  | .datetime t => .ok (p.dateOf t)
  | .json (.str s) =>
    match p.fromIsoformat (stripped s) with
    | some t => .ok (p.dateOf t)
    | none =>
      match p.dateFromIsoformat (stripped s) with
      | some d => .ok d
      | none => .error (.typeError s!"Invalid ISO date string: {p.repr (.str s)}")
  | .json v =>
    match number v with
    | some q => (fromTimestamp p q).map p.dateOf
    | none => .error (.typeError s!"Unable to coerce {p.repr (.json v)} to date")
  | .uuid u => .error (.typeError s!"Unable to coerce {p.repr (.uuid u)} to date")

/-- The labels that are not among the options, when there are any. -/
def invalidLabels (options : Option (List String)) (labels : List String) : List String :=
  match options with
  | none | some [] => []
  | some options => labels.filter (· ∉ options)

def coerceSelectValue (value : PyValue D T U) (options : Option (List String)) : Except WriteError String :=
  if invalidLabels options [str p value] = [] then .ok (str p value)
  else .error (.valueError s!"Value '{str p value}' is not in the available options")

def coerceMultiSelectValue (value : PyValue D T U) (options : Option (List String)) :
    Except WriteError (List String) :=
  match value with
  | .json .none => .error (.valueError "Value cannot be None for MULTI_SELECT fields")
  | .json (.list items) =>
    let coerced := items.map fun item => str p (.json item)
    if invalidLabels options coerced = [] then .ok coerced
    else
      let labels := ", ".intercalate (invalidLabels options coerced)
      .error (.valueError s!"Value(s) {labels} are not in the available options")
  | _ => .error (.valueError "MULTI_SELECT values must be provided as a list of strings")

/-- `sa.BindParameter`. -/
structure BindParameter (D T U : Type) where
  key : String
  value : PyValue D T U
  type : SaType

/-- `None if value is None else` a coerced value. -/
def coerceOptional (value : PyValue D T U) (coerced : Except WriteError (PyValue D T U)) :
    Except WriteError (PyValue D T U) :=
  match value with
  | .json .none => .ok .none
  | _ => coerced

/-- The value of the parameter that `to_sql_clause` makes. -/
def clauseValue (value : PyValue D T U) : SqlType → Except WriteError (PyValue D T U)
  | .select => coerceOptional value (.ok (.str (str p value)))
  | .multiSelect => coerceOptional value ((coerceMultiSelectValue p value none).map .list)
  | .text => .ok (.str (str p value))
  | .date => coerceOptional value ((coerceToDate p value).map .date)
  | .timestamp | .timestamptz => coerceOptional value ((coerceToUtcDatetime p value).map .datetime)
  | .boolean =>
    match matchBool (str p value) with
    | some b => .ok (.bool b)
    | none => .error (.typeError s!"Expected bool or 0/1, got {value.typeName}: {str p value}")
  | .jsonb | .integer | .numeric | .uuid => .ok value

/-- The type of that parameter. -/
def clauseType : SqlType → SaType
  | .select | .text => .string
  | .multiSelect | .jsonb => .jsonb
  | .date => .date
  | .timestamp | .timestamptz => .timestamp
  | .boolean => .boolean
  | .integer => .bigInteger
  | .numeric => .numeric
  | .uuid => .uuid

def toSqlClause (value : PyValue D T U) (name : String) (sqlType : SqlType) :
    Except WriteError (BindParameter D T U) :=
  (clauseValue p value sqlType).map fun coerced => ⟨name,coerced,clauseType sqlType⟩

/-- The body of `convert_value`, before its exceptions are renamed. -/
def parseValue (value : String) : SqlType → Except WriteError (PyValue D T U)
  | .integer => ((p.int value).elim (.error .raised) fun n => .ok (.json (.int n)))
  | .numeric => ((p.float value).elim (.error .raised) fun q => .ok (.json (.float q)))
  | .boolean => ((matchBool value).elim (.error (.typeError s!"Invalid boolean value: {value}")) fun b => .ok (.bool b))
  | .jsonb => ((p.loads value).elim (.error .raised) fun v => .ok (.json v))
  | .text | .select => .ok (.str value)
  | .multiSelect =>
    ((p.loads value).elim (.error .raised) fun v => (coerceMultiSelectValue p (.json v) none).map .list)
  | .date => (coerceToDate p (.str value)).map .date
  | .timestamp | .timestamptz => (coerceToUtcDatetime p (.str value)).map .datetime
  | .uuid => ((p.uuid value).elim (.error .raised) fun u => .ok (.uuid u))

def convertValue (value : Option String) (type : SqlType) : Except WriteError (PyValue D T U) :=
  match value with
  | none => .ok .none
  | some s =>
    match parseValue p s type with
    | .ok v => .ok v
    | .error _ => .error (.typeError s!"Cannot convert value {p.repr (.str s)} to SqlType {type.value}")

end Conversions

section Texts

theorem strip_strip (e : Text) : strip (strip e) = strip e := by
  have hhead : (strip e).dropWhile isSpace = strip e := by
    cases h : strip e with
    | nil => rfl
    | cons c x => rw [List.dropWhile_cons_of_neg (by rw [strip_head h]; decide)]
  conv_lhs => rw [strip, hhead]
  apply List.rdropWhile_eq_self_iff.mpr
  intro hne
  -- the last character was kept for being no space
  rw [strip_last (x := (strip e).dropLast) (List.dropLast_append_getLast hne).symm]
  decide

theorem toList_stripped (s : String) : (stripped s).toList = strip s.toList := String.toList_ofList

theorem stripped_stripped (s : String) : stripped (stripped s) = stripped s := by
  rw [stripped, toList_stripped, strip_strip, stripped]

theorem isoText_stripped (s : String) : isoText (stripped s) = isoText s := by
  rw [isoText, isoText, toList_stripped, strip_strip]

theorem isoText_of_blank {s : String} (h : stripped s = "") : isoText s = "" := by
  have hstrip : strip s.toList = [] := by
    rw [← toList_stripped, h]
    rfl
  simp [isoText, hstrip]

theorem toLower_eq_self {c : Char} (h : c.toNat < 65 ∨ 90 < c.toNat) : c.toLower = c := by
  refine dif_neg ?_
  rintro ⟨hge,hle⟩
  have hge' : 65 ≤ c.toNat := UInt32.le_iff_toNat_le.mp hge
  have hle' : c.toNat ≤ 90 := UInt32.le_iff_toNat_le.mp hle
  omega

theorem toLower_of_isSpace {c : Char} (h : isSpace c = true) : c.toLower = c := by
  have hmem : c.toNat ∈ spaceCodes := by simpa [isSpace] using h
  have hcodes : ∀ n ∈ spaceCodes, n < 65 ∨ 90 < n := by decide
  exact toLower_eq_self (hcodes _ hmem)

theorem toLower_of_isDigit {c : Char} (h : c.isDigit = true) : c.toLower = c := by
  have hle : c.toNat ≤ 57 := by
    simp only [Char.isDigit, Bool.and_eq_true, decide_eq_true_eq] at h
    exact UInt32.le_iff_toNat_le.mp h.2
  apply toLower_eq_self
  omega

theorem stripped_of_matchBool {s : String} {b : Bool} (h : matchBool s = some b) : stripped s = s := by
  have hword : lower s ∈ ["true".toList,"1".toList,"false".toList,"0".toList] := by
    simp only [matchBool] at h
    split at h
    · rename_i hword
      rcases hword with hword | hword <;> simp [hword]
    · split at h
      · rename_i hword
        rcases hword with hword | hword <;> simp [hword]
      · cases h
  have hnone : ∀ c ∈ s.toList, isSpace c = false := by
    intro c hc
    cases hspace : isSpace c with
    | false => rfl
    | true =>
      have hmem : c ∈ lower s := by
        rw [← toLower_of_isSpace hspace]
        exact List.mem_map_of_mem hc
      have hwords : (["true".toList,"1".toList,"false".toList,"0".toList].all fun word => word.all (! isSpace ·)) = true := by
        decide
      have hplain := List.all_eq_true.mp (List.all_eq_true.mp hwords _ hword) c hmem
      rw [hspace] at hplain
      cases hplain
  have hkeep : strip s.toList = s.toList := by
    rw [strip, List.dropWhile_eq_self_iff.mpr, List.rdropWhile_eq_self_iff.mpr]
    · intro hne
      rw [hnone _ (List.getLast_mem hne)]
      decide
    · intro hne
      rw [hnone _ (List.getElem_mem hne)]
      decide
  rw [stripped, hkeep, String.ofList_toList]

theorem toDigits_inj {k m : ℕ} : Nat.toDigits 10 k = Nat.toDigits 10 m ↔ k = m := by
  constructor
  · intro h
    calc
      k = Nat.ofDigitChars 10 (Nat.toDigits 10 k) 0 := Nat.ofDigitChars_ten_toDigits.symm
      _ = Nat.ofDigitChars 10 (Nat.toDigits 10 m) 0 := by rw [h]
      _ = m := Nat.ofDigitChars_ten_toDigits
  · rintro rfl
    rfl

theorem matchBool_toString_int (n : ℤ) :
    matchBool (toString n) = if n = 1 then some true else if n = 0 then some false else none := by
  cases n with
  | ofNat k =>
    have hdigits : ∀ c ∈ Nat.toDigits 10 k, c.isDigit = true := fun c hc =>
      Nat.isDigit_of_mem_toDigits (by decide) (by decide) hc
    have hlower : lower (toString (Int.ofNat k)) = Nat.toDigits 10 k := by
      have htext : (toString (Int.ofNat k)).toList = Nat.toDigits 10 k := Nat.toList_repr
      rw [lower, htext]
      exact (List.map_congr_left fun c hc => toLower_of_isDigit (hdigits c hc)).trans (List.map_id _)
    have hone : Nat.toDigits 10 k = "1".toList ↔ k = 1 := toDigits_inj (m := 1)
    have hzero : Nat.toDigits 10 k = "0".toList ↔ k = 0 := toDigits_inj (m := 0)
    have htrue : Nat.toDigits 10 k ≠ "true".toList := fun h =>
      absurd (hdigits 't' (by rw [h]; decide)) (by decide)
    have hfalse : Nat.toDigits 10 k ≠ "false".toList := fun h =>
      absurd (hdigits 'f' (by rw [h]; decide)) (by decide)
    rw [matchBool, hlower]
    simp only [hone, hzero, htrue, hfalse, false_or, Int.ofNat_eq_natCast, Int.natCast_eq_zero, Nat.cast_eq_one]
  | negSucc k =>
    have hhead : (lower (toString (Int.negSucc k))).head? = some '-' := by
      have htext : (toString (Int.negSucc k)).toList = '-' :: (toString (k+1)).toList := String.toList_append
      rw [lower, htext]
      rfl
    have hword : ∀ word : Text, word.head? ≠ some '-' → lower (toString (Int.negSucc k)) ≠ word := by
      intro word hne h
      rw [h] at hhead
      exact hne hhead
    rw [matchBool, if_neg, if_neg, if_neg (by omega), if_neg (by omega)]
    · exact not_or.mpr ⟨hword _ (by decide),hword _ (by decide)⟩
    · exact not_or.mpr ⟨hword _ (by decide),hword _ (by decide)⟩

end Texts

section Laws
variable {D T U S : Type}

/-- What `Boolean` binds: `None`, the truth values and the numbers that are equal to one. -/
def strictBool : PyValue D T U → Option Bool
  | .json (.bool b) => some b
  | .json (.int n) => if n = 1 then some true else if n = 0 then some false else none
  | .json (.float q) => if q = 1 then some true else if q = 0 then some false else none
  | _ => none

/-- What is documented of the packages. -/
structure RowPackages.Lawful (p : RowPackages D T U S) : Prop where
  utc_utc : ∀ t, p.utc (p.utc t) = p.utc t
  /-- The text of a float has a point or an exponent, or is `inf` or `nan`. -/
  matchBool_printed : ∀ v, matchBool (p.printed v) = none
  /-- The parsers find nothing in white space. -/
  blank : ∀ s, stripped s = "" → p.int s = none ∧ p.float s = none ∧ p.uuid s = none ∧ p.loads s = none ∧
    p.fromIsoformat s = none ∧ p.dateFromIsoformat s = none
  int_stripped : ∀ s, p.int (stripped s) = p.int s
  float_stripped : ∀ s, p.float (stripped s) = p.float s
  uuid_stripped : ∀ s u w, p.uuid s = some u → p.uuid (stripped s) = some w → u = w
  loads_stripped : ∀ s v, p.loads s = some v → p.loads (stripped s) = some v
  /-- `None` is NULL, except that `JSONB` makes the JSON `null` of it. -/
  bind_none : ∀ column type, type ≠ .jsonb → p.bind column type .none = some p.null
  bind_jsonb_none : ∀ column, p.bind column .jsonb .none ≠ some p.null
  /-- `String` binds a `str` and `None` only. -/
  bind_string : ∀ column v, p.bind column .string v ≠ none → v = .none ∨ ∃ s, v = .str s
  bind_str_ne_null : ∀ column s, p.bind column .string (.str s) ≠ some p.null
  /-- A text is stored as it is; white space and the texts of other objects can be stored. -/
  bind_str_injective : ∀ s t stored, p.bind .text .string (.str s) = some stored →
    p.bind .text .string (.str t) = some stored → s = t
  bind_blank : ∀ s, stripped s = "" → ∃ stored, p.bind .text .string (.str s) = some stored
  bind_printed : ∀ v, v ≠ .none → (∀ s, v ≠ .str s) → ∃ stored, p.bind .text .string (.str (str p v)) = some stored
  bind_boolean : ∀ v, v ≠ .none →
    p.bind .boolean .boolean v = (strictBool v).bind fun b => p.bind .boolean .boolean (.bool b)
  bind_bool : ∀ b, ∃ stored, p.bind .boolean .boolean (.bool b) = some stored

end Laws
end Tables
end Allama

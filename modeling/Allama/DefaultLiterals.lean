import Mathlib
import Allama.QuotedTexts
import Allama.TableDdl

/-! Defaults of columns as SQL literals, and back (`handle_default_value`, `parse_postgres_default`). -/
namespace Allama
namespace DefaultLiterals
open Tables QuotedTexts
open TableDdl (DdlPackages truthy doubledQuotes)

def quote : Char := Char.ofNat 39

section Values

mutual

/-- The strings of a value, keys among them. -/
def texts : Value → List String
  | .str s => [s]
  | .list items => textsOfItems items
  | .dict entries => textsOfEntries entries
  | .none => []
  | .bool _ => []
  | .int _ => []
  | .float _ => []

def textsOfItems : List Value → List String
  | [] => []
  | item :: items => texts item ++ textsOfItems items

def textsOfEntries : List (String × Value) → List String
  | [] => []
  | (key,value) :: entries => key :: (texts value ++ textsOfEntries entries)

end

variable {D T U S : Type} (p : RowPackages D T U S) (q : DdlPackages D T)

/-- What `orjson` writes a value as: dates, datetimes and UUIDs are texts. -/
def jsonOf : PyValue D T U → Value
  | .json v => v
  | .date d => .str (q.dateIsoformat d)
  | .datetime t => .str (q.isoformat t)
  | .uuid u => .str (p.printed (.uuid u))

/-- `bool(default)`. -/
def truth : PyValue D T U → Bool
  | .json v => truthy v
  | _ => true

/-- `handle_default_value` of any Python value. -/
def handleDefaultValue (type : SqlType) (default : PyValue D T U) : Except WriteError String :=
  match type with
  | .multiSelect => (coerceMultiSelectValue p default none).map fun labels =>
      TableDdl.quoted (doubledQuotes (q.dumps (.list (labels.map .str)))) ++ "::jsonb"
  | .jsonb => .ok (TableDdl.quoted (doubledQuotes (q.dumps (jsonOf p q default))) ++ "::jsonb")
  | .text | .select => .ok (TableDdl.quoted (str p default))
  | .date => (coerceToDate p default).map fun d => TableDdl.quoted (q.dateIsoformat d) ++ "::date"
  | .timestamp | .timestamptz => (coerceToUtcDatetime p default).map fun t => TableDdl.quoted (q.isoformat t) ++ "::timestamptz"
  | .boolean => .ok (if truth default then "true" else "false")
  | .integer | .numeric => .ok (str p default)
  | .uuid => .ok (TableDdl.quoted (str p default) ++ "::uuid")

/-- The literal of a default, if there is one (`create_column`, `update_column`). -/
def literalOf (type : SqlType) : PyValue D T U → Except WriteError (Option String)
  | .json .none => .ok none
  | default => (handleDefaultValue p q type default).map some

end Values

section Casts
variable {D T : Type} (q : DdlPackages D T)

/-- `\w`. -/
def isWord (c : Char) : Bool := q.isAlnum c || c = '_'

/-- `[\w\. ]*(\[\])?\s*$`. -/
def endsCast (text : Text) : Bool :=
  match text.dropWhile fun c => isWord q c || c = '.' || c = ' ' with
  | '[' :: ']' :: rest => rest.all isSpace
  | rest => rest.all isSpace

/-- `::[A-Za-z_][\w\. ]*(\[\])?\s*$`. -/
def isCast : Text → Bool
  | ':' :: ':' :: c :: rest => (c.isAlpha || c = '_') && endsCast q rest
  | _ => false

def beforeCast : Text → Option Text
  | [] => none
  | c :: rest => if isCast q (c :: rest) then some [] else (beforeCast rest).map (c :: ·)

/-- Casts are taken away while there are any; each takes characters. -/
def stripCasts : ℕ → Text → Text
  | 0, text => text
  | n+1, text =>
    match beforeCast q text with
    | none => text
    | some text' => stripCasts n text'

def parsePostgresDefault (defaultValue : Text) : Text :=
  let text := stripCasts q defaultValue.length defaultValue
  if text.head? = some quote ∧ text.getLast? = some quote then text.tail.dropLast else text

end Casts

section Postgres

/-- How PostgreSQL reads and writes constants. -/
structure Postgres (D T U J : Type) where
  /-- A numeral with or without a sign. -/
  number : String → Option ℚ
  date : String → Option D
  timestamptz : String → Option T
  jsonb : String → Option J
  uuid : String → Option U
  /-- The value of type `jsonb` that JSON stands for. -/
  json : Value → J
  numberText : ℚ → String
  dateText : D → String
  timestamptzText : T → String
  jsonbText : J → String
  uuidText : U → String

/-- A constant of a column. -/
inductive Constant (D T U J : Type)
  | text (s : Text)
  | bool (b : Bool)
  | int (n : ℤ)
  | numeric (r : ℚ)
  | date (d : D)
  | timestamptz (t : T)
  | jsonb (j : J)
  | uuid (u : U)

variable {D T U S J : Type} (p : RowPackages D T U S) (q : DdlPackages D T) (db : Postgres D T U J)

def content (suffix : Text) : Text → Option Text
  | [] => none
  | c :: rest =>
    if c = quote then (readQuoted quote rest).bind fun r => if r.2 = suffix then some r.1 else none else none

def InRange (n : ℤ) : Prop := -2 ^ 63 ≤ n ∧ n < 2 ^ 63

instance (n : ℤ) : Decidable (InRange n) := inferInstanceAs (Decidable (_ ∧ _))

/-- The integer that a number is, in the range of `BIGINT`. -/
def bigint (r : ℚ) : Option ℤ := if r.den = 1 ∧ InRange r.num then some r.num else none

/-- What a text means that is one literal of the type of a column; `none` if it is no such literal. -/
def meaning (type : SqlType) (text : Text) : Option (Constant D T U J) :=
  match type with
  | .text | .select => (content [] text).bind fun s => if Char.ofNat 0 ∈ s then none else some (.text s)
  | .boolean => if text = "true".toList then some (.bool true) else if text = "false".toList then some (.bool false) else none
  | .integer => ((db.number (String.ofList text)).bind bigint).map .int
  | .numeric => (db.number (String.ofList text)).map .numeric
  | .date => ((content "::date".toList text).bind fun s => db.date (String.ofList s)).map .date
  | .timestamp | .timestamptz =>
    ((content "::timestamptz".toList text).bind fun s => db.timestamptz (String.ofList s)).map .timestamptz
  | .jsonb | .multiSelect => ((content "::jsonb".toList text).bind fun s => db.jsonb (String.ofList s)).map .jsonb
  | .uuid => ((content "::uuid".toList text).bind fun s => db.uuid (String.ofList s)).map .uuid

/-- The value that a default stands for in a column of a type; texts stand for what cells of the same text would. -/
def given (type : SqlType) (default : PyValue D T U) : Option (Constant D T U J) :=
  match type with
  | .text | .select => some (.text (str p default).toList)
  | .boolean => (matchBool (str p default)).map .bool
  | .integer =>
    match default with
    | .json (.int n) => some (.int n)
    | .json (.float r) => if r.den = 1 then some (.int r.num) else none
    | .json (.str s) => (p.int s).map .int
    | _ => none
  | .numeric =>
    match default with
    | .json (.int n) => some (.numeric n)
    | .json (.float r) => some (.numeric r)
    | .json (.str s) => (p.float s).map .numeric
    | _ => none
  | .date => (coerceToDate p default).toOption.map .date
  | .timestamp | .timestamptz => (coerceToUtcDatetime p default).toOption.map .timestamptz
  | .jsonb => some (.jsonb (db.json (jsonOf p q default)))
  | .multiSelect => (coerceMultiSelectValue p default none).toOption.map fun labels => .jsonb (db.json (.list (labels.map .str)))
  | .uuid => (p.uuid (str p default)).map .uuid

/-- The text of a constant. -/
def output : Constant D T U J → Text
  | .text s => s
  | .bool b => (if b then "true" else "false").toList
  | .int n => (toString n).toList
  | .numeric r => (db.numberText r).toList
  | .date d => (db.dateText d).toList
  | .timestamptz t => (db.timestamptzText t).toList
  | .jsonb j => (db.jsonbText j).toList
  | .uuid u => (db.uuidText u).toList

/-- The names of types that a constant is cast to. -/
def castNames : Constant D T U J → List Text
  | .text _ => ["text".toList]
  | .bool _ => ["boolean".toList]
  | .int _ => ["bigint".toList,"integer".toList]
  | .numeric _ => ["numeric".toList,"integer".toList,"bigint".toList]
  | .date _ => ["date".toList]
  | .timestamptz _ => ["timestamp with time zone".toList]
  | .jsonb _ => ["jsonb".toList]
  | .uuid _ => ["uuid".toList]

def bare : Constant D T U J → Bool
  | .bool _ | .int _ | .numeric _ => true
  | _ => false

/-- A text that PostgreSQL shows a default as. -/
def Renders (s : Constant D T U J) (text : Text) : Prop :=
  (bare s = true ∧ text = output db s) ∨
    ∃ name ∈ castNames s, text = quote :: (doubled quote (output db s) ++ quote :: (':' :: ':' :: name))

/-- The text is a literal of the type, of the value that was given, and what PostgreSQL shows of it parses to that value. -/
def Represents (type : SqlType) (default : PyValue D T U) (text : String) : Prop :=
  ∃ s : Constant D T U J, meaning db type text.toList = some s ∧ given p q db type default = some s ∧
    ∀ r, Renders db s r → parsePostgresDefault q r = output db s

/-- Neither a quote nor the character that PostgreSQL has not. -/
def Plain (s : String) : Prop := quote ∉ s.toList ∧ Char.ofNat 0 ∉ s.toList

/-- The defaults that are written and read faithfully. -/
def Safe (type : SqlType) (default : PyValue D T U) : Prop :=
  match type with
  | .text | .select => Plain (str p default)
  | .jsonb => ∀ s ∈ texts (jsonOf p q default), Plain s
  | .multiSelect => ∀ labels, coerceMultiSelectValue p default none = .ok labels → ∀ s ∈ texts (.list (labels.map .str)), Plain s
  | .date | .timestamp | .timestamptz => True
  | .boolean =>
    match default with
    | .json (.bool _) => True
    | .json (.int n) => n = 0 ∨ n = 1
    | .json (.str s) => matchBool s = some true
    | _ => False
  | .integer =>
    match default with
    | .json (.int n) => InRange n
    | .json (.float r) => r.den = 1 ∧ InRange r.num
    | .json (.str s) => ∃ n, p.int s = some n ∧ db.number s = some n ∧ InRange n
    | _ => False
  | .numeric =>
    match default with
    | .json (.int _) | .json (.float _) => True
    | .json (.str s) => ∃ r, p.float s = some r ∧ db.number s = some r
    | _ => False
  | .uuid => quote ∉ (str p default).toList ∧ ∃ u, p.uuid (str p default) = some u ∧ db.uuid (str p default) = some u

def Composite : PyValue D T U → Prop
  | .json (.list _) | .json (.dict _) | .date _ | .datetime _ | .uuid _ => True
  | _ => False

def AsciiWords (q : DdlPackages D T) : Prop := ∀ c : Char, c.toNat < 128 → q.isAlnum c = c.isAlphanum

/-- What is documented of the packages and of PostgreSQL. -/
structure Lawful : Prop where
  isAlnum : AsciiWords q
  number_int : ∀ n : ℤ, db.number (toString n) = some n
  number_float : ∀ r, db.number (p.printed (.json (.float r))) = some r
  number_bool : db.number "True" = none ∧ db.number "False" = none
  number_composite : ∀ v, Composite v → db.number (p.printed v) = none
  matchBool_float : ∀ r, matchBool (p.printed (.json (.float r))) = none
  matchBool_composite : ∀ v, Composite v → matchBool (p.printed v) = none
  numberText : ∀ r, quote ∉ (db.numberText r).toList ∧ ':' ∉ (db.numberText r).toList
  date : ∀ d, quote ∉ (q.dateIsoformat d).toList ∧ db.date (q.dateIsoformat d) = some d ∧ quote ∉ (db.dateText d).toList
  timestamptz : ∀ t, quote ∉ (q.isoformat (p.utc t)).toList ∧ db.timestamptz (q.isoformat (p.utc t)) = some (p.utc t) ∧
    quote ∉ (db.timestamptzText t).toList
  /-- JSON text without the character zero is read as it was written; no other is. -/
  jsonb : ∀ v, (∀ s ∈ texts v, Char.ofNat 0 ∉ s.toList) → db.jsonb (q.dumps v) = some (db.json v)
  jsonb_zero : ∀ v, (∃ s ∈ texts v, Char.ofNat 0 ∈ s.toList) → db.jsonb (q.dumps v) = none
  jsonbText : ∀ v, quote ∈ (db.jsonbText (db.json v)).toList ↔ ∃ s ∈ texts v, quote ∈ s.toList
  uuid : ∀ s u, db.uuid s = some u → quote ∉ s.toList
  uuidText : ∀ u, quote ∉ (db.uuidText u).toList

end Postgres

section Parsing
variable {D T : Type} {q : DdlPackages D T}

theorem quote_notWord (hq : AsciiWords q) : (isWord q quote || quote = '.' || quote = ' ') = false := by
  unfold isWord
  rw [hq quote (by decide)]
  decide

theorem isCast_of_quote_mem (hq : AsciiWords q) {text : Text} (h : quote ∈ text) : isCast q text = false := by
  have hends : ∀ rest : Text, quote ∈ rest → endsCast q rest = false := by
    intro rest hrest
    have hdrop : quote ∈ rest.dropWhile fun c => isWord q c || c = '.' || c = ' ' := by
      rw [← List.takeWhile_append_dropWhile (p := fun c => isWord q c || c = '.' || c = ' ') (l := rest)] at hrest
      obtain htake | hdrop := List.mem_append.mp hrest
      · have hword := List.mem_takeWhile_imp htake
        rw [quote_notWord hq] at hword
        cases hword
      · exact hdrop
    have hall : ∀ l : Text, quote ∈ l → l.all isSpace = false := by
      intro l hl
      rw [List.all_eq_false]
      exact ⟨quote,hl,by decide⟩
    unfold endsCast
    split
    · rename_i rest' heq
      rw [heq] at hdrop
      apply hall
      obtain hc | hdrop := List.mem_cons.mp hdrop
      · exact absurd hc (by decide)
      · obtain hc | hdrop := List.mem_cons.mp hdrop
        · exact absurd hc (by decide)
        · exact hdrop
    · exact hall _ hdrop
  unfold isCast
  split
  · rename_i c rest
    obtain hc | h := List.mem_cons.mp h
    · exact absurd hc (by decide)
    · obtain hc | h := List.mem_cons.mp h
      · exact absurd hc (by decide)
      · obtain hc | h := List.mem_cons.mp h
        · subst hc
          rfl
        · rw [hends rest h,Bool.and_false]
  · rfl

theorem beforeCast_quote (hq : AsciiWords q) (s text : Text) :
    beforeCast q (s ++ quote :: text) = (beforeCast q text).map fun r => s ++ quote :: r := by
  induction s with
  | nil =>
    change (if isCast q (quote :: text) then some [] else (beforeCast q text).map (quote :: ·)) = _
    rw [isCast_of_quote_mem hq List.mem_cons_self]
    rfl
  | cons c s ih =>
    have hmem : quote ∈ c :: (s ++ quote :: text) := List.mem_cons_of_mem _ (List.mem_append_right _ List.mem_cons_self)
    change (if isCast q (c :: (s ++ quote :: text)) then some [] else (beforeCast q (s ++ quote :: text)).map (c :: ·)) = _
    rw [isCast_of_quote_mem hq hmem,ih]
    cases beforeCast q text
    · rfl
    · rfl

theorem beforeCast_of_notMem {text : Text} (h : ':' ∉ text) : beforeCast q text = none := by
  induction text with
  | nil => rfl
  | cons c text ih =>
    obtain ⟨hc,htext⟩ := not_or.mp (mt List.mem_cons.mpr h)
    have hcast : isCast q (c :: text) = false := by
      unfold isCast
      split
      · rename_i heq
        exact absurd (List.cons.inj heq).1.symm hc
      · rfl
    change (if isCast q (c :: text) then some [] else (beforeCast q text).map (c :: ·)) = none
    rw [hcast,ih htext]
    rfl

theorem stripCasts_of_none {text : Text} (h : beforeCast q text = none) (n : ℕ) : stripCasts q n text = text := by
  cases n with
  | zero => rfl
  | succ n =>
    unfold stripCasts
    rw [h]

def isCastName : Text → Bool
  | [] => false
  | c :: rest => c.isAlpha && rest.all fun d => d.isAlpha || d = ' '

theorem toNat_lt_of_isAlphanum {c : Char} (h : c.isAlphanum = true) : c.toNat < 128 := by
  unfold Char.isAlphanum Char.isAlpha Char.isUpper Char.isLower Char.isDigit at h
  simp only [Bool.or_eq_true,Bool.and_eq_true,decide_eq_true_eq] at h
  change c.val.toNat < 128
  obtain (⟨-,h⟩ | ⟨-,h⟩) | ⟨-,h⟩ := h
  · exact Nat.lt_of_le_of_lt (UInt32.le_iff_toNat_le.mp h) (by decide)
  · exact Nat.lt_of_le_of_lt (UInt32.le_iff_toNat_le.mp h) (by decide)
  · exact Nat.lt_of_le_of_lt (UInt32.le_iff_toNat_le.mp h) (by decide)

theorem isCast_name (hq : AsciiWords q) {name : Text} (h : isCastName name = true) : isCast q (':' :: ':' :: name) = true := by
  obtain ⟨c,rest,rfl⟩ : ∃ c rest, name = c :: rest := by
    cases name with
    | nil => cases h
    | cons c rest => exact ⟨c,rest,rfl⟩
  obtain ⟨hc,hall⟩ := Bool.and_eq_true_iff.mp h
  have hrest : ∀ d ∈ rest, d.isAlpha = true ∨ d = ' ' := by
    intro d hd
    obtain hd | hd := Bool.or_eq_true_iff.mp (List.all_eq_true.mp hall d hd)
    · exact .inl hd
    · exact .inr (of_decide_eq_true hd)
  have hdrop : (rest.dropWhile fun c => isWord q c || c = '.' || c = ' ') = [] := by
    rw [List.dropWhile_eq_nil_iff]
    intro d hd
    obtain hd | rfl := hrest d hd
    · have hword : d.isAlphanum = true := by
        unfold Char.isAlphanum
        rw [hd]
        rfl
      unfold isWord
      rw [hq d (toNat_lt_of_isAlphanum hword),hword]
      rfl
    · rw [decide_eq_true (rfl : ' ' = ' '),Bool.or_true]
  change ((c.isAlpha || c = '_') && endsCast q rest) = true
  unfold endsCast
  rw [hc,hdrop]
  rfl

theorem parsePostgresDefault_cast (hq : AsciiWords q) {name : Text} (h : isCastName name = true) (s : Text) :
    parsePostgresDefault q (quote :: (s ++ quote :: (':' :: ':' :: name))) = s := by
  have hstep : beforeCast q (quote :: (s ++ quote :: (':' :: ':' :: name))) = some (quote :: (s ++ [quote])) := by
    have hfound : beforeCast q (':' :: ':' :: name) = some [] := by
      change (if isCast q (':' :: ':' :: name) then some [] else _) = _
      rw [isCast_name hq h]
      rfl
    change beforeCast q ((quote :: s) ++ quote :: (':' :: ':' :: name)) = _
    rw [beforeCast_quote hq,hfound]
    rfl
  have hend : beforeCast q (quote :: (s ++ [quote])) = none := by
    change beforeCast q ((quote :: s) ++ quote :: []) = _
    rw [beforeCast_quote hq]
    rfl
  have hstrip : stripCasts q (quote :: (s ++ quote :: (':' :: ':' :: name))).length (quote :: (s ++ quote :: (':' :: ':' :: name))) =
      quote :: (s ++ [quote]) := by
    rw [List.length_cons]
    unfold stripCasts
    rw [hstep]
    exact stripCasts_of_none hend _
  have hlast : (quote :: (s ++ [quote])).getLast? = some quote := by
    rw [← List.cons_append,List.getLast?_append]
    rfl
  unfold parsePostgresDefault
  rw [hstrip]
  dsimp only
  rw [if_pos ⟨rfl,hlast⟩]
  exact List.dropLast_concat

theorem parsePostgresDefault_bare {s : Text} (hquote : quote ∉ s) (hcolon : ':' ∉ s) : parsePostgresDefault q s = s := by
  unfold parsePostgresDefault
  rw [stripCasts_of_none (beforeCast_of_notMem hcolon)]
  dsimp only
  rw [if_neg]
  rintro ⟨hhead,-⟩
  exact hquote (List.mem_of_head? hhead)

end Parsing

section Representation
variable {D T U S J : Type} {p : RowPackages D T U S} {q : DdlPackages D T} {db : Postgres D T U J}

theorem castName_of_mem {s : Constant D T U J} {name : Text} (h : name ∈ castNames s) : isCastName name = true := by
  have hall : (castNames s).all isCastName = true := by
    cases s
    all_goals rfl
  exact List.all_eq_true.mp hall name h

theorem parses_iff (hq : AsciiWords q) {s : Constant D T U J} (hbare : bare s = true → ':' ∉ output db s) :
    (∀ r, Renders db s r → parsePostgresDefault q r = output db s) ↔ quote ∉ output db s := by
  constructor
  · intro h
    obtain ⟨name,hname⟩ : ∃ name, name ∈ castNames s := by
      cases s
      all_goals exact ⟨_,List.mem_cons_self⟩
    have hparse := h _ (.inr ⟨name,hname,rfl⟩)
    rw [parsePostgresDefault_cast hq (castName_of_mem hname)] at hparse
    exact doubled_eq_self_iff.mp hparse
  · intro hquote r hr
    obtain ⟨hb,rfl⟩ | ⟨name,hname,rfl⟩ := hr
    · exact parsePostgresDefault_bare hquote (hbare hb)
    · rw [parsePostgresDefault_cast hq (castName_of_mem hname)]
      exact doubled_eq_self_iff.mpr hquote

theorem toList_quoted (s : String) : (TableDdl.quoted s).toList = quote :: (s.toList ++ [quote]) := by
  unfold TableDdl.quoted
  rw [String.toList_append,String.toList_append,String.toList_ofList]
  rfl

theorem toList_doubledQuotes (s : String) : (doubledQuotes s).toList = doubled quote s.toList := String.toList_ofList

theorem content_quoted {suffix s c : Text} (hsuffix : suffix.head? ≠ some quote) :
    content suffix (quote :: (s ++ quote :: suffix)) = some c ↔ doubled quote c = s := by
  change (if quote = quote then (readQuoted quote (s ++ quote :: suffix)).bind _ else none) = _ ↔ _
  rw [if_pos rfl]
  constructor
  · intro h
    obtain ⟨⟨content,rest⟩,hread,hrest⟩ := Option.bind_eq_some_iff.mp h
    dsimp only at hrest
    split_ifs at hrest with heq
    cases hrest
    have htext := eq_of_readQuoted hread
    rw [heq] at htext
    exact (List.append_cancel_right htext).symm
  · intro h
    rw [← h,readQuoted_doubled hsuffix]
    exact if_pos rfl

theorem content_plain {suffix s : Text} (hsuffix : suffix.head? ≠ some quote) (hs : quote ∉ s) :
    content suffix (quote :: (s ++ quote :: suffix)) = some s :=
  (content_quoted hsuffix).mpr (doubled_eq_self_iff.mpr hs)

theorem toList_cast (s cast : String) : (TableDdl.quoted s ++ cast).toList = quote :: (s.toList ++ quote :: cast.toList) := by
  rw [String.toList_append,toList_quoted]
  change quote :: ((s.toList ++ [quote]) ++ cast.toList) = _
  rw [List.append_assoc]
  rfl

theorem mem_toString {n : ℤ} {c : Char} (hc : c ∈ (toString n).toList) : c.isDigit = true ∨ c = '-' := by
  have hnat : ∀ k : ℕ, c ∈ (toString k).toList → c.isDigit = true := by
    intro k hc
    rw [show (toString k).toList = Nat.toDigits 10 k from Nat.toList_repr] at hc
    exact Nat.isDigit_of_mem_toDigits (by decide) (by decide) hc
  cases n with
  | ofNat k => exact .inl (hnat k hc)
  | negSucc k =>
    rw [show (toString (Int.negSucc k)).toList = '-' :: (toString (k+1)).toList from String.toList_append] at hc
    obtain hc | hc := List.mem_cons.mp hc
    · exact .inr hc
    · exact .inl (hnat _ hc)

theorem notMem_toString {c : Char} (hdigit : c.isDigit = false) (hsign : c ≠ '-') (n : ℤ) : c ∉ (toString n).toList := by
  intro hc
  obtain hc | hc := mem_toString hc
  · rw [hdigit] at hc
    cases hc
  · exact hsign hc

theorem bare_output (hp : Lawful p q db) {s : Constant D T U J} (h : bare s = true) :
    quote ∉ output db s ∧ ':' ∉ output db s := by
  cases s with
  | bool b =>
    have hwords : (quote ∉ "false".toList ∧ ':' ∉ "false".toList) ∧ quote ∉ "true".toList ∧ ':' ∉ "true".toList := by decide
    cases b
    · exact hwords.1
    · exact hwords.2
  | int n => exact ⟨notMem_toString (by decide) (by decide) n,notMem_toString (by decide) (by decide) n⟩
  | numeric r => exact hp.numberText r
  | text _ => cases h
  | date _ => cases h
  | timestamptz _ => cases h
  | jsonb _ => cases h
  | uuid _ => cases h

theorem represents_iff_constant (hp : Lawful p q db) {type : SqlType} {default : PyValue D T U} {text : String} :
    Represents p q db type default text ↔
      ∃ s, meaning db type text.toList = some s ∧ given p q db type default = some s ∧ quote ∉ output db s := by
  constructor
  · rintro ⟨s,hmeaning,hgiven,hparse⟩
    exact ⟨s,hmeaning,hgiven,(parses_iff hp.isAlnum fun hb => (bare_output hp hb).2).mp hparse⟩
  · rintro ⟨s,hmeaning,hgiven,hquote⟩
    exact ⟨s,hmeaning,hgiven,(parses_iff hp.isAlnum fun hb => (bare_output hp hb).2).mpr hquote⟩

theorem text_iff (s : String) :
    (∃ c : Constant D T U J, ((content [] (TableDdl.quoted s).toList).bind fun s => if Char.ofNat 0 ∈ s then none else some (.text s)) = some c ∧
      some (.text s.toList) = some c ∧ quote ∉ output db c) ↔ Plain s := by
  have hcontent : quote ∉ s.toList → content [] (quote :: (s.toList ++ [quote])) = some s.toList := @content_plain [] _ (by decide)
  rw [toList_quoted]
  constructor
  · rintro ⟨c,hmeaning,hgiven,hquote⟩
    cases hgiven
    refine ⟨hquote,?_⟩
    rw [hcontent hquote] at hmeaning
    change (if Char.ofNat 0 ∈ s.toList then none else _) = _ at hmeaning
    split_ifs at hmeaning with hzero
    exact hzero
  · rintro ⟨hquote,hzero⟩
    refine ⟨_,?_,rfl,hquote⟩
    rw [hcontent hquote]
    exact if_neg hzero

theorem json_iff (hp : Lawful p q db) (v : Value) :
    (∃ c : Constant D T U J,
      ((content "::jsonb".toList (TableDdl.quoted (doubledQuotes (q.dumps v)) ++ "::jsonb").toList).bind fun s =>
        db.jsonb (String.ofList s)).map .jsonb = some c ∧
      some (.jsonb (db.json v)) = some c ∧ quote ∉ output db c) ↔ ∀ s ∈ texts v, Plain s := by
  rw [toList_cast,toList_doubledQuotes,(content_quoted (by decide)).mpr rfl]
  change (∃ c : Constant D T U J, (db.jsonb (String.ofList (q.dumps v).toList)).map .jsonb = some c ∧ _) ↔ _
  rw [String.ofList_toList]
  constructor
  · rintro ⟨c,hmeaning,hgiven,hquote⟩ s hs
    cases hgiven
    refine ⟨fun hmem => hquote ((hp.jsonbText v).mpr ⟨s,hs,hmem⟩),fun hmem => ?_⟩
    rw [hp.jsonb_zero v ⟨s,hs,hmem⟩] at hmeaning
    cases hmeaning
  · intro hplain
    refine ⟨_,?_,rfl,fun hmem => ?_⟩
    · rw [hp.jsonb v fun s hs => (hplain s hs).2]
      rfl
    · obtain ⟨s,hs,hquote⟩ := (hp.jsonbText v).mp hmem
      exact (hplain s hs).1 hquote

theorem read_quoted {β : Type} {read : String → Option β} {b : β} {s cast : String} (hcast : cast.toList.head? ≠ some quote)
    (hs : quote ∉ s.toList) (hread : read s = some b) :
    ((content cast.toList (TableDdl.quoted s ++ cast).toList).bind fun s => read (String.ofList s)) = some b := by
  rw [toList_cast,content_plain hcast hs]
  change read (String.ofList s.toList) = _
  rw [String.ofList_toList,hread]

theorem uuid_iff (hp : Lawful p q db) (s : String) :
    (∃ c : Constant D T U J,
      ((content "::uuid".toList (TableDdl.quoted s ++ "::uuid").toList).bind fun s => db.uuid (String.ofList s)).map .uuid = some c ∧
      (p.uuid s).map .uuid = some c ∧ quote ∉ output db c) ↔ quote ∉ s.toList ∧ ∃ u, p.uuid s = some u ∧ db.uuid s = some u := by
  constructor
  · rintro ⟨c,hmeaning,hgiven,-⟩
    rw [toList_cast] at hmeaning
    obtain ⟨u,hbind,rfl⟩ := Option.map_eq_some_iff.mp hmeaning
    obtain ⟨s',hcontent,hu⟩ := Option.bind_eq_some_iff.mp hbind
    obtain ⟨u',hu',heq⟩ := Option.map_eq_some_iff.mp hgiven
    obtain rfl := Constant.uuid.inj heq
    -- no quote is in the content, so that it is the text itself
    have hquote := hp.uuid _ _ hu
    rw [String.toList_ofList] at hquote
    have hs := (content_quoted (by decide)).mp hcontent
    rw [doubled_eq_self_iff.mpr hquote] at hs
    subst hs
    rw [String.ofList_toList] at hu
    exact ⟨hquote,u',hu',hu⟩
  · rintro ⟨hquote,u,hgiven,hu⟩
    refine ⟨.uuid u,?_,?_,hp.uuidText u⟩
    · rw [read_quoted (by decide) hquote hu]
      rfl
    · rw [hgiven]
      rfl

theorem boolean_iff (hp : Lawful p q db) (default : PyValue D T U) :
    matchBool (str p default) = some (truth default) ↔ Safe p q db .boolean default := by
  have hcomposite : ∀ v : PyValue D T U, matchBool (p.printed v) = none →
      (matchBool (p.printed v) = some (truth v) ↔ False) := by
    intro v hv
    rw [hv]
    exact ⟨fun h => (by cases h),False.elim⟩
  cases default with
  | json v =>
    cases v with
    | none =>
      have hword : matchBool "None" ≠ some false := by decide
      exact ⟨hword,False.elim⟩
    | bool b =>
      have hwords : matchBool "False" = some false ∧ matchBool "True" = some true := by decide
      refine ⟨fun _ => trivial,fun _ => ?_⟩
      cases b
      · exact hwords.1
      · exact hwords.2
    | int n =>
      change matchBool (toString n) = some (decide (n ≠ 0)) ↔ n = 0 ∨ n = 1
      rw [matchBool_toString_int]
      split_ifs with hone hzero
      · simp [hone]
      · simp [hzero]
      · simp [hone,hzero]
    | float r => exact hcomposite _ (hp.matchBool_float r)
    | str s =>
      change matchBool s = some (decide (s ≠ "")) ↔ matchBool s = some true
      by_cases hs : s = ""
      · subst hs
        decide
      · rw [decide_eq_true hs]
    | list items => exact hcomposite _ (hp.matchBool_composite _ trivial)
    | dict entries => exact hcomposite _ (hp.matchBool_composite _ trivial)
  | date d => exact hcomposite _ (hp.matchBool_composite _ trivial)
  | datetime t => exact hcomposite _ (hp.matchBool_composite _ trivial)
  | uuid u => exact hcomposite _ (hp.matchBool_composite _ trivial)

def numeral : PyValue D T U → Option ℚ
  | .json (.int n) => some n
  | .json (.float r) => some r
  | _ => none

theorem number_str (hp : Lawful p q db) {default : PyValue D T U} (hnone : default ≠ .json .none)
    (hstr : ∀ s, default ≠ .json (.str s)) : db.number (str p default) = numeral default := by
  cases default with
  | json v =>
    cases v with
    | none => exact absurd rfl hnone
    | bool b =>
      cases b
      · exact hp.number_bool.2
      · exact hp.number_bool.1
    | int n => exact hp.number_int n
    | float r => exact hp.number_float r
    | str s => exact absurd rfl (hstr s)
    | list items => exact hp.number_composite _ trivial
    | dict entries => exact hp.number_composite _ trivial
  | date d => exact hp.number_composite _ trivial
  | datetime t => exact hp.number_composite _ trivial
  | uuid u => exact hp.number_composite _ trivial

theorem bigint_eq_some {r : ℚ} {n : ℤ} : bigint r = some n ↔ r = n ∧ InRange n := by
  unfold bigint
  constructor
  · intro h
    split_ifs at h with hr
    cases h
    exact ⟨(Rat.den_eq_one_iff r).mp hr.1 |>.symm,hr.2⟩
  · rintro ⟨rfl,hn⟩
    rw [if_pos ⟨Rat.den_intCast n,by rwa [Rat.num_intCast]⟩,Rat.num_intCast]

theorem int_iff (hp : Lawful p q db) (number : Option ℚ) (value : Option ℤ) :
    (∃ c : Constant D T U J, (number.bind bigint).map .int = some c ∧ value.map .int = some c ∧ quote ∉ output db c) ↔
      ∃ n, value = some n ∧ number = some (n : ℚ) ∧ InRange n := by
  constructor
  · rintro ⟨c,hmeaning,hgiven,-⟩
    obtain ⟨n,hbind,rfl⟩ := Option.map_eq_some_iff.mp hmeaning
    obtain ⟨r,hr,hn⟩ := Option.bind_eq_some_iff.mp hbind
    obtain ⟨m,hm,heq⟩ := Option.map_eq_some_iff.mp hgiven
    obtain rfl := Constant.int.inj heq
    obtain ⟨rfl,hrange⟩ := bigint_eq_some.mp hn
    exact ⟨m,hm,hr,hrange⟩
  · rintro ⟨n,hvalue,hnumber,hrange⟩
    refine ⟨.int n,?_,?_,(bare_output hp rfl).1⟩
    · rw [hnumber]
      change (bigint (n : ℚ)).map _ = _
      rw [bigint_eq_some.mpr ⟨rfl,hrange⟩]
      rfl
    · rw [hvalue]
      rfl

theorem integer_iff (hp : Lawful p q db) {default : PyValue D T U} (hnone : default ≠ .json .none) :
    (∃ c, ((db.number (str p default)).bind bigint).map .int = some c ∧ given p q db .integer default = some c ∧
      quote ∉ output db c) ↔ Safe p q db .integer default := by
  have hother : given p q db .integer default = none → Safe p q db .integer default = False →
      ((∃ c, ((db.number (str p default)).bind bigint).map .int = some c ∧ given p q db .integer default = some c ∧
        quote ∉ output db c) ↔ Safe p q db .integer default) := by
    intro hgiven hsafe
    rw [hgiven,hsafe]
    exact ⟨fun ⟨c,_,h,_⟩ => (by cases h),False.elim⟩
  cases default with
  | json v =>
    cases v with
    | none => exact absurd rfl hnone
    | int n =>
      change (∃ c, _ ∧ (some n).map Constant.int = some c ∧ _) ↔ InRange n
      rw [number_str hp hnone (fun s h => by cases h),int_iff hp]
      constructor
      · rintro ⟨m,hm,-,hrange⟩
        exact Option.some.inj hm ▸ hrange
      · exact fun hrange => ⟨n,rfl,rfl,hrange⟩
    | float r =>
      have hgiven : given p q db .integer (.json (.float r)) = (if r.den = 1 then some r.num else none).map Constant.int := by
        change (if r.den = 1 then some (Constant.int r.num) else none) = _
        split_ifs
        · rfl
        · rfl
      change _ ↔ r.den = 1 ∧ InRange r.num
      rw [number_str hp hnone (fun s h => by cases h),hgiven,int_iff hp]
      constructor
      · rintro ⟨n,hn,-,hrange⟩
        split_ifs at hn with hden
        exact ⟨hden,Option.some.inj hn ▸ hrange⟩
      · rintro ⟨hden,hrange⟩
        exact ⟨r.num,if_pos hden,congrArg some ((Rat.den_eq_one_iff r).mp hden).symm,hrange⟩
    | str s => exact int_iff hp (db.number s) (p.int s)
    | bool b => exact hother rfl rfl
    | list items => exact hother rfl rfl
    | dict entries => exact hother rfl rfl
  | date d => exact hother rfl rfl
  | datetime t => exact hother rfl rfl
  | uuid u => exact hother rfl rfl

theorem number_iff (hp : Lawful p q db) (number value : Option ℚ) :
    (∃ c : Constant D T U J, number.map .numeric = some c ∧ value.map .numeric = some c ∧ quote ∉ output db c) ↔
      ∃ r, value = some r ∧ number = some r := by
  constructor
  · rintro ⟨c,hmeaning,hgiven,-⟩
    obtain ⟨r,hr,rfl⟩ := Option.map_eq_some_iff.mp hmeaning
    obtain ⟨r',hr',heq⟩ := Option.map_eq_some_iff.mp hgiven
    obtain rfl := Constant.numeric.inj heq
    exact ⟨r',hr',hr⟩
  · rintro ⟨r,rfl,rfl⟩
    exact ⟨.numeric r,rfl,rfl,(bare_output hp rfl).1⟩

theorem numeric_iff (hp : Lawful p q db) {default : PyValue D T U} (hnone : default ≠ .json .none) :
    (∃ c, (db.number (str p default)).map .numeric = some c ∧ given p q db .numeric default = some c ∧
      quote ∉ output db c) ↔ Safe p q db .numeric default := by
  have hother : given p q db .numeric default = none → Safe p q db .numeric default = False →
      ((∃ c, (db.number (str p default)).map .numeric = some c ∧ given p q db .numeric default = some c ∧
        quote ∉ output db c) ↔ Safe p q db .numeric default) := by
    intro hgiven hsafe
    rw [hgiven,hsafe]
    exact ⟨fun ⟨c,_,h,_⟩ => (by cases h),False.elim⟩
  have hnumber : ∀ r : ℚ, numeral default = some r → (∀ s, default ≠ .json (.str s)) →
      given p q db .numeric default = (some r).map .numeric → Safe p q db .numeric default = True →
      ((∃ c, (db.number (str p default)).map .numeric = some c ∧ given p q db .numeric default = some c ∧
        quote ∉ output db c) ↔ Safe p q db .numeric default) := by
    intro r hr hstr hgiven hsafe
    rw [number_str hp hnone hstr,hr,hgiven,hsafe,number_iff hp]
    exact ⟨fun _ => trivial,fun _ => ⟨r,rfl,rfl⟩⟩
  cases default with
  | json v =>
    cases v with
    | none => exact absurd rfl hnone
    | int n => exact hnumber n rfl (fun s h => by cases h) rfl rfl
    | float r => exact hnumber r rfl (fun s h => by cases h) rfl rfl
    | str s => exact number_iff hp (db.number s) (p.float s)
    | bool b => exact hother rfl rfl
    | list items => exact hother rfl rfl
    | dict entries => exact hother rfl rfl
  | date d => exact hother rfl rfl
  | datetime t => exact hother rfl rfl
  | uuid u => exact hother rfl rfl

theorem handle_of_literalOf {type : SqlType} {default : PyValue D T U} {text : String}
    (h : literalOf p q type default = .ok (some text)) :
    default ≠ .json .none ∧ handleDefaultValue p q type default = .ok text := by
  unfold literalOf at h
  split at h
  · cases h
  · rename_i hnone
    refine ⟨fun heq => hnone heq,?_⟩
    cases hhandle : handleDefaultValue p q type default with
    | error e =>
      rw [hhandle] at h
      cases h
    | ok text' =>
      rw [hhandle] at h
      obtain rfl := Option.some.inj (Except.ok.inj h)
      rfl

theorem utc_of_coerce {default : PyValue D T U} {t : T} (h : coerceToUtcDatetime p default = .ok t) : ∃ t', t = p.utc t' := by
  unfold coerceToUtcDatetime at h
  split at h
  · exact ⟨_,(Except.ok.inj h).symm⟩
  · exact ⟨_,(Except.ok.inj h).symm⟩
  · split at h
    · exact ⟨_,(Except.ok.inj h).symm⟩
    · cases h
  · split at h
    · rename_i v r hr
      cases htime : fromTimestamp p r with
      | error e =>
        rw [htime] at h
        cases h
      | ok t' =>
        rw [htime] at h
        exact ⟨t',(Except.ok.inj h).symm⟩
    · cases h
  · cases h

end Representation

section Sample

/-- One date, one datetime and one UUID, with fractions for the floats. -/
def samplePackages : RowPackages Unit Unit Unit Unit where
  printed
    | .json (.float r) => toString r.num ++ "/" ++ toString (r.den : ℤ)
    | _ => "object"
  repr _ := "object"
  int := String.toInt?
  float _ := none
  uuid _ := none
  loads _ := none
  fromIsoformat _ := none
  dateFromIsoformat _ := none
  fromTimestamp _ := none
  midnight d := d
  dateOf t := t
  utc t := t
  bind _ _ _ := some ()
  null := ()

/-- Lists of strings are written as in JSON. -/
def sampleDdl : DdlPackages Unit Unit where
  isAlnum := Char.isAlphanum
  isAlpha := Char.isAlpha
  lower s := String.ofList (s.toList.map Char.toLower)
  dumps v := String.ofList ('[' :: ((texts v).flatMap (fun s => '"' :: (s.toList ++ ['"'])) ++ [']']))
  dateIsoformat _ := "2024-01-01"
  isoformat _ := "2024-01-01T00:00:00+00:00"

def samplePostgres : Postgres Unit Unit Unit String where
  number s :=
    if s.toList.all fun c => c.isDigit || c = '-' then s.toInt?.map fun n => (n : ℚ)
    else if '/' ∈ s.toList then
      (String.ofList (s.toList.takeWhile (· ≠ '/'))).toInt?.bind fun m =>
        (String.ofList (s.toList.dropWhile (· ≠ '/')).tail).toInt?.map fun n => (m : ℚ) / n
    else none
  date s := if s = "2024-01-01" then some () else none
  timestamptz s := if s = "2024-01-01T00:00:00+00:00" then some () else none
  jsonb s := if Char.ofNat 0 ∈ s.toList then none else some s
  uuid _ := none
  json := sampleDdl.dumps
  numberText r := toString r.num
  dateText _ := "2024-01-01"
  timestamptzText _ := "2024-01-01 00:00:00+00"
  jsonbText j := j
  uuidText _ := ""

theorem mem_sampleDumps {c : Char} (h : c ≠ '[' ∧ c ≠ ']' ∧ c ≠ '"') (v : Value) :
    c ∈ (sampleDdl.dumps v).toList ↔ ∃ s ∈ texts v, c ∈ s.toList := by
  change c ∈ (String.ofList _).toList ↔ _
  rw [String.toList_ofList]
  simp only [List.mem_cons,List.mem_append,List.mem_flatMap,List.not_mem_nil,or_false,h.1,h.2.1,h.2.2,false_or]

theorem printed_composite {v : PyValue Unit Unit Unit} (hv : Composite v) : samplePackages.printed v = "object" := by
  cases v with
  | json v =>
    cases v with
    | list items => rfl
    | dict entries => rfl
    | none => cases hv
    | bool b => cases hv
    | int n => cases hv
    | float r => cases hv
    | str s => cases hv
  | date d => rfl
  | datetime t => rfl
  | uuid u => rfl

theorem sample_lawful : Lawful samplePackages sampleDdl samplePostgres where
  isAlnum _ _ := rfl
  number_int n := by
    have hall : ((toString n).toList.all fun c => c.isDigit || c = '-') = true := by
      rw [List.all_eq_true]
      intro c hc
      obtain hc | rfl := mem_toString hc
      · rw [hc]
        rfl
      · decide
    change (if ((toString n).toList.all fun c => c.isDigit || c = '-') = true then _ else _) = _
    rw [if_pos hall,show (toString n).toInt? = some n from Int.toInt?_repr n]
    rfl
  number_float r := by
    have htext : (toString r.num ++ "/" ++ toString (r.den : ℤ)).toList = (toString r.num).toList ++ '/' :: (toString (r.den : ℤ)).toList := by
      rw [String.toList_append,String.toList_append,List.append_assoc]
      rfl
    have hmem : '/' ∈ (toString r.num).toList ++ '/' :: (toString (r.den : ℤ)).toList := by simp
    have hall : ¬ (((toString r.num).toList ++ '/' :: (toString (r.den : ℤ)).toList).all fun c => c.isDigit || c = '-') = true := by
      intro hall
      exact absurd (List.all_eq_true.mp hall '/' hmem) (by decide)
    have hnum : ∀ c ∈ (toString r.num).toList, decide (c ≠ '/') = true := by
      intro c hc
      rw [decide_eq_true_iff]
      rintro rfl
      exact notMem_toString (by decide) (by decide) r.num hc
    change samplePostgres.number (toString r.num ++ "/" ++ toString (r.den : ℤ)) = _
    unfold samplePostgres
    dsimp only
    rw [htext,if_neg hall,if_pos hmem,List.takeWhile_append_of_pos hnum,List.dropWhile_append_of_pos hnum]
    change (String.ofList ((toString r.num).toList ++ [])).toInt?.bind (fun m =>
      (String.ofList (toString (r.den : ℤ)).toList).toInt?.map fun n => (m : ℚ) / n) = _
    rw [List.append_nil,String.ofList_toList,String.ofList_toList,show (toString r.num).toInt? = some r.num from Int.toInt?_repr _,
      show (toString (r.den : ℤ)).toInt? = some (r.den : ℤ) from Int.toInt?_repr _]
    change some ((r.num : ℚ) / ((r.den : ℤ) : ℚ)) = _
    rw [Int.cast_natCast,Rat.num_div_den]
  number_bool := ⟨rfl,rfl⟩
  number_composite v hv := by
    rw [printed_composite hv]
    rfl
  matchBool_float r := by
    have hslash : '/' ∈ lower (toString r.num ++ "/" ++ toString (r.den : ℤ)) := by
      refine List.mem_map.mpr ⟨'/',?_,rfl⟩
      rw [String.toList_append,String.toList_append]
      exact List.mem_append_left _ (List.mem_append_right _ List.mem_cons_self)
    have hword : ∀ word : Text, '/' ∉ word → lower (toString r.num ++ "/" ++ toString (r.den : ℤ)) ≠ word := by
      rintro word hnot rfl
      exact hnot hslash
    change matchBool (toString r.num ++ "/" ++ toString (r.den : ℤ)) = none
    unfold matchBool
    rw [if_neg (not_or.mpr ⟨hword _ (by decide),hword _ (by decide)⟩),if_neg (not_or.mpr ⟨hword _ (by decide),hword _ (by decide)⟩)]
  matchBool_composite v hv := by
    rw [printed_composite hv]
    decide
  numberText r := ⟨notMem_toString (by decide) (by decide) r.num,notMem_toString (by decide) (by decide) r.num⟩
  date := fun () => ⟨by decide,rfl,by decide⟩
  timestamptz := fun () => ⟨by decide,rfl,by decide⟩
  jsonb v h := by
    refine if_neg fun hmem => ?_
    obtain ⟨s,hs,hzero⟩ := (mem_sampleDumps (by decide) v).mp hmem
    exact h s hs hzero
  jsonb_zero v h := if_pos ((mem_sampleDumps (by decide) v).mpr h)
  jsonbText v := mem_sampleDumps (by decide) v
  uuid _ _ h := by cases h
  uuidText := fun () => by decide

/-- A text of a cell with an apostrophe. -/
def apostrophe : String := String.ofList ['i','t',quote,'s']

end Sample
end DefaultLiterals
end Allama

import Mathlib
import Allama.Identifiers

/-! The sort values of cursors (`pagination.py`), whose types are guessed again when a cursor is decoded. -/
namespace Allama
namespace CursorValues
section Dates

def isLeap (year : ℕ) : Bool := decide (year % 4 = 0) && (decide (year % 100 ≠ 0) || decide (year % 400 = 0))

def monthLengths (year : ℕ) : List ℕ := [31,if isLeap year then 29 else 28,31,30,31,30,31,31,30,31,30,31]

def yearLength (year : ℕ) : ℕ := if isLeap year then 366 else 365

/-- The fields of a `datetime`; `offset` is that of its time zone in microseconds, if it has one. -/
structure Fields where
  year : ℕ
  month : ℕ
  day : ℕ
  hour : ℕ
  minute : ℕ
  second : ℕ
  microsecond : ℕ
  offset : Option ℤ
  deriving DecidableEq

/-- The checks of the constructor of `datetime` and of `timezone`. -/
def Fields.Valid (f : Fields) : Prop :=
  1 ≤ f.year ∧ f.year ≤ 9999 ∧ 1 ≤ f.month ∧ f.month ≤ 12 ∧ 1 ≤ f.day ∧ f.day ≤ (monthLengths f.year).getD (f.month - 1) 0 ∧
    f.hour < 24 ∧ f.minute < 60 ∧ f.second < 60 ∧ f.microsecond < 1000000 ∧ ∀ o ∈ f.offset, -86400000000 < o ∧ o < 86400000000

instance (f : Fields) : Decidable f.Valid := by
  unfold Fields.Valid
  infer_instance

abbrev DateTime := { f : Fields // f.Valid }

def firstWeekday (year : ℕ) : ℕ := ((year - 1) * 365 + (year - 1) / 4 - (year - 1) / 100 + (year - 1) / 400) % 7

/-- The month and the day, `days` days after the first of the month. -/
def walkMonths : ℕ → List ℕ → ℕ → ℕ × ℕ
  | month, [], days => (month,days + 1)
  | month, length :: lengths, days => if days < length then (month,days + 1) else walkMonths (month + 1) lengths (days - length)

/-- The date of a day of an ISO week. -/
def isoToYmd (year week day : ℕ) : Option (ℕ × ℕ × ℕ) :=
  let weekday := firstWeekday year
  let long := decide (weekday = 3) || (decide (weekday = 2) && isLeap year)
  if year = 0 || week = 0 || decide (53 < week) || (decide (week = 53) && !long) || day = 0 || decide (7 < day) then none
  else
    -- days from the first of January to the day, which may lie in the year before or after
    let days : ℤ := ((week - 1) * 7 + (day - 1) : ℕ) - weekday + if 3 < weekday then 7 else 0
    if days < 0 then
      let (month,day) := walkMonths 1 (monthLengths (year - 1)) (days + yearLength (year - 1)).toNat
      some (year - 1,month,day)
    else if (yearLength year : ℤ) ≤ days then
      let (month,day) := walkMonths 1 (monthLengths (year + 1)) (days - yearLength year).toNat
      some (year + 1,month,day)
    else
      let (month,day) := walkMonths 1 (monthLengths year) days.toNat
      some (year,month,day)

end Dates

section Texts

def digit (c : Char) : Option ℕ := if '0' ≤ c ∧ c ≤ '9' then some (c.toNat - '0'.toNat) else none

def two (a b : Char) : Option ℕ := (digit a).bind fun m => (digit b).map fun n => 10 * m + n

def four (a b c d : Char) : Option ℕ := (two a b).bind fun m => (two c d).map fun n => 100 * m + n

/-- The calendar and week dates of ISO 8601 that name a day or a week. -/
def parseDate : Text → Option (ℕ × ℕ × ℕ)
  | [a,b,c,d,'-',e,f,'-',g,h] =>
    if e = 'W' then none
    else (four a b c d).bind fun year => (two e f).bind fun month => (two g h).map fun day => (year,month,day)
  | [a,b,c,d,'-','W',e,f] => (four a b c d).bind fun year => (two e f).bind fun week => isoToYmd year week 1
  | [a,b,c,d,'W',e,f,g] =>
    (four a b c d).bind fun year => (two e f).bind fun week => (digit g).bind fun day => isoToYmd year week day
  | [a,b,c,d,'W',e,f] => (four a b c d).bind fun year => (two e f).bind fun week => isoToYmd year week 1
  | [a,b,c,d,e,f,g,h] =>
    (four a b c d).bind fun year => (two e f).bind fun month => (two g h).map fun day => (year,month,day)
  | [a,b,c,d,'-','W',e,f,'-',g] =>
    (four a b c d).bind fun year => (two e f).bind fun week => (digit g).bind fun day => isoToYmd year week day
  | _ => none

def isDigit (c : Char) : Bool := (digit c).isSome

/-- `_find_isoformat_datetime_separator`: where the date ends, unless it is a week that breaks off behind a hyphen. -/
def separatorLocation (text : Text) : Option ℕ :=
  if text.length = 7 then some 7
  else if text[4]? = some '-' then
    if text[5]? = some 'W' then
      if text[8]? = some '-' then
        if text.length = 9 then none else if text[10]?.any isDigit then some 8 else some 10
      else some 8
    else some 10
  else if text[4]? = some 'W' then
    let pos := 7 + ((text.drop 7).takeWhile isDigit).length
    some (if pos < 9 then pos else if pos % 2 = 0 then 7 else 8)
  else some 8

/-- The digits of a fraction as microseconds, and whether the text ends behind them; those after the sixth are dropped. -/
def parseFraction (text : Text) : Option (ℕ × Bool) :=
  let digits := text.take 6
  if digits = [] then none
  else (digits.mapM digit).map fun ds =>
    (ds.foldl (fun value d => 10 * value + d) 0 * 10 ^ (6 - ds.length),
      ((text.drop 6).dropWhile isDigit).head?.all (· = '\x00'))

/-- The loop of `parse_hh_mm_ss_ff`, which reads `k` numbers more: the numbers, the microseconds, and whether the text ends
there. The character behind the first number decides on `has_separator`; a single one at the end is passed over. -/
def parseNumbers (has_separator : Option Bool) : ℕ → Text → Option (List ℕ × ℕ × Bool)
  | 0, text => (parseFraction text).map fun fraction => ([],fraction)
  | k + 1, a :: b :: rest =>
    (two a b).bind fun value =>
      match rest with
      | [] => some ([value],0,true)
      | [c] => if c.toNat < 128 then some ([value],0,decide (c = '\x00')) else none
      | c :: rest =>
        let has_separator := has_separator.getD (c = ':')
        if has_separator && c = ':' then
          (parseNumbers (some has_separator) k rest).map fun (values,fraction) => (value :: values,fraction)
        else if c = '.' ∨ c = ',' then (parseFraction rest).map fun fraction => ([value],fraction)
        else if has_separator then none
        else (parseNumbers (some has_separator) k (c :: rest)).map fun (values,fraction) => (value :: values,fraction)
  | _, _ => none

def parseClock (text : Text) : Option ((ℕ × ℕ × ℕ × ℕ) × Bool) :=
  (parseNumbers none 3 text).map fun (values,microsecond,ended) =>
    ((values.getD 0 0,values.getD 1 0,values.getD 2 0,microsecond),ended)

def startsZone (c : Char) : Bool := c = '+' || c = '-' || c = 'Z'

/-- The offset that a time ends in: `Z` or a sign and a clock, which is UTC for no whole second. -/
def parseZone : Text → Option ℤ
  | [] => none
  | sign :: clock =>
    if sign = 'Z' then if clock.head?.all (· = '\x00') then some 0 else none
    else (parseClock clock).bind fun ((hour,minute,second,microsecond),ended) =>
      let tzoffset := hour * 3600 + minute * 60 + second
      if ended then
        some (if tzoffset = 0 then 0 else (if sign = '-' then -1 else 1) * ((tzoffset * 1000000 + microsecond : ℕ) : ℤ))
      else none

/-- `parse_isoformat_time`. -/
def parseTime (text : Text) : Option ((ℕ × ℕ × ℕ × ℕ) × Option ℤ) :=
  (parseClock (text.takeWhile fun c => !startsZone c)).bind fun (clock,ended) =>
    match text.dropWhile fun c => !startsZone c with
    | [] => if ended then some (clock,none) else none
    | zone => (parseZone zone).map fun offset => (clock,some offset)

def makeDateTime (date : ℕ × ℕ × ℕ) (time : (ℕ × ℕ × ℕ × ℕ) × Option ℤ) : Option DateTime :=
  let f : Fields := ⟨date.1,date.2.1,date.2.2,time.1.1,time.1.2.1,time.1.2.2.1,time.1.2.2.2,time.2⟩
  if h : f.Valid then some ⟨f,h⟩ else none

/-- `datetime.fromisoformat` (Python 3.12), with any character between the date and the time; none is its `ValueError`. -/
def fromisoformat (text : Text) : Option DateTime :=
  if text.length < 7 then none
  else (separatorLocation text).bind fun location =>
    (parseDate (text.take location)).bind fun date =>
      match text.drop location with
      | [] => makeDateTime date ((0,0,0,0),none)
      | _ :: time => (parseTime time).bind (makeDateTime date)

/-- `v.replace("Z", "+00:00")`. -/
def replaceZ (text : Text) : Text := text.flatMap fun c => if c = 'Z' then "+00:00".toList else [c]

def digitChar (n : ℕ) : Char := Char.ofNat ('0'.toNat + n % 10)

def pad2 (n : ℕ) : Text := [digitChar (n / 10),digitChar n]

def pad4 (n : ℕ) : Text := pad2 (n / 100) ++ pad2 (n % 100)

def pad6 (n : ℕ) : Text := pad2 (n / 10000) ++ pad4 (n % 10000)

/-- The text of a datetime whose offset is in minutes. -/
def isoText (d : Fields) : Text :=
  pad4 d.year ++ ['-'] ++ pad2 d.month ++ ['-'] ++ pad2 d.day ++ ['T'] ++ pad2 d.hour ++ [':'] ++ pad2 d.minute ++ [':'] ++
    pad2 d.second ++ (if d.microsecond = 0 then [] else '.' :: pad6 d.microsecond) ++
    match d.offset with
    | none => []
    | some o =>
      if o = 0 then ['Z']
      else (if o < 0 then '-' else '+') :: pad2 (o.natAbs / 3600000000) ++ [':'] ++ pad2 (o.natAbs / 60000000 % 60)

end Texts

section Cursors
variable {F C : Type}

/-- `sort_value`; `F` are the floats. -/
inductive SortValue (F : Type)
  | none
  | str (s : Text)
  | int (n : ℤ)
  | float (f : F)
  | datetime (d : DateTime)

structure CursorData (F : Type) where
  id : Text
  sort_column : Option Text
  sort_value : SortValue F

inductive Json (F : Type)
  | null
  | str (s : Text)
  | int (n : ℤ)
  | float (f : F)

/-- The object in the text of a cursor. -/
structure JsonCursor (F : Type) where
  id : Text
  sort_column : Option Text
  sort_value : Json F

/-- The packages that write and read the text of a cursor, and the floats; `C` are the texts of cursors. -/
structure Packages (F C : Type) where
  finite : F → Bool
  /-- The text of a datetime in `model_dump_json`. -/
  dumpDatetime : DateTime → Text
  /-- The JSON text in base64; none is an error. -/
  dumps : JsonCursor F → Option C
  loads : C → Option (JsonCursor F)

/-- An integer that `json.loads` reads: at most 4300 digits. -/
def Readable (n : ℤ) : Prop := (Nat.digits 10 n.natAbs).length ≤ 4300

/-- What the packages document: JSON is read as it was written, but for integers over the limit of digits, and a datetime
whose offset is of whole minutes is written in ISO 8601. -/
structure Packages.Lawful (p : Packages F C) : Prop where
  reads : ∀ j : JsonCursor F, (∀ n, j.sort_value = .int n → Readable n) → ∃ text, p.dumps j = some text ∧ p.loads text = some j
  limit : ∀ (j : JsonCursor F) n, j.sort_value = .int n → ¬ Readable n → (p.dumps j).bind p.loads = none
  datetimes : ∀ d : DateTime, (∀ o ∈ d.1.offset, (60000000 : ℤ) ∣ o) → p.dumpDatetime d = isoText d.1

/-- `parse_datetime_string`, which runs before the validation of the field. -/
def parseDatetimeString : SortValue F → SortValue F
  | .str s =>
    match fromisoformat (replaceZ s) with
    | some d => .datetime d
    | none => .str s
  | v => v

/-- The field in `model_dump_json`: floats that are not finite are null. -/
def dumpSortValue (p : Packages F C) : SortValue F → Json F
  | .none => .null
  | .str s => .str s
  | .int n => .int n
  | .float f => if p.finite f then .float f else .null
  | .datetime d => .str (p.dumpDatetime d)

/-- `CursorData(...)` of a value in JSON. -/
def loadSortValue : Json F → SortValue F
  | .null => parseDatetimeString .none
  | .str s => parseDatetimeString (.str s)
  | .int n => parseDatetimeString (.int n)
  | .float f => parseDatetimeString (.float f)

def encodeCursor (p : Packages F C) (data : CursorData F) : Option C :=
  p.dumps ⟨data.id,data.sort_column,dumpSortValue p (parseDatetimeString data.sort_value)⟩

def decodeCursor (p : Packages F C) (cursor : C) : Option (CursorData F) :=
  (p.loads cursor).map fun j => ⟨j.id,j.sort_column,loadSortValue j.sort_value⟩

/-- The sort value comes back as it was, its type included. -/
def RoundTrips (p : Packages F C) (data : CursorData F) : Prop := (encodeCursor p data).bind (decodeCursor p) = some data

/-- A text that is no datetime, a float that is finite, an integer under the limit, and a datetime whose text reads as it. -/
def Faithful (p : Packages F C) : SortValue F → Prop
  | .none => True
  | .str s => fromisoformat (replaceZ s) = none
  | .int n => Readable n
  | .float f => p.finite f = true
  | .datetime d => fromisoformat (replaceZ (p.dumpDatetime d)) = some d

end Cursors

section Reading

theorem digit_ofNat : ∀ k < 10, digit (Char.ofNat ('0'.toNat + k)) = some k := by decide

theorem digit_digitChar (n : ℕ) : digit (digitChar n) = some (n % 10) := digit_ofNat _ (Nat.mod_lt _ (by decide))

theorem digitChar_ne (n : ℕ) : digitChar n ≠ 'W' ∧ digitChar n ≠ 'Z' ∧ startsZone (digitChar n) = false := by
  have hall : ∀ k < 10, Char.ofNat ('0'.toNat + k) ≠ 'W' ∧ Char.ofNat ('0'.toNat + k) ≠ 'Z' ∧
      startsZone (Char.ofNat ('0'.toNat + k)) = false := by decide
  exact hall _ (Nat.mod_lt _ (by decide))

theorem two_digitChar {m n : ℕ} : two (digitChar m) (digitChar n) = some (10 * (m % 10) + n % 10) := by
  unfold two
  rw [digit_digitChar,digit_digitChar]
  rfl

theorem two_pad {n : ℕ} (h : n < 100) : two (digitChar (n / 10)) (digitChar n) = some n := by
  rw [two_digitChar]
  congr 1
  omega

theorem four_pad {n : ℕ} (h : n < 10000) :
    four (digitChar (n / 100 / 10)) (digitChar (n / 100)) (digitChar (n % 100 / 10)) (digitChar (n % 100)) = some n := by
  unfold four
  rw [two_pad (by omega),two_pad (Nat.mod_lt _ (by decide))]
  change some (100 * (n / 100) + n % 100) = some n
  congr 1
  omega

theorem parseFraction_pad6 {n : ℕ} (h : n < 1000000) : parseFraction (pad6 n) = some (n,true) := by
  have hsix : (pad6 n).take 6 = pad6 n := rfl
  have hdigits : (pad6 n).mapM digit = some [n / 10000 / 10 % 10,n / 10000 % 10,n % 10000 / 100 / 10 % 10,
      n % 10000 / 100 % 10,n % 10000 % 100 / 10 % 10,n % 10000 % 100 % 10] := by
    unfold pad6 pad4 pad2
    simp only [List.cons_append,List.nil_append,List.mapM_cons,List.mapM_nil,digit_digitChar]
    rfl
  unfold parseFraction
  dsimp only
  rw [hsix,if_neg (show pad6 n ≠ [] from List.cons_ne_nil _ _),hdigits]
  simp only [Option.map_some,List.foldl_cons,List.foldl_nil,List.length_cons,List.length_nil]
  congr 2
  omega

def clockText (f : Fields) : Text :=
  pad2 f.hour ++ [':'] ++ pad2 f.minute ++ [':'] ++ pad2 f.second ++ (if f.microsecond = 0 then [] else '.' :: pad6 f.microsecond)

theorem parseNumbers_colon (has_separator : Option Bool) (h : has_separator.getD true = true) {k n : ℕ} (hn : n < 100)
    {rest : Text} (hrest : rest ≠ []) :
    parseNumbers has_separator (k + 1) (pad2 n ++ ':' :: rest) =
      (parseNumbers (some true) k rest).map fun (values,fraction) => (n :: values,fraction) := by
  obtain ⟨d,rest,rfl⟩ := List.exists_cons_of_ne_nil hrest
  have hcolon : (has_separator.getD (decide (':' = ':'))) = true := h
  unfold pad2
  rw [List.cons_append,List.cons_append,List.nil_append,parseNumbers,two_pad hn]
  change (if (has_separator.getD (decide (':' = ':')) && decide (':' = ':')) = true then _ else _) = _
  rw [hcolon]
  rfl

theorem parseNumbers_end {has_separator : Option Bool} {k n : ℕ} (hn : n < 100) :
    parseNumbers has_separator (k + 1) (pad2 n) = some ([n],0,true) := by
  unfold pad2
  rw [parseNumbers,two_pad hn]
  rfl

theorem parseNumbers_dot {k n : ℕ} (hn : n < 100) {rest : Text} (hrest : rest ≠ []) :
    parseNumbers (some true) (k + 1) (pad2 n ++ '.' :: rest) = (parseFraction rest).map fun fraction => ([n],fraction) := by
  obtain ⟨d,rest,rfl⟩ := List.exists_cons_of_ne_nil hrest
  unfold pad2
  rw [List.cons_append,List.cons_append,List.nil_append,parseNumbers,two_pad hn]
  rfl

theorem parseClock_clockText {f : Fields} (hhour : f.hour < 24) (hminute : f.minute < 60) (hsecond : f.second < 60)
    (hmicrosecond : f.microsecond < 1000000) :
    parseClock (clockText f) = some ((f.hour,f.minute,f.second,f.microsecond),true) := by
  have hseconds : parseNumbers (some true) 1 (pad2 f.second ++ if f.microsecond = 0 then [] else '.' :: pad6 f.microsecond) =
      some ([f.second],f.microsecond,true) := by
    split_ifs with hzero
    · rw [List.append_nil,parseNumbers_end (by omega),hzero]
    · rw [parseNumbers_dot (by omega) (show pad6 f.microsecond ≠ [] from List.cons_ne_nil _ _),parseFraction_pad6 hmicrosecond]
      rfl
  have hne : ∀ n t, pad2 n ++ t ≠ [] := fun _ _ => List.cons_ne_nil _ _
  unfold parseClock clockText
  simp only [List.append_assoc,List.cons_append,List.nil_append]
  rw [parseNumbers_colon none rfl (by omega) (hne _ _),
    parseNumbers_colon (some true) rfl (by omega) (hne _ _),hseconds]
  rfl

/-- What is written of an offset after `Z` is replaced. -/
def zoneText : Option ℤ → Text
  | none => []
  | some o => (if o < 0 then '-' else '+') :: pad2 (o.natAbs / 3600000000) ++ [':'] ++ pad2 (o.natAbs / 60000000 % 60)

theorem parseZone_zoneText {o : ℤ} (hlow : -86400000000 < o) (hhigh : o < 86400000000) (hdvd : (60000000 : ℤ) ∣ o) :
    parseZone (zoneText (some o)) = some o := by
  have hclock : parseClock (pad2 (o.natAbs / 3600000000) ++ [':'] ++ pad2 (o.natAbs / 60000000 % 60)) =
      some ((o.natAbs / 3600000000,o.natAbs / 60000000 % 60,0,0),true) := by
    unfold parseClock
    rw [List.append_assoc,List.singleton_append,parseNumbers_colon none rfl (by omega) (show pad2 _ ≠ [] from List.cons_ne_nil _ _),
      parseNumbers_end (by omega)]
    rfl
  have hwhole : (o.natAbs / 3600000000 * 3600 + o.natAbs / 60000000 % 60 * 60 + 0) * 1000000 + 0 = o.natAbs := by omega
  have hcons : zoneText (some o) = (if o < 0 then '-' else '+') ::
      (pad2 (o.natAbs / 3600000000) ++ [':'] ++ pad2 (o.natAbs / 60000000 % 60)) := rfl
  rw [hcons,parseZone]
  dsimp only
  rw [if_neg (by split_ifs <;> decide),hclock,Option.bind_some]
  dsimp only
  rw [if_pos rfl,hwhole]
  congr 1
  by_cases hzero : o.natAbs / 3600000000 * 3600 + o.natAbs / 60000000 % 60 * 60 + 0 = 0
  · rw [if_pos hzero]
    omega
  · rw [if_neg hzero]
    by_cases hneg : o < 0
    · rw [if_pos hneg,if_pos rfl]
      omega
    · rw [if_neg hneg,if_neg (by decide)]
      omega

theorem forall_clockText {P : Char → Prop} (hdigit : ∀ n, P (digitChar n)) (hcolon : P ':') (hdot : P '.') (f : Fields) :
    ∀ c ∈ clockText f, P c := by
  have hpad : ∀ n, ∀ c ∈ pad2 n, P c := by
    intro n c hc
    obtain rfl | hc := List.mem_cons.mp hc
    · exact hdigit _
    · obtain rfl := List.mem_singleton.mp hc
      exact hdigit _
  have hcolons : ∀ c ∈ [':'], P c := by
    intro c hc
    obtain rfl := List.mem_singleton.mp hc
    exact hcolon
  unfold clockText
  simp only [List.forall_mem_append]
  refine ⟨⟨⟨⟨⟨hpad _,hcolons⟩,hpad _⟩,hcolons⟩,hpad _⟩,?_⟩
  split_ifs
  · intro c hc
    cases hc
  · unfold pad6 pad4
    rw [List.forall_mem_cons]
    simp only [List.forall_mem_append]
    exact ⟨hdot,hpad _,hpad _,hpad _⟩

theorem parseTime_text {f : Fields} (h : f.Valid) (hminutes : ∀ o ∈ f.offset, (60000000 : ℤ) ∣ o) :
    parseTime (clockText f ++ zoneText f.offset) =
      some ((f.hour,f.minute,f.second,f.microsecond),f.offset) := by
  obtain ⟨-,-,-,-,-,-,hhour,hminute,hsecond,hmicrosecond,hbound⟩ := h
  have hclock : ∀ c ∈ clockText f, (!startsZone c) = true := by
    apply forall_clockText
    · intro n
      rw [(digitChar_ne n).2.2]
      rfl
    · decide
    · decide
  unfold parseTime
  rw [List.takeWhile_append_of_pos hclock,List.dropWhile_append_of_pos hclock]
  cases hoffset : f.offset with
  | none =>
    rw [zoneText,List.takeWhile_nil,List.append_nil,parseClock_clockText hhour hminute hsecond hmicrosecond]
    rfl
  | some o =>
    obtain ⟨hlow,hhigh⟩ := hbound o hoffset
    have hzone := parseZone_zoneText hlow hhigh (hminutes o hoffset)
    have hsign : startsZone (if o < 0 then '-' else '+') = true := by split_ifs <;> rfl
    have hcons : zoneText (some o) = (if o < 0 then '-' else '+') ::
        (pad2 (o.natAbs / 3600000000) ++ [':'] ++ pad2 (o.natAbs / 60000000 % 60)) := rfl
    rw [hcons] at hzone ⊢
    rw [List.takeWhile_cons_of_neg (by rw [hsign]; decide),List.dropWhile_cons_of_neg (by rw [hsign]; decide),List.append_nil,
      parseClock_clockText hhour hminute hsecond hmicrosecond,Option.bind_some]
    dsimp only
    rw [hzone]
    rfl

def dateText (f : Fields) : Text := pad4 f.year ++ ['-'] ++ pad2 f.month ++ ['-'] ++ pad2 f.day ++ ['T']

theorem replaceZ_of_notMem {text : Text} (h : ∀ c ∈ text, c ≠ 'Z') : replaceZ text = text := by
  unfold replaceZ
  induction text with
  | nil => rfl
  | cons c text ih =>
    rw [List.flatMap_cons,if_neg (h c List.mem_cons_self),ih fun d hd => h d (List.mem_cons_of_mem _ hd)]
    rfl

/-- With `Z` replaced, every offset is a sign, hours and minutes. -/
theorem replaceZ_isoText (f : Fields) : replaceZ (isoText f) = dateText f ++ (clockText f ++ zoneText f.offset) := by
  have hpad : ∀ n, ∀ c ∈ pad2 n, c ≠ 'Z' := by
    intro n c hc
    obtain rfl | hc := List.mem_cons.mp hc
    · exact (digitChar_ne _).2.1
    · obtain rfl := List.mem_singleton.mp hc
      exact (digitChar_ne _).2.1
  have hdate : ∀ c ∈ dateText f, c ≠ 'Z' := by
    unfold dateText pad4
    simp only [List.forall_mem_append,List.forall_mem_cons]
    exact ⟨⟨⟨⟨⟨⟨hpad _,hpad _⟩,by decide,List.forall_mem_nil _⟩,hpad _⟩,by decide,List.forall_mem_nil _⟩,hpad _⟩,by decide,
      List.forall_mem_nil _⟩
  have hclock : ∀ c ∈ clockText f, c ≠ 'Z' := forall_clockText (fun n => (digitChar_ne n).2.1) (by decide) (by decide) f
  have hsplit : isoText f = (dateText f ++ clockText f) ++ match f.offset with
      | none => []
      | some o =>
        if o = 0 then ['Z']
        else (if o < 0 then '-' else '+') :: pad2 (o.natAbs / 3600000000) ++ [':'] ++ pad2 (o.natAbs / 60000000 % 60) := by
    unfold isoText dateText clockText
    simp only [List.append_assoc]
  have happend : ∀ s t, replaceZ (s ++ t) = replaceZ s ++ replaceZ t := fun s t => List.flatMap_append
  rw [hsplit,happend,happend,replaceZ_of_notMem hdate,replaceZ_of_notMem hclock,List.append_assoc]
  congr 2
  cases f.offset with
  | none => rfl
  | some o =>
    dsimp only
    by_cases hzero : o = 0
    · rw [if_pos hzero,hzero]
      decide
    · rw [if_neg hzero]
      apply replaceZ_of_notMem
      simp only [List.forall_mem_append,List.forall_mem_cons,List.cons_append]
      refine ⟨?_,⟨⟨hpad _,by decide,List.forall_mem_nil _⟩,hpad _⟩⟩
      split_ifs
      · decide
      · decide

theorem makeDateTime_eq {f : Fields} (h : f.Valid) :
    makeDateTime (f.year,f.month,f.day) ((f.hour,f.minute,f.second,f.microsecond),f.offset) = some ⟨f,h⟩ := dif_pos h

theorem parseDate_day {f : Fields} (hyear : f.year ≤ 9999) (hmonth : f.month ≤ 12) (hday : f.day < 100) :
    parseDate (pad4 f.year ++ ['-'] ++ pad2 f.month ++ ['-'] ++ pad2 f.day) = some (f.year,f.month,f.day) := by
  unfold pad4 pad2
  change (if digitChar (f.month / 10) = 'W' then none else
    (four (digitChar (f.year / 100 / 10)) (digitChar (f.year / 100)) (digitChar (f.year % 100 / 10)) (digitChar (f.year % 100))).bind
      fun year => (two (digitChar (f.month / 10)) (digitChar f.month)).bind fun month =>
        (two (digitChar (f.day / 10)) (digitChar f.day)).map fun day => (year,month,day)) = _
  rw [if_neg (digitChar_ne _).1,four_pad (by omega),two_pad (by omega),two_pad hday]
  rfl

theorem day_lt {f : Fields} (h : f.Valid) : f.day < 100 := by
  obtain ⟨-,-,-,-,-,hday,-⟩ := h
  have hall : ∀ month < 12, ∀ leap : Bool,
      ([31,if leap then 29 else 28,31,30,31,30,31,31,30,31,30,31] : List ℕ).getD month 0 ≤ 31 := by decide
  by_cases hmonth : f.month - 1 < 12
  · have := hall _ hmonth (isLeap f.year)
    unfold monthLengths at hday
    omega
  · rw [List.getD_eq_default _ _ (Nat.le_of_not_lt hmonth)] at hday
    omega

theorem fromisoformat_isoText {f : Fields} (h : f.Valid) (hminutes : ∀ o ∈ f.offset, (60000000 : ℤ) ∣ o) :
    fromisoformat (replaceZ (isoText f)) = some ⟨f,h⟩ := by
  have htime := parseTime_text h hminutes
  have hdate := parseDate_day h.2.1 h.2.2.2.1 (day_lt h)
  rw [replaceZ_isoText]
  have hlocation : separatorLocation (dateText f ++ (clockText f ++ zoneText f.offset)) = some 10 := by
    unfold separatorLocation
    rw [if_neg (by simp [dateText,pad4,pad2])]
    change (if (some '-' : Option Char) = some '-' then if some (digitChar (f.month / 10)) = some 'W' then _ else _ else _) = _
    rw [if_pos rfl,if_neg fun heq => (digitChar_ne _).1 (Option.some.inj heq)]
  unfold fromisoformat
  rw [if_neg (by simp [dateText,pad4,pad2]),hlocation,Option.bind_some]
  change (parseDate (pad4 f.year ++ ['-'] ++ pad2 f.month ++ ['-'] ++ pad2 f.day)).bind _ = _
  rw [hdate,Option.bind_some]
  change (parseTime (clockText f ++ zoneText f.offset)).bind (makeDateTime (f.year,f.month,f.day)) = _
  rw [htime]
  exact makeDateTime_eq h

end Reading

section RoundTrip
variable {F C : Type} {p : Packages F C}

/-- A sort value comes back if and only if its text is not taken for another value. -/
theorem roundTrips_iff (hp : p.Lawful) (data : CursorData F) : RoundTrips p data ↔ Faithful p data.sort_value := by
  obtain ⟨id,sort_column,sort_value⟩ := data
  -- what is read is what is written, but for integers over the limit
  have hread : ∀ j : Json F, (∀ n, j = .int n → Readable n) →
      (p.dumps ⟨id,sort_column,j⟩).bind (decodeCursor p) = some ⟨id,sort_column,loadSortValue j⟩ := by
    intro j hj
    obtain ⟨text,hdump,hload⟩ := hp.reads ⟨id,sort_column,j⟩ hj
    rw [hdump]
    change (p.loads text).map _ = _
    rw [hload]
    rfl
  have hsame : ∀ v : SortValue F, (some (⟨id,sort_column,v⟩ : CursorData F) = some ⟨id,sort_column,sort_value⟩) ↔ v = sort_value := by
    intro v
    constructor
    · intro heq
      exact congrArg CursorData.sort_value (Option.some.inj heq)
    · intro heq
      rw [heq]
  unfold RoundTrips encodeCursor
  dsimp only
  cases sort_value with
  | none =>
    change (p.dumps ⟨id,sort_column,.null⟩).bind _ = _ ↔ True
    rw [hread .null (fun n hn => by cases hn)]
    exact ⟨fun _ => trivial,fun _ => rfl⟩
  | str s =>
    change _ ↔ fromisoformat (replaceZ s) = none
    unfold parseDatetimeString
    cases hguess : fromisoformat (replaceZ s) with
    | none =>
      simp only [hguess]
      change (p.dumps ⟨id,sort_column,.str s⟩).bind _ = _ ↔ _
      rw [hread (.str s) (fun n hn => by cases hn),hsame]
      refine ⟨fun _ => trivial,fun _ => ?_⟩
      unfold loadSortValue parseDatetimeString
      dsimp only
      rw [hguess]
    | some d =>
      simp only [hguess]
      change (p.dumps ⟨id,sort_column,.str (p.dumpDatetime d)⟩).bind _ = _ ↔ _
      rw [hread (.str _) (fun n hn => by cases hn),hsame]
      refine ⟨fun heq => ?_,fun hnone => (by cases hnone)⟩
      unfold loadSortValue parseDatetimeString at heq
      dsimp only at heq
      split at heq
      · cases heq
      · rename_i hagain
        rw [SortValue.str.inj heq,hguess] at hagain
        cases hagain
  | int n =>
    change (p.dumps ⟨id,sort_column,.int n⟩).bind _ = _ ↔ Readable n
    by_cases hn : Readable n
    · rw [hread (.int n) (fun m hm => Json.int.inj hm ▸ hn)]
      exact ⟨fun _ => hn,fun _ => rfl⟩
    · have hnone : (p.dumps ⟨id,sort_column,.int n⟩).bind (decodeCursor p) = none := by
        have hlimit := hp.limit ⟨id,sort_column,.int n⟩ n rfl hn
        cases hdump : p.dumps ⟨id,sort_column,.int n⟩ with
        | none => rfl
        | some text =>
          rw [hdump] at hlimit
          change (p.loads text).map _ = none
          rw [show p.loads text = none from hlimit]
          rfl
      rw [hnone]
      exact ⟨fun heq => (by cases heq),fun h => absurd h hn⟩
  | float f =>
    change (p.dumps ⟨id,sort_column,if p.finite f then .float f else .null⟩).bind _ = _ ↔ p.finite f = true
    split_ifs with hfinite
    · rw [hread (.float f) (fun n hn => by cases hn)]
      exact ⟨fun _ => hfinite,fun _ => rfl⟩
    · rw [hread .null (fun n hn => by cases hn),hsame]
      exact ⟨fun heq => (by cases heq),fun h => absurd h hfinite⟩
  | datetime d =>
    change (p.dumps ⟨id,sort_column,.str (p.dumpDatetime d)⟩).bind _ = _ ↔ fromisoformat (replaceZ (p.dumpDatetime d)) = some d
    rw [hread (.str _) (fun n hn => by cases hn),hsame]
    unfold loadSortValue parseDatetimeString
    dsimp only
    cases fromisoformat (replaceZ (p.dumpDatetime d)) with
    | none => exact ⟨fun heq => (by cases heq),fun heq => (by cases heq)⟩
    | some d' =>
      constructor
      · intro heq
        rw [SortValue.datetime.inj heq]
      · intro heq
        rw [Option.some.inj heq]

/-- Cursors are faithful exactly to these values, and to every datetime whose offset is of whole minutes. -/
theorem cursors_faithful_iff (hp : p.Lawful) :
    (∀ data : CursorData F, RoundTrips p data ↔ Faithful p data.sort_value) ∧
    ∀ d : DateTime, (∀ o ∈ d.1.offset, (60000000 : ℤ) ∣ o) → Faithful p (.datetime d) := by
  refine ⟨roundTrips_iff hp,?_⟩
  intro d hminutes
  unfold Faithful
  dsimp only
  rw [hp.datetimes d hminutes]
  exact fromisoformat_isoText d.2 hminutes

end RoundTrip

section Sample

instance (n : ℤ) : Decidable (Readable n) := inferInstanceAs (Decidable (_ ≤ _))

/-- Cursors that are the objects themselves, with the rationals and one value that is not finite for the floats. -/
def plainPackages : Packages (Option ℚ) (JsonCursor (Option ℚ)) where
  finite := Option.isSome
  dumpDatetime := fun d => isoText d.1
  dumps := some
  loads := fun j => match j.sort_value with
    | .int n => if Readable n then some j else none
    | _ => some j

theorem plainPackages_lawful : plainPackages.Lawful where
  reads := by
    rintro ⟨id,sort_column,sort_value⟩ h
    refine ⟨_,rfl,?_⟩
    cases sort_value with
    | int n =>
      unfold plainPackages
      dsimp only
      rw [if_pos (h n rfl)]
    | null => rfl
    | str s => rfl
    | float f => rfl
  limit := by
    rintro ⟨id,sort_column,sort_value⟩ n hn h
    obtain rfl : sort_value = .int n := hn
    unfold plainPackages
    change (if Readable n then _ else none) = none
    rw [if_neg h]
  datetimes := fun _ _ => rfl

theorem cursors_faithful_iff_plain :
    (∀ data : CursorData (Option ℚ), RoundTrips plainPackages data ↔ Faithful plainPackages data.sort_value) ∧
    ∀ d : DateTime, (∀ o ∈ d.1.offset, (60000000 : ℤ) ∣ o) → Faithful plainPackages (.datetime d) :=
  cursors_faithful_iff plainPackages_lawful

/-- A text of the form of a date comes back as a datetime. -/
theorem cursors_unfaithful :
    plainPackages.Lawful ∧ ¬ RoundTrips plainPackages ⟨"a".toList,some "name".toList,.str "2024-01-01".toList⟩ := by
  refine ⟨plainPackages_lawful,?_⟩
  rw [roundTrips_iff plainPackages_lawful]
  change ¬ fromisoformat (replaceZ "2024-01-01".toList) = none
  decide

end Sample
end CursorValues
end Allama

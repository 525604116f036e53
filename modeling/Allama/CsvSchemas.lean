import Mathlib
import Allama.CsvImport
import Allama.DefaultLiterals

/-! The schema that is inferred from a CSV file (`CSVSchemaInferer`), and the values that its cells become. -/
namespace Allama
namespace CsvSchemas
open Tables
open TableDdl (DdlPackages systemColumns)
open DefaultLiterals (InRange texts)
variable (base : Text) (header : String) (used : List Text)
section Names
variable {D T : Type} (q : DdlPackages D T)

def candidate (raw : String) : Text :=
  (q.lower (String.ofList ((strip raw.toList).filter fun c => q.isAlnum c || c = '_'))).toList

/-- `_normalise_identifier`; `stem` is the prefix. -/
def normaliseIdentifier (raw : String) (stem : Text) : Text :=
  let name := if candidate q raw = [] then stem else candidate q raw
  if name.head?.any q.isAlpha then name else stem ++ '_' :: name

def numbered (base : Text) (suffix : ℕ) : Text := base ++ '_' :: (toString suffix).toList

/-- The loop of `_ensure_unique_identifier`, from a suffix on. -/
def nextUnused (base : Text) (used : List Text) : ℕ → ℕ → Text
  | 0, suffix => numbered base suffix
  | fuel+1, suffix => if used.contains (numbered base suffix) then nextUnused base used fuel (suffix + 1) else numbered base suffix

/-- `_ensure_unique_identifier`; of one suffix more than there are names, one is free. -/
def ensureUniqueIdentifier (base : Text) (used : List Text) : Text :=
  if used.contains base then nextUnused base used used.length 1 else base

/-- The names of headers from an index on. -/
def namesFrom (index : ℕ) (used : List Text) : List String → List Text
  | [] => []
  | header :: headers =>
    let name := ensureUniqueIdentifier (normaliseIdentifier q header ("col_".toList ++ (toString index).toList)) used
    name :: namesFrom (index + 1) (name :: used) headers

def duplicates (headers : List String) : List String :=
  let normalised := headers.map stripped
  (normalised.dedup.filter fun name => decide (1 < normalised.count name)).map fun name => if name = "" then "<empty>" else name

/-- `CSVSchemaInferer(headers)`; a missing header is an empty one. -/
def initialise (headers : List String) : Except WriteError (List (String × String)) :=
  if headers = [] then .error (.importError "CSV file must include a header row")
  else if duplicates headers ≠ [] then
    let shown := ", ".intercalate ((duplicates headers).mergeSort (· ≤ ·))
    .error (.importError s!"CSV headers must be unique. Duplicate columns: {shown}")
  else .ok (headers.zip ((namesFrom q 1 [] headers).map String.ofList))

end Names

section Schemas
variable {D T U S : Type} (p : RowPackages D T U S) (q : DdlPackages D T)

/-- The schema that is inferred from the headers and the lines of a file. -/
def inferSchema (headers : List String) (lines : List CsvLine) : Except WriteError (List InferredCSVColumn) :=
  (initialise q headers).map fun named => inferColumns p named lines

def isWordChar (c : Char) : Bool := c.isAlphanum || c = '_'

/-- `^[a-zA-Z_][a-zA-Z0-9_]*$` (`validate_column_name`). The form alone: the 100 characters of `TableColumnCreate`
and the 63 bytes of a name in PostgreSQL are no part of it. -/
def isIdentifier (name : Text) : Bool := name.head?.any (fun c => c.isAlpha || c = '_') && name.all isWordChar

/-- A value that the type of a column has; `INTEGER` is `BIGINT`, and no text has the character zero. -/
def Fits : SqlType → PyValue D T U → Prop
  | _, .json .none => True
  | .integer, .json (.int n) => InRange n
  | .text, .json (.str s) => Char.ofNat 0 ∉ s.toList
  | .jsonb, .json v => ∀ s ∈ texts v, Char.ofNat 0 ∉ s.toList
  | .boolean, .json (.bool _) => True
  | .numeric, .json (.float _) => True
  | .timestamptz, .datetime _ => True
  | .uuid, .uuid _ => True
  | _, _ => False

/-- Distinct names that are identifiers of no system column, and cells that convert to values that fit. -/
def Sound (lines : List CsvLine) (columns : List InferredCSVColumn) : Prop :=
  (columns.map InferredCSVColumn.name).Nodup ∧
  ∀ column ∈ columns, isIdentifier column.name.toList = true ∧ column.name ∉ systemColumns ∧
    ∀ line ∈ lines, ∃ v, importedValue p column (line column.originalName) = .ok v ∧ Fits column.type v

def cells (header : String) (lines : List CsvLine) : List String :=
  ((lines.filterMap fun line => line header).map stripped).filter (· ≠ "")

/-- A text is read as a value of a type. -/
def reads : SqlType → String → Bool
  | .boolean, s => (matchBool s).isSome
  | .integer, s => (p.int s).isSome
  | .numeric, s => (p.float s).isSome
  | .timestamptz, s => (coerceToUtcDatetime p (.str s)).toOption.isSome
  | .uuid, s => (p.uuid s).isSome
  | .jsonb, s => looksLikeJson s && (p.loads s).isSome
  | _, _ => true

def kind (cells : List String) : SqlType :=
  if cells = [] then .text
  else ([SqlType.boolean,.integer,.numeric,.timestamptz,.uuid,.jsonb].find? fun type => cells.all (reads p type)).getD .text

/-- A cell that the type of its column has. -/
def CellFits : SqlType → String → Prop
  | .integer, s => ∀ n, p.int s = some n → InRange n
  | .jsonb, s => ∀ v, p.loads s = some v → ∀ t ∈ texts v, Char.ofNat 0 ∉ t.toList
  | .text, s => Char.ofNat 0 ∉ s.toList
  | _, _ => True

/-- Headers of ASCII that are no system columns, over cells that fit. -/
def Safe (headers : List String) (lines : List CsvLine) : Prop :=
  ∀ header ∈ headers, (candidate q header).all isWordChar = true ∧ String.ofList (candidate q header) ∉ systemColumns ∧
    ∀ line ∈ lines, ∀ s, line header = some s → stripped s ≠ "" →
      CellFits p (kind p (cells header lines)) (if kind p (cells header lines) = .text then s else stripped s)

end Schemas

section Unique

theorem numbered_inj {base : Text} {m n : ℕ} (h : numbered base m = numbered base n) : m = n := by
  have hdigits := (List.cons.inj (List.append_cancel_left h)).2
  rw [show (toString m).toList = Nat.toDigits 10 m from Nat.toList_repr,
    show (toString n).toList = Nat.toDigits 10 n from Nat.toList_repr] at hdigits
  exact toDigits_inj.mp hdigits

theorem nextUnused_eq (fuel suffix : ℕ) :
    ∃ k, nextUnused base used fuel suffix = numbered base k := by
  induction fuel generalizing suffix with
  | zero => exact ⟨suffix,rfl⟩
  | succ fuel ih =>
    unfold nextUnused
    split_ifs
    · exact ih (suffix + 1)
    · exact ⟨suffix,rfl⟩

theorem used_of_nextUnused {base : Text} {used : List Text} {fuel suffix : ℕ} (h : nextUnused base used fuel suffix ∈ used) :
    ∀ k ≤ fuel, numbered base (suffix + k) ∈ used := by
  induction fuel generalizing suffix with
  | zero =>
    intro k hk
    obtain rfl := Nat.le_zero.mp hk
    exact h
  | succ fuel ih =>
    unfold nextUnused at h
    split_ifs at h with hused
    · intro k hk
      cases k with
      | zero => exact List.contains_iff_mem.mp hused
      | succ k =>
        have := ih h k (Nat.le_of_succ_le_succ hk)
        rwa [Nat.add_right_comm] at this
    · exact absurd (List.contains_iff_mem.mpr h) hused

theorem ensureUniqueIdentifier_notMem : ensureUniqueIdentifier base used ∉ used := by
  unfold ensureUniqueIdentifier
  split_ifs with hbase
  · intro hmem
    have hall := used_of_nextUnused hmem
    -- more names in use than there are
    have hnodup : ((List.range (used.length + 1)).map fun k => numbered base (1 + k)).Nodup :=
      List.Nodup.map (fun m n h => Nat.add_left_cancel (numbered_inj h)) List.nodup_range
    have hsubset : ((List.range (used.length + 1)).map fun k => numbered base (1 + k)) ⊆ used := by
      intro name hname
      obtain ⟨k,hk,rfl⟩ := List.mem_map.mp hname
      exact hall k (Nat.le_of_lt_succ (List.mem_range.mp hk))
    have hlength := (hnodup.subperm hsubset).length_le
    rw [List.length_map,List.length_range] at hlength
    omega
  · exact fun hmem => hbase (List.contains_iff_mem.mpr hmem)

theorem ensureUniqueIdentifier_eq :
    ensureUniqueIdentifier base used = base ∨ ∃ k, ensureUniqueIdentifier base used = numbered base k := by
  unfold ensureUniqueIdentifier
  split_ifs
  · exact .inr (nextUnused_eq base used _ _)
  · exact .inl rfl

variable {D T : Type} {q : DdlPackages D T}

theorem eq_of_mem_names {headers : List String} {header : String} {index : ℕ} {used : List Text} {name : Text}
    (h : (header,name) ∈ headers.zip (namesFrom q index used headers)) :
    ∃ i : ℕ, name = normaliseIdentifier q header ("col_".toList ++ (toString i).toList) ∨
      ∃ k, name = numbered (normaliseIdentifier q header ("col_".toList ++ (toString i).toList)) k := by
  induction headers generalizing index used with
  | nil => cases h
  | cons first headers ih =>
    obtain heq | h := List.mem_cons.mp h
    · cases heq
      exact ⟨index,ensureUniqueIdentifier_eq _ _⟩
    · exact ih h

theorem namesFrom_nodup (headers : List String) (index : ℕ) (used : List Text) :
    (namesFrom q index used headers).Nodup ∧ ∀ name ∈ namesFrom q index used headers, name ∉ used := by
  induction headers generalizing index used with
  | nil => exact ⟨List.nodup_nil,List.forall_mem_nil _⟩
  | cons header headers ih =>
    have hname := ensureUniqueIdentifier_notMem (normaliseIdentifier q header ("col_".toList ++ (toString index).toList)) used
    unfold namesFrom
    dsimp only
    generalize ensureUniqueIdentifier (normaliseIdentifier q header ("col_".toList ++ (toString index).toList)) used = name at hname
    obtain ⟨hnodup,hfresh⟩ := ih (index + 1) (name :: used)
    refine ⟨List.nodup_cons.mpr ⟨fun hmem => hfresh name hmem List.mem_cons_self,hnodup⟩,?_⟩
    intro name' hname'
    obtain rfl | hmem := List.mem_cons.mp hname'
    · exact hname
    · exact fun hused => hfresh name' hmem (List.mem_cons_of_mem _ hused)

theorem namesFrom_length (headers : List String) (index : ℕ) (used : List Text) :
    (namesFrom q index used headers).length = headers.length := by
  induction headers generalizing index used with
  | nil => rfl
  | cons header headers ih => exact congrArg (· + 1) (ih _ _)

theorem base_mem_names {headers : List String} {header : String} (h : header ∈ headers) (hstem : ∀ stem stem', normaliseIdentifier q header stem =
      normaliseIdentifier q header stem') (index : ℕ) (used : List Text) (stem : Text) :
    normaliseIdentifier q header stem ∈ used ∨ normaliseIdentifier q header stem ∈ namesFrom q index used headers := by
  induction headers generalizing index used with
  | nil => cases h
  | cons first headers ih =>
    by_cases hused : normaliseIdentifier q header stem ∈ used
    · exact .inl hused
    · right
      unfold namesFrom
      dsimp only
      obtain rfl | h := List.mem_cons.mp h
      · rw [hstem _ stem]
        unfold ensureUniqueIdentifier
        rw [if_neg fun hmem => hused (List.contains_iff_mem.mp hmem)]
        exact List.mem_cons_self
      · obtain hmem | hmem := ih h (index + 1) (ensureUniqueIdentifier (normaliseIdentifier q first
          ("col_".toList ++ (toString index).toList)) used :: used)
        · obtain heq | hmem := List.mem_cons.mp hmem
          · exact heq ▸ List.mem_cons_self
          · exact absurd hmem hused
        · exact List.mem_cons_of_mem _ hmem

end Unique

section Identifiers
variable {D T : Type} {q : DdlPackages D T}

/-- What ASCII has of the letters. -/
def AsciiLetters (q : DdlPackages D T) : Prop := ∀ c : Char, c.toNat < 128 → q.isAlpha c = c.isAlpha

theorem toNat_lt_of_isWordChar {c : Char} (h : isWordChar c = true) : c.toNat < 128 := by
  obtain h | h := Bool.or_eq_true_iff.mp h
  · exact DefaultLiterals.toNat_lt_of_isAlphanum h
  · rw [of_decide_eq_true h]
    decide

theorem digits_all (n : ℕ) : (toString n).toList.all isWordChar = true := by
  rw [show (toString n).toList = Nat.toDigits 10 n from Nat.toList_repr,List.all_eq_true]
  intro c hc
  have hdigit : c.isDigit = true := Nat.isDigit_of_mem_toDigits (by decide) (by decide) hc
  unfold isWordChar Char.isAlphanum
  rw [hdigit,Bool.or_true,Bool.true_or]

theorem candidate_or_stem (hq : AsciiLetters q) (header : String) (rest : Text) :
    (∃ c cs, candidate q header = c :: cs ∧ q.isAlpha c = true ∧
      ∀ stem, normaliseIdentifier q header stem = candidate q header) ∨
    normaliseIdentifier q header ("col_".toList ++ rest) = "col_".toList ++ rest ∧ candidate q header = [] ∨
    normaliseIdentifier q header ("col_".toList ++ rest) = ("col_".toList ++ rest) ++ '_' :: candidate q header := by
  unfold normaliseIdentifier
  cases hname : candidate q header with
  | nil =>
    refine .inr (.inl ⟨?_,rfl⟩)
    dsimp only
    rw [if_pos rfl]
    exact if_pos (hq 'c' (by decide))
  | cons c cs =>
    dsimp only
    rw [if_neg (List.cons_ne_nil c cs)]
    by_cases halpha : q.isAlpha c = true
    · refine .inl ⟨c,cs,rfl,halpha,fun stem => ?_⟩
      rw [if_neg (List.cons_ne_nil c cs)]
      exact if_pos halpha
    · exact .inr (.inr (if_neg halpha))

theorem isIdentifier_base (hq : AsciiLetters q) (header : String) (n : ℕ) :
    isIdentifier (normaliseIdentifier q header ("col_".toList ++ (toString n).toList)) = (candidate q header).all isWordChar := by
  have hstem : ("col_".toList ++ (toString n).toList).all isWordChar = true := by
    rw [List.all_append,digits_all]
    rfl
  obtain ⟨c,cs,hcandidate,halpha,hbase⟩ | ⟨hbase,hcandidate⟩ | hbase := candidate_or_stem hq header (toString n).toList
  · rw [hbase,hcandidate]
    change ((c.isAlpha || c = '_') && (c :: cs).all isWordChar) = (c :: cs).all isWordChar
    cases hall : (c :: cs).all isWordChar with
    | false => rw [Bool.and_false]
    | true =>
      have hc := List.all_eq_true.mp hall c List.mem_cons_self
      rw [← hq c (toNat_lt_of_isWordChar hc),halpha]
      rfl
  · rw [hbase,hcandidate]
    unfold isIdentifier
    rw [hstem]
    rfl
  · rw [hbase]
    unfold isIdentifier
    rw [List.all_append,hstem]
    rfl

theorem base_ne_nil (hq : AsciiLetters q) (header : String) (rest : Text) :
    normaliseIdentifier q header ("col_".toList ++ rest) ≠ [] := by
  obtain ⟨c,cs,hcandidate,-,hbase⟩ | ⟨hbase,-⟩ | hbase := candidate_or_stem hq header rest
  · rw [hbase,hcandidate]
    exact List.cons_ne_nil _ _
  · rw [hbase]
    exact List.cons_ne_nil _ _
  · rw [hbase]
    exact List.cons_ne_nil _ _

theorem isIdentifier_numbered {base : Text} (hbase : base ≠ []) (k : ℕ) : isIdentifier (numbered base k) = isIdentifier base := by
  cases base with
  | nil => exact absurd rfl hbase
  | cons c cs =>
    have hrest : ('_' :: (toString k).toList).all isWordChar = true := by
      rw [List.all_cons,digits_all]
      rfl
    unfold isIdentifier numbered
    rw [List.all_append,hrest,Bool.and_true]
    rfl

theorem numbered_notSystem (k : ℕ) : String.ofList (numbered base k) ∉ systemColumns := by
  -- a number ends in a digit
  obtain ⟨c,hlast,hdigit⟩ : ∃ c, (numbered base k).getLast? = some c ∧ c.isDigit = true := by
    have hne : (toString k).toList ≠ [] := by
      rw [show (toString k).toList = Nat.toDigits 10 k from Nat.toList_repr]
      exact Nat.toDigits_ne_nil
    refine ⟨(toString k).toList.getLast hne,?_,?_⟩
    · unfold numbered
      rw [List.getLast?_append_cons,List.getLast?_cons_of_ne_nil hne,List.getLast?_eq_getLast_of_ne_nil hne]
    · have hdigits : ∀ c ∈ (toString k).toList, c.isDigit = true := by
        intro c hc
        rw [show (toString k).toList = Nat.toDigits 10 k from Nat.toList_repr] at hc
        exact Nat.isDigit_of_mem_toDigits (by decide) (by decide) hc
      exact hdigits _ (List.getLast_mem hne)
  have hsystem : ∀ name ∈ systemColumns, ∀ c, name.toList.getLast? = some c → c.isDigit = false := by
    intro name hname c hc
    simp only [systemColumns,List.mem_cons,List.not_mem_nil,or_false] at hname
    obtain rfl | rfl | rfl := hname
    all_goals
      cases hc
      decide
  intro hmem
  have := hsystem _ hmem c (by rwa [String.toList_ofList])
  rw [hdigit] at this
  cases this

end Identifiers

section Cells
variable {D T U S : Type} {p : RowPackages D T U S}

theorem cells_cons (line : CsvLine) (lines : List CsvLine) :
    cells header (line :: lines) = cells header [line] ++ cells header lines := by
  unfold cells
  rw [← List.filter_append,← List.map_append,← List.filterMap_append]
  rfl

theorem observe_lines (lines : List CsvLine) (stats : ColumnStats) :
    lines.foldl (fun stats line => stats.observe p (line header)) stats =
      ⟨stats.seenNonEmpty || !(cells header lines).isEmpty,stats.boolCandidate && (cells header lines).all (reads p .boolean),
        stats.intCandidate && (cells header lines).all (reads p .integer),
        stats.numericCandidate && (cells header lines).all (reads p .numeric),
        stats.timestampCandidate && (cells header lines).all (reads p .timestamptz),
        stats.uuidCandidate && (cells header lines).all (reads p .uuid),
        stats.jsonCandidate && (cells header lines).all (reads p .jsonb)⟩ := by
  induction lines generalizing stats with
  | nil =>
    change stats = ⟨stats.seenNonEmpty || !true,_,_,_,_,_,_⟩
    simp only [cells,List.filterMap_nil,List.map_nil,List.filter_nil,List.all_nil,Bool.and_true,Bool.not_true,Bool.or_false]
  | cons line lines ih =>
    rw [List.foldl_cons,ih,cells_cons]
    cases hcell : line header with
    | none =>
      have hnone : cells header [line] = [] := by
        unfold cells
        rw [List.filterMap_cons]
        simp only [hcell]
        rfl
      rw [hnone]
      rfl
    | some s =>
      have hone : cells header [line] = if stripped s = "" then [] else [stripped s] := by
        unfold cells
        rw [List.filterMap_cons]
        simp only [hcell]
        rw [List.filterMap_nil,List.map_singleton]
        by_cases hs : stripped s = ""
        · rw [if_pos hs]
          exact List.filter_cons_of_neg (by simpa using hs)
        · rw [if_neg hs]
          exact List.filter_cons_of_pos (by simpa using hs)
      rw [hone]
      unfold ColumnStats.observe
      dsimp only
      split_ifs with hs
      · rfl
      · simp only [List.singleton_append,List.all_cons,List.isEmpty_cons,Bool.not_false,Bool.or_true,Bool.true_or,Bool.and_assoc,reads]

theorem inferType_eq (lines : List CsvLine) :
    (lines.foldl (fun stats line => stats.observe p (line header)) ColumnStats.fresh).inferType = kind p (cells header lines) := by
  rw [observe_lines]
  unfold ColumnStats.inferType kind ColumnStats.fresh
  simp only [Bool.false_or,Bool.true_and,Bool.not_not,List.isEmpty_iff]
  by_cases hempty : cells header lines = []
  · rw [if_pos hempty,if_pos hempty]
  · rw [if_neg hempty,if_neg hempty]
    simp only [List.find?_cons]
    repeat' split
    all_goals first | rfl | simp_all

theorem reads_kind {cells : List String} {s : String} (hs : s ∈ cells) : reads p (kind p cells) s = true := by
  unfold kind
  split_ifs
  · rfl
  · cases hfind : [SqlType.boolean,.integer,.numeric,.timestamptz,.uuid,.jsonb].find? fun type => cells.all (reads p type) with
    | none => rfl
    | some type =>
      have hall : (cells.all (reads p type)) = true := @List.find?_some _ (fun type => cells.all (reads p type)) _ _ hfind
      exact List.all_eq_true.mp hall s hs

theorem kind_mem (cells : List String) : kind p cells ∈ [SqlType.text,.boolean,.integer,.numeric,.timestamptz,.uuid,.jsonb] := by
  unfold kind
  split_ifs
  · exact List.mem_cons_self
  · cases hfind : [SqlType.boolean,.integer,.numeric,.timestamptz,.uuid,.jsonb].find? fun type => cells.all (reads p type) with
    | none => exact List.mem_cons_self
    | some type => exact List.mem_cons_of_mem _ (List.mem_of_find?_eq_some hfind)

/-- What is read as a type converts to a value, which fits if and only if the text does. -/
theorem convertValue_reads {type : SqlType} (htype : type ∈ [SqlType.text,.boolean,.integer,.numeric,.timestamptz,.uuid,.jsonb])
    {s : String} (h : reads p type s = true) :
    ∃ v, convertValue p (some s) type = .ok v ∧ (Fits type v ↔ CellFits p type s) := by
  have hconvert : ∀ {v}, parseValue p s type = .ok v → convertValue p (some s) type = .ok v := by
    intro v hv
    unfold convertValue
    dsimp only
    rw [hv]
  simp only [List.mem_cons,List.not_mem_nil,or_false] at htype
  obtain rfl | rfl | rfl | rfl | rfl | rfl | rfl := htype
  · exact ⟨.str s,hconvert rfl,Iff.rfl⟩
  · obtain ⟨b,hb⟩ := Option.isSome_iff_exists.mp h
    refine ⟨.bool b,hconvert ?_,Iff.rfl⟩
    unfold parseValue
    rw [hb]
    rfl
  · obtain ⟨n,hn⟩ := Option.isSome_iff_exists.mp h
    refine ⟨.json (.int n),hconvert ?_,?_⟩
    · unfold parseValue
      rw [hn]
      rfl
    · change InRange n ↔ ∀ m, p.int s = some m → InRange m
      rw [hn]
      exact ⟨fun hrange m hm => Option.some.inj hm ▸ hrange,fun hall => hall n rfl⟩
  · obtain ⟨r,hr⟩ := Option.isSome_iff_exists.mp h
    refine ⟨.json (.float r),hconvert ?_,Iff.rfl⟩
    unfold parseValue
    rw [hr]
    rfl
  · change (coerceToUtcDatetime p (.str s)).toOption.isSome = true at h
    cases ht : coerceToUtcDatetime p (.str s) with
    | error e =>
      rw [ht] at h
      cases h
    | ok t =>
      refine ⟨.datetime t,hconvert ?_,Iff.rfl⟩
      unfold parseValue
      rw [ht]
      rfl
  · obtain ⟨u,hu⟩ := Option.isSome_iff_exists.mp h
    refine ⟨.uuid u,hconvert ?_,Iff.rfl⟩
    unfold parseValue
    rw [hu]
    rfl
  · obtain ⟨v,hv⟩ := Option.isSome_iff_exists.mp (Bool.and_eq_true_iff.mp h).2
    refine ⟨.json v,hconvert ?_,?_⟩
    · unfold parseValue
      rw [hv]
      rfl
    · have hfits : Fits SqlType.jsonb (.json v : PyValue D T U) ↔ ∀ t ∈ texts v, Char.ofNat 0 ∉ t.toList := by
        cases v with
        | none => exact ⟨fun _ => List.forall_mem_nil _,fun _ => trivial⟩
        | bool b => exact Iff.rfl
        | int n => exact Iff.rfl
        | float r => exact Iff.rfl
        | str t => exact Iff.rfl
        | list items => exact Iff.rfl
        | dict entries => exact Iff.rfl
      rw [hfits]
      change _ ↔ ∀ w, p.loads s = some w → ∀ t ∈ texts w, Char.ofNat 0 ∉ t.toList
      rw [hv]
      exact ⟨fun hall w hw => Option.some.inj hw ▸ hall,fun hall => hall v rfl⟩

/-- The cells of a column convert, and the values fit if and only if they do. -/
theorem cells_iff (column : InferredCSVColumn) (lines : List CsvLine) (htype : column.type = kind p (cells column.originalName lines)) :
    (∀ line ∈ lines, ∃ v, importedValue p column (line column.originalName) = .ok v ∧ Fits column.type v) ↔
      ∀ line ∈ lines, ∀ s, line column.originalName = some s → stripped s ≠ "" →
        CellFits p (kind p (cells column.originalName lines))
          (if kind p (cells column.originalName lines) = .text then s else stripped s) := by
  -- a blank cell fits every type
  have hblank : ∀ line : CsvLine, (∀ s, line column.originalName = some s → stripped s = "") →
      ∃ v, importedValue p column (line column.originalName) = .ok v ∧ Fits column.type v := by
    intro line hline
    cases hcell : line column.originalName with
    | none => exact ⟨.none,rfl,trivial⟩
    | some s =>
      unfold importedValue
      dsimp only
      rw [if_pos (hline s hcell)]
      refine ⟨_,rfl,?_⟩
      split_ifs with htext
      · rw [htext]
        change Char.ofNat 0 ∉ "".toList
        decide
      · trivial
  -- a cell that is not blank is read as the type
  have hcell : ∀ line ∈ lines, ∀ s, line column.originalName = some s → stripped s ≠ "" →
      ∃ v, importedValue p column (line column.originalName) = .ok v ∧
        (Fits column.type v ↔ CellFits p column.type (if column.type = .text then s else stripped s)) := by
    intro line hline s hs hne
    have hmem : stripped s ∈ cells column.originalName lines := by
      unfold cells
      refine List.mem_filter.mpr ⟨List.mem_map_of_mem (List.mem_filterMap.mpr ⟨line,hline,hs⟩),?_⟩
      exact decide_eq_true hne
    have hreads : reads p column.type (if column.type = .text then s else stripped s) = true := by
      split_ifs with htext
      · rw [htext]
        rfl
      · rw [htype]
        exact reads_kind hmem
    obtain ⟨v,hv,hfits⟩ := convertValue_reads (htype ▸ kind_mem _) hreads
    refine ⟨v,?_,hfits⟩
    rw [hs]
    unfold importedValue
    dsimp only
    rw [if_neg hne,hv]
  rw [← htype]
  constructor
  · intro h line hline s hs hne
    obtain ⟨v,hv,hfits⟩ := h line hline
    obtain ⟨v',hv',hiff⟩ := hcell line hline s hs hne
    obtain rfl := Except.ok.inj (hv.symm.trans hv')
    exact hiff.mp hfits
  · intro h line hline
    by_cases hnone : ∀ s, line column.originalName = some s → stripped s = ""
    · exact hblank line hnone
    · push Not at hnone
      obtain ⟨s,hs,hne⟩ := hnone
      obtain ⟨v,hv,hiff⟩ := hcell line hline s hs hne
      exact ⟨v,hv,hiff.mpr (h line hline s hs hne)⟩

end Cells

section Schema
variable {D T U S : Type} {p : RowPackages D T U S} {q : DdlPackages D T}

theorem isIdentifier_name (hq : AsciiLetters q) {headers : List String} {header : String} {name : Text}
    (h : (header,name) ∈ headers.zip (namesFrom q 1 [] headers)) : isIdentifier name = (candidate q header).all isWordChar := by
  obtain ⟨i,rfl | ⟨k,rfl⟩⟩ := eq_of_mem_names h
  · exact isIdentifier_base hq header i
  · rw [isIdentifier_numbered (base_ne_nil hq header _),isIdentifier_base hq]

theorem candidate_of_system (hq : AsciiLetters q) {headers : List String} {header : String} {name : Text}
    (h : (header,name) ∈ headers.zip (namesFrom q 1 [] headers)) (hname : String.ofList name ∈ systemColumns) :
    String.ofList (candidate q header) ∈ systemColumns := by
  have hstem : ∀ rest, String.ofList ("col_".toList ++ rest) ∉ systemColumns := by
    intro rest hmem
    have htake : ∀ name ∈ systemColumns, name.toList.take 4 ≠ "col_".toList := by decide
    apply htake _ hmem
    rw [String.toList_ofList]
    rfl
  obtain ⟨i,rfl | ⟨k,rfl⟩⟩ := eq_of_mem_names h
  · obtain ⟨c,cs,-,-,hbase⟩ | ⟨hbase,-⟩ | hbase := candidate_or_stem hq header (toString i).toList
    · rwa [hbase] at hname
    · rw [hbase] at hname
      exact absurd hname (hstem _)
    · rw [hbase,List.append_assoc] at hname
      exact absurd hname (hstem _)
  · exact absurd hname (numbered_notSystem _ k)

theorem system_mem_names (hq : AsciiLetters q) {headers : List String} {header : String} (h : header ∈ headers)
    (hsystem : String.ofList (candidate q header) ∈ systemColumns) : candidate q header ∈ namesFrom q 1 [] headers := by
  have hhead : ∀ name ∈ systemColumns, ∃ c cs, name.toList = c :: cs ∧ c.toNat < 128 ∧ c.isAlpha = true := by
    intro name hname
    simp only [systemColumns,List.mem_cons,List.not_mem_nil,or_false] at hname
    obtain rfl | rfl | rfl := hname
    all_goals exact ⟨_,_,rfl,by decide,by decide⟩
  obtain ⟨c,cs,heq,hascii,halpha⟩ := hhead _ hsystem
  rw [String.toList_ofList] at heq
  have hbase : ∀ stem, normaliseIdentifier q header stem = candidate q header := by
    intro stem
    unfold normaliseIdentifier
    dsimp only
    rw [heq,if_neg (List.cons_ne_nil c cs)]
    exact if_pos ((hq c hascii).trans halpha)
  obtain hmem | hmem := base_mem_names h (fun stem stem' => (hbase stem).trans (hbase stem').symm) 1 [] []
  · cases hmem
  · rwa [hbase] at hmem

end Schema

section Sample
open DefaultLiterals (samplePackages sampleDdl)

theorem ascii_sample : AsciiLetters sampleDdl := fun _ _ => rfl

/-- A line with one cell. -/
def oneCell (cell : String) : CsvLine := fun header => if header = "name" then some cell else none

end Sample
end CsvSchemas
end Allama

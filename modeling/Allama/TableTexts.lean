import Mathlib.Data.Finset.Sort
import Mathlib.Data.Char
import Mathlib.Data.List.Lex
import Mathlib.Data.List.DropRight
import Allama.Templates

/-! Lists of dictionaries as tables in a text (`expressions/formatters.py`), and what the formats say about reading them. -/
namespace Allama
namespace TableTexts

/-- The values, as far as the formatters tell them apart. -/
inductive Cell (V : Type)
  | none
  | text (s : Text)
  | other (v : V)
deriving DecidableEq

/-- A `dict` with texts as its keys. -/
abbrev Item (V : Type) := List (Text × Cell V)

section Formatting
variable {V : Type} (toStr : V → Text)

/-- `str(value)`. -/
def Cell.str : Cell V → Text
  | .none => "None".toList
  | .text s => s
  | .other v => toStr v

def Item.get? (item : Item V) (key : Text) : Option (Cell V) := item.lookup key

/-- `sorted(all_keys)`. -/
def headers (x : List (Item V)) : List Text := ((x.flatMap fun item => item.map Prod.fst).toFinset).sort (· ≤ ·)

/-- `s.join(parts)`. -/
def join (s : Text) (parts : List Text) : Text := s.intercalate parts

/-- `"|" + "|".join(parts) + "|"`. -/
def pipeRow (parts : List Text) : Text := ['|'] ++ join ['|'] parts ++ ['|']

/-- The string form of a value, but nothing for `None` and for a key that is missing. -/
def blankNone : Option (Cell V) → Text
  | none => []
  | some .none => []
  | some (.text s) => s
  | some (.other v) => toStr v

/-- The text of a cell of `_format_markdown`. -/
def markdownCell (value : Option (Cell V)) : Text := blankNone toStr value

def formatMarkdown (x : List (Item V)) : Text :=
  if headers x = [] then []
  else join ['\n'] (pipeRow (headers x) :: pipeRow ((headers x).map fun _ => ['-']) ::
    x.map fun item => pipeRow ((headers x).map fun key => markdownCell toStr (item.get? key)))

/-- `html.escape`. -/
def escapeChar (c : Char) : Text :=
  if c = '&' then "&amp;".toList
  else if c = '<' then "&lt;".toList
  else if c = '>' then "&gt;".toList
  else if c = '"' then "&quot;".toList
  else if c = Char.ofNat 39 then "&#x27;".toList
  else [c]

def escape (s : Text) : Text := s.flatMap escapeChar

/-- `str(item.get(key, ""))`. -/
def htmlCell (value : Option (Cell V)) : Text := value.elim [] (Cell.str toStr)

def headerLine (key : Text) : Text := "      <th>".toList ++ escape key ++ "</th>".toList

def cellLine (value : Option (Cell V)) : Text := "      <td>".toList ++ escape (htmlCell toStr value) ++ "</td>".toList

/-- The lines of `_format_html`. -/
def htmlLines (x : List (Item V)) : List Text :=
  ["<table>".toList,"  <thead>".toList,"    <tr>".toList] ++ (headers x).map headerLine ++
  ["    </tr>".toList,"  </thead>".toList,"  <tbody>".toList] ++
  x.flatMap (fun item => ["    <tr>".toList] ++ (headers x).map (fun key => cellLine toStr (item.get? key)) ++
    ["    </tr>".toList]) ++ ["  </tbody>".toList,"</table>".toList]

def formatHtml (x : List (Item V)) : Text := if x.isEmpty then [] else join ['\n'] (htmlLines toStr x)

/-- The characters for which `csv.writer` quotes a field. -/
def isSpecial (c : Char) : Bool := c = ',' || c = '"' || c = '\r' || c = '\n'

def doubled (s : Text) : Text := s.flatMap fun c => if c = '"' then ['"','"'] else [c]

def csvField (s : Text) : Text := if s.any isSpecial then '"' :: (doubled s ++ ['"']) else s

/-- `csv.writer.writerow`; a single empty field is quoted, so that the line is not blank. -/
def csvRow (fields : List Text) : Text :=
  (if fields = [[]] then ['"','"'] else join [','] (fields.map csvField)) ++ ['\r','\n']

/-- What `csv.writer` writes for a value. -/
def csvCell (value : Option (Cell V)) : Text := blankNone toStr value

def formatCsv (x : List (Item V)) : Text :=
  if x.isEmpty then []
  else csvRow (headers x) ++ x.flatMap fun item => csvRow ((headers x).map fun key => csvCell toStr (item.get? key))

inductive TableFormat
  | markdown | html | csv | xml
deriving DecidableEq, Repr

/-- `tabulate`, with what it gives for `xml`. -/
def tabulate (formatXml : List (Item V) → Text) (x : List (Item V)) : TableFormat → Text
  | .markdown => formatMarkdown toStr x
  | .html => formatHtml toStr x
  | .csv => formatCsv toStr x
  | .xml => formatXml x

end Formatting

theorem join_singleton (s part : Text) : join s [part] = part := List.intercalate_singleton

theorem join_cons_cons (s part part' : Text) (parts : List Text) :
    join s (part :: part' :: parts) = part ++ (s ++ join s (part' :: parts)) := by
  simp only [join, List.intercalate_cons_cons, List.append_assoc]

section Reading

/-- A table that is read: the header, and the rows under it. -/
abbrev Table := List Text × List (List Text)

def glue (u : Text) : List Text → List Text
  | [] => [u]
  | p :: ps => (u ++ p) :: ps

/-- A row of Markdown, split at its pipes. A backslash takes the character behind it along, and stands for nothing if that is a
pipe. -/
def pieces : Text → List Text
  | [] => [[]]
  | '\\' :: c :: s => glue (if c = '|' then ['|'] else ['\\',c]) (pieces s)
  | '|' :: s => [] :: pieces s
  | c :: s => glue [c] (pieces s)

def isPad (c : Char) : Bool := c = ' ' || c = '\t' || c = Char.ofNat 11 || c = Char.ofNat 12

def trimPad (s : Text) : Text := (s.dropWhile isPad).rdropWhile isPad

def rowCells (line : Text) : List Text :=
  let cells := (pieces line).map trimPad
  let cells := if cells.head? = some [] then cells.tail else cells
  if cells.getLast? = some [] then cells.dropLast else cells

/-- Lines, which end at a line feed, at a carriage return or at both. -/
def textLines : Text → List Text
  | [] => [[]]
  | '\r' :: '\n' :: s => [] :: textLines s
  | c :: s => if c = '\n' ∨ c = '\r' then [] :: textLines s else glue [c] (textLines s)

/-- The row between the header and the others: hyphens, perhaps with colons. -/
def isDelimiterCell (s : Text) : Bool :=
  let s := if s.head? = some ':' then s.tail else s
  let s := if s.getLast? = some ':' then s.dropLast else s
  !s.isEmpty && s.all (· = '-')

/-- A row under a header of `n` cells: further cells are left out, and missing ones are empty. -/
def fit : ℕ → List Text → List Text
  | 0, _ => []
  | n+1, [] => [] :: fit n []
  | n+1, cell :: cells => cell :: fit n cells

/-- A table of Markdown: a header, a delimiter row of as many cells, and the lines up to the first blank one. -/
def readMarkdown (s : Text) : Option Table :=
  match textLines s with
  | header :: delimiter :: rows =>
    if (rowCells delimiter).length = (rowCells header).length ∧ (rowCells delimiter).all isDelimiterCell then
      let body := rows.takeWhile fun line => !(trimPad line).isEmpty
      some (rowCells header,body.map fun line => fit (rowCells header).length (rowCells line))
    else none
  | _ => none

/-- The pieces of an HTML text. -/
inductive Token
  | tag (name : Text)
  | char (c : Char)
deriving DecidableEq

def references : List (Text × Char) := [("amp".toList,'&'),("lt".toList,'<'),("gt".toList,'>'),("quot".toList,'"'),
  ("#x27".toList,Char.ofNat 39)]

/-- The state of the scanner: in a text, in a tag, or in a character reference. -/
inductive ScanState
  | text
  | tag (name : Text)
  | reference (name : Text)

def tokens : ScanState → Text → Option (List Token)
  | .text, [] => some []
  | .tag _, [] => none
  | .reference _, [] => none
  | .text, c :: s =>
    if c = '<' then tokens (.tag []) s
    else if c = '&' then tokens (.reference []) s
    else (tokens .text s).map (.char c :: ·)
  | .tag name, c :: s => if c = '>' then (tokens .text s).map (.tag name :: ·) else tokens (.tag (name ++ [c])) s
  | .reference name, c :: s =>
    if c = ';' then
      match references.lookup name with
      | some d => (tokens .text s).map (.char d :: ·)
      | none => none
    else tokens (.reference (name ++ [c])) s

/-- The rows that are read so far, the last one first, and the row and the cell that are open. -/
structure HtmlState where
  rows : List (List Text)
  row : List Text
  cell : Option Text

def htmlStep (st : HtmlState) : Token → HtmlState
  | .char c => { st with cell := st.cell.map (· ++ [c]) }
  | .tag name =>
    if name = "tr".toList then { st with row := [] }
    else if name = "th".toList ∨ name = "td".toList then { st with cell := some [] }
    else if name = "/th".toList ∨ name = "/td".toList then { st with row := st.row ++ [st.cell.getD []], cell := none }
    else if name = "/tr".toList then { st with rows := st.rows ++ [st.row] }
    else st

def asTable : List (List Text) → Option Table
  | [] => none
  | header :: rows => some (header,rows)

def readHtml (s : Text) : Option Table :=
  (tokens .text s).bind fun ts => asTable (ts.foldl htmlStep ⟨[],[],none⟩).rows

/-- The states of a reader of CSV. -/
inductive CsvMode
  | startRecord | startField | inField | inQuotedField | quoteInQuotedField | eatCrnl
deriving DecidableEq

structure CsvState where
  mode : CsvMode
  rows : List (List Text)
  row : List Text
  field : Text

def CsvState.saveField (st : CsvState) (mode : CsvMode) : CsvState :=
  { st with mode := mode, row := st.row ++ [st.field], field := [] }

def CsvState.saveRow (st : CsvState) (mode : CsvMode) : CsvState :=
  { st with mode := mode, rows := st.rows ++ [st.row ++ [st.field]], row := [], field := [] }

def CsvState.add (st : CsvState) (mode : CsvMode) (c : Char) : CsvState := { st with mode := mode, field := st.field ++ [c] }

def isNewline (c : Char) : Bool := c = '\r' || c = '\n'

/-- A character at the start of a field. -/
def csvStart (st : CsvState) (c : Char) : CsvState :=
  if isNewline c then st.saveRow (if c = '\r' then .eatCrnl else .startRecord)
  else if c = '"' then { st with mode := .inQuotedField }
  else if c = ',' then st.saveField .startField
  else st.add .inField c

def csvRecord (st : CsvState) (c : Char) : CsvState :=
  if isNewline c then { st with mode := if c = '\r' then .eatCrnl else .startRecord, rows := st.rows ++ [[]] }
  else csvStart st c

def csvStep (st : CsvState) (c : Char) : CsvState :=
  match st.mode with
  | .eatCrnl => if c = '\n' then { st with mode := .startRecord } else csvRecord st c
  | .startRecord => csvRecord st c
  | .startField => csvStart st c
  | .inField =>
    if isNewline c then st.saveRow (if c = '\r' then .eatCrnl else .startRecord)
    else if c = ',' then st.saveField .startField
    else st.add .inField c
  | .inQuotedField => if c = '"' then { st with mode := .quoteInQuotedField } else st.add .inQuotedField c
  | .quoteInQuotedField =>
    if c = '"' then st.add .inQuotedField c
    else if c = ',' then st.saveField .startField
    else if isNewline c then st.saveRow (if c = '\r' then .eatCrnl else .startRecord)
    else st.add .inField c

/-- A text of CSV; the last record need not end with a line break. -/
def readCsv (s : Text) : Option Table :=
  let st := s.foldl csvStep ⟨.startRecord,[],[],[]⟩
  asTable (if st.mode = .startRecord ∨ st.mode = .eatCrnl then st.rows else (st.saveRow .startRecord).rows)

end Reading

section Faithful
variable {V : Type} (toStr : V → Text)

/-- What is read has the sorted keys as its header, a row for each item in order, a cell in it for each key, and in the cell
of a key that the item has the string form of its value. -/
def Faithful (x : List (Item V)) (read : Option Table) : Prop :=
  ∃ rows, read = some (headers x,rows) ∧ List.Forall₂ (fun item row => List.Forall₂ (fun key cell =>
    ∀ value, Item.get? item key = some value → cell = value.str toStr) (headers x) row) x rows

def openEscape : Text → Bool
  | [] => false
  | ['\\'] => true
  | '\\' :: _ :: s => openEscape s
  | _ :: s => openEscape s

def IsPlain (s : Text) : Prop :=
  '|' ∉ s ∧ '\n' ∉ s ∧ '\r' ∉ s ∧ trimPad s = s ∧ openEscape s = false

instance (s : Text) : Decidable (IsPlain s) := inferInstanceAs (Decidable (_ ∧ _ ∧ _ ∧ _ ∧ _))

/-- The keys and the values that are there stand for themselves, and no value is `None`. -/
def MarkdownPlain (x : List (Item V)) : Prop :=
  (∀ key ∈ headers x, IsPlain key) ∧
  ∀ item ∈ x, ∀ key ∈ headers x, ∀ value, Item.get? item key = some value → value ≠ .none ∧ IsPlain (value.str toStr)

/-- No value is `None`. -/
def NoneFree (x : List (Item V)) : Prop := ∀ item ∈ x, ∀ key ∈ headers x, Item.get? item key ≠ some .none

end Faithful
end TableTexts
end Allama

import Allama.Identifiers

/-! Attributes that the fields of a format string name (the syntax of `str.format`). -/
namespace Allama
namespace FormatFields

/-- The name of a field and the rest behind it; brackets hide what ends a name. -/
def splitName : Bool → Text → Text × Text
  | _, [] => ([],[])
  | true, c :: s =>
    let (name,rest) := splitName (c ≠ ']') s
    (c :: name,rest)
  | false, c :: s =>
    if c = '{' ∨ c = '}' ∨ c = ':' ∨ c = '!' then ([],c :: s)
    else
      let (name,rest) := splitName (c = '[') s
      (c :: name,rest)

/-- A format specification, up to the brace that closes its field, and the rest. -/
def splitSpec : ℕ → Text → Option (Text × Text)
  | _, [] => none
  | depth, c :: s =>
    if c = '}' ∧ depth = 0 then some ([],s)
    else
      let depth := if c = '{' then depth+1 else if c = '}' then depth-1 else depth
      (splitSpec depth s).map fun (spec,rest) => (c :: spec,rest)

/-- The field at the beginning of a text, behind its brace: its name, its specification and the rest. -/
def field (s : Text) : Option (Text × Text × Text) :=
  let (name,rest) := splitName false s
  match rest with
  | '}' :: rest => some (name,[],rest)
  | ':' :: rest => (splitSpec 0 rest).map fun (spec,rest) => (name,spec,rest)
  | '!' :: _ :: '}' :: rest => some (name,[],rest)
  | '!' :: _ :: ':' :: rest => (splitSpec 0 rest).map fun (spec,rest) => (name,spec,rest)
  | _ => none

/-- The names and the specifications of the fields, up to an error; doubled braces stand for themselves. -/
def fields : ℕ → Text → List (Text × Text)
  | 0, _ | _, [] => []
  | fuel+1, c :: s =>
    if c = '{' then
      if s.head? = some '{' then fields fuel s.tail
      else
        match field s with
        | none => []
        | some (name,spec,rest) => (name,spec) :: fields fuel rest
    else if c = '}' then if s.head? = some '}' then fields fuel s.tail else []
    else fields fuel s

/-- A name of which only the end is left of each index. -/
def dropIndexes : Bool → Text → Text
  | _, [] => []
  | true, c :: s => if c = ']' then c :: dropIndexes false s else dropIndexes true s
  | false, c :: s => if c = '[' then dropIndexes true s else c :: dropIndexes false s

def nameAttributes (name : Text) : List Text :=
  ((dropIndexes false name).splitOn '.').tail.map fun attr => attr.takeWhile (· ≠ ']')

/-- The attributes that are named in a format string, and in the specifications of its fields as deep as they may nest. -/
def attributes : ℕ → Text → List Text
  | 0, _ => []
  | depth+1, s => (fields (s.length+1) s).flatMap fun (name,spec) => nameAttributes name ++ attributes depth spec

/-- `str.format` expands specifications once. -/
def formatAttributes (s : Text) : List Text := attributes 2 s

example : formatAttributes "a\x7b\x7b.b \x7b0.c[.d].e:\x7b1.f\x7d\x7d \x7bx!r\x7d".toList = ["c".toList,"e".toList,"f".toList] := by
  decide

end FormatFields
end Allama

import Allama.DSLTypes

/-! `finalize_gather_activity` and the classification of gathered values (`allama/dsl/action.py`). -/
namespace Allama

def ExprContext.ofValue (s : String) : Option ExprContext :=
  ExprContext.all.find? (fun c => c.value = s)

mutual
/-- `ActionErrorInfoAdapter.dump_python`. -/
def ActionErrorInfo.dump : ActionErrorInfo → Value
  | .mk ref message type exprContext attempt streamId children =>
    .dict [("ref", .str ref), ("message", .str message), ("type", .str type),
      ("expr_context", .str exprContext.value), ("attempt", .int attempt),
      ("stream_id", streamId), ("children", dumpChildren children)]

def dumpChildren : Option (List ActionErrorInfo) → Value
  | .none => .none
  | .some es => .list (dumpList es)

def dumpList : List ActionErrorInfo → List Value
  | [] => []
  | e :: es => e.dump :: dumpList es
end

section
-- pydantic's lax reading of a string as an integer
variable (parseInt : String → Option ℤ)

/-- Pydantic's `int` in lax mode. -/
def asInt : Value → Option ℤ
  | .int n => some n
  | .bool b => some (if b then 1 else 0)
  | .float q => if q.den = 1 then some q.num else none
  | .str s => parseInt s
  | _ => none

def asStr : Value → Option String
  | .str s => some s
  | _ => none

/-- A field of a mapping with the reading of its value as a list of error infos. -/
abbrev ErrorField := String × Value × Option (List ActionErrorInfo)

def ErrorField.lookup (fields : List ErrorField) (key : String) : Option ErrorField :=
  fields.find? (fun f => f.1 = key)

/-- The fields of the dataclass `ActionErrorInfo`, with its defaults; other keys are ignored. -/
def ActionErrorInfo.ofFields (fields : List ErrorField) : Option ActionErrorInfo := do
  let ref ← (ErrorField.lookup fields "ref").bind (asStr ·.2.1)
  let message ← (ErrorField.lookup fields "message").bind (asStr ·.2.1)
  let type ← (ErrorField.lookup fields "type").bind (asStr ·.2.1)
  let exprContext ← match ErrorField.lookup fields "expr_context" with
    | .none => some .actions
    | .some f => (asStr f.2.1).bind ExprContext.ofValue
  let attempt ← match ErrorField.lookup fields "attempt" with
    | .none => some 1
    | .some f => asInt parseInt f.2.1
  let streamId := match ErrorField.lookup fields "stream_id" with
    | .none => .str StreamID.root.render
    | .some f => f.2.1
  let children ← match ErrorField.lookup fields "children" with
    | .none => some .none
    | .some (_, .none, _) => some .none
    | .some (_, _, parsed) => parsed.map some
  return .mk ref message type exprContext attempt streamId children

mutual
/-- `_as_error_info`: `ActionErrorInfoAdapter.validate_python`, `none` where it raises. -/
def asErrorInfo : Value → Option ActionErrorInfo
  | .dict entries => ActionErrorInfo.ofFields parseInt (errorFields entries)
  | _ => none

def errorFields : List (String × Value) → List ErrorField
  | [] => []
  | (key, value) :: rest => (key, value, errorList value) :: errorFields rest

def errorList : Value → Option (List ActionErrorInfo)
  | .list xs => errorItems xs
  | _ => none

def errorItems : List Value → Option (List ActionErrorInfo)
  | [] => some []
  | x :: xs => do
    let e ← asErrorInfo x
    let es ← errorItems xs
    return e :: es
end

/-- `_is_error_info` on a retrieved value. -/
def isErrorInfo (v : Value) : Bool := (asErrorInfo parseInt v).isSome

def partitionErrors : List Value → List Value × List ActionErrorInfo
  | [] => ([], [])
  | item :: items =>
    let (results, errors) := partitionErrors items
    match asErrorInfo parseInt item with
    | .some info => (results, info :: errors)
    | .none => (item :: results, errors)

def Value.isNone : Value → Bool
  | .none => true
  | _ => false

/-- `finalize_gather_activity` on the retrieved values: the result list and the errors. -/
def finalizeGather (values : List Value) (dropNulls : Bool)
    (errorStrategy : StreamErrorHandlingStrategy) : List Value × List ActionErrorInfo :=
  let values := if dropNulls then values.filter (fun v => !v.isNone) else values
  match errorStrategy with
  | .partition => partitionErrors parseInt values
  | .drop => (values.filter (fun v => !isErrorInfo parseInt v), [])
  | .include => (values, [])
  | .raise => partitionErrors parseInt values

end
end Allama

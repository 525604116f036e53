import Allama.Checked
import Allama.Identifiers

/-! Expression trees and their evaluation (`expressions/parser/grammar.py`, `expressions/parser/evaluator.py`). -/
namespace Allama
namespace ExprTrees

/-- `TYPE_SPECIFIER`. -/
inductive TypeSpecifier
  | int | float | str | bool
deriving DecidableEq, Repr

/-- The binary operators of `functions.OPERATORS`, but for `&&` and `||`. -/
inductive Operator
  | eq | ne | gt | ge | lt | le | isIn | notIn | is | isNot | add | sub | mul | div | mod
deriving DecidableEq, Repr

/-- `literal`. -/
inductive Literal
  | STRING_LITERAL (token : Text)
  | BOOL_LITERAL (b : Bool)
  | NUMERIC_LITERAL (token : Text)
  | NONE_LITERAL
deriving DecidableEq

/-- The references to a context, with the paths behind them. -/
inductive Reference
  | actions (jsonpath : Text)
  | secrets (path : Text)
  | vars (path : Text)
  | env (jsonpath : Text)
  | local_vars (jsonpath : Text)
  | trigger (jsonpath : Option Text)
  | template_action_inputs (jsonpath : Text)
  | template_action_steps (jsonpath : Text)
deriving DecidableEq

mutual

/-- The trees of `expression`. A list of children may be empty: then the parser leaves the placeholder `None` there. -/
inductive Expr
  | reference (r : Reference)
  | function (name : Text) (args : Exprs)
  | literal (l : Literal)
  | list (items : Exprs)
  | dict (pairs : Pairs)
  | primary_expr (base : Expr) (indexers : Exprs)
  | typecast (typename : TypeSpecifier) (value : Expr)
  | or_op (lhs rhs : Expr)
  | and_op (lhs rhs : Expr)
  | binary_op (op : Operator) (lhs rhs : Expr)
  | not_op (value : Expr)
  | neg_op (value : Expr)
  | pos_op (value : Expr)
  | ternary (true_value condition false_value : Expr)

inductive Exprs
  | nil
  | cons (e : Expr) (es : Exprs)

/-- The pairs of an object, with the tokens of their keys. -/
inductive Pairs
  | nil
  | cons (key : Text) (value : Expr) (pairs : Pairs)

end

/-- The trees of `root`. -/
inductive Root
  | expression (e : Expr)
  | trailing_typecast_expression (e : Expr) (typename : TypeSpecifier)
  | iterator (iter_var_expr : Text) (collection : Expr)

section Runtime

/-- What `_apply_index` finds a value to be. `get` gives `none` for a key that cannot be hashed. -/
inductive Shape (V : Type)
  | mapping (get : V → Option (Option V))
  | sequence (items : List V)
  | other

/-- What evaluation raises, besides what functions, casts and operators do. -/
inductive EvalError (V E : Type)
  | raised (e : E)
  | notIterable
  | unknownFunction (name : Text)
  | varsDepth (segments : List Text)
  | keyNotFound (key : V)
  | invalidKeyType (key : V)
  | indexNotInteger (index : V)
  | indexOutOfRange (index : ℤ)
  | notIndexable (value : V)
  | notIterator (value : V)

/-- A function of `FUNCTION_MAPPING` and its mapped form. -/
structure Function (V E : Type) where
  call : List V → Except E V
  map : List V → Except E V

/-- `FUNCTION_MAPPING[name].map` from the function: it is called for each tuple of the zipped arguments, where an
argument that is not iterable is repeated. -/
def broadcastMap {V E : Type} (list : List V → V) (items : V → Option (List V)) (call : List V → Except E V)
    (args : List V) : Except E V := do
  match (args.filterMap items).map List.length with
  | [] => return list [← call args]
  | n :: ns =>
    let zipped := (List.range (ns.foldl min n)).map fun i =>
      args.map fun arg => ((items arg).bind fun xs => xs[i]?).getD arg
    return list (← zipped.mapM call)

def boolToken (b : Bool) : Text := if b then "True".toList else "False".toList

/-- The values with their functions, and the operand with what paths find in it. -/
structure Runtime (V E : Type) where
  none : V
  bool : Bool → V
  str : Text → V
  number : Text → Except E V
  list : List V → V
  dict : List (V × V) → V
  truth : V → Bool
  shape : V → Shape V
  asInt : V → Option ℤ
  iterable : V → Bool
  cast : TypeSpecifier → V → Except E V
  operator : Operator → V → V → Except E V
  negate : V → Except E V
  plus : V → Except E V
  functions : Text → Option (Function V E)
  evalJsonpath : Text → Except E V
  cast_boolToken : ∀ b, cast .bool (str (boolToken b)) = .ok (bool b)

variable {V E : Type} (p : Runtime V E)

def raises {A : Type} (x : Except E A) : Except (EvalError V E) A := x.mapError .raised

/-- `MAX_VARS_PATH_DEPTH`. -/
def maxVarsPathDepth : ℕ := 1

/-- The handlers of references. -/
def evalReference : Reference → Except (EvalError V E) V
  | .actions jsonpath => raises (p.evalJsonpath ("ACTIONS".toList ++ jsonpath))
  | .secrets path => raises (p.evalJsonpath ("SECRETS".toList ++ path))
  | .vars path =>
    let trimmed := path.dropWhile (· = '.')
    let parts := if trimmed.isEmpty then [] else trimmed.splitOn '.'
    if parts.tail.length > maxVarsPathDepth then .error (.varsDepth parts)
    else raises (p.evalJsonpath ("VARS".toList ++ path))
  | .env jsonpath => raises (p.evalJsonpath ("ENV".toList ++ jsonpath))
  | .local_vars jsonpath => raises (p.evalJsonpath ("var".toList ++ jsonpath))
  | .trigger jsonpath => raises (p.evalJsonpath ("TRIGGER".toList ++ jsonpath.getD []))
  | .template_action_inputs jsonpath => raises (p.evalJsonpath ("inputs".toList ++ jsonpath))
  | .template_action_steps jsonpath => raises (p.evalJsonpath ("steps".toList ++ jsonpath))

/-- `STRING_LITERAL`: `token.value[1:-1]`. -/
def stringLiteral (token : Text) : Text := (token.drop 1).dropLast

def evalLiteral : Literal → Except (EvalError V E) V
  | .STRING_LITERAL token => .ok (p.str (stringLiteral token))
  | .BOOL_LITERAL b => raises (p.cast .bool (p.str (boolToken b)))
  | .NUMERIC_LITERAL token => raises (p.number token)
  | .NONE_LITERAL => .ok p.none

/-- `value[index]` of a sequence. -/
def itemAt (items : List V) (index : ℤ) : Option V :=
  if 0 ≤ index then items[index.toNat]? else if -index ≤ items.length then items[items.length-(-index).toNat]? else none

def applyIndex (value index : V) : Except (EvalError V E) V :=
  match p.shape value with
  | .mapping get =>
    match get index with
    | none => .error (.invalidKeyType index)
    | some none => .error (.keyNotFound index)
    | some (some item) => .ok item
  | .sequence items =>
    match p.asInt index with
    | none => .error (.indexNotInteger index)
    | some i =>
      match itemAt items i with
      | none => .error (.indexOutOfRange i)
      | some item => .ok item
  | .other => .error (.notIndexable value)

def mapSuffix : Text := ".map".toList

/-- The call that `function` makes. -/
def callFunction (name : Text) (args : List V) : Except (EvalError V E) V :=
  let isMapped := mapSuffix.isSuffixOf name
  let name := if isMapped then name.take (name.length-mapSuffix.length) else name
  match p.functions name with
  | none => .error (.unknownFunction name)
  | some fn => raises (if isMapped then fn.map args else fn.call args)

mutual

/-- `ExprEvaluator`: the children are evaluated first, from left to right. -/
def eval : Expr → Except (EvalError V E) V
  | .reference r => evalReference p r
  | .function name args => do callFunction p name (← evalAll args)
  | .literal l => evalLiteral p l
  | .list .nil => .error .notIterable  -- `list(None)`
  | .list (.cons e es) => do return p.list (← evalAll (.cons e es))
  | .dict .nil => .error .notIterable  -- `dict((None,))`
  | .dict (.cons key value pairs) => do return p.dict (← evalPairs (.cons key value pairs))
  | .primary_expr base indexers => do
    let value ← eval base
    let indices ← evalAll indexers
    indices.foldlM (applyIndex p) value
  | .typecast typename value => do raises (p.cast typename (← eval value))
  | .or_op lhs rhs => do
    let a ← eval lhs
    let b ← eval rhs
    return if p.truth a then a else b
  | .and_op lhs rhs => do
    let a ← eval lhs
    let b ← eval rhs
    return if p.truth a then b else a
  | .binary_op op lhs rhs => do
    let a ← eval lhs
    let b ← eval rhs
    raises (p.operator op a b)
  | .not_op value => do return p.bool (!p.truth (← eval value))
  | .neg_op value => do raises (p.negate (← eval value))
  | .pos_op value => do raises (p.plus (← eval value))
  | .ternary true_value condition false_value => do
    let t ← eval true_value
    let c ← eval condition
    let f ← eval false_value
    return if p.truth c then t else f

def evalAll : Exprs → Except (EvalError V E) (List V)
  | .nil => .ok []
  | .cons e es => do
    let v ← eval e
    let vs ← evalAll es
    return v :: vs

def evalPairs : Pairs → Except (EvalError V E) (List (V × V))
  | .nil => .ok []
  | .cons key value pairs => do
    let v ← eval value
    let rest ← evalPairs pairs
    return (p.str (stringLiteral key),v) :: rest

end

/-- What a tree evaluates to: a value, or the pair of an iterator. -/
inductive Outcome (V : Type)
  | value (v : V)
  | iterable (iter_var_expr : Text) (collection : V)

/-- `ExprEvaluator.evaluate`, without the wrapping of what is raised. -/
def evaluate : Root → Except (EvalError V E) (Outcome V)
  | .expression e => do return .value (← eval p e)
  | .trailing_typecast_expression e typename => do return .value (← raises (p.cast typename (← eval p e)))
  | .iterator iter_var_expr collection => do
    let items ← eval p collection
    if p.iterable items then return .iterable iter_var_expr items else .error (.notIterator items)

end Runtime
end ExprTrees
end Allama

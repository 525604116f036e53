import Allama.Checked
import Allama.Identifiers
import Allama.WordCuts

/-! Texts of lambdas that are accepted (`sandbox/safe_lambda.py`). -/
namespace Allama
namespace SafeLambdas
open WordCuts

/-- Classes of `ast`. -/
inductive NodeType
  | Import | ImportFrom | Global | Nonlocal | Delete | With | AsyncWith | AsyncFor | AsyncFunctionDef | ClassDef | FunctionDef
  | Module | Expression | Load | Store | Lambda | arguments | arg
  | Constant | List | Tuple | Dict | Set | JoinedStr | FormattedValue | Name | Attribute | Subscript | Slice
  | BinOp | UnaryOp | BoolOp | Compare
  | Add | Sub | Mult | Div | FloorDiv | Mod | Pow | LShift | RShift | BitOr | BitXor | BitAnd | MatMult
  | Not | UAdd | USub | Invert | And | Or
  | Eq | NotEq | Lt | LtE | Gt | GtE | Is | IsNot | In | NotIn
  | IfExp | ListComp | DictComp | SetComp | GeneratorExp | comprehension | Call | keyword
  | NamedExpr | Await | Yield | YieldFrom | Starred
deriving DecidableEq, Repr

def DENYLISTED_NODES : List NodeType :=
  [.Import,.ImportFrom,.Global,.Nonlocal,.Delete,.With,.AsyncWith,.AsyncFor,.AsyncFunctionDef,.ClassDef,.FunctionDef]

def ALLOWLISTED_NODE_TYPES : List NodeType :=
  [.Module,.Expression,.Load,.Store,.Lambda,.arguments,.arg,
    .Constant,.List,.Tuple,.Dict,.Set,.JoinedStr,.FormattedValue,.Name,.Attribute,.Subscript,.Slice,
    .BinOp,.UnaryOp,.BoolOp,.Compare,
    .Add,.Sub,.Mult,.Div,.FloorDiv,.Mod,.Pow,.LShift,.RShift,.BitOr,.BitXor,.BitAnd,.MatMult,
    .Not,.UAdd,.USub,.Invert,.And,.Or,
    .Eq,.NotEq,.Lt,.LtE,.Gt,.GtE,.Is,.IsNot,.In,.NotIn,
    .IfExp,.ListComp,.DictComp,.SetComp,.GeneratorExp,.comprehension,.Call,.keyword]

def DENYLISTED_SYMBOLS : List Text :=
  ["eval","exec","compile","__import__","import","from",
    "open","file","input","raw_input","io","pathlib","shutil","tempfile","fileinput","glob","fnmatch",
    "os","sys","subprocess","multiprocessing","threading","signal","resource","sysconfig","platform","ctypes","pickle",
    "marshal","code","types",
    "socket","socketserver","urllib","http","ftplib","telnetlib","smtplib","poplib","imaplib","ssl","asyncio","requests",
    "httpx","aiohttp",
    "getattr","setattr","delattr","hasattr","dir","vars","locals","globals","object","type","__build_class__",
    "__builtins__","help","inspect","traceback","gc",
    "breakpoint","exit","quit","memoryview","bytearray"].map String.toList

def ALLOWED_FUNCTIONS : List Text := ["jsonpath".toList]

/-- `attr.startswith("__") and attr.endswith("__")`. -/
def isDunder (attr : Text) : Bool := "__".toList.isPrefixOf attr && "__".toList.isSuffixOf attr

def isRestricted (name : Text) : Bool := DENYLISTED_SYMBOLS.contains name && !ALLOWED_FUNCTIONS.contains name

inductive Constant
  | None | bool (b : Bool) | int (n : ℤ) | float (literal : Text) | complex (literal : Text) | str (s : Text)
  | bytes (b : List UInt8) | Ellipsis
deriving DecidableEq, Repr

inductive Operator
  | Add | Sub | Mult | Div | FloorDiv | Mod | Pow | LShift | RShift | BitOr | BitXor | BitAnd | MatMult
deriving DecidableEq, Repr

inductive UnaryOp
  | Not | UAdd | USub | Invert
deriving DecidableEq, Repr

inductive CmpOp
  | Eq | NotEq | Lt | LtE | Gt | GtE | Is | IsNot | In | NotIn
deriving DecidableEq, Repr

inductive BoolOp
  | And | Or
deriving DecidableEq, Repr

/-- Expressions of which every operand is evaluated, from left to right, before anything else is done. -/
inductive Kind
  | list | tuple | set | subscript | joinedStr
  | slice (lower upper step : Bool)
  | formattedValue (conversion : Option Char) (format_spec : Bool)
  | binOp (op : Operator)
  | unaryOp (op : UnaryOp)
deriving DecidableEq, Repr

inductive Collection
  | ListComp | SetComp | DictComp | GeneratorExp
deriving DecidableEq, Repr

/-- The names in the arguments of a lambda, and how many of them have a default. -/
structure Params where
  posonlyargs : List Text
  args : List Text
  vararg : Option Text
  kwonlyargs : List (Text × Bool)
  kwarg : Option Text
deriving DecidableEq, Repr

/-- Expression nodes that no lambda may have. -/
inductive OtherNode
  | NamedExpr | Await | Yield | YieldFrom | Starred
deriving DecidableEq, Repr

mutual

/-- Expressions of `ast`, without the contexts of names, which are `Load` or `Store`. -/
inductive Expr
  | constant (value : Constant)
  | name (id : Text)
  | attr (value : Expr) (attr : Text)
  | operation (kind : Kind) (operands : List Expr)
  /-- `None` stands among the keys where a mapping is unpacked. -/
  | dict (unpacked : List Bool) (keys values : List Expr)
  | boolOp (op : BoolOp) (values : List Expr)
  | compare (left : Expr) (ops : List CmpOp) (comparators : List Expr)
  | ifExp (test body orelse : Expr)
  | lambda (params : Params) (kw_defaults defaults : List Expr) (body : Expr)
  | comprehension (kind : Collection) (elts : List Expr) (generators : List Generator)
  | call (func : Expr) (args : List Expr) (keywords : List (Option Text)) (values : List Expr)
  | other (kind : OtherNode) (children : List Expr)

inductive Generator
  | mk (target iter : Expr) (ifs : List Expr) (is_async : Bool)

end

def Operator.nodeType : Operator → NodeType
  | .Add => .Add
  | .Sub => .Sub
  | .Mult => .Mult
  | .Div => .Div
  | .FloorDiv => .FloorDiv
  | .Mod => .Mod
  | .Pow => .Pow
  | .LShift => .LShift
  | .RShift => .RShift
  | .BitOr => .BitOr
  | .BitXor => .BitXor
  | .BitAnd => .BitAnd
  | .MatMult => .MatMult

def UnaryOp.nodeType : UnaryOp → NodeType
  | .Not => .Not
  | .UAdd => .UAdd
  | .USub => .USub
  | .Invert => .Invert

def CmpOp.nodeType : CmpOp → NodeType
  | .Eq => .Eq
  | .NotEq => .NotEq
  | .Lt => .Lt
  | .LtE => .LtE
  | .Gt => .Gt
  | .GtE => .GtE
  | .Is => .Is
  | .IsNot => .IsNot
  | .In => .In
  | .NotIn => .NotIn

def BoolOp.nodeType : BoolOp → NodeType
  | .And => .And
  | .Or => .Or

def Collection.nodeType : Collection → NodeType
  | .ListComp => .ListComp
  | .SetComp => .SetComp
  | .DictComp => .DictComp
  | .GeneratorExp => .GeneratorExp

def OtherNode.nodeType : OtherNode → NodeType
  | .NamedExpr => .NamedExpr
  | .Await => .Await
  | .Yield => .Yield
  | .YieldFrom => .YieldFrom
  | .Starred => .Starred

/-- The classes of the node and of its operators. -/
def Kind.nodeTypes : Kind → List NodeType
  | list => [.List]
  | tuple => [.Tuple]
  | set => [.Set]
  | subscript => [.Subscript]
  | joinedStr => [.JoinedStr]
  | slice _ _ _ => [.Slice]
  | formattedValue _ _ => [.FormattedValue]
  | binOp op => [.BinOp,op.nodeType]
  | unaryOp op => [.UnaryOp,op.nodeType]

/-- What the validator raises a `ValueError` about. -/
inductive Restriction
  | node (type : NodeType)
  | notAllowed (type : NodeType)
  | dunderAttribute (attr : Text)
  | function (name : Text)
  | method (name : Text)
  | module (name : Text)
  | symbol (name : Text)
  | attr (name : Text)
deriving DecidableEq, Repr

def refuse (restricted : Bool) (restriction : Restriction) : Except Restriction Unit :=
  if restricted then .error restriction else .ok ()

def visitType (type : NodeType) : Except Restriction Unit := do
  refuse (DENYLISTED_NODES.contains type) (.node type)
  refuse (!ALLOWLISTED_NODE_TYPES.contains type) (.notAllowed type)

/-- What is checked of the function of a call, at the call. -/
def visitFunc : Expr → Except Restriction Unit
  | .name func_name => refuse (isRestricted func_name) (.function func_name)
  | .attr value attr_name => do
    refuse (isRestricted attr_name) (.method attr_name)
    match value with
    | .name obj_name => refuse (DENYLISTED_SYMBOLS.contains obj_name) (.module obj_name)
    | _ => .ok ()
  | _ => .ok ()

mutual

def visit : Expr → Except Restriction Unit
  | .constant _ => visitType .Constant
  | .name id => do
    visitType .Name
    refuse (isRestricted id) (.symbol id)
  | .attr value attr => do
    visitType .Attribute
    refuse (isDunder attr) (.dunderAttribute attr)
    refuse (isRestricted attr) (.attr attr)
    visit value
  | .operation kind operands => do
    kind.nodeTypes.forM visitType
    visitAll operands
  | .dict _ keys values => do
    visitType .Dict
    visitAll keys
    visitAll values
  | .boolOp op values => do
    visitType .BoolOp
    visitType op.nodeType
    visitAll values
  | .compare left ops comparators => do
    visitType .Compare
    visit left
    ops.forM fun op => visitType op.nodeType
    visitAll comparators
  | .ifExp test body orelse => do
    visitType .IfExp
    visit test
    visit body
    visit orelse
  | .lambda _ kw_defaults defaults body => do
    visitType .Lambda
    [NodeType.arguments,.arg].forM visitType
    visitAll kw_defaults
    visitAll defaults
    visit body
  | .comprehension kind elts generators => do
    visitType kind.nodeType
    visitAll elts
    visitGenerators generators
  | .call func args _ values => do
    visitType .Call
    visitFunc func
    visit func
    visitAll args
    visitType .keyword
    visitAll values
  | .other kind children => do
    visitType kind.nodeType
    visitAll children

def visitAll : List Expr → Except Restriction Unit
  | [] => .ok ()
  | e :: es => do
    visit e
    visitAll es

def visitGenerator : Generator → Except Restriction Unit
  | .mk target iter ifs _ => do
    visitType .comprehension
    visit target
    visit iter
    visitAll ifs

def visitGenerators : List Generator → Except Restriction Unit
  | [] => .ok ()
  | generator :: generators => do
    visitGenerator generator
    visitGenerators generators

end

def MAX_EXPR_LENGTH : ℕ := 1000

def dangerous_patterns : List Text :=
  ["__","\\x","\\u","chr(","ord(",".decode",".encode","base64","codecs"].map String.toList

inductive BuildError
  | tooLong
  | dangerousPattern (pattern : Text)
  | invalidSyntax
  | notLambda
  | restricted (restriction : Restriction)
  /-- What `compile` raises. -/
  | notCompiled
deriving DecidableEq, Repr

/-- The parser of Python and what `compile` finds in a tree. -/
structure Python where
  parse : Text → Option Expr
  compile : Expr → Bool

/-- `build_safe_lambda`, up to the expression that is evaluated. -/
def buildSafeLambda (py : Python) (lambda_expr : Text) : Except BuildError Expr :=
  if lambda_expr.length > MAX_EXPR_LENGTH then .error .tooLong
  else
    match dangerous_patterns.find? (occurs · lambda_expr) with
    | some pattern => .error (.dangerousPattern pattern)
    | none =>
      match py.parse lambda_expr with
      | none => .error .invalidSyntax
      | some (.lambda params kw_defaults defaults body) =>
        match visit (.lambda params kw_defaults defaults body) with
        | .error restriction => .error (.restricted restriction)
        | .ok () =>
          if py.compile (.lambda params kw_defaults defaults body) then .ok (.lambda params kw_defaults defaults body)
          else .error .notCompiled
      | some _ => .error .notLambda

end SafeLambdas
end Allama

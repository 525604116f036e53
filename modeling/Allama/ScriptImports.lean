import Mathlib.Data.List.Infix
import Allama.Identifiers
import Allama.Runs

/-! Scripts without a jail: the validator of syntax trees and the import hook of `sandbox/safe_executor.py`. -/
namespace Allama
namespace SafeScripts

def modules (names : List String) : List Text := names.map String.toList

def safeStdlibModules : List Text := modules
  ["json","csv","base64","binascii","hashlib","hmac","secrets","re","string","textwrap","unicodedata","datetime","time",
    "calendar","zoneinfo","math","decimal","fractions","random","statistics","collections","itertools","functools","operator",
    "copy","pprint","dataclasses","enum","typing","html","xml","urllib.parse","gzip","zipfile","zlib","uuid","contextlib",
    "warnings","logging","traceback","abc","numbers","difflib","fnmatch","struct","io"]

def networkModules : List Text := modules
  ["socket","socketserver","http","http.client","http.server","urllib.request","urllib.error","ftplib","poplib","imaplib",
    "smtplib","telnetlib","ssl","asyncio","aiohttp","requests","httpx","websocket","websockets"]

def systemAccessModules : List Text := modules
  ["os","sys","subprocess","multiprocessing","threading","signal","resource","sysconfig","platform","ctypes","pickle","marshal",
    "code","pty","tty","termios","fcntl","pipes","posix","pwd","grp","spwd","crypt","select","selectors","mmap","shutil",
    "tempfile","pathlib","glob","fileinput"]

/-- `_INTERNAL_MODULES` of the hook. -/
def internalModules : List Text := modules
  ["_ast","_bootstrap","_bootstrap_external","_collections_abc","_frozen_importlib","_frozen_importlib_external","_imp","_io",
    "_opcode","_opcode_metadata","_tokenize","_weakref","_weakrefset","_codecs","_locale","_stat","_posixsubprocess","_signal",
    "_thread","_sre","_functools","_operator","_abc","_struct","_warnings","_string","_random","_sha256","_hashlib","_blake2",
    "_sha512","_sha1","_md5","_sha3","_decimal","_datetime","_bisect","_heapq","_pickle","_json","_lsprof","_contextvars",
    "_asyncio","_queue","_multibytecodec","_codecs_cn","_codecs_hk","_codecs_iso2022","_codecs_jp","_codecs_kr","_codecs_tw",
    "encodings","posixpath","genericpath","ntpath","stat","linecache","tokenize","token","keyword","abc"]

def dangerousBuiltins : List Text := modules ["exec","eval","compile","__import__"]

/-- `name.split(".")[0]`. -/
def getModuleBase (name : Text) : Text := name.takeWhile (· ≠ '.')

/-- `name in modules or base in modules`. -/
def listed (modules : List Text) (name : Text) : Bool := modules.contains name || modules.contains (getModuleBase name)

def submoduleOf (modules : List Text) (name : Text) : Bool := modules.any fun dep => (dep ++ ['.']).isPrefixOf name

section Validator

/-- What a script may import: the modules of its dependencies, and whether network modules count. -/
structure Policy where
  allowed_dependencies : List Text
  allow_network : Bool

def Policy.isModuleAllowed (policy : Policy) (module_name : Text) : Bool :=
  if listed systemAccessModules module_name then false
  else if policy.allowed_dependencies.contains (getModuleBase module_name) then true
  else if submoduleOf policy.allowed_dependencies module_name then true
  else if listed networkModules module_name then policy.allow_network
  else listed safeStdlibModules module_name

structure Alias where
  name : Text
  asname : Option Text

/-- Syntax trees, with the kinds of nodes that the validator looks at and those of straight-line code; every other node has its
children. -/
inductive Node
  | importStmt (names : List Alias)
  | importFrom (module : Option Text) (names : List Alias) (level : ℕ)
  | name (id : Text)
  | constant (value : Text)
  | attributeOf (value : Node) (attr : Text)
  | subscript (value slice : Node)
  | call (func : Node) (args : List Node)
  | assign (target : Text) (value : Node)
  | store (target value : Node)
  | other (children : List Node)

def importMessage (verb : String) (name : Text) : String :=
  if listed systemAccessModules name then
    "Import " ++ verb ++ " system module '" ++ String.ofList name ++ "' is not allowed. " ++
      "System modules like os, sys, subprocess are blocked for security."
  else if listed networkModules name then
    "Import " ++ verb ++ " network module '" ++ String.ofList name ++ "' is not allowed. " ++
      "Network access is disabled in safe execution mode."
  else
    "Import " ++ verb ++ " module '" ++ String.ofList name ++ "' is not allowed. " ++
      "Only safe stdlib modules and declared dependencies are permitted."

def environMessage : String :=
  "Access to 'os.environ' is not allowed. Use the env_vars parameter to inject environment variables."

def dangerousMessage (name : Text) : String :=
  if name = "__import__".toList then
    "Direct calls to __import__ are not allowed. Use regular import statements instead."
  else
    "Calls to '" ++ String.ofList name ++ "' are not allowed. Dynamic code execution is blocked for security."

def visitImport (policy : Policy) (names : List Alias) : List String :=
  (names.filter fun a => !policy.isModuleAllowed a.name).map fun a => importMessage "of" a.name

def visitImportFrom (policy : Policy) : Option Text → List String
  | none => []
  | some [] => []
  | some module => if policy.isModuleAllowed module then [] else [importMessage "from" module]

/-- The node `os.environ`. -/
def Node.isEnviron : Node → Bool
  | .attributeOf (.name id) attr => id = "os".toList && attr = "environ".toList
  | _ => false

def visitCallee : Node → List String
  | .name id => if dangerousBuiltins.contains id then [dangerousMessage id] else []
  | .attributeOf _ attr => if dangerousBuiltins.contains attr then [dangerousMessage attr] else []
  | _ => []

mutual

/-- The errors of a node and of those below it. -/
def visit (policy : Policy) : Node → List String
  | .importStmt names => visitImport policy names
  | .importFrom module _ _ => visitImportFrom policy module
  | .name _ => []
  | .constant _ => []
  | .attributeOf value attr => (if (Node.attributeOf value attr).isEnviron then [environMessage] else []) ++ visit policy value
  | .subscript value slice => (if value.isEnviron then [environMessage] else []) ++ (visit policy value ++ visit policy slice)
  | .call func args => visitCallee func ++ (visit policy func ++ visitAll policy args)
  | .assign _ value => visit policy value
  | .store target value => visit policy target ++ visit policy value
  | .other children => visitAll policy children

def visitAll (policy : Policy) : List Node → List String
  | [] => []
  | node :: nodes => visit policy node ++ visitAll policy nodes

end

/-- `ScriptValidator.validate`, of a script that is parsed to its statements. -/
def validate (policy : Policy) (script : List Node) : List String := visitAll policy script

end Validator

section Hook

/-- The entries of a module's globals that imports read: `__file__`, `__package__`, the parent of `__spec__`, `__name__`, and
whether there is a `__path__`. -/
structure Globals where
  file : Option Text
  package : Option Text
  specParent : Option Text
  name : Option Text
  path : Bool
deriving DecidableEq

/-- A call of `builtins.__import__`. -/
structure ImportCall where
  name : Text
  globals : Option Globals
  level : ℕ
deriving DecidableEq

/-- `_is_import_from_user_script`, where `samefile` tells whether two paths are the same file, if both are there; `none` when
comparing the files raises. -/
def isImportFromUserScript (user_script_path : Text) (samefile : Text → Text → Option Bool) (globals : Option Globals) :
    Option Bool :=
  match globals with
  | none => some true
  | some globals =>
    match globals.file with
    | none => some true
    | some caller_file =>
      if "site-packages".toList <:+: caller_file then some false
      else if user_script_path = [] then some false
      else samefile caller_file user_script_path

/-- The globals of the hook that `_restricted_import` reads, the function with the path and the files that it reads itself. -/
structure Hook where
  wrapper_initialized : Bool
  internal_modules : List Text
  allowed_modules : List Text
  blocked_modules : List Text
  safe_stdlib : List Text
  is_import_from_user_script : Option Globals → Option Bool

/-- `execute` generates the hook from the modules that it validates with, and `main` initializes it before the script. -/
def Policy.hook (policy : Policy) (user_script_path : Text) (samefile : Text → Text → Option Bool) : Hook where
  wrapper_initialized := true
  internal_modules := internalModules
  allowed_modules := policy.allowed_dependencies
  blocked_modules := systemAccessModules ++ if policy.allow_network then [] else networkModules
  safe_stdlib := safeStdlibModules ++ if policy.allow_network then networkModules else []
  is_import_from_user_script := isImportFromUserScript user_script_path samefile

def startsUnderscore (name : Text) : Bool := ['_'].isPrefixOf name || ['_'].isPrefixOf (getModuleBase name)

/-- `_restricted_import`: whether the call is let through. -/
def Hook.restrictedImport (hook : Hook) (call : ImportCall) : Bool :=
  if hook.wrapper_initialized = false then true
  else if startsUnderscore call.name then true
  else if listed hook.internal_modules call.name then true
  else match hook.is_import_from_user_script call.globals with
    | none => false
    | some false => true
    | some true =>
      if listed hook.blocked_modules call.name then false
      else if listed hook.safe_stdlib call.name then true
      else if listed hook.allowed_modules call.name then true
      else submoduleOf hook.allowed_modules call.name

/-- The package that a relative import starts from. -/
def Globals.calcPackage (globals : Globals) : Option Text :=
  match globals.package with
  | some package => some package
  | none =>
    match globals.specParent with
    | some parent => some parent
    | none => globals.name.map fun name =>
      if globals.path then name else if '.' ∈ name then ((name.reverse.dropWhile (· ≠ '.')).drop 1).reverse else []

/-- `_resolve_name`: the name below a package, or below one that is further up. -/
def resolveName (name package : Text) (level : ℕ) : Option Text :=
  let bits := package.splitOn '.'
  if package = [] ∨ bits.length < level then none
  else
    let base := ['.'].intercalate (bits.take (bits.length - (level - 1)))
    some (if name = [] then base else base ++ '.' :: name)

/-- The module that a call imports, unless it raises. -/
def ImportCall.resolve (call : ImportCall) : Option Text :=
  if call.level = 0 then if call.name = [] then none else some call.name
  else call.globals.bind fun globals => globals.calcPackage.bind fun package => resolveName call.name package call.level

end Hook

section Runs

mutual

/-- The calls that the import statements of a node make. -/
def callsOf (globals : Globals) : Node → List ImportCall
  | .importStmt names => names.map fun a => ⟨a.name,some globals,0⟩
  | .importFrom module _ level => [⟨module.getD [],some globals,level⟩]
  | .name _ => []
  | .constant _ => []
  | .attributeOf value _ => callsOf globals value
  | .subscript value slice => callsOf globals value ++ callsOf globals slice
  | .call func args => callsOf globals func ++ callsOfAll globals args
  | .assign _ value => callsOf globals value
  | .store target value => callsOf globals target ++ callsOf globals value
  | .other children => callsOfAll globals children

def callsOfAll (globals : Globals) : List Node → List ImportCall
  | [] => []
  | node :: nodes => callsOf globals node ++ callsOfAll globals nodes

end

/-- What the script's own code does: it sets its globals in any way, an import statement of it runs, or it calls `__import__`
under some name, or runs code with `exec` or `eval` that imports, with any arguments. Under some name `__import__` is the hook, so
that it also binds the hook's globals in any way; and a name that it imports may be a `str` whose class it has written, which
answers the hook as it likes. -/
inductive Action
  | assign (globals : Globals)
  | rebind (hook : Hook)
  | statement (call : ImportCall)
  | dynamic (call : ImportCall)
  | disguised (call : ImportCall) (answer : Bool)

/-- The script's globals, those of the hook, and the modules that the script's own code asked for, with the decision of the hook. -/
structure State where
  globals : Globals
  hook : Hook
  decisions : List (Text × Bool)

def State.decide (call : ImportCall) (decision : Bool) (st : State) : State :=
  match call.resolve with
  | none => st
  | some module => { st with decisions := st.decisions ++ [(module,decision)] }

def next (script : List Node) (st : State) : Action → Option State
  | .assign globals => some { st with globals := globals }
  | .rebind hook => some { st with hook := hook }
  | .statement call =>
    if call ∈ callsOfAll st.globals script then some (st.decide call (st.hook.restrictedImport call)) else none
  | .dynamic call => some (st.decide call (st.hook.restrictedImport call))
  | .disguised call answer => some (st.decide call answer)

def wrapperGlobals (user_script_path : Text) : Globals := ⟨some user_script_path,none,none,some "__main__".toList,false⟩

def started (user_script_path : Text) (hook : Hook) : State := ⟨wrapperGlobals user_script_path,hook,[]⟩

end Runs

section StraightLine

/-- The values of straight-line code. -/
inductive PyValue
  | text (s : Text)
  | importFunction
  | other
deriving DecidableEq

/-- An expression, under the names that are bound. -/
def evaluate (bound : List (Text × PyValue)) : Node → PyValue
  | .constant value => .text value
  | .name id => (bound.lookup id).getD (if id = "__import__".toList then .importFunction else .other)
  | _ => .other

def globalText (bound : List (Text × PyValue)) (id : Text) : Option Text :=
  match bound.lookup id with
  | some (.text s) => some s
  | _ => none

def globalsOf (bound : List (Text × PyValue)) : Globals :=
  ⟨globalText bound "__file__".toList,globalText bound "__package__".toList,none,globalText bound "__name__".toList,false⟩

/-- `bool(value)`, of a text; no other value is asked. -/
def PyValue.truth : PyValue → Bool
  | .text s => s ≠ []
  | _ => true

/-- What straight-line code does: assignments, import statements, calls of what a name is bound to, and assignments to
`_wrapper_initialized` in the globals of the hook. -/
def straightActions (hook : Hook) : List (Text × PyValue) → List Node → List Action
  | _, [] => []
  | bound, .assign target value :: nodes =>
    let bound := (target,evaluate bound value) :: bound
    .assign (globalsOf bound) :: straightActions hook bound nodes
  | bound, .call func [.constant arg] :: nodes =>
    (match evaluate bound func with
      | .importFunction => [.dynamic ⟨arg,none,0⟩]
      | _ => []) ++ straightActions hook bound nodes
  | bound, .store (.subscript (.attributeOf func attr) (.constant key)) value :: nodes =>
    if evaluate bound func = .importFunction ∧ attr = "__globals__".toList ∧ key = "_wrapper_initialized".toList then
      let hook := { hook with wrapper_initialized := (evaluate bound value).truth }
      .rebind hook :: straightActions hook bound nodes
    else straightActions hook bound nodes
  | bound, node :: nodes => (callsOf (globalsOf bound) node).map .statement ++ straightActions hook bound nodes

def wrapperBound (user_script_path : Text) : List (Text × PyValue) :=
  [("__name__".toList,.text "__main__".toList),("__file__".toList,.text user_script_path)]

end StraightLine
end SafeScripts
end Allama

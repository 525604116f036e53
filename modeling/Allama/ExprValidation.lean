import Allama.ExprGuards

/-! Static validation of expressions (`expressions/validator/base.py`, `expressions/validator/validator.py` and
`Expression.validate` of `expressions/core.py`). -/
namespace Allama
namespace ExprTrees

/-- `ExprType`, as far as nodes and findings have it. -/
inductive ExprType
  | GENERIC | ACTION | SECRET | VARIABLE | FUNCTION | ENV | LOCAL_VARS | LITERAL | TYPECAST | ITERATOR | TERNARY | TRIGGER
deriving DecidableEq, Repr

/-- The positional parameters that `inspect.signature` finds. -/
structure Signature where
  required : ℕ
  maximum : ℕ
  has_varargs : Bool

def Signature.accepts (signature : Signature) (provided : ℕ) : Bool :=
  signature.required ≤ provided && (signature.has_varargs || provided ≤ signature.maximum)

/-- What the texts of the findings say. -/
inductive Message (E : Type)
  | unparsable (expr : Text)
  | invalidReference (ref jsonpath : Text)
  | invalidAttribute (prop ref jsonpath : Text)
  | extraSegments (path : Text) (segments : List Text)
  | secretFormat (path : Text)
  | oauthToken (expectedPrefix : Text)
  | variableFormat
  | unknownFunction (fn_name : Text)
  | tooFewArguments (fn_name : Text) (required provided : ℕ)
  | tooManyArguments (fn_name : Text) (maximum provided : ℕ)
  | castError (e : E)
  | iteratorCollection
  | service (msg : Text)

structure Finding (E : Type) where
  type : ExprType
  msg : Message E

inductive OAuthGrantType
  | CLIENT_CREDENTIALS | AUTHORIZATION_CODE
deriving DecidableEq, Repr

/-- What validation uses beside the evaluation: signatures, services and the context, with what Python guarantees
of calls and of casts of texts. -/
structure Validator (V E : Type) (p : Runtime V E) where
  signature : Text → Signature
  items : V → Option (List V)
  isValueError : E → Bool
  action_refs : List Text
  secret_validator : Text → Text → List (Finding E)
  variable_validator : Text → Option Text → List (Finding E)
  oauth_validator : Text → Text → OAuthGrantType → List (Finding E)
  call_arity : ∀ {name : Text} {fn : Function V E} {args : List V}, p.functions name = some fn →
    (signature name).accepts args.length = false → ∃ e, fn.call args = .error e
  map_eq : ∀ {name : Text} {fn : Function V E}, p.functions name = some fn → fn.map = broadcastMap p.list items fn.call
  cast_str : ∀ {typename : TypeSpecifier} {s : Text} {e : E}, p.cast typename (p.str s) = .error e → isValueError e = true

section Nodes
variable {V E : Type} {p : Runtime V E} (v : Validator V E p)

/-- What escapes from the visitor: nothing there catches a `ValueError`, nor what a cast raises beside it. -/
inductive Escape (E : Type)
  | unpack (parts : List Text)
  | raised (e : E)

/-- `TaskResult.model_fields`. -/
def taskResultFields : List Text :=
  ["result".toList,"result_typename".toList,"error".toList,"error_typename".toList,"interaction".toList,"interaction_id".toList,
    "interaction_type".toList,"collection_index".toList]

/-- `actions`. The pattern of `re.match` has to match a beginning of the property only. -/
def visitActions (token : Text) : Except (Escape E) (List (Finding E)) :=
  let jsonpath := token.dropWhile (· = '.')
  match jsonpath.splitOn '.' with
  | ref :: prop :: _ =>
    let reference := if v.action_refs.contains ref then [] else [⟨.ACTION,.invalidReference ref jsonpath⟩]
    let property :=
      if taskResultFields.any (·.isPrefixOf prop) then [] else [⟨.ACTION,.invalidAttribute prop ref jsonpath⟩]
    .ok (reference ++ property)
  | parts => .error (.unpack parts)

/-- `removesuffix`. -/
def removeSuffix (suffix s : Text) : Text := if suffix.isSuffixOf s then s.take (s.length-suffix.length) else s

/-- The part of `secrets` for `<provider_id>_oauth.<key>`. -/
def visitOAuth (name key : Text) : List (Finding E) :=
  let provider_id := removeSuffix "_oauth".toList name
  let expectedPrefix := provider_id.map Char.toUpper
  let invalid := [⟨.SECRET,.oauthToken expectedPrefix⟩]
  if "SERVICE_TOKEN".toList.isSuffixOf key then
    if removeSuffix "_SERVICE_TOKEN".toList key = expectedPrefix then v.oauth_validator provider_id key .CLIENT_CREDENTIALS else invalid
  else if "USER_TOKEN".toList.isSuffixOf key then
    if removeSuffix "_USER_TOKEN".toList key = expectedPrefix then v.oauth_validator provider_id key .AUTHORIZATION_CODE else invalid
  else invalid

/-- `secrets`, with the findings of its task. -/
def visitSecrets (token : Text) : List (Finding E) :=
  let sec_path := token.dropWhile (· = '.')
  match sec_path.splitOn '.' with
  | [name,key] => if "_oauth".toList.isSuffixOf name then visitOAuth v name key else v.secret_validator name key
  | _ :: _ :: extra => [⟨.SECRET,.extraSegments sec_path extra⟩]
  | _ => [⟨.SECRET,.secretFormat sec_path⟩]

/-- `vars`, with the findings of its task. -/
def visitVars (token : Text) : List (Finding E) :=
  let var_path := token.dropWhile (· = '.')
  if var_path.isEmpty then [⟨.VARIABLE,.variableFormat⟩]
  else
    let name := var_path.takeWhile (· ≠ '.')
    v.variable_validator name (if var_path.contains '.' then some (var_path.drop (name.length+1)) else none)

def visitReference : Reference → Except (Escape E) (List (Finding E))
  | .actions jsonpath => visitActions v jsonpath
  | .secrets path => .ok (visitSecrets v path)
  | .vars path => .ok (visitVars v path)
  | .env _ | .local_vars _ | .trigger _ | .template_action_inputs _ | .template_action_steps _ => .ok []

def Exprs.length : Exprs → ℕ
  | .nil => 0
  | .cons _ es => es.length+1

/-- The name without `.map`. -/
def baseName (fn_name : Text) : Text := removeSuffix mapSuffix fn_name

/-- `function`. -/
def visitFunction (fn_name : Text) (provided : ℕ) : List (Finding E) :=
  let fn_name := baseName fn_name
  match p.functions fn_name with
  | none => [⟨.FUNCTION,.unknownFunction fn_name⟩]
  | some _ =>
    let signature := v.signature fn_name
    if provided < signature.required then [⟨.FUNCTION,.tooFewArguments fn_name signature.required provided⟩]
    else if !signature.has_varargs && decide (signature.maximum < provided) then
      [⟨.FUNCTION,.tooManyArguments fn_name signature.maximum provided⟩]
    else []

/-- The text of a literal, as the parser leaves it: quotes are part of it. -/
def literalToken : Literal → Text
  | .STRING_LITERAL token => token
  | .BOOL_LITERAL b => boolToken b
  | .NUMERIC_LITERAL token => token
  | .NONE_LITERAL => "None".toList

/-- `typecast`: the token of a literal is cast, and nothing else. -/
def visitTypecast (typename : TypeSpecifier) : Expr → Except (Escape E) (List (Finding E))
  | .literal l =>
    match p.cast typename (p.str (literalToken l)) with
    | .ok _ => .ok []
    | .error e => if v.isValueError e then .ok [⟨.TYPECAST,.castError e⟩] else .error (.raised e)
  | _ => .ok []

def visitNode : Expr → Except (Escape E) (List (Finding E))
  | .reference r => visitReference v r
  | .function name args => .ok (visitFunction v name args.length)
  | .typecast typename value => visitTypecast v typename value
  | _ => .ok []

/-- `VISITOR_NODE_TO_EXPR_TYPE`. -/
def Expr.exprType : Expr → Option ExprType
  | .reference (.actions _) => some .ACTION
  | .reference (.secrets _) => some .SECRET
  | .reference (.vars _) => some .VARIABLE
  | .reference (.env _) => some .ENV
  | .reference (.local_vars _) => some .LOCAL_VARS
  | .reference (.trigger _) => some .TRIGGER
  | .function _ _ => some .FUNCTION
  | .literal _ => some .LITERAL
  | .typecast _ _ => some .TYPECAST
  | .ternary _ _ _ => some .TERNARY
  | _ => none

def Root.exprType : Root → Option ExprType
  | .expression e => e.exprType
  | .trailing_typecast_expression _ _ => none
  | .iterator _ _ => some .ITERATOR

def visitRoot : Root → List (Finding E)
  | .iterator _ (.reference (.local_vars _)) => [⟨.ITERATOR,.iteratorCollection⟩]
  | _ => []

def visitNodes (r : Root) : Except (Escape E) (List (Finding E)) := do
  return visitRoot r ++ (← r.expr.subtrees.mapM (visitNode v)).flatten

def isExcluded (exclude : List ExprType) : Option ExprType → Bool
  | some type => exclude.contains type
  | none => false

/-- `visit_with_locator`: only the kind of the root is compared with `exclude`. -/
def visitWithLocator (r : Root) (exclude : List ExprType) : Except (Escape E) (List (Finding E)) :=
  if isExcluded exclude r.exprType then .ok [] else visitNodes v r

def validate (parse : Text → Option Root) (expr : Text) (exclude : List ExprType) : Except (Escape E) (List (Finding E)) :=
  match parse expr with
  | none => .ok [⟨.GENERIC,.unparsable expr⟩]
  | some r => visitWithLocator v r exclude

end Nodes
end ExprTrees
end Allama

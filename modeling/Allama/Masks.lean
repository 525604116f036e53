import Allama.Alternations
import Allama.Templates

/-! Masking of secrets in what an action hands back (`secrets/common.py` and `invoke_once` of `executor/service.py`). -/
namespace Allama
namespace Masks

def maskValue : Text := ['*','*','*']

/-- `apply_masks`: the masks in the order in which their set is iterated over. -/
def applyMasks (value : Text) (masks : List Text) : Text :=
  if masks = [] then value
  else
    -- single characters are not masked
    let filteredMasks := masks.filter fun mask => decide (1 < mask.length)
    if filteredMasks = [] then value else Alternations.replace filteredMasks maskValue 0 value

section Model
variable {V : Type}

section Objects
variable (masks : List Text)

mutual

def applyMasksObject : PyObject V → PyObject V
  | .str s => .str (applyMasks s masks)
  | .list items => .list (applyMasksItems items)
  | .dict items => .dict (applyMasksEntries items)
  | .other v => .other v

def applyMasksItems : List (PyObject V) → List (PyObject V)
  | [] => []
  | item :: items => applyMasksObject item :: applyMasksItems items

def applyMasksEntries : List (PyObject V × PyObject V) → List (PyObject V × PyObject V)
  | [] => []
  | (k,v) :: items => (k,applyMasksObject v) :: applyMasksEntries items

end
end Objects

mutual

def traverseLeaves : PyObject V → List (PyObject V)
  | .str s => [.str s]
  | .list items => traverseItems items
  | .dict items => traverseEntries items
  | .other v => [.other v]

def traverseItems : List (PyObject V) → List (PyObject V)
  | [] => []
  | item :: items => traverseLeaves item ++ traverseItems items

def traverseEntries : List (PyObject V × PyObject V) → List (PyObject V)
  | [] => []
  | (_,v) :: items => traverseLeaves v ++ traverseEntries items

end

/-- The members of the set of masks: the texts of the resolved secrets that are longer than one character. `render` is `str`
of what is no string, and has none for `None`. -/
def maskValues (render : V → Option Text) (secrets : PyObject V) : List Text :=
  ((traverseLeaves secrets).filterMap fun
    | .str s => some s
    | .other v => render v
    | _ => none).filter fun text => decide (1 < text.length)

structure ExecutorActionErrorInfo (V : Type) where
  action_name : Text
  type : Text
  message : Text
  filename : Text
  function : Text
  lineno : Option ℕ
  loop_iteration : Option ℕ := none
  loop_vars : Option (PyObject V) := none

/-- An `ExecutionError`, or another exception with its class, its text and its last frame. -/
inductive Raised (V : Type)
  | execution (info : ExecutorActionErrorInfo V)
  | other (type message filename function : Text) (lineno : Option ℕ)

def fromExc (action_name : Text) : Raised V → ExecutorActionErrorInfo V
  | .execution info => info
  | .other type message filename function lineno =>
    { action_name := action_name, type := type, message := message, filename := filename, function := function, lineno := lineno }

/-- An invocation of an action: what its parts return or raise. -/
structure Invocation (V : Type) where
  action_name : Text
  organization_id : Option Text
  prefetch : Except (Raised V) Unit
  prepare : Except (Raised V) Unit
  step : Except (Raised V) (PyObject V)
  iteration : Option ℕ
  local_vars : Option (PyObject V)

def withLoop (inv : Invocation V) (info : ExecutorActionErrorInfo V) : ExecutorActionErrorInfo V :=
  match inv.iteration with
  | none => info
  | some iteration => { info with loop_iteration := some iteration, loop_vars := inv.local_vars }

/-- `invoke_once`. Only a result is masked. -/
def invokeOnce (masks : Option (List Text)) (inv : Invocation V) : Except (Raised V) (PyObject V) :=
  match inv.organization_id with
  | none => .error (.other "ValueError".toList "organization_id is required for action dispatch".toList
      "allama/executor/service.py".toList "invoke_once".toList none)
  | some _ =>
    match inv.prefetch with
    | .error e => .error e
    | .ok () =>
      match inv.prepare with
      | .error e => .error (.execution (withLoop inv (fromExc inv.action_name e)))
      | .ok () =>
        match inv.step with
        | .error e => .error (.execution (withLoop inv (fromExc inv.action_name e)))
        | .ok result =>
          match masks with
          | none => .ok result
          | some masks => if masks = [] then .ok result else .ok (applyMasksObject masks result)

/-- `mask_values`, with the order in which the set is iterated over. Masking can be disabled. -/
def preparedMasks (unsafeDisableSmMasking : Bool) (order : List Text) : Option (List Text) :=
  if unsafeDisableSmMasking then none else some order

end Model
end Masks
end Allama

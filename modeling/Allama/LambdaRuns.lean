import Allama.Behaviours
import Allama.Runs
import Allama.SafeLambdas

/-! Evaluation of lambdas, step by step: what `eval` of a compiled lambda and `sandboxed_wrapper` do
(`sandbox/safe_lambda.py`). -/
namespace Allama
namespace SafeLambdas

/-- Variables and the cells that hold their values, innermost first. -/
abbrev Env := List (Text × ℕ)

/-- `data` are objects of built-in types; functions and generators of expressions are told by their numbers. -/
inductive Value (D : Type)
  | data (d : D)
  | builtin (name : Text)
  | method (name : Text) (self : Value D)
  | function (id : ℕ)
  | generator (id : ℕ)
  | foreign (d : D)
deriving DecidableEq, Repr

abbrev Keywords (D : Type) := List (Option Text × Value D)

/-- What a computation of the runtime asks for: a call, the next value of a generator, or its end. -/
inductive Request (D : Type)
  | call (f : Value D) (args : List (Value D)) (keywords : Keywords D)
  | resume (generator : ℕ)
  | close (generator : ℕ)

/-- A computation of the runtime; it tells the attributes that it reads. -/
abbrev Computation (D E H : Type) := Behaviours.Behaviour (Request D) Text (Value D) E H

/-- What expressions leave to the runtime. -/
inductive Operation (D : Type)
  | expression (kind : Kind)
  | dict (unpacked : List Bool)
  | compare (op : CmpOp)
  | getattr (attr : Text)
  | setattr (attr : Text)
  | setitem
  | truth
  | iter (is_async : Bool)
  | next (is_async : Bool)
  | unpack (count : ℕ)
  | item (index : ℕ)
  /-- An empty collection, to which a comprehension adds its elements. -/
  | display (kind : Collection)
  | add (kind : Collection)
  | call (f : Value D) (keywords : Keywords D)
  /-- The copy of the argument, whose iterations are counted. -/
  | guarded

/-- The runtime of Python, apart from the evaluation of expressions. -/
structure Runtime (D E H : Type) where
  constant : Constant → D
  perform : Operation D → List (Value D) → H → Computation D E H
  isTrue : Value D → Bool
  /-- The values of the parameters, from defaults, defaults of keywords, arguments and keywords. -/
  bind : Params → List (Value D) → List (Value D) → List (Value D) → Keywords D → H → Except E (List (Text × Value D)) × H
  /-- The text of a string. -/
  str : H → Value D → Option Text
  /-- The values that the objects of an evaluation hold. -/
  holds : H → Value D → Prop
  nameOf : D → Text
  isSafeReturn : Value D → Bool
  NameError : Text → E
  TypeError : E
  UnsafeType : E
  StopIteration : E
  isStop : E → Bool
  AlreadyExecuting : E
  /-- What an exception becomes where it leaves a generator. -/
  leaving : E → E

def safe_builtins : List Text :=
  ["abs","min","max","sum","round","len","int","float","str","bool","list","dict","tuple","set","all","any","sorted",
    "reversed","enumerate","zip","range"].map String.toList

/-- `restricted_globals`, with the names of the functions themselves. -/
def restricted_globals : List (Text × Text) :=
  ("jsonpath".toList,"eval_jsonpath".toList) :: safe_builtins.map fun name => (name,name)

structure Closure (D : Type) where
  params : Params
  defaults : List (Value D)
  kw_defaults : List (Value D)
  body : Expr
  env : Env

/-- Where the elements of a comprehension go. -/
inductive Sink (D : Type)
  | collection (kind : Collection) (elements : Value D)
  | generator (id : ℕ)

/-- A comprehension: the iterators of its generators that have begun, innermost first, and the generators behind them. -/
structure Loop (D : Type) where
  sink : Sink D
  elts : List Expr
  env : Env
  begun : List (Value D × Generator)
  pending : List Generator

inductive GeneratorState (D : Type)
  | suspended (loop : Loop D)
  | executing
  | finished

/-- What is done with the operands once they are evaluated. -/
inductive After
  | operation (kind : Kind)
  | dict (unpacked : List Bool)
  | getattr (attr : Text)
  | call (args : ℕ) (keywords : List (Option Text))
  | lambda (params : Params) (defaults : ℕ) (body : Expr)
  | ifExp (body orelse : Expr)
  | boolOp (op : BoolOp) (values : List Expr)
  | compare (ops : List CmpOp) (comparators : List Expr)
  | comprehension (kind : Collection) (elts : List Expr) (generator : Generator) (generators : List Generator)

/-- What a comprehension waits for. -/
inductive Point (D : Type)
  | iterable (generator : Generator)
  | iterator (generator : Generator)
  | next
  | items (targets : List Expr) (rest : List (Expr × Value D))
  | item (items : Value D) (index : ℕ) (target : Expr) (targets : List Expr) (taken rest : List (Expr × Value D))
  | attrObject (attr : Text) (v : Value D) (rest : List (Expr × Value D))
  | itemObject (index : Expr) (v : Value D) (rest : List (Expr × Value D))
  | itemIndex (object v : Value D) (rest : List (Expr × Value D))
  | stored (rest : List (Expr × Value D))
  | condition (ifs : List Expr)
  | tested (ifs : List Expr)
  | element (done : List (Value D)) (todo : List Expr)
  | added

inductive Frame (D E H : Type)
  | operand (done : List (Value D)) (todo : List Expr) (env : Env) (after : After)
  | answer (answer : Except E (Value D) → H → Computation D E H)
  | branch (body orelse : Expr) (env : Env)
  | shortCircuit (op : BoolOp) (v : Value D) (values : List Expr) (env : Env)
  | compared (right : Value D) (ops : List CmpOp) (comparators : List Expr) (env : Env)
  | chained (result right : Value D) (ops : List CmpOp) (comparators : List Expr) (env : Env)
  | iterated (kind : Collection) (elts : List Expr) (env : Env) (generator : Generator) (generators : List Generator)
  | displayed (iterator : Value D) (kind : Collection) (elts : List Expr) (env : Env) (generator : Generator)
    (generators : List Generator)
  | loop (loop : Loop D) (point : Point D)
  /-- The lambda is built, and called with a copy of the argument. -/
  | built (x : Value D)
  | copied (f : Value D)
  | result

inductive Control (D E H : Type)
  | eval (e : Expr) (env : Env)
  | collect (done : List (Value D)) (todo : List Expr) (env : Env) (after : After)
  | run (computation : Computation D E H)
  | call (f : Value D) (args : List (Value D)) (keywords : Keywords D)
  | resume (generator : ℕ)
  | advance (loop : Loop D)
  | assign (targets : List (Expr × Value D)) (loop : Loop D)
  | tests (ifs : List Expr) (loop : Loop D)
  | elements (done : List (Value D)) (todo : List Expr) (loop : Loop D)
  | value (v : Value D)
  | error (e : E)

/-- What an evaluation does that its text was checked for: an expression or the field of a format string reads an attribute, or
a function is called. What the interpreter looks up in types on its own is no such reading. -/
inductive Event
  | reads (attr : Text)
  | calls (name : Text)
deriving DecidableEq, Repr

structure State (D E H : Type) where
  control : Control D E H
  frames : List (Frame D E H)
  cells : List (Option (Value D))
  functions : List (Closure D)
  generators : List (GeneratorState D)
  heap : H
  events : List Event

variable {D E H : Type} (R : Runtime D E H)

def Value.name : Value D → Option Text
  | data _ | generator _ => none
  | builtin name | method name _ => some name
  | function _ => some "<lambda>".toList
  | foreign d => some (R.nameOf d)

/-- The operands of a dict display. -/
def dictOperands : List Bool → List Expr → List Expr → List Expr
  | true :: unpacked, keys, value :: values => value :: dictOperands unpacked keys values
  | false :: unpacked, key :: keys, value :: values => key :: value :: dictOperands unpacked keys values
  | _, _, _ => []

mutual

def targetNames : Expr → List Text
  | .name id => [id]
  | .operation .tuple targets | .operation .list targets => targetNamesAll targets
  | _ => []

def targetNamesAll : List Expr → List Text
  | [] => []
  | target :: targets => targetNames target ++ targetNamesAll targets

end

def boundNames (generators : List Generator) : List Text :=
  generators.flatMap fun | .mk target _ _ _ => targetNames target

namespace State

def goto (st : State D E H) (control : Control D E H) : State D E H := { st with control := control }

def push (st : State D E H) (frame : Frame D E H) (control : Control D E H) : State D E H :=
  { st with control := control, frames := frame :: st.frames }

def tell (st : State D E H) (event : Event) : State D E H := { st with events := st.events ++ [event] }

def setGenerator (st : State D E H) (id : ℕ) (state : GeneratorState D) : State D E H :=
  { st with generators := st.generators.set id state }

/-- The runtime performs an operation. -/
def perform (st : State D E H) (op : Operation D) (args : List (Value D)) : State D E H :=
  st.goto (.run (R.perform op args st.heap))

def ask (st : State D E H) (frame : Frame D E H) (op : Operation D) (args : List (Value D)) : State D E H :=
  st.push frame (.run (R.perform op args st.heap))

def bind (st : State D E H) (names : List Text) (values : List (Option (Value D))) (env : Env) : State D E H × Env :=
  ({ st with cells := st.cells ++ values },names.zipIdx st.cells.length ++ env)

def lookup (st : State D E H) (id : Text) (env : Env) : Option (Value D) :=
  match env.lookup id with
  | some cell => (st.cells[cell]?).join
  | none => (restricted_globals.lookup id).map .builtin

end State

def evaluate (st : State D E H) (e : Expr) (env : Env) : Option (State D E H) :=
  match e with
  | .constant c => some (st.goto (.value (.data (R.constant c))))
  | .name id =>
    match st.lookup id env with
    | some v => some (st.goto (.value v))
    | none => some (st.goto (.error (R.NameError id)))
  | .attr value attr => some (st.goto (.collect [] [value] env (.getattr attr)))
  | .operation kind operands => some (st.goto (.collect [] operands env (.operation kind)))
  | .dict unpacked keys values => some (st.goto (.collect [] (dictOperands unpacked keys values) env (.dict unpacked)))
  | .boolOp op (value :: values) => some (st.goto (.collect [] [value] env (.boolOp op values)))
  | .compare left ops (right :: comparators) => some (st.goto (.collect [] [left,right] env (.compare ops comparators)))
  | .ifExp test body orelse => some (st.goto (.collect [] [test] env (.ifExp body orelse)))
  | .lambda params kw_defaults defaults body =>
    some (st.goto (.collect [] (defaults ++ kw_defaults) env (.lambda params defaults.length body)))
  | .comprehension kind elts (.mk target iter ifs is_async :: generators) =>
    some (st.goto (.collect [] [iter] env (.comprehension kind elts (.mk target iter ifs is_async) generators)))
  | .call func args keywords values => some (st.goto (.collect [] (func :: (args ++ values)) env (.call args.length keywords)))
  | .boolOp _ [] | .compare _ _ [] | .comprehension _ _ [] | .other _ _ => none

def apply (st : State D E H) (operands : List (Value D)) (env : Env) (after : After) : Option (State D E H) :=
  match after, operands with
  | .operation kind, vs => some (st.perform R (.expression kind) vs)
  | .dict unpacked, vs => some (st.perform R (.dict unpacked) vs)
  | .getattr attr, [v] => some ((st.tell (.reads attr)).perform R (.getattr attr) [v])
  | .call args keywords, f :: vs => some (st.goto (.call f (vs.take args) (keywords.zip (vs.drop args))))
  | .lambda params defaults body, vs =>
    some { st with
      control := .value (.function st.functions.length)
      functions := st.functions ++ [⟨params,vs.take defaults,vs.drop defaults,body,env⟩] }
  | .ifExp body orelse, [v] => some (st.ask R (.branch body orelse env) .truth [v])
  | .boolOp _ [], [v] => some (st.goto (.value v))
  | .boolOp op (e :: es), [v] => some (st.ask R (.shortCircuit op v (e :: es) env) .truth [v])
  | .compare (op :: _) [], [left,right] => some (st.perform R (.compare op) [left,right])
  | .compare (op :: ops) (e :: es), [left,right] =>
    some (st.ask R (.compared right ops (e :: es) env) (.compare op) [left,right])
  | .comprehension kind elts (.mk target iter ifs is_async) generators, [v] =>
    some (st.ask R (.iterated kind elts env (.mk target iter ifs is_async) generators) (.iter is_async) [v])
  | _, _ => none

def call (st : State D E H) (f : Value D) (args : List (Value D)) (keywords : Keywords D) : Option (State D E H) :=
  match f with
  | .data _ | .generator _ => some (st.goto (.error R.TypeError))
  | .function id =>
    (st.functions[id]?).map fun c =>
      match R.bind c.params c.defaults c.kw_defaults args keywords st.heap with
      | (.error e,h) => { st with control := .error e, heap := h }
      | (.ok bindings,h) =>
        let (st',env) := st.bind (bindings.map Prod.fst) (bindings.map fun b => some b.2) c.env
        { st' with control := .eval c.body env, heap := h }
  | f => some (st.perform R (.call f keywords) args)

/-- The next step of a computation of the runtime. -/
def run (st : State D E H) : Computation D E H → State D E H
  | .returns v h => { st with control := .value v, heap := h }
  | .raises e h => { st with control := .error e, heap := h }
  | .asks (.call f args keywords) h answer =>
    { st with control := .call f args keywords, frames := .answer answer :: st.frames, heap := h }
  | .asks (.resume id) h answer => { st with control := .resume id, frames := .answer answer :: st.frames, heap := h }
  | .asks (.close id) h answer =>
    match st.generators[id]? with
    | some .executing => { st with control := .run (answer (.error R.AlreadyExecuting) h), heap := h }
    | _ => { st.setGenerator id .finished with control := .run (answer (.ok (.data (R.constant .None))) h), heap := h }
  | .tells attr next => (st.tell (.reads attr)).goto (.run next)

def resume (st : State D E H) (id : ℕ) : Option (State D E H) :=
  (st.generators[id]?).map fun
    | .suspended loop => (st.setGenerator id .executing).goto (.advance loop)
    | .executing => st.goto (.error R.AlreadyExecuting)
    | .finished => st.goto (.error R.StopIteration)

def advance (st : State D E H) (loop : Loop D) : State D E H :=
  match loop.begun, loop.sink with
  | (iterator,.mk _ _ _ is_async) :: _, _ => st.ask R (.loop loop .next) (.next is_async) [iterator]
  | [], .collection _ elements => st.goto (.value elements)
  | [], .generator id => (st.setGenerator id .finished).goto (.error R.StopIteration)

def assign (st : State D E H) (targets : List (Expr × Value D)) (loop : Loop D) : Option (State D E H) :=
  match targets with
  | [] =>
    match loop.begun with
    | (_,.mk _ _ ifs _) :: _ => some (st.goto (.tests ifs loop))
    | [] => none
  | (.name id,v) :: rest =>
    (loop.env.lookup id).map fun cell => { st with control := .assign rest loop, cells := st.cells.set cell (some v) }
  | (.operation .tuple ts,v) :: rest | (.operation .list ts,v) :: rest =>
    some (st.ask R (.loop loop (.items ts rest)) (.unpack ts.length) [v])
  | (.attr object attr,v) :: rest => some (st.push (.loop loop (.attrObject attr v rest)) (.eval object loop.env))
  | (.operation .subscript [object,index],v) :: rest =>
    some (st.push (.loop loop (.itemObject index v rest)) (.eval object loop.env))
  | _ => none

def tests (st : State D E H) (ifs : List Expr) (loop : Loop D) : State D E H :=
  match ifs, loop.pending with
  | e :: ifs, _ => st.push (.loop loop (.condition ifs)) (.eval e loop.env)
  | [], [] => st.goto (.elements [] loop.elts loop)
  | [], .mk target iter ifs is_async :: generators =>
    st.push (.loop { loop with pending := generators } (.iterable (.mk target iter ifs is_async))) (.eval iter loop.env)

def elements (st : State D E H) (done : List (Value D)) (todo : List Expr) (loop : Loop D) : Option (State D E H) :=
  match todo, loop.sink, done with
  | e :: todo, _, done => some (st.push (.loop loop (.element done todo)) (.eval e loop.env))
  | [], .collection kind elements, done => some (st.ask R (.loop loop .added) (.add kind) (elements :: done))
  | [], .generator id, [v] => some ((st.setGenerator id (.suspended loop)).goto (.value v))
  | [], .generator _, _ => none

def takeItem (st : State D E H) (items : Value D) (index : ℕ) (targets : List Expr) (taken rest : List (Expr × Value D))
    (loop : Loop D) : State D E H :=
  match targets with
  | [] => st.goto (.assign (taken ++ rest) loop)
  | target :: targets => st.ask R (.loop loop (.item items (index+1) target targets taken rest)) (.item index) [items]

/-- A comprehension goes on with what it waited for. -/
def proceed (st : State D E H) (v : Value D) (loop : Loop D) : Point D → Option (State D E H)
  | .iterable (.mk target iter ifs is_async) =>
    some (st.ask R (.loop loop (.iterator (.mk target iter ifs is_async))) (.iter is_async) [v])
  | .iterator generator => some (st.goto (.advance { loop with begun := (v,generator) :: loop.begun }))
  | .next =>
    match loop.begun with
    | (_,.mk target _ _ _) :: _ => some (st.goto (.assign [(target,v)] loop))
    | [] => none
  | .items targets rest => some (takeItem R st v 0 targets [] rest loop)
  | .item items index target targets taken rest => some (takeItem R st items index targets (taken ++ [(target,v)]) rest loop)
  | .attrObject attr w rest => some (st.ask R (.loop loop (.stored rest)) (.setattr attr) [v,w])
  | .itemObject index w rest => some (st.push (.loop loop (.itemIndex v w rest)) (.eval index loop.env))
  | .itemIndex object w rest => some (st.ask R (.loop loop (.stored rest)) .setitem [object,v,w])
  | .stored rest => some (st.goto (.assign rest loop))
  | .condition ifs => some (st.ask R (.loop loop (.tested ifs)) .truth [v])
  | .tested ifs => some (st.goto (if R.isTrue v then .tests ifs loop else .advance loop))
  | .element done todo => some (st.goto (.elements (done ++ [v]) todo loop))
  | .added => some (st.goto (.advance loop))

/-- A comprehension with cells for its variables. -/
def begin (st : State D E H) (sink : Sink D) (iterator : Value D) (elts : List Expr) (env : Env) (generator : Generator)
    (generators : List Generator) : State D E H × Loop D :=
  let names := boundNames (generator :: generators)
  let (st,env) := st.bind names (names.map fun _ => none) env
  (st,⟨sink,elts,env,[(iterator,generator)],generators⟩)

/-- The elements of a generator are left for later. -/
def makeGenerator (st : State D E H) (iterator : Value D) (elts : List Expr) (env : Env) (generator : Generator)
    (generators : List Generator) : State D E H :=
  let id := st.generators.length
  let (st,loop) := begin st (.generator id) iterator elts env generator generators
  { st with control := .value (.generator id), generators := st.generators ++ [.suspended loop] }

/-- A value comes back to the frame that waits for it. -/
def comeBack (st : State D E H) (v : Value D) : Frame D E H → Option (State D E H)
  | .operand done todo env after => some (st.goto (.collect (done ++ [v]) todo env after))
  | .answer answer => some (st.goto (.run (answer (.ok v) st.heap)))
  | .branch body orelse env => some (st.goto (.eval (if R.isTrue v then body else orelse) env))
  | .shortCircuit op w (e :: es) env =>
    some (st.goto (if R.isTrue v = decide (op = .And) then .collect [] [e] env (.boolOp op es) else .value w))
  | .shortCircuit _ _ [] _ => none
  | .compared right ops comparators env => some (st.ask R (.chained v right ops comparators env) .truth [v])
  | .chained result right ops (e :: es) env =>
    some (st.goto (if R.isTrue v then .collect [right] [e] env (.compare ops es) else .value result))
  | .chained _ _ _ [] _ => none
  | .iterated .GeneratorExp elts env generator generators => some (makeGenerator st v elts env generator generators)
  | .iterated kind elts env generator generators =>
    some (st.ask R (.displayed v kind elts env generator generators) (.display kind) [])
  | .displayed iterator kind elts env generator generators =>
    let (st,loop) := begin st (.collection kind v) iterator elts env generator generators
    some (st.goto (.advance loop))
  | .loop loop point => proceed R st v loop point
  | .built x => some (st.ask R (.copied v) .guarded [x])
  | .copied f => some (st.push .result (.call f [v] []))
  | .result => some (st.goto (if R.isSafeReturn v then .value v else .error R.UnsafeType))

def Point.isNext : Point D → Bool
  | next => true
  | _ => false

/-- An exception leaves a frame, or ends the innermost iterator of a comprehension. Only computations of the runtime catch
exceptions, since expressions do not. -/
def unwind (st : State D E H) (e : E) : Frame D E H → State D E H
  | .answer answer => st.goto (.run (answer (.error e) st.heap))
  | .loop loop point =>
    -- the generator behind an iterator that ends is begun anew for the next value of the one before it
    match point.isNext && R.isStop e, loop.begun, loop.sink with
    | true, (_,generator) :: begun, _ => st.goto (.advance { loop with begun := begun, pending := generator :: loop.pending })
    | _, _, .generator id => (st.setGenerator id .finished).goto (.error (R.leaving e))
    | _, _, .collection _ _ => st.goto (.error e)
  | _ => st.goto (.error e)

def step (st : State D E H) : Option (State D E H) :=
  match st.control with
  | .eval e env => evaluate R st e env
  | .collect done (e :: todo) env after => some (st.push (.operand done todo env after) (.eval e env))
  | .collect done [] env after => apply R st done env after
  | .run computation => some (run R st computation)
  -- the call is told before it is made
  | .call f args keywords => call R ((f.name R).elim st fun name => st.tell (.calls name)) f args keywords
  | .resume id => resume R st id
  | .advance loop => some (advance R st loop)
  | .assign targets loop => assign R st targets loop
  | .tests ifs loop => some (tests st ifs loop)
  | .elements done todo loop => elements R st done todo loop
  | .value v =>
    match st.frames with
    | frame :: frames => comeBack R { st with frames := frames } v frame
    | [] => none
  | .error e =>
    match st.frames with
    | frame :: frames => some (unwind R { st with frames := frames } e frame)
    | [] => none

/-- The lambda is built from its text and called with an argument. The bound on the depth of its recursion, which only cuts
evaluations off, is left out. -/
def start (tree : Expr) (x : Value D) (h : H) : State D E H := ⟨.eval tree [],[.built x],[],[],[],h,[]⟩

/-- Evaluations take one step after the other. -/
def next (st : State D E H) (_ : Unit) : Option (State D E H) := step R st

end SafeLambdas
end Allama

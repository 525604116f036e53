import Allama.Checked
import Allama.FormatFields
import Allama.LambdaRuns
import Allama.RecordFields

/-! What an accepted lambda reads and calls while it is evaluated. -/
namespace Allama
namespace SafeLambdas
open Behaviours FormatFields
variable {D E H : Type} (R : Runtime D E H)

/-- Attributes that give objects of the interpreter: base classes, which a generic alias tells as its class does,
and the frames and code of generators. -/
def introspective (v : Value D) (attr : Text) : Bool :=
  attr = "mro".toList ||
    match v with
    | .generator _ => ["gi_frame","gi_code","ag_frame","ag_code"].any fun name => attr = name.toList
    | _ => false

/-- The string whose fields a method formats: its own, or its first argument where it was read of the class. -/
def formatted (h : H) (f : Value D) (args : List (Value D)) : Option Text :=
  match f with
  | .method name self =>
    if name = "format".toList ∨ name = "format_map".toList then
      match self with
      | .builtin _ => args.head?.bind (R.str h)
      | self => R.str h self
    else none
  | _ => none

def fieldsRead (h : H) (f : Value D) (args : List (Value D)) : List Text :=
  ((formatted R h f args).map formatAttributes).getD []

def Operation.reads (h : H) (args : List (Value D)) : Operation D → List Text
  | call f _ => fieldsRead R h f args
  | _ => []

def Keywords.All (S : Value D → Prop) (keywords : Keywords D) : Prop := ∀ keyword ∈ keywords, S keyword.2

def Request.All (S : Value D → Prop) : Request D → Prop
  | call f args keywords => S f ∧ (∀ v ∈ args, S v) ∧ keywords.All S
  | resume id | close id => S (.generator id)

/-- Values of `S` only, and attributes of `A` only. -/
def bounds (S : Value D → Prop) (A : Text → Prop) : Bounds (Request D) Text (Value D) H where
  value := S
  heap h := ∀ v, R.holds h v → S v
  request := Request.All S
  act := A

/-- What an operation may be asked for among values of `S`. -/
def Operation.Within (S : Value D → Prop) (args : List (Value D)) : Operation D → Prop
  | getattr attr => ∀ v ∈ args, introspective v attr = false ∧ S (.method attr v)
  | call f keywords => S f ∧ keywords.All S ∧ ∀ name self, f = .method name self → introspective self name = false
  | _ => True

/-- A set of values to which the objects of the built-in types belong, but no others that the interpreter has. -/
structure Ordinary (S : Value D → Prop) : Prop where
  data : ∀ d, S (.data d)
  foreign : ∀ d, ¬S (.foreign d)

/-- The runtime has functions from nowhere but its operands and the objects that it finds there, apart from the method that
an attribute names and from what introspection gives; and it reads no attributes by their names, apart from those that the
fields of a format string name. -/
structure Runtime.Lawful : Prop where
  perform : ∀ (S : Value D → Prop) (A : Text → Prop) op args h, Ordinary S → op.Within S args → (∀ v ∈ args, S v) →
    (∀ v, R.holds h v → S v) → (∀ attr ∈ op.reads R h args, A attr) → Confined (bounds R S A) (R.perform op args h)
  bind : ∀ (S : Value D → Prop) params defaults kw_defaults args keywords h, Ordinary S → (∀ v ∈ defaults, S v) →
    (∀ v ∈ kw_defaults, S v) → (∀ v ∈ args, S v) → Keywords.All S keywords → (∀ v, R.holds h v → S v) →
    (∀ v, R.holds (R.bind params defaults kw_defaults args keywords h).2 v → S v) ∧
    ∀ bindings, (R.bind params defaults kw_defaults args keywords h).1 = .ok bindings → ∀ b ∈ bindings, S b.2

/-- No attribute between double underscores, and none of the functions that are denied. -/
def Event.Allowed : Event → Prop
  | reads attr => isDunder attr = false
  | calls name => name ∉ DENYLISTED_SYMBOLS

/-- The step asks for no base classes, frames or code, and formats no string with a field that names an attribute between
double underscores. -/
def isGuarded (st : State D E H) : Bool :=
  match st.control with
  | .collect [v] [] _ (.getattr attr) => !introspective v attr
  | .call f args _ => (fieldsRead R st.heap f args).all fun attr => !isDunder attr
  | _ => true

/-- The steps of a guarded evaluation. -/
def Guarded (st : State D E H) (_ : Unit) : Prop := isGuarded R st = true

/-- Objects of built-in types. -/
def Value.IsData (v : Value D) : Prop := ∃ d, v = .data d

/-! Expressions that pass the validator. -/

theorem refuse_eq_ok {restricted : Bool} {restriction : Restriction} : refuse restricted restriction = .ok () ↔ restricted = false := by
  cases restricted <;> simp [refuse]

theorem not_denied {name : Text} (h : isRestricted name = false) : name ∉ DENYLISTED_SYMBOLS := by
  intro hmem
  have hallowed : ∀ name ∈ ALLOWED_FUNCTIONS, name ∉ DENYLISTED_SYMBOLS := by decide
  rw [isRestricted, List.contains_iff_mem.2 hmem, Bool.true_and, Bool.not_eq_false'] at h
  exact hallowed name (List.contains_iff_mem.1 h) hmem

-- the equations of the visitor, one for each kind of node
attribute [local simp] visit visitGenerator

abbrev Expr.Passes (e : Expr) : Prop := visit e = .ok ()

abbrev Generator.Passes (g : Generator) : Prop := visitGenerator g = .ok ()

theorem visitAll_eq_ok {es : List Expr} : visitAll es = .ok () ↔ ∀ e ∈ es, e.Passes := by
  induction es with
  | nil => simp [visitAll]
  | cons e es ih =>
    rw [visitAll, Checked.bind_eq_ok, List.forall_mem_cons, ← ih]
    exact ⟨fun ⟨_,he,hes⟩ => ⟨he,hes⟩,fun ⟨he,hes⟩ => ⟨(),he,hes⟩⟩

theorem visitGenerators_eq_ok {gs : List Generator} : visitGenerators gs = .ok () ↔ ∀ g ∈ gs, g.Passes := by
  induction gs with
  | nil => simp [visitGenerators]
  | cons g gs ih =>
    rw [visitGenerators, Checked.bind_eq_ok, List.forall_mem_cons, ← ih]
    exact ⟨fun ⟨_,hg,hgs⟩ => ⟨hg,hgs⟩,fun ⟨hg,hgs⟩ => ⟨(),hg,hgs⟩⟩

theorem both_ok {x y : Except Restriction Unit} (h : (do x; y) = .ok ()) : x = .ok () ∧ y = .ok () := by
  obtain ⟨_,hx,hy⟩ := Checked.bind_eq_ok.1 h
  exact ⟨hx,hy⟩

section
variable {e e' e'' value : Expr} {es es' es'' : List Expr} {gs : List Generator}

theorem passes_attr {attr : Text} (h : (Expr.attr value attr).Passes) :
    isDunder attr = false ∧ attr ∉ DENYLISTED_SYMBOLS ∧ value.Passes := by
  unfold Expr.Passes at h
  rw [visit] at h
  obtain ⟨_,h⟩ := both_ok h
  obtain ⟨hdunder,h⟩ := both_ok h
  obtain ⟨hrestricted,hvalue⟩ := both_ok h
  exact ⟨refuse_eq_ok.1 hdunder,not_denied (refuse_eq_ok.1 hrestricted),hvalue⟩

theorem passes_operation {kind : Kind} (h : (Expr.operation kind es).Passes) : ∀ e ∈ es, e.Passes := by
  unfold Expr.Passes at h
  rw [visit] at h
  exact visitAll_eq_ok.1 (both_ok h).2

theorem passes_dict {unpacked : List Bool} (h : (Expr.dict unpacked es es').Passes) :
    (∀ e ∈ es, e.Passes) ∧ ∀ e ∈ es', e.Passes := by
  unfold Expr.Passes at h
  rw [visit] at h
  obtain ⟨hkeys,hvalues⟩ := both_ok (both_ok h).2
  exact ⟨visitAll_eq_ok.1 hkeys,visitAll_eq_ok.1 hvalues⟩

theorem passes_boolOp {op : BoolOp} (h : (Expr.boolOp op es).Passes) : ∀ e ∈ es, e.Passes := by
  unfold Expr.Passes at h
  rw [visit] at h
  exact visitAll_eq_ok.1 (both_ok (both_ok h).2).2

theorem passes_compare {ops : List CmpOp} (h : (Expr.compare e ops es).Passes) : e.Passes ∧ ∀ e ∈ es, e.Passes := by
  unfold Expr.Passes at h
  rw [visit] at h
  obtain ⟨hleft,h⟩ := both_ok (both_ok h).2
  exact ⟨hleft,visitAll_eq_ok.1 (both_ok h).2⟩

theorem passes_ifExp (h : (Expr.ifExp e e' e'').Passes) : e.Passes ∧ e'.Passes ∧ e''.Passes := by
  unfold Expr.Passes at h
  rw [visit] at h
  obtain ⟨htest,h⟩ := both_ok (both_ok h).2
  exact ⟨htest,both_ok h⟩

theorem passes_lambda {params : Params} (h : (Expr.lambda params es es' e).Passes) :
    (∀ e ∈ es, e.Passes) ∧ (∀ e ∈ es', e.Passes) ∧ e.Passes := by
  unfold Expr.Passes at h
  rw [visit] at h
  obtain ⟨hkeywords,h⟩ := both_ok (both_ok (both_ok h).2).2
  obtain ⟨hdefaults,hbody⟩ := both_ok h
  exact ⟨visitAll_eq_ok.1 hkeywords,visitAll_eq_ok.1 hdefaults,hbody⟩

theorem passes_comprehension {kind : Collection} (h : (Expr.comprehension kind es gs).Passes) :
    (∀ e ∈ es, e.Passes) ∧ ∀ g ∈ gs, g.Passes := by
  unfold Expr.Passes at h
  rw [visit] at h
  obtain ⟨helts,hgenerators⟩ := both_ok (both_ok h).2
  exact ⟨visitAll_eq_ok.1 helts,visitGenerators_eq_ok.1 hgenerators⟩

theorem passes_call {keywords : List (Option Text)} (h : (Expr.call e es keywords es').Passes) :
    e.Passes ∧ (∀ e ∈ es, e.Passes) ∧ ∀ e ∈ es', e.Passes := by
  unfold Expr.Passes at h
  rw [visit] at h
  obtain ⟨hfunc,h⟩ := both_ok (both_ok (both_ok h).2).2
  obtain ⟨hargs,h⟩ := both_ok h
  exact ⟨hfunc,visitAll_eq_ok.1 hargs,visitAll_eq_ok.1 (both_ok h).2⟩

theorem passes_generator {target iter : Expr} {ifs : List Expr} {is_async : Bool}
    (h : (Generator.mk target iter ifs is_async).Passes) : target.Passes ∧ iter.Passes ∧ ∀ e ∈ ifs, e.Passes := by
  unfold Generator.Passes at h
  rw [visitGenerator] at h
  obtain ⟨htarget,h⟩ := both_ok (both_ok h).2
  obtain ⟨hiter,hifs⟩ := both_ok h
  exact ⟨htarget,hiter,visitAll_eq_ok.1 hifs⟩

end

theorem mem_dictOperands {e : Expr} {unpacked : List Bool} {keys values : List Expr}
    (h : e ∈ dictOperands unpacked keys values) : e ∈ keys ∨ e ∈ values := by
  fun_induction dictOperands with
  | case1 unpacked keys value values ih =>
    rcases List.mem_cons.1 h with rfl | h
    · exact .inr List.mem_cons_self
    · exact (ih h).imp_right (List.mem_cons_of_mem _)
  | case2 unpacked key keys value values ih =>
    rcases List.mem_cons.1 h with rfl | h
    · exact .inl List.mem_cons_self
    rcases List.mem_cons.1 h with rfl | h
    · exact .inr List.mem_cons_self
    · exact (ih h).imp (List.mem_cons_of_mem _) (List.mem_cons_of_mem _)
  | case3 => cases h

theorem passes_of_accepted {py : Python} {lambda_expr : Text} {tree : Expr} (h : buildSafeLambda py lambda_expr = .ok tree) :
    tree.Passes := by
  unfold buildSafeLambda at h
  split at h
  · cases h
  split at h
  · cases h
  split at h
  · cases h
  · split at h
    · cases h
    · rename_i hvisit
      split at h
      · cases h
        exact hvisit
      · cases h
  · cases h

/-- Operations that neither read an attribute nor call a function. -/
def Operation.Plain : Operation D → Prop
  | getattr _ | call _ _ => False
  | _ => True

theorem Operation.within_of_plain {S : Value D → Prop} (op : Operation D) (h : op.Plain) (args : List (Value D)) :
    op.Within S args := by
  cases op <;> first | exact h.elim | exact trivial

theorem Operation.reads_of_plain (op : Operation D) (h : op.Plain) (h' : H) (args : List (Value D)) :
    op.reads R h' args = [] := by
  cases op <;> first | exact h.elim | rfl

/-! What every state of a guarded evaluation keeps. -/

/-- Values that are no denied functions and no introspection, and of which no denied method is bound. -/
def Value.Safe : Value D → Prop
  | data _ | function _ | generator _ => True
  | builtin name => name ∉ DENYLISTED_SYMBOLS
  | method name self => name ∉ DENYLISTED_SYMBOLS ∧ introspective self name = false ∧ self.Safe
  | foreign _ => False

theorem ordinary_safe : Ordinary (Value.Safe : Value D → Prop) := ⟨fun _ => trivial,fun _ h => h⟩

/-- What the computations of the runtime are confined to. -/
abbrev safeBounds : Bounds (Request D) Text (Value D) H := bounds R Value.Safe fun attr => isDunder attr = false

def Closure.Sound (c : Closure D) : Prop := (∀ v ∈ c.defaults, v.Safe) ∧ (∀ v ∈ c.kw_defaults, v.Safe) ∧ c.body.Passes

def Sink.Sound : Sink D → Prop
  | collection _ elements => elements.Safe
  | generator _ => True

structure Loop.Sound (l : Loop D) : Prop where
  sink : l.sink.Sound
  elts : ∀ e ∈ l.elts, e.Passes
  begun : ∀ b ∈ l.begun, b.1.Safe ∧ b.2.Passes
  pending : ∀ g ∈ l.pending, g.Passes

def GeneratorState.Sound : GeneratorState D → Prop
  | suspended loop => loop.Sound
  | executing | finished => True

def After.Sound : After → Prop
  | operation _ | dict _ | call _ _ => True
  | getattr attr => isDunder attr = false ∧ attr ∉ DENYLISTED_SYMBOLS
  | lambda _ _ body => body.Passes
  | ifExp body orelse => body.Passes ∧ orelse.Passes
  | boolOp _ es | compare _ es => ∀ e ∈ es, e.Passes
  | comprehension _ elts g gs => (∀ e ∈ elts, e.Passes) ∧ g.Passes ∧ ∀ g ∈ gs, g.Passes

def Targets (targets : List (Expr × Value D)) : Prop := ∀ t ∈ targets, t.1.Passes ∧ t.2.Safe

def Point.Sound : Point D → Prop
  | iterable g | iterator g => g.Passes
  | next | added => True
  | items targets rest => (∀ e ∈ targets, e.Passes) ∧ Targets rest
  | item tuple _ target targets taken rest =>
    tuple.Safe ∧ target.Passes ∧ (∀ e ∈ targets, e.Passes) ∧ Targets taken ∧ Targets rest
  | attrObject _ v rest => v.Safe ∧ Targets rest
  | itemObject index v rest => index.Passes ∧ v.Safe ∧ Targets rest
  | itemIndex object v rest => object.Safe ∧ v.Safe ∧ Targets rest
  | stored rest => Targets rest
  | condition ifs | tested ifs => ∀ e ∈ ifs, e.Passes
  | element done todo => (∀ v ∈ done, v.Safe) ∧ ∀ e ∈ todo, e.Passes

def Frame.Sound : Frame D E H → Prop
  | operand done todo _ after => (∀ v ∈ done, v.Safe) ∧ (∀ e ∈ todo, e.Passes) ∧ after.Sound
  | answer k => Answers (safeBounds R) k
  | branch body orelse _ => body.Passes ∧ orelse.Passes
  | shortCircuit _ v es _ | compared v _ es _ => v.Safe ∧ ∀ e ∈ es, e.Passes
  | chained v right _ es _ => v.Safe ∧ right.Safe ∧ ∀ e ∈ es, e.Passes
  | iterated _ elts _ g gs => (∀ e ∈ elts, e.Passes) ∧ g.Passes ∧ ∀ g ∈ gs, g.Passes
  | displayed v _ elts _ g gs => v.Safe ∧ (∀ e ∈ elts, e.Passes) ∧ g.Passes ∧ ∀ g ∈ gs, g.Passes
  | loop l point => l.Sound ∧ point.Sound
  | built v | copied v => v.Safe
  | result => True

def Control.Sound : Control D E H → Prop
  | eval e _ => e.Passes
  | collect done todo _ after => (∀ v ∈ done, v.Safe) ∧ (∀ e ∈ todo, e.Passes) ∧ after.Sound
  | run computation => Confined (safeBounds R) computation
  | call f args keywords => f.Safe ∧ (∀ v ∈ args, v.Safe) ∧ keywords.All Value.Safe
  | resume _ | error _ => True
  | advance loop => loop.Sound
  | assign targets loop => Targets targets ∧ loop.Sound
  | tests ifs loop => (∀ e ∈ ifs, e.Passes) ∧ loop.Sound
  | elements done todo loop => (∀ v ∈ done, v.Safe) ∧ (∀ e ∈ todo, e.Passes) ∧ loop.Sound
  | value v => v.Safe

/-- Everything but the control. -/
structure State.Kept (st : State D E H) : Prop where
  frames : ∀ f ∈ st.frames, f.Sound R
  cells : ∀ v, some v ∈ st.cells → v.Safe
  functions : ∀ c ∈ st.functions, c.Sound
  generators : ∀ g ∈ st.generators, g.Sound
  heap : ∀ v, R.holds st.heap v → v.Safe
  events : ∀ event ∈ st.events, event.Allowed

structure State.Sound (st : State D E H) : Prop extends toKept : State.Kept R st where
  control : st.control.Sound R

section
variable {R} {st : State D E H}

namespace State.Kept

section
variable (h : st.Kept R)
include h

theorem goto {c : Control D E H} (hc : c.Sound R) : (st.goto c).Sound R := ⟨⟨h.1,h.2,h.3,h.4,h.5,h.6⟩,hc⟩

theorem push {f : Frame D E H} {c : Control D E H} (hf : f.Sound R) (hc : c.Sound R) : (st.push f c).Sound R :=
  ⟨⟨List.forall_mem_cons.2 ⟨hf,h.1⟩,h.2,h.3,h.4,h.5,h.6⟩,hc⟩

theorem tell (event : Event) (hevent : event.Allowed) : (st.tell event).Kept R := by
  refine ⟨h.1,h.2,h.3,h.4,h.5,?_⟩
  intro event' hmem
  rcases List.mem_append.1 hmem with hmem | hmem
  · exact h.events event' hmem
  · exact List.mem_singleton.1 hmem ▸ hevent

theorem setGenerator (id : ℕ) (state : GeneratorState D) (hstate : state.Sound) : (st.setGenerator id state).Kept R := by
  refine ⟨h.1,h.2,h.3,?_,h.5,h.6⟩
  intro g hmem
  rcases List.mem_or_eq_of_mem_set hmem with hmem | rfl
  · exact h.generators g hmem
  · exact hstate

theorem setHeap {heap : H} (hheap : ∀ v, R.holds heap v → v.Safe) : State.Kept R { st with heap := heap } :=
  ⟨h.1,h.2,h.3,h.4,hheap,h.6⟩

theorem bind (names : List Text) {values : List (Option (Value D))} (env : Env) (hvalues : ∀ v, some v ∈ values → v.Safe) :
    (st.bind names values env).1.Kept R := by
  refine ⟨h.1,?_,h.3,h.4,h.5,h.6⟩
  intro v hmem
  rcases List.mem_append.1 hmem with hmem | hmem
  · exact h.cells v hmem
  · exact hvalues v hmem

theorem confined (hlaw : R.Lawful) {op : Operation D} {args : List (Value D)} (hop : op.Within Value.Safe args)
    (hargs : ∀ v ∈ args, v.Safe) (hreads : ∀ attr ∈ op.reads R st.heap args, isDunder attr = false) :
    Confined (safeBounds R) (R.perform op args st.heap) :=
  hlaw.perform _ _ op args st.heap ordinary_safe hop hargs h.heap hreads

theorem confined_plain (hlaw : R.Lawful) {op : Operation D} {args : List (Value D)} (hop : op.Plain)
    (hargs : ∀ v ∈ args, v.Safe) : Confined (safeBounds R) (R.perform op args st.heap) := by
  apply h.confined hlaw (op.within_of_plain hop args) hargs
  rw [op.reads_of_plain R hop]
  exact List.forall_mem_nil _

theorem perform (hlaw : R.Lawful) {op : Operation D} {args : List (Value D)} (hop : op.Plain) (hargs : ∀ v ∈ args, v.Safe) :
    (st.perform R op args).Sound R := h.goto (h.confined_plain hlaw hop hargs)

theorem ask (hlaw : R.Lawful) {f : Frame D E H} {op : Operation D} {args : List (Value D)} (hf : f.Sound R) (hop : op.Plain)
    (hargs : ∀ v ∈ args, v.Safe) : (st.ask R f op args).Sound R := h.push hf (h.confined_plain hlaw hop hargs)

end

theorem lookup (h : st.Kept R) {id : Text} {env : Env} {v : Value D} (hv : st.lookup id env = some v) : v.Safe := by
  have hglobals : ∀ entry ∈ restricted_globals, entry.2 ∉ DENYLISTED_SYMBOLS := by decide
  unfold State.lookup at hv
  split at hv
  · exact h.cells v (List.mem_of_getElem? (Option.join_eq_some_iff.1 hv))
  · obtain ⟨name,hname,rfl⟩ := Option.map_eq_some_iff.1 hv
    exact hglobals _ (RecordFields.mem_of_lookup hname)

end State.Kept
end
end SafeLambdas
end Allama

import Allama.ExprMeaning

/-! What guards protect: evaluation of the selected operands only, against the evaluation of all of them. -/
namespace Allama
namespace ExprTrees
variable {V E : Type} (p : Runtime V E)

mutual

/-- Evaluation where a condition, `&&` and `||` decide which operands are evaluated. -/
def guarded : Expr → Except (EvalError V E) V
  | .reference r => evalReference p r
  | .function name args => do callFunction p name (← guardedAll args)
  | .literal l => evalLiteral p l
  | .list .nil => .error .notIterable
  | .list (.cons e es) => do return p.list (← guardedAll (.cons e es))
  | .dict .nil => .error .notIterable
  | .dict (.cons key value pairs) => do return p.dict (← guardedPairs (.cons key value pairs))
  | .primary_expr base indexers => do
    let value ← guarded base
    let indices ← guardedAll indexers
    indices.foldlM (applyIndex p) value
  | .typecast typename value => do raises (p.cast typename (← guarded value))
  | .or_op lhs rhs => do
    let a ← guarded lhs
    if p.truth a then return a else guarded rhs
  | .and_op lhs rhs => do
    let a ← guarded lhs
    if p.truth a then guarded rhs else return a
  | .binary_op op lhs rhs => do
    let a ← guarded lhs
    let b ← guarded rhs
    raises (p.operator op a b)
  | .not_op value => do return p.bool (!p.truth (← guarded value))
  | .neg_op value => do raises (p.negate (← guarded value))
  | .pos_op value => do raises (p.plus (← guarded value))
  | .ternary true_value condition false_value => do
    let c ← guarded condition
    if p.truth c then guarded true_value else guarded false_value

def guardedAll : Exprs → Except (EvalError V E) (List V)
  | .nil => .ok []
  | .cons e es => do
    let v ← guarded e
    let vs ← guardedAll es
    return v :: vs

def guardedPairs : Pairs → Except (EvalError V E) (List (V × V))
  | .nil => .ok []
  | .cons key value pairs => do
    let v ← guarded value
    let rest ← guardedPairs pairs
    return (p.str (stringLiteral key),v) :: rest

end

/-- The operands that a decision leaves out, from what it decides on. -/
def leftOut (x : Except (EvalError V E) V) (whenTrue whenFalse : List Expr) : List Expr :=
  match x with
  | .ok v => if p.truth v then whenTrue else whenFalse
  | .error _ => []

mutual

/-- The operands that guarded evaluation leaves out. -/
def discarded : Expr → List Expr
  | .reference _ | .literal _ => []
  | .function _ args | .list args => discardedAll args
  | .dict pairs => discardedPairs pairs
  | .primary_expr base indexers => discarded base ++ discardedAll indexers
  | .typecast _ value | .not_op value | .neg_op value | .pos_op value => discarded value
  | .or_op lhs rhs => discarded lhs ++ leftOut p (guarded p lhs) [rhs] (discarded rhs)
  | .and_op lhs rhs => discarded lhs ++ leftOut p (guarded p lhs) (discarded rhs) [rhs]
  | .binary_op _ lhs rhs => discarded lhs ++ discarded rhs
  | .ternary t c f => discarded c ++ leftOut p (guarded p c) (f :: discarded t) (t :: discarded f)

def discardedAll : Exprs → List Expr
  | .nil => []
  | .cons e es => discarded e ++ discardedAll es

def discardedPairs : Pairs → List Expr
  | .nil => []
  | .cons _ value pairs => discarded value ++ discardedPairs pairs

end

/-- Guarded evaluation of a whole expression. -/
def evaluateGuarded : Root → Except (EvalError V E) (Outcome V)
  | .expression e => do return .value (← guarded p e)
  | .trailing_typecast_expression e typename => do return .value (← raises (p.cast typename (← guarded p e)))
  | .iterator iter_var_expr collection => do
    let items ← guarded p collection
    if p.iterable items then return .iterable iter_var_expr items else .error (.notIterator items)

/-- Evaluation does not fail. -/
def Succeeds (e : Expr) : Prop := ∃ v, eval p e = .ok v

/-- `x` succeeds as `y` does when no operand of `operands` fails. -/
def AgreesUpTo {A : Type} (x y : Except (EvalError V E) A) (operands : List Expr) : Prop :=
  ∀ a, x = .ok a ↔ y = .ok a ∧ ∀ e ∈ operands, Succeeds p e

section Agreement
variable {A B : Type} {x y : Except (EvalError V E) A} {f g : A → Except (EvalError V E) B} {es ds : List Expr} {p}

theorem AgreesUpTo.refl (x : Except (EvalError V E) A) : AgreesUpTo p x x [] :=
  fun _ => ⟨fun h => ⟨h,fun _ hmem => absurd hmem List.not_mem_nil⟩,fun h => h.1⟩

theorem AgreesUpTo.bind (h : AgreesUpTo p x y es) (hf : ∀ a, y = .ok a → AgreesUpTo p (f a) (g a) ds) :
    AgreesUpTo p (x >>= f) (y >>= g) (es ++ ds) := by
  intro b
  rw [Checked.bind_eq_ok, Checked.bind_eq_ok, List.forall_mem_append]
  constructor
  · rintro ⟨a,hx,hb⟩
    have ha := (h a).1 hx
    have hds := (hf a ha.1 b).1 hb
    exact ⟨⟨a,ha.1,hds.1⟩,ha.2,hds.2⟩
  · rintro ⟨⟨a,hy,hb⟩,hes,hds⟩
    exact ⟨a,(h a).2 ⟨hy,hes⟩,(hf a hy b).2 ⟨hb,hds⟩⟩

theorem AgreesUpTo.bind_same (h : AgreesUpTo p x y es) (f : A → Except (EvalError V E) B) :
    AgreesUpTo p (x >>= f) (y >>= f) es := by
  have hboth := h.bind fun a _ => AgreesUpTo.refl (f a)
  rwa [List.append_nil] at hboth

theorem AgreesUpTo.discard {e : Expr} {f : V → Except (EvalError V E) A} (h : ∀ v, AgreesUpTo p (f v) y es) :
    AgreesUpTo p (eval p e >>= f) y (e :: es) := by
  intro a
  rw [Checked.bind_eq_ok, List.forall_mem_cons]
  constructor
  · rintro ⟨v,he,ha⟩
    have hes := (h v a).1 ha
    exact ⟨hes.1,⟨v,he⟩,hes.2⟩
  · rintro ⟨hy,⟨v,he⟩,hes⟩
    exact ⟨v,he,(h v a).2 ⟨hy,hes⟩⟩

theorem AgreesUpTo.swap {C : Type} {x' : Except (EvalError V E) B} {f : A → B → Except (EvalError V E) C}
    {z : Except (EvalError V E) C} (h : AgreesUpTo p (x' >>= fun b => x >>= fun a => f a b) z es) :
    AgreesUpTo p (x >>= fun a => x' >>= fun b => f a b) z es := by
  intro c
  rw [← h c]
  simp only [Checked.bind_eq_ok]
  constructor
  · rintro ⟨a,hx,b,hx',hc⟩
    exact ⟨b,hx',a,hx,hc⟩
  · rintro ⟨b,hx',a,hx,hc⟩
    exact ⟨a,hx,b,hx',hc⟩

theorem leftOut_ok {x : Except (EvalError V E) V} {v : V} (h : x = .ok v) (whenTrue whenFalse : List Expr) :
    leftOut p x whenTrue whenFalse = if p.truth v then whenTrue else whenFalse := by
  rw [h, leftOut]

theorem AgreesUpTo.pass {x y : Except (EvalError V E) V} (h : AgreesUpTo p x y es) :
    AgreesUpTo p (x >>= fun v => pure v) y es := by
  rwa [bind_pure x]

end Agreement

mutual

/-- By induction on the tree: only conditions, `&&` and `||` leave operands out. -/
theorem eval_agrees : ∀ e : Expr, AgreesUpTo p (eval p e) (guarded p e) (discarded p e)
  | .reference r => AgreesUpTo.refl (evalReference p r)
  | .literal l => AgreesUpTo.refl (evalLiteral p l)
  | .function name args => (evalAll_agrees args).bind_same (callFunction p name)
  | .list .nil | .dict .nil => AgreesUpTo.refl (.error .notIterable)
  | .list (.cons e es) => (evalAll_agrees (.cons e es)).bind_same fun vs => pure (p.list vs)
  | .dict (.cons key value pairs) => (evalPairs_agrees (.cons key value pairs)).bind_same fun vs => pure (p.dict vs)
  | .primary_expr base indexers =>
    (eval_agrees base).bind fun value _ => (evalAll_agrees indexers).bind_same fun indices =>
      indices.foldlM (applyIndex p) value
  | .typecast typename value => (eval_agrees value).bind_same fun v => raises (p.cast typename v)
  | .not_op value => (eval_agrees value).bind_same fun v => pure (p.bool (!p.truth v))
  | .neg_op value => (eval_agrees value).bind_same fun v => raises (p.negate v)
  | .pos_op value => (eval_agrees value).bind_same fun v => raises (p.plus v)
  | .binary_op op lhs rhs =>
    (eval_agrees lhs).bind fun a _ => (eval_agrees rhs).bind_same fun b => raises (p.operator op a b)
  | .or_op lhs rhs => (eval_agrees lhs).bind fun a ha => by
    rw [leftOut_ok ha]
    by_cases hdecides : p.truth a
    · simp only [if_pos hdecides]
      exact AgreesUpTo.discard fun _ => AgreesUpTo.refl (pure a)
    · simp only [if_neg hdecides]
      exact (eval_agrees rhs).pass
  | .and_op lhs rhs => (eval_agrees lhs).bind fun a ha => by
    rw [leftOut_ok ha]
    by_cases hneeds : p.truth a
    · simp only [if_pos hneeds]
      exact (eval_agrees rhs).pass
    · simp only [if_neg hneeds]
      exact AgreesUpTo.discard fun _ => AgreesUpTo.refl (pure a)
  -- the branch before the condition is evaluated first, but success does not depend on the order
  | .ternary t c f => AgreesUpTo.swap ((eval_agrees c).bind fun a ha => by
    rw [leftOut_ok ha]
    by_cases hselected : p.truth a
    · simp only [if_pos hselected]
      exact AgreesUpTo.swap (AgreesUpTo.discard fun _ => (eval_agrees t).pass)
    · simp only [if_neg hselected]
      exact AgreesUpTo.discard fun _ => (eval_agrees f).pass)

theorem evalAll_agrees : ∀ es : Exprs, AgreesUpTo p (evalAll p es) (guardedAll p es) (discardedAll p es)
  | .nil => AgreesUpTo.refl (.ok [])
  | .cons e es => (eval_agrees e).bind fun v _ => (evalAll_agrees es).bind_same fun vs => pure (v :: vs)

theorem evalPairs_agrees : ∀ pairs : Pairs, AgreesUpTo p (evalPairs p pairs) (guardedPairs p pairs) (discardedPairs p pairs)
  | .nil => AgreesUpTo.refl (.ok [])
  | .cons key value pairs =>
    (eval_agrees value).bind fun v _ => (evalPairs_agrees pairs).bind_same fun rest => pure ((p.str (stringLiteral key),v) :: rest)

end

/-- All operands are evaluated: an expression has the value that its guards select when none of the operands
that they leave out fails, and it fails when one of them does. -/
theorem evaluate_eq_ok_iff (r : Root) (o : Outcome V) :
    evaluate p r = .ok o ↔ evaluateGuarded p r = .ok o ∧ ∀ e ∈ discarded p r.expr, Succeeds p e := by
  cases r with
  | expression e => exact (eval_agrees p e).bind_same (fun v => pure (.value v)) o
  | trailing_typecast_expression e typename =>
    exact (eval_agrees p e).bind_same (fun v => raises (p.cast typename v) >>= fun w => pure (.value w)) o
  | iterator iter_var_expr collection =>
    exact (eval_agrees p collection).bind_same
      (fun items => if p.iterable items then pure (.iterable iter_var_expr items) else .error (.notIterator items)) o

/-- `None['a']`, a failing index. -/
def indexOfNone : Expr := .primary_expr (.literal .NONE_LITERAL) (.cons (.literal (.STRING_LITERAL "'a'".toList)) .nil)

/-- `None if None == None else None['a']`. -/
def guardedIndex : Expr :=
  .ternary (.literal .NONE_LITERAL) (.binary_op .eq (.literal .NONE_LITERAL) (.literal .NONE_LITERAL)) indexOfNone

/-- A null check does not protect the index behind it, nor do `&&` and `||`. -/
theorem guards_unprotected :
    evaluateGuarded plainRuntime (.expression guardedIndex) = .ok (.value .none) ∧
    evaluate plainRuntime (.expression guardedIndex) = .error (.notIndexable .none) ∧
    evaluateGuarded plainRuntime (.expression (.and_op (.literal .NONE_LITERAL) indexOfNone)) = .ok (.value .none) ∧
    evaluate plainRuntime (.expression (.and_op (.literal .NONE_LITERAL) indexOfNone)) = .error (.notIndexable .none) ∧
    evaluateGuarded plainRuntime (.expression (.or_op (.literal (.BOOL_LITERAL true)) indexOfNone)) =
      .ok (.value (.bool true)) ∧
    evaluate plainRuntime (.expression (.or_op (.literal (.BOOL_LITERAL true)) indexOfNone)) =
      .error (.notIndexable .none) :=
  ⟨rfl,rfl,rfl,rfl,rfl,rfl⟩

end ExprTrees
end Allama

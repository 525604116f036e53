import Allama.ExprTrees

/-! What expression trees mean, and which of them are evaluated to it. -/
namespace Allama
namespace ExprTrees
section Meaning
variable {V E : Type} (p : Runtime V E) (escape : Char → Text)

/-- A quoted text with its escapes resolved; `escape` tells what a backslash and the character behind it stand for. -/
def unescape : Text → Text
  | [] => []
  | '\\' :: c :: s => escape c ++ unescape s
  | c :: s => c :: unescape s

/-- The text that a token quotes. -/
def quotedText (token : Text) : Text := unescape escape (stringLiteral token)

def denoteLiteral : Literal → Except (EvalError V E) V
  | .STRING_LITERAL token => .ok (p.str (quotedText escape token))
  | .BOOL_LITERAL b => .ok (p.bool b)
  | .NUMERIC_LITERAL token => raises (p.number token)
  | .NONE_LITERAL => .ok p.none

mutual

/-- The meaning of a tree, from the meanings of its parts. -/
def denote : Expr → Except (EvalError V E) V
  | .reference r => evalReference p r
  | .function name args => do callFunction p name (← denoteAll args)
  | .literal l => denoteLiteral p escape l
  | .list items => do return p.list (← denoteAll items)
  | .dict pairs => do return p.dict (← denotePairs pairs)
  | .primary_expr base indexers => do
    let value ← denote base
    let indices ← denoteAll indexers
    indices.foldlM (applyIndex p) value
  | .typecast typename value => do raises (p.cast typename (← denote value))
  | .or_op lhs rhs => do
    let a ← denote lhs
    let b ← denote rhs
    return if p.truth a then a else b
  | .and_op lhs rhs => do
    let a ← denote lhs
    let b ← denote rhs
    return if p.truth a then b else a
  | .binary_op op lhs rhs => do
    let a ← denote lhs
    let b ← denote rhs
    raises (p.operator op a b)
  | .not_op value => do return p.bool (!p.truth (← denote value))
  | .neg_op value => do raises (p.negate (← denote value))
  | .pos_op value => do raises (p.plus (← denote value))
  | .ternary true_value condition false_value => do
    let t ← denote true_value
    let c ← denote condition
    let f ← denote false_value
    return if p.truth c then t else f

def denoteAll : Exprs → Except (EvalError V E) (List V)
  | .nil => .ok []
  | .cons e es => do
    let v ← denote e
    let vs ← denoteAll es
    return v :: vs

def denotePairs : Pairs → Except (EvalError V E) (List (V × V))
  | .nil => .ok []
  | .cons key value pairs => do
    let v ← denote value
    let rest ← denotePairs pairs
    return (p.str (quotedText escape key),v) :: rest

end

/-- The meaning of a whole expression. -/
def denoteRoot : Root → Except (EvalError V E) (Outcome V)
  | .expression e => do return .value (← denote p escape e)
  | .trailing_typecast_expression e typename => do return .value (← raises (p.cast typename (← denote p escape e)))
  | .iterator iter_var_expr collection => do
    let items ← denote p escape collection
    if p.iterable items then return .iterable iter_var_expr items else .error (.notIterator items)

end Meaning

section Parts

mutual

/-- The tree itself and those below it. -/
def Expr.subtrees : Expr → List Expr
  | .reference r => [.reference r]
  | .function name args => .function name args :: args.subtrees
  | .literal l => [.literal l]
  | .list items => .list items :: items.subtrees
  | .dict pairs => .dict pairs :: pairs.subtrees
  | .primary_expr base indexers => .primary_expr base indexers :: (base.subtrees ++ indexers.subtrees)
  | .typecast typename value => .typecast typename value :: value.subtrees
  | .or_op lhs rhs => .or_op lhs rhs :: (lhs.subtrees ++ rhs.subtrees)
  | .and_op lhs rhs => .and_op lhs rhs :: (lhs.subtrees ++ rhs.subtrees)
  | .binary_op op lhs rhs => .binary_op op lhs rhs :: (lhs.subtrees ++ rhs.subtrees)
  | .not_op value => .not_op value :: value.subtrees
  | .neg_op value => .neg_op value :: value.subtrees
  | .pos_op value => .pos_op value :: value.subtrees
  | .ternary t c f => .ternary t c f :: (t.subtrees ++ (c.subtrees ++ f.subtrees))

def Exprs.subtrees : Exprs → List Expr
  | .nil => []
  | .cons e es => e.subtrees ++ es.subtrees

def Pairs.subtrees : Pairs → List Expr
  | .nil => []
  | .cons _ value pairs => value.subtrees ++ pairs.subtrees

end

mutual

/-- The tokens of the quoted texts in a tree, literals and keys. -/
def Expr.tokens : Expr → List Text
  | .literal (.STRING_LITERAL token) => [token]
  | .reference _ | .literal _ => []
  | .function _ args | .list args => args.tokens
  | .dict pairs => pairs.tokens
  | .primary_expr base indexers => base.tokens ++ indexers.tokens
  | .typecast _ value | .not_op value | .neg_op value | .pos_op value => value.tokens
  | .or_op lhs rhs | .and_op lhs rhs | .binary_op _ lhs rhs => lhs.tokens ++ rhs.tokens
  | .ternary t c f => t.tokens ++ (c.tokens ++ f.tokens)

def Exprs.tokens : Exprs → List Text
  | .nil => []
  | .cons e es => e.tokens ++ es.tokens

def Pairs.tokens : Pairs → List Text
  | .nil => []
  | .cons key value pairs => key :: (value.tokens ++ pairs.tokens)

end

/-- Every escape of a quoted text stands for itself, backslash and all. -/
def plainEscapes (escape : Char → Text) : Text → Bool
  | [] => true
  | '\\' :: c :: s => escape c = ['\\',c] && plainEscapes escape s
  | _ :: s => plainEscapes escape s

def Expr.isEmptyCollection : Expr → Bool
  | .list .nil | .dict .nil => true
  | _ => false

/-- There is no empty list or object in the tree, and the escapes of its quoted texts stand for themselves. -/
def Expr.plain (escape : Char → Text) (e : Expr) : Bool :=
  e.subtrees.all (!·.isEmptyCollection) && e.tokens.all fun token => plainEscapes escape (stringLiteral token)

/-- The expression that is evaluated. -/
def Root.expr : Root → Expr
  | .expression e | .trailing_typecast_expression e _ | .iterator _ e => e

theorem Expr.mem_subtrees (e : Expr) : e ∈ e.subtrees := by
  cases e <;> exact List.mem_cons_self

def Expr.IsBelow (t : Expr) (subtrees : List Expr) (tokens : List Text) : Prop :=
  t.subtrees ⊆ subtrees ∧ t.tokens ⊆ tokens

theorem Expr.isBelow_cons {e t : Expr} {parts : List Expr} (he : e.subtrees = e :: parts) (h : t ∈ e.subtrees)
    (hparts : t ∈ parts → t.IsBelow parts e.tokens) : t.IsBelow e.subtrees e.tokens := by
  rw [he, List.mem_cons] at h
  cases h with
  | inl hself =>
    rw [hself]
    exact ⟨List.Subset.refl e.subtrees,List.Subset.refl e.tokens⟩
  | inr hpart =>
    have hbelow := hparts hpart
    rw [he]
    exact ⟨List.subset_cons_of_subset e hbelow.1,hbelow.2⟩

theorem Expr.isBelow_append {t : Expr} {xs ys : List Expr} {us vs : List Text} (h : t ∈ xs ++ ys)
    (hleft : t ∈ xs → t.IsBelow xs us) (hright : t ∈ ys → t.IsBelow ys vs) : t.IsBelow (xs ++ ys) (us ++ vs) := by
  cases List.mem_append.1 h with
  | inl hx =>
    have hbelow := hleft hx
    exact ⟨List.subset_append_of_subset_left ys hbelow.1,List.subset_append_of_subset_left vs hbelow.2⟩
  | inr hy =>
    have hbelow := hright hy
    exact ⟨List.subset_append_of_subset_right xs hbelow.1,List.subset_append_of_subset_right us hbelow.2⟩

mutual

theorem Expr.isBelow_of_mem : ∀ {e t : Expr}, t ∈ e.subtrees → t.IsBelow e.subtrees e.tokens
  | .reference _, _, h | .literal _, _, h => Expr.isBelow_cons rfl h fun hpart => absurd hpart List.not_mem_nil
  | .function _ _, _, h | .list _, _, h => Expr.isBelow_cons rfl h Exprs.isBelow_of_mem
  | .dict _, _, h => Expr.isBelow_cons rfl h Pairs.isBelow_of_mem
  | .primary_expr _ _, _, h =>
    Expr.isBelow_cons rfl h fun hpart => Expr.isBelow_append hpart Expr.isBelow_of_mem Exprs.isBelow_of_mem
  | .typecast _ _, _, h | .not_op _, _, h | .neg_op _, _, h | .pos_op _, _, h =>
    Expr.isBelow_cons rfl h Expr.isBelow_of_mem
  | .or_op _ _, _, h | .and_op _ _, _, h | .binary_op _ _ _, _, h =>
    Expr.isBelow_cons rfl h fun hpart => Expr.isBelow_append hpart Expr.isBelow_of_mem Expr.isBelow_of_mem
  | .ternary _ _ _, _, h =>
    Expr.isBelow_cons rfl h fun hpart => Expr.isBelow_append hpart Expr.isBelow_of_mem fun hrest =>
      Expr.isBelow_append hrest Expr.isBelow_of_mem Expr.isBelow_of_mem

theorem Exprs.isBelow_of_mem : ∀ {es : Exprs} {t : Expr}, t ∈ es.subtrees → t.IsBelow es.subtrees es.tokens
  | .nil, _, h => absurd h List.not_mem_nil
  | .cons _ _, _, h => Expr.isBelow_append h Expr.isBelow_of_mem Exprs.isBelow_of_mem

theorem Pairs.isBelow_of_mem : ∀ {pairs : Pairs} {t : Expr}, t ∈ pairs.subtrees → t.IsBelow pairs.subtrees pairs.tokens
  | .nil, _, h => absurd h List.not_mem_nil
  | .cons key _ _, _, h =>
    have hbelow := Expr.isBelow_append h Expr.isBelow_of_mem Pairs.isBelow_of_mem
    ⟨hbelow.1,List.subset_cons_of_subset key hbelow.2⟩

end
end Parts

section Comparison
variable {V E : Type} (p : Runtime V E) (escape : Char → Text)

/-- Every part of a tree is evaluated to its meaning: each tree below it, and each quoted text. -/
def Compositional (subtrees : List Expr) (tokens : List Text) : Prop :=
  (∀ t ∈ subtrees, eval p t = denote p escape t) ∧ ∀ token ∈ tokens, stringLiteral token = quotedText escape token

theorem length_unescape_le (h : ∀ c, (escape c).length ≤ 2) (s : Text) : (unescape escape s).length ≤ s.length := by
  induction s using unescape.induct with
  | case1 => exact Nat.le_refl 0
  | case2 c s ih =>
    have hc := h c
    rw [unescape, List.length_append, List.length_cons, List.length_cons]
    omega
  | case3 c s hpair ih =>
    rw [unescape]
    · exact Nat.succ_le_succ ih
    · exact hpair

theorem unescape_eq_self_iff (h : ∀ c, (escape c).length ≤ 2) (s : Text) :
    s = unescape escape s ↔ plainEscapes escape s = true := by
  induction s using unescape.induct with
  | case1 => exact ⟨fun _ => rfl,fun _ => rfl⟩
  | case2 c s ih =>
    rw [unescape, plainEscapes, Bool.and_eq_true, decide_eq_true_eq, ← ih]
    have hlen := length_unescape_le escape h s
    have hc := h c
    constructor
    · intro he
      have hsplit : ['\\',c] ++ s = escape c ++ unescape escape s := he
      have hboth : (['\\',c] : Text).length = (escape c).length := by
        have hall := congrArg List.length hsplit
        simp only [List.length_append, List.length_cons, List.length_nil] at hall
        simp only [List.length_cons, List.length_nil]
        omega
      obtain ⟨hself,hrest⟩ := List.append_inj hsplit hboth
      exact ⟨hself.symm,hrest⟩
    · rintro ⟨hself,hrest⟩
      rw [hself, ← hrest]
      rfl
  | case3 c s hpair ih =>
    rw [unescape, plainEscapes]
    · rw [← ih]
      exact ⟨fun he => (List.cons.inj he).2,fun he => congrArg (c :: ·) he⟩
    · exact hpair
    · exact hpair

theorem evalLiteral_eq {l : Literal} (h : ∀ token ∈ (Expr.literal l).tokens, stringLiteral token = quotedText escape token) :
    evalLiteral p l = denoteLiteral p escape l := by
  cases l with
  | STRING_LITERAL token =>
    have htoken := h token List.mem_cons_self
    rw [evalLiteral, denoteLiteral, htoken]
  | BOOL_LITERAL b =>
    rw [evalLiteral, p.cast_boolToken]
    rfl
  | NUMERIC_LITERAL token => rfl
  | NONE_LITERAL => rfl

/-- Parts among which no collection is empty, with tokens that no escape changes. -/
structure Regular (escape : Char → Text) (parts : List Expr) (tokens : List Text) : Prop where
  nonempty : ∀ t ∈ parts, t.isEmptyCollection = false
  quoted : ∀ token ∈ tokens, stringLiteral token = quotedText escape token

section
variable {escape : Char → Text} {e : Expr} {parts parts' : List Expr} {token : Text} {tokens tokens' : List Text}

theorem Regular.tail (h : Regular escape (e :: parts) tokens) : Regular escape parts tokens :=
  ⟨(List.forall_mem_cons.1 h.nonempty).2,h.quoted⟩

theorem Regular.tailToken (h : Regular escape parts (token :: tokens)) : Regular escape parts tokens :=
  ⟨h.nonempty,(List.forall_mem_cons.1 h.quoted).2⟩

theorem Regular.split (h : Regular escape (parts ++ parts') (tokens ++ tokens')) :
    Regular escape parts tokens ∧ Regular escape parts' tokens' := by
  obtain ⟨hnonempty,hnonempty'⟩ := List.forall_mem_append.1 h.nonempty
  obtain ⟨hquoted,hquoted'⟩ := List.forall_mem_append.1 h.quoted
  exact ⟨⟨hnonempty,hquoted⟩,⟨hnonempty',hquoted'⟩⟩

end

mutual

/-- By induction on the tree: only an empty list, an empty object and an escape are evaluated to something else. -/
theorem eval_eq (escape : Char → Text) : ∀ {e : Expr}, Regular escape e.subtrees e.tokens → eval p e = denote p escape e
  | .reference r, _ => rfl
  | .literal l, h => evalLiteral_eq p escape h.quoted
  | .function name args, h => by
    rw [Expr.subtrees, Expr.tokens] at h
    rw [eval, denote, evalAll_eq escape h.tail]
  | .list .nil, h => by
    have hempty := h.nonempty (.list .nil) List.mem_cons_self
    cases hempty
  | .list (.cons e es), h => by
    rw [Expr.subtrees, Expr.tokens] at h
    rw [eval, denote, evalAll_eq escape h.tail]
  | .dict .nil, h => by
    have hempty := h.nonempty (.dict .nil) List.mem_cons_self
    cases hempty
  | .dict (.cons key value pairs), h => by
    rw [Expr.subtrees, Expr.tokens] at h
    rw [eval, denote, evalPairs_eq escape h.tail]
  | .primary_expr base indexers, h => by
    rw [Expr.subtrees, Expr.tokens] at h
    obtain ⟨hbase,hindexers⟩ := h.tail.split
    rw [eval, denote, eval_eq escape hbase, evalAll_eq escape hindexers]
  | .typecast typename value, h => by
    rw [Expr.subtrees, Expr.tokens] at h
    rw [eval, denote, eval_eq escape h.tail]
  | .or_op lhs rhs, h => by
    rw [Expr.subtrees, Expr.tokens] at h
    obtain ⟨hlhs,hrhs⟩ := h.tail.split
    rw [eval, denote, eval_eq escape hlhs, eval_eq escape hrhs]
  | .and_op lhs rhs, h => by
    rw [Expr.subtrees, Expr.tokens] at h
    obtain ⟨hlhs,hrhs⟩ := h.tail.split
    rw [eval, denote, eval_eq escape hlhs, eval_eq escape hrhs]
  | .binary_op op lhs rhs, h => by
    rw [Expr.subtrees, Expr.tokens] at h
    obtain ⟨hlhs,hrhs⟩ := h.tail.split
    rw [eval, denote, eval_eq escape hlhs, eval_eq escape hrhs]
  | .not_op value, h => by
    rw [Expr.subtrees, Expr.tokens] at h
    rw [eval, denote, eval_eq escape h.tail]
  | .neg_op value, h => by
    rw [Expr.subtrees, Expr.tokens] at h
    rw [eval, denote, eval_eq escape h.tail]
  | .pos_op value, h => by
    rw [Expr.subtrees, Expr.tokens] at h
    rw [eval, denote, eval_eq escape h.tail]
  | .ternary t c f, h => by
    rw [Expr.subtrees, Expr.tokens] at h
    obtain ⟨ht,hbranches⟩ := h.tail.split
    obtain ⟨hc,hf⟩ := hbranches.split
    rw [eval, denote, eval_eq escape ht, eval_eq escape hc, eval_eq escape hf]

theorem evalAll_eq (escape : Char → Text) : ∀ {es : Exprs}, Regular escape es.subtrees es.tokens →
    evalAll p es = denoteAll p escape es
  | .nil, _ => rfl
  | .cons e es, h => by
    rw [Exprs.subtrees, Exprs.tokens] at h
    obtain ⟨he,hes⟩ := h.split
    rw [evalAll, denoteAll, eval_eq escape he, evalAll_eq escape hes]

theorem evalPairs_eq (escape : Char → Text) : ∀ {pairs : Pairs}, Regular escape pairs.subtrees pairs.tokens →
    evalPairs p pairs = denotePairs p escape pairs
  | .nil, _ => rfl
  | .cons key value pairs, h => by
    rw [Pairs.subtrees, Pairs.tokens] at h
    have hkey := h.quoted key List.mem_cons_self
    obtain ⟨hvalue,hpairs⟩ := h.tailToken.split
    rw [evalPairs, denotePairs, eval_eq escape hvalue, evalPairs_eq escape hpairs, hkey]

end

theorem compositional_iff (h : ∀ c, (escape c).length ≤ 2) (e : Expr) :
    Compositional p escape e.subtrees e.tokens ↔ e.plain escape = true := by
  rw [Expr.plain, Bool.and_eq_true, List.all_eq_true, List.all_eq_true]
  have htoken : ∀ token, stringLiteral token = quotedText escape token ↔ plainEscapes escape (stringLiteral token) = true :=
    fun token => unescape_eq_self_iff escape h (stringLiteral token)
  constructor
  · intro hall
    refine ⟨fun t ht => ?_,fun token hmem => (htoken token).1 (hall.2 token hmem)⟩
    have heval := hall.1 t ht
    -- an empty list or object has a meaning, but its evaluation fails
    match t, heval with
    | .list .nil, heval => cases heval
    | .dict .nil, heval => cases heval
    | .list (.cons _ _), _ | .dict (.cons _ _ _), _ | .reference _, _ | .function _ _, _ | .literal _, _
    | .primary_expr _ _, _ | .typecast _ _, _ | .or_op _ _, _ | .and_op _ _, _ | .binary_op _ _ _, _ | .not_op _, _
    | .neg_op _, _ | .pos_op _, _ | .ternary _ _ _, _ => rfl
  · intro hplain
    have hempty : ∀ t ∈ e.subtrees, t.isEmptyCollection = false := fun t ht => by simpa using hplain.1 t ht
    have htokens : ∀ token ∈ e.tokens, stringLiteral token = quotedText escape token :=
      fun token hmem => (htoken token).2 (hplain.2 token hmem)
    refine ⟨fun t ht => ?_,htokens⟩
    have hbelow := Expr.isBelow_of_mem ht
    exact eval_eq p escape ⟨fun u hu => hempty u (hbelow.1 hu),fun token hmem => htokens token (hbelow.2 hmem)⟩

theorem evaluate_eq {r : Root} (h : eval p r.expr = denote p escape r.expr) : evaluate p r = denoteRoot p escape r := by
  cases r with
  | expression e =>
    have he : eval p e = denote p escape e := h
    rw [evaluate, denoteRoot, he]
  | trailing_typecast_expression e typename =>
    have he : eval p e = denote p escape e := h
    rw [evaluate, denoteRoot, he]
  | iterator iter_var_expr collection =>
    have he : eval p collection = denote p escape collection := h
    rw [evaluate, denoteRoot, he]

/-- An expression and all its parts are evaluated to what they mean if and only if
it has no empty list, no empty object and no escape that stands for something else. -/
theorem evaluate_iff (h : ∀ c, (escape c).length ≤ 2) (r : Root) :
    evaluate p r = denoteRoot p escape r ∧ Compositional p escape r.expr.subtrees r.expr.tokens ↔
      r.expr.plain escape = true := by
  rw [← compositional_iff p escape h r.expr]
  constructor
  · exact fun hboth => hboth.2
  · exact fun hall => ⟨evaluate_eq p escape (hall.1 r.expr r.expr.mem_subtrees),hall⟩

end Comparison

section Concrete

/-- Texts, numbers, lists and objects: enough for a run. -/
inductive Plain
  | none
  | int (n : ℕ)
  | bool (b : Bool)
  | str (s : Text)
  | list (items : List Plain)
  | dict (items : List (Plain × Plain))

def digitsValue (s : Text) : Option ℕ :=
  if s ≠ [] ∧ s.all Char.isDigit then some (s.foldl (fun n c => 10*n+(c.toNat - '0'.toNat)) 0) else Option.none

def plainItems : Plain → Option (List Plain)
  | .list items => some items
  | .str s => some (s.map fun c => .str [c])
  | _ => Option.none

/-- `length`. -/
def plainLength : List Plain → Except Unit Plain
  | [.str s] => .ok (.int s.length)
  | [.list items] => .ok (.int items.length)
  | _ => .error ()

def plainRuntime : Runtime Plain Unit where
  none := .none
  bool := .bool
  str := .str
  number token := ((digitsValue token).map Plain.int).elim (.error ()) .ok
  list := .list
  dict := .dict
  truth
    | .bool b => b
    | .str s => !s.isEmpty
    | .list items => !items.isEmpty
    | .dict items => !items.isEmpty
    | .int n => n ≠ 0
    | .none => false
  shape
    | .list items => .sequence items
    | _ => .other
  asInt
    | .int n => some n
    | _ => Option.none
  iterable
    | .list _ | .dict _ | .str _ => true
    | _ => false
  cast
    | .bool, .str s => .ok (.bool (s.map Char.toLower = "true".toList ∨ s = ['1']))
    | .int, .str s => ((digitsValue s).map Plain.int).elim (.error ()) .ok
    | .int, .int n => .ok (.int n)
    | .str, .str s => .ok (.str s)
    | _, _ => .error ()
  operator
    | .eq, .none, .none => .ok (.bool true)
    | .add, .int m, .int n => .ok (.int (m+n))
    | _, _, _ => .error ()
  negate _ := .error ()
  plus _ := .error ()
  functions name :=
    if name = "length".toList then some ⟨plainLength,broadcastMap .list plainItems plainLength⟩ else Option.none
  evalJsonpath _ := .error ()
  cast_boolToken b := by cases b <;> rfl

/-- A backslash quotes a quote or a backslash; before another character it stands for itself. -/
def quoteEscape (c : Char) : Text := if c ∈ ['\'','"','\\'] then [c] else ['\\',c]

theorem length_quoteEscape_le (c : Char) : (quoteEscape c).length ≤ 2 := by
  unfold quoteEscape
  split_ifs
  · exact Nat.le_succ 1
  · exact Nat.le_refl 2

/-- `{'\d': 1 + [1, 2][1]}`. -/
def sampleObject : Expr :=
  .dict (.cons "'\\d'".toList (.binary_op .add (.literal (.NUMERIC_LITERAL ['1']))
    (.primary_expr (.list (.cons (.literal (.NUMERIC_LITERAL ['1'])) (.cons (.literal (.NUMERIC_LITERAL ['2'])) .nil)))
      (.cons (.literal (.NUMERIC_LITERAL ['1'])) .nil))) .nil)

theorem evaluate_iff_object :
    denoteRoot plainRuntime quoteEscape (.expression sampleObject) =
      .ok (.value (.dict [(.str ['\\','d'],.int 3)])) ∧
    evaluate plainRuntime (.expression sampleObject) = denoteRoot plainRuntime quoteEscape (.expression sampleObject) ∧
    Compositional plainRuntime quoteEscape sampleObject.subtrees sampleObject.tokens :=
  ⟨rfl,(evaluate_iff plainRuntime quoteEscape length_quoteEscape_le (.expression sampleObject)).mpr (by decide)⟩

/-- `[]` and `{}` cannot be evaluated, and a quoted text keeps its backslashes. -/
theorem not_evaluate :
    evaluate plainRuntime (.expression (.list .nil)) = .error .notIterable ∧
    denoteRoot plainRuntime quoteEscape (.expression (.list .nil)) = .ok (.value (.list [])) ∧
    evaluate plainRuntime (.expression (.dict .nil)) = .error .notIterable ∧
    denoteRoot plainRuntime quoteEscape (.expression (.dict .nil)) = .ok (.value (.dict [])) ∧
    evaluate plainRuntime (.expression (.literal (.STRING_LITERAL ['\'','a','\\','\'','\'']))) =
      .ok (.value (.str ['a','\\','\''])) ∧
    denoteRoot plainRuntime quoteEscape (.expression (.literal (.STRING_LITERAL ['\'','a','\\','\'','\'']))) =
      .ok (.value (.str ['a','\''])) := by
  refine ⟨rfl,rfl,rfl,rfl,rfl,rfl⟩

end Concrete
end ExprTrees
end Allama

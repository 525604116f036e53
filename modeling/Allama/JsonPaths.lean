import Mathlib
import Allama.Identifiers
import Allama.WordCuts

/-! The value of a jsonpath: a list of matches or a bare value (`eval_jsonpath` of `expressions/common.py`). -/
namespace Allama
namespace JsonPaths

/-- What a step of a parsed path selects. -/
inductive Step
  | arrayWildcard | filter | other
deriving DecidableEq, Repr

/-- A node of a parsed path: whether it has the attribute `filter_expr`, the nodes in the attributes that are
searched, and those in other attributes. -/
inductive Node
  | mk (step : Step) (filter_expr : Bool) (left right child expression : Option Node)
      (fields fields_list components others : List Node)

def Node.step : Node → Step
  | .mk step _ _ _ _ _ _ _ _ _ => step

def Node.hasFilterExpr : Node → Bool
  | .mk _ filter_expr _ _ _ _ _ _ _ _ => filter_expr

def Node.searched : Node → List Node
  | .mk _ _ left right child expression fields fields_list components _ =>
    left.toList ++ (right.toList ++ (child.toList ++ (expression.toList ++ (fields ++ (fields_list ++ components)))))

def Node.parts : Node → List Node
  | .mk step filter_expr left right child expression fields fields_list components others =>
    (Node.mk step filter_expr left right child expression fields fields_list components others).searched ++ others

theorem sum_sizeOf_le (ns : List Node) : (ns.map sizeOf).sum ≤ sizeOf ns := by
  induction ns with
  | nil => exact Nat.zero_le _
  | cons n ns ih =>
    have hcons : sizeOf (n :: ns) = 1 + sizeOf n + sizeOf ns := rfl
    rw [List.map_cons, List.sum_cons]
    omega

theorem sum_sizeOf_toList_le (n : Option Node) : (n.toList.map sizeOf).sum ≤ sizeOf n := by
  cases n with
  | none => exact Nat.zero_le _
  | some n =>
    have hsome : sizeOf (some n) = 1 + sizeOf n := rfl
    rw [hsome]
    simp

theorem Node.sum_searched_lt (n : Node) : (n.searched.map sizeOf).sum < sizeOf n := by
  obtain ⟨step,filter_expr,left,right,child,expression,fields,fields_list,components,others⟩ := n
  have hleft := sum_sizeOf_toList_le left
  have hright := sum_sizeOf_toList_le right
  have hchild := sum_sizeOf_toList_le child
  have hexpression := sum_sizeOf_toList_le expression
  have hfields := sum_sizeOf_le fields
  have hlist := sum_sizeOf_le fields_list
  have hcomponents := sum_sizeOf_le components
  simp only [Node.searched, List.map_append, List.sum_append, Node.mk.sizeOf_spec]
  omega

/-- The loop of `_contains_filter`; the top of the stack comes first. -/
def containsFilterLoop : List Node → Bool
  | [] => false
  | current :: stack =>
    if current.hasFilterExpr then true else containsFilterLoop (current.searched.reverse ++ stack)
termination_by stack => (stack.map sizeOf).sum
decreasing_by
  have hlt := Node.sum_searched_lt current
  rw [List.map_append, List.sum_append, List.map_reverse, List.sum_reverse, List.map_cons, List.sum_cons]
  omega

def containsFilter (path : Node) : Bool := containsFilterLoop [path]

/-- What the search reaches from a node. -/
def Node.Reaches (n m : Node) : Prop := Relation.ReflTransGen (fun a b => b ∈ a.searched) n m

theorem containsFilterLoop_iff (stack : List Node) :
    containsFilterLoop stack = true ↔ ∃ n ∈ stack, ∃ m, n.Reaches m ∧ m.hasFilterExpr = true := by
  induction stack using containsFilterLoop.induct with
  | case1 =>
    rw [containsFilterLoop]
    exact ⟨fun h => absurd h Bool.false_ne_true,fun ⟨_,hmem,_⟩ => absurd hmem List.not_mem_nil⟩
  | case2 current stack hfilter =>
    rw [containsFilterLoop, if_pos hfilter]
    exact ⟨fun _ => ⟨current,List.mem_cons_self,current,.refl,hfilter⟩,fun _ => rfl⟩
  | case3 current stack hfilter ih =>
    rw [containsFilterLoop, if_neg hfilter, ih]
    constructor
    · rintro ⟨n,hn,m,hreach,hm⟩
      rw [List.mem_append, List.mem_reverse] at hn
      cases hn with
      | inl hpart => exact ⟨current,List.mem_cons_self,m,.head hpart hreach,hm⟩
      | inr hrest => exact ⟨n,List.mem_cons_of_mem current hrest,m,hreach,hm⟩
    · rintro ⟨n,hn,m,hreach,hm⟩
      cases List.mem_cons.1 hn with
      | inl hself =>
        subst hself
        -- the node itself has no filter, so the way to one starts with a step
        cases hreach.cases_head with
        | inl heq => exact absurd (heq ▸ hm) hfilter
        | inr hstep =>
          obtain ⟨k,hk,hreach⟩ := hstep
          exact ⟨k,List.mem_append_left stack (List.mem_reverse.2 hk),m,hreach,hm⟩
      | inr hrest => exact ⟨n,List.mem_append_right _ hrest,m,hreach,hm⟩

/-- The search finds a filter when it reaches a node that has one. -/
theorem containsFilter_iff (path : Node) : containsFilter path = true ↔ ∃ m, path.Reaches m ∧ m.hasFilterExpr = true := by
  rw [containsFilter, containsFilterLoop_iff]
  exact ⟨fun ⟨_,hmem,h⟩ => List.mem_singleton.1 hmem ▸ h,fun h => ⟨path,List.mem_cons_self,h⟩⟩

def Node.HasListStep (path : Node) : Prop :=
  ∃ m, Relation.ReflTransGen (fun a b => b ∈ a.parts) path m ∧ m.step ≠ .other

section Evaluation

/-- A parsed path, with the matches that it finds in a dict or a list. -/
structure JSONPath (O V : Type) where
  tree : Node
  find : O → List V

inductive ParseError
  | parser | lexer

/-- The parser of jsonpaths; `emptyDict` is one of the operands. -/
structure JsonpathNg (O V : Type) where
  parse : Text → Except ParseError (JSONPath O V)
  emptyDict : O

inductive JsonpathError (O : Type)
  | invalidOperand
  | invalidJsonpath (formatted : Text)
  | lexer
  | unresolved (formatted : Text) (operand : O)

/-- The list of all matches, a bare value, or no value. -/
inductive Result (V : Type)
  | matches (vs : List V)
  | value (v : V)
  | none

variable {O V : Type} (ng : JsonpathNg O V)

def exprWithContext (expr : Text) (context_type : Option Text) : Text :=
  match context_type with
  | some context => if context.isEmpty then expr else context ++ '.' :: expr
  | none => expr

def wildcardMark : Text := "[*]".toList

def filterMark : Text := "[?(".toList

def currentMark : Text := "[?@".toList

def hasWildcard (expr : Text) : Bool := WordCuts.occurs wildcardMark expr

def hasFilter (expr : Text) (tree : Node) : Bool :=
  WordCuts.occurs filterMark expr || WordCuts.occurs currentMark expr || containsFilter tree

/-- The value of at most one match. -/
def bareResult (expr : Text) (operand : O) (context_type : Option Text) (strict : Bool) :
    List V → Except (JsonpathError O) (Result V)
  | v :: _ => .ok (.value v)
  | [] => if strict then .error (.unresolved (exprWithContext expr context_type) operand) else .ok .none

/-- `eval_jsonpath`. The operand is `none` when it is neither a dict nor a list. -/
def evalJsonpath (expr : Text) (operand : Option O) (context_type : Option Text) (strict : Bool) :
    Except (JsonpathError O) (Result V) :=
  match operand with
  | none => .error .invalidOperand
  | some operand =>
    match ng.parse expr with
    | .error .parser => .error (.invalidJsonpath (exprWithContext expr context_type))
    | .error .lexer => .error .lexer
    | .ok jsonpath_expr =>
      let found := jsonpath_expr.find operand
      if found.length > 1 || hasWildcard expr || hasFilter expr jsonpath_expr.tree then .ok (.matches found)
      else bareResult expr operand context_type strict found

def isList : Except (JsonpathError O) (Result V) → Bool
  | .ok (.matches _) => true
  | _ => false

def IsMarked (expr : Text) (tree : Node) : Prop := hasWildcard expr = true ∨ hasFilter expr tree = true

/-- The path alone decides whether the value is a list: with an array wildcard or a filter it is the list of all
matches, and a mark that is neither of them, in a quoted key, leaves the value bare. -/
structure DecidedByPath (expr : Text) (path : JSONPath O V) : Prop where
  alone : ∃ list, ∀ operand context_type strict, isList (evalJsonpath ng expr (some operand) context_type strict) = list
  listSteps : path.tree.HasListStep → ∀ operand context_type strict,
    evalJsonpath ng expr (some operand) context_type strict = .ok (.matches (path.find operand))
  quoted : ¬path.tree.HasListStep → WordCuts.occurs wildcardMark expr = true ∨ WordCuts.occurs filterMark expr = true →
    ∀ operand context_type strict, evalJsonpath ng expr (some operand) context_type strict =
      bareResult expr operand context_type strict (path.find operand)

/-- Array wildcards and filters are spelled with a mark, and a mark is nothing else; without a mark no operand has
several matches, or every operand has. -/
structure WellSpelled (expr : Text) (path : JSONPath O V) : Prop where
  unquoted : ¬path.tree.HasListStep → WordCuts.occurs wildcardMark expr = false ∧ WordCuts.occurs filterMark expr = false
  marked : IsMarked expr path.tree ∨ (∀ operand, 1 < (path.find operand).length) ∨
    ¬path.tree.HasListStep ∧ ∀ operand, (path.find operand).length ≤ 1

section Decision
variable {expr : Text} {path : JSONPath O V} {ng}

theorem evalJsonpath_of_many (h : ng.parse expr = .ok path) (operand : O) (context_type : Option Text) (strict : Bool)
    (hmany : IsMarked expr path.tree ∨ 1 < (path.find operand).length) :
    evalJsonpath ng expr (some operand) context_type strict = .ok (.matches (path.find operand)) := by
  have hlist : (decide (1 < (path.find operand).length) || hasWildcard expr || hasFilter expr path.tree) = true := by
    rw [Bool.or_eq_true, Bool.or_eq_true, decide_eq_true_eq]
    unfold IsMarked at hmany
    tauto
  simp only [evalJsonpath, h]
  exact if_pos hlist

theorem evalJsonpath_of_few (h : ng.parse expr = .ok path) (operand : O) (context_type : Option Text) (strict : Bool)
    (hmark : ¬IsMarked expr path.tree) (hfew : (path.find operand).length ≤ 1) :
    evalJsonpath ng expr (some operand) context_type strict = bareResult expr operand context_type strict (path.find operand) := by
  have hbare : ¬(decide (1 < (path.find operand).length) || hasWildcard expr || hasFilter expr path.tree) = true := by
    rw [Bool.or_eq_true, Bool.or_eq_true, decide_eq_true_eq]
    unfold IsMarked at hmark
    have hnot : ¬1 < (path.find operand).length := by omega
    tauto
  simp only [evalJsonpath, h]
  exact if_neg hbare

theorem isList_bareResult (expr : Text) (operand : O) (context_type : Option Text) (strict : Bool) (vs : List V) :
    isList (bareResult expr operand context_type strict vs) = false := by
  cases vs with
  | nil => cases strict <;> rfl
  | cons v vs => rfl

theorem isList_iff (h : ng.parse expr = .ok path) (operand : O) (context_type : Option Text) (strict : Bool) :
    isList (evalJsonpath ng expr (some operand) context_type strict) = true ↔
      IsMarked expr path.tree ∨ 1 < (path.find operand).length := by
  by_cases hmany : IsMarked expr path.tree ∨ 1 < (path.find operand).length
  · rw [evalJsonpath_of_many h operand context_type strict hmany]
    exact ⟨fun _ => hmany,fun _ => rfl⟩
  · rw [not_or, Nat.not_lt] at hmany
    rw [evalJsonpath_of_few h operand context_type strict hmany.1 hmany.2, isList_bareResult]
    constructor
    · exact fun hfalse => absurd hfalse Bool.false_ne_true
    · intro hany
      have hmark := hmany.1
      have hlen := hmany.2
      cases hany with
      | inl hm => exact absurd hm hmark
      | inr hlt => omega

theorem isMarked_of_occurs (h : WordCuts.occurs wildcardMark expr = true ∨ WordCuts.occurs filterMark expr = true) (tree : Node) :
    IsMarked expr tree := by
  cases h with
  | inl hwildcard => exact .inl hwildcard
  | inr hfilter =>
    refine .inr ?_
    rw [hasFilter, hfilter, Bool.true_or, Bool.true_or]

theorem WellSpelled.of_decidedByPath (h : ng.parse expr = .ok path) (hd : DecidedByPath ng expr path) :
    WellSpelled expr path := by
  obtain ⟨list,hlist⟩ := hd.alone
  have hiff := fun operand => isList_iff h operand none false
  refine ⟨fun hstep => ?_,?_⟩
  · by_contra hocc
    rw [not_and_or, Bool.not_eq_false, Bool.not_eq_false] at hocc
    have hbare := hd.quoted hstep hocc ng.emptyDict none false
    have hmatches := evalJsonpath_of_many h ng.emptyDict none false (.inl (isMarked_of_occurs hocc path.tree))
    have hfalse := congrArg isList (hbare.symm.trans hmatches)
    rw [isList_bareResult] at hfalse
    exact absurd hfalse Bool.false_ne_true
  · by_cases hmark : IsMarked expr path.tree
    · exact .inl hmark
    · refine .inr ?_
      cases list with
      | true =>
        refine .inl fun operand => ?_
        exact ((hiff operand).1 (hlist operand none false)).resolve_left hmark
      | false =>
        have hfew : ∀ operand, (path.find operand).length ≤ 1 := by
          intro operand
          by_contra hmany
          have htrue := (hiff operand).2 (.inr (by omega))
          rw [hlist operand none false] at htrue
          exact absurd htrue Bool.false_ne_true
        refine .inr ⟨fun hstep => ?_,hfew⟩
        -- a wildcard or a filter makes a list of the matches, however few
        have hbare := evalJsonpath_of_few h ng.emptyDict none false hmark (hfew ng.emptyDict)
        have hfalse := congrArg isList (hbare.symm.trans (hd.listSteps hstep ng.emptyDict none false))
        rw [isList_bareResult] at hfalse
        exact absurd hfalse Bool.false_ne_true

theorem DecidedByPath.of_wellSpelled (h : ng.parse expr = .ok path) (hw : WellSpelled expr path) :
    DecidedByPath ng expr path := by
  have halways : (IsMarked expr path.tree ∨ ∀ operand, 1 < (path.find operand).length) →
      ∀ operand context_type strict, evalJsonpath ng expr (some operand) context_type strict =
        .ok (.matches (path.find operand)) :=
    fun hmany operand context_type strict =>
      evalJsonpath_of_many h operand context_type strict (hmany.imp_right fun hall => hall operand)
  have hquoted : ¬path.tree.HasListStep →
      WordCuts.occurs wildcardMark expr = true ∨ WordCuts.occurs filterMark expr = true → False := by
    intro hstep hocc
    have hunquoted := hw.unquoted hstep
    rw [hunquoted.1, hunquoted.2] at hocc
    exact hocc.elim Bool.false_ne_true Bool.false_ne_true
  refine ⟨?_,fun hstep => ?_,fun hstep hocc => (hquoted hstep hocc).elim⟩
  · rcases or_assoc.2 hw.marked with hmany | ⟨_,hfew⟩
    · refine ⟨true,fun operand context_type strict => ?_⟩
      rw [halways hmany operand context_type strict]
      rfl
    · by_cases hmark : IsMarked expr path.tree
      · refine ⟨true,fun operand context_type strict => ?_⟩
        rw [halways (.inl hmark) operand context_type strict]
        rfl
      · refine ⟨false,fun operand context_type strict => ?_⟩
        rw [evalJsonpath_of_few h operand context_type strict hmark (hfew operand), isList_bareResult]
  · rcases or_assoc.2 hw.marked with hmany | ⟨hnone,_⟩
    · exact halways hmany
    · exact absurd hstep hnone

/-- The path alone decides whether the value is a list if and only if it is well spelled. -/
theorem decidedByPath_iff (h : ng.parse expr = .ok path) : DecidedByPath ng expr path ↔ WellSpelled expr path :=
  ⟨WellSpelled.of_decidedByPath h,DecidedByPath.of_wellSpelled h⟩

end Decision
end Evaluation

section Samples

inductive Sample
  | text (s : Text)
  | array (items : List Sample)
  | object (fields : List (Text × Sample))

def Sample.field (key : Text) : Sample → List Sample
  | .object fields => (fields.lookup key).toList
  | _ => []

def Sample.items : Sample → List Sample
  | .array items => items
  | v => [v]

def leaf (step : Step) : Node := .mk step false none none none none [] [] [] []

def child (left right : Node) : Node := .mk .other false (some left) (some right) none none [] [] [] []

def starText : Text := "ACTIONS.users[*]".toList

def spacedText : Text := "ACTIONS.users[ * ]".toList

def quotedText : Text := "ACTIONS.'[*]'".toList

def spacedPath : JSONPath Sample Sample where
  tree := child (child (leaf .other) (leaf .other)) (leaf .arrayWildcard)
  find v := ((v.field "ACTIONS".toList).flatMap (Sample.field "users".toList)).flatMap Sample.items

def quotedPath : JSONPath Sample Sample where
  tree := child (leaf .other) (leaf .other)
  find v := (v.field "ACTIONS".toList).flatMap (Sample.field "[*]".toList)

/-- A parser of three texts. -/
def sampleNg : JsonpathNg Sample Sample where
  parse expr :=
    if expr = starText ∨ expr = spacedText then .ok spacedPath
    else if expr = quotedText then .ok quotedPath
    else .error .parser
  emptyDict := .object []

def usersOperand (names : List Text) : Sample :=
  .object [("ACTIONS".toList,.object [("users".toList,.array (names.map .text))])]

def quotedOperand : Sample := .object [("ACTIONS".toList,.object [("[*]".toList,.text ['x'])])]

theorem decidedByPath_iff_users :
    sampleNg.parse starText = .ok spacedPath ∧ DecidedByPath sampleNg starText spacedPath := by
  have hstep : spacedPath.tree.HasListStep :=
    ⟨leaf .arrayWildcard,.single (by simp [spacedPath, child, Node.parts, Node.searched]),by simp [leaf, Node.step]⟩
  exact ⟨rfl,(decidedByPath_iff rfl).mpr ⟨fun hno => absurd hstep hno,.inl (.inl rfl)⟩⟩

theorem containsFilter_spaced : containsFilter spacedPath.tree = false := by
  simp [containsFilter, containsFilterLoop, spacedPath, child, leaf, Node.searched, Node.hasFilterExpr]

/-- With blanks around the star one user is a bare value and two are a list; a star in a quoted key makes a list. -/
theorem not_decidedByPath :
    evalJsonpath sampleNg spacedText (some (usersOperand [['a']])) none false = .ok (.value (.text ['a'])) ∧
    evalJsonpath sampleNg spacedText (some (usersOperand [['a'],['b']])) none false =
      .ok (.matches [.text ['a'],.text ['b']]) ∧
    evalJsonpath sampleNg quotedText (some quotedOperand) none false = .ok (.matches [.text ['x']]) := by
  refine ⟨?_,rfl,rfl⟩
  have hmark : ¬IsMarked spacedText spacedPath.tree := by
    rw [IsMarked, hasFilter, containsFilter_spaced]
    decide
  have hparse : sampleNg.parse spacedText = .ok spacedPath := rfl
  exact evalJsonpath_of_few hparse (usersOperand [['a']]) none false hmark (Nat.le_refl 1)

end Samples
end JsonPaths
end Allama

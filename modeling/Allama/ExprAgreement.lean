import Allama.ExprValidation

/-! When static validation agrees with evaluation. -/
namespace Allama
open Checked
namespace ExprTrees
variable {V E : Type} {p : Runtime V E}

section Eagerness

theorem exists_of_bind_ok {A B : Type} {x : Except (EvalError V E) A} {f : A → Except (EvalError V E) B}
    (h : ∃ b, x >>= f = .ok b) : ∃ a, x = .ok a ∧ ∃ b, f a = .ok b := by
  obtain ⟨b,hb⟩ := h
  obtain ⟨a,hx,ha⟩ := bind_eq_ok.1 hb
  exact ⟨a,hx,b,ha⟩

theorem ok_of_bind_ok {A B : Type} {x : Except (EvalError V E) A} {f : A → Except (EvalError V E) B}
    (h : ∃ b, x >>= f = .ok b) : ∃ a, x = .ok a :=
  (exists_of_bind_ok h).imp fun _ hx => hx.1

theorem both_of_bind_ok {A B C : Type} {x : Except (EvalError V E) A} {y : Except (EvalError V E) B}
    {f : A → B → Except (EvalError V E) C} (h : ∃ c, (x >>= fun a => y >>= fun b => f a b) = .ok c) :
    (∃ a, x = .ok a) ∧ ∃ b, y = .ok b := by
  obtain ⟨a,hx,hrest⟩ := exists_of_bind_ok h
  exact ⟨⟨a,hx⟩,ok_of_bind_ok hrest⟩

mutual

theorem parts_succeed : ∀ {e : Expr}, Succeeds p e → ∀ t ∈ e.subtrees, Succeeds p t
  | .reference _, h | .literal _, h => List.forall_mem_cons.2 ⟨h,List.forall_mem_nil _⟩
  | .function _ _, h => List.forall_mem_cons.2 ⟨h,parts_succeedAll (ok_of_bind_ok h)⟩
  | .list .nil, h | .dict .nil, h => List.forall_mem_cons.2 ⟨h,List.forall_mem_nil _⟩
  | .list (.cons _ _), h => List.forall_mem_cons.2 ⟨h,parts_succeedAll (ok_of_bind_ok h)⟩
  | .dict (.cons _ _ _), h => List.forall_mem_cons.2 ⟨h,parts_succeedPairs (ok_of_bind_ok h)⟩
  | .primary_expr _ _, h => by
    have hparts := both_of_bind_ok h
    exact List.forall_mem_cons.2 ⟨h,List.forall_mem_append.2 ⟨parts_succeed hparts.1,parts_succeedAll hparts.2⟩⟩
  | .typecast _ _, h | .not_op _, h | .neg_op _, h | .pos_op _, h =>
    List.forall_mem_cons.2 ⟨h,parts_succeed (ok_of_bind_ok h)⟩
  | .or_op _ _, h | .and_op _ _, h | .binary_op _ _ _, h => by
    have hparts := both_of_bind_ok h
    exact List.forall_mem_cons.2 ⟨h,List.forall_mem_append.2 ⟨parts_succeed hparts.1,parts_succeed hparts.2⟩⟩
  | .ternary _ _ _, h => by
    obtain ⟨a,ht,hrest⟩ := exists_of_bind_ok h
    have hparts := both_of_bind_ok hrest
    exact List.forall_mem_cons.2 ⟨h,List.forall_mem_append.2 ⟨parts_succeed ⟨a,ht⟩,
      List.forall_mem_append.2 ⟨parts_succeed hparts.1,parts_succeed hparts.2⟩⟩⟩

theorem parts_succeedAll : ∀ {es : Exprs}, (∃ vs, evalAll p es = .ok vs) → ∀ t ∈ es.subtrees, Succeeds p t
  | .nil, _ => List.forall_mem_nil _
  | .cons _ _, h => by
    have hparts := both_of_bind_ok h
    exact List.forall_mem_append.2 ⟨parts_succeed hparts.1,parts_succeedAll hparts.2⟩

theorem parts_succeedPairs : ∀ {pairs : Pairs}, (∃ vs, evalPairs p pairs = .ok vs) → ∀ t ∈ pairs.subtrees, Succeeds p t
  | .nil, _ => List.forall_mem_nil _
  | .cons _ _ _, h => by
    have hparts := both_of_bind_ok h
    exact List.forall_mem_append.2 ⟨parts_succeed hparts.1,parts_succeedPairs hparts.2⟩

end

theorem length_evalAll : ∀ {es : Exprs} {vs : List V}, evalAll p es = .ok vs → vs.length = es.length
  | .nil, vs, h => by
    rw [← Except.ok.inj h]
    rfl
  | .cons e es, vs, h => by
    obtain ⟨v,_,hrest⟩ := bind_eq_ok.1 h
    obtain ⟨vs',hvs,hcons⟩ := bind_eq_ok.1 hrest
    rw [← Except.ok.inj hcons, List.length_cons, length_evalAll hvs]
    rfl

end Eagerness

section Calls
variable {v : Validator V E p} {args : List V} {call : List V → Except E V}

theorem foldl_min_eq_zero (n : ℕ) (ns : List ℕ) : ns.foldl min n = 0 ↔ n = 0 ∨ 0 ∈ ns := by
  induction ns generalizing n with
  | nil => simp
  | cons k ns ih =>
    rw [List.foldl_cons, ih, List.mem_cons]
    have hmin : min n k = 0 ↔ n = 0 ∨ 0 = k := by omega
    rw [hmin, or_assoc]

theorem zero_mem_lengths {items : V → Option (List V)} :
    0 ∈ (args.filterMap items).map List.length ↔ ∃ arg ∈ args, items arg = some [] := by
  rw [List.mem_map]
  constructor
  · intro ⟨xs,hxs,hlen⟩
    obtain ⟨arg,harg,hitems⟩ := List.mem_filterMap.1 hxs
    exact ⟨arg,harg,List.length_eq_zero_iff.1 hlen ▸ hitems⟩
  · intro ⟨arg,harg,hitems⟩
    exact ⟨[],List.mem_filterMap.2 ⟨arg,harg,hitems⟩,rfl⟩

theorem broadcastMap_ok_iff {list : List V → V} {items : V → Option (List V)}
    (hcall : ∀ zipped : List V, zipped.length = args.length → ∃ e, call zipped = .error e) :
    (∃ w, broadcastMap list items call args = .ok w) ↔ ∃ arg ∈ args, items arg = some [] := by
  rw [← zero_mem_lengths, broadcastMap]
  cases (args.filterMap items).map List.length with
  | nil =>
    obtain ⟨e,he⟩ := hcall args rfl
    constructor
    · intro ⟨w,hw⟩
      simp only [he] at hw
      cases hw
    · exact fun h => absurd h List.not_mem_nil
  | cons n ns =>
    rw [List.mem_cons, eq_comm, ← foldl_min_eq_zero]
    constructor
    · intro ⟨w,hw⟩
      obtain ⟨ws,hws,_⟩ := bind_eq_ok.1 hw
      by_contra hpos
      -- the first tuple has as many components as there are arguments
      have hzero : 0 ∈ List.range (ns.foldl min n) := List.mem_range.2 (Nat.pos_of_ne_zero hpos)
      obtain ⟨_,_,hok⟩ := exists_of_forall₂ (mapM_eq_ok.1 hws) (List.mem_map_of_mem hzero)
      obtain ⟨e,he⟩ := hcall _ (List.length_map _)
      rw [he] at hok
      cases hok
    · intro hzero
      refine ⟨list [],?_⟩
      simp only [hzero]
      rfl

theorem raises_eq_ok {A : Type} {x : Except E A} {a : A} : (raises x : Except (EvalError V E) A) = .ok a ↔ x = .ok a := by
  cases x with
  | error e => exact ⟨fun h => (by cases h),fun h => (by cases h)⟩
  | ok b => exact ⟨fun h => congrArg Except.ok (Except.ok.inj h),fun h => congrArg Except.ok (Except.ok.inj h)⟩

theorem visitFunction_eq_nil_iff {name : Text} {provided : ℕ} :
    visitFunction v name provided = [] ↔
      ∃ fn, p.functions (baseName name) = some fn ∧ (v.signature (baseName name)).accepts provided = true := by
  rw [visitFunction]
  cases p.functions (baseName name) with
  | none => exact ⟨fun h => absurd h (List.cons_ne_nil _ _),fun ⟨_,h,_⟩ => absurd h.symm (Option.some_ne_none _)⟩
  | some fn =>
    have haccepts : (v.signature (baseName name)).accepts provided = true ↔
        ¬provided < (v.signature (baseName name)).required ∧
        ¬(!(v.signature (baseName name)).has_varargs && decide ((v.signature (baseName name)).maximum < provided)) = true := by
      rw [Signature.accepts]
      cases (v.signature (baseName name)).has_varargs <;> simp
    simp only [Option.some.injEq, exists_eq_left']
    rw [haccepts]
    split
    · next hfew => exact ⟨fun h => absurd h (List.cons_ne_nil _ _),fun h => absurd hfew h.1⟩
    · next hfew =>
      split
      · next hmany => exact ⟨fun h => absurd h (List.cons_ne_nil _ _),fun h => absurd hmany h.2⟩
      · next hmany => exact ⟨fun _ => ⟨hfew,hmany⟩,fun _ => rfl⟩

/-- A mapped call that static validation rejects does not end up without tuples. -/
def CallsSome (v : Validator V E p) (name : Text) (es : Exprs) : Prop :=
  mapSuffix.isSuffixOf name = true → ∀ fn, p.functions (baseName name) = some fn →
    (v.signature (baseName name)).accepts es.length = false →
    ∀ args, evalAll p es = .ok args → ∀ arg ∈ args, v.items arg ≠ some []

theorem callFunction_of_none {name : Text} (h : p.functions (baseName name) = none) (args : List V) :
    callFunction p name args = .error (.unknownFunction (baseName name)) := by
  unfold baseName removeSuffix at h ⊢
  unfold callFunction
  dsimp only
  rw [h]

theorem callFunction_of_some {name : Text} {fn : Function V E} (h : p.functions (baseName name) = some fn) (args : List V) :
    callFunction p name args = raises (if mapSuffix.isSuffixOf name then fn.map args else fn.call args) := by
  unfold baseName removeSuffix at h
  unfold callFunction
  dsimp only
  rw [h]

/-- What is found at a call means that its evaluation fails exactly if the call is of some tuple. -/
theorem visitFunction_sound_iff {name : Text} {es : Exprs} :
    (visitFunction v name es.length ≠ [] → ¬Succeeds p (.function name es)) ↔ CallsSome v name es := by
  constructor
  · intro hsound hsuffix fn hfn hrejects args hargs arg harg hempty
    have hfound : visitFunction v name es.length ≠ [] := by
      intro hnil
      obtain ⟨_,_,haccepts⟩ := visitFunction_eq_nil_iff.1 hnil
      rw [hrejects] at haccepts
      exact absurd haccepts Bool.false_ne_true
    apply hsound hfound
    have hmap : ∃ w, broadcastMap p.list v.items fn.call args = .ok w := (broadcastMap_ok_iff fun zipped hlen =>
      v.call_arity hfn (by rw [hlen, length_evalAll hargs, hrejects])).2 ⟨arg,harg,hempty⟩
    obtain ⟨w,hw⟩ := hmap
    refine ⟨w,?_⟩
    rw [eval, hargs]
    show callFunction p name args = .ok w
    rw [callFunction_of_some hfn]
    exact raises_eq_ok.2 ((if_pos hsuffix).trans ((congrFun (v.map_eq hfn) args).trans hw))
  · intro hsome hfound ⟨w,hw⟩
    obtain ⟨args,hargs,hcall⟩ := bind_eq_ok.1 hw
    cases hfn : p.functions (baseName name) with
    | none =>
      rw [callFunction_of_none hfn] at hcall
      cases hcall
    | some fn =>
      rw [callFunction_of_some hfn] at hcall
      have hrejects : (v.signature (baseName name)).accepts es.length = false := by
        by_contra haccepts
        exact hfound (visitFunction_eq_nil_iff.2 ⟨fn,hfn,Bool.not_eq_false _ ▸ haccepts⟩)
      have hfails : ∀ zipped : List V, zipped.length = args.length → ∃ e, fn.call zipped = .error e :=
        fun zipped hlen => v.call_arity hfn (by rw [hlen, length_evalAll hargs, hrejects])
      have hok := raises_eq_ok.1 hcall
      by_cases hsuffix : mapSuffix.isSuffixOf name = true
      · rw [if_pos hsuffix, v.map_eq hfn] at hok
        obtain ⟨arg,harg,hempty⟩ := (broadcastMap_ok_iff hfails).1 ⟨w,hok⟩
        exact hsome hsuffix fn hfn hrejects args hargs arg harg hempty
      · rw [if_neg hsuffix] at hok
        obtain ⟨e,he⟩ := hfails args rfl
        rw [he] at hok
        cases hok

end Calls

section Casts
variable {v : Validator V E p}

/-- A literal whose cast succeeds has a token whose cast succeeds. -/
def TokenCasts (p : Runtime V E) (typename : TypeSpecifier) (l : Literal) : Prop :=
  Succeeds p (.typecast typename (.literal l)) → ∃ w, p.cast typename (p.str (literalToken l)) = .ok w

theorem visitTypecast_records (typename : TypeSpecifier) (value : Expr) :
    ∃ findings, visitTypecast v typename value = .ok findings := by
  unfold visitTypecast
  split
  · next l =>
    split
    · exact ⟨[],rfl⟩
    · next e he => exact ⟨_,if_pos (v.cast_str he)⟩
  · exact ⟨[],rfl⟩

theorem visitTypecast_sound_iff {typename : TypeSpecifier} {value : Expr} :
    (∀ findings, visitTypecast v typename value = .ok findings → findings ≠ [] → ¬Succeeds p (.typecast typename value)) ↔
      ∀ l, value = .literal l → TokenCasts p typename l := by
  by_cases hliteral : ∃ l, value = .literal l
  · obtain ⟨l,rfl⟩ := hliteral
    cases hcast : p.cast typename (p.str (literalToken l)) with
    | ok w =>
      have hnone : visitTypecast v typename (.literal l) = .ok [] := by
        rw [visitTypecast, hcast]
      rw [hnone]
      constructor
      · intro _ l' hl _
        exact ⟨w,Expr.literal.inj hl ▸ hcast⟩
      · exact fun _ findings hfindings hne => absurd (Except.ok.inj hfindings).symm hne
    | error e =>
      have hfound : visitTypecast v typename (.literal l) = .ok [⟨.TYPECAST,.castError e⟩] := by
        rw [visitTypecast, hcast]
        exact if_pos (v.cast_str hcast)
      constructor
      · intro hsound l' hl hok
        rw [← Expr.literal.inj hl] at hok
        exact absurd hok (hsound _ hfound (List.cons_ne_nil _ _))
      · intro htoken _ _ _ hok
        obtain ⟨w,hw⟩ := htoken l rfl hok
        rw [hcast] at hw
        cases hw
  · constructor
    · exact fun _ l hl => absurd ⟨l,hl⟩ hliteral
    · intro _ findings hfindings hne
      have hnone : visitTypecast v typename value = .ok [] := by
        cases value with
        | literal l => exact absurd ⟨l,rfl⟩ hliteral
        | _ => rfl
      exact absurd (Except.ok.inj (hnone.symm.trans hfindings)).symm hne

end Casts

section Agreement
variable {v : Validator V E p} {exclude : List ExprType} {r : Root} {t : Expr}

/-- A path behind `ACTIONS` has the parts of a reference and a property. -/
def HasProperty (jsonpath : Text) : Prop :=
  ∃ ref prop rest, (jsonpath.dropWhile (· = '.')).splitOn '.' = ref :: prop :: rest

theorem visitActions_records_iff {jsonpath : Text} : (∃ findings, visitActions v jsonpath = .ok findings) ↔ HasProperty jsonpath := by
  unfold visitActions HasProperty
  dsimp only
  generalize (jsonpath.dropWhile (· = '.')).splitOn '.' = parts
  match parts with
  | [] => exact ⟨fun ⟨_,h⟩ => (by cases h),fun ⟨_,_,_,h⟩ => (by cases h)⟩
  | [ref] => exact ⟨fun ⟨_,h⟩ => (by cases h),fun ⟨_,_,_,h⟩ => (by cases h)⟩
  | ref :: prop :: rest => exact ⟨fun _ => ⟨ref,prop,rest,rfl⟩,fun _ => ⟨_,rfl⟩⟩

theorem visitNode_records_iff :
    (∃ findings, visitNode v t = .ok findings) ↔ ∀ jsonpath, t = .reference (.actions jsonpath) → HasProperty jsonpath := by
  by_cases hactions : ∃ jsonpath, t = .reference (.actions jsonpath)
  · obtain ⟨jsonpath,rfl⟩ := hactions
    refine visitActions_records_iff.trans ⟨fun h path hpath => ?_,fun h => h jsonpath rfl⟩
    rw [← Reference.actions.inj (Expr.reference.inj hpath)]
    exact h
  · refine ⟨fun _ path hpath => absurd ⟨path,hpath⟩ hactions,fun _ => ?_⟩
    cases t with
    | reference ref =>
      cases ref with
      | actions jsonpath => exact absurd ⟨jsonpath,rfl⟩ hactions
      | _ => exact ⟨_,rfl⟩
    | typecast typename value => exact visitTypecast_records typename value
    | _ => exact ⟨_,rfl⟩

/-- A finding of the root or of a node. -/
def FoundIn (v : Validator V E p) (r : Root) (finding : Finding E) : Prop :=
  finding ∈ (visitRoot r : List (Finding E)) ∨
    ∃ t ∈ r.expr.subtrees, ∃ findings, visitNode v t = .ok findings ∧ finding ∈ findings

theorem visitNodes_records_iff :
    (∃ findings, visitNodes v r = .ok findings) ↔ ∀ t ∈ r.expr.subtrees, ∃ findings, visitNode v t = .ok findings := by
  constructor
  · intro ⟨findings,h⟩ t ht
    obtain ⟨lists,hlists,_⟩ := bind_eq_ok.1 h
    obtain ⟨found,_,hfound⟩ := exists_of_forall₂ (mapM_eq_ok.1 hlists) ht
    exact ⟨found,hfound⟩
  · intro h
    have hall : ∃ lists, r.expr.subtrees.mapM (visitNode v) = .ok lists ∧ List.Forall₂ (fun _ _ => True) r.expr.subtrees lists :=
      exists_mapM_eq_ok fun t ht => (h t ht).imp fun _ hfound => ⟨hfound,trivial⟩
    obtain ⟨lists,hlists,_⟩ := hall
    exact ⟨visitRoot r ++ lists.flatten,bind_eq_ok.2 ⟨lists,hlists,rfl⟩⟩

theorem mem_visitNodes {findings : List (Finding E)} (h : visitNodes v r = .ok findings) (finding : Finding E) :
    finding ∈ findings ↔ FoundIn v r finding := by
  obtain ⟨lists,hlists,hfindings⟩ := bind_eq_ok.1 h
  have hall := mapM_eq_ok.1 hlists
  rw [← Except.ok.inj hfindings, List.mem_append, List.mem_flatten]
  apply or_congr_right
  constructor
  · intro ⟨found,hmem,hin⟩
    obtain ⟨t,ht,hfound⟩ := exists_of_forall₂ hall.flip hmem
    exact ⟨t,ht,found,hfound,hin⟩
  · intro ⟨t,ht,found,hfound,hin⟩
    obtain ⟨found',hmem,hfound'⟩ := exists_of_forall₂ hall ht
    rw [hfound] at hfound'
    exact ⟨found,Except.ok.inj hfound' ▸ hmem,hin⟩

def Root.NoReferences (r : Root) : Prop := ∀ ref, .reference ref ∉ r.expr.subtrees

def Expr.IsChecked : Expr → Prop
  | .function _ _ | .typecast _ _ => True
  | _ => False

/-- Validation records its findings, and they agree with the evaluation and with the excluded kinds. -/
structure ValidationAgrees (v : Validator V E p) (parse : Text → Option Root) (expr : Text) (exclude : List ExprType) : Prop where
  records : ∃ findings, validate v parse expr exclude = .ok findings
  complete : ∀ r, parse expr = some r → r.NoReferences → (∃ o, evaluate p r = .ok o) → validate v parse expr exclude = .ok []
  sound : ∀ r, parse expr = some r → ∀ t ∈ r.expr.subtrees, t.IsChecked →
    ∀ findings, visitNode v t = .ok findings → findings ≠ [] → ¬Succeeds p t
  excluded : ∃ findings, validate v parse expr [] = .ok findings ∧
    validate v parse expr exclude = .ok (findings.filter fun finding => !exclude.contains finding.type)

/-- The references, calls and casts of an expression are checked as they are evaluated, and its findings are excluded
as its root is. -/
structure WellChecked (v : Validator V E p) (exclude : List ExprType) (r : Root) : Prop where
  paths : ∀ jsonpath, .reference (.actions jsonpath) ∈ r.expr.subtrees → HasProperty jsonpath
  calls : ∀ name es, .function name es ∈ r.expr.subtrees → CallsSome v name es
  casts : ∀ typename l, .typecast typename (.literal l) ∈ r.expr.subtrees → TokenCasts p typename l
  kinds : ∀ finding, FoundIn v r finding → exclude.contains finding.type = isExcluded exclude r.exprType

theorem succeeds_of_evaluate (h : ∃ o, evaluate p r = .ok o) : Succeeds p r.expr := by
  cases r with
  | expression e => exact ok_of_bind_ok h
  | trailing_typecast_expression e typename => exact ok_of_bind_ok h
  | iterator iter_var_expr collection => exact ok_of_bind_ok h

theorem WellChecked.records (h : WellChecked v exclude r) : ∃ findings, visitNodes v r = .ok findings :=
  visitNodes_records_iff.2 fun _ ht => visitNode_records_iff.2 fun jsonpath he => h.paths jsonpath (he ▸ ht)

theorem WellChecked.sound (h : WellChecked v exclude r) (ht : t ∈ r.expr.subtrees) (hchecked : t.IsChecked)
    {findings : List (Finding E)} (hfindings : visitNode v t = .ok findings) (hne : findings ≠ []) : ¬Succeeds p t := by
  cases t with
  | function name es =>
    rw [← Except.ok.inj hfindings] at hne
    exact visitFunction_sound_iff.2 (h.calls name es ht) hne
  | typecast typename value =>
    refine visitTypecast_sound_iff.2 (fun l hl => ?_) findings hfindings hne
    rw [hl] at ht
    exact h.casts typename l ht
  | _ => exact hchecked.elim

theorem WellChecked.no_findings (h : WellChecked v exclude r) (href : r.NoReferences) (hok : ∃ o, evaluate p r = .ok o)
    (finding : Finding E) : ¬FoundIn v r finding := by
  intro hfound
  cases hfound with
  | inl hroot =>
    unfold visitRoot at hroot
    split at hroot
    · next path => exact href (.local_vars path) List.mem_cons_self
    · exact absurd hroot List.not_mem_nil
  | inr hnode =>
    obtain ⟨t,ht,findings,hfindings,hin⟩ := hnode
    have hsucceeds := parts_succeed (succeeds_of_evaluate hok) t ht
    by_cases hchecked : t.IsChecked
    · exact h.sound ht hchecked hfindings (List.ne_nil_of_mem hin) hsucceeds
    · have hnone : visitNode v t = .ok [] := by
        cases t with
        | reference ref => exact absurd ht (href ref)
        | function name es => exact absurd trivial hchecked
        | typecast typename value => exact absurd trivial hchecked
        | _ => rfl
      rw [← Except.ok.inj (hnone.symm.trans hfindings)] at hin
      exact absurd hin List.not_mem_nil

theorem visitWithLocator_nil (v : Validator V E p) (r : Root) : visitWithLocator v r [] = visitNodes v r := by
  apply if_neg
  cases r.exprType with
  | none => exact Bool.false_ne_true
  | some type => exact Bool.false_ne_true

theorem excluded_iff {findings : List (Finding E)} (h : visitNodes v r = .ok findings) :
    visitWithLocator v r exclude = .ok (findings.filter fun finding => !exclude.contains finding.type) ↔
      ∀ finding, FoundIn v r finding → exclude.contains finding.type = isExcluded exclude r.exprType := by
  simp only [← mem_visitNodes h]
  cases hroot : isExcluded exclude r.exprType with
  | true =>
    rw [visitWithLocator, if_pos hroot, Except.ok.injEq, eq_comm, List.filter_eq_nil_iff]
    refine forall₂_congr fun finding _ => ?_
    rw [Bool.not_eq_true', Bool.not_eq_false]
  | false =>
    rw [visitWithLocator, if_neg (Bool.eq_false_iff.1 hroot), h, Except.ok.injEq, eq_comm, List.filter_eq_self]
    refine forall₂_congr fun finding _ => ?_
    rw [Bool.not_eq_true']

theorem ValidationAgrees.of_wellChecked {parse : Text → Option Root} {expr : Text} (hparse : parse expr = some r)
    (h : WellChecked v exclude r) : ValidationAgrees v parse expr exclude := by
  obtain ⟨findings,hfindings⟩ := h.records
  have hvalidate : ∀ exclude, validate v parse expr exclude = visitWithLocator v r exclude := fun exclude => by
    rw [validate, hparse]
  have hfilter := (excluded_iff hfindings).2 h.kinds
  refine ⟨?_,fun r' hr' href hok => ?_,fun r' hr' t ht hchecked found hfound hne => ?_,findings,?_,?_⟩
  · rw [hvalidate]
    exact ⟨_,hfilter⟩
  · rw [hparse] at hr'
    rw [← Option.some.inj hr'] at href hok
    have hnil : findings = [] := List.eq_nil_iff_forall_not_mem.2 fun finding hmem =>
      h.no_findings href hok finding ((mem_visitNodes hfindings finding).1 hmem)
    rw [hvalidate, hfilter, hnil]
    rfl
  · rw [hparse] at hr'
    rw [← Option.some.inj hr'] at ht
    exact h.sound ht hchecked hfound hne
  · rw [hvalidate, visitWithLocator_nil, hfindings]
  · rw [hvalidate, hfilter]

theorem WellChecked.of_validationAgrees {parse : Text → Option Root} {expr : Text} (hparse : parse expr = some r)
    (h : ValidationAgrees v parse expr exclude) : WellChecked v exclude r := by
  obtain ⟨findings,hfindings,hfilter⟩ := h.excluded
  have hvalidate : ∀ exclude, validate v parse expr exclude = visitWithLocator v r exclude := fun exclude => by
    rw [validate, hparse]
  rw [hvalidate, visitWithLocator_nil] at hfindings
  rw [hvalidate] at hfilter
  have hnodes := visitNodes_records_iff.1 ⟨findings,hfindings⟩
  refine ⟨fun jsonpath hmem => ?_,fun name es hmem => ?_,fun typename l hmem => ?_,(excluded_iff hfindings).1 hfilter⟩
  · exact visitNode_records_iff.1 (hnodes _ hmem) jsonpath rfl
  · exact visitFunction_sound_iff.1 fun hne => h.sound r hparse _ hmem trivial _ rfl hne
  · exact visitTypecast_sound_iff.1 (fun found hfound hne => h.sound r hparse _ hmem trivial found hfound hne) l rfl

/-- The condition on an expression; one that cannot be parsed has a generic finding. -/
def Checkable (v : Validator V E p) (parse : Text → Option Root) (expr : Text) (exclude : List ExprType) : Prop :=
  match parse expr with
  | none => exclude.contains .GENERIC = false
  | some r => WellChecked v exclude r

/-- Validation agrees with evaluation exactly on checkable expressions. -/
theorem validationAgrees_iff (v : Validator V E p) (parse : Text → Option Root) (expr : Text) (exclude : List ExprType) :
    ValidationAgrees v parse expr exclude ↔ Checkable v parse expr exclude := by
  unfold Checkable
  cases hparse : parse expr with
  | some r => exact ⟨WellChecked.of_validationAgrees hparse,ValidationAgrees.of_wellChecked hparse⟩
  | none =>
    have hvalidate : ∀ exclude, validate v parse expr exclude = .ok [⟨.GENERIC,.unparsable expr⟩] := fun exclude => by
      rw [validate, hparse]
    have hnone : ∀ r, parse expr = some r → False := fun r hr => by
      rw [hparse] at hr
      cases hr
    constructor
    · intro h
      obtain ⟨findings,hfindings,hfilter⟩ := h.excluded
      rw [hvalidate] at hfindings hfilter
      rw [← Except.ok.inj hfindings] at hfilter
      have hkept := List.filter_eq_self.1 (Except.ok.inj hfilter).symm _ List.mem_cons_self
      rwa [Bool.not_eq_true'] at hkept
    · intro hkept
      refine ⟨⟨_,hvalidate exclude⟩,fun r hr => (hnone r hr).elim,fun r hr => (hnone r hr).elim,_,hvalidate [],?_⟩
      rw [hvalidate, List.filter_cons, hkept]
      rfl

end Agreement

section Samples

/-- `length` has one argument. -/
def plainValidator : Validator Plain Unit plainRuntime where
  signature _ := ⟨1,1,false⟩
  items := plainItems
  isValueError _ := true
  action_refs := []
  secret_validator _ _ := []
  variable_validator _ _ := []
  oauth_validator _ _ _ := []
  call_arity {name fn args} hfn hrejects := by
    obtain rfl := Option.some.inj (Option.ite_none_right_eq_some.mp hfn).2
    match args with
    | [] => exact ⟨(),rfl⟩
    | [_] => cases hrejects
    | arg :: _ :: _ => exact ⟨(),by cases arg <;> rfl⟩
  map_eq hfn := by
    obtain rfl := Option.some.inj (Option.ite_none_right_eq_some.mp hfn).2
    rfl
  cast_str _ := rfl

/-- `int(FN.length('abc')) + int(5)`. -/
def sampleSum : Expr :=
  .binary_op .add
    (.typecast .int (.function "length".toList (.cons (.literal (.STRING_LITERAL "'abc'".toList)) .nil)))
    (.typecast .int (.literal (.NUMERIC_LITERAL ['5'])))

theorem validationAgrees_iff_sum :
    evaluate plainRuntime (.expression sampleSum) = .ok (.value (.int 8)) ∧
    validate plainValidator (fun _ => some (.expression sampleSum)) [] [.ACTION] = .ok [] ∧
    ValidationAgrees plainValidator (fun _ => some (.expression sampleSum)) [] [.ACTION] := by
  refine ⟨rfl,rfl,(validationAgrees_iff plainValidator (fun _ => some (.expression sampleSum)) [] [.ACTION]).mpr ?_⟩
  have hnodes : visitNodes plainValidator (.expression sampleSum) = .ok [] := rfl
  refine ⟨?_,?_,?_,?_⟩
  · intro jsonpath h
    simp [Root.expr, sampleSum, Expr.subtrees, Exprs.subtrees] at h
  · intro name es h hsuffix
    simp only [Root.expr, sampleSum, Expr.subtrees, Exprs.subtrees, List.cons_append, List.nil_append, List.mem_cons,
      List.not_mem_nil, or_false, reduceCtorEq, false_or] at h
    obtain ⟨rfl,-⟩ := Expr.function.inj h
    cases hsuffix
  · intro typename l h _
    simp only [Root.expr, sampleSum, Expr.subtrees, Exprs.subtrees, List.cons_append, List.nil_append, List.mem_cons,
      List.not_mem_nil, or_false, reduceCtorEq, false_or] at h
    simp only [Expr.typecast.injEq, reduceCtorEq, and_false, false_or, Expr.literal.injEq] at h
    obtain ⟨rfl,rfl⟩ := h
    exact ⟨.int 5,rfl⟩
  · intro finding h
    exact absurd ((mem_visitNodes hnodes finding).2 h) List.not_mem_nil

def wholeAction : Text := "ACTIONS.a".toList

def quotedNumber : Text := "int('5')".toList

def negatedCall : Text := "not FN.nope()".toList

/-- A parser of three expressions. -/
def sampleParse (expr : Text) : Option Root :=
  if expr = wholeAction then some (.expression (.reference (.actions ".a".toList)))
  else if expr = quotedNumber then some (.expression (.typecast .int (.literal (.STRING_LITERAL "'5'".toList))))
  else if expr = negatedCall then some (.expression (.not_op (.function "nope".toList .nil)))
  else none

/-- `ACTIONS.a` escapes from validation, `int('5')` is found invalid although it has a value, and an excluded finding
below the root is not left out. -/
theorem not_validationAgrees :
    validate plainValidator sampleParse wholeAction [] = .error (.unpack [['a']]) ∧
    validate plainValidator sampleParse quotedNumber [] = .ok [⟨.TYPECAST,.castError ()⟩] ∧
    (sampleParse quotedNumber).map (evaluate plainRuntime) = some (.ok (.value (.int 5))) ∧
    validate plainValidator sampleParse negatedCall [.FUNCTION] = .ok [⟨.FUNCTION,.unknownFunction "nope".toList⟩] :=
  ⟨rfl,rfl,rfl,rfl⟩

end Samples
end ExprTrees
end Allama

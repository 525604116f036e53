import Allama.DSLScoping

/-! What the validation of the scopes guarantees of an accepted DSL: edges and expressions. -/
namespace Allama
open Checked
section
variable (dsl : DSLInput)

/-- An expression of `a` refers to the result of `d`. -/
def ActionStatement.References (a : ActionStatement) (d : String) : Prop :=
  ∃ e ∈ a.expressions, e.1 ≠ "depends_on" ∧ d ∈ e.2

/-- `outer` is the scope `inner` or a scope around it. -/
def DSLInput.Encloses (outer inner : String) : Prop := ∃ k : ℕ, dsl.outerScope^[k] inner = outer

/-- What the scopes of an accepted DSL satisfy. -/
structure ScopesRespected : Prop where
  acyclic : dsl.hasScatter → WellFounded dsl.Dep
  assigned : dsl.hasScatter → ∃ st, assignActionScopes dsl = .ok st ∧
    ∀ r ∈ dsl.refs, st.scopes r = some (dsl.scope r)
  plain_edge : ∀ r d, ¬ dsl.IsScatter r → ¬ dsl.IsGather r → dsl.Dep d r →
    dsl.scope d = dsl.scope r
  scatter_edge : ∀ x d, dsl.IsScatter x → dsl.Dep d x →
    dsl.scope x = x ∧ dsl.scope d = dsl.outerScope x
  gather_edge : ∀ g, dsl.IsGather g → (∃ d, dsl.Dep d g) ∧ ∀ d, dsl.Dep d g →
    dsl.IsScatter (dsl.scope d) ∧ dsl.outerScope (dsl.scope d) = dsl.scope g
  gathers_le : (dsl.actions.filter (fun a => a.action = .transformGather)).length ≤
    (dsl.actions.filter (fun a => a.action = .transformScatter)).length
  plain_ref : ∀ r d, ¬ dsl.IsScatter r → ¬ dsl.IsGather r → (dsl.task r).References d →
    dsl.Encloses (dsl.scope d) (dsl.scope r)
  scatter_ref : ∀ x d, dsl.IsScatter x → (dsl.task x).References d → dsl.scope d = dsl.outerScope x
  gather_ref : ∀ g d, dsl.IsGather g → (dsl.task g).References d →
    dsl.IsScatter (dsl.scope d) ∧ dsl.outerScope (dsl.scope d) = dsl.scope g

variable {dsl}

theorem encloses_of_isAncestorScope (hs : dsl.hasScatter) {st : ScopeState}
    (ha : assignActionScopes dsl = .ok st) {target : String} {n : ℕ} {scope : String}
    (h : isAncestorScope st target n (some scope) = true) : dsl.Encloses target scope := by
  induction n generalizing scope with
  | zero =>
    have he : target = scope := by simpa [isAncestorScope] using h
    exact ⟨0,he.symm⟩
  | succ n ih =>
    rw [isAncestorScope] at h
    split at h
    · rename_i he
      exact ⟨0,he.symm⟩
    · cases hup : (st.scopeHierarchy scope).join with
      | none =>
        rw [hup] at h
        cases n <;> cases h
      | some up =>
        rw [hup] at h
        obtain ⟨k,hk⟩ := ih h
        have houter : dsl.outerScope scope = up := by
          rw [outerScope_of_assigned hs ha, hup, Option.getD_some]
        refine ⟨k+1,?_⟩
        rw [Function.iterate_succ_apply, houter, hk]

theorem validateScatterGatherScopes_of_accepted (h : dsl.Accepted) :
    validateScatterGatherScopes dsl = .ok () := by
  have hv := h.2
  unfold validateStructure at hv
  split at hv
  · cases hv
  split at hv
  · cases hv
  split at hv
  · cases hv
  simp only [bind_eq_ok] at hv
  obtain ⟨_,-,hv⟩ := hv
  split at hv
  · cases hv
  exact (bind_eq_ok.mp hv).choose_spec.2

theorem checkExpression_of_accepted (h : dsl.Accepted) (hs : dsl.hasScatter) :
    ∃ st, assignActionScopes dsl = .ok st ∧ ∀ r d, (dsl.task r).References d →
      ∃ key, checkExpression dsl st (dsl.task r) key d = .ok () := by
  have hv := validateScatterGatherScopes_of_accepted h
  simp only [validateScatterGatherScopes] at hv
  split at hv
  · cases hv
  split at hv
  · -- the list of scatters is not empty
    rename_i hnil
    obtain ⟨a,ha,hact⟩ := hs
    have hmem : a ∈ dsl.actions.filter (fun a => a.action = .transformScatter) :=
      List.mem_filter.mpr ⟨ha,by simpa using hact⟩
    rw [hnil] at hmem
    cases hmem
  obtain ⟨st,hst,hv⟩ := bind_eq_ok.mp hv
  refine ⟨st,hst,?_⟩
  rintro r d ⟨e,he,hkey,hd⟩
  have hr : r ∈ dsl.refs := by
    by_contra hr
    rw [dsl.task_of_not_mem hr] at he
    cases he
  obtain ⟨_,-,hexprs⟩ := bind_eq_ok.mp (forM_eq_ok.mp hv _ (dsl.task_mem hr).1)
  have hfield := forM_eq_ok.mp hexprs e (List.mem_filter.mpr ⟨he,by simpa using hkey⟩)
  exact ⟨e.1,forM_eq_ok.mp hfield d hd⟩

theorem gathers_le_of_accepted (h : dsl.Accepted) :
    (dsl.actions.filter (fun a => a.action = .transformGather)).length ≤
      (dsl.actions.filter (fun a => a.action = .transformScatter)).length := by
  have hv := validateScatterGatherScopes_of_accepted h
  simp only [validateScatterGatherScopes] at hv
  split at hv
  · cases hv
  · exact not_lt.mp ‹_›

theorem isScatter_of_hierarchy (hwf : dsl.WellFormed) {st : ScopeState}
    (ha : assignActionScopes dsl = .ok st) {s p : String}
    (hp : some p = (st.scopeHierarchy s).join) : dsl.IsScatter s := by
  have hinv := (assigned_inv hwf.toParsed ha).1
  have hs : st.scopeHierarchy s = some (some p) := Option.join_eq_some_iff.mp hp.symm
  rcases hinv.hier_some s _ hs with rfl | ⟨-,hact⟩
  · rw [hinv.hier_root] at hs
    cases hs
  · exact hact

/-- The validation guarantees that the scopes are respected. -/
theorem scopes_respected (h : dsl.Accepted) : ScopesRespected dsl := by
  have hwf := wellFormed_of_accepted h
  have hsc := scoping hwf
  by_cases hs : dsl.hasScatter
  · obtain ⟨st,ha,hexpr⟩ := checkExpression_of_accepted h hs
    have hscope := scope_of_assigned hs ha
    have houter := outerScope_of_assigned hs ha
    refine ⟨dep_wellFounded hwf,fun _ => ⟨st,ha,fun r hr => ?_⟩,hsc.plain_dep,
      fun x d hx hd => ⟨hsc.scatter_scope x hx,hsc.scatter_dep x d hx hd⟩,fun g hg => ⟨?_,?_⟩,
      gathers_le_of_accepted h,fun r d hns hng hd => ?_,fun x d hx hd => ?_,fun g d hg hd => ?_⟩
    · obtain ⟨hinv,hall⟩ := assigned_inv hwf.toParsed ha
      obtain ⟨_,next,-,hn,-⟩ := hinv.placed r (hall r hr)
      rw [hscope, hn, Option.getD_some]
    · obtain ⟨d,hd⟩ := List.exists_mem_of_ne_nil _ (hsc.gather_entry g hg)
      exact ⟨d.1,d,hd,rfl⟩
    · exact fun d hd => hsc.gather_dep g d hg hd
    · obtain ⟨key,hok⟩ := hexpr r d hd
      simp only [checkExpression, dsl.task_ref, ← hscope] at hok
      split at hok
      · exact absurd ‹_› hns
      · exact absurd ‹_› hng
      · split at hok
        · exact encloses_of_isAncestorScope hs ha ‹_›
        · cases hok
    · obtain ⟨key,hok⟩ := hexpr x d hd
      simp only [checkExpression, dsl.task_ref, ← hscope,
        show (dsl.task x).action = .transformScatter from hx] at hok
      split at hok
      · cases hok
      · rename_i heq
        rw [hsc.scatter_scope x hx] at heq
        rw [houter, ← not_not.mp heq, Option.getD_some]
    · obtain ⟨key,hok⟩ := hexpr g d hd
      simp only [checkExpression, dsl.task_ref, ← hscope,
        show (dsl.task g).action = .transformGather from hg] at hok
      split at hok
      · cases hok
      · rename_i heq
        have hup := not_not.mp heq
        exact ⟨isScatter_of_hierarchy hwf ha hup,by rw [houter, ← hup, Option.getD_some]⟩
  · -- without scatters there are no gathers and one scope
    have hns := dsl.not_isScatter hs
    have hng := hwf.not_isGather hs
    have hroot : ∀ r, dsl.scope r = rootScope := fun r => by simp [DSLInput.scope, hs]
    exact ⟨fun hx => absurd hx hs,fun hx => absurd hx hs,hsc.plain_dep,fun x _ hx => absurd hx (hns x),
      fun g hg => absurd hg (hng g),gathers_le_of_accepted h,
      fun r d _ _ _ => ⟨0,by rw [hroot, hroot]; rfl⟩,fun x _ hx => absurd hx (hns x),
      fun g _ hg => absurd hg (hng g)⟩

end

def plainAction (ref : String) (dependsOn : List String) : ActionStatement where
  ref := ref
  action := .udf ref
  dependsOn := dependsOn

def scatterAction (ref : String) : ActionStatement where
  ref := ref
  action := .transformScatter

/-- A gather after `dependsOn` whose `items` refer to `refs`. -/
def gatherAction (ref : String) (dependsOn refs : List String) : ActionStatement where
  ref := ref
  action := .transformGather
  dependsOn := dependsOn
  expressions := [("args",refs)]

/-- Two scatters `x` and `y`, an action in the scope of each, and gathers. -/
def twoScopes (gathers : List ActionStatement) : DSLInput where
  actions := [scatterAction "x",scatterAction "y",plainAction "a" ["x"],plainAction "b" ["y"]] ++
    gathers

theorem scopes_respected_nested : ScopesRespected (twoScopes [gatherAction "g" ["a"] ["a"]]) :=
  scopes_respected (by decide)

/-- A cycle is accepted where there is no scatter; and a gather may have edges from two scopes,
share a scope with another one, or refer to an action of another scope. -/
theorem scopes_not_exact :
    (∃ dsl : DSLInput, dsl.Accepted ∧ ¬ WellFounded dsl.Dep) ∧
    (∃ dsl : DSLInput, dsl.Accepted ∧ ∃ g d d', dsl.IsGather g ∧ dsl.Dep d g ∧ dsl.Dep d' g ∧
      dsl.scope d ≠ dsl.scope d') ∧
    (∃ dsl : DSLInput, dsl.Accepted ∧ ∃ g g' d d', g ≠ g' ∧ dsl.IsGather g ∧ dsl.IsGather g' ∧
      dsl.Dep d g ∧ dsl.Dep d' g' ∧ dsl.scope d = dsl.scope d') ∧
    (∃ dsl : DSLInput, dsl.Accepted ∧ ∃ g d, dsl.IsGather g ∧ (dsl.task g).References d ∧
      ∀ e, dsl.Dep e g → dsl.scope e ≠ dsl.scope d) := by
  refine ⟨?_,?_,?_,?_⟩
  · refine ⟨⟨[plainAction "e" [],plainAction "a" ["b"],plainAction "b" ["a"]]⟩,by decide,
      fun hwf => ?_⟩
    exact hwf.asymmetric (a := "a") (b := "b") (by decide) (by decide)
  · exact ⟨twoScopes [gatherAction "g" ["a","b"] []],by decide,"g","a","b",
      by decide,by decide,by decide,by decide⟩
  · exact ⟨twoScopes [gatherAction "g" ["a"] [],gatherAction "h" ["a"] []],by decide,
      "g","h","a","a",by decide,by decide,by decide,by decide,
      by decide,rfl⟩
  · refine ⟨twoScopes [gatherAction "g" ["a"] ["b"]],by decide,"g","b",by decide,
      ⟨("args",["b"]),by decide,by decide,by decide⟩,?_⟩
    rintro _ ⟨dep,hdep,rfl⟩
    have hdeps : ((twoScopes [gatherAction "g" ["a"] ["b"]]).task "g").deps = [("a",.success)] := by
      decide
    rw [hdeps] at hdep
    rw [List.mem_singleton.mp hdep]
    decide

end Allama

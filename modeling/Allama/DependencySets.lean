import Allama.DSLScoping

/-! What `validate_structure` accepts, stated without the order in which it walks the actions: it looks at which
actions there are and at which of them each depends on. -/
namespace Allama
open Checked
section
variable {dsl : DSLInput} {scope outer : String → String}

/-- Scopes for the actions, and a parent for the scope of each scatter, that agree along the edges. -/
structure ScopesFit (dsl : DSLInput) (scope outer : String → String) : Prop where
  plain_entry : ∀ r, ¬ dsl.IsScatter r → ¬ dsl.IsGather r → (dsl.task r).deps = [] → scope r = rootScope
  plain_dep : ∀ r d, ¬ dsl.IsScatter r → ¬ dsl.IsGather r → dsl.Dep d r → scope d = scope r
  scatter_scope : ∀ x, dsl.IsScatter x → scope x = x
  scatter_entry : ∀ x, dsl.IsScatter x → (dsl.task x).deps = [] → outer x = rootScope
  scatter_dep : ∀ x d, dsl.IsScatter x → dsl.Dep d x → scope d = outer x
  gather_entry : ∀ g, dsl.IsGather g → (dsl.task g).deps ≠ []
  gather_dep : ∀ g d, dsl.IsGather g → dsl.Dep d g → dsl.IsScatter (scope d) ∧ outer (scope d) = scope g

theorem Scoping.scopesFit (h : Scoping dsl) : ScopesFit dsl dsl.scope dsl.outerScope where
  plain_entry := h.plain_entry
  plain_dep := h.plain_dep
  scatter_scope := h.scatter_scope
  scatter_entry := h.scatter_entry
  scatter_dep := h.scatter_dep
  gather_entry := h.gather_entry
  gather_dep := h.gather_dep

theorem DSLInput.Parsed.root_not_scatter (hp : dsl.Parsed) : ¬ dsl.IsScatter rootScope := by
  intro h
  have hslug := hp.slug _ (dsl.mem_of_isScatter h)
  rw [not_slug_root] at hslug
  cases hslug

/-- The loop of `_assign_action_scopes` has found the scopes of what it visited, and every action whose
dependencies it visited is queued. -/
structure Agrees (dsl : DSLInput) (scope outer : String → String) (st : ScopeState) : Prop where
  scopes : ∀ r ∈ st.visited, st.scopes r = some (scope r)
  hier : ∀ x ∈ st.visited, dsl.IsScatter x → st.scopeHierarchy x = some (some (outer x))
  home : ∀ r ∈ st.visited, scope r = rootScope ∨ scope r ∈ st.visited
  outer_home : ∀ x ∈ st.visited, dsl.IsScatter x → outer x = rootScope ∨ outer x ∈ st.visited
  released : ∀ r ∈ dsl.refs, (∀ d ∈ (dsl.task r).deps, d.1 ∈ st.visited) →
    r ∈ st.visited ++ st.queue.map Prod.fst

theorem agrees_init (hp : dsl.Parsed) : Agrees dsl scope outer (.init dsl) := by
  refine ⟨fun r hr => absurd hr (by simp [ScopeState.init]),fun x hx => absurd hx (by simp [ScopeState.init]),
    fun r hr => absurd hr (by simp [ScopeState.init]),fun x hx => absurd hx (by simp [ScopeState.init]),?_⟩
  intro r hr hdeps
  have hnil : (dsl.task r).deps = [] := by
    apply List.eq_nil_iff_forall_not_mem.mpr
    intro d hd
    have hmem := hdeps d hd
    simp [ScopeState.init] at hmem
  have hlen := hp.deps_length r
  rw [hnil, List.length_nil] at hlen
  apply List.mem_append_right
  simp only [ScopeState.init, List.map_map, List.mem_map, List.mem_filter, Function.comp_apply,
    decide_eq_true_eq]
  exact ⟨dsl.task r,⟨(dsl.task_mem hr).1,hlen.symm⟩,dsl.task_ref r⟩

theorem queued_scope {st : ScopeState} (hinv : ScopeInv dsl st) (ha : Agrees dsl scope outer st)
    {v c : String} (hv : (v,c) ∈ st.queue) :
    ((dsl.task v).deps = [] ∧ c = rootScope) ∨ ∃ d ∈ st.visited, dsl.Dep d v ∧ c = scope d := by
  rcases hinv.queued v c hv with hroot | ⟨d,hd,hs⟩
  · exact .inl hroot
  · have hvis : d.1 ∈ st.visited := hinv.ready v (List.mem_map_of_mem hv) d hd
    rw [ha.scopes d.1 hvis] at hs
    exact .inr ⟨d.1,hvis,⟨d,hd,rfl⟩,(Option.some.inj hs).symm⟩

/-- An action taken from the queue enters its scope. -/
theorem enterScope_fit (hp : dsl.Parsed) (hfit : ScopesFit dsl scope outer) {st : ScopeState} {v c : String}
    (hinv : ScopeInv dsl st) (ha : Agrees dsl scope outer st) (hv : (v,c) ∈ st.queue)
    (queue : List (String × String)) :
    (∃ st1, enterScope dsl v c {st with queue := queue, visited := st.visited ++ [v]} = .ok (st1,scope v)) ∧
      (dsl.IsScatter v → c = outer v) := by
  have hnew : v ∉ st.visited := fun hm => (List.nodup_append.mp hinv.nodup).2.2 v hm v
    (List.mem_map_of_mem hv) rfl
  have hassign : ∀ scope, assignScope v scope {st with queue := queue, visited := st.visited ++ [v]} =
      .ok {st with queue := queue, visited := st.visited ++ [v],
                   scopes := Function.update st.scopes v (some scope)} := by
    intro scope
    unfold assignScope
    simp only [hinv.unplaced v hnew]
  have hc := queued_scope hinv ha hv
  unfold enterScope
  simp only [hassign]
  cases hact : (dsl.task v).action with
  | transformScatter =>
    have hs : dsl.IsScatter v := hact
    refine ⟨⟨_,by rw [hfit.scatter_scope v hs]; rfl⟩,fun _ => ?_⟩
    rcases hc with ⟨hnil,rfl⟩ | ⟨d,_,hd,rfl⟩
    · exact (hfit.scatter_entry v hs hnil).symm
    · exact hfit.scatter_dep v d hs hd
  | transformGather =>
    have hg : dsl.IsGather v := hact
    have hns : ¬ dsl.IsScatter v := by
      unfold DSLInput.IsScatter
      rw [hact]
      decide
    refine ⟨?_,fun hs => absurd hs hns⟩
    rcases hc with ⟨hnil,-⟩ | ⟨d,hvis,hd,rfl⟩
    · exact absurd hnil (hfit.gather_entry v hg)
    · -- the scope that the gather leaves is the one of a scatter that was visited
      obtain ⟨hx,hout⟩ := hfit.gather_dep v d hg hd
      have hvx : scope d ∈ st.visited := by
        rcases ha.home d hvis with hroot | hm
        · rw [hroot] at hx
          exact absurd hx hp.root_not_scatter
        · exact hm
      have hjoin : (st.scopeHierarchy (scope d)).join = some (scope v) := by
        rw [ha.hier _ hvx hx, Option.join_some, hout]
      simp only [hjoin]
      exact ⟨_,rfl⟩
  | _ =>
    have hns : ¬ dsl.IsScatter v := by
      unfold DSLInput.IsScatter
      rw [hact]
      simp
    have hng : ¬ dsl.IsGather v := by
      unfold DSLInput.IsGather
      rw [hact]
      simp
    refine ⟨?_,fun hs => absurd hs hns⟩
    have heq : c = scope v := by
      rcases hc with ⟨hnil,rfl⟩ | ⟨d,_,hd,rfl⟩
      · exact (hfit.plain_entry v hns hng hnil).symm
      · exact hfit.plain_dep v d hns hng hd
    simp only [heq]
    exact ⟨_,rfl⟩

/-- One iteration of the loop. -/
theorem agrees_step (hp : dsl.Parsed) (hfit : ScopesFit dsl scope outer) {st st1 : ScopeState}
    {v c : String} {queue : List (String × String)} (hinv : ScopeInv dsl st)
    (ha : Agrees dsl scope outer st) (hq : st.queue = (v,c) :: queue)
    (hent : enterScope dsl v c {st with queue := queue, visited := st.visited ++ [v]} =
      .ok (st1,scope v)) :
    Agrees dsl scope outer ((dsl.adjacency v).foldl (releaseNext (scope v)) st1) := by
  have hqueued : (v,c) ∈ st.queue := by rw [hq]; exact List.mem_cons_self
  obtain ⟨new,hv⟩ := visits_of_step hp hinv hq hent
  have houter := (enterScope_fit hp hfit hinv ha hqueued queue).2
  have hc := queued_scope hinv ha hqueued
  generalize (dsl.adjacency v).foldl (releaseNext (scope v)) st1 = st2 at *
  have hdep : ∀ d ∈ st.visited, scope d = rootScope ∨ scope d ∈ st2.visited := fun d hd =>
    (ha.home d hd).imp_right fun hm => hv.mem_visited.mpr (.inl hm)
  have hcurr : c = rootScope ∨ c ∈ st2.visited := by
    rcases hc with ⟨-,rfl⟩ | ⟨d,hd,-,rfl⟩
    · exact .inl rfl
    · exact hdep d hd
  refine ⟨?_,?_,?_,?_,?_⟩
  · intro r hr
    rcases hv.mem_visited.mp hr with hr | rfl
    · exact hv.scopes_old hinv (ha.scopes r hr)
    · exact hv.scopes_self
  · intro x hx hs
    rcases hv.mem_visited.mp hx with hx | rfl
    · exact hv.hierarchy_old hinv hp (ha.hier x hx hs)
    · rw [hv.hierarchy_self hs, houter hs]
  · intro r hr
    rcases hv.mem_visited.mp hr with hr | rfl
    · exact hdep r hr
    · by_cases hs : dsl.IsScatter r
      · rw [hfit.scatter_scope r hs]
        exact .inr hr
      rcases hc with ⟨hnil,rfl⟩ | ⟨d,hd,hdv,rfl⟩
      · by_cases hg : dsl.IsGather r
        · exact absurd hnil (hfit.gather_entry r hg)
        · exact .inl (hfit.plain_entry r hs hg hnil)
      · by_cases hg : dsl.IsGather r
        · obtain ⟨hx,hout⟩ := hfit.gather_dep r d hg hdv
          rw [← hout]
          rcases ha.home d hd with hroot | hm
          · rw [hroot] at hx
            exact absurd hx hp.root_not_scatter
          · exact (ha.outer_home _ hm hx).imp_right fun hm => hv.mem_visited.mpr (.inl hm)
        · rw [← hfit.plain_dep r d hs hg hdv]
          exact hdep d hd
  · intro x hx hs
    rcases hv.mem_visited.mp hx with hx | rfl
    · exact (ha.outer_home x hx hs).imp_right fun hm => hv.mem_visited.mpr (.inl hm)
    · rw [← houter hs]
      exact hcurr
  · intro r hr hdeps
    rw [List.mem_append, hv.mem_visited, hv.mem_queue]
    rw [hv.visited] at hdeps
    by_cases hrv : ∃ d ∈ (dsl.task r).deps, d.1 = v
    · exact .inr (.inr ((hv.released r).mpr ⟨hrv,hdeps⟩))
    · have hold : ∀ d ∈ (dsl.task r).deps, d.1 ∈ st.visited := by
        intro d hd
        rcases List.mem_append.mp (hdeps d hd) with hm | hm
        · exact hm
        · exact absurd ⟨d,hd,List.mem_singleton.mp hm⟩ hrv
      have hmem := ha.released r hr hold
      rw [hq, List.map_cons, List.mem_append, List.mem_cons] at hmem
      rcases hmem with hm | rfl | hm
      · exact .inl (.inl hm)
      · exact .inl (.inr rfl)
      · exact .inr (.inl hm)

theorem scopeLoop_fit (hp : dsl.Parsed) (hfit : ScopesFit dsl scope outer) {n : ℕ} {st : ScopeState}
    (hinv : ScopeInv dsl st) (ha : Agrees dsl scope outer st) :
    ∃ t, scopeLoop dsl n st = .ok t ∧ Agrees dsl scope outer t := by
  induction n generalizing st with
  | zero => exact ⟨st,rfl,ha⟩
  | succ n ih =>
    cases hq : st.queue with
    | nil => exact ⟨st,by rw [scopeLoop, hq],ha⟩
    | cons e queue =>
      obtain ⟨v,c⟩ := e
      have hv : (v,c) ∈ st.queue := by rw [hq]; exact List.mem_cons_self
      obtain ⟨st1,hent⟩ := (enterScope_fit hp hfit hinv ha hv queue).1
      obtain ⟨t,ht,hat⟩ := ih (scopeInv_step hp hinv hq hent) (agrees_step hp hfit hinv ha hq hent)
      refine ⟨t,?_,hat⟩
      rw [scopeLoop, hq]
      simp only [hent]
      exact ht

def scopesOf (dsl : DSLInput) (scope : String → String) (r : String) : Option String :=
  if r ∈ dsl.refs then some (scope r) else none

def hierarchyOf (dsl : DSLInput) (outer : String → String) (s : String) : Option (Option String) :=
  if s = rootScope then some none else if dsl.IsScatter s then some (some (outer s)) else none

/-- Scopes that fit an acyclic graph are what `_assign_action_scopes` finds, in whichever order it meets the
actions. -/
theorem assigned_of_fit (hp : dsl.Parsed) (hfit : ScopesFit dsl scope outer) (hwf : WellFounded dsl.Dep) :
    ∃ st, assignActionScopes dsl = .ok st ∧ st.scopes = scopesOf dsl scope ∧
      st.scopeHierarchy = hierarchyOf dsl outer := by
  obtain ⟨st,hl,ha⟩ := scopeLoop_fit hp hfit (n := dsl.actions.length) (scopeInv_init hp) (agrees_init hp)
  have hinv := scopeLoop_inv hp (scopeInv_init hp) hl
  have hqueue := scopeLoop_queue hp (scopeInv_init hp) hl (by omega)
  -- along the dependencies, nothing is left out
  have hall : ∀ r, r ∈ dsl.refs → r ∈ st.visited := by
    intro r
    induction r using hwf.induction with
    | _ r ih =>
      intro hr
      have hdone := ha.released r hr fun d hd => ih d.1 ⟨d,hd,rfl⟩ (hp.dep_mem hd).2
      simpa [hqueue] using hdone
  have hnd : st.visited.Nodup := (List.nodup_append.mp hinv.nodup).1
  have hmem : ∀ r ∈ st.visited, r ∈ dsl.refs := fun r hr => hinv.mem r (List.mem_append_left _ hr)
  have hlen : st.visited.length = dsl.actions.length := by
    have hperm := (List.perm_ext_iff_of_nodup hnd hp.nodup).mpr fun r => ⟨hmem r,hall r⟩
    rw [hperm.length_eq, DSLInput.refs, List.length_map]
  refine ⟨st,?_,funext fun r => ?_,funext fun s => ?_⟩
  · unfold assignActionScopes
    rw [hl]
    simp only [hlen, ne_eq, not_true_eq_false, if_false]
  · unfold scopesOf
    split
    · rename_i hr
      exact ha.scopes r (hall r hr)
    · rename_i hr
      exact hinv.unplaced r fun hv => hr (hmem r hv)
  · unfold hierarchyOf
    split
    · rename_i hs
      rw [hs]
      exact hinv.hier_root
    · rename_i hroot
      split
      · rename_i hs
        exact ha.hier s (hall s (dsl.mem_of_isScatter hs)) hs
      · rename_i hs
        cases hh : st.scopeHierarchy s with
        | none => rfl
        | some q =>
          rcases hinv.hier_some s q hh with hr | ⟨_,hx⟩
          · exact absurd hr hroot
          · exact absurd hx hs

end

/-- `new` is the action `old` with its dependencies listed in another way, and without expressions that
`old` does not have. -/
structure SameSources (new old : ActionStatement) : Prop where
  ref : new.ref = old.ref
  action : new.action = old.action
  parses : ∀ dep ∈ new.dependsOn, (edgeComponentsFromDep dep).isSome
  sources : ∀ s, (∃ d ∈ new.deps, d.1 = s) ↔ ∃ d ∈ old.deps, d.1 = s
  expressions : ∀ e ∈ new.expressions, ∀ d ∈ e.2, ∃ e' ∈ old.expressions, e'.1 = e.1 ∧ d ∈ e'.2

theorem ActionStatement.length_deps {a : ActionStatement}
    (h : ∀ dep ∈ a.dependsOn, (edgeComponentsFromDep dep).isSome) : a.deps.length = a.dependsOn.length := by
  unfold ActionStatement.deps
  rw [List.length_filterMap_eq_countP, List.countP_eq_length]
  exact h

theorem ActionStatement.deps_eq_nil {a : ActionStatement}
    (h : ∀ dep ∈ a.dependsOn, (edgeComponentsFromDep dep).isSome) : a.deps = [] ↔ a.dependsOn = [] := by
  rw [← List.length_eq_zero_iff, a.length_deps h, List.length_eq_zero_iff]

theorem SameSources.deps_eq_nil {new old : ActionStatement} (h : SameSources new old) :
    new.deps = [] ↔ old.deps = [] := by
  have hsome : ∀ a : ActionStatement, a.deps ≠ [] ↔ ∃ s, ∃ d ∈ a.deps, d.1 = s := by
    intro a
    constructor
    · intro hne
      obtain ⟨d,hd⟩ := List.exists_mem_of_ne_nil _ hne
      exact ⟨d.1,d,hd,rfl⟩
    · rintro ⟨s,d,hd,_⟩
      exact List.ne_nil_of_mem hd
  rw [← not_iff_not]
  change new.deps ≠ [] ↔ old.deps ≠ []
  rw [hsome, hsome]
  exact exists_congr h.sources

/-- `dsl'` lists the actions of `dsl` in some order. -/
def Relisted (dsl' dsl : DSLInput) : Prop :=
  ∃ as : List ActionStatement, as.Perm dsl.actions ∧ List.Forall₂ SameSources dsl'.actions as

theorem refs_of_sameSources {as' as : List ActionStatement} (h : List.Forall₂ SameSources as' as) :
    as'.map ActionStatement.ref = as.map ActionStatement.ref := by
  induction h with
  | nil => rfl
  | cons h _ ih => rw [List.map_cons, List.map_cons, h.ref, ih]

theorem length_filter_sameSources {as' as : List ActionStatement} (h : List.Forall₂ SameSources as' as)
    (kind : PlatformAction) :
    (as'.filter fun a => a.action = kind).length = (as.filter fun a => a.action = kind).length := by
  induction h with
  | nil => rfl
  | cons h _ ih =>
    rw [List.filter_cons, List.filter_cons, h.action]
    split
    · rw [List.length_cons, List.length_cons, ih]
    · exact ih

section
variable {dsl dsl' : DSLInput}

theorem Relisted.refs (h : Relisted dsl' dsl) : dsl'.refs.Perm dsl.refs := by
  obtain ⟨as,hperm,hsame⟩ := h
  unfold DSLInput.refs
  rw [refs_of_sameSources hsame]
  exact hperm.map _

theorem Relisted.length (h : Relisted dsl' dsl) : dsl'.actions.length = dsl.actions.length := by
  obtain ⟨as,hperm,hsame⟩ := h
  exact hsame.length_eq.trans hperm.length_eq

theorem Relisted.count (h : Relisted dsl' dsl) (kind : PlatformAction) :
    (dsl'.actions.filter fun a => a.action = kind).length =
      (dsl.actions.filter fun a => a.action = kind).length := by
  obtain ⟨as,hperm,hsame⟩ := h
  exact (length_filter_sameSources hsame kind).trans (hperm.filter _).length_eq

theorem Relisted.old (h : Relisted dsl' dsl) {a' : ActionStatement} (ha : a' ∈ dsl'.actions) :
    ∃ a ∈ dsl.actions, SameSources a' a := by
  obtain ⟨as,hperm,hsame⟩ := h
  obtain ⟨a,ha,hs⟩ := exists_of_forall₂ hsame ha
  exact ⟨a,hperm.subset ha,hs⟩

theorem Relisted.task (h : Relisted dsl' dsl) (hnd : dsl.refs.Nodup) (r : String) :
    SameSources (dsl'.task r) (dsl.task r) := by
  by_cases hr : r ∈ dsl'.refs
  · obtain ⟨hmem,href⟩ := dsl'.task_mem hr
    obtain ⟨a,ha,hs⟩ := h.old hmem
    have htask := dsl.task_of_mem hnd ha
    rw [← hs.ref, href] at htask
    rw [htask]
    exact hs
  · rw [dsl'.task_of_not_mem hr, dsl.task_of_not_mem fun hm => hr (h.refs.symm.subset hm)]
    refine ⟨rfl,rfl,?_,fun s => Iff.rfl,fun e he d hd => ⟨e,he,rfl,hd⟩⟩
    intro dep hdep
    cases hdep

theorem Relisted.deps_eq_nil (h : Relisted dsl' dsl) (hnd : dsl.refs.Nodup) (r : String) :
    (dsl'.task r).deps = [] ↔ (dsl.task r).deps = [] := (h.task hnd r).deps_eq_nil

section
variable (h : Relisted dsl' dsl)
include h

theorem Relisted.parsed (hp : dsl.Parsed) : dsl'.Parsed := by
  refine ⟨fun r hr => hp.slug r (h.refs.subset hr),h.refs.nodup_iff.mpr hp.nodup,?_,?_⟩
  · intro a' ha'
    obtain ⟨a,_,hs⟩ := h.old ha'
    exact hs.parses
  · intro a' ha' d hd
    obtain ⟨a,ha,hs⟩ := h.old ha'
    obtain ⟨e,he,hsource⟩ := (hs.sources d.1).mp ⟨d,hd,rfl⟩
    rw [← hsource]
    exact h.refs.symm.subset (hp.deps_mem a ha e he)

theorem Relisted.dep (hnd : dsl.refs.Nodup) (d r : String) :
    dsl'.Dep d r ↔ dsl.Dep d r := (h.task hnd r).sources d

theorem Relisted.isScatter (hnd : dsl.refs.Nodup) (r : String) : dsl'.IsScatter r ↔ dsl.IsScatter r := by
  unfold DSLInput.IsScatter
  rw [(h.task hnd r).action]

theorem Relisted.isGather (hnd : dsl.refs.Nodup) (r : String) : dsl'.IsGather r ↔ dsl.IsGather r := by
  unfold DSLInput.IsGather
  rw [(h.task hnd r).action]

theorem Relisted.scopesFit (hnd : dsl.refs.Nodup) {scope outer : String → String} (hfit : ScopesFit dsl scope outer) :
    ScopesFit dsl' scope outer where
  plain_entry r := by
    rw [h.isScatter hnd, h.isGather hnd, h.deps_eq_nil hnd]
    exact hfit.plain_entry r
  plain_dep r d := by
    rw [h.isScatter hnd, h.isGather hnd, h.dep hnd]
    exact hfit.plain_dep r d
  scatter_scope x := by
    rw [h.isScatter hnd]
    exact hfit.scatter_scope x
  scatter_entry x := by
    rw [h.isScatter hnd, h.deps_eq_nil hnd]
    exact hfit.scatter_entry x
  scatter_dep x d := by
    rw [h.isScatter hnd, h.dep hnd]
    exact hfit.scatter_dep x d
  gather_entry g := by
    rw [h.isGather hnd, ne_eq, h.deps_eq_nil hnd]
    exact hfit.gather_entry g
  gather_dep g d := by
    rw [h.isGather hnd, h.dep hnd, h.isScatter hnd]
    exact hfit.gather_dep g d

end

/-- The checks of `validate_structure`. -/
structure DSLInput.Checks (dsl : DSLInput) : Prop where
  slug : ∀ r ∈ dsl.refs, isSlug r
  nonempty : dsl.actions ≠ []
  nodup : dsl.refs.Nodup
  entrypoint : ∃ a ∈ dsl.actions, a.dependsOn = []
  parses : ∀ a ∈ dsl.actions, ∀ dep ∈ a.dependsOn, (edgeComponentsFromDep dep).isSome
  sources : ∀ a ∈ dsl.actions, ∀ d ∈ a.deps, d.1 ∈ dsl.refs
  expressions : ∀ a ∈ dsl.actions, ∀ e ∈ a.expressions, ∀ d ∈ e.2, d ∈ dsl.refs
  scopes : validateScatterGatherScopes dsl = .ok ()

theorem DSLInput.Accepted.checks (h : dsl.Accepted) : dsl.Checks := by
  have hwf := wellFormed_of_accepted h
  have hv := h.2
  unfold validateStructure at hv
  split at hv
  · cases hv
  rename_i hne
  split at hv
  · cases hv
  split at hv
  · cases hv
  rename_i hentry
  simp only [bind_eq_ok] at hv
  obtain ⟨_,-,hv⟩ := hv
  split at hv
  · cases hv
  obtain ⟨_,hexprs,hscopes⟩ := bind_eq_ok.mp hv
  refine ⟨h.1,hne,hwf.nodup,?_,hwf.parses,hwf.deps_mem,?_,hscopes⟩
  · obtain ⟨a,ha⟩ := List.exists_mem_of_length_pos (Nat.pos_of_ne_zero hentry)
    rw [List.mem_filter] at ha
    exact ⟨a,ha.1,by simpa using ha.2⟩
  · intro a ha e he d hd
    have hok := forM_eq_ok.mp (forM_eq_ok.mp (forM_eq_ok.mp hexprs a ha) e he) d hd
    split at hok
    · assumption
    · cases hok

theorem DSLInput.Checks.accepted (h : dsl.Checks) : dsl.Accepted := by
  refine ⟨h.slug,?_⟩
  have hlen : dsl.refs.dedup.length = dsl.actions.length := by
    rw [List.dedup_eq_self.mpr h.nodup, DSLInput.refs, List.length_map]
  have hentry : (dsl.actions.filter (fun a => a.dependsOn.length = 0)).length ≠ 0 := by
    obtain ⟨a,ha,hdeps⟩ := h.entrypoint
    have hmem : a ∈ dsl.actions.filter (fun a => a.dependsOn.length = 0) :=
      List.mem_filter.mpr ⟨ha,by simp [hdeps]⟩
    exact Nat.ne_of_gt (List.length_pos_of_mem hmem)
  have hdeps : validDependsOn dsl = .ok () := by
    apply forM_eq_ok.mpr
    intro a ha
    apply forM_eq_ok.mpr
    intro dep hdep
    rw [if_pos (h.parses a ha dep hdep)]
  have hinvalid : ((dsl.actions.flatMap fun a => a.deps.map Prod.fst).dedup).filter
      (fun d => d ∉ dsl.refs) = [] := by
    apply List.filter_eq_nil_iff.mpr
    intro d hd
    obtain ⟨a,ha,hd⟩ := List.mem_flatMap.mp (List.mem_dedup.mp hd)
    obtain ⟨e,he,rfl⟩ := List.mem_map.mp hd
    simpa using h.sources a ha e he
  have hexprs : allActionExpressionsValid dsl = .ok () := by
    apply forM_eq_ok.mpr
    intro a ha
    apply forM_eq_ok.mpr
    intro e he
    apply forM_eq_ok.mpr
    intro d hd
    rw [if_pos (h.expressions a ha e he d hd)]
  unfold validateStructure
  rw [if_neg h.nonempty, if_neg (not_not.mpr hlen), if_neg hentry, hdeps]
  simp only [bind, Except.bind, hinvalid, hexprs, h.scopes]
  rfl

theorem error_ite_eq_ok {p : Prop} [Decidable p] {e : DSLError} :
    (if p then Except.error e else .ok ()) = .ok () ↔ ¬ p := by
  split <;> simp [*]

section
variable {st st' : ScopeState} (hscopes : st'.scopes = st.scopes)
  (hhier : st'.scopeHierarchy = st.scopeHierarchy) {new old : ActionStatement} (h : SameSources new old)

include hhier in
theorem isAncestorScope_congr (target : String) (n : ℕ) (scope : Option String) :
    isAncestorScope st' target n scope = isAncestorScope st target n scope := by
  induction n generalizing scope with
  | zero => cases scope <;> rfl
  | succ n ih =>
    cases scope with
    | none => rfl
    | some s => rw [isAncestorScope, isAncestorScope, hhier, ih]

include hscopes hhier h

theorem checkEdge_sameSources {dep dep' : String}
    (hdep : (edgeComponentsFromDep dep').map Prod.fst = (edgeComponentsFromDep dep).map Prod.fst)
    (hok : checkEdge st old dep = .ok ()) : checkEdge st' new dep' = .ok () := by
  have hbind : ∀ d : Option AdjDst, (d.bind fun d => st.scopes d.1) = (d.map Prod.fst).bind st.scopes := by
    intro d
    cases d <;> rfl
  rw [checkEdge, hbind] at hok
  rw [checkEdge, hscopes, hhier, hbind, hdep, h.ref, h.action]
  cases hact : old.action with
  | transformScatter => simpa only [hact, error_ite_eq_ok] using hok
  | transformGather => simpa only [hact, error_ite_eq_ok] using hok
  | _ => simpa only [hact, error_ite_eq_ok] using hok

theorem checkExpression_sameSources (hlen : dsl'.actions.length = dsl.actions.length) {key dep : String}
    (hok : checkExpression dsl st old key dep = .ok ()) : checkExpression dsl' st' new key dep = .ok () := by
  rw [checkExpression] at hok ⊢
  rw [hscopes, hhier, hlen, h.ref, h.action]
  simp only [isAncestorScope_congr hhier]
  cases hact : old.action with
  | transformScatter => simpa only [hact, error_ite_eq_ok] using hok
  | transformGather => simpa only [hact, error_ite_eq_ok] using hok
  | _ =>
    simp only [hact] at hok ⊢
    split at hok
    · rename_i ha
      rw [if_pos ha]
    · cases hok

end

/-- An accepted DSL is accepted in whichever order its actions and their dependencies are listed. -/
theorem accepted_of_relisted (h : dsl.Accepted) (hre : Relisted dsl' dsl) : dsl'.Accepted := by
  have hwf := wellFormed_of_accepted h
  have hnd := hwf.nodup
  have hc := h.checks
  have hp := hre.parsed hwf.toParsed
  apply DSLInput.Checks.accepted
  refine ⟨hp.slug,?_,hp.nodup,?_,hp.parses,hp.deps_mem,?_,?_⟩
  · intro hnil
    apply hc.nonempty
    rw [← List.length_eq_zero_iff, ← hre.length, hnil, List.length_nil]
  · obtain ⟨a,ha,hdeps⟩ := hc.entrypoint
    have hr : a.ref ∈ dsl'.refs := hre.refs.symm.subset (List.mem_map_of_mem ha)
    refine ⟨dsl'.task a.ref,(dsl'.task_mem hr).1,?_⟩
    rw [← ActionStatement.deps_eq_nil (hre.task hnd a.ref).parses, hre.deps_eq_nil hnd,
      dsl.task_of_mem hnd ha, ActionStatement.deps_eq_nil (hc.parses a ha)]
    exact hdeps
  · intro a' ha' e he d hd
    obtain ⟨a,ha,hs⟩ := hre.old ha'
    obtain ⟨e',he',_,hd'⟩ := hs.expressions e he d hd
    exact hre.refs.symm.subset (hc.expressions a ha e' he' d hd')
  · have hscopes := hc.scopes
    simp only [validateScatterGatherScopes, hre.count] at hscopes ⊢
    split at hscopes
    · cases hscopes
    rename_i hgathers
    rw [if_neg hgathers]
    have hnil : dsl'.actions.filter (fun a => a.action = .transformScatter) = [] ↔
        dsl.actions.filter (fun a => a.action = .transformScatter) = [] := by
      rw [← List.length_eq_zero_iff, ← List.length_eq_zero_iff, hre.count]
    split at hscopes
    · rename_i hempty
      rw [if_pos (hnil.mpr hempty)]
    rename_i hempty
    rw [if_neg (fun he => hempty (hnil.mp he))]
    obtain ⟨st,hst,hdeps⟩ := bind_eq_ok.mp hscopes
    have hs : dsl.hasScatter := by
      obtain ⟨a,ha⟩ := List.exists_mem_of_ne_nil _ hempty
      rw [List.mem_filter] at ha
      exact ⟨a,ha.1,by simpa using ha.2⟩
    have hfit := (scoping hwf).scopesFit
    have hacyclic := dep_wellFounded hwf hs
    have hacyclic' : WellFounded dsl'.Dep :=
      Subrelation.wf (fun {d r} hd => (hre.dep hnd d r).mp hd) hacyclic
    -- both assignments are the one that fits
    obtain ⟨t,ht,hsc,hhier⟩ := assigned_of_fit hwf.toParsed hfit hacyclic
    obtain rfl : st = t := Except.ok.inj (hst.symm.trans ht)
    obtain ⟨st',hst',hsc',hhier'⟩ := assigned_of_fit hp (hre.scopesFit hnd hfit) hacyclic'
    have hscopes : st'.scopes = st.scopes := by
      rw [hsc, hsc']
      funext r
      simp only [scopesOf, hre.refs.mem_iff]
    have hhierarchy : st'.scopeHierarchy = st.scopeHierarchy := by
      rw [hhier, hhier']
      funext s
      unfold hierarchyOf
      simp only [hre.isScatter hnd]
    refine bind_eq_ok.mpr ⟨st',hst',forM_eq_ok.mpr ?_⟩
    intro a' ha'
    obtain ⟨a,ha,hs⟩ := hre.old ha'
    obtain ⟨_,hedges,hexprs⟩ := bind_eq_ok.mp (forM_eq_ok.mp hdeps a ha)
    refine bind_eq_ok.mpr ⟨(),forM_eq_ok.mpr ?_,forM_eq_ok.mpr ?_⟩
    · intro dep' hdep'
      obtain ⟨d',hd'⟩ := Option.isSome_iff_exists.mp (hs.parses dep' hdep')
      obtain ⟨d,hd,hsource⟩ := (hs.sources d'.1).mp ⟨d',List.mem_filterMap.mpr ⟨dep',hdep',hd'⟩,rfl⟩
      obtain ⟨dep,hdep,hd⟩ := List.mem_filterMap.mp hd
      apply checkEdge_sameSources hscopes hhierarchy hs _ (forM_eq_ok.mp hedges dep hdep)
      rw [hd, hd', Option.map_some, Option.map_some, hsource]
    · intro e' he'
      rw [List.mem_filter] at he'
      apply forM_eq_ok.mpr
      intro d hd
      obtain ⟨e,he,hkey,hd⟩ := hs.expressions e' he'.1 d hd
      have hmem : e ∈ a.expressions.filter (fun e => e.1 ≠ "depends_on") :=
        List.mem_filter.mpr ⟨he,by rw [hkey]; exact he'.2⟩
      have hok := forM_eq_ok.mp (forM_eq_ok.mp hexprs e hmem) d hd
      rw [hkey] at hok
      exact checkExpression_sameSources hscopes hhierarchy hs hre.length hok

end
end Allama

import Mathlib.Data.List.Count
import Mathlib.Data.List.Nodup
import Mathlib.Data.List.Perm.Subperm
import Mathlib.Logic.Relation
import Mathlib.Order.WellFounded
import Mathlib.Tactic.Ring
import Allama.Checked
import Allama.DSLValidation

/-! What an accepted DSL satisfies: parsed dependencies, an acyclic graph where there are
scatters, and scopes that agree along its edges. -/
namespace Allama
open Checked Function
section
variable (dsl : DSLInput)

/-- `r` lists `d` among its dependencies. -/
def DSLInput.Dep (d r : String) : Prop := ∃ dep ∈ (dsl.task r).deps, dep.1 = d

instance (d r : String) : Decidable (dsl.Dep d r) := by unfold DSLInput.Dep; infer_instance

def DSLInput.hasScatter : Prop := ∃ a ∈ dsl.actions, a.action = .transformScatter

instance : Decidable dsl.hasScatter := by unfold DSLInput.hasScatter; infer_instance

/-- The scope an action is assigned; a DSL without scatters has the root scope only. -/
def DSLInput.scope (r : String) : String :=
  if dsl.hasScatter then
    match assignActionScopes dsl with
    | .ok st => (st.scopes r).getD rootScope
    | .error _ => rootScope
  else rootScope

/-- The parent of a scope in `scope_hierarchy`. -/
def DSLInput.outerScope (s : String) : String :=
  if dsl.hasScatter then
    match assignActionScopes dsl with
    | .ok st => (st.scopeHierarchy s).join.getD rootScope
    | .error _ => rootScope
  else rootScope

/-- Distinct slugs as refs, and dependencies on them. -/
structure DSLInput.Parsed : Prop where
  slug : ∀ r ∈ dsl.refs, isSlug r
  nodup : dsl.refs.Nodup
  parses : ∀ a ∈ dsl.actions, ∀ dep ∈ a.dependsOn, (edgeComponentsFromDep dep).isSome
  deps_mem : ∀ a ∈ dsl.actions, ∀ d ∈ a.deps, d.1 ∈ dsl.refs

structure DSLInput.WellFormed : Prop extends dsl.Parsed where
  gathers : (∃ a ∈ dsl.actions, a.action = .transformGather) → dsl.hasScatter
  assigned : dsl.hasScatter → ∃ st, assignActionScopes dsl = .ok st ∧
    ∀ a ∈ dsl.actions, ∀ dep ∈ a.dependsOn, checkEdge st a dep = .ok ()

variable {st st' : ScopeState}
variable {dsl}

theorem DSLInput.task_mem {r : String} (hr : r ∈ dsl.refs) :
    dsl.task r ∈ dsl.actions ∧ (dsl.task r).ref = r := by
  obtain ⟨a,ha,rfl⟩ := List.mem_map.mp hr
  unfold DSLInput.task
  have hsome : (dsl.actions.find? fun b => b.ref = a.ref).isSome := by
    rw [List.find?_isSome]
    exact ⟨a,ha,by simp⟩
  obtain ⟨b,hb⟩ := Option.isSome_iff_exists.mp hsome
  have hbr : b.ref = a.ref := by simpa using List.find?_some hb
  rw [hb, Option.getD_some]
  exact ⟨List.mem_of_find?_eq_some hb,hbr⟩

theorem DSLInput.task_of_mem (hnd : dsl.refs.Nodup) {a : ActionStatement} (ha : a ∈ dsl.actions) :
    dsl.task a.ref = a := by
  obtain ⟨hmem,href⟩ := dsl.task_mem (List.mem_map_of_mem ha)
  exact List.inj_on_of_nodup_map hnd hmem ha href

theorem DSLInput.task_of_not_mem {r : String} (hr : r ∉ dsl.refs) :
    dsl.task r = { ref := r, action := .udf "" } := by
  unfold DSLInput.task
  have hnone : (dsl.actions.find? fun b => b.ref = r) = none := by
    rw [List.find?_eq_none]
    intro b hb
    simp only [decide_eq_true_eq]
    rintro rfl
    exact hr (List.mem_map_of_mem hb)
  rw [hnone, Option.getD_none]

@[simp] theorem DSLInput.task_ref (r : String) : (dsl.task r).ref = r := by
  by_cases hr : r ∈ dsl.refs
  · exact (dsl.task_mem hr).2
  · rw [dsl.task_of_not_mem hr]

theorem wellFormed_of_accepted (h : dsl.Accepted) : dsl.WellFormed := by
  obtain ⟨hslug,hv⟩ := h
  unfold validateStructure at hv
  split at hv
  · cases hv
  split at hv
  · cases hv
  rename_i hlen
  split at hv
  · cases hv
  simp only [bind_eq_ok] at hv
  obtain ⟨_,hdeps,hv⟩ := hv
  split at hv
  · cases hv
  rename_i hinvalid
  obtain ⟨_,-,hv⟩ := bind_eq_ok.mp hv
  have hnd : dsl.refs.Nodup := by
    rw [← List.dedup_eq_self]
    refine (List.dedup_sublist dsl.refs).eq_of_length ?_
    rw [not_not.mp hlen, DSLInput.refs, List.length_map]
  refine ⟨⟨hslug,hnd,?_,?_⟩,?_,?_⟩
  · intro a ha dep hdep
    have hok := forM_eq_ok.mp (forM_eq_ok.mp hdeps a ha) dep hdep
    split at hok
    · assumption
    · cases hok
  · intro a ha d hd
    by_contra hnot
    refine hinvalid ?_
    refine List.ne_nil_of_mem (List.mem_filter.mpr ⟨List.mem_dedup.mpr ?_,by simpa using hnot⟩)
    exact List.mem_flatMap.mpr ⟨a,ha,List.mem_map_of_mem hd⟩
  · rintro ⟨a,ha,hg⟩
    simp only [validateScatterGatherScopes] at hv
    split at hv
    · cases hv
    rename_i hle
    have hpos : 0 < (dsl.actions.filter (fun a => a.action = .transformGather)).length :=
      List.length_pos_of_mem (List.mem_filter.mpr ⟨ha,by simpa using hg⟩)
    obtain ⟨b,hb⟩ := List.exists_mem_of_length_pos (lt_of_lt_of_le hpos (not_lt.mp hle))
    rw [List.mem_filter] at hb
    exact ⟨b,hb.1,by simpa using hb.2⟩
  · rintro ⟨a,ha,hs⟩
    simp only [validateScatterGatherScopes] at hv
    split at hv
    · cases hv
    split at hv
    · rename_i hnil
      have hmem : a ∈ dsl.actions.filter (fun a => a.action = .transformScatter) :=
        List.mem_filter.mpr ⟨ha,by simpa using hs⟩
      rw [hnil] at hmem
      cases hmem
    · obtain ⟨st,hst,hv⟩ := bind_eq_ok.mp hv
      refine ⟨st,hst,?_⟩
      intro b hb dep hdep
      obtain ⟨_,hedge,-⟩ := bind_eq_ok.mp (forM_eq_ok.mp hv b hb)
      exact forM_eq_ok.mp hedge dep hdep

theorem DSLInput.Parsed.deps_length (h : dsl.Parsed) (r : String) :
    (dsl.task r).deps.length = (dsl.task r).dependsOn.length := by
  unfold ActionStatement.deps
  by_cases hr : r ∈ dsl.refs
  · rw [List.length_filterMap_eq_countP, List.countP_eq_length]
    exact h.parses _ (dsl.task_mem hr).1
  · rw [dsl.task_of_not_mem hr]
    rfl

theorem DSLInput.Parsed.dep_mem (h : dsl.Parsed) {r : String} {d : AdjDst}
    (hd : d ∈ (dsl.task r).deps) : r ∈ dsl.refs ∧ d.1 ∈ dsl.refs := by
  by_cases hr : r ∈ dsl.refs
  · exact ⟨hr,h.deps_mem _ (dsl.task_mem hr).1 d hd⟩
  · rw [dsl.task_of_not_mem hr] at hd
    cases hd

theorem DSLInput.WellFormed.dep_wellFounded_of_rank (h : dsl.WellFormed) (rank : String → ℕ)
    (hrank : ∀ r ∈ dsl.refs, ∀ d ∈ dsl.refs, dsl.Dep d r → rank d < rank r) :
    WellFounded dsl.Dep := by
  refine Subrelation.wf (fun {d r} hd => ?_) (measure rank).wf
  obtain ⟨dep,hdep,rfl⟩ := hd
  obtain ⟨hr,hd⟩ := h.dep_mem hdep
  exact hrank r hr dep.1 hd ⟨dep,hdep,rfl⟩

theorem count_adjacency_row (a : ActionStatement) (v r : String) :
    (((a.deps.filter (fun d => d.1 = v)).map fun _ => a.ref).count r) =
      if a.ref = r then a.deps.countP (fun d => d.1 = v) else 0 := by
  rw [List.map_const', List.count_replicate, List.countP_eq_length_filter]
  simp only [beq_iff_eq]

theorem count_adjacency (h : dsl.refs.Nodup) (v r : String) :
    (dsl.adjacency v).count r = (dsl.task r).deps.countP (fun d => d.1 = v) := by
  have hrows : ∀ as : List ActionStatement, (as.map ActionStatement.ref).Nodup →
      (∀ a ∈ as, a ∈ dsl.actions) →
      (as.flatMap fun a => (a.deps.filter (fun d => d.1 = v)).map fun _ => a.ref).count r =
        if r ∈ as.map ActionStatement.ref then (dsl.task r).deps.countP (fun d => d.1 = v) else 0 := by
    intro as hnd hsub
    induction as with
    | nil => rfl
    | cons a as ih =>
      rw [List.map_cons, List.nodup_cons] at hnd
      rw [List.flatMap_cons, List.count_append, count_adjacency_row,
        ih hnd.2 fun b hb => hsub b (List.mem_cons_of_mem a hb), List.map_cons]
      by_cases har : a.ref = r
      · subst har
        rw [dsl.task_of_mem h (hsub a List.mem_cons_self)]
        simp [hnd.1]
      · simp [har, Ne.symm har]
  have hall := hrows dsl.actions h fun _ ha => ha
  rw [DSLInput.adjacency, hall]
  split
  · rfl
  · rename_i hr
    rw [dsl.task_of_not_mem hr]
    rfl

/-! Kahn's algorithm: counters, queue and visiting order. -/

theorem releaseAll_spec (nextScope : String) (l : List String) (st : ScopeState) :
    let st' := l.foldl (releaseNext nextScope) st
    (∀ r, st'.indegrees r = st.indegrees r-l.count r) ∧ st'.visited = st.visited ∧
    st'.scopes = st.scopes ∧ st'.scopeHierarchy = st.scopeHierarchy ∧
    ∃ new : List String, st'.queue = st.queue ++ new.map (fun r => (r,nextScope)) ∧ new.Nodup ∧
      ∀ r, r ∈ new ↔ 0 < st.indegrees r ∧ st.indegrees r ≤ l.count r := by
  induction l generalizing st with
  | nil =>
    refine ⟨fun r => by simp,rfl,rfl,rfl,[],by simp,List.nodup_nil,fun r => ?_⟩
    simp only [List.not_mem_nil, List.count_nil, false_iff, not_and]
    intro hpos
    push_cast
    omega
  | cons a l ih =>
    obtain ⟨hin,hvis,hsc,hhier,new,hq,hnd,hmem⟩ := ih (releaseNext nextScope st a)
    have hind (r : String) : (releaseNext nextScope st a).indegrees r =
        st.indegrees r-(if r = a then 1 else 0) := by
      simp only [releaseNext, update_apply]
      split <;> simp_all
    refine ⟨fun r => ?_,hvis,hsc,hhier,?_⟩
    · rw [List.foldl_cons, hin, hind, List.count_cons]
      by_cases hra : r = a
      · subst hra; simp; ring
      · simp [hra, Ne.symm hra]
    · by_cases hz : st.indegrees a-1 = 0
      · refine ⟨a :: new,?_,?_,?_⟩
        · rw [List.foldl_cons, hq]
          simp [releaseNext, hz]
        · refine List.nodup_cons.mpr ⟨?_,hnd⟩
          rw [hmem, hind]
          simp only [if_true]
          omega
        · intro r
          rw [List.mem_cons, hmem, hind, List.count_cons]
          by_cases hra : r = a
          · subst hra; simp; omega
          · simp [hra, Ne.symm hra]
      · refine ⟨new,?_,hnd,?_⟩
        · rw [List.foldl_cons, hq]
          simp [releaseNext, hz]
        · intro r
          rw [hmem, hind, List.count_cons]
          by_cases hra : r = a
          · subst hra; simp; omega
          · simp [hra, Ne.symm hra]

/-- Where an action's current scope comes from: the root, or one of its dependencies. -/
def ScopeState.From (dsl : DSLInput) (st : ScopeState) (r c : String) : Prop :=
  ((dsl.task r).deps = [] ∧ c = rootScope) ∨ ∃ d ∈ (dsl.task r).deps, st.scopes d.1 = some c

/-- The scope transition at `r` from the current scope `c` to `next`. -/
def ScopeState.Transition (dsl : DSLInput) (st : ScopeState) (r c next : String) : Prop :=
  match (dsl.task r).action with
  | .transformScatter => next = r ∧ st.scopeHierarchy r = some (some c)
  | .transformGather => st.scopeHierarchy c = some (some next)
  | _ => next = c

structure ScopeInv (dsl : DSLInput) (st : ScopeState) : Prop where
  nodup : (st.visited ++ st.queue.map Prod.fst).Nodup
  mem : ∀ r ∈ st.visited ++ st.queue.map Prod.fst, r ∈ dsl.refs
  count : ∀ r, st.indegrees r = (dsl.task r).deps.length-
    (dsl.task r).deps.countP (fun d => d.1 ∈ st.visited)
  ready : ∀ r ∈ st.queue.map Prod.fst, ∀ d ∈ (dsl.task r).deps, d.1 ∈ st.visited
  order : ∀ l1 r l2, st.visited = l1 ++ r :: l2 → ∀ d ∈ (dsl.task r).deps, d.1 ∈ l1
  hier_root : st.scopeHierarchy rootScope = some none
  hier_some : ∀ s q, st.scopeHierarchy s = some q → s = rootScope ∨
    (s ∈ st.visited ∧ (dsl.task s).action = .transformScatter)
  queued : ∀ r c, (r,c) ∈ st.queue → st.From dsl r c
  placed : ∀ r ∈ st.visited, ∃ c next, st.From dsl r c ∧ st.scopes r = some next ∧
    st.Transition dsl r c next
  unplaced : ∀ r, r ∉ st.visited → st.scopes r = none

theorem not_slug_root : isSlug rootScope = false := by decide

theorem enterScope_spec {v c next : String} (hv : st.scopes v = none)
    (h : enterScope dsl v c st = .ok (st',next)) :
    st'.indegrees = st.indegrees ∧ st'.queue = st.queue ∧ st'.visited = st.visited ∧
    st'.scopes = update st.scopes v (some next) ∧ st'.Transition dsl v c next ∧
    ((dsl.task v).action ≠ .transformScatter → st'.scopeHierarchy = st.scopeHierarchy) ∧
    ((dsl.task v).action = .transformScatter →
      st'.scopeHierarchy = update st.scopeHierarchy v (some (some c))) := by
  have hassign (scope : String) : assignScope v scope st =
      .ok { st with scopes := update st.scopes v (some scope) } := by
    simp only [assignScope, hv]
  simp only [enterScope, hassign] at h
  cases hact : (dsl.task v).action with
  | transformScatter =>
    simp only [hact, Except.map, Except.ok.injEq, Prod.mk.injEq] at h
    obtain ⟨rfl,rfl⟩ := h
    simp [ScopeState.Transition, hact]
  | transformGather =>
    simp only [hact] at h
    cases hj : (st.scopeHierarchy c).join with
    | none => simp [hj] at h
    | some n =>
      simp only [hj, Except.map, Except.ok.injEq, Prod.mk.injEq] at h
      obtain ⟨rfl,rfl⟩ := h
      simpa [ScopeState.Transition, hact] using Option.join_eq_some_iff.mp hj
  | _ =>
    simp only [hact, Except.map, Except.ok.injEq, Prod.mk.injEq] at h
    obtain ⟨rfl,rfl⟩ := h
    simp [ScopeState.Transition, hact]

theorem scopeInv_init (h : dsl.Parsed) : ScopeInv dsl (.init dsl) := by
  have hentry : ((ScopeState.init dsl).queue.map Prod.fst) =
      (dsl.actions.filter (fun a => a.dependsOn.length = 0)).map ActionStatement.ref := by
    simp only [ScopeState.init, List.map_map]
    rfl
  have hdeps : ∀ r ∈ (ScopeState.init dsl).queue.map Prod.fst, (dsl.task r).deps = [] := by
    intro r hr
    rw [hentry, List.mem_map] at hr
    obtain ⟨a,ha,rfl⟩ := hr
    rw [List.mem_filter] at ha
    rw [dsl.task_of_mem h.nodup ha.1]
    have hlen : a.dependsOn = [] := by simpa using ha.2
    simp [ActionStatement.deps, hlen]
  refine ⟨?_,?_,fun r => ?_,?_,?_,?_,?_,?_,?_,fun _ _ => rfl⟩
  · rw [hentry]
    exact h.nodup.sublist (List.filter_sublist.map _)
  · intro r hr
    rw [hentry] at hr
    obtain ⟨a,ha,rfl⟩ := List.mem_map.mp hr
    exact List.mem_map_of_mem (List.mem_of_mem_filter ha)
  · simp [ScopeState.init, h.deps_length]
  · intro r hr d hd
    rw [hdeps r hr] at hd
    cases hd
  · intro l1 r l2 hl
    simp [ScopeState.init] at hl
  · simp [ScopeState.init]
  · intro s q hs
    by_cases hr : s = rootScope
    · exact .inl hr
    · simp [ScopeState.init, update_of_ne hr] at hs
  · intro r c hrc
    refine .inl ⟨hdeps r (List.mem_map_of_mem hrc),?_⟩
    simp only [ScopeState.init, List.mem_map, Prod.mk.injEq] at hrc
    obtain ⟨_,_,_,hc⟩ := hrc
    exact hc.symm
  · intro r hr
    cases hr

theorem countP_mem_concat {l : List AdjDst} {vis : List String} {v : String} (hv : v ∉ vis) :
    l.countP (fun d => d.1 ∈ vis ++ [v]) =
      l.countP (fun d => d.1 ∈ vis)+l.countP (fun d => d.1 = v) := by
  induction l with
  | nil => rfl
  | cons d l ih =>
    simp only [List.countP_cons, ih]
    by_cases hd : d.1 = v
    · subst hd; simp [hv]; omega
    · simp [hd]; omega

/-- A dependency that is counted down to nothing by `v` is one on `v` and on what was visited before. -/
theorem released_iff {deps : List AdjDst} {visited : List String} {v : String} (hv : v ∉ visited) :
    (0 < (deps.length:ℤ)-deps.countP (fun d => d.1 ∈ visited) ∧
      (deps.length:ℤ)-deps.countP (fun d => d.1 ∈ visited) ≤ deps.countP (fun d => d.1 = v)) ↔
    (∃ d ∈ deps, d.1 = v) ∧ ∀ d ∈ deps, d.1 ∈ visited ++ [v] := by
  have hsplit := countP_mem_concat (l := deps) hv
  have hle := List.countP_le_length (p := fun d : AdjDst => decide (d.1 ∈ visited ++ [v])) (l := deps)
  have hall : deps.countP (fun d => d.1 ∈ visited ++ [v]) = deps.length ↔
      ∀ d ∈ deps, d.1 ∈ visited ++ [v] := by
    rw [List.countP_eq_length]
    simp only [decide_eq_true_eq]
  have hsome : 0 < deps.countP (fun d => d.1 = v) ↔ ∃ d ∈ deps, d.1 = v := by
    rw [List.countP_pos_iff]
    simp only [decide_eq_true_eq]
  rw [← hall, ← hsome]
  omega

/-- One iteration of the loop: `v` is visited and enters the scope `next`, and the refs `new` are queued, whose
last dependency it was. -/
structure Visits (dsl : DSLInput) (st st' : ScopeState) (v c next : String) (queue : List (String × String))
    (new : List String) : Prop where
  head : st.queue = (v,c) :: queue
  fresh : v ∉ st.visited
  visited : st'.visited = st.visited ++ [v]
  queue : st'.queue = queue ++ new.map fun r => (r,next)
  indegrees : ∀ r, st'.indegrees r = st.indegrees r-(dsl.adjacency v).count r
  scopes : st'.scopes = update st.scopes v (some next)
  hierarchy : st'.scopeHierarchy = if (dsl.task v).action = .transformScatter then
    update st.scopeHierarchy v (some (some c)) else st.scopeHierarchy
  transition : st'.Transition dsl v c next
  nodup : new.Nodup
  released : ∀ r, r ∈ new ↔ (∃ d ∈ (dsl.task r).deps, d.1 = v) ∧ ∀ d ∈ (dsl.task r).deps, d.1 ∈ st.visited ++ [v]

section
variable (h : dsl.Parsed) (hinv : ScopeInv dsl st)
include h hinv

theorem visits_of_step {st1 : ScopeState} {v c next : String} {queue : List (String × String)}
    (hq : st.queue = (v,c) :: queue) (hent : enterScope dsl v c { st with queue := queue, visited := st.visited ++ [v] } =
      .ok (st1,next)) : ∃ new, Visits dsl st ((dsl.adjacency v).foldl (releaseNext next) st1) v c next queue new := by
  have hvnew : v ∉ st.visited := fun hm => (List.nodup_append.mp (hq ▸ hinv.nodup)).2.2 v hm v
    List.mem_cons_self rfl
  have hun : ({ st with queue := queue, visited := st.visited ++ [v] } : ScopeState).scopes v = none :=
    hinv.unplaced v hvnew
  obtain ⟨hin,hqe,hvis,hsc,htr,hhier,hhiers⟩ := enterScope_spec hun hent
  obtain ⟨fin,fvis,fsc,fhier,new,fq,fnd,fmem⟩ := releaseAll_spec next (dsl.adjacency v) st1
  refine ⟨new,hq,hvnew,fvis.trans hvis,by rw [fq, hqe],fun r => by rw [fin, hin],by rw [fsc, hsc],?_,?_,fnd,fun r => ?_⟩
  · rw [fhier]
    split
    · exact hhiers ‹_›
    · exact hhier ‹_›
  · unfold ScopeState.Transition at htr ⊢
    rwa [fhier]
  · rw [fmem, hin, hinv.count, count_adjacency h.nodup]
    exact released_iff hvnew

end

section
variable {v c next : String} {queue : List (String × String)} {new : List String}
  (hv : Visits dsl st st' v c next queue new)
include hv

theorem Visits.scopes_ne {r : String} (hr : r ≠ v) : st'.scopes r = st.scopes r := by
  rw [hv.scopes, update_of_ne hr]

theorem Visits.scopes_self : st'.scopes v = some next := by
  rw [hv.scopes, update_self]

theorem Visits.hierarchy_ne {r : String} (hr : r ≠ v) : st'.scopeHierarchy r = st.scopeHierarchy r := by
  rw [hv.hierarchy]
  split
  · rw [update_of_ne hr]
  · rfl

theorem Visits.hierarchy_self (hs : (dsl.task v).action = .transformScatter) :
    st'.scopeHierarchy v = some (some c) := by
  rw [hv.hierarchy, if_pos hs, update_self]

theorem Visits.mem_visited {r : String} : r ∈ st'.visited ↔ r ∈ st.visited ∨ r = v := by
  rw [hv.visited, List.mem_append, List.mem_singleton]

theorem Visits.mem_queue {r : String} : r ∈ st'.queue.map Prod.fst ↔ r ∈ queue.map Prod.fst ∨ r ∈ new := by
  rw [hv.queue, List.map_append, List.mem_append, List.map_map]
  simp

theorem Visits.tail {r : String} (hr : r ∈ queue.map Prod.fst) : r ∈ st.queue.map Prod.fst := by
  rw [hv.head]
  exact List.mem_cons_of_mem _ hr

variable (hinv : ScopeInv dsl st)
include hinv

theorem Visits.scopes_old {r q : String} (hr : st.scopes r = some q) : st'.scopes r = some q := by
  rw [hv.scopes_ne, hr]
  rintro rfl
  rw [hinv.unplaced r hv.fresh] at hr
  cases hr

theorem Visits.hierarchy_old (h : dsl.Parsed) {s : String} {q : Option String}
    (hs : st.scopeHierarchy s = some q) : st'.scopeHierarchy s = some q := by
  rw [hv.hierarchy_ne, hs]
  rintro rfl
  rcases hinv.hier_some s q hs with rfl | ⟨hm,-⟩
  · have hroot := h.slug _ (hinv.mem rootScope (by simp [hv.head]))
    rw [not_slug_root] at hroot
    cases hroot
  · exact hv.fresh hm

theorem Visits.from_old {r c' : String} (hr : st.From dsl r c') : st'.From dsl r c' := by
  rcases hr with hroot | ⟨d,hd,hc⟩
  · exact .inl hroot
  · exact .inr ⟨d,hd,hv.scopes_old hinv hc⟩

theorem Visits.ready_head {d : AdjDst} (hd : d ∈ (dsl.task v).deps) : d.1 ∈ st.visited :=
  hinv.ready v (by simp [hv.head]) d hd

theorem Visits.nodup_next : (st'.visited ++ st'.queue.map Prod.fst).Nodup := by
  have hnd := hinv.nodup
  rw [hv.head, List.map_cons] at hnd
  have hqueue : st'.queue.map Prod.fst = queue.map Prod.fst ++ new := by
    rw [hv.queue, List.map_append, List.map_map]
    simp [Function.comp_def]
  rw [hv.visited, hqueue, ← List.append_assoc, List.append_assoc st.visited, List.singleton_append]
  refine List.nodup_append.mpr ⟨hnd,hv.nodup,?_⟩
  rintro r hr _ hrn rfl
  -- a ref that is there had its dependencies visited before `v`
  obtain ⟨⟨d,hd,rfl⟩,-⟩ := (hv.released r).mp hrn
  rcases List.mem_append.mp hr with hm | hm
  · obtain ⟨l1,l2,hl⟩ := List.append_of_mem hm
    exact hv.fresh (by rw [hl]; exact List.mem_append_left _ (hinv.order l1 r l2 hl d hd))
  · exact hv.fresh (hinv.ready r (by rw [hv.head]; exact hm) d hd)

theorem Visits.order {l1 l2 : List String} {r : String} (hl : st'.visited = l1 ++ r :: l2) :
    ∀ d ∈ (dsl.task r).deps, d.1 ∈ l1 := by
  intro d hd
  rw [hv.visited] at hl
  rcases List.append_eq_append_iff.mp hl with ⟨l,rfl,hc⟩ | ⟨l,hst,hc⟩
  · obtain ⟨rfl,rfl⟩ : l = [] ∧ r = v := by
      cases l with
      | nil => exact ⟨rfl,(List.cons.inj hc).1.symm⟩
      | cons b l => simp at hc
    rw [List.append_nil]
    exact hv.ready_head hinv hd
  · cases l with
    | nil =>
      obtain rfl : r = v := by simpa using (List.cons.inj (by simpa using hc)).1
      rw [List.append_nil] at hst
      exact hst ▸ hv.ready_head hinv hd
    | cons b l =>
      obtain ⟨rfl,-⟩ := List.cons.inj (by simpa using hc)
      exact hinv.order l1 r l (by simpa using hst) d hd

theorem Visits.placed (h : dsl.Parsed) {r : String} (hr : r ∈ st'.visited) :
    ∃ c next, st'.From dsl r c ∧ st'.scopes r = some next ∧ st'.Transition dsl r c next := by
  rcases hv.mem_visited.mp hr with hr | rfl
  · obtain ⟨c',n,hf,hs,ht⟩ := hinv.placed r hr
    refine ⟨c',n,hv.from_old hinv hf,hv.scopes_old hinv hs,?_⟩
    unfold ScopeState.Transition at ht ⊢
    split at ht
    · exact ⟨ht.1,hv.hierarchy_old hinv h ht.2⟩
    · exact hv.hierarchy_old hinv h ht
    · exact ht
  · exact ⟨c,next,hv.from_old hinv (hinv.queued r c (by simp [hv.head])),hv.scopes_self,hv.transition⟩

theorem ScopeInv.visits (h : dsl.Parsed) : ScopeInv dsl st' := by
  refine ⟨hv.nodup_next hinv,fun r hr => ?_,fun r => ?_,fun r hr d hd => ?_,fun l1 r l2 => hv.order hinv,
    hv.hierarchy_old hinv h hinv.hier_root,fun s q hs => ?_,fun r c' hrc => ?_,fun r => hv.placed hinv h,
    fun r hr => ?_⟩
  · rw [List.mem_append, hv.mem_visited, hv.mem_queue] at hr
    rcases hr with (hr | rfl) | hr | hr
    · exact hinv.mem r (List.mem_append_left _ hr)
    · exact hinv.mem r (by simp [hv.head])
    · exact hinv.mem r (List.mem_append_right _ (hv.tail hr))
    · obtain ⟨⟨d,hd,-⟩,-⟩ := (hv.released r).mp hr
      exact (h.dep_mem hd).1
  · rw [hv.indegrees, hinv.count, hv.visited, countP_mem_concat hv.fresh, count_adjacency h.nodup]
    push_cast
    omega
  · rcases hv.mem_queue.mp hr with hr | hr
    · exact hv.mem_visited.mpr (.inl (hinv.ready r (hv.tail hr) d hd))
    · exact hv.visited ▸ ((hv.released r).mp hr).2 d hd
  · by_cases hsv : s = v
    · subst hsv
      by_cases hact : (dsl.task s).action = .transformScatter
      · exact .inr ⟨hv.mem_visited.mpr (.inr rfl),hact⟩
      · rw [hv.hierarchy, if_neg hact] at hs
        exact (hinv.hier_some s q hs).imp_right fun ⟨hm,_⟩ => absurd hm hv.fresh
    · rw [hv.hierarchy_ne hsv] at hs
      exact (hinv.hier_some s q hs).imp_right fun ⟨hm,ha⟩ => ⟨hv.mem_visited.mpr (.inl hm),ha⟩
  · rw [hv.queue, List.mem_append] at hrc
    rcases hrc with hrc | hrc
    · exact hv.from_old hinv (hinv.queued r c' (by rw [hv.head]; exact List.mem_cons_of_mem _ hrc))
    · obtain ⟨r',hr',hpair⟩ := List.mem_map.mp hrc
      cases hpair
      obtain ⟨⟨d,hd,rfl⟩,-⟩ := (hv.released r).mp hr'
      exact .inr ⟨d,hd,hv.scopes_self⟩
  · rw [hv.mem_visited, not_or] at hr
    rw [hv.scopes_ne hr.2]
    exact hinv.unplaced r hr.1

end

section
variable (h : dsl.Parsed) (hinv : ScopeInv dsl st)
include h hinv

theorem scopeInv_step {st1 : ScopeState} {v c next : String} {queue : List (String × String)}
    (hq : st.queue = (v,c) :: queue) (hent : enterScope dsl v c { st with queue := queue, visited := st.visited ++ [v] } =
      .ok (st1,next)) : ScopeInv dsl ((dsl.adjacency v).foldl (releaseNext next) st1) := by
  obtain ⟨new,hv⟩ := visits_of_step h hinv hq hent
  exact hinv.visits hv h

theorem scopeLoop_inv {n : ℕ} (hl : scopeLoop dsl n st = .ok st') : ScopeInv dsl st' := by
  induction n generalizing st with
  | zero =>
    obtain rfl : st = st' := by simpa [scopeLoop] using hl
    exact hinv
  | succ n ih =>
    simp only [scopeLoop] at hl
    split at hl
    · obtain rfl : st = st' := by simpa using hl
      exact hinv
    · rename_i v c queue hq
      split at hl
      · cases hl
      · rename_i st1 next hent
        exact ih (scopeInv_step h hinv hq hent) hl

theorem scopeLoop_queue {n : ℕ} (hl : scopeLoop dsl n st = .ok st') (hn : dsl.actions.length ≤ n+st.visited.length) :
    st'.queue = [] := by
  induction n generalizing st with
  | zero =>
    obtain rfl : st = st' := by simpa [scopeLoop] using hl
    have hlen := (hinv.nodup.subperm fun r hr => hinv.mem r hr).length_le
    rw [List.length_append, List.length_map, DSLInput.refs, List.length_map] at hlen
    exact List.eq_nil_of_length_eq_zero (by omega)
  | succ n ih =>
    simp only [scopeLoop] at hl
    split at hl
    · obtain rfl : st = st' := by simpa using hl
      assumption
    · rename_i v c queue hq
      split at hl
      · cases hl
      · rename_i st1 next hent
        obtain ⟨new,hv⟩ := visits_of_step h hinv hq hent
        refine ih (hinv.visits hv h) hl ?_
        rw [hv.visited, List.length_append, List.length_singleton]
        omega

end

theorem assigned_inv (h : dsl.Parsed) (ha : assignActionScopes dsl = .ok st) :
    ScopeInv dsl st ∧ ∀ r ∈ dsl.refs, r ∈ st.visited := by
  unfold assignActionScopes at ha
  split at ha
  · cases ha
  · rename_i st' hl
    split at ha
    · cases ha
    · rename_i hlen
      obtain rfl : st' = st := by simpa using ha
      have hinv := scopeLoop_inv h (scopeInv_init h) hl
      refine ⟨hinv,fun r hr => ?_⟩
      have hnd := (List.nodup_append.mp hinv.nodup).1
      have hsub : st'.visited ⊆ dsl.refs := fun r hr => hinv.mem r (List.mem_append_left _ hr)
      have hperm := (hnd.subperm hsub).perm_of_length_le (by
        rw [not_not.mp hlen, DSLInput.refs, List.length_map])
      exact hperm.symm.subset hr

theorem dep_wellFounded (h : dsl.WellFormed) (hs : dsl.hasScatter) : WellFounded dsl.Dep := by
  obtain ⟨st,ha,-⟩ := h.assigned hs
  obtain ⟨hinv,hall⟩ := assigned_inv h.toParsed ha
  have hidx : ∀ d r, dsl.Dep d r → st.visited.idxOf d < st.visited.idxOf r := by
    rintro _ r ⟨dep,hd,rfl⟩
    obtain ⟨l1,l2,hl⟩ := List.append_of_mem (hall r (h.dep_mem hd).1)
    have hbefore := hinv.order l1 r l2 hl dep hd
    have hrn : r ∉ l1 := fun hm =>
      (List.nodup_append.mp (hl ▸ (List.nodup_append.mp hinv.nodup).1)).2.2 r hm r
        List.mem_cons_self rfl
    rw [hl, List.idxOf_append_of_mem hbefore, List.idxOf_append_of_notMem hrn]
    have := List.idxOf_lt_length_of_mem hbefore
    omega
  exact Subrelation.wf (fun {d r} hdr => hidx d r hdr) (measure fun r => st.visited.idxOf r).wf

def DSLInput.IsScatter (dsl : DSLInput) (r : String) : Prop :=
  (dsl.task r).action = .transformScatter

def DSLInput.IsGather (dsl : DSLInput) (r : String) : Prop :=
  (dsl.task r).action = .transformGather

instance (r : String) : Decidable (dsl.IsScatter r) := by
  unfold DSLInput.IsScatter; infer_instance

instance (r : String) : Decidable (dsl.IsGather r) := by unfold DSLInput.IsGather; infer_instance

theorem DSLInput.mem_of_isScatter {r : String} (h : dsl.IsScatter r) : r ∈ dsl.refs := by
  by_contra hr
  rw [DSLInput.IsScatter, dsl.task_of_not_mem hr] at h
  cases h

theorem DSLInput.mem_of_isGather {r : String} (h : dsl.IsGather r) : r ∈ dsl.refs := by
  by_contra hr
  rw [DSLInput.IsGather, dsl.task_of_not_mem hr] at h
  cases h

theorem DSLInput.hasScatter_of_isScatter {r : String} (h : dsl.IsScatter r) : dsl.hasScatter :=
  ⟨_,(dsl.task_mem (dsl.mem_of_isScatter h)).1,h⟩

/-- How the scopes agree along the edges. -/
structure Scoping (dsl : DSLInput) : Prop where
  plain_entry : ∀ r, ¬ dsl.IsScatter r → ¬ dsl.IsGather r → (dsl.task r).deps = [] →
    dsl.scope r = rootScope
  plain_dep : ∀ r d, ¬ dsl.IsScatter r → ¬ dsl.IsGather r → dsl.Dep d r →
    dsl.scope d = dsl.scope r
  scatter_scope : ∀ x, dsl.IsScatter x → dsl.scope x = x
  scatter_ne_root : ∀ x, dsl.IsScatter x → x ≠ rootScope
  scatter_entry : ∀ x, dsl.IsScatter x → (dsl.task x).deps = [] → dsl.outerScope x = rootScope
  scatter_dep : ∀ x d, dsl.IsScatter x → dsl.Dep d x → dsl.scope d = dsl.outerScope x
  gather_entry : ∀ g, dsl.IsGather g → (dsl.task g).deps ≠ []
  gather_dep : ∀ g d, dsl.IsGather g → dsl.Dep d g →
    dsl.IsScatter (dsl.scope d) ∧ dsl.outerScope (dsl.scope d) = dsl.scope g

theorem scope_of_assigned (hs : dsl.hasScatter) (ha : assignActionScopes dsl = .ok st) (r : String) :
    dsl.scope r = (st.scopes r).getD rootScope := by
  simp only [DSLInput.scope, hs, ha, if_true]

theorem outerScope_of_assigned (hs : dsl.hasScatter) (ha : assignActionScopes dsl = .ok st)
    (s : String) : dsl.outerScope s = (st.scopeHierarchy s).join.getD rootScope := by
  simp only [DSLInput.outerScope, hs, ha, if_true]

theorem DSLInput.exists_dependsOn {r : String} {dep : AdjDst} (hd : dep ∈ (dsl.task r).deps) :
    ∃ text ∈ (dsl.task r).dependsOn, edgeComponentsFromDep text = some dep :=
  List.mem_filterMap.mp hd

theorem scoping_of_hasScatter (h : dsl.WellFormed) (hs : dsl.hasScatter) : Scoping dsl := by
  obtain ⟨st,ha,hcheck⟩ := h.assigned hs
  obtain ⟨hinv,hall⟩ := assigned_inv h.toParsed ha
  have hscope := scope_of_assigned hs ha
  have houter := outerScope_of_assigned hs ha
  -- the check of an edge, with the scopes looked up
  have hedge : ∀ r d, dsl.Dep d r → match (dsl.task r).action with
      | .transformScatter => some (dsl.scope d) = (st.scopeHierarchy (dsl.scope r)).join
      | .transformGather => some (dsl.scope r) = (st.scopeHierarchy (dsl.scope d)).join
      | _ => dsl.scope d = dsl.scope r := by
    rintro r _ ⟨dep,hd,rfl⟩
    obtain ⟨text,htext,hparse⟩ := dsl.exists_dependsOn hd
    have hok := hcheck _ (dsl.task_mem (h.dep_mem hd).1).1 text htext
    simp only [checkEdge, dsl.task_ref, hparse, Option.bind_some, ← hscope] at hok
    split <;> rename_i hact <;> simp only [hact] at hok <;> split at hok <;> simp_all
  have hplaced := fun r (hr : r ∈ dsl.refs) => hinv.placed r (hall r hr)
  have hroot : ∀ x, dsl.IsScatter x → x ≠ rootScope := by
    rintro _ hx rfl
    exact absurd (h.slug _ (dsl.mem_of_isScatter hx)) (by rw [not_slug_root]; simp)
  have hscat : ∀ x, dsl.IsScatter x → dsl.scope x = x ∧ ∃ c, st.From dsl x c ∧
      st.scopeHierarchy x = some (some c) := by
    intro x hx
    obtain ⟨c,next,hf,hn,ht⟩ := hplaced x (dsl.mem_of_isScatter hx)
    simp only [ScopeState.Transition, show (dsl.task x).action = .transformScatter from hx] at ht
    obtain ⟨rfl,ht⟩ := ht
    exact ⟨by rw [hscope, hn]; rfl,c,hf,ht⟩
  refine ⟨?_,?_,fun x hx => (hscat x hx).1,hroot,?_,?_,?_,?_⟩
  · intro r hns hng hd
    by_cases hr : r ∈ dsl.refs
    · obtain ⟨c,next,hf,hn,ht⟩ := hplaced r hr
      have hc : next = c := by
        unfold ScopeState.Transition at ht
        split at ht
        · exact absurd ‹_› hns
        · exact absurd ‹_› hng
        · exact ht
      rcases hf with ⟨-,rfl⟩ | ⟨d,hd',-⟩
      · rw [hscope, hn, hc]; rfl
      · rw [hd] at hd'; cases hd'
    · rw [hscope, hinv.unplaced r fun hv => hr (hinv.mem r (List.mem_append_left _ hv))]
      rfl
  · intro r d hns hng hd
    have he := hedge r d hd
    split at he
    · exact absurd ‹_› hns
    · exact absurd ‹_› hng
    · exact he
  · intro x hx hd
    obtain ⟨-,c,hf,hh⟩ := hscat x hx
    rcases hf with ⟨-,rfl⟩ | ⟨d,hd',-⟩
    · rw [houter, hh]; rfl
    · rw [hd] at hd'; cases hd'
  · intro x d hx hd
    have he := hedge x d hd
    simp only [show (dsl.task x).action = .transformScatter from hx, (hscat x hx).1] at he
    rw [houter, ← he, Option.getD_some]
  · intro g hg hd
    obtain ⟨c,next,hf,hn,ht⟩ := hplaced g (dsl.mem_of_isGather hg)
    simp only [ScopeState.Transition, show (dsl.task g).action = .transformGather from hg] at ht
    rcases hf with ⟨-,rfl⟩ | ⟨d,hd',-⟩
    · rw [hinv.hier_root] at ht; cases ht
    · rw [hd] at hd'; cases hd'
  · intro g d hg hd
    have he := hedge g d hd
    simp only [show (dsl.task g).action = .transformGather from hg] at he
    refine ⟨?_,by rw [houter, ← he, Option.getD_some]⟩
    obtain ⟨q,hq⟩ := Option.isSome_iff_exists.mp (show (st.scopeHierarchy (dsl.scope d)).isSome by
      cases hh : st.scopeHierarchy (dsl.scope d) <;> simp_all)
    rcases hinv.hier_some _ _ hq with hr | ⟨-,hs'⟩
    · rw [hr, hinv.hier_root] at he; cases he
    · exact hs'

theorem DSLInput.not_isScatter (hs : ¬ dsl.hasScatter) (r : String) : ¬ dsl.IsScatter r :=
  fun hx => hs (dsl.hasScatter_of_isScatter hx)

theorem DSLInput.WellFormed.not_isGather (h : dsl.WellFormed) (hs : ¬ dsl.hasScatter) (r : String) :
    ¬ dsl.IsGather r :=
  fun hx => hs (h.gathers ⟨_,(dsl.task_mem (dsl.mem_of_isGather hx)).1,hx⟩)

theorem scoping (h : dsl.WellFormed) : Scoping dsl := by
  by_cases hs : dsl.hasScatter
  · exact scoping_of_hasScatter h hs
  have hns := dsl.not_isScatter hs
  have hng := h.not_isGather hs
  have hscope : ∀ r, dsl.scope r = rootScope := fun r => by simp [DSLInput.scope, hs]
  refine ⟨fun r _ _ _ => hscope r,fun r d _ _ _ => ?_,fun x hx => absurd hx (hns x),
    fun x hx => absurd hx (hns x),fun x hx => absurd hx (hns x),fun x _ hx => absurd hx (hns x),
    fun x hx => absurd hx (hng x),fun x _ hx => absurd hx (hng x)⟩
  rw [hscope, hscope]

end
end Allama

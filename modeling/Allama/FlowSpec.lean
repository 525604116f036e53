import Allama.DSLScoping

/-! What `_queue_tasks` does to markers, counters and queue, and the invariant of the counters. -/
namespace Allama
open scoped List
section
variable {dsl : DSLInput}

theorem mem_adj (h : dsl.WellFormed) {d r : String} {type : EdgeType} :
    (r,type) ∈ dsl.adj d ↔ (d,type) ∈ (dsl.task r).deps := by
  rw [DSLInput.adj, List.mem_insertionSort, DSLInput.adjSet, List.mem_dedup, List.mem_flatMap]
  constructor
  · rintro ⟨a,ha,hm⟩
    obtain ⟨⟨src,ty⟩,hd,he⟩ := List.mem_map.mp hm
    cases he
    obtain ⟨hd,hsrc⟩ := List.mem_filter.mp hd
    obtain rfl : src = d := by simpa using hsrc
    rwa [dsl.task_of_mem h.nodup ha]
  · intro hd
    refine ⟨dsl.task r,(dsl.task_mem (h.dep_mem hd).1).1,List.mem_map.mpr ⟨(d,type),?_,?_⟩⟩
    · exact List.mem_filter.mpr ⟨hd,by simp⟩
    · rw [dsl.task_ref]

theorem adj_nodup (d : String) : (dsl.adj d).Nodup :=
  (List.perm_insertionSort _ _).nodup_iff.mpr (List.nodup_dedup _)

def DSLInput.inEdges (dsl : DSLInput) (r : String) : List AdjDst := (dsl.task r).deps.dedup

theorem count_adj (h : dsl.WellFormed) (d r : String) :
    (dsl.adj d).countP (fun a => a.1 = r) = (dsl.inEdges r).countP (fun a => a.1 = d) := by
  have hl : ((dsl.adj d).filter (fun a => a.1 = r)).map (fun a => (d,a.2)) ~
      (dsl.inEdges r).filter (fun a => a.1 = d) := by
    refine (List.perm_ext_iff_of_nodup ?_ ((List.nodup_dedup _).filter _)).mpr ?_
    · refine List.Nodup.map_on ?_ ((adj_nodup d).filter _)
      intro a ha b hb hab
      have har : a.1 = r := by simpa using (List.mem_filter.mp ha).2
      have hbr : b.1 = r := by simpa using (List.mem_filter.mp hb).2
      exact Prod.ext (har.trans hbr.symm) (Prod.mk.inj hab).2
    · rintro ⟨src,type⟩
      rw [List.mem_map, List.mem_filter, List.mem_dedup]
      constructor
      · rintro ⟨⟨dst,ty⟩,hm,he⟩
        cases he
        obtain ⟨hadj,hdst⟩ := List.mem_filter.mp hm
        obtain rfl : dst = r := by simpa using hdst
        exact ⟨(mem_adj h).mp hadj,by simp⟩
      · rintro ⟨hm,hsrc⟩
        obtain rfl : src = d := by simpa using hsrc
        exact ⟨(r,type),List.mem_filter.mpr ⟨(mem_adj h).mpr hm,by simp⟩,rfl⟩
  rw [List.countP_eq_length_filter, List.countP_eq_length_filter, ← hl.length_eq,
    List.length_map]

theorem mem_outEdges {t : Task} {p : EdgeType → Bool} {e : DSLEdge} :
    e ∈ dsl.outEdges t p ↔
      e.src = t.ref ∧ e.streamId = t.streamId ∧ (e.dst,e.type) ∈ dsl.adj t.ref ∧ p e.type := by
  rw [DSLInput.outEdges, List.mem_map]
  constructor
  · rintro ⟨d,hd,rfl⟩
    obtain ⟨hd,hp⟩ := List.mem_filter.mp hd
    exact ⟨rfl,rfl,hd,hp⟩
  · rintro ⟨hs,hst,hd,hp⟩
    exact ⟨(e.dst,e.type),List.mem_filter.mpr ⟨hd,hp⟩,by cases e; simp_all⟩

/-- The effect of `_queue_tasks(t, unreachable)` from the coroutine of `caller`. -/
structure Queues (dsl : DSLInput) (caller t : Task) (unreachable : List DSLEdge)
    (f f' : Flow) : Prop where
  pending : f'.pending = f.pending
  completedTasks : f'.completedTasks = f.completedTasks
  scheduled : f'.scheduled = f.scheduled
  outcomes : f'.outcomes = f.outcomes
  queued : f'.queued = f.queued ++ [(t,caller)]
  edges : ∀ e, f'.edges e = if e ∈ dsl.outEdges t (fun _ => true) then
    (if e ∈ unreachable then .skipped else .visited) else f.edges e
  indegree : ∀ u, f'.indegree dsl u = f.indegree dsl u-
    if u.streamId = t.streamId then ((dsl.adj t.ref).countP (fun a => a.1 = u.ref) : ℤ) else 0
  queue : ∃ new : List Task, f'.queue.map Prod.fst = f.queue.map Prod.fst ++ new ∧ new.Nodup ∧
    ∀ u, u ∈ new ↔ 0 < f.indegree dsl u ∧ f'.indegree dsl u ≤ 0

section
variable (t : Task) (delay : ℚ) (unreachable : List DSLEdge)
include t delay unreachable

theorem queueNext_eq (f : Flow) (next : AdjDst) :
    queueNext dsl t delay unreachable f next =
      let edge : DSLEdge := ⟨t.ref,next.1,next.2,t.streamId⟩
      let nextTask : Task := ⟨next.1,t.streamId⟩
      { f with
        edges := Function.update f.edges edge (if edge ∈ unreachable then .skipped else .visited)
        indegrees := Function.update f.indegrees nextTask (some (f.indegree dsl nextTask-1))
        queue := f.queue ++ if f.indegree dsl nextTask-1 = 0 then [(nextTask,delay)] else [] } := by
  unfold queueNext
  dsimp only [markEdge, Flow.indegree]
  split
  · rename_i hz
    simp [hz]
  · rename_i hz
    simp [hz]

theorem queueNext_indegree (f : Flow) (next : AdjDst) (u : Task) :
    (queueNext dsl t delay unreachable f next).indegree dsl u =
      f.indegree dsl u-if u = ⟨next.1,t.streamId⟩ then 1 else 0 := by
  rw [queueNext_eq, Flow.indegree]
  dsimp only
  rw [Function.update_apply]
  split
  · rename_i hu
    rw [hu, Option.getD_some]
  · rw [sub_zero]
    rfl

/-- The loop of `_queue_tasks` over a list of targets. -/
theorem queueNext_fold (l : List AdjDst) (f : Flow) :
    let f' := l.foldl (queueNext dsl t delay unreachable) f
    f'.pending = f.pending ∧ f'.completedTasks = f.completedTasks ∧
    f'.scheduled = f.scheduled ∧ f'.outcomes = f.outcomes ∧ f'.queued = f.queued ∧
    (∀ e, f'.edges e = if e ∈ l.map (fun d => (⟨t.ref,d.1,d.2,t.streamId⟩ : DSLEdge)) then
      (if e ∈ unreachable then .skipped else .visited) else f.edges e) ∧
    (∀ u, f'.indegree dsl u = f.indegree dsl u-
      if u.streamId = t.streamId then (l.countP (fun a => a.1 = u.ref) : ℤ) else 0) ∧
    ∃ new : List Task, f'.queue.map Prod.fst = f.queue.map Prod.fst ++ new ∧ new.Nodup ∧
      ∀ u, u ∈ new ↔ 0 < f.indegree dsl u ∧ f'.indegree dsl u ≤ 0 := by
  induction l generalizing f with
  | nil =>
    refine ⟨rfl,rfl,rfl,rfl,rfl,fun e => by simp,fun u => by simp,[],by simp,List.nodup_nil,?_⟩
    intro u
    simp only [List.foldl_nil, List.not_mem_nil, false_iff, not_and]
    omega
  | cons a l ih =>
    obtain ⟨hp,hc,hs,ho,hq,he,hi,new,hqueue,hnd,hmem⟩ :=
      ih (queueNext dsl t delay unreachable f a)
    have hstep := @queueNext_indegree dsl t delay unreachable f a
    rw [List.foldl_cons]
    generalize l.foldl (queueNext dsl t delay unreachable)
      (queueNext dsl t delay unreachable f a) = f' at *
    simp only [queueNext_eq] at hp hc hs ho hq he hqueue
    have hindeg : ∀ u, f'.indegree dsl u = f.indegree dsl u-
        if u.streamId = t.streamId then ((a :: l).countP (fun a => a.1 = u.ref) : ℤ) else 0 := by
      intro u
      rw [hi, hstep, List.countP_cons]
      by_cases hu : u = ⟨a.1,t.streamId⟩
      · subst hu
        simp
        ring
      · by_cases hst : u.streamId = t.streamId
        · have hne : a.1 ≠ u.ref := fun h => hu (by cases u; simp_all)
          simp [hu, hst, hne]
        · simp [hu, hst]
    refine ⟨hp,hc,hs,ho,hq,fun e => ?_,hindeg,?_⟩
    · rw [he, List.map_cons, Function.update_apply]
      by_cases hea : e = ⟨t.ref,a.1,a.2,t.streamId⟩
      · rw [if_pos (List.mem_cons.mpr (.inl hea)), if_pos hea, hea, ite_self]
      · simp only [List.mem_cons, hea, false_or, if_false]
    · have hdown : ∀ u, f'.indegree dsl u ≤ f.indegree dsl u-
          if u = ⟨a.1,t.streamId⟩ then 1 else 0 := by
        intro u
        rw [hi, hstep]
        split <;> omega
      by_cases hz : f.indegree dsl ⟨a.1,t.streamId⟩-1 = 0
      · refine ⟨⟨a.1,t.streamId⟩ :: new,?_,?_,fun u => ?_⟩
        · rw [hqueue]
          simp [hz]
        · refine List.nodup_cons.mpr ⟨?_,hnd⟩
          rw [hmem, hstep, if_pos rfl]
          omega
        · rw [List.mem_cons, hmem, hstep]
          by_cases hu : u = ⟨a.1,t.streamId⟩
          · have := hdown u
            rw [if_pos hu] at this
            subst hu
            simp only [if_true, true_or, true_iff]
            omega
          · simp [hu]
      · refine ⟨new,?_,hnd,fun u => ?_⟩
        · rw [hqueue]
          simp [hz]
        · rw [hmem, hstep]
          by_cases hu : u = ⟨a.1,t.streamId⟩
          · subst hu
            simp only [if_true]
            omega
          · simp [hu]

end

theorem queueTasks_queues (caller t : Task) (delay : ℚ) (unreachable : List DSLEdge) (f : Flow) :
    Queues dsl caller t unreachable f (queueTasks dsl caller t delay unreachable f) := by
  obtain ⟨hp,hc,hs,ho,hq,he,hi,hnew⟩ := @queueNext_fold dsl t delay unreachable
    (dsl.adj t.ref) { f with queued := f.queued ++ [(t,caller)] }
  refine ⟨hp,hc,hs,ho,hq,fun e => ?_,hi,hnew⟩
  rw [queueTasks, he]
  have hmem : e ∈ (dsl.adj t.ref).map (fun d => (⟨t.ref,d.1,d.2,t.streamId⟩ : DSLEdge)) ↔
      e ∈ dsl.outEdges t fun _ => true := by
    rw [DSLInput.outEdges, List.filter_eq_self.mpr fun _ _ => rfl]
  simp only [hmem]

/-- The arguments `_queue_tasks` was called with. -/
def Flow.args (f : Flow) : List Task := f.queued.map Prod.fst

/-- The instances that were ever put on the queue. -/
def Flow.started (f : Flow) : List Task := f.scheduled ++ f.queue.map Prod.fst

def DSLInput.IsEntry (dsl : DSLInput) (u : Task) : Prop :=
  u.streamId = .root ∧ u.ref ∈ dsl.refs ∧ (dsl.task u.ref).dependsOn = []

/-- The counters count the incoming edges that were marked, and an instance is on the queue or
taken from it once its counter is down. -/
structure Counted (dsl : DSLInput) (f : Flow) : Prop where
  args_nodup : f.args.Nodup
  indegree : ∀ u, f.indegree dsl u = (dsl.task u.ref).dependsOn.length-
    ((dsl.inEdges u.ref).countP fun d => (⟨d.1,u.streamId⟩ : Task) ∈ f.args : ℕ)
  started_nodup : f.started.Nodup
  mem_started : ∀ u, u ∈ f.started ↔
    dsl.IsEntry u ∨ ((dsl.task u.ref).dependsOn ≠ [] ∧ f.indegree dsl u ≤ 0)
  scheduled : ∀ t, t ∈ f.scheduled ↔ t ∈ f.pending ∨ t ∈ f.completedTasks
  disjoint : ∀ t, t ∈ f.pending → t ∉ f.completedTasks
  outcomes : ∀ t, (f.outcomes t).isSome ↔ t ∈ f.completedTasks
  unmarked : ∀ e : DSLEdge, ⟨e.src,e.streamId⟩ ∉ f.args → f.edges e = .pending

theorem inEdges_length_le (h : dsl.WellFormed) (r : String) :
    (dsl.inEdges r).length ≤ (dsl.task r).dependsOn.length := by
  rw [← h.deps_length]
  exact (List.dedup_sublist _).length_le

theorem mem_inEdges {r : String} {d : AdjDst} : d ∈ dsl.inEdges r ↔ d ∈ (dsl.task r).deps :=
  List.mem_dedup

section
variable (h : dsl.WellFormed)
include h

theorem Counted.started_dep {f : Flow} (hf : Counted dsl f) {u : Task} {d : String} (hu : u ∈ f.started)
    (hd : dsl.Dep d u.ref) : ⟨d,u.streamId⟩ ∈ f.args := by
  obtain ⟨dep,hdep,rfl⟩ := hd
  rcases (hf.mem_started u).mp hu with ⟨-,-,hnil⟩ | ⟨-,hle⟩
  · have hlen := h.deps_length u.ref
    rw [hnil, List.length_nil, List.length_eq_zero_iff] at hlen
    rw [hlen] at hdep
    cases hdep
  · rw [hf.indegree] at hle
    have hcount := List.countP_le_length (l := dsl.inEdges u.ref)
      (p := fun d => decide ((⟨d.1,u.streamId⟩ : Task) ∈ f.args))
    have hlen := inEdges_length_le h u.ref
    have hall := List.countP_eq_length.mp (Nat.le_antisymm hcount (by omega))
    simpa using hall dep (mem_inEdges.mpr hdep)

theorem Counted.started_of_deps {f : Flow} (hf : Counted dsl f) {u : Task} (hdist : (dsl.task u.ref).deps.Nodup)
    (hne : (dsl.task u.ref).deps ≠ []) (hall : ∀ d, dsl.Dep d u.ref → ⟨d,u.streamId⟩ ∈ f.args) : u ∈ f.started := by
  refine (hf.mem_started u).mpr (.inr ⟨?_,?_⟩)
  · intro hnil
    have hlen := h.deps_length u.ref
    rw [hnil, List.length_nil, List.length_eq_zero_iff] at hlen
    exact hne hlen
  · have hfull : (dsl.inEdges u.ref).countP
        (fun d => decide ((⟨d.1,u.streamId⟩ : Task) ∈ f.args)) = (dsl.inEdges u.ref).length := by
      refine List.countP_eq_length.mpr fun d hd => ?_
      simpa using hall d.1 ⟨d,mem_inEdges.mp hd,rfl⟩
    have hlen := h.deps_length u.ref
    rw [hf.indegree, hfull, DSLInput.inEdges, List.dedup_eq_self.mpr hdist]
    omega

theorem countP_args_concat {args : List Task} {t : Task} (ht : t ∉ args) (u : Task) :
    (dsl.inEdges u.ref).countP (fun d => (⟨d.1,u.streamId⟩ : Task) ∈ args ++ [t]) =
      (dsl.inEdges u.ref).countP (fun d => (⟨d.1,u.streamId⟩ : Task) ∈ args)+
        if u.streamId = t.streamId then (dsl.adj t.ref).countP (fun a => a.1 = u.ref) else 0 := by
  rw [count_adj h]
  induction dsl.inEdges u.ref with
  | nil => simp
  | cons d l ih =>
    have hdt : (⟨d.1,u.streamId⟩ : Task) = t ↔ u.streamId = t.streamId ∧ d.1 = t.ref := by
      cases t
      simp only [Task.mk.injEq]
      exact and_comm
    have hmem : (⟨d.1,u.streamId⟩ : Task) ∈ args ++ [t] ↔
        (⟨d.1,u.streamId⟩ : Task) ∈ args ∨ (u.streamId = t.streamId ∧ d.1 = t.ref) := by
      rw [List.mem_append, List.mem_singleton, hdt]
    have hnot : u.streamId = t.streamId ∧ d.1 = t.ref → (⟨d.1,u.streamId⟩ : Task) ∉ args := by
      intro he
      rwa [hdt.mpr he]
    rw [List.countP_cons, List.countP_cons, List.countP_cons, ih]
    simp only [hmem, decide_eq_true_eq]
    by_cases hs : u.streamId = t.streamId
    · by_cases hr : d.1 = t.ref
      · simp only [hs, hr, and_self, or_true, if_true]
        have hn := hnot ⟨hs,hr⟩
        rw [hs, hr] at hn
        simp only [hn, if_false]
        omega
      · simp only [hs, hr, and_false, or_false, if_true, if_false]
        omega
    · simp only [hs, false_and, or_false, if_false, add_zero]

theorem Counted.queues {f f' : Flow} {caller t : Task} {unreachable : List DSLEdge} (hf : Counted dsl f) (ht : t ∉ f.args)
    (hq : Queues dsl caller t unreachable f f') : Counted dsl f' := by
  have hargs : f'.args = f.args ++ [t] := by
    rw [Flow.args, hq.queued, List.map_append]
    rfl
  obtain ⟨new,hqueue,hnd,hmem⟩ := hq.queue
  have hstarted : f'.started = f.started ++ new := by
    rw [Flow.started, hqueue, hq.scheduled, Flow.started, List.append_assoc]
  have hin : ∀ u, f'.indegree dsl u = (dsl.task u.ref).dependsOn.length-
      ((dsl.inEdges u.ref).countP fun d => (⟨d.1,u.streamId⟩ : Task) ∈ f'.args : ℕ) := by
    intro u
    rw [hq.indegree, hf.indegree, hargs, countP_args_concat h ht]
    split <;> push_cast <;> ring
  refine ⟨?_,hin,?_,fun u => ?_,?_,?_,?_,?_⟩
  · rw [hargs]
    exact List.nodup_append.mpr ⟨hf.args_nodup,List.nodup_singleton t,by
      rintro a ha b hb rfl
      exact ht (List.mem_singleton.mp hb ▸ ha)⟩
  · rw [hstarted]
    refine List.nodup_append.mpr ⟨hf.started_nodup,hnd,?_⟩
    rintro u hu _ hn rfl
    have hpos := ((hmem u).mp hn).1
    rcases (hf.mem_started u).mp hu with ⟨-,-,hnil⟩ | ⟨-,hle⟩
    · have hlen := inEdges_length_le h u.ref
      rw [hf.indegree, hnil, List.length_nil] at hpos
      simp only [Nat.cast_zero] at hpos
      omega
    · omega
  · rw [hstarted, List.mem_append, hf.mem_started, hmem]
    have hdown : f'.indegree dsl u ≤ f.indegree dsl u := by
      rw [hq.indegree]
      split <;> omega
    constructor
    · rintro ((he | ⟨hne,hle⟩) | ⟨hpos,hle⟩)
      · exact .inl he
      · exact .inr ⟨hne,hdown.trans hle⟩
      · refine .inr ⟨fun hnil => ?_,hle⟩
        rw [hf.indegree, hnil, List.length_nil] at hpos
        simp only [Nat.cast_zero] at hpos
        omega
    · rintro (he | ⟨hne,hle⟩)
      · exact .inl (.inl he)
      · by_cases hpos : 0 < f.indegree dsl u
        · exact .inr ⟨hpos,hle⟩
        · exact .inl (.inr ⟨hne,not_lt.mp hpos⟩)
  · intro u
    rw [hq.scheduled, hq.pending, hq.completedTasks]
    exact hf.scheduled u
  · intro u
    rw [hq.pending, hq.completedTasks]
    exact hf.disjoint u
  · intro u
    rw [hq.outcomes, hq.completedTasks]
    exact hf.outcomes u
  · intro e he
    rw [hargs, List.mem_append, List.mem_singleton, not_or] at he
    rw [hq.edges, if_neg, hf.unmarked e he.1]
    intro hm
    obtain ⟨hs,hst,-⟩ := mem_outEdges.mp hm
    exact he.2 (by cases t; simp_all)

theorem counted_init : Counted dsl (Flow.init dsl) := by
  have hin : ∀ u, (Flow.init dsl).indegree dsl u = (dsl.task u.ref).dependsOn.length := by
    intro u
    simp only [Flow.indegree, Flow.init]
    split <;> rfl
  have hstarted : (Flow.init dsl).started = (dsl.actions.filter
      (fun a => a.dependsOn.length = 0)).map fun a => (⟨a.ref,.root⟩ : Task) := by
    simp [Flow.started, Flow.init, Function.comp_def]
  refine ⟨List.nodup_nil,fun u => ?_,?_,fun u => ?_,?_,?_,?_,fun _ _ => rfl⟩
  · rw [hin]
    simp [Flow.args, Flow.init]
  · rw [hstarted]
    have hnd : ((dsl.actions.filter (fun a => a.dependsOn.length = 0)).map
        ActionStatement.ref).Nodup := h.nodup.sublist (List.filter_sublist.map _)
    have hinj := hnd.map (f := fun r => (⟨r,.root⟩ : Task)) fun _ _ hab => (Task.mk.inj hab).1
    rwa [List.map_map] at hinj
  · rw [hstarted, hin, List.mem_map]
    constructor
    · rintro ⟨a,ha,rfl⟩
      obtain ⟨ha,hz⟩ := List.mem_filter.mp ha
      refine .inl ⟨rfl,List.mem_map_of_mem ha,?_⟩
      rw [dsl.task_of_mem h.nodup ha]
      simpa using hz
    · rintro (⟨hroot,href,hnil⟩ | ⟨hne,hle⟩)
      · refine ⟨dsl.task u.ref,List.mem_filter.mpr ⟨(dsl.task_mem href).1,by simp [hnil]⟩,?_⟩
        rw [dsl.task_ref, ← hroot]
      · refine absurd (List.eq_nil_of_length_eq_zero ?_) hne
        omega
  · intro t
    simp [Flow.init]
  · intro t ht
    exact absurd ht (AList.notMem_empty t)
  · intro t
    simp [Flow.init]

end

theorem Counted.dequeue {f : Flow} (hf : Counted dsl f) {t : Task} {delay : ℚ}
    {queue : List (Task × ℚ)} (hq : f.queue = (t,delay) :: queue) (pc : Pc) :
    Counted dsl { f with
      queue := queue, pending := f.pending.insert t pc, scheduled := f.scheduled ++ [t] } := by
  have hstarted : f.scheduled ++ [t] ++ queue.map Prod.fst = f.started := by
    rw [Flow.started, hq, List.map_cons, List.append_assoc]
    rfl
  have hnew : t ∉ f.scheduled := by
    intro hm
    have hnd := hf.started_nodup
    rw [← hstarted, List.append_assoc] at hnd
    exact (List.nodup_append.mp hnd).2.2 t hm t (by simp) rfl
  refine ⟨hf.args_nodup,hf.indegree,?_,fun u => ?_,fun u => ?_,fun u hu => ?_,hf.outcomes,
    hf.unmarked⟩
  · rw [Flow.started]
    dsimp only
    rw [hstarted]
    exact hf.started_nodup
  · rw [Flow.started]
    dsimp only
    rw [hstarted]
    exact hf.mem_started u
  · rw [AList.mem_insert, List.mem_append, List.mem_singleton, hf.scheduled]
    tauto
  · rcases (AList.mem_insert _).mp hu with rfl | hu
    · exact fun hc => hnew ((hf.scheduled u).mpr (.inr hc))
    · exact hf.disjoint u hu

theorem Counted.await {f : Flow} (hf : Counted dsl f) {t : Task} (ht : t ∈ f.pending) (pc : Pc) :
    Counted dsl (f.await t pc) := by
  have hmem : ∀ u, u ∈ f.pending.insert t pc ↔ u ∈ f.pending := by
    intro u
    rw [AList.mem_insert]
    exact ⟨fun hu => hu.elim (fun he => he ▸ ht) id,.inr⟩
  refine ⟨hf.args_nodup,hf.indegree,hf.started_nodup,hf.mem_started,fun u => ?_,fun u hu => ?_,
    hf.outcomes,hf.unmarked⟩
  · rw [Flow.await]
    dsimp only
    rw [hmem]
    exact hf.scheduled u
  · exact hf.disjoint u ((hmem u).mp hu)

theorem Counted.complete {f : Flow} (hf : Counted dsl f) {t : Task} (ht : t ∈ f.pending)
    (outcome : Outcome) : Counted dsl (f.complete t outcome) := by
  refine ⟨hf.args_nodup,hf.indegree,hf.started_nodup,hf.mem_started,fun u => ?_,fun u hu => ?_,
    fun u => ?_,hf.unmarked⟩
  · simp only [Flow.complete, AList.mem_erase, Finset.mem_insert]
    rw [hf.scheduled]
    by_cases hut : u = t
    · subst hut
      simp [ht]
    · simp [hut]
  · simp only [Flow.complete, AList.mem_erase, Finset.mem_insert, not_or] at hu ⊢
    exact ⟨hu.1,hf.disjoint u hu.2⟩
  · simp only [Flow.complete, Finset.mem_insert, Function.update_apply]
    by_cases hut : u = t
    · simp [hut]
    · simp [hut, hf.outcomes]

end
end Allama

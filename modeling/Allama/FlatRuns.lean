import Allama.Denotation

/-! Runs of graphs without scatters and gathers compute the denotation, whatever the order of
their steps. -/
namespace Allama

/-- The activities decide every action in the way the oracle says, whatever they are sent. -/
structure Activities.Decides (A : Activities) (dsl : DSLInput) (o : OutcomeOracle) : Prop where
  runIf : ∀ t e c, (A.evaluateRunIf t e c).toOption = o.runIf t.ref
  returns : ∀ t, ExecReaches A (dsl.task t.ref) t .returned → o.succeeds t.ref = true
  raises : ∀ t exc, ExecReaches A (dsl.task t.ref) t (.raised exc) → o.succeeds t.ref = false

def Outcome.status : Outcome → Option ActionStatus
  | .success => some .executed
  | .skipped => some .skipped
  | .failed _ => some .failed
  | _ => none

section
variable (A : Activities) (dsl : DSLInput) (o : OutcomeOracle) (den : String → ActionStatus)

def ReadyIn (r : String) : Prop := (dsl.task r).Ready fun d => (den d.1).marker d.2

/-- What the status of an instance says about the denotation. -/
def Expected (t : Task) : Status → Prop
  | .idle | .pending (.created _) => True
  | .pending (.runIf _ result) => ReadyIn dsl den t.ref ∧ (dsl.task t.ref).runIf.isSome ∧
      result.toOption = o.runIf t.ref
  | .pending .sleeping => ReadyIn dsl den t.ref ∧ o.condition (dsl.task t.ref) = some true
  | .pending (.executing pc) => ReadyIn dsl den t.ref ∧ o.condition (dsl.task t.ref) = some true ∧
      ExecReaches A (dsl.task t.ref) t (.await pc)
  | .pending _ => False
  | .ended outcome => outcome.status = some (den t.ref)

end

section
variable {A : Activities} {dsl : DSLInput} {o : OutcomeOracle} {den : String → ActionStatus}
  {st : State} {t : Task}

section
variable (ho : A.Decides dsl o) (hden : den t.ref = o.status (dsl.task t.ref) fun d => (den d.1).marker d.2)
include ho hden

theorem expected_afterExecute (hready : ReadyIn dsl den t.ref) (hcond : o.condition (dsl.task t.ref) = some true)
    (c : Contexts) {e : ExecEnd} (he : ExecReaches A (dsl.task t.ref) t e) :
    Expected A dsl o den t (afterExecute dsl st t c e).2.status := by
  rw [status_of_ready hready, hcond, dsl.task_ref] at hden
  dsimp only at hden
  cases e with
  | await pc => exact ⟨hready,hcond,he⟩
  | returned =>
    rw [ho.returns t he] at hden
    exact congrArg some hden.symm
  | raised exc =>
    rw [ho.raises t exc he] at hden
    exact congrArg some hden.symm

theorem expected_dispatch (hs : ¬ dsl.IsScatter t.ref) (hg : ¬ dsl.IsGather t.ref)
    (hreg : (st.contexts.streams t.streamId).isSome) (hready : ReadyIn dsl den t.ref)
    (hcond : o.condition (dsl.task t.ref) = some true) :
    Expected A dsl o den t (dispatch A dsl st t (dsl.task t.ref)).2.status := by
  unfold dispatch
  split
  · exact absurd ‹_› hs
  · exact absurd ‹_› hg
  · exact expected_afterExecute ho hden hready hcond _ (.first hreg)

theorem expected_afterRunIf (hs : ¬ dsl.IsScatter t.ref) (hg : ¬ dsl.IsGather t.ref)
    (hreg : (st.contexts.streams t.streamId).isSome) (hready : ReadyIn dsl den t.ref)
    (hcond : o.condition (dsl.task t.ref) = some true) (delay : ℚ) :
    Expected A dsl o den t (afterRunIf A dsl st t (dsl.task t.ref) delay).2.status := by
  unfold afterRunIf
  split
  · exact ⟨hready,hcond⟩
  · exact expected_dispatch ho hden hs hg hreg hready hcond

end

theorem handleSkipPath_plain (hs : ¬ dsl.IsScatter t.ref) (hg : ¬ dsl.IsGather t.ref) :
    (handleSkipPath A dsl st t (dsl.task t.ref)).2 = .done .skipped := by
  unfold handleSkipPath
  split
  · exact absurd ‹_› hs
  · exact absurd ‹_› hg
  · rfl

theorem expected_begin (ho : A.Decides dsl o)
    (hden : den t.ref = o.status (dsl.task t.ref) fun d => (den d.1).marker d.2)
    (hs : ¬ dsl.IsScatter t.ref) (hg : ¬ dsl.IsGather t.ref)
    (hreg : (st.contexts.streams t.streamId).isSome)
    (hedges : ∀ d ∈ (dsl.task t.ref).deps,
      st.flow.edges (edgeByRefs d t.ref t.streamId) = (den d.1).marker d.2) (delay : ℚ) :
    Expected A dsl o den t (begin A dsl st t (dsl.task t.ref) delay).2.status := by
  have hskip : st.flow.skipShouldPropagate t (dsl.task t.ref) = true ↔
      (dsl.task t.ref).AllSkipped fun d => (den d.1).marker d.2 := by
    rw [skipShouldPropagate_iff]
    exact allSkipped_congr hedges
  have hreach : st.flow.isReachable t (dsl.task t.ref) = true ↔
      (dsl.task t.ref).JoinMet fun d => (den d.1).marker d.2 := by
    rw [isReachable_iff]
    exact joinMet_congr hedges
  unfold begin
  split
  · rename_i h
    rw [handleSkipPath_plain hs hg]
    rw [status_of_allSkipped (hskip.mp h)] at hden
    exact congrArg some hden.symm
  rename_i hns
  split
  · rename_i h
    rw [status_of_not_joinMet (fun h => hns (hskip.mpr h)) fun hj => by
      rw [hreach.mpr hj] at h; cases h] at hden
    exact congrArg some hden.symm
  rename_i hr
  have hready : ReadyIn dsl den t.ref :=
    ⟨fun h => hns (hskip.mpr h),hreach.mp (by simpa using hr)⟩
  split
  · rename_i runIf hrun
    exact ⟨hready,by rw [hrun]; rfl,ho.runIf t _ _⟩
  · rename_i hrun
    have hcond : o.condition (dsl.task t.ref) = some true := by
      rw [OutcomeOracle.condition, hrun]
      rfl
    exact expected_afterRunIf ho hden hs hg hreg hready hcond delay

theorem expected_block (ho : A.Decides dsl o)
    (hden : den t.ref = o.status (dsl.task t.ref) fun d => (den d.1).marker d.2)
    (hs : ¬ dsl.IsScatter t.ref) (hg : ¬ dsl.IsGather t.ref)
    (hreg : (st.contexts.streams t.streamId).isSome)
    (hedges : ∀ d ∈ (dsl.task t.ref).deps,
      st.flow.edges (edgeByRefs d t.ref t.streamId) = (den d.1).marker d.2)
    {pc : Pc} (hpc : Expected A dsl o den t (.pending pc)) :
    Expected A dsl o den t (block A dsl st t (dsl.task t.ref) pc).2.status := by
  cases pc with
  | created delay => exact expected_begin ho hden hs hg hreg hedges delay
  | runIf delay result =>
    obtain ⟨hready,hsome,hres⟩ := hpc
    have hcond : o.condition (dsl.task t.ref) = result.toOption := by
      rw [OutcomeOracle.condition, if_pos hsome, dsl.task_ref, hres]
    have hstatus := hden
    rw [status_of_ready hready, hcond] at hstatus
    cases result with
    | error exc => exact congrArg some hstatus.symm
    | ok b =>
      cases b with
      | false =>
        rw [block, handleSkipPath_plain hs hg]
        exact congrArg some hstatus.symm
      | true => exact expected_afterRunIf ho hden hs hg hreg hready hcond delay
  | sleeping => exact expected_dispatch ho hden hs hg hreg hpc.1 hpc.2
  | executing pc =>
    obtain ⟨hready,hcond,he⟩ := hpc
    exact expected_afterExecute ho hden hready hcond _ (.next he hreg)
  | _ => exact hpc.elim

theorem marked_edge (hwf : dsl.WellFormed) (hflat : ¬ dsl.hasScatter)
    (hfail : ∀ r ∈ dsl.refs, den r = .failed → dsl.hasErrorEdge r) (h : Core dsl st)
    (hexp : ∀ u, Expected A dsl o den u (st.flow.status u)) {r d : String} {type : EdgeType}
    {s : StreamID} (hd : (d,type) ∈ dsl.adj r) (harg : ⟨r,s⟩ ∈ st.flow.args) :
    st.flow.edges ⟨r,d,type,s⟩ = (den r).marker type ∧ ⟨r,s⟩ ∈ st.flow.completedTasks := by
  obtain ⟨⟨u,t⟩,hq,he⟩ := List.mem_map.mp harg
  dsimp only at he
  subst he
  obtain rfl : (⟨r,s⟩ : Task) = t := by
    rcases h.call_cases hq with ⟨he,-⟩ | ⟨hs,-⟩ | ⟨hg,-⟩
    · exact he
    · exact absurd hs (dsl.not_isScatter hflat _)
    · exact absurd hg (hwf.not_isGather hflat _)
  have hmark := h.marks _ _ hq d type hd
  have hcalls := h.mem_calls.mp hq
  have hst := hexp ⟨r,s⟩
  cases hstatus : st.flow.status ⟨r,s⟩ with
  | idle => rw [hstatus] at hcalls; cases hcalls
  | pending pc =>
    rw [hstatus] at hcalls hst
    cases pc <;> first | exact hst.elim | cases hcalls
  | ended outcome =>
    have hdone : (⟨r,s⟩ : Task) ∈ st.flow.completedTasks :=
      (h.counted.outcomes _).mp (by rw [Flow.outcomes_of_status hstatus]; rfl)
    refine ⟨?_,hdone⟩
    rw [hmark, hstatus]
    rw [hstatus] at hst
    have hden : outcome.status = some (den r) := hst
    cases outcome with
    | failed exc =>
      have hdr : den r = .failed := (Option.some.inj hden).symm
      have herr := hfail r (hwf.dep_mem ((mem_adj hwf).mp hd)).2 hdr
      simp only [Status.marker, herr, true_and, hdr, ActionStatus.marker]
    | success => rw [← Option.some.inj hden]; rfl
    | skipped => rw [← Option.some.inj hden]; rfl
    | _ => cases hden

variable {context : ExecutionContext} {ok : State → Choice → Prop}

theorem Run.expected (hwf : dsl.WellFormed) (hflat : ¬ dsl.hasScatter) (ho : A.Decides dsl o)
    (hden : ∀ r, den r = o.status (dsl.task r) fun d => (den d.1).marker d.2)
    (hfail : ∀ r ∈ dsl.refs, den r = .failed → dsl.hasErrorEdge r)
    (h : Run A dsl context ok st) (t : Task) : Expected A dsl o den t (st.flow.status t) := by
  refine Run.status_invariant (P := Expected A dsl o den) hwf h (fun _ => trivial)
    (fun _ _ => trivial) ?_ t
  intro st st' t pc st1 ending hcore _ hres hexp
  have hstart := hcore.started_of_pending hres.before
  have hreg : (st.contexts.streams t.streamId).isSome := by
    rw [hcore.registered.context]
    exact hcore.started t hstart
  have hedges : ∀ d ∈ (dsl.task t.ref).deps,
      st.flow.edges (edgeByRefs d t.ref t.streamId) = (den d.1).marker d.2 := by
    intro d hd
    have harg := hcore.counted.started_dep hwf hstart ⟨d,hd,rfl⟩
    exact (marked_edge hwf hflat hfail hcore hexp ((mem_adj hwf).mpr hd) harg).1
  have hblock := expected_block ho (hden t.ref) (dsl.not_isScatter hflat _)
    (hwf.not_isGather hflat _) hreg hedges (hres.before ▸ hexp t)
  rwa [hres.block] at hblock

theorem Run.clear (hwf : dsl.WellFormed) (hflat : ¬ dsl.hasScatter) (ho : A.Decides dsl o)
    (hden : ∀ r, den r = o.status (dsl.task r) fun d => (den d.1).marker d.2)
    (hfail : ∀ r ∈ dsl.refs, den r = .failed → dsl.hasErrorEdge r)
    (h : Run A dsl context ok st) : st.taskExceptions = ∅ := by
  refine h.invariant (P := fun st => st.taskExceptions = ∅) rfl ?_
  intro st choice st' hr hclear hok hs
  have hcore := Run.core hwf hr
  cases choice with
  | dequeue =>
    obtain ⟨t,delay,queue,hdeq⟩ := dequeue_cases hcore hs
    rw [hdeq.next]
    exact hclear
  | resume t =>
    have hexp := Run.expected hwf hflat ho hden hfail (hr.step hok hs) t
    obtain ⟨pc,st1,ending,hres⟩ := resume_cases hwf hcore hs
    have hst1 : st1.taskExceptions = ∅ := by
      rcases hres.cases.exceptions hres.before with he | ⟨hg,-⟩
      · rwa [he]
      · exact absurd hg (hwf.not_isGather hflat _)
    rw [hres.self] at hexp
    rw [hres.next]
    cases ending with
    | await pc' => exact hst1
    | done outcome => exact hst1
    | raised exc =>
      have hfailed : den t.ref = .failed := (Option.some.inj hexp).symm
      have hmem : t.ref ∈ dsl.refs :=
        hcore.counted.ref_mem (hcore.started_of_pending hres.before)
      rw [State.finish, handleErrorPath_error st1 exc (hfail _ hmem hfailed)]
      exact hst1

end

/-- The run goes by the denotation: nothing is scheduled twice or before its dependencies are
over, what is over has its status and its markers, and `start` goes on until all is over. -/
structure Denotes (A : Activities) (dsl : DSLInput) (den : String → ActionStatus) (st : State) :
    Prop where
  once : st.flow.scheduled.Nodup
  actions : ∀ t ∈ st.flow.scheduled, t.streamId = .root ∧ t.ref ∈ dsl.refs
  waited : ∀ t ∈ st.flow.scheduled, ∀ d, dsl.Dep d t.ref → ⟨d,.root⟩ ∈ st.flow.completedTasks
  outcomes : ∀ r outcome, st.flow.outcomes ⟨r,.root⟩ = some outcome →
    outcome.status = some (den r)
  edges : ∀ r d type, (d,type) ∈ dsl.adj r → ⟨r,.root⟩ ∈ st.flow.completedTasks →
    st.flow.edges ⟨r,d,type,.root⟩ = (den r).marker type
  goesOn : startResult st = none → ∃ choice, (step A dsl st choice).isSome
  final : ∀ result, startResult st = some result → result = none ∧
    ∀ r ∈ dsl.refs, ⟨r,.root⟩ ∈ st.flow.scheduled ∧ ⟨r,.root⟩ ∈ st.flow.completedTasks

section
variable {A : Activities} {dsl : DSLInput} {st : State}

theorem step_of_running (h : startResult st = none) : ∃ choice, (step A dsl st choice).isSome := by
  unfold startResult at h
  split at h
  · rename_i hclear
    by_cases hq : st.flow.queue = []
    · have hp : st.flow.pending.keys ≠ [] := by
        intro hp
        rw [if_pos ⟨hq,hp⟩] at h
        cases h
      obtain ⟨t,ht⟩ := List.exists_mem_of_ne_nil _ hp
      refine ⟨.resume t,?_⟩
      rw [step, Option.isSome_map]
      exact AList.lookup_isSome.mpr ht
    · obtain ⟨⟨t,delay⟩,queue,hcons⟩ := List.exists_cons_of_ne_nil hq
      refine ⟨.dequeue,?_⟩
      rw [step, dequeue, hcons]
      dsimp only
      rw [if_pos hclear]
      rfl
  · cases h

theorem quiescent_of_none (h : startResult st = some none) :
    st.taskExceptions.keys = [] ∧ st.flow.queue = [] ∧ st.flow.pending.keys = [] := by
  unfold startResult at h
  split at h
  · rename_i hclear
    split at h
    · exact ⟨hclear,‹_›⟩
    · cases h
  · cases h

theorem Counted.completed_of_started {f : Flow} (hf : Counted dsl f) (hq : f.queue = [])
    (hp : f.pending.keys = []) {u : Task} (hu : u ∈ f.started) : u ∈ f.completedTasks := by
  rw [Flow.started, hq, List.map_nil, List.append_nil] at hu
  rcases (hf.scheduled u).mp hu with hpend | hdone
  · have hmem : u ∈ f.pending.keys := hpend
    rw [hp] at hmem
    cases hmem
  · exact hdone

/-- For distinct dependencies the scheduler computes the denotation of an acyclic graph without
scatters and gathers. -/
theorem runs_denote {o : OutcomeOracle} {context : ExecutionContext} (hacc : dsl.Accepted)
    (hflat : ∀ a ∈ dsl.actions, a.action ≠ .transformScatter) (hdag : WellFounded dsl.Dep)
    (hdist : ∀ a ∈ dsl.actions, a.deps.Nodup) (ho : A.Decides dsl o)
    (hfail : ∀ r ∈ dsl.refs, denote o dsl hdag r = .failed → dsl.hasErrorEdge r)
    (h : Run A dsl context (fun _ _ => True) st) : Denotes A dsl (denote o dsl hdag) st := by
  have hwf := wellFormed_of_accepted hacc
  have hns : ¬ dsl.hasScatter := by
    rintro ⟨a,ha,hsc⟩
    exact hflat a ha hsc
  have hden := fun r => @denote_eq o dsl hdag r
  have hcore := h.core hwf
  have hexp := Run.expected hwf hns ho hden hfail h
  have hroot : ∀ u ∈ st.flow.started, u.streamId = .root := fun u hu => hcore.flat hns u hu
  have hsched : ∀ u ∈ st.flow.scheduled, u ∈ st.flow.started :=
    fun u hu => List.mem_append_left _ hu
  have hdone : ∀ r outcome, st.flow.outcomes ⟨r,.root⟩ = some outcome →
      outcome.status = some (denote o dsl hdag r) := by
    intro r outcome hout
    have hst := hexp ⟨r,.root⟩
    rw [Flow.status_of_outcome hcore.counted hout] at hst
    exact hst
  -- what is over has passed on its own instance
  have hpassed : ∀ r, ⟨r,.root⟩ ∈ st.flow.completedTasks → r ∈ dsl.refs →
      ⟨r,.root⟩ ∈ st.flow.args := by
    intro r hc hr
    obtain ⟨outcome,hout⟩ := Option.isSome_iff_exists.mp ((hcore.counted.outcomes _).mpr hc)
    have hst := Flow.status_of_outcome hcore.counted hout
    have hstatus := hdone r outcome hout
    have hcall : (⟨r,.root⟩ : Task) ∈ (Status.ended outcome).calls dsl ⟨r,.root⟩
        (st.taskStreams ⟨r,.root⟩) := by
      cases outcome with
      | success => exact List.mem_singleton_self _
      | skipped =>
        rw [Status.calls, if_neg (dsl.not_isScatter hns _)]
        exact List.mem_singleton_self _
      | failed exc =>
        have herr := hfail r hr (Option.some.inj hstatus).symm
        rw [Status.calls, if_neg fun hno => hno.2 herr]
        exact List.mem_singleton_self _
      | _ => cases hstatus
    rw [← hst, ← hcore.mem_calls] at hcall
    exact List.mem_map_of_mem hcall
  refine ⟨(List.nodup_append.mp hcore.counted.started_nodup).1,fun t ht => ?_,fun t ht d hd => ?_,
    hdone,fun r d type hd hc => ?_,step_of_running,fun result hres => ?_⟩
  · exact ⟨hroot t (hsched t ht),hcore.counted.ref_mem (hsched t ht)⟩
  · obtain ⟨dep,hdep,rfl⟩ := hd
    have harg := hcore.counted.started_dep hwf (hsched t ht) ⟨dep,hdep,rfl⟩
    have hmark := marked_edge hwf hns hfail hcore hexp ((mem_adj hwf).mpr hdep) harg
    rw [← hroot t (hsched t ht)]
    exact hmark.2
  · have hr : r ∈ dsl.refs := (hwf.dep_mem ((mem_adj hwf).mp hd)).2
    exact (marked_edge hwf hns hfail hcore hexp hd (hpassed r hc hr)).1
  · have hclear := Run.clear hwf hns ho hden hfail h
    have hnone : startResult st = some none := by
      rw [startResult, hclear] at hres ⊢
      rw [if_pos AList.keys_empty] at hres ⊢
      split at hres
      · rw [if_pos ‹_›]
      · cases hres
    obtain ⟨-,hq,hp⟩ := quiescent_of_none hnone
    refine ⟨Option.some.inj (hres.symm.trans hnone),?_⟩
    -- by induction on the dependencies, every action is started
    have hstarted : ∀ r ∈ dsl.refs, ⟨r,.root⟩ ∈ st.flow.started := by
      intro r
      induction r using hdag.induction with
      | _ r ih =>
        intro hr
        by_cases hnil : (dsl.task r).deps = []
        · refine (hcore.counted.mem_started _).mpr (.inl ⟨rfl,hr,?_⟩)
          have hlen := hwf.deps_length r
          rw [hnil] at hlen
          exact List.eq_nil_of_length_eq_zero hlen.symm
        · refine hcore.counted.started_of_deps hwf (hdist _ (dsl.task_mem hr).1) hnil fun d hd => ?_
          have hmem : d ∈ dsl.refs := by
            obtain ⟨dep,hdep,rfl⟩ := hd
            exact (hwf.dep_mem hdep).2
          exact hpassed d (hcore.counted.completed_of_started hq hp (ih d hd hmem)) hmem
    intro r hr
    have hst := hstarted r hr
    refine ⟨?_,hcore.counted.completed_of_started hq hp hst⟩
    rwa [Flow.started, hq, List.map_nil, List.append_nil] at hst

end

/-- The oracle under which `a` fails and `h` succeeds. -/
def oneFailureOutcomes : OutcomeOracle where
  succeeds := fun r => r ≠ "a"
  runIf := fun _ => some true

theorem oneFailure_decides (dsl : DSLInput) :
    oneFailure.activities.Decides dsl oneFailureOutcomes := by
  refine ⟨fun _ _ _ => rfl,fun t h => ?_,fun t exc h => ?_⟩
  · obtain ⟨v,hv⟩ := Oracle.allows_of_reaches h
    by_contra hne
    have ht : t.ref = "a" := by simpa [oneFailureOutcomes] using hne
    simp only [oneFailure, if_pos ht] at hv
    cases hv
  · have hv : oneFailure.action t = .error exc := Oracle.allows_of_reaches h
    by_contra hne
    have ht : t.ref ≠ "a" := by simpa [oneFailureOutcomes] using hne
    simp only [oneFailure, if_neg ht] at hv
    cases hv

theorem failingDSL_accepted : (failingDSL "a.error").Accepted := by decide

theorem failingDSL_dag : WellFounded (failingDSL "a.error").Dep :=
  (wellFormed_of_accepted failingDSL_accepted).dep_wellFounded_of_rank
    (fun r => if r = "a" then 0 else 1) (by decide)

theorem runs_denote_failing : ∃ st,
    startResult st = some none ∧ Denotes oneFailure.activities (failingDSL "a.error")
      (denote oneFailureOutcomes (failingDSL "a.error") failingDSL_dag) st := by
  have hrun : (Runs.follow (step oneFailure.activities (failingDSL "a.error"))
      (State.init (failingDSL "a.error") .empty)
      [.dequeue,.resume ⟨"a",.root⟩,.resume ⟨"a",.root⟩,.dequeue,.resume ⟨"h",.root⟩,
        .resume ⟨"h",.root⟩]).map (fun st => (startResult st).map Option.isSome) =
          some (some false) := by decide
  obtain ⟨st,hst,hobs⟩ := Runs.reachable_of_observed hrun
  have hnone : startResult st = some none := by
    obtain ⟨result,hres,hr⟩ := Option.map_eq_some_iff.mp hobs
    cases result with
    | none => exact hres
    | some exs => cases hr
  have ha : denote oneFailureOutcomes (failingDSL "a.error") failingDSL_dag "a" = .failed := by
    rw [denote_eq, @status_congr _ _ _ (fun _ => .skipped) (by decide)]
    decide
  have hh : denote oneFailureOutcomes (failingDSL "a.error") failingDSL_dag "h" = .executed := by
    rw [denote_eq, @status_congr _ _ _ fun _ => .visited]
    · decide
    · intro d hd
      obtain rfl : d = ("a",.error) := by
        have hdeps : ((failingDSL "a.error").task "h").deps = [("a",.error)] := by decide
        rw [hdeps] at hd
        exact List.mem_singleton.mp hd
      rw [ha]
      rfl
  refine ⟨st,hnone,runs_denote failingDSL_accepted (by decide) failingDSL_dag
    (by decide) (oneFailure_decides _) ?_ hst⟩
  intro r hr hfailed
  have hcases : r = "a" ∨ r = "h" := by simpa [DSLInput.refs, failingDSL] using hr
  rcases hcases with rfl | rfl
  · decide
  · rw [hh] at hfailed
    cases hfailed

end Allama

import Allama.EdgeMarking
import Allama.FlatRuns

/-! In which order the instances of a run are taken, and how many streams of a scatter are open. -/
namespace Allama
open Function
section
variable {A : Activities} {dsl : DSLInput} {st st' st1 : State} {context : ExecutionContext}
  {ok : State → Choice → Prop} {t u : Task} {pc : Pc} {ending : BlockEnd}

/-- The instance is over, opened its stream as a scatter, or came back to it from a stream below as a gather. -/
def HandedOver (dsl : DSLInput) (st : State) (u : Task) : Prop :=
  u ∈ st.flow.completedTasks ∨ (dsl.IsScatter u.ref ∧ ∃ p i, u.streamId = .child p u.ref i) ∨
    (dsl.IsGather u.ref ∧ ∃ x i, ⟨u.ref,.child u.streamId x i⟩ ∈ st.flow.completedTasks)

theorem Core.completed_of_ended (h : Core dsl st) {outcome : Outcome} (ht : st.flow.status t = .ended outcome) :
    t ∈ st.flow.completedTasks := by
  rw [← h.counted.outcomes, Flow.outcomes_of_status ht]
  rfl

theorem Core.handedOver (h : Core dsl st) (hu : u ∈ st.flow.args) : HandedOver dsl st u := by
  obtain ⟨⟨u,t⟩,hq,rfl⟩ := List.mem_map.mp hu
  rcases h.call_cases hq with ⟨rfl,hcalls⟩ | ⟨hs,i,rfl⟩ | ⟨hg,hst,p,x,i,ht,rfl⟩
  · -- an instance that is not over passes streams below its own on
    cases hst : st.flow.status u with
    | idle =>
      rw [hst] at hcalls
      cases hcalls
    | ended outcome => exact .inl (h.completed_of_ended hst)
    | pending pc =>
      rw [hst] at hcalls
      by_cases hns : pc.NotScattering
      · rw [hns.calls] at hcalls
        cases hcalls
      · cases pc <;> first | exact absurd trivial hns | skip
        have hmem : u ∈ (st.taskStreams u).map fun s => (⟨u.ref,s⟩ : Task) := by
          rw [show (st.taskStreams u).map _ = [u] from hcalls]
          exact List.mem_singleton_self u
        rw [(h.fits u _ hst).2.2.2, List.map_map] at hmem
        obtain ⟨k,-,he⟩ := List.mem_map.mp hmem
        exact absurd (congrArg Task.streamId he) (child_ne_self _ _ _)
  · exact .inr (.inl ⟨hs,_,_,rfl⟩)
  · refine .inr (.inr ⟨hg,x,i,?_⟩)
    rw [← ht]
    exact h.completed_of_ended hst

/-- In every run an instance is taken once, after all that it depends on is handed over in its stream, and when `start`
returns `None`, none is left whose dependencies, listed once each, have all been passed on. -/
theorem taken_in_order (hacc : dsl.Accepted) (h : Run A dsl context ok st) :
    st.flow.started.Nodup ∧ (∀ t ∈ st.flow.pending, t ∉ st.flow.completedTasks) ∧
    (∀ u ∈ st.flow.started, ∀ d, dsl.Dep d u.ref → HandedOver dsl st ⟨d,u.streamId⟩) ∧
    (startResult st = some none → ∀ u, (dsl.task u.ref).deps.Nodup → (u ∈ st.flow.completedTasks ↔
      dsl.IsEntry u ∨ (dsl.task u.ref).deps ≠ [] ∧ ∀ d, dsl.Dep d u.ref → ⟨d,u.streamId⟩ ∈ st.flow.args)) := by
  have hwf := wellFormed_of_accepted hacc
  have hcore := Run.core hwf h
  have hcounted := hcore.counted
  refine ⟨hcounted.started_nodup,hcounted.disjoint,?_,?_⟩
  · intro u hu d hd
    exact hcore.handedOver (hcounted.started_dep hwf hu hd)
  · intro hnone u hdist
    obtain ⟨-,hqueue,hpending⟩ := quiescent_of_none hnone
    constructor
    · intro hu
      have hstarted : u ∈ st.flow.started := List.mem_append_left _ ((hcounted.scheduled u).mpr (.inr hu))
      rcases (hcounted.mem_started u).mp hstarted with hentry | ⟨hne,-⟩
      · exact .inl hentry
      · refine .inr ⟨?_,fun d hd => hcounted.started_dep hwf hstarted hd⟩
        intro hnil
        have hlen := hwf.deps_length u.ref
        rw [hnil] at hlen
        exact hne (List.eq_nil_of_length_eq_zero hlen.symm)
    · intro hready
      apply hcounted.completed_of_started hqueue hpending
      rcases hready with hentry | ⟨hne,hall⟩
      · exact (hcounted.mem_started u).mpr (.inl hentry)
      · exact hcounted.started_of_deps hwf hdist hne hall

/-! The count of the open streams. -/

/-- The instance of which `s` is a stream. -/
def StreamID.opener : StreamID → Option Task
  | .root => none
  | .child p x _ => some ⟨x,p⟩

/-- How many streams of the instance were closed. -/
def State.closings (st : State) (y : Task) : ℕ := st.closed.countP fun c => c.1.streamId.opener = some y

def Status.HasRun : Status → Prop
  | .pending (.gatherFinalize _ _) | .pending (.gatherNoop _) | .ended _ => True
  | _ => False

/-- What the scatters count with is the same. -/
structure SameBooks (st st' : State) : Prop where
  closed : st'.closed = st.closed
  openStreams : st'.openStreams = st.openStreams
  taskStreams : st'.taskStreams = st.taskStreams

theorem SameBooks.symm (h : SameBooks st st') : SameBooks st' st :=
  ⟨h.closed.symm,h.openStreams.symm,h.taskStreams.symm⟩

theorem SameBooks.trans (h : SameBooks st st') (h' : SameBooks st' st1) : SameBooks st st1 :=
  ⟨h'.closed.trans h.closed,h'.openStreams.trans h.openStreams,h'.taskStreams.trans h.taskStreams⟩

/-- The counters agree with the streams that were closed, each by the instances of gathers in it, once by each. -/
structure Tallied (st : State) : Prop where
  observed : ∀ c ∈ st.closed, ∃ y k, c.1.streamId = .child y.streamId y.ref (.item k) ∧ (st.openStreams y).isSome
  hasRun : ∀ c ∈ st.closed, (st.flow.status c.1).HasRun
  nodup : (st.closed.map Prod.fst).Nodup
  streams : ∀ y, ∀ s ∈ st.taskStreams y, s.opener = some y
  count : ∀ y n, st.openStreams y = some n → n = (st.taskStreams y).length-(st.closings y : ℤ)

theorem sameBooks_finish (dsl : DSLInput) (st : State) (t : Task) (ending : BlockEnd) : SameBooks st (st.finish dsl t ending) := by
  cases ending with
  | await pc => exact ⟨rfl,rfl,rfl⟩
  | done outcome => exact ⟨rfl,rfl,rfl⟩
  | raised exc =>
    unfold State.finish handleErrorPath
    dsimp only
    split
    · exact ⟨rfl,rfl,rfl⟩
    · split <;> exact ⟨rfl,rfl,rfl⟩

theorem Resumes.hasRun (hcore : Core dsl st) (hres : Resumes A dsl st st' t pc st1 ending)
    (hpc : (Status.pending pc).HasRun) : SameBooks st st1 ∧ ending.status.HasRun := by
  have hgather : dsl.IsGather t.ref := by
    have hfits := hcore.fits t pc hres.before
    cases pc <;> first | exact hfits.1 | exact hpc.elim
  cases hres.cases with
  | closes harr => cases pc <;> first | exact harr.elim | exact hpc.elim
  | waits hearly => cases pc <;> first | exact hearly.elim | exact hpc.elim
  | skipsScatter hearly => cases pc <;> first | exact hearly.elim | exact hpc.elim
  | executes hs hg => exact absurd hgather hg
  | empties => exact hpc.elim
  | opensFirst => exact hpc.elim
  | opensNext => exact hpc.elim
  | scatters => exact hpc.elim
  | _ => exact ⟨⟨rfl,rfl,rfl⟩,trivial⟩

theorem Tallied.same (h : Tallied st) (hb : SameBooks st st')
    (hrun : ∀ c ∈ st.closed, (st'.flow.status c.1).HasRun) : Tallied st' := by
  refine ⟨?_,?_,?_,?_,?_⟩
  · rw [hb.closed, hb.openStreams]
    exact h.observed
  · rw [hb.closed]
    exact hrun
  · rw [hb.closed]
    exact h.nodup
  · rw [hb.taskStreams]
    exact h.streams
  · intro y n hn
    rw [hb.openStreams] at hn
    rw [hb.taskStreams, State.closings, hb.closed]
    exact h.count y n hn

theorem Tallied.closings_eq_zero (h : Tallied st) {y : Task} (hy : st.openStreams y = none) : st.closings y = 0 := by
  refine List.countP_eq_zero.mpr fun c hc => ?_
  obtain ⟨z,k,hz,hsome⟩ := h.observed c hc
  rw [decide_eq_true_eq, hz, StreamID.opener, Option.some.injEq]
  rintro rfl
  rw [hy] at hsome
  cases hsome

theorem Tallied.scatter (h : Tallied st) (ht : st.openStreams t = none) {v : Option ℤ}
    (hclosed : st'.closed = st.closed) (hopen : st'.openStreams = update st.openStreams t v)
    (hstreams : ∀ y, y ≠ t → st'.taskStreams y = st.taskStreams y)
    (hopened : ∀ s ∈ st'.taskStreams t, s ∈ st.taskStreams t ∨ s.opener = some t)
    (hcounter : ∀ n, v = some n → n = (st'.taskStreams t).length)
    (hrun : ∀ c ∈ st.closed, (st'.flow.status c.1).HasRun) : Tallied st' := by
  have hclosings : ∀ y, st'.closings y = st.closings y := fun y => by rw [State.closings, hclosed]; rfl
  refine ⟨?_,by rwa [hclosed],by rw [hclosed]; exact h.nodup,?_,?_⟩
  · intro c hc
    rw [hclosed] at hc
    obtain ⟨y,k,hy,hsome⟩ := h.observed c hc
    have hne : y ≠ t := by
      rintro rfl
      rw [ht] at hsome
      cases hsome
    refine ⟨y,k,hy,?_⟩
    rwa [hopen, update_of_ne hne]
  · intro y s hs
    by_cases hy : y = t
    · subst hy
      rcases hopened s hs with hold | hnew
      · exact h.streams y s hold
      · exact hnew
    · rw [hstreams y hy] at hs
      exact h.streams y s hs
  · intro y n hn
    rw [hclosings]
    by_cases hy : y = t
    · subst hy
      rw [hopen, update_self] at hn
      rw [h.closings_eq_zero ht, hcounter n hn, Nat.cast_zero, sub_zero]
    · rw [hopen, update_of_ne hy] at hn
      rw [hstreams y hy]
      exact h.count y n hn

theorem Tallied.opens (h : Tallied st) (ht : st.openStreams t = none) (hclosed : st'.closed = st.closed)
    (hopen : st'.openStreams = st.openStreams) {l : List StreamID}
    (hstreams : st'.taskStreams = update st.taskStreams t l)
    (hl : ∀ s ∈ l, s ∈ st.taskStreams t ∨ s.opener = some t)
    (hrun : ∀ c ∈ st.closed, (st'.flow.status c.1).HasRun) : Tallied st' := by
  refine h.scatter ht (v := none) hclosed ?_ ?_ ?_ ?_ hrun
  · rw [hopen, ← ht, update_eq_self]
  · intro y hy
    rw [hstreams, update_of_ne hy]
  · rwa [hstreams, update_self]
  · intro n hn
    cases hn

/-- The instance closes a stream of its scatter, and none before. -/
theorem Tallied.closes (h : Tallied st) {x : String} {p : StreamID} {i : ℕ} {n : ℤ} {o : StreamOutcome}
    (ht : t.streamId = .child p x (.item i)) (hn : st.openStreams ⟨x,p⟩ = some n)
    (hclosed : st'.closed = st.closed ++ [(t,o)])
    (hopen : st'.openStreams = update st.openStreams ⟨x,p⟩ (some (n-1)))
    (hstreams : st'.taskStreams = st.taskStreams) (hfresh : ∀ c ∈ st.closed, c.1 ≠ t)
    (hrun : ∀ c ∈ st.closed, (st'.flow.status c.1).HasRun) (hself : (st'.flow.status t).HasRun) : Tallied st' := by
  have hopener : t.streamId.opener = some ⟨x,p⟩ := by
    rw [ht]
    rfl
  have hkept : ∀ y, (st.openStreams y).isSome → (st'.openStreams y).isSome := by
    intro y hy
    rw [hopen, update_apply]
    split
    · rfl
    · exact hy
  have hmem : ∀ d ∈ st'.closed, d ∈ st.closed ∨ d = (t,o) := by
    intro d hd
    rw [hclosed] at hd
    exact (List.mem_append.mp hd).imp_right List.mem_singleton.mp
  refine ⟨?_,?_,?_,by rw [hstreams]; exact h.streams,?_⟩
  · intro d hd
    rcases hmem d hd with hd | rfl
    · obtain ⟨y,k,hy,hsome⟩ := h.observed d hd
      exact ⟨y,k,hy,hkept y hsome⟩
    · exact ⟨⟨x,p⟩,i,ht,hkept _ (by rw [hn]; rfl)⟩
  · intro d hd
    rcases hmem d hd with hd | rfl
    · exact hrun d hd
    · exact hself
  · rw [hclosed, List.map_append, List.map_singleton, List.nodup_append]
    refine ⟨h.nodup,List.nodup_singleton _,?_⟩
    intro a ha b hb
    obtain ⟨d,hd,rfl⟩ := List.mem_map.mp ha
    rw [List.mem_singleton.mp hb]
    exact hfresh d hd
  · intro y m hm
    rw [hstreams, State.closings, hclosed, List.countP_append, List.countP_singleton]
    by_cases hy : y = ⟨x,p⟩
    · subst hy
      rw [hopen, update_self] at hm
      cases hm
      have hcount := h.count _ n hn
      rw [State.closings] at hcount
      rw [if_pos (decide_eq_true hopener)]
      push_cast
      omega
    · rw [hopen, update_of_ne hy] at hm
      have hother : ¬ t.streamId.opener = some y := fun he => hy (Option.some.inj (he.symm.trans hopener))
      rw [if_neg (by rw [decide_eq_false hother]; exact Bool.false_ne_true), Nat.add_zero]
      exact h.count y m hm

theorem tallied_resume (hcore : Core dsl st) (h : Tallied st) (hres : Resumes A dsl st st' t pc st1 ending) :
    Tallied st' := by
  have hfinish := sameBooks_finish dsl st1 t ending
  rw [← hres.next] at hfinish
  by_cases hpc : (Status.pending pc).HasRun
  · obtain ⟨hbooks,hend⟩ := hres.hasRun hcore hpc
    refine h.same (hbooks.trans hfinish) ?_
    intro c hc
    by_cases hct : c.1 = t
    · rw [hct, hres.self]
      exact hend
    · rw [hres.others _ hct]
      exact h.hasRun c hc
  -- the instance has closed nothing so far
  have hfresh : ∀ c ∈ st.closed, c.1 ≠ t := by
    rintro c hc rfl
    have hrun := h.hasRun c hc
    rw [hres.before] at hrun
    exact hpc hrun
  have hrun : ∀ c ∈ st.closed, (st'.flow.status c.1).HasRun := by
    intro c hc
    rw [hres.others _ (hfresh c hc)]
    exact h.hasRun c hc
  have hnone := hcore.uncounted hres.before
  have hsame : SameBooks st st1 → Tallied st' := fun hb => h.same (hb.trans hfinish) hrun
  cases hres.cases with
  | empties hs =>
    have hstreams : st'.taskStreams = update st.taskStreams t [] := hfinish.taskStreams
    refine h.scatter hnone (v := some 0) hfinish.closed hfinish.openStreams ?_ ?_ ?_ hrun
    · intro y hy
      rw [hstreams, update_of_ne hy]
    · rw [hstreams, update_self]
      intro s hs
      cases hs
    · rintro n ⟨⟩
      rw [hstreams, update_self]
      rfl
  | opensFirst hs args hlen =>
    refine h.opens hnone hfinish.closed hfinish.openStreams (l := [.child t.streamId t.ref (.item 0)]) ?_ ?_ hrun
    · rw [hfinish.taskStreams]
      simp only [openExecutionStream, update_self, update_idem, List.nil_append]
      rfl
    · intro s hs
      rw [List.mem_singleton.mp hs]
      exact .inr rfl
  | opensNext hs args hlen =>
    refine h.opens hnone hfinish.closed hfinish.openStreams hfinish.taskStreams ?_ hrun
    intro s hs
    rcases List.mem_append.mp hs with hs | hs
    · exact .inl hs
    · rw [List.mem_singleton.mp hs]
      exact .inr rfl
  | scatters hs hlen =>
    refine h.scatter hnone hfinish.closed hfinish.openStreams ?_ ?_ ?_ hrun
    · intro y hy
      rw [hfinish.taskStreams]
    · rw [hfinish.taskStreams]
      exact fun s hs => .inl hs
    · rintro n ⟨⟩
      rw [hfinish.taskStreams]
  | closes harr hg ht o hn hc hend hstores =>
    refine h.closes ht hn hfinish.closed hfinish.openStreams hfinish.taskStreams hfresh hrun ?_
    rw [hres.self]
    cases ending with
    | await pc' => cases pc' <;> trivial
    | done outcome => trivial
    | raised exc => trivial
  | _ => exact hsame ⟨rfl,rfl,rfl⟩

theorem tallied_of_run (hwf : dsl.WellFormed) (h : Run A dsl context ok st) : Tallied st := by
  refine h.invariant (P := Tallied) ⟨nofun,nofun,List.nodup_nil,nofun,nofun⟩ ?_
  intro st choice st' hr htallied _ hs
  have hcore := Run.core hwf hr
  cases choice with
  | dequeue =>
    obtain ⟨t,delay,queue,hdeq⟩ := dequeue_cases hcore hs
    refine htallied.same ?_ ?_
    · rw [hdeq.next]
      exact ⟨rfl,rfl,rfl⟩
    · intro c hc
      have hrun := htallied.hasRun c hc
      have hct : c.1 ≠ t := by
        rintro rfl
        rw [hdeq.idle] at hrun
        exact hrun
      rwa [hdeq.others _ hct]
  | resume t =>
    obtain ⟨pc,st1,ending,hres⟩ := resume_cases hwf hcore hs
    exact tallied_resume hcore htallied hres

def State.closedStreams (st : State) (y : Task) : List StreamID :=
  ((st.closed.map Prod.fst).filter fun t => t.streamId.opener = some y).map Task.streamId

theorem length_closedStreams (st : State) (y : Task) : (st.closedStreams y).length = st.closings y := by
  rw [State.closedStreams, List.length_map, ← List.countP_eq_length_filter, List.countP_map]
  rfl

theorem mem_closedStreams {y : Task} {s : StreamID} (hs : s.opener = some y) :
    s ∈ st.closedStreams y ↔ ∃ c ∈ st.closed, c.1.streamId = s := by
  simp only [State.closedStreams, List.mem_map, List.mem_filter, decide_eq_true_eq]
  constructor
  · rintro ⟨t,⟨⟨c,hc,rfl⟩,-⟩,rfl⟩
    exact ⟨c,hc,rfl⟩
  · rintro ⟨c,hc,rfl⟩
    exact ⟨c.1,⟨⟨c,hc,rfl⟩,hs⟩,rfl⟩

theorem Tallied.mem_taskStreams (h : Tallied st) (hcore : Core dsl st) {c : Task × StreamOutcome} (hc : c ∈ st.closed)
    {y : Task} (hy : c.1.streamId.opener = some y) :
    st.flow.status y = .ended .scattered ∧ c.1.streamId ∈ st.taskStreams y := by
  obtain ⟨z,k,hz,hsome⟩ := h.observed c hc
  rw [hz, StreamID.opener, Option.some.injEq] at hy
  subst hy
  have hstarted : c.1 ∈ st.flow.started := by
    refine List.mem_append_left _ (hcore.counted.scheduled_of_status fun hidle => ?_)
    have hrun := h.hasRun c hc
    rw [hidle] at hrun
    exact hrun
  have hopened := hcore.mem_calls.mp (hcore.stream_opened hstarted hz)
  obtain ⟨n,hn⟩ := Option.isSome_iff_exists.mp hsome
  rcases hcore.observed z n hn with hst | hst <;> rw [hst] at hopened
  · obtain ⟨s,hs,he⟩ := List.mem_map.mp hopened
    refine ⟨hst,?_⟩
    rw [hz, ← (Task.mk.inj he).2]
    exact hs
  · have he := List.mem_singleton.mp hopened
    simp at he

/-- Where the streams of a scatter are closed by one gather, its counter is zero once all are. -/
theorem Tallied.zero_iff (h : Tallied st) (hcore : Core dsl st) {y : Task} {n : ℤ}
    (hn : st.openStreams y = some n) (hone : ∀ c ∈ st.closed, ∀ c' ∈ st.closed,
      c.1.streamId.opener = some y → c'.1.streamId.opener = some y → c.1.ref = c'.1.ref) :
    0 ≤ n ∧ (n = 0 ↔ ∀ s ∈ st.taskStreams y, ∃ c ∈ st.closed, c.1.streamId = s) := by
  have hcount := h.count y n hn
  rw [← length_closedStreams] at hcount
  have hmem : ∀ t ∈ (st.closed.map Prod.fst).filter fun t => t.streamId.opener = some y,
      ∃ c ∈ st.closed, c.1 = t ∧ t.streamId.opener = some y := by
    intro t ht
    obtain ⟨hm,hy⟩ := List.mem_filter.mp ht
    obtain ⟨c,hc,rfl⟩ := List.mem_map.mp hm
    exact ⟨c,hc,rfl,of_decide_eq_true hy⟩
  have hsub : st.closedStreams y ⊆ st.taskStreams y := by
    intro s hs
    obtain ⟨t,ht,rfl⟩ := List.mem_map.mp hs
    obtain ⟨c,hc,rfl,hy⟩ := hmem t ht
    exact (h.mem_taskStreams hcore hc hy).2
  have hnodup : (st.closedStreams y).Nodup := by
    refine List.Nodup.map_on ?_ (h.nodup.filter _)
    intro t ht u hu he
    obtain ⟨c,hc,rfl,hy⟩ := hmem t ht
    obtain ⟨d,hd,rfl,hy'⟩ := hmem u hu
    exact Task.mk.injEq .. ▸ ⟨hone c hc d hd hy hy',he⟩
  have hsubperm := hnodup.subperm hsub
  have hle := hsubperm.length_le
  refine ⟨by omega,?_⟩
  constructor
  · intro hz s hs
    have hperm := hsubperm.perm_of_length_le (by omega)
    have hs := hperm.symm.subset hs
    obtain ⟨t,ht,rfl⟩ := List.mem_map.mp hs
    obtain ⟨c,hc,rfl,-⟩ := hmem t ht
    exact ⟨c,hc,rfl⟩
  · intro hall
    -- every stream was closed
    have hback : st.taskStreams y ⊆ st.closedStreams y :=
      fun s hs => (mem_closedStreams (h.streams y s hs)).mpr (hall s hs)
    have hdistinct : (st.taskStreams y).Nodup := by
      rcases hcore.observed y n hn with hst | hst
      · obtain ⟨-,m,-,hm⟩ := hcore.ended y _ hst
        rw [hm]
        exact List.nodup_range.map fun i j he => by simpa using he
      · cases hstreams : st.taskStreams y with
        | nil => exact List.nodup_nil
        | cons s streams =>
          rw [hstreams] at hback
          obtain ⟨t,ht,-⟩ := List.mem_map.mp (hback List.mem_cons_self)
          obtain ⟨c,hc,rfl,hy⟩ := hmem t ht
          have hscattered := (h.mem_taskStreams hcore hc hy).1
          rw [hst] at hscattered
          cases hscattered
    have hge := (hdistinct.subperm hback).length_le
    omega

/-- In every run the counter of a scatter is the number of its streams less that of the times one was closed, which each
instance of a gather does once. Where they are all closed by one gather, the counter stays above zero as long as a stream
is open, and is zero then. -/
theorem open_streams_counted (hacc : dsl.Accepted) (h : Run A dsl context ok st) :
    (st.closed.map Prod.fst).Nodup ∧ ∀ y n, st.openStreams y = some n →
      n = (st.taskStreams y).length-(st.closings y : ℤ) ∧
      ((∀ c ∈ st.closed, ∀ c' ∈ st.closed, c.1.streamId.opener = some y → c'.1.streamId.opener = some y →
        c.1.ref = c'.1.ref) →
        0 ≤ n ∧ (n = 0 ↔ ∀ s ∈ st.taskStreams y, ∃ c ∈ st.closed, c.1.streamId = s)) := by
  have hwf := wellFormed_of_accepted hacc
  have hcore := Run.core hwf h
  have htallied := tallied_of_run hwf h
  refine ⟨htallied.nodup,?_⟩
  intro y n hn
  exact ⟨htallied.count y n hn,fun hone => htallied.zero_iff hcore hn hone⟩

end

/-- The choices of the whole run of `handlerDSL "g"` over one item. -/
def handlerChoices : List Choice := gatherChoices ++ [.dequeue,.resume ⟨"h",.root⟩,.resume ⟨"h",.root⟩]

/-- Whether `start` returns `None`, and what was counted for the scatter. -/
def bookings (st : State) : Option Bool × Option ℤ × List String :=
  ((startResult st).map Option.isSome,st.openStreams ⟨"x",.root⟩,st.closed.map fun c => c.1.ref)

theorem exists_bookings : ∃ st, Run oneItem.activities (handlerDSL "g") .empty (fun _ _ => True) st ∧
    ⟨"h",.root⟩ ∈ st.flow.completedTasks ∧ bookings st = (some false,some 0,["g"]) := by
  have hrun : (Runs.follow (step oneItem.activities (handlerDSL "g")) (State.init (handlerDSL "g") .empty)
      handlerChoices).map (fun st => (decide (⟨"h",.root⟩ ∈ st.flow.completedTasks),bookings st)) =
        some (true,some false,some 0,["g"]) := by decide +kernel
  obtain ⟨st,hst,hobs⟩ := Runs.reachable_of_observed hrun
  obtain ⟨hh,hbook⟩ := Prod.mk.inj hobs
  exact ⟨st,hst,of_decide_eq_true hh,hbook⟩

/-- The gather comes back from the stream of the item before its handler is taken. -/
theorem gather_handed_over : ∃ st, startResult st = some none ∧ st.flow.started.Nodup ∧
    ⟨"g",.root⟩ ∈ st.flow.args := by
  obtain ⟨st,hst,hh,hbook⟩ := exists_bookings
  have hnone : startResult st = some none := by
    obtain ⟨result,hres,hr⟩ := Option.map_eq_some_iff.mp (Prod.mk.inj hbook).1
    cases result with
    | none => exact hres
    | some exs => cases hr
  obtain ⟨hnodup,-,-,hall⟩ := taken_in_order (by decide) hst
  refine ⟨st,hnone,hnodup,?_⟩
  rcases (hall hnone ⟨"h",.root⟩ (by decide)).mp hh with hentry | ⟨-,hdeps⟩
  · exact absurd hentry.2.2 (by decide)
  · exact hdeps "g" (by decide)

theorem item_stream_closed : ∃ st : State, st.openStreams ⟨"x",.root⟩ = some 0 ∧
    ∀ s ∈ st.taskStreams ⟨"x",.root⟩, ∃ c ∈ st.closed, c.1.streamId = s := by
  obtain ⟨st,hst,-,hbook⟩ := exists_bookings
  obtain ⟨-,hbook⟩ := Prod.mk.inj hbook
  obtain ⟨hopen,hrefs⟩ := Prod.mk.inj hbook
  have href : ∀ c ∈ st.closed, c.1.ref = "g" := by
    intro c hc
    have hmem := List.mem_map_of_mem (f := fun c : Task × StreamOutcome => c.1.ref) hc
    rw [hrefs] at hmem
    exact List.mem_singleton.mp hmem
  obtain ⟨-,hzero⟩ := ((open_streams_counted (by decide) hst).2 _ 0 hopen).2
    fun c hc c' hc' _ _ => (href c hc).trans (href c' hc').symm
  exact ⟨st,hopen,hzero.mp rfl⟩

end Allama

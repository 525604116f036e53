import Allama.EdgeMarking

/-! What the failure of an instance leads to. -/
namespace Allama
section
variable (A : Activities) (dsl : DSLInput)

/-- From this state on `start` returns exceptions, that of `ref` among them. -/
def Halted (st : State) (ref : String) : Prop :=
  ∀ st', Runs.Reachable (step A dsl) st st' →
    ∃ exs, startResult st' = some (some exs) ∧ ref ∈ exs.keys

/-- The targets of the error edges of `t` are counted down in its stream, and are on the queue
once their counters are down. -/
structure ErrorEdgesQueued (st st' : State) (t : Task) : Prop where
  called : (t,t) ∈ st'.flow.queued
  visited : ∀ d, (d,EdgeType.error) ∈ dsl.adj t.ref →
    st'.flow.edges ⟨t.ref,d,.error,t.streamId⟩ = .visited
  counted : ∀ d, st'.flow.indegree dsl ⟨d,t.streamId⟩ =
    st.flow.indegree dsl ⟨d,t.streamId⟩-((dsl.adj t.ref).countP (fun a => a.1 = d) : ℤ)
  started : ∀ d, (d,EdgeType.error) ∈ dsl.adj t.ref →
    st'.flow.indegree dsl ⟨d,t.streamId⟩ ≤ 0 → ⟨d,t.streamId⟩ ∈ st'.flow.started

/-- The gather `t` has collected errors, and its strategy is to raise. -/
def RaisesErrors (st : State) (t : Task) : Prop :=
  ∃ r stored errors args, st.flow.status t = .pending (.gatherFinalize r (.ok (stored,errors))) ∧
    (dsl.task t.ref).args.gather = some args ∧ args.errorStrategy = .raise ∧ errors ≠ []

/-- What follows when `t` fails in the step from `st` to `st'`. -/
structure FailureHandled (st st' : State) (t : Task) : Prop where
  unchanged : dsl.hasErrorEdge t.ref → ¬ RaisesErrors dsl st t → st'.taskExceptions = st.taskExceptions
  queued : dsl.hasErrorEdge t.ref → ¬ dsl.IsGather t.ref → ErrorEdgesQueued dsl st st' t
  halts : t.streamId = .root → ¬ dsl.hasErrorEdge t.ref → Halted A dsl st' t.ref
  raises : RaisesErrors dsl st t → Halted A dsl st' t.ref

end

section
variable {A : Activities} {dsl : DSLInput} {st st' : State}

theorem startResult_of_key {ref : String} (h : ref ∈ st.taskExceptions.keys) :
    startResult st = some (some st.taskExceptions) := by
  have hne : st.taskExceptions.keys ≠ [] := List.ne_nil_of_mem h
  rw [startResult, if_neg hne]

theorem BlockCase.exceptions {t : Task} {pc : Pc} {st1 : State} {ending : BlockEnd} (hpc : st.flow.status t = .pending pc)
    (h : BlockCase A dsl st t pc st1 ending) : st1.taskExceptions = st.taskExceptions ∨
      (dsl.IsGather t.ref ∧ RaisesErrors dsl st t ∧ ∃ info, st1.taskExceptions = st.taskExceptions.insert t.ref info) := by
  cases h with
  | finalizeRaises hg info hargs hraise herrors => exact .inr ⟨hg,⟨_,_,_,_,hpc,hargs,hraise,herrors⟩,info,rfl⟩
  | _ => exact .inl rfl

theorem handleErrorPath_exceptions (st : State) (t : Task) (exc : Exc) :
    (handleErrorPath dsl st t exc).taskExceptions = st.taskExceptions ∨
      ∃ info, (handleErrorPath dsl st t exc).taskExceptions = st.taskExceptions.insert t.ref info := by
  by_cases herr : dsl.hasErrorEdge t.ref
  · rw [handleErrorPath_error st exc herr]
    exact .inl rfl
  by_cases hroot : t.streamId = .root
  · rw [handleErrorPath_root st exc herr hroot]
    exact .inr ⟨_,rfl⟩
  · rw [handleErrorPath_stream st exc herr hroot]
    exact .inl rfl

theorem finish_exceptions (st : State) (t : Task) (ending : BlockEnd) :
    (st.finish dsl t ending).taskExceptions = st.taskExceptions ∨
      ∃ info, (st.finish dsl t ending).taskExceptions = st.taskExceptions.insert t.ref info := by
  cases ending with
  | await pc => exact .inl rfl
  | done outcome => exact .inl rfl
  | raised exc => exact handleErrorPath_exceptions st t exc

theorem exceptions_step (hwf : dsl.WellFormed) (h : Core dsl st) {choice : Choice}
    (hs : step A dsl st choice = some st') {ref : String} (href : ref ∈ st.taskExceptions.keys) :
    ref ∈ st'.taskExceptions.keys := by
  have hins : ∀ {m : AList fun _ : String => TaskExceptionInfo} {r info}, ref ∈ m.keys →
      ref ∈ (m.insert r info).keys := by
    intro m r info hm
    exact (AList.mem_insert m).mpr (.inr hm)
  cases choice with
  | dequeue =>
    obtain ⟨t,delay,queue,hdeq⟩ := dequeue_cases h hs
    rw [hdeq.next]
    exact href
  | resume t =>
    obtain ⟨pc,st1,ending,hres⟩ := resume_cases hwf h hs
    have hst1 : ref ∈ st1.taskExceptions.keys := by
      rcases hres.cases.exceptions hres.before with he | ⟨-,-,info,he⟩
      · rwa [he]
      · rw [he]
        exact hins href
    rw [hres.next]
    rcases @finish_exceptions dsl st1 t ending with he | ⟨info,he⟩
    · rwa [he]
    · rw [he]
      exact hins hst1

theorem halted_of_key (hwf : dsl.WellFormed) (h : Core dsl st) {ref : String}
    (href : ref ∈ st.taskExceptions.keys) : Halted A dsl st ref := by
  intro st' hr
  have hinv : Core dsl st' ∧ ref ∈ st'.taskExceptions.keys :=
    hr.invariant (P := fun st => Core dsl st ∧ ref ∈ st.taskExceptions.keys) ⟨h,href⟩
      fun _ _ _ _ hi _ hs => ⟨core_step hwf hi.1 hs,exceptions_step hwf hi.1 hs hi.2⟩
  exact ⟨st'.taskExceptions,startResult_of_key hinv.2,hinv.2⟩

theorem BlockCase.raised_of_failed {t : Task} {pc : Pc} {st1 : State} {ending : BlockEnd}
    (h : BlockCase A dsl st t pc st1 ending) {exc : Exc}
    (hf : ending.status = .ended (.failed exc)) : ending = .raised exc ∧ st1.flow = st.flow := by
  cases h with
  | raises hpc e =>
    obtain rfl := Outcome.failed.inj (Status.ended.inj hf)
    exact ⟨rfl,rfl⟩
  | fails e hs hg hc =>
    obtain rfl := Outcome.failed.inj (Status.ended.inj hf)
    exact ⟨rfl,rfl⟩
  | finalizeRaises hg info _ _ _ =>
    obtain rfl := Outcome.failed.inj (Status.ended.inj hf)
    exact ⟨rfl,rfl⟩
  | closes harr hg ht o hn hc hend hstores =>
    cases ending with
    | raised e =>
      obtain rfl := Outcome.failed.inj (Status.ended.inj hf)
      exact ⟨rfl,rfl⟩
    | done outcome =>
      obtain ⟨rfl,-⟩ := hend
      cases hf
    | await pc' => cases hf
  | _ => cases hf

theorem errorEdges_queued (hwf : dsl.WellFormed) (h' : Core dsl st') {t : Task} {exc : Exc}
    {st1 : State} (hflow : st1.flow = st.flow) (herr : dsl.hasErrorEdge t.ref)
    (hnext : st' = st1.finish dsl t (.raised exc)) : ErrorEdgesQueued dsl st st' t := by
  have hpath := handleErrorPath_error st1 exc herr
  have hst' : st'.flow = (queueTasks dsl t t 0 (dsl.outEdges t fun type => type ≠ .error)
      st.flow).complete t (.failed exc) := by
    rw [hnext, State.finish, hpath, State.queueTasks, hflow]
  have hq := @queueTasks_queues dsl t t 0 (dsl.outEdges t fun type => type ≠ .error) st.flow
  refine ⟨?_,fun d hd => ?_,fun d => ?_,fun d hd hle => ?_⟩
  · rw [hst', Flow.complete]
    dsimp only
    rw [hq.queued]
    exact List.mem_append_right _ (List.mem_singleton_self _)
  · have hout : (⟨t.ref,d,.error,t.streamId⟩ : DSLEdge) ∈ dsl.outEdges t fun _ => true :=
      mem_outEdges.mpr ⟨rfl,rfl,hd,rfl⟩
    have hnot : (⟨t.ref,d,.error,t.streamId⟩ : DSLEdge) ∉
        dsl.outEdges t fun type => type ≠ .error := by
      intro hm
      simpa using (mem_outEdges.mp hm).2.2.2
    rw [hst', Flow.complete]
    dsimp only
    rw [hq.edges, if_pos hout, if_neg hnot]
  · have hcount := hq.indegree ⟨d,t.streamId⟩
    rw [if_pos rfl] at hcount
    rw [hst', ← hcount]
    rfl
  · refine (h'.counted.mem_started _).mpr (.inr ⟨?_,hle⟩)
    have hdep := (mem_adj hwf).mp hd
    intro hnil
    have hlen := hwf.deps_length d
    rw [hnil] at hlen
    rw [List.eq_nil_of_length_eq_zero hlen] at hdep
    cases hdep

theorem finish_keeps_key (st : State) (t : Task) (ending : BlockEnd) {ref : String}
    (h : ref ∈ st.taskExceptions.keys) : ref ∈ (st.finish dsl t ending).taskExceptions.keys := by
  rcases @finish_exceptions dsl st t ending with he | ⟨info,he⟩
  · rwa [he]
  · rw [he]
    exact (AList.mem_insert st.taskExceptions).mpr (.inr h)

theorem Core.parentStreamId (h : Core dsl st) {t : Task} {pc : Pc} {p : StreamID} {x : String}
    {i : StreamIndex} (hpc : st.flow.status t = .pending pc) (ht : t.streamId = .child p x i) :
    st.parentStreamId t t.streamId = .ok p := by
  have hreg := h.started t (h.started_of_pending hpc)
  obtain ⟨v,hv⟩ := Option.isSome_iff_exists.mp hreg
  have hparent := h.registered.parent _ v hv
  rw [ht] at hparent
  unfold State.parentStreamId
  rw [hv, hparent]
  rfl

theorem raise_registers (h : Core dsl st) {t : Task} {r : TaskResult} {stored : StoredObject}
    {errors : List ActionErrorInfo} {args : GatherArgs} {st1 : State} {ending : BlockEnd}
    (hpc : st.flow.status t = .pending (.gatherFinalize r (.ok (stored,errors))))
    (hargs : (dsl.task t.ref).args.gather = some args) (hraise : args.errorStrategy = .raise)
    (herrors : errors ≠ [])
    (hb : block A dsl st t (dsl.task t.ref) (.gatherFinalize r (.ok (stored,errors))) =
      (st1,ending)) : t.ref ∈ st1.taskExceptions.keys := by
  obtain ⟨-,p,x,i,ht,-⟩ := h.fits t _ hpc
  rw [block, h.parentStreamId hpc ht, hargs] at hb
  dsimp only at hb
  rw [gatherFinalized, if_pos ⟨hraise,herrors⟩] at hb
  obtain ⟨rfl,-⟩ := Prod.mk.inj hb
  exact (AList.mem_insert st.taskExceptions).mpr (.inl rfl)

/-- A failure with an error edge goes to the targets of its error edges, one in the root stream
without error edges halts the run, and so does a gather whose strategy is to raise. -/
theorem failure_handled {context : ExecutionContext} {t : Task} {exc : Exc}
    (hacc : dsl.Accepted) (h : Run A dsl context (fun _ _ => True) st)
    (hs : step A dsl st (.resume t) = some st')
    (hfail : st'.flow.outcomes t = some (.failed exc)) : FailureHandled A dsl st st' t := by
  have hwf := wellFormed_of_accepted hacc
  have hcore := h.core hwf
  have hcore' := core_step hwf hcore hs
  obtain ⟨pc,st1,ending,hres⟩ := resume_cases hwf hcore hs
  have hended := Flow.status_of_outcome hcore'.counted hfail
  rw [hres.self] at hended
  obtain ⟨rfl,hflow⟩ := hres.cases.raised_of_failed hended
  have hnext := hres.next
  refine ⟨fun herr hraises => ?_,fun herr _ => errorEdges_queued hwf hcore' hflow herr hnext,fun hroot herr => ?_,?_⟩
  · have hst1 : st1.taskExceptions = st.taskExceptions := by
      rcases hres.cases.exceptions hres.before with he | ⟨-,hraises',-⟩
      · exact he
      · exact absurd hraises' hraises
    rw [hnext, State.finish, handleErrorPath_error st1 exc herr]
    exact hst1
  · refine halted_of_key hwf hcore' ?_
    rw [hnext, State.finish, handleErrorPath_root st1 exc herr hroot]
    exact (AList.mem_insert st1.taskExceptions).mpr (.inl rfl)
  · rintro ⟨r,stored,errors,args,hpc,hargs,hraise,herrors⟩
    refine halted_of_key hwf hcore' ?_
    obtain rfl := Status.pending.inj (hres.before.symm.trans hpc)
    rw [hnext]
    exact finish_keeps_key st1 t _ (raise_registers hcore hpc hargs hraise herrors hres.block)

end

def boom : Exc := .ofType "ApplicationError" "boom"

/-- An action that fails, and an action `h` after `dep`. -/
def failingDSL (dep : String) : DSLInput where
  actions := [
    { ref := "a", action := .udf "a" },
    { ref := "h", action := .udf "h", dependsOn := [dep] }]

def oneFailure : Oracle where
  collection := fun _ => .ok [.int 1]
  action := fun t => if t.ref = "a" then .error boom else .ok ⟨false,.none⟩

/-- The scatter over one item with the failing action inside and the error handler `h` of the
gather, whose strategy is to raise. -/
def raisingDSL : DSLInput where
  actions := [
    { ref := "x", action := .transformScatter,
      args := { scatter := some { collection := .none } } },
    { ref := "a", action := .udf "a", dependsOn := ["x"] },
    { ref := "g", action := .transformGather, dependsOn := ["a"],
      args := { gather := some { items := "a", errorStrategy := .raise } } },
    { ref := "h", action := .udf "h", dependsOn := ["g.error"] }]

def raisingGather : Task := ⟨"g",.child .root "x" (.item 0)⟩

/-- The choices up to the finalization of the gather. -/
def raisingChoices : List Choice :=
  let x : Task := ⟨"x",.root⟩
  let a : Task := ⟨"a",.child .root "x" (.item 0)⟩
  [.dequeue,.resume x,.resume x,.resume x,.dequeue,.resume a,.resume a,.dequeue,
    .resume raisingGather]

/-- Whether the step makes its instance fail, and the exceptions registered before and after. -/
def failsNext (A : Activities) (dsl : DSLInput) (t : Task) (st : State) :
    Bool × List String × List String :=
  match step A dsl st (.resume t) with
  | none => (false,[],[])
  | some st' =>
    (match st'.flow.outcomes t with
      | some (.failed _) => true
      | _ => false, st.taskExceptions.keys, st'.taskExceptions.keys)

theorem failsNext_eq {A : Activities} {dsl : DSLInput} {t : Task} {st : State}
    {keys keys' : List String} (h : failsNext A dsl t st = (true,keys,keys')) :
    ∃ st' exc, step A dsl st (.resume t) = some st' ∧ st'.flow.outcomes t = some (.failed exc) ∧
      st.taskExceptions.keys = keys ∧ st'.taskExceptions.keys = keys' := by
  unfold failsNext at h
  split at h
  · cases h
  · rename_i st' hs
    obtain ⟨hfail,hrest⟩ := Prod.mk.inj h
    obtain ⟨hkeys,hkeys'⟩ := Prod.mk.inj hrest
    split at hfail
    · rename_i exc ho
      exact ⟨st',exc,hs,ho,hkeys,hkeys'⟩
    · cases hfail

theorem failure_handled_plain : ∃ st st',
    step oneFailure.activities (failingDSL "a.error") st (.resume ⟨"a",.root⟩) = some st' ∧
      FailureHandled oneFailure.activities (failingDSL "a.error") st st' ⟨"a",.root⟩ := by
  have hrun : (Runs.follow (step oneFailure.activities (failingDSL "a.error"))
      (State.init (failingDSL "a.error") .empty) [.dequeue,.resume ⟨"a",.root⟩]).map
        (failsNext oneFailure.activities (failingDSL "a.error") ⟨"a",.root⟩) = some (true,[],[]) := by
    decide
  obtain ⟨st,hst,hobs⟩ := Runs.reachable_of_observed hrun
  obtain ⟨st',exc,hs,hfail,-,-⟩ := failsNext_eq hobs
  exact ⟨st,st',hs,failure_handled (by decide) hst hs hfail⟩

/-- A gather that has an error edge halts the run when its strategy is to raise. -/
theorem raising_gather_halts : ¬ ∀ (A : Activities) (dsl : DSLInput) (context : ExecutionContext)
    (st st' : State) (t : Task) (exc : Exc), dsl.Accepted →
      Run A dsl context (fun _ _ => True) st → step A dsl st (.resume t) = some st' →
      st'.flow.outcomes t = some (.failed exc) → dsl.hasErrorEdge t.ref →
      st'.taskExceptions = st.taskExceptions := by
  intro hclaim
  have hrun : (Runs.follow (step oneFailure.activities raisingDSL)
      (State.init raisingDSL .empty) raisingChoices).map
        (failsNext oneFailure.activities raisingDSL raisingGather) = some (true,[],["g"]) := by
    decide +kernel
  obtain ⟨st,hst,hobs⟩ := Runs.reachable_of_observed hrun
  obtain ⟨st',exc,hs,hfail,hkeys,hkeys'⟩ := failsNext_eq hobs
  have hsame := hclaim _ _ _ st st' raisingGather exc (by decide) hst hs hfail
    (by decide)
  rw [hsame, hkeys] at hkeys'
  cases hkeys'

end Allama

import Allama.PoolSlots

/-! Runs of the worker pool: the recycling of workers, and what is left of it. -/
namespace Allama
namespace WorkerPools

/-- While a call recycles its worker it is not cancelled, and the process to be terminated is there. -/
def Undisturbed (state : State) : Action → Bool
  | .event i event =>
    match state.calls[i]? with
    | none => true
    | some call =>
      match call.phase with
      | .terminating _ | .killing _ | .spawning _ | .replacing _ _ => event != .cancel && event != .noProcess
      | _ => true
  | _ => true

variable {config : Config} {state state' : State} {pool pool' : Pool} {calls : List Call} {i : ℕ} {call call' : Call}

theorem Undisturbed.event {event : Event} {w : ℕ} (h : Undisturbed state (.event i event) = true)
    (hi : state.calls[i]? = some call) (hphase : call.phase.recycles w = true) : event ≠ .cancel ∧ event ≠ .noProcess := by
  simp only [Undisturbed, hi] at h
  rcases recycles_cases hphase with hp | hp | hp | ⟨_,hp⟩
  all_goals
    rw [hp] at h
    simpa using h

/-- The slots that a call acquired and released, by its phase. -/
def Call.Accounted (call : Call) : Prop :=
  match call.phase with
  | .acquiring => call.acquired = 0 ∧ call.released = 0
  | .executing _ | .releasing _ => call.acquired = 1 ∧ call.released = 0
  | .terminating _ | .killing _ | .spawning _ | .replacing _ _ => call.acquired = 1 ∧ call.released = 1
  | .done => call.acquired ≤ 1 ∧ call.released = call.acquired

theorem Call.Accounted.recycles {w : ℕ} (h : call.Accounted) (hphase : call.phase.recycles w = true) :
    call.acquired = 1 ∧ call.released = 1 := by
  unfold Call.Accounted at h
  rcases recycles_cases hphase with hp | hp | hp | ⟨_,hp⟩
  all_goals
    rw [hp] at h
    exact h

theorem Call.accounted_of_recycles {w : ℕ} (hphase : call.phase.recycles w = true)
    (h : call.acquired = 1 ∧ call.released = 1) : call.Accounted := by
  unfold Call.Accounted
  rcases recycles_cases hphase with hp | hp | hp | ⟨_,hp⟩
  all_goals
    rw [hp]
    exact h

theorem Call.Accounted.step {event : Event} (h : call.Accounted) (hstep : Step config pool call event pool' call')
    (hquiet : ∀ w, call.phase.recycles w = true → event ≠ .cancel ∧ event ≠ .noProcess) : call'.Accounted := by
  cases hstep with
  | wait => exact h
  | acquire hphase hw =>
    simp only [Call.Accounted, hphase] at h
    exact ⟨congrArg (· + 1) h.1,h.2⟩
  | stop hphase =>
    simp only [Call.Accounted, hphase] at h
    exact ⟨h.1 ▸ Nat.zero_le 1,h.2.trans h.1.symm⟩
  | finish hphase =>
    simp only [Call.Accounted, hphase] at h
    exact h
  | release hphase =>
    simp only [Call.Accounted, hphase] at h
    have hone := congrArg (· + 1) h.2
    unfold Call.Accounted
    dsimp only
    cases (releaseWorker config _ pool).2 with
    | false => exact ⟨Nat.le_of_eq h.1,hone.trans h.1.symm⟩
    | true => exact ⟨h.1,hone⟩
  | force hphase =>
    simp only [Call.Accounted, hphase] at h
    have hone := congrArg (· + 1) h.2
    exact ⟨Nat.le_of_eq h.1,hone.trans h.1.symm⟩
  | proceed hphase hphase' => exact Call.accounted_of_recycles hphase' (h.recycles hphase)
  | replace hphase =>
    obtain ⟨hacquired,hreleased⟩ := h.recycles hphase
    exact ⟨Nat.le_of_eq hacquired,hreleased.trans hacquired.symm⟩
  | abandon hphase => exact absurd rfl (hquiet _ hphase).2
  | disturb hphase => exact absurd rfl (hquiet _ hphase).1

/-- Each worker of the list that is marked as recycling has a call that recycles it. -/
def Recycled (pool : Pool) (calls : List Call) : Prop :=
  ∀ w ∈ pool.workers, (pool.objects w).recycling = true → ∃ call ∈ calls, call.phase.recycles w = true

theorem mem_set_of_mem (hi : calls[i]? = some call) (call' : Call) {c : Call} (hc : c ∈ calls) :
    c ∈ calls.set i call' ∨ c = call := by
  obtain ⟨j,hj⟩ := List.mem_iff_getElem?.mp hc
  by_cases hij : i = j
  · subst hij
    exact .inr (Option.some.inj (hj.symm.trans hi))
  · refine .inl (List.mem_iff_getElem?.mpr ⟨j,?_⟩)
    rw [List.getElem?_set_ne hij]
    exact hj

theorem Recycled.move (h : Recycled pool calls) (hi : calls[i]? = some call)
    (hmarked : ∀ w ∈ pool'.workers, (pool'.objects w).recycling = true →
      (w ∈ pool.workers ∧ (pool.objects w).recycling = true) ∨ call'.phase.recycles w = true)
    (hcall : ∀ w ∈ pool'.workers, call.phase.recycles w = true → call'.phase.recycles w = true) :
    Recycled pool' (calls.set i call') := by
  have hmem : call' ∈ calls.set i call' := by
    obtain ⟨hlt,-⟩ := List.getElem?_eq_some_iff.mp hi
    exact List.mem_set hlt call'
  intro w hw hrec
  rcases hmarked w hw hrec with ⟨hmemw,hrecw⟩ | hnew
  · obtain ⟨c,hc,hcw⟩ := h w hmemw hrecw
    rcases mem_set_of_mem hi call' hc with hset | rfl
    · exact ⟨c,hset,hcw⟩
    · exact ⟨call',hmem,hcall w hw hcw⟩
  · exact ⟨call',hmem,hnew⟩

theorem Recycled.step {event : Event} (h : Recycled pool calls) (hcounted : Counted config pool calls)
    (hi : calls[i]? = some call) (hstep : Step config pool call event pool' call')
    (hquiet : ∀ w, call.phase.recycles w = true → event ≠ .cancel ∧ event ≠ .noProcess) :
    Recycled pool' (calls.set i call') := by
  -- a call that recycles no worker before a step owes none after it
  have hidle : ∀ {phase : Phase}, call.phase = phase → (∀ w, phase.recycles w = false) → ∀ w ∈ pool'.workers,
      call.phase.recycles w = true → call'.phase.recycles w = true := by
    intro phase hphase hno w _ hw
    rw [hphase, hno] at hw
    cases hw
  cases hstep with
  | wait => exact h.move hi (fun w hw hrec => .inl ⟨hw,hrec⟩) fun _ _ hw => hw
  | acquire hphase hw =>
    refine h.move hi ?_ (hidle hphase fun _ => rfl)
    intro v hv hrec
    exact .inl ⟨hv,(change_objects WorkerInfo.recycling
      (fun info => { info with active_tasks := info.active_tasks + 1 }) (fun _ => rfl) _ v pool).symm.trans hrec⟩
  | stop hphase => exact h.move hi (fun w hw hrec => .inl ⟨hw,hrec⟩) (hidle hphase fun _ => rfl)
  | finish hphase => exact h.move hi (fun w hw hrec => .inl ⟨hw,hrec⟩) (hidle hphase fun _ => rfl)
  | @release w hphase =>
    refine h.move hi ?_ (hidle hphase fun _ => rfl)
    intro v hv hrec
    simp only [releaseWorker, Pool.change] at hrec ⊢
    split at hrec
    · rename_i heq
      subst heq
      -- the mark is there already, or this release sets it and the call recycles the worker
      rcases Bool.or_eq_true_iff.mp hrec with hold | hnew
      · exact .inl ⟨hv,hold⟩
      · rw [if_pos hnew]
        exact .inr (beq_self_eq_true v)
    · exact .inl ⟨hv,hrec⟩
  | force hphase =>
    refine h.move hi ?_ (hidle hphase fun _ => rfl)
    intro v hv hrec
    exact .inl ⟨hv,(change_objects WorkerInfo.recycling WorkerInfo.completed (fun _ => rfl) _ v pool).symm.trans hrec⟩
  | proceed hphase hphase' hpool =>
    have hcall : ∀ v, call.phase.recycles v = true → _ := fun v hv => eq_of_recycles hphase hv ▸ hphase'
    rcases hpool with rfl | rfl
    · exact h.move hi (fun w hw hrec => .inl ⟨hw,hrec⟩) fun v _ hv => hcall v hv
    · refine h.move hi ?_ fun v _ hv => hcall v hv
      intro v hv hrec
      exact .inl ⟨hv,(exited_objects _ v pool).2.symm.trans hrec⟩
  | @replace w spawned hphase =>
    cases spawned with
    | false =>
      refine h.move hi ?_ ?_
      · intro v hv hrec
        exact .inl ⟨List.mem_of_mem_erase hv,hrec⟩
      · intro v hv hrec
        -- the worker that the call recycled is not in the pool any more
        obtain rfl := eq_of_recycles hphase hrec
        exact absurd hv hcounted.nodup.not_mem_erase
    | true =>
      refine h.move hi ?_ ?_
      · intro v hv hrec
        rcases mem_replace hcounted.nodup hv with rfl | ⟨hmem,-⟩
        · simp only [replaceWorker] at hrec
          simp at hrec
        · simp only [replaceWorker, if_true, if_neg (Nat.ne_of_lt (hcounted.created v hmem))] at hrec
          exact .inl ⟨hmem,hrec⟩
      · intro v hv hrec
        obtain rfl := eq_of_recycles hphase hrec
        rcases mem_replace hcounted.nodup hv with heq | ⟨-,hne⟩
        · have hlt := (hcounted.recycled call (List.mem_of_getElem? hi) v hrec).2
          exact absurd heq (Nat.ne_of_lt hlt)
        · exact absurd rfl hne
  | abandon hphase => exact absurd rfl (hquiet _ hphase).2
  | disturb hphase => exact absurd rfl (hquiet _ hphase).1

/-- What holds of the calls and the workers in the states of a run. -/
structure SlotsKept (config : Config) (state : State) : Prop where
  counted : ∀ w, (state.pool.objects w).active_tasks = holders w state.calls
  bounded : ∀ w, (state.pool.objects w).active_tasks ≤ config.max_concurrent_per_worker
  assigned : ∀ call ∈ state.calls, ∀ w, call.phase.holds w = true →
    w ∈ state.pool.workers ∧ (state.pool.objects w).recycling = false
  released : ∀ call ∈ state.calls, call.acquired ≤ 1 ∧ call.released ≤ call.acquired ∧
    (call.phase = .done → call.released = call.acquired)
  left : (∀ call ∈ state.calls, call.phase = .done) → ∀ w ∈ state.pool.workers, (state.pool.objects w).recycling = false

theorem Call.Accounted.released (h : call.Accounted) : call.acquired ≤ 1 ∧ call.released ≤ call.acquired ∧
    (call.phase = .done → call.released = call.acquired) := by
  unfold Call.Accounted at h
  cases hp : call.phase with
  | done =>
    rw [hp] at h
    exact ⟨h.1,Nat.le_of_eq h.2,fun _ => h.2⟩
  | _ =>
    rw [hp] at h
    obtain ⟨hacquired,hreleased⟩ := h
    refine ⟨by omega,by omega,?_⟩
    intro hdone
    cases hdone

/-- The invariant of the runs. -/
structure Kept (config : Config) (state : State) : Prop where
  counted : Counted config state.pool state.calls
  accounted : ∀ call ∈ state.calls, call.Accounted
  recycled : Recycled state.pool state.calls

theorem Kept.slotsKept (h : Kept config state) : SlotsKept config state where
  counted := h.counted.counted
  bounded := h.counted.bounded
  assigned := h.counted.held
  released call hcall := (h.accounted call hcall).released
  left := by
    intro hdone w hw
    cases hrec : (state.pool.objects w).recycling with
    | false => rfl
    | true =>
      obtain ⟨call,hcall,hrecycles⟩ := h.recycled w hw hrec
      rw [hdone call hcall] at hrecycles
      cases hrecycles

theorem kept_started (config : Config) (ids : List ℕ) : Kept config (started ids) where
  counted :=
    { nodup := List.nodup_range
      created := fun _ => List.mem_range.mp
      counted := fun _ => rfl
      bounded := fun _ => Nat.zero_le _
      held := fun _ h => absurd h List.not_mem_nil
      recycled := fun _ h => absurd h List.not_mem_nil }
  accounted _ h := absurd h List.not_mem_nil
  recycled _ _ h := absurd h Bool.false_ne_true

theorem Counted.start (h : Counted config pool calls) : Counted config pool (calls ++ [{ phase := .acquiring }]) where
  nodup := h.nodup
  created := h.created
  counted w := by
    rw [h.counted, holders, holders, List.countP_append]
    rfl
  bounded := h.bounded
  held call hcall w hw := by
    rcases List.mem_append.mp hcall with hcall | hcall
    · exact h.held call hcall w hw
    · obtain rfl := List.mem_singleton.mp hcall
      cases hw
  recycled call hcall w hw := by
    rcases List.mem_append.mp hcall with hcall | hcall
    · exact h.recycled call hcall w hw
    · obtain rfl := List.mem_singleton.mp hcall
      cases hw

theorem Counted.crash (h : Counted config pool calls) (worker : ℕ) : Counted config (exited worker pool) calls where
  nodup := h.nodup
  created := h.created
  counted w := (exited_objects worker w pool).1.trans (h.counted w)
  bounded w := (exited_objects worker w pool).1 ▸ h.bounded w
  held call hcall w hw := (exited_objects worker w pool).2 ▸ h.held call hcall w hw
  recycled call hcall w hw := (exited_objects worker w pool).2 ▸ h.recycled call hcall w hw

theorem counted_next {action : Action} (h : Counted config state.pool state.calls)
    (hnext : next config state action = some state') : Counted config state'.pool state'.calls := by
  cases action with
  | start =>
    cases hnext
    exact h.start
  | crash worker =>
    cases hnext
    exact h.crash worker
  | event i event =>
    obtain ⟨call,hi,hcall⟩ := Option.bind_eq_some_iff.mp hnext
    obtain ⟨⟨pool',call'⟩,hadvance,rfl⟩ := Option.map_eq_some_iff.mp hcall
    exact h.step hi (step_of_advance hadvance)

theorem kept_next {action : Action} (h : Kept config state) (hquiet : Undisturbed state action = true)
    (hnext : next config state action = some state') : Kept config state' := by
  have hcounted := counted_next h.counted hnext
  cases action with
  | start =>
    -- a new call has no slots and recycles nothing
    cases hnext
    refine ⟨hcounted,?_,?_⟩
    · intro call hcall
      rcases List.mem_append.mp hcall with hcall | hcall
      · exact h.accounted call hcall
      · obtain rfl := List.mem_singleton.mp hcall
        exact ⟨rfl,rfl⟩
    · intro w hw hrec
      obtain ⟨call,hcall,hrecycles⟩ := h.recycled w hw hrec
      exact ⟨call,List.mem_append_left _ hcall,hrecycles⟩
  | crash worker =>
    -- a crash ends a process and marks no worker
    cases hnext
    refine ⟨hcounted,h.accounted,?_⟩
    intro w hw hrec
    exact h.recycled w hw ((exited_objects worker w state.pool).2 ▸ hrec)
  | event i event =>
    obtain ⟨call,hi,hcall⟩ := Option.bind_eq_some_iff.mp hnext
    obtain ⟨⟨pool',call'⟩,hadvance,rfl⟩ := Option.map_eq_some_iff.mp hcall
    have hstep := step_of_advance hadvance
    have hquiet : ∀ w, call.phase.recycles w = true → event ≠ .cancel ∧ event ≠ .noProcess := fun _ hphase =>
      Undisturbed.event hquiet hi hphase
    refine ⟨hcounted,?_,h.recycled.step h.counted hi hstep hquiet⟩
    intro c hc
    rcases List.mem_or_eq_of_mem_set hc with hc | rfl
    · exact h.accounted c hc
    · exact (h.accounted call (List.mem_of_getElem? hi)).step hstep hquiet

/-- In every run the slots in use are those that calls hold, and they are slots of workers of the pool that nobody recycles. -/
theorem counted_of_reachable {ids : List ℕ} (h : Runs.Reachable (next config) (started ids) state) :
    Counted config state.pool state.calls := by
  refine h.invariant (P := fun state => Counted config state.pool state.calls) (kept_started config ids).counted ?_
  intro _ _ _ _ hcounted _ hnext
  exact counted_next hcounted hnext

/-- In a run in which no call is disturbed while it recycles its worker, slots and workers are kept. -/
theorem slots_kept {ids : List ℕ} (h : Runs.Reaches (next config) (fun state action => Undisturbed state action = true)
    (started ids) state) : SlotsKept config state := by
  have hkept : Kept config state := by
    refine h.invariant (kept_started config ids) ?_
    intro _ _ _ _ hkept hquiet hnext
    exact kept_next hkept hquiet hnext
  exact hkept.slotsKept

section Samples

/-- Workers for one task. -/
def oneTask : Config := ⟨1,2⟩

def recycledRun : List Action :=
  [.start,.event 0 .acquire,.event 0 .finish,.event 0 .release,.event 0 .timeout,.event 0 .killed,.event 0 (.spawn true),
    .event 0 .replace]

theorem slots_kept_recycled : ∃ state, SlotsKept oneTask state ∧ state.pool.workers = [1] ∧
    (state.pool.objects 1).tasks_completed = 0 := by
  have hrun : Runs.followOk (next oneTask) Undisturbed (started [5]) recycledRun = some _ := rfl
  exact ⟨_,slots_kept (Runs.reaches_of_followOk hrun),rfl,rfl⟩

def cancelledRun : List Action :=
  [.start,.event 0 .acquire,.event 0 .finish,.event 0 .release,.event 0 .cancel]

theorem counted_cancelled : ∃ state : State, Counted oneTask state.pool state.calls ∧ state.calls = [⟨.done,1,2⟩] := by
  have hrun : Runs.follow (next oneTask) (started [5]) cancelledRun = some _ := rfl
  exact ⟨_,counted_of_reachable (Runs.reachable_of_follow hrun),rfl⟩

/-- The worker stays in the list, marked for good, and the slot is released twice. -/
theorem worker_left_recycling : ∃ state, Runs.Reachable (next oneTask) (started [5]) state ∧
    state.calls = [⟨.done,1,2⟩] ∧ state.pool.workers = [0] ∧ (state.pool.objects 0).recycling = true ∧
    ¬ SlotsKept oneTask state := by
  have hrun : Runs.follow (next oneTask) (started [5]) cancelledRun = some _ := rfl
  refine ⟨_,Runs.reachable_of_follow hrun,rfl,rfl,rfl,?_⟩
  intro hkept
  have htwice : 2 ≤ 1 := (hkept.released ⟨.done,1,2⟩ List.mem_cons_self).2.1
  omega

end Samples
end WorkerPools
end Allama

import Allama.WorkerPools
import Mathlib.Data.List.Count

/-! Slots of the workers are counted right in every run. -/
namespace Allama
namespace WorkerPools

/-- Whether a call has a slot of a worker. -/
def Phase.holds (w : ℕ) : Phase → Bool
  | .executing worker | .releasing worker => worker == w
  | _ => false

def Phase.recycles (w : ℕ) : Phase → Bool
  | .terminating worker | .killing worker | .spawning worker | .replacing worker _ => worker == w
  | _ => false

def holders (w : ℕ) (calls : List Call) : ℕ := calls.countP fun call => call.phase.holds w

/-- What the end of an await does. -/
inductive Step (config : Config) (pool : Pool) (call : Call) : Event → Pool → Call → Prop
  | wait : Step config pool call .acquire pool call
  | acquire {w : ℕ} (hphase : call.phase = .acquiring) (hw : selectWorker config pool = some w) :
    Step config pool call .acquire (acquireWorker pool w) { call with phase := .executing w, acquired := call.acquired + 1 }
  | stop {event : Event} (hphase : call.phase = .acquiring) : Step config pool call event pool { call with phase := .done }
  | finish {w : ℕ} {event : Event} (hphase : call.phase = .executing w) :
    Step config pool call event pool { call with phase := .releasing w }
  | release {w : ℕ} (hphase : call.phase = .releasing w) :
    Step config pool call .release (releaseWorker config w pool).1
      { call with
        phase := if (releaseWorker config w pool).2 then .terminating w else .done
        released := call.released + 1 }
  | force {w : ℕ} (hphase : call.phase = .releasing w) :
    Step config pool call .cancel (forceRelease w pool) { call with phase := .done, released := call.released + 1 }
  | proceed {w : ℕ} {event : Event} {phase : Phase} {pool' : Pool} (hphase : call.phase.recycles w = true)
    (hphase' : phase.recycles w = true) (hpool : pool' = pool ∨ pool' = exited w pool) :
    Step config pool call event pool' { call with phase := phase }
  | replace {w : ℕ} {spawned : Bool} (hphase : call.phase.recycles w = true) :
    Step config pool call .replace (replaceWorker w spawned pool) { call with phase := .done }
  | abandon {w : ℕ} (hphase : call.phase.recycles w = true) :
    Step config pool call .noProcess pool { call with phase := .done }
  | disturb {w : ℕ} (hphase : call.phase.recycles w = true) :
    Step config pool call .cancel (forceRelease w pool) { call with phase := .done, released := call.released + 1 }

theorem step_of_advance {config : Config} {pool pool' : Pool} {call call' : Call} {event : Event}
    (h : advance config pool call event = some (pool',call')) : Step config pool call event pool' call' := by
  have hrecycles : ∀ {phase : Phase} {w : ℕ}, call.phase = phase → phase.recycles w = true → call.phase.recycles w = true :=
    fun hphase h => hphase ▸ h
  unfold advance at h
  split at h
  · rename_i hphase
    split at h
    · cases h
      exact .wait
    · rename_i hw
      cases h
      exact .acquire hphase hw
  all_goals rename_i hphase
  · cases h
    exact .stop hphase
  · cases h
    exact .stop hphase
  · cases h
    exact .finish hphase
  · cases h
    exact .finish hphase
  · cases h
    exact .release hphase
  · cases h
    exact .proceed (hrecycles hphase (beq_self_eq_true _)) (beq_self_eq_true _) (.inr rfl)
  · cases h
    exact .proceed (hrecycles hphase (beq_self_eq_true _)) (beq_self_eq_true _) (.inl rfl)
  · cases h
    exact .proceed (hrecycles hphase (beq_self_eq_true _)) (beq_self_eq_true _) (.inr rfl)
  · split at h
    · cases h
    · cases h
      exact .abandon (hrecycles hphase (beq_self_eq_true _))
  · split at h
    · cases h
    · cases h
      exact .abandon (hrecycles hphase (beq_self_eq_true _))
  · cases h
    exact .proceed (hrecycles hphase (beq_self_eq_true _)) (beq_self_eq_true _) (.inl rfl)
  · cases h
    exact .replace (hrecycles hphase (beq_self_eq_true _))
  · cases h
    exact .force hphase
  · cases h
    exact .disturb (hrecycles hphase (beq_self_eq_true _))
  · cases h
    exact .disturb (hrecycles hphase (beq_self_eq_true _))
  · cases h
    exact .disturb (hrecycles hphase (beq_self_eq_true _))
  · cases h
    exact .disturb (hrecycles hphase (beq_self_eq_true _))
  · cases h

theorem change_objects {A : Type} (field : WorkerInfo → A) (f : WorkerInfo → WorkerInfo)
    (hf : ∀ info, field (f info) = field info) (worker w : ℕ) (pool : Pool) :
    field ((pool.change worker f).objects w) = field (pool.objects w) := by
  unfold Pool.change
  dsimp only
  split
  · exact hf _
  · rfl

theorem exited_objects (worker w : ℕ) (pool : Pool) :
    ((exited worker pool).objects w).active_tasks = (pool.objects w).active_tasks ∧
      ((exited worker pool).objects w).recycling = (pool.objects w).recycling :=
  ⟨change_objects WorkerInfo.active_tasks (fun info => { info with running := false }) (fun _ => rfl) worker w pool,
    change_objects WorkerInfo.recycling (fun info => { info with running := false }) (fun _ => rfl) worker w pool⟩

theorem selectWorker_eq_some {config : Config} {pool : Pool} {w : ℕ} (h : selectWorker config pool = some w) :
    w ∈ pool.workers ∧ (pool.objects w).recycling = false ∧
      (pool.objects w).active_tasks < config.max_concurrent_per_worker := by
  obtain ⟨min_load,-,hw⟩ := Option.bind_eq_some_iff.mp h
  have havailable := List.mem_of_mem_filter (List.mem_of_getElem? hw)
  obtain ⟨hmem,hfree⟩ := List.mem_filter.mp havailable
  simp only [Bool.and_eq_true, Bool.not_eq_true', decide_eq_true_eq] at hfree
  exact ⟨hmem,hfree.1.2,hfree.2⟩

/-- The slots in use are those that calls hold, and only workers of the list that are not recycled have any. -/
structure Counted (config : Config) (pool : Pool) (calls : List Call) : Prop where
  nodup : pool.workers.Nodup
  created : ∀ w ∈ pool.workers, w < pool.created
  counted : ∀ w, (pool.objects w).active_tasks = holders w calls
  bounded : ∀ w, (pool.objects w).active_tasks ≤ config.max_concurrent_per_worker
  held : ∀ call ∈ calls, ∀ w, call.phase.holds w = true → w ∈ pool.workers ∧ (pool.objects w).recycling = false
  recycled : ∀ call ∈ calls, ∀ w, call.phase.recycles w = true → (pool.objects w).recycling = true ∧ w < pool.created

variable {config : Config} {pool pool' : Pool} {calls : List Call} {i : ℕ} {call call' : Call}

theorem holders_set (hi : calls[i]? = some call) (call' : Call) (w : ℕ) :
    holders w (calls.set i call') + (call.phase.holds w).toNat = holders w calls + (call'.phase.holds w).toNat := by
  obtain ⟨hlt,rfl⟩ := List.getElem?_eq_some_iff.mp hi
  have hone : ∀ b : Bool, (if b = true then 1 else 0) = b.toNat := by decide
  have hle : (calls[i].phase.holds w).toNat ≤ holders w calls := by
    cases hheld : calls[i].phase.holds w with
    | false => exact Nat.zero_le _
    | true => exact List.countP_pos_iff.mpr ⟨calls[i],List.getElem_mem hlt,hheld⟩
  unfold holders at hle ⊢
  rw [List.countP_set hlt, hone, hone]
  omega

theorem Counted.not_held (h : Counted config pool calls) {w : ℕ} (hw : (pool.objects w).recycling = true) :
    (pool.objects w).active_tasks = 0 := by
  rw [h.counted, holders, List.countP_eq_zero]
  intro call hcall hheld
  rw [(h.held call hcall w hheld).2] at hw
  cases hw

theorem Counted.move (h : Counted config pool calls) (hi : calls[i]? = some call)
    (hnodup : pool'.workers.Nodup) (hcreated : ∀ w ∈ pool'.workers, w < pool'.created)
    (hle : pool.created ≤ pool'.created)
    (hactive : ∀ w, (pool'.objects w).active_tasks + (call.phase.holds w).toNat =
      (pool.objects w).active_tasks + (call'.phase.holds w).toNat)
    (hbounded : ∀ w, (pool'.objects w).active_tasks ≤ config.max_concurrent_per_worker)
    (hkept : ∀ w ∈ pool.workers, (pool.objects w).recycling = false → 0 < (pool'.objects w).active_tasks →
      w ∈ pool'.workers ∧ (pool'.objects w).recycling = false)
    (hheld : ∀ w, call'.phase.holds w = true → w ∈ pool.workers ∧ (pool.objects w).recycling = false)
    (hmono : ∀ w < pool.created, (pool.objects w).recycling = true → (pool'.objects w).recycling = true)
    (hrecycles : ∀ w, call'.phase.recycles w = true → (pool'.objects w).recycling = true ∧ w < pool'.created) :
    Counted config pool' (calls.set i call') := by
  have hcounted : ∀ w, (pool'.objects w).active_tasks = holders w (calls.set i call') := by
    intro w
    have hset := holders_set hi call' w
    have hw := hactive w
    rw [h.counted] at hw
    omega
  refine ⟨hnodup,hcreated,hcounted,hbounded,?_,?_⟩
  · intro c hc w hw
    have hpos : 0 < (pool'.objects w).active_tasks := by
      rw [hcounted]
      exact List.countP_pos_iff.mpr ⟨c,hc,hw⟩
    rcases List.mem_or_eq_of_mem_set hc with hc | rfl
    · obtain ⟨hmem,hfree⟩ := h.held c hc w hw
      exact hkept w hmem hfree hpos
    · obtain ⟨hmem,hfree⟩ := hheld w hw
      exact hkept w hmem hfree hpos
  · intro c hc w hw
    rcases List.mem_or_eq_of_mem_set hc with hc | rfl
    · obtain ⟨hrec,hlt⟩ := h.recycled c hc w hw
      exact ⟨hmono w hlt hrec,Nat.lt_of_lt_of_le hlt hle⟩
    · exact hrecycles w hw

theorem Counted.quiet (h : Counted config pool calls) (hi : calls[i]? = some call)
    (hworkers : pool'.workers = pool.workers) (hcreated : pool'.created = pool.created)
    (hactive : ∀ w, (pool'.objects w).active_tasks = (pool.objects w).active_tasks)
    (hrecycling : ∀ w, (pool'.objects w).recycling = (pool.objects w).recycling)
    (hholds : ∀ w, call'.phase.holds w = call.phase.holds w)
    (hrecycles : ∀ w, call'.phase.recycles w = true → call.phase.recycles w = true) :
    Counted config pool' (calls.set i call') := by
  have hmem := List.mem_of_getElem? hi
  refine h.move hi ?_ ?_ (Nat.le_of_eq hcreated.symm) ?_ ?_ ?_ ?_ ?_ ?_
  · rw [hworkers]
    exact h.nodup
  · rw [hworkers, hcreated]
    exact h.created
  · intro w
    rw [hactive, hholds]
  · intro w
    rw [hactive]
    exact h.bounded w
  · intro w hw hfree _
    rw [hworkers, hrecycling]
    exact ⟨hw,hfree⟩
  · intro w hw
    rw [hholds] at hw
    exact h.held call hmem w hw
  · intro w _ hw
    rw [hrecycling]
    exact hw
  · intro w hw
    rw [hrecycling, hcreated]
    exact h.recycled call hmem w (hrecycles w hw)

theorem recycles_cases {phase : Phase} {w : ℕ} (h : phase.recycles w = true) : phase = .terminating w ∨ phase = .killing w ∨
    phase = .spawning w ∨ ∃ spawned, phase = .replacing w spawned := by
  cases phase with
  | terminating => exact .inl (congrArg Phase.terminating (beq_iff_eq.mp h))
  | killing => exact .inr (.inl (congrArg Phase.killing (beq_iff_eq.mp h)))
  | spawning => exact .inr (.inr (.inl (congrArg Phase.spawning (beq_iff_eq.mp h))))
  | replacing worker spawned => exact .inr (.inr (.inr ⟨spawned,congrArg (Phase.replacing · spawned) (beq_iff_eq.mp h)⟩))
  | _ => cases h

theorem not_holds_of_recycles {phase : Phase} {w : ℕ} (h : phase.recycles w = true) (v : ℕ) : phase.holds v = false := by
  rcases recycles_cases h with rfl | rfl | rfl | ⟨_,rfl⟩ <;> rfl

theorem eq_of_recycles {phase : Phase} {v w : ℕ} (h : phase.recycles w = true) (hv : phase.recycles v = true) : v = w := by
  rcases recycles_cases h with rfl | rfl | rfl | ⟨_,rfl⟩ <;> exact (beq_iff_eq.mp hv).symm

theorem Counted.acquire {w : ℕ} (h : Counted config pool calls) (hi : calls[i]? = some call)
    (hphase : call.phase = .acquiring) (hw : selectWorker config pool = some w) (hphase' : call'.phase = .executing w) :
    Counted config (acquireWorker pool w) (calls.set i call') := by
  obtain ⟨hmem,hfree,hless⟩ := selectWorker_eq_some hw
  have hobjects : ∀ v, (acquireWorker pool w).objects v =
      if v = w then { pool.objects v with active_tasks := (pool.objects v).active_tasks + 1 } else pool.objects v :=
    fun _ => rfl
  refine h.move hi h.nodup h.created (Nat.le_refl _) ?_ ?_ ?_ ?_ ?_ ?_
  · intro v
    rw [hobjects, hphase, hphase']
    by_cases hv : v = w
    · subst hv
      simp [Phase.holds]
    · simp [Phase.holds, hv, Ne.symm hv]
  · intro v
    rw [hobjects]
    split
    · rename_i hv
      exact hv ▸ hless
    · exact h.bounded v
  · intro v hv hvfree _
    rw [hobjects]
    refine ⟨hv,?_⟩
    split
    · exact hvfree
    · exact hvfree
  · intro v hv
    rw [hphase'] at hv
    obtain rfl := beq_iff_eq.mp hv
    exact ⟨hmem,hfree⟩
  · intro v _ hv
    rw [hobjects]
    split
    · exact hv
    · exact hv
  · intro v hv
    rw [hphase'] at hv
    cases hv

/-- A slot that a call has is freed, and its worker is to be recycled only if nobody has another one. -/
theorem Counted.free {w : ℕ} {recycle : Bool} (h : Counted config pool calls) (hi : calls[i]? = some call)
    (hphase : call.phase = .releasing w) (hholds : ∀ v, call'.phase.holds v = false)
    (hrecycles : ∀ v, call'.phase.recycles v = true → recycle = true ∧ v = w)
    (hrecycle : recycle = true → (pool.objects w).active_tasks - 1 = 0) :
    Counted config (pool.change w fun info => { info.completed with recycling := info.recycling || recycle })
      (calls.set i call') := by
  have hmem := List.mem_of_getElem? hi
  have hhas : call.phase.holds w = true := by
    rw [hphase]
    exact beq_self_eq_true w
  obtain ⟨hlist,hfree⟩ := h.held call hmem w hhas
  -- the call itself is counted, so that the subtraction is exact
  have hpos : 0 < (pool.objects w).active_tasks := by
    rw [h.counted]
    exact List.countP_pos_iff.mpr ⟨call,hmem,hhas⟩
  have hself : ∀ v, (pool.change w fun info => { info.completed with recycling := info.recycling || recycle }).objects v =
      if v = w then { (pool.objects v).completed with recycling := (pool.objects v).recycling || recycle }
      else pool.objects v := fun _ => rfl
  refine h.move hi h.nodup h.created (Nat.le_refl _) ?_ ?_ ?_ ?_ ?_ ?_
  · intro v
    rw [hself, hholds, hphase]
    by_cases hv : v = w
    · subst hv
      simp [Phase.holds, WorkerInfo.completed]
      omega
    · simp [Phase.holds, hv, Ne.symm hv]
  · intro v
    rw [hself]
    split
    · exact Nat.le_trans (Nat.sub_le ..) (h.bounded v)
    · exact h.bounded v
  · intro v hv hvfree hvpos
    refine ⟨hv,?_⟩
    rw [hself] at hvpos ⊢
    split
    · rename_i heq
      subst heq
      rw [if_pos rfl] at hvpos
      have hvpos : 0 < (pool.objects v).active_tasks - 1 := hvpos
      cases recycle with
      | false => exact (Bool.or_false _).trans hvfree
      | true =>
        -- a worker that this release marks has no slot left, against the positive count
        have hzero := hrecycle rfl
        omega
    · exact hvfree
  · intro v hv
    rw [hholds] at hv
    cases hv
  · intro v _ hv
    rw [hself]
    split
    · exact (congrArg (· || recycle) hv).trans (Bool.true_or _)
    · exact hv
  · intro v hv
    obtain ⟨htrue,rfl⟩ := hrecycles v hv
    rw [hself, if_pos rfl]
    exact ⟨(congrArg (_ || ·) htrue).trans (Bool.or_true _),h.created v hlist⟩

section Lists
variable {workers : List ℕ} {v w new : ℕ}

theorem mem_replace_of_ne (h : v ∈ workers) (hne : v ≠ w) : v ∈ workers.replace w new := by
  induction workers with
  | nil => cases h
  | cons x xs ih =>
    rw [List.replace_cons]
    rcases List.mem_cons.mp h with rfl | h
    · rw [beq_false_of_ne (Ne.symm hne)]
      exact List.mem_cons_self
    · split
      · exact List.mem_cons_of_mem new h
      · exact List.mem_cons_of_mem x (ih h)

theorem mem_replace (hnodup : workers.Nodup) (h : v ∈ workers.replace w new) : v = new ∨ v ∈ workers ∧ v ≠ w := by
  induction workers with
  | nil => cases h
  | cons x xs ih =>
    obtain ⟨hx,hxs⟩ := List.nodup_cons.mp hnodup
    rw [List.replace_cons] at h
    split at h
    · rename_i heq
      obtain rfl := beq_iff_eq.mp heq
      rcases List.mem_cons.mp h with rfl | h
      · exact .inl rfl
      · refine .inr ⟨List.mem_cons_of_mem w h,?_⟩
        rintro rfl
        exact hx h
    · rename_i hne
      rcases List.mem_cons.mp h with rfl | h
      · exact .inr ⟨List.mem_cons_self,Ne.symm (beq_eq_false_iff_ne.mp hne)⟩
      · rcases ih hxs h with rfl | ⟨hmem,hvw⟩
        · exact .inl rfl
        · exact .inr ⟨List.mem_cons_of_mem x hmem,hvw⟩

theorem nodup_replace (hnodup : workers.Nodup) (hnew : new ∉ workers) : (workers.replace w new).Nodup := by
  induction workers with
  | nil => exact hnodup
  | cons x xs ih =>
    obtain ⟨hx,hxs⟩ := List.nodup_cons.mp hnodup
    have hnx := List.ne_of_not_mem_cons hnew
    have hnxs := List.not_mem_of_not_mem_cons hnew
    rw [List.replace_cons]
    split
    · exact List.nodup_cons.mpr ⟨hnxs,hxs⟩
    · apply List.nodup_cons.mpr
      refine ⟨?_,ih hxs hnxs⟩
      intro hmem
      rcases mem_replace hxs hmem with rfl | ⟨hmem,-⟩
      · exact hnx rfl
      · exact hx hmem

end Lists

/-- The worker that a call recycles is replaced or removed. Nobody has a slot of it. -/
theorem Counted.replace {w : ℕ} {spawned : Bool} (h : Counted config pool calls) (hi : calls[i]? = some call)
    (hphase : call.phase.recycles w = true) (hholds : ∀ v, call'.phase.holds v = false)
    (hrecycles : ∀ v, call'.phase.recycles v = false) :
    Counted config (replaceWorker w spawned pool) (calls.set i call') := by
  have hrec := (h.recycled call (List.mem_of_getElem? hi) w hphase).1
  have hne : ∀ v, (pool.objects v).recycling = false → v ≠ w := by
    rintro v hv rfl
    rw [hrec] at hv
    cases hv
  have hfresh : pool.created ∉ pool.workers := fun hmem => Nat.lt_irrefl _ (h.created _ hmem)
  -- nobody has a slot of a worker that is not there yet
  have hunheld : (pool.objects pool.created).active_tasks = 0 := by
    rw [h.counted, holders, List.countP_eq_zero]
    intro c hc hheld
    exact hfresh (h.held c hc _ hheld).1
  cases spawned with
  | false =>
    -- no process for the replacement: the worker is removed
    refine h.move hi (h.nodup.erase w) ?_ (Nat.le_refl _) ?_ h.bounded ?_ ?_ (fun _ _ h => h) ?_
    · intro v hv
      exact h.created v (List.mem_of_mem_erase hv)
    · intro v
      rw [hholds, not_holds_of_recycles hphase]
      rfl
    · intro v hv hfree _
      exact ⟨(List.mem_erase_of_ne (hne v hfree)).mpr hv,hfree⟩
    · intro v hv
      rw [hholds] at hv
      cases hv
    · intro v hv
      rw [hrecycles] at hv
      cases hv
  | true =>
    have hobjects : ∀ v, (replaceWorker w true pool).objects v =
        if v = pool.created then { worker_id := (pool.objects w).worker_id } else pool.objects v := fun _ => rfl
    have hactive : ∀ v, ((replaceWorker w true pool).objects v).active_tasks = (pool.objects v).active_tasks := by
      intro v
      rw [hobjects]
      split
      · rename_i hv
        rw [hv, hunheld]
      · rfl
    refine h.move hi (nodup_replace h.nodup hfresh) ?_ (Nat.le_succ _) ?_ ?_ ?_ ?_ ?_ ?_
    · intro v hv
      rcases mem_replace h.nodup hv with rfl | ⟨hmem,-⟩
      · exact Nat.lt_succ_self _
      · exact Nat.lt_succ_of_lt (h.created v hmem)
    · intro v
      rw [hactive, hholds, not_holds_of_recycles hphase]
    · intro v
      rw [hactive]
      exact h.bounded v
    · intro v hv hfree _
      refine ⟨mem_replace_of_ne hv (hne v hfree),?_⟩
      rw [hobjects]
      split
      · rfl
      · exact hfree
    · intro v hv
      rw [hholds] at hv
      cases hv
    · intro v hv hrecv
      rw [hobjects, if_neg (Nat.ne_of_lt hv)]
      exact hrecv
    · intro v hv
      rw [hrecycles] at hv
      cases hv

theorem forceRelease_eq (w : ℕ) (pool : Pool) : forceRelease w pool =
    pool.change w fun info => { info.completed with recycling := info.recycling || false } := by
  unfold forceRelease
  congr 1
  funext info
  rw [Bool.or_false]
  rfl

/-- Every step keeps the count. -/
theorem Counted.step {event : Event} (h : Counted config pool calls) (hi : calls[i]? = some call)
    (hstep : Step config pool call event pool' call') : Counted config pool' (calls.set i call') := by
  have hmem := List.mem_of_getElem? hi
  cases hstep with
  | wait => exact h.quiet hi rfl rfl (fun _ => rfl) (fun _ => rfl) (fun _ => rfl) fun _ h => h
  | acquire hphase hw => exact h.acquire hi hphase hw rfl
  | stop hphase =>
    refine h.quiet hi rfl rfl (fun _ => rfl) (fun _ => rfl) ?_ ?_
    · intro w
      rw [hphase]
      rfl
    · intro w hw
      cases hw
  | finish hphase =>
    refine h.quiet hi rfl rfl (fun _ => rfl) (fun _ => rfl) ?_ ?_
    · intro w
      rw [hphase]
      rfl
    · intro w hw
      cases hw
  | @release w hphase =>
    refine h.free hi hphase ?_ ?_ ?_
    · intro v
      dsimp only
      split <;> rfl
    · intro v hv
      dsimp only at hv
      split at hv
      · rename_i hrecycle
        exact ⟨hrecycle,(beq_iff_eq.mp hv).symm⟩
      · cases hv
    · intro hrecycle
      simp only [shouldRecycle, Bool.and_eq_true, beq_iff_eq] at hrecycle
      exact hrecycle.1.2
  | force hphase =>
    rw [forceRelease_eq]
    refine h.free hi hphase (fun _ => rfl) ?_ ?_
    · intro v hv
      cases hv
    · intro hfalse
      cases hfalse
  | @proceed w _ phase _ hphase hphase' hpool =>
    -- the phases of a recycling hold no slot and recycle the same worker
    have hholds : ∀ v, phase.holds v = call.phase.holds v := by
      intro v
      rw [not_holds_of_recycles hphase, not_holds_of_recycles hphase']
    have hrecycles : ∀ v, phase.recycles v = true → call.phase.recycles v = true := by
      intro v hv
      rw [eq_of_recycles hphase' hv]
      exact hphase
    rcases hpool with rfl | rfl
    · exact h.quiet hi rfl rfl (fun _ => rfl) (fun _ => rfl) hholds hrecycles
    · refine h.quiet hi rfl rfl ?_ ?_ hholds hrecycles
      · intro v
        exact (exited_objects w v pool).1
      · intro v
        exact (exited_objects w v pool).2
  | replace hphase => exact h.replace hi hphase (fun _ => rfl) fun _ => rfl
  | abandon hphase =>
    refine h.quiet hi rfl rfl (fun _ => rfl) (fun _ => rfl) ?_ ?_
    · intro v
      rw [not_holds_of_recycles hphase]
      rfl
    · intro v hv
      cases hv
  | @disturb w hphase =>
    -- its worker has no slots in use, so that the second release leaves none
    have hzero := h.not_held (h.recycled call hmem w hphase).1
    refine h.quiet hi rfl rfl ?_ ?_ ?_ ?_
    · intro v
      simp only [forceRelease, Pool.change]
      split
      · rename_i hv
        subst hv
        simp only [WorkerInfo.completed, hzero]
      · rfl
    · intro v
      exact change_objects WorkerInfo.recycling WorkerInfo.completed (fun _ => rfl) w v pool
    · intro v
      rw [not_holds_of_recycles hphase]
      rfl
    · intro v hv
      cases hv

end WorkerPools
end Allama

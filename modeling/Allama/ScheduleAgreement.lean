import Allama.Runs
import Allama.Schedules

/-! The row of a schedule and its schedule of Temporal are updated by rules of their own: they describe the same schedule as
long as each call leaves exactly one trigger in the row, and Temporal sees every field that the row gets. -/
namespace Allama
namespace Schedules
open RecordFields
section Specification
variable {Inputs Timeout : Type} [EmptyCollection Inputs] (isValid : String → Bool) (truthy : Timeout → Bool)
  (timedeltaOf : Timeout → Option Int)

def activeCron (cron : Option String) : Option String := cron.filter fun cron => !blank cron

def OneTrigger (cron : Option String) (every : Option Int) : Prop := (activeCron cron).isSome ≠ every.isSome

instance (cron : Option String) (every : Option Int) : Decidable (OneTrigger cron every) :=
  inferInstanceAs (Decidable (_ ≠ _))

/-- A row and a schedule of Temporal describe the same trigger, bounds, timeout and paused state. -/
structure Describes (row : Schedule Inputs Timeout) (schedule : TemporalSchedule) : Prop where
  one : OneTrigger row.cron row.every
  cron : schedule.spec.cron_expressions = (activeCron row.cron).toList
  intervals : schedule.spec.intervals = (row.every.map fun every => ⟨every,row.offset⟩).toList
  start_at : schedule.spec.start_at = row.start_at
  end_at : schedule.spec.end_at = row.end_at
  timeout : executionTimeout truthy timedeltaOf row.timeout = some schedule.execution_timeout
  paused : schedule.paused = true ↔ row.status ≠ .online

/-- Every row has a schedule of Temporal that describes the same. -/
def Agree (st : State Inputs Timeout) : Prop :=
  ∀ id row, st.rows.lookup id = some row →
    ∃ schedule, st.temporal.lookup id = some schedule ∧ Describes truthy timedeltaOf row schedule

/-- A create with exactly one trigger, and a timeout that is a duration if it is not zero. -/
def CreatesOne (params : ScheduleCreate Inputs Timeout) : Prop :=
  OneTrigger params.cron params.every ∧ (truthy params.timeout → (timedeltaOf params.timeout).isSome)

instance (params : ScheduleCreate Inputs Timeout) : Decidable (CreatesOne truthy timedeltaOf params) :=
  inferInstanceAs (Decidable (_ ∧ (_ → _)))

/-- An update, with what the row has where it omits a field, that has exactly one trigger, that does not switch to an
interval under an offset of the row, and that changes no field of the description if it supplies inputs. -/
def UpdatesOne (row : Schedule Inputs Timeout) (params : ScheduleUpdate Inputs) : Prop :=
  OneTrigger (params.cron.getD row.cron) (params.every.getD row.every) ∧
    (row.every = none → (params.every.getD row.every).isSome → params.offset = none → row.offset = none) ∧
    (params.inputs.isSome → activeCron (params.cron.getD row.cron) = activeCron row.cron ∧
      params.every.getD row.every = row.every ∧ (row.every.isSome → params.offset.getD row.offset = row.offset) ∧
      params.start_at.getD row.start_at = row.start_at ∧ params.end_at.getD row.end_at = row.end_at ∧
      params.status.getD (some row.status) = some row.status)

instance (row : Schedule Inputs Timeout) (params : ScheduleUpdate Inputs) : Decidable (UpdatesOne row params) :=
  inferInstanceAs (Decidable (_ ∧ (_ → _ → _ → _) ∧ (_ → _ ∧ _ ∧ (_ → _) ∧ _ ∧ _ ∧ _)))

/-- A call keeps to one trigger: an update of a row that is there, unless its status is null. -/
def KeepsOneTrigger (st : State Inputs Timeout) : Call Inputs Timeout → Prop
  | .create params => CreatesOne truthy timedeltaOf params
  | .update id params => params.status ≠ some none → ∀ row ∈ st.rows.lookup id, UpdatesOne row params

instance (st : State Inputs Timeout) (c : Call Inputs Timeout) : Decidable (KeepsOneTrigger truthy timedeltaOf st c) :=
  match c with
  | .create params => inferInstanceAs (Decidable (CreatesOne truthy timedeltaOf params))
  | .update id params => inferInstanceAs (Decidable
      (params.status ≠ some none → ∀ row ∈ st.rows.lookup id, UpdatesOne row params))

end Specification

section Agreement
variable {Inputs Timeout : Type} [EmptyCollection Inputs] {isValid : String → Bool} {truthy : Timeout → Bool}
  {timedeltaOf : Timeout → Option Int}

theorem describes_create {params : ScheduleCreate Inputs Timeout} (h : CreatesOne truthy timedeltaOf params) :
    ∃ schedule, bridgeCreateSchedule truthy timedeltaOf params = some schedule ∧
      Describes truthy timedeltaOf (Schedule.ofCreate params) schedule := by
  obtain ⟨hone,htimeout⟩ := h
  obtain ⟨execution_timeout,hexecution⟩ : ∃ t, executionTimeout truthy timedeltaOf params.timeout = some t := by
    unfold executionTimeout
    split
    · rename_i htruthy
      obtain ⟨d,hd⟩ := Option.isSome_iff_exists.mp (htimeout htruthy)
      exact ⟨some d,by rw [hd]; rfl⟩
    · exact ⟨none,rfl⟩
  -- a schedule is created unpaused, and its row online
  have hpaused : ∀ spec : ScheduleSpec, (⟨spec,execution_timeout,false⟩ : TemporalSchedule).paused = true ↔
      (Schedule.ofCreate params : Schedule Inputs Timeout).status ≠ .online := fun _ =>
    ⟨fun h => absurd h Bool.false_ne_true,fun h => absurd rfl h⟩
  unfold bridgeCreateSchedule
  rw [hexecution]
  dsimp only
  have hcron : params.cron.filter (fun cron => !blank cron) = activeCron params.cron := rfl
  rw [hcron]
  unfold OneTrigger at hone
  cases hactive : activeCron params.cron with
  | none =>
    cases hevery : params.every with
    | none =>
      rw [hactive, hevery] at hone
      exact absurd rfl hone
    | some every =>
      refine ⟨_,rfl,hone,?_,?_,rfl,rfl,hexecution,hpaused _⟩
      · change [] = (activeCron params.cron).toList
        rw [hactive]
        rfl
      · change [_] = (params.every.map _).toList
        rw [hevery]
        rfl
  | some cron =>
    cases hevery : params.every with
    | none =>
      refine ⟨_,rfl,hone,?_,?_,rfl,rfl,hexecution,hpaused _⟩
      · change [cron] = (activeCron params.cron).toList
        rw [hactive]
        rfl
      · change [] = (params.every.map _).toList
        rw [hevery]
        rfl
    | some every =>
      rw [hactive, hevery] at hone
      exact absurd rfl hone

omit [EmptyCollection Inputs] in
theorem updateInterval_describes {row : Schedule Inputs Timeout} {params : ScheduleUpdate Inputs} {spec : ScheduleSpec}
    (hintervals : spec.intervals = (row.every.map fun every => ⟨every,row.offset⟩).toList)
    (hoffset : row.every = none → (params.every.getD row.every).isSome → params.offset = none → row.offset = none) :
    (updateInterval params spec).intervals =
        ((params.every.getD row.every).map fun every => ⟨every,params.offset.getD row.offset⟩).toList ∧
      (updateInterval params spec).cron_expressions =
        (if (params.every.getD row.every).isSome then [] else spec.cron_expressions) := by
  have hevery : params.every.getD (spec.intervals.head?.map ScheduleIntervalSpec.every) = params.every.getD row.every := by
    rw [hintervals]
    cases row.every <;> rfl
  have hsame : (params.every.getD row.every).isSome →
      params.offset.getD (spec.intervals.head?.bind ScheduleIntervalSpec.offset) = params.offset.getD row.offset := by
    intro hsome
    rw [hintervals]
    cases hrow : row.every with
    | none =>
      cases hsupplied : params.offset with
      | none => exact (hoffset hrow hsome hsupplied).symm
      | some offset => rfl
    | some every => rfl
  unfold updateInterval
  dsimp only
  rw [hevery]
  cases hnew : params.every.getD row.every with
  | none => exact ⟨rfl,rfl⟩
  | some every =>
    dsimp only
    rw [hsame (by rw [hnew]; rfl)]
    exact ⟨rfl,rfl⟩

omit [EmptyCollection Inputs] in
/-- The trigger of Temporal after an update is the one of the row. -/
theorem trigger_update (hblank : ∀ cron, isValid cron = true → blank cron = false) {row : Schedule Inputs Timeout}
    {params : ScheduleUpdate Inputs} {spec : ScheduleSpec} (hvalid : params.valid isValid = true)
    (hcron : spec.cron_expressions = (activeCron row.cron).toList)
    (hintervals : spec.intervals = (row.every.map fun every => ⟨every,row.offset⟩).toList)
    (hone' : OneTrigger (params.cron.getD row.cron) (params.every.getD row.every))
    (hoffset : row.every = none → (params.every.getD row.every).isSome → params.offset = none → row.offset = none) :
    (updateTrigger params spec).cron_expressions = (activeCron (params.cron.getD row.cron)).toList ∧
      (updateTrigger params spec).intervals =
        ((params.every.getD row.every).map fun every => ⟨every,params.offset.getD row.offset⟩).toList := by
  unfold OneTrigger at hone'
  cases hsupplied : suppliedCron params with
  | some cron =>
    -- a valid expression is active in both, and the row keeps no interval
    obtain ⟨hjoin,hne⟩ := Option.filter_eq_some_iff.mp hsupplied
    have hset : params.cron = some (some cron) := by
      cases hcron : params.cron with
      | none =>
        rw [hcron] at hjoin
        cases hjoin
      | some value =>
        rw [hcron] at hjoin
        rw [show value = some cron from hjoin]
    have hactive : activeCron (some cron) = some cron := by
      unfold ScheduleUpdate.valid validateCronExpression at hvalid
      rw [hset] at hvalid
      have hcases : cron = "" ∨ isValid cron = true := by simpa using hvalid
      have hnotBlank : blank cron = false := hblank cron (hcases.resolve_left (by simpa using hne))
      simp [activeCron, hnotBlank]
    have hnone : params.every.getD row.every = none := by
      rw [hset, Option.getD_some, hactive] at hone'
      simpa using hone'
    unfold updateTrigger updateCron
    dsimp only
    rw [hset, hsupplied, hnone, Option.getD_some, hactive]
    exact ⟨rfl,rfl⟩
  | none =>
    -- no expression is supplied: the field was omitted, null or empty
    have hstaged : (updateCron params spec).intervals = spec.intervals ∧
        (updateCron params spec).cron_expressions = (activeCron (params.cron.getD row.cron)).toList := by
      unfold updateCron
      rw [hsupplied]
      cases hfield : params.cron with
      | none => exact ⟨rfl,hcron⟩
      | some value =>
        refine ⟨rfl,?_⟩
        have hinactive : activeCron value = none := by
          unfold suppliedCron at hsupplied
          rw [hfield] at hsupplied
          cases value with
          | none => rfl
          | some cron =>
            have hempty : cron = "" := by simpa using hsupplied
            rw [hempty]
            rfl
        rw [Option.getD_some, hinactive]
        rfl
    have hinterval := updateInterval_describes (hstaged.1.trans hintervals) hoffset
    unfold updateTrigger
    dsimp only
    rw [hsupplied]
    by_cases hset : params.every.isSome ∨ params.offset.isSome
    · rw [if_pos ⟨rfl,hset⟩]
      refine ⟨?_,hinterval.1⟩
      rw [hinterval.2]
      split
      · rename_i hevery
        rw [hevery] at hone'
        have hnone : activeCron (params.cron.getD row.cron) = none := by simpa using hone'
        rw [hnone]
        rfl
      · exact hstaged.2
    · rw [if_neg (fun h => hset h.2)]
      have homitted : params.every = none ∧ params.offset = none := by simpa using hset
      rw [homitted.1, homitted.2]
      exact ⟨hstaged.2,hstaged.1.trans hintervals⟩

omit [EmptyCollection Inputs] in
/-- An update that keeps to one trigger leaves a row and a schedule that describe the same. -/
theorem describes_update (hblank : ∀ cron, isValid cron = true → blank cron = false) {row row' : Schedule Inputs Timeout}
    {params : ScheduleUpdate Inputs} {schedule : TemporalSchedule} (hvalid : params.valid isValid = true)
    (h : Describes truthy timedeltaOf row schedule) (hok : UpdatesOne row params) (hrow : row.setFields params = some row') :
    Describes truthy timedeltaOf row' ((bridgeUpdateSchedule params schedule).getD schedule) := by
  obtain ⟨hone',hoffset,hinputs⟩ := hok
  unfold Schedule.setFields at hrow
  split at hrow
  · cases hrow
  rename_i status hstatus
  cases hrow
  unfold bridgeUpdateSchedule
  split
  · -- the bridge raises: nothing of the description may have changed
    rename_i hsupplied
    obtain ⟨hcron,hevery,hsame,hstart,hend,hkept⟩ := hinputs hsupplied
    constructor
    · exact hone'
    · exact h.cron.trans (by rw [hcron])
    · refine h.intervals.trans ?_
      dsimp only
      rw [hevery]
      cases hrowEvery : row.every with
      | none => rfl
      | some every =>
        rw [hsame (by rw [hrowEvery]; rfl)]
    · exact h.start_at.trans hstart.symm
    · exact h.end_at.trans hend.symm
    · exact h.timeout
    · obtain rfl : row.status = status := Option.some.inj (hkept.symm.trans hstatus)
      exact h.paused
  · obtain ⟨hcron,hintervals⟩ := trigger_update hblank hvalid h.cron h.intervals hone' hoffset
    -- an update of the trigger leaves its bounds, which are set from the supplied ones afterwards
    have hbounds : (updateTrigger params schedule.spec).start_at = schedule.spec.start_at ∧
        (updateTrigger params schedule.spec).end_at = schedule.spec.end_at := by
      have hinterval : ∀ spec : ScheduleSpec, (updateInterval params spec).start_at = spec.start_at ∧
          (updateInterval params spec).end_at = spec.end_at := by
        intro spec
        unfold updateInterval
        dsimp only
        split
        · exact ⟨rfl,rfl⟩
        · exact ⟨rfl,rfl⟩
      have hcronBounds : (updateCron params schedule.spec).start_at = schedule.spec.start_at ∧
          (updateCron params schedule.spec).end_at = schedule.spec.end_at := by
        unfold updateCron
        split
        · exact ⟨rfl,rfl⟩
        · exact ⟨rfl,rfl⟩
        · exact ⟨rfl,rfl⟩
      unfold updateTrigger
      dsimp only
      split
      · exact ⟨(hinterval _).1.trans hcronBounds.1,(hinterval _).2.trans hcronBounds.2⟩
      · exact hcronBounds
    constructor
    · exact hone'
    · exact hcron
    · exact hintervals
    · change params.start_at.getD (updateTrigger params schedule.spec).start_at = params.start_at.getD row.start_at
      rw [hbounds.1, h.start_at]
    · change params.end_at.getD (updateTrigger params schedule.spec).end_at = params.end_at.getD row.end_at
      rw [hbounds.2, h.end_at]
    · exact h.timeout
    · cases hsupplied : params.status with
      | none =>
        rw [hsupplied] at hstatus
        obtain rfl : row.status = status := Option.some.inj hstatus
        exact h.paused
      | some value =>
        rw [hsupplied] at hstatus
        obtain rfl : value = some status := hstatus
        simp

/-- The ids of rows and schedules are below the next one. -/
structure Sound (truthy : Timeout → Bool) (timedeltaOf : Timeout → Option Int) (st : State Inputs Timeout) : Prop where
  below : ∀ id row, st.rows.lookup id = some row → id < st.next_id
  agree : Agree truthy timedeltaOf st

omit [EmptyCollection Inputs] in
theorem Sound.put {st : State Inputs Timeout} (h : Sound truthy timedeltaOf st) {schedule_id : Nat}
    {row : Schedule Inputs Timeout} {temporal : List (Nat × TemporalSchedule)} (hknown : schedule_id < st.next_id)
    (hself : ∃ schedule, temporal.lookup schedule_id = some schedule ∧ Describes truthy timedeltaOf row schedule)
    (hother : ∀ id, id ≠ schedule_id → temporal.lookup id = st.temporal.lookup id) :
    Sound truthy timedeltaOf { st with rows := RecordFields.put schedule_id row st.rows, temporal := temporal } := by
  constructor
  · intro id found hfound
    rw [lookup_put] at hfound
    split at hfound
    · rename_i heq
      rw [eq_of_beq heq]
      exact hknown
    · exact h.below id found hfound
  · intro id found hfound
    rw [lookup_put] at hfound
    by_cases heq : id = schedule_id
    · rw [if_pos (beq_iff_eq.mpr heq)] at hfound
      cases hfound
      rw [heq]
      exact hself
    · rw [if_neg (by simpa using heq)] at hfound
      obtain ⟨schedule,hschedule,hdescribes⟩ := h.agree id found hfound
      exact ⟨schedule,(hother id heq).trans hschedule,hdescribes⟩


theorem sound_next (hblank : ∀ cron, isValid cron = true → blank cron = false) {st st' : State Inputs Timeout}
    {c : Call Inputs Timeout} (h : Sound truthy timedeltaOf st) (hok : KeepsOneTrigger truthy timedeltaOf st c)
    (hnext : next isValid truthy timedeltaOf st c = some st') : Sound truthy timedeltaOf st' := by
  cases c with
  | create params =>
    unfold next at hnext
    dsimp only at hnext
    split at hnext
    · cases hnext
      obtain ⟨schedule,hcreate,hdescribes⟩ := describes_create hok
      have hrows : ∀ id, (createSchedule truthy timedeltaOf st params).rows.lookup id =
          if id == st.next_id then some (Schedule.ofCreate params) else st.rows.lookup id := fun id => lookup_put _ _ _ _
      have htemporal : ∀ id, (createSchedule truthy timedeltaOf st params).temporal.lookup id =
          if id == st.next_id then some schedule else st.temporal.lookup id := by
        intro id
        unfold createSchedule
        dsimp only
        rw [hcreate]
        exact lookup_put _ _ _ _
      constructor
      · intro id row hrow
        change id < st.next_id + 1
        rw [hrows] at hrow
        split at hrow
        · rename_i heq
          rw [eq_of_beq heq]
          exact Nat.lt_succ_self _
        · exact Nat.lt_succ_of_lt (h.below id row hrow)
      · intro id row hrow
        rw [hrows] at hrow
        rw [htemporal]
        split
        · rename_i heq
          rw [if_pos heq] at hrow
          cases hrow
          exact ⟨schedule,rfl,hdescribes⟩
        · rename_i hne
          rw [if_neg hne] at hrow
          exact h.agree id row hrow
    · cases hnext
  | update schedule_id params =>
    unfold next at hnext
    dsimp only at hnext
    split at hnext
    · rename_i hvalid
      cases hnext
      unfold updateSchedule
      cases hbind : (st.rows.lookup schedule_id).bind fun row => row.setFields params with
      | none => exact h
      | some row' =>
        obtain ⟨row,hrow,hset⟩ := Option.bind_eq_some_iff.mp hbind
        -- a null status fails in the database, so that the row would not be there
        have hstatus : params.status ≠ some none := by
          intro hnull
          unfold Schedule.setFields at hset
          rw [hnull] at hset
          cases hset
        obtain ⟨schedule,htemporal,hdescribes⟩ := h.agree schedule_id row hrow
        have hdescribes' := describes_update hblank hvalid hdescribes (hok hstatus row hrow) hset
        rw [htemporal, Option.bind_some]
        have hknown : schedule_id < st.next_id := h.below schedule_id row hrow
        cases hbridge : bridgeUpdateSchedule params schedule with
        | none =>
          rw [hbridge] at hdescribes'
          exact h.put hknown ⟨schedule,htemporal,hdescribes'⟩ fun _ _ => rfl
        | some schedule' =>
          rw [hbridge] at hdescribes'
          refine h.put hknown ⟨schedule',?_,hdescribes'⟩ ?_
          · rw [lookup_put, if_pos (beq_self_eq_true _)]
          · intro id hne
            rw [lookup_put, if_neg (by simpa using hne)]
    · cases hnext

/-- In a run whose calls keep to one trigger, every row has a schedule of Temporal that describes the same. -/
theorem agree_of_reaches (hblank : ∀ cron, isValid cron = true → blank cron = false) {st : State Inputs Timeout}
    (h : Runs.Reaches (next isValid truthy timedeltaOf) (KeepsOneTrigger truthy timedeltaOf) State.empty st) :
    Agree truthy timedeltaOf st := by
  have hempty : Sound truthy timedeltaOf (State.empty : State Inputs Timeout) :=
    ⟨fun _ _ h => (Option.some_ne_none _ h.symm).elim,fun _ _ h => (Option.some_ne_none _ h.symm).elim⟩
  have hsound : Sound truthy timedeltaOf st :=
    h.invariant hempty fun _ _ _ _ hsound hok hnext => sound_next hblank hsound hok hnext
  exact hsound.agree

/-- Nightly, and then every hour until it is paused. -/
def switchedSchedule : List (Call (List String) Nat) :=
  [.create { cron := some "0 0 * * *", timeout := 300 },
    .update 0 { cron := some none, every := some (some 3600000000) },
    .update 0 { status := some (some .offline) }]

def isNightly (cron : String) : Bool := cron = "0 0 * * *"

def seconds (timeout : Nat) : Option Int := some (timeout * 1000000)

theorem agree_of_switchedSchedule : ∃ st,
    Runs.follow (next isNightly (fun timeout => timeout ≠ 0) seconds) State.empty switchedSchedule = some st ∧
      Agree (fun timeout => timeout ≠ 0) seconds st := by
  have hrun : ∃ st, Runs.followOk (next isNightly (fun timeout => timeout ≠ 0) seconds)
      (fun st c => decide (KeepsOneTrigger (fun timeout => timeout ≠ 0) seconds st c)) State.empty switchedSchedule =
        some st ∧
      Runs.follow (next isNightly (fun timeout => timeout ≠ 0) seconds) State.empty switchedSchedule = some st :=
    ⟨_,rfl,rfl⟩
  obtain ⟨st,hok,hst⟩ := hrun
  have hblank : ∀ cron, isNightly cron = true → blank cron = false := by
    intro cron hcron
    rw [of_decide_eq_true hcron]
    rfl
  exact ⟨st,hst,agree_of_reaches hblank ((Runs.reaches_of_followOk hok).weaken fun _ _ h => of_decide_eq_true h)⟩

/-- An update that supplies a cron expression clears the interval in Temporal only. -/
theorem interval_left_in_row : ∃ st,
    Runs.Reachable (next isNightly (fun timeout => timeout ≠ 0) seconds) (State.empty : State (List String) Nat) st ∧
      ¬ Agree (fun timeout => timeout ≠ 0) seconds st := by
  have hrun : ∃ st, Runs.follow (next isNightly (fun timeout => timeout ≠ 0) seconds)
      (State.empty : State (List String) Nat)
      [.create { every := some 3600000000, timeout := 0 }, .update 0 { cron := some (some "0 0 * * *") }] = some st ∧
      (st.rows.lookup 0).map (fun row => (row.cron,row.every)) = some (some "0 0 * * *",some 3600000000) := ⟨_,rfl,rfl⟩
  obtain ⟨st,hst,hrow⟩ := hrun
  refine ⟨st,Runs.reachable_of_follow hst,?_⟩
  intro hagree
  obtain ⟨row,hlookup,hfields⟩ := Option.map_eq_some_iff.mp hrow
  obtain ⟨hcron,hevery⟩ := Prod.mk.inj hfields
  obtain ⟨schedule,-,hdescribes⟩ := hagree 0 row hlookup
  have hone := hdescribes.one
  rw [hcron, hevery] at hone
  exact hone (by decide)

end Agreement
end Schedules
end Allama

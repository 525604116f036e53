import Mathlib.Order.Basic
import Allama.KeyedStore
import Allama.CompactMembers

/-! When the listing of compact events tells of each task what its events tell. -/
namespace Allama
open RecordFields

namespace CompactEvents
variable {Input Failure : Type}

def isFailed (event : HistoryEvent Input Failure) : Bool :=
  match taskEvent event with
  | some (.failed _) => true
  | _ => false

def completedResult (event : HistoryEvent Input Failure) : Option Value :=
  match taskEvent event with
  | some (.completed result) => some result
  | _ => none

section Facts
variable (events : List (HistoryEvent Input Failure)) (pending : List PendingActivity)

/-- The source events of a task. -/
def members (t : Task) : List (ℕ × Compact Input Failure) := (sources events).filter fun s => s.2.task = t

def Fails (s : ℕ × Compact Input Failure) : Prop :=
  s.2.action_error.isSome ∨ ∃ event ∈ attached events s.1, isFailed event

/-- When a member started: as its activity is pending, or as its history tells. -/
def startOf (s : ℕ × Compact Input Failure) : Option ℕ :=
  ((pendingOf events pending s.1).filterMap PendingActivity.last_started_time).getLast?.or
    ((((attached events s.1).filter isStarted).getLast?.map HistoryEvent.event_time).or s.2.start_time)

def closeOf (s : ℕ × Compact Input Failure) : Option ℕ :=
  (((attached events s.1).filter fun event => (completedResult event).isSome).getLast?.map HistoryEvent.event_time).or
    s.2.close_time

def resultOf (s : ℕ × Compact Input Failure) : Value :=
  ((attached events s.1).filterMap completedResult).getLast?.getD s.2.action_result

/-- What the listing is to tell: one entry for each task that was scheduled, failed with an error if a member failed, with the
results of a looped child at their loop indices, and with the first start and the last close. -/
structure Tells (entries : List (Compact Input Failure)) : Prop where
  once : (entries.map Compact.task).Nodup
  listed : ∀ t, t ∈ entries.map Compact.task ↔ t ∈ (sources events).map fun s => s.2.task
  failed : ∀ entry ∈ entries, (∃ s ∈ members events entry.task, Fails events s) →
    entry.status = .failed ∧ entry.action_error.isSome
  results : ∀ entry ∈ entries, (∃ s ∈ members events entry.task, s.2.loop_index.isSome) →
    ∃ results, entry.action_result = .list results ∧
      results.length = (members events entry.task).countP (fun s => s.2.loop_index.isSome) ∧
      ∀ s ∈ members events entry.task, ∀ k, s.2.loop_index = some k → results[k]? = some (resultOf events s)
  start : ∀ entry ∈ entries, entry.start_time = ((members events entry.task).filterMap (startOf events pending)).min?
  close : ∀ entry ∈ entries, entry.close_time = ((members events entry.task).filterMap (closeOf events)).max?

/-- The first member stands for the task: if a member failed the first one did, and is not detached; a looped child has only
looped members, each with the result of the one at its loop index; the first one has a start and a close if any has. -/
structure FirstStands (first : ℕ × Compact Input Failure) (rest : List (ℕ × Compact Input Failure)) : Prop where
  failed : (∃ s ∈ first :: rest, Fails events s) → Fails events first ∧ first.2.status ≠ .detached
  results : (∃ s ∈ first :: rest, s.2.loop_index.isSome) → (∀ s ∈ first :: rest, s.2.loop_index.isSome) ∧
    ∀ s ∈ first :: rest, ∀ k, s.2.loop_index = some k →
      (first :: rest)[k]?.map (resultOf events) = some (resultOf events s)
  start : startOf events pending first = none → ∀ s ∈ rest, startOf events pending s = none
  close : closeOf events first = none → ∀ s ∈ rest, closeOf events s = none

end Facts

section Member
variable {events : List (HistoryEvent Input Failure)} {pending : List PendingActivity} {s : ℕ × Compact Input Failure}
variable (as : List (HistoryEvent Input Failure)) (c : Compact Input Failure)

theorem foldl_keeps {A X : Type} (step : Compact Input Failure → A → Compact Input Failure) (f : Compact Input Failure → X)
    (hstep : ∀ c a, f (step c a) = f c) (as : List A) (c : Compact Input Failure) : f (as.foldl step c) = f c := by
  induction as generalizing c with
  | nil => rfl
  | cons a as ih => exact (ih _).trans (hstep c a)

theorem attach_keeps {X : Type} (f : Compact Input Failure → X)
    (hf : ∀ (c : Compact Input Failure) type status start close result error,
      f { c with
          curr_event_type := type, status := status, start_time := start, close_time := close, action_result := result
          action_error := error } = f c)
    (c : Compact Input Failure) (event : HistoryEvent Input Failure) : f (attach c event) = f c := by
  unfold attach
  split
  · exact hf ..
  · rfl

theorem member_task : (member events pending s).task = s.2.task :=
  (foldl_keeps applyPending Compact.task (fun _ _ => rfl) _ _).trans
    (foldl_keeps attach Compact.task (attach_keeps _ fun _ _ _ _ _ _ _ => rfl) _ _)

theorem member_loop_index : (member events pending s).loop_index = s.2.loop_index :=
  (foldl_keeps applyPending Compact.loop_index (fun _ _ => rfl) _ _).trans
    (foldl_keeps attach Compact.loop_index (attach_keeps _ fun _ _ _ _ _ _ _ => rfl) _ _)

theorem taskEvent_none_iff (event : HistoryEvent Input Failure) : taskEvent event = none ↔ historyToWfEventType event = none := by
  unfold taskEvent historyToWfEventType
  cases event.attributes with
  | activityTask id e => cases e <;> simp
  | childWorkflowExecution id e => cases e <;> simp
  | _ => simp

theorem attach_eq {event : HistoryEvent Input Failure} {e : TaskEvent Failure} (he : taskEvent event = some e)
    (c : Compact Input Failure) : ∃ type, historyToWfEventType event = some type ∧ attach c event =
      { c with
        curr_event_type := type
        status := if c.status ≠ .detached then type.toStatus else c.status
        start_time := match e with
          | .started => some event.event_time
          | _ => c.start_time
        close_time := match e with
          | .completed _ => some event.event_time
          | _ => c.close_time
        action_result := match e with
          | .completed result => result
          | _ => c.action_result
        action_error := match e with
          | .failed failure => some failure
          | _ => c.action_error } := by
  cases htype : historyToWfEventType event with
  | none =>
    rw [(taskEvent_none_iff event).mpr htype] at he
    cases he
  | some type =>
    refine ⟨type,rfl,?_⟩
    unfold attach
    split
    · rename_i type' e' htype' he'
      obtain rfl := Option.some.inj (htype.symm.trans htype')
      obtain rfl := Option.some.inj (he.symm.trans he')
      cases e <;> rfl
    · rename_i hno
      exact (hno type e htype he).elim

theorem attach_none {event : HistoryEvent Input Failure} (he : taskEvent event = none) (c : Compact Input Failure) :
    attach c event = c := by
  unfold attach
  rw [(taskEvent_none_iff event).mp he]

theorem attach_fields (event : HistoryEvent Input Failure) :
    (attach c event).start_time = (if isStarted event then some event.event_time else c.start_time) ∧
    (attach c event).close_time = (if (completedResult event).isSome then some event.event_time else c.close_time) ∧
    (attach c event).action_result = (completedResult event).getD c.action_result ∧
    (attach c event).action_error.isSome = (c.action_error.isSome || isFailed event) := by
  cases he : taskEvent event with
  | none =>
    rw [attach_none he]
    simp [isStarted, completedResult, isFailed, he]
  | some e =>
    obtain ⟨type,-,heq⟩ := attach_eq he c
    rw [heq]
    cases e <;> simp [isStarted, completedResult, isFailed, he]

theorem attached_start :
    (as.foldl attach c).start_time = ((as.filter isStarted).getLast?.map HistoryEvent.event_time).or c.start_time := by
  induction as using List.reverseRecOn with
  | nil => rfl
  | append_singleton as event ih =>
    rw [List.foldl_concat, List.filter_append, (attach_fields ..).1, ih]
    cases h : isStarted event <;> simp [h]

theorem attached_close :
    (as.foldl attach c).close_time =
      ((as.filter fun event => (completedResult event).isSome).getLast?.map HistoryEvent.event_time).or c.close_time := by
  induction as using List.reverseRecOn with
  | nil => rfl
  | append_singleton as event ih =>
    rw [List.foldl_concat, List.filter_append, (attach_fields ..).2.1, ih]
    cases h : completedResult event <;> simp [h]

theorem attached_result :
    (as.foldl attach c).action_result = (as.filterMap completedResult).getLast?.getD c.action_result := by
  induction as using List.reverseRecOn with
  | nil => rfl
  | append_singleton as event ih =>
    rw [List.foldl_concat, List.filterMap_append, (attach_fields ..).2.2.1, ih]
    cases h : completedResult event <;> simp [h]

theorem attached_error :
    (as.foldl attach c).action_error.isSome ↔ c.action_error.isSome ∨ ∃ event ∈ as, isFailed event := by
  induction as using List.reverseRecOn with
  | nil => simp
  | append_singleton as event ih =>
    rw [List.foldl_concat, (attach_fields ..).2.2.2, Bool.or_eq_true, ih]
    simp [or_assoc, or_and_right, exists_or]

theorem attached_detached : (as.foldl attach c).status = .detached ↔ c.status = .detached := by
  induction as using List.reverseRecOn with
  | nil => rfl
  | append_singleton as event ih =>
    rw [List.foldl_concat]
    cases he : taskEvent event with
    | none => rw [attach_none he, ih]
    | some e =>
      obtain ⟨type,-,heq⟩ := attach_eq he (as.foldl attach c)
      rw [heq, ← ih]
      dsimp only
      split
      · rename_i hne
        constructor
        · intro h
          cases type <;> cases h
        · intro h
          exact absurd h hne
      · rfl

theorem failed_type {event : HistoryEvent Input Failure} (h : isFailed event = true) {type : WorkflowEventType}
    (htype : historyToWfEventType event = some type) : type.toStatus = .failed := by
  unfold isFailed taskEvent at h
  unfold historyToWfEventType at htype
  cases hattributes : event.attributes with
  | activityTask id e =>
    rw [hattributes] at h htype
    cases e <;> cases h
    cases htype
    rfl
  | childWorkflowExecution id e =>
    rw [hattributes] at h htype
    cases e <;> cases h
    cases htype
    rfl
  | _ =>
    rw [hattributes] at h
    cases h

theorem member_start : (member events pending s).start_time = startOf events pending s := by
  have hpending : ∀ (acts : List PendingActivity) (c : Compact Input Failure), (acts.foldl applyPending c).start_time =
      (acts.filterMap PendingActivity.last_started_time).getLast?.or c.start_time := by
    intro acts c
    induction acts using List.reverseRecOn with
    | nil => rfl
    | append_singleton acts act ih =>
      rw [List.foldl_concat, List.filterMap_append]
      cases htime : act.last_started_time with
      | none => simp [applyPending, htime, ih]
      | some time => simp [applyPending, htime]
  rw [member, hpending, attached_start, startOf]

theorem member_close : (member events pending s).close_time = closeOf events s :=
  (foldl_keeps applyPending Compact.close_time (fun _ _ => rfl) _ _).trans (attached_close _ _)

theorem member_result : (member events pending s).action_result = resultOf events s :=
  (foldl_keeps applyPending Compact.action_result (fun _ _ => rfl) _ _).trans (attached_result _ _)

theorem member_error : (member events pending s).action_error.isSome ↔ Fails events s := by
  have hkeeps : (member events pending s).action_error = ((attached events s.1).foldl attach s.2).action_error :=
    foldl_keeps applyPending Compact.action_error (fun _ _ => rfl) _ _
  rw [hkeeps, attached_error]
  rfl

theorem fromScheduledActivity_error {event_id event_time : ℕ} {act_type : String} {input : Option (ActionInput Input)}
    {c : Compact Input Failure} (h : fromScheduledActivity event_id event_time act_type input = some c) :
    c.action_error = none := by
  unfold fromScheduledActivity at h
  split at h
  · cases h
  · split at h
    · cases h
    · split at h
      · cases h
      · rw [← Option.some.inj h]

theorem pendingOf_of_error (h : WellFormed events pending) (hs : s ∈ sources events) (herror : s.2.action_error.isSome) :
    pendingOf events pending s.1 = [] := by
  apply List.filter_eq_nil_iff.mpr
  intro act _ hact
  obtain ⟨-,hlookup⟩ := Bool.and_eq_true_iff.mp hact
  have hactivity := mem_of_lookup (beq_iff_eq.mp hlookup)
  obtain ⟨event,hevent,hpair⟩ := List.mem_filterMap.mp hactivity
  obtain ⟨event',hevent',hsource'⟩ := List.mem_filterMap.mp hs
  obtain ⟨source,hsource,hpair'⟩ := Option.map_eq_some_iff.mp hsource'
  have hid : event.event_id = s.1 := by
    cases hattributes : event.attributes with
    | activityTaskScheduled aid act_type input =>
      rw [hattributes] at hpair
      obtain ⟨-,-,hpair⟩ := Option.map_eq_some_iff.mp hpair
      exact (Prod.mk.inj hpair).2
    | _ =>
      rw [hattributes] at hpair
      cases hpair
  obtain rfl : event = event' := List.inj_on_of_nodup_map h.ids hevent hevent' (hid.trans (congrArg Prod.fst hpair').symm)
  rw [← hpair'] at herror
  cases hattributes : event.attributes with
  | activityTaskScheduled aid act_type input =>
    -- the source of an activity is made without an error
    unfold fromSourceEvent at hsource
    rw [hattributes] at hsource
    rw [fromScheduledActivity_error hsource] at herror
    cases herror
  | _ =>
    rw [hattributes] at hpair
    cases hpair

theorem sources_status_of_error (hs : s ∈ sources events) (herror : s.2.action_error.isSome) : s.2.status = .failed := by
  obtain ⟨event,-,hpair⟩ := List.mem_filterMap.mp hs
  obtain ⟨source,hsource,rfl⟩ := Option.map_eq_some_iff.mp hpair
  clear hs hpair
  unfold fromSourceEvent at hsource
  split at hsource
  · rw [fromScheduledActivity_error hsource] at herror
    cases herror
  · rename_i workflow _
    cases hsource
    cases workflow <;> cases herror
  · cases hsource
    cases herror
  · cases hsource
    rfl
  · cases hsource

/-- A member is shown as failed, with an error, exactly if it failed and is not detached. -/
theorem member_failed (h : WellFormed events pending) (hs : s ∈ sources events) :
    (member events pending s).status = .failed ∧ (member events pending s).action_error.isSome ↔
      Fails events s ∧ s.2.status ≠ .detached := by
  rw [member_error]
  constructor
  · rintro ⟨hstatus,hfails⟩
    refine ⟨hfails,?_⟩
    intro hdetached
    cases hpending : pendingOf events pending s.1 with
    | nil =>
      have hkept := (attached_detached (attached events s.1) s.2).mpr hdetached
      rw [member, hpending, List.foldl_nil, hkept] at hstatus
      cases hstatus
    | cons act acts =>
      -- a pending activity is shown as started
      have hlast : ∀ (as : List PendingActivity) (c : Compact Input Failure), (as.foldl applyPending (applyPending c act)).status =
          .started := by
        intro as c
        induction as using List.reverseRecOn with
        | nil => rfl
        | append_singleton as a _ =>
          rw [List.foldl_concat]
          rfl
      rw [member, hpending, List.foldl_cons, hlast] at hstatus
      cases hstatus
  · rintro ⟨hfails,hne⟩
    refine ⟨?_,hfails⟩
    rcases hfails with herror | ⟨event,hevent,hfailed⟩
    · rw [member, pendingOf_of_error h hs herror, h.failureLast s hs herror]
      exact sources_status_of_error hs herror
    · have hnotStarted : isStarted event = false := by
        unfold isFailed at hfailed
        unfold isStarted
        split at hfailed
        · rename_i hevent
          rw [hevent]
        · cases hfailed
      have hpending : pendingOf events pending s.1 = [] := by
        by_contra hopen
        have hstarted := h.pendingOpen s.1 hopen event hevent
        rw [hnotStarted] at hstarted
        cases hstarted
      -- the event that it failed is the last one
      obtain ⟨first,last,heq,-,hlength,hfirst,-⟩ := h.phases s.1
      have hlast : last = [event] := by
        rw [heq] at hevent
        rcases List.mem_append.mp hevent with hin | hin
        · have hstarted := hfirst event hin
          rw [hnotStarted] at hstarted
          cases hstarted
        · cases last with
          | nil => cases hin
          | cons e rest =>
            have hrest : rest = [] := List.length_eq_zero_iff.mp (Nat.le_zero.mp (Nat.le_of_succ_le_succ hlength))
            subst hrest
            rw [List.mem_singleton.mp hin]
      rw [member, hpending, List.foldl_nil, heq, hlast, List.foldl_concat]
      have hkept : (first.foldl attach s.2).status ≠ .detached := fun hd => hne ((attached_detached _ _).mp hd)
      cases he : taskEvent event with
      | none =>
        rw [isFailed, he] at hfailed
        cases hfailed
      | some e =>
        obtain ⟨type,htype,hattach⟩ := attach_eq he (first.foldl attach s.2)
        rw [hattach]
        dsimp only
        rw [if_pos hkept]
        exact failed_type hfailed htype

end Member
end CompactEvents
end Allama

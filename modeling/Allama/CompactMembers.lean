import Mathlib.Data.List.Induction
import Allama.CompactEvents

/-! What the two passes over the history and the pending activities make of each source event. -/
namespace Allama
open RecordFields

namespace CompactEvents
variable {Input Failure : Type}

def sources (events : List (HistoryEvent Input Failure)) : List (ℕ × Compact Input Failure) :=
  events.filterMap fun event => (fromSourceEvent event).map fun source => (event.event_id,source)

def attached (events : List (HistoryEvent Input Failure)) (id : ℕ) : List (HistoryEvent Input Failure) :=
  events.filter fun event => getSourceEventId event = some id

/-- The scheduled activities that add to the listing. -/
def activities (events : List (HistoryEvent Input Failure)) : List (String × ℕ) :=
  events.filterMap fun event =>
    match event.attributes with
    | .activityTaskScheduled activity_id _ _ => (fromSourceEvent event).map fun _ => (activity_id,event.event_id)
    | _ => none

def isStarted (event : HistoryEvent Input Failure) : Bool :=
  match taskEvent event with
  | some .started => true
  | _ => false

def pendingOf (events : List (HistoryEvent Input Failure)) (pending : List PendingActivity) (id : ℕ) : List PendingActivity :=
  pending.filter fun act => act.started && ((activities events).lookup act.activity_id == some id)

/-- A history as Temporal writes it: ids are keys and count from 1, activity ids are keys, an event comes after its source, and
a source has at most one event that it started and then at most one that it ended. Nothing comes of a workflow that has failed, and
an activity that is pending has not ended. -/
structure WellFormed (events : List (HistoryEvent Input Failure)) (pending : List PendingActivity) : Prop where
  ids : (events.map HistoryEvent.event_id).Nodup
  positive : ∀ event ∈ events, event.event_id ≠ 0
  behind : events.Pairwise fun event later => getSourceEventId event ≠ some later.event_id
  activityIds : ((activities events).map Prod.fst).Nodup
  phases : ∀ id, ∃ first last, attached events id = first ++ last ∧ first.length ≤ 1 ∧ last.length ≤ 1 ∧
    (∀ event ∈ first, isStarted event) ∧ ∀ event ∈ last, !isStarted event
  pendingOpen : ∀ id, pendingOf events pending id ≠ [] → ∀ event ∈ attached events id, isStarted event
  failureLast : ∀ s ∈ sources events, s.2.action_error.isSome → attached events s.1 = []

section Puts
variable {K V : Type} [BEq K] [LawfulBEq K]

omit [LawfulBEq K] in
theorem put_fresh {k : K} (v : V) {fields : List (K × V)} (h : fields.lookup k = none) : put k v fields = fields ++ [(k,v)] := by
  rw [put, h]
  rfl

theorem put_mapped {A : Type} (g : K × A → V) {k : K} (w : V) {rows : List (K × A)} (h : k ∈ rows.map Prod.fst) :
    put k w (rows.map fun row => (row.1,g row)) = rows.map fun row => (row.1,if row.1 == k then w else g row) := by
  have hkeys : (rows.map fun row => (row.1,g row)).map Prod.fst = rows.map Prod.fst := by
    rw [List.map_map]
    rfl
  have hsome : ((rows.map fun row => (row.1,g row)).lookup k).isSome := by
    rw [Option.isSome_iff_ne_none]
    intro hnone
    exact notMem_of_lookup hnone (hkeys ▸ h)
  rw [put, if_pos hsome, List.map_map]
  apply List.map_congr_left
  intro row _
  simp only [Function.comp_apply]
  split
  · rename_i heq
    rw [beq_iff_eq.mp heq]
  · rfl

theorem lookup_mapped {A : Type} (g : K × A → V) (k : K) {rows : List (K × A)} (hnodup : (rows.map Prod.fst).Nodup) :
    ∀ a, (k,a) ∈ rows → (rows.map fun row => (row.1,g row)).lookup k = some (g (k,a)) := by
  intro a ha
  apply lookup_of_mem
  · rw [List.map_map]
    exact hnodup
  · exact List.mem_map.mpr ⟨(k,a),ha,rfl⟩

end Puts

section Scan
variable {events : List (HistoryEvent Input Failure)} {event : HistoryEvent Input Failure}

theorem sources_append (events : List (HistoryEvent Input Failure)) (event : HistoryEvent Input Failure) :
    sources (events ++ [event]) = sources events ++ ((fromSourceEvent event).map fun source => (event.event_id,source)).toList := by
  rw [sources, List.filterMap_append]
  cases h : fromSourceEvent event <;> simp [sources, h]

theorem attached_append (events : List (HistoryEvent Input Failure)) (event : HistoryEvent Input Failure) (id : ℕ) :
    attached (events ++ [event]) id = attached events id ++ if getSourceEventId event = some id then [event] else [] := by
  rw [attached, List.filter_append]
  by_cases h : getSourceEventId event = some id <;> simp [attached, h]

theorem ids_sources_subset (events : List (HistoryEvent Input Failure)) :
    ((sources events).map Prod.fst).Sublist (events.map HistoryEvent.event_id) := by
  induction events with
  | nil => exact List.Sublist.refl _
  | cons event events ih =>
    cases h : fromSourceEvent event with
    | none =>
      have hskip : sources (event :: events) = sources events := by simp [sources, h]
      rw [hskip]
      exact ih.cons _
    | some source =>
      have hkeep : sources (event :: events) = (event.event_id,source) :: sources events := by simp [sources, h]
      rw [hkeep]
      exact ih.cons_cons _

theorem getSourceEventId_of_source {source : Compact Input Failure} (h : fromSourceEvent event = some source) :
    getSourceEventId event = none := by
  unfold fromSourceEvent at h
  unfold getSourceEventId
  cases hattributes : event.attributes <;> rw [hattributes] at h <;> first | rfl | cases h

/-- After the pass over the history each source event has what its events tell, in their order. -/
theorem scan_id2event (hids : (events.map HistoryEvent.event_id).Nodup)
    (hbehind : events.Pairwise fun event later => getSourceEventId event ≠ some later.event_id) :
    (scanHistory events).id2event = (sources events).map fun s => (s.1,(attached events s.1).foldl attach s.2) := by
  induction events using List.reverseRecOn with
  | nil => rfl
  | append_singleton events event ih =>
    rw [List.map_append, List.nodup_append'] at hids
    obtain ⟨hids,-,hfresh⟩ := hids
    rw [List.pairwise_append] at hbehind
    obtain ⟨hbehind,-,hlast⟩ := hbehind
    have hkeys : ((sources events).map Prod.fst).Nodup := (ids_sources_subset events).nodup hids
    have ih := ih hids hbehind
    have hscan : scanHistory (events ++ [event]) = (scanHistory events).next event := List.foldl_concat ..
    rw [hscan, Scan.next, sources_append]
    have hnew : event.event_id ∉ (sources events).map Prod.fst := by
      intro hmem
      exact hfresh ((ids_sources_subset events).subset hmem) List.mem_cons_self
    cases hsource : fromSourceEvent event with
    | some source =>
      -- the event adds to the listing, and no event before it is attached to it
      have hnone := getSourceEventId_of_source hsource
      have hempty : attached events event.event_id = [] := by
        apply List.filter_eq_nil_iff.mpr
        intro e he
        simpa using hlast e he event List.mem_cons_self
      have hsame : ∀ id, attached (events ++ [event]) id = attached events id := by
        intro id
        rw [attached_append, hnone, if_neg (by simp), List.append_nil]
      have hlookup : (scanHistory events).id2event.lookup event.event_id = none := by
        rw [ih]
        apply lookup_eq_none_of_notMem
        rw [List.map_map]
        exact hnew
      dsimp only
      rw [put_fresh source hlookup, ih, List.map_append]
      simp only [hsame, Option.map_some, Option.toList_some, List.map_cons, List.map_nil, hempty, List.foldl_nil]
    | none =>
      rw [Option.map_none, Option.toList_none, List.append_nil]
      cases hid : getSourceEventId event with
      | none =>
        have hsame : ∀ id, attached (events ++ [event]) id = attached events id := by
          intro id
          rw [attached_append, hid, if_neg (by simp), List.append_nil]
        simp only [hsame]
        exact ih
      | some source_id =>
        have hsame : ∀ id, attached (events ++ [event]) id = attached events id ++ if source_id = id then [event] else [] := by
          intro id
          rw [attached_append, hid]
          simp only [Option.some.injEq]
        dsimp only
        cases hlookup : (scanHistory events).id2event.lookup source_id with
        | none =>
          -- its source is not listed
          have hout : source_id ∉ (sources events).map Prod.fst := by
            intro hmem
            apply notMem_of_lookup hlookup
            rw [ih, List.map_map]
            exact hmem
          dsimp only
          rw [ih]
          apply List.map_congr_left
          intro s hs
          have hne : source_id ≠ s.1 := by
            rintro rfl
            exact hout (List.mem_map_of_mem hs)
          rw [hsame, if_neg hne, List.append_nil]
        | some source =>
          have hmem : source_id ∈ (sources events).map Prod.fst := by
            have hfound := List.mem_map_of_mem (f := Prod.fst) (mem_of_lookup hlookup)
            rw [ih, List.map_map] at hfound
            exact hfound
          dsimp only
          rw [ih] at hlookup ⊢
          rw [put_mapped (fun s => (attached events s.1).foldl attach s.2) _ hmem]
          apply List.map_congr_left
          rintro ⟨id,c⟩ hs
          rw [hsame]
          by_cases heq : id = source_id
          · subst heq
            rw [lookup_mapped (fun s => (attached events s.1).foldl attach s.2) id hkeys c hs] at hlookup
            rw [if_pos (beq_self_eq_true id), if_pos rfl, List.foldl_append, Option.some.inj hlookup]
            rfl
          · rw [if_neg (by simpa using heq), if_neg (Ne.symm heq), List.append_nil]

theorem activities_append (events : List (HistoryEvent Input Failure)) (event : HistoryEvent Input Failure) :
    activities (events ++ [event]) = activities events ++ activities [event] := List.filterMap_append

theorem scan_activity2eventid (hactivities : ((activities events).map Prod.fst).Nodup) :
    (scanHistory events).activity2eventid = activities events := by
  induction events using List.reverseRecOn with
  | nil => rfl
  | append_singleton events event ih =>
    have hscan : scanHistory (events ++ [event]) = (scanHistory events).next event := List.foldl_concat ..
    rw [activities_append] at hactivities ⊢
    rw [List.map_append, List.nodup_append'] at hactivities
    obtain ⟨hbefore,-,hfresh⟩ := hactivities
    rw [hscan, Scan.next]
    cases hsource : fromSourceEvent event with
    | some source =>
      dsimp only
      cases hattributes : event.attributes with
      | activityTaskScheduled activity_id act_type input =>
        have hone : activities [event] = [(activity_id,event.event_id)] := by
          simp [activities, hattributes, hsource]
        rw [hone] at hfresh ⊢
        dsimp only
        rw [ih hbefore]
        apply put_fresh
        apply lookup_eq_none_of_notMem
        intro hmem
        exact hfresh hmem List.mem_cons_self
      | _ =>
        have hone : activities [event] = [] := by simp [activities, hattributes]
        rw [hone, List.append_nil]
        exact ih hbefore
    | none =>
      have hone : activities [event] = [] := by
        cases hattributes : event.attributes <;> simp [activities, hattributes, hsource]
      rw [hone, List.append_nil, ← ih hbefore]
      dsimp only
      split
      · rfl
      · split <;> rfl

end Scan

section Pending
variable {events : List (HistoryEvent Input Failure)} {pending : List PendingActivity}

theorem ids_activities_sources {activity_id : String} {id : ℕ} (h : (activity_id,id) ∈ activities events) :
    id ∈ (sources events).map Prod.fst := by
  obtain ⟨event,hevent,hpair⟩ := List.mem_filterMap.mp h
  cases hattributes : event.attributes with
  | activityTaskScheduled aid act_type input =>
    rw [hattributes] at hpair
    obtain ⟨source,hsource,hpair⟩ := Option.map_eq_some_iff.mp hpair
    obtain ⟨-,rfl⟩ := Prod.mk.inj hpair
    exact List.mem_map.mpr ⟨_,List.mem_filterMap.mpr ⟨event,hevent,by rw [hsource]; rfl⟩,rfl⟩
  | _ =>
    rw [hattributes] at hpair
    cases hpair

/-- After the pass over the pending activities each source event has what those of its own tell. -/
theorem pending_id2event (hids : (events.map HistoryEvent.event_id).Nodup) (hpositive : ∀ event ∈ events, event.event_id ≠ 0)
    (g : ℕ × Compact Input Failure → Compact Input Failure) :
    pending.foldl (nextPending (activities events)) ((sources events).map fun s => (s.1,g s)) =
      (sources events).map fun s => (s.1,(pendingOf events pending s.1).foldl applyPending (g s)) := by
  have hkeys : ((sources events).map Prod.fst).Nodup := (ids_sources_subset events).nodup hids
  induction pending generalizing g with
  | nil => rfl
  | cons act pending ih =>
    rw [List.foldl_cons]
    cases hactivity : (activities events).lookup act.activity_id with
    | none =>
      have hsame : ∀ id, pendingOf events (act :: pending) id = pendingOf events pending id := by
        intro id
        simp [pendingOf, hactivity]
      rw [nextPending, hactivity]
      simp only [hsame]
      exact ih g
    | some source_id =>
      have hmem : source_id ∈ (sources events).map Prod.fst := ids_activities_sources (mem_of_lookup hactivity)
      have hnonzero : source_id ≠ 0 := by
        obtain ⟨event,hevent,heq⟩ := List.mem_map.mp ((ids_sources_subset events).subset hmem)
        exact heq ▸ hpositive event hevent
      obtain ⟨⟨id,c⟩,hs,heq⟩ := List.mem_map.mp hmem
      obtain rfl : id = source_id := heq
      rw [nextPending, hactivity]
      dsimp only
      rw [if_neg hnonzero, lookup_mapped g id hkeys c hs]
      dsimp only
      cases hstarted : act.started with
      | false =>
        have hsame : ∀ i, pendingOf events (act :: pending) i = pendingOf events pending i := by
          intro i
          simp [pendingOf, hstarted]
        rw [if_neg (by simp)]
        simp only [hsame]
        exact ih g
      | true =>
        have hsame : ∀ i, pendingOf events (act :: pending) i =
            if i == id then act :: pendingOf events pending i else pendingOf events pending i := by
          intro i
          by_cases hi : i = id
          · simp [pendingOf, hstarted, hactivity, hi]
          · simp [pendingOf, hstarted, hactivity, hi, Ne.symm hi]
        rw [if_pos rfl, put_mapped g _ hmem, ih]
        apply List.map_congr_left
        rintro ⟨i,d⟩ hd
        rw [hsame]
        by_cases hi : i = id
        · subst hi
          obtain rfl : d = c := by
            have hpair := List.inj_on_of_nodup_map hkeys hd hs rfl
            exact (Prod.mk.inj hpair).2
          simp only [beq_self_eq_true, if_true, List.foldl_cons]
        · simp only [beq_false_of_ne hi, Bool.false_eq_true, if_false]

/-- A source event with what its history and the description tell. -/
def member (events : List (HistoryEvent Input Failure)) (pending : List PendingActivity) (s : ℕ × Compact Input Failure) :
    Compact Input Failure :=
  (pendingOf events pending s.1).foldl applyPending ((attached events s.1).foldl attach s.2)

theorem list_eq (h : WellFormed events pending) : listWorkflowExecutionEventsCompact events pending =
    (mergeEvents ((sources events).map (member events pending))).map Prod.snd := by
  unfold listWorkflowExecutionEventsCompact
  dsimp only
  rw [scan_activity2eventid h.activityIds, scan_id2event h.ids h.behind, pending_id2event h.ids h.positive, List.map_map]
  rfl

end Pending
end CompactEvents
end Allama

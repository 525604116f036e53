import Mathlib
import Allama.Checked
import Allama.DurationAnchors

/-! Durations of cases, computed alone, in a batch and for storage (`cases/durations/service.py`). -/
namespace Allama
open Checked
namespace CaseDurations

structure CaseDurationDefinitionRead (S N A : Type) where
  id : ℕ
  name : Text
  description : Option Text
  start_anchor : CaseDurationEventAnchor S N A
  end_anchor : CaseDurationEventAnchor S N A

structure CaseDurationComputation where
  duration_id : ℕ
  name : Text
  description : Option Text
  start_event_id : Option ℕ
  end_event_id : Option ℕ
  started_at : Option ℤ
  ended_at : Option ℤ
  duration : Option ℤ
deriving DecidableEq, Repr

/-- The definitions of a workspace: `id` is unique. -/
structure Definitions (S N A : Type) where
  rows : List (CaseDurationDefinitionRead S N A)
  nodup : (rows.map CaseDurationDefinitionRead.id).Nodup

/-- The two orders in which the database gives events. -/
structure EventOrder (S N A : Type) where
  byCreation : List (CaseEvent S N A) → List (CaseEvent S N A)
  byCase : List (CaseEvent S N A) → List (CaseEvent S N A)
  byCreation_perm : ∀ events, (byCreation events).Perm events
  byCreation_sorted : ∀ events, (byCreation events).Pairwise fun a b => a.created_at ≤ b.created_at
  byCase_perm : ∀ events, (byCase events).Perm events
  byCase_sorted : ∀ events, (byCase events).Pairwise fun a b =>
    a.case_id < b.case_id ∨ a.case_id = b.case_id ∧ a.created_at ≤ b.created_at

section Computation
variable {S N A : Type} (platform : Platform S N A)

/-- The computation from the two matches; an end before the start is no end. -/
def computationOf (definition : CaseDurationDefinitionRead S N A) (start_match end_match : Option (CaseEvent S N A × ℤ)) :
    CaseDurationComputation :=
  let started_at := start_match.map Prod.snd
  let ended_at := end_match.map Prod.snd
  let isReversed :=
    match started_at, ended_at with
    | some started_at, some ended_at => decide (ended_at < started_at)
    | _, _ => false
  let end_match := if isReversed then none else end_match
  let ended_at := if isReversed then none else ended_at
  let duration :=
    match started_at, ended_at with
    | some started_at, some ended_at => some (ended_at-started_at)
    | _, _ => none
  { duration_id := definition.id
    name := definition.name
    description := definition.description
    start_event_id := start_match.map fun found => found.1.id
    end_event_id := end_match.map fun found => found.1.id
    started_at := started_at
    ended_at := ended_at
    duration := duration }

/-- One round of `_compute_durations_from_events`. -/
def computeFromDefinition (events : List (CaseEvent S N A)) (definition : CaseDurationDefinitionRead S N A) :
    Except FieldError CaseDurationComputation := do
  let start_match ← findMatchingEvent platform events definition.start_anchor none
  let end_match ← findMatchingEvent platform events definition.end_anchor (start_match.map Prod.snd)
  return computationOf definition start_match end_match

def computeDurationsFromEvents (events : List (CaseEvent S N A)) (definitions : List (CaseDurationDefinitionRead S N A)) :
    Except FieldError (List CaseDurationComputation) :=
  definitions.mapM (computeFromDefinition platform events)

variable (order : EventOrder S N A) (db : List (CaseEvent S N A)) (definitions : Definitions S N A)

def listCaseEvents (case_id : ℕ) : List (CaseEvent S N A) :=
  order.byCreation (db.filter fun event => event.case_id = case_id)

def computeDuration (case_id : ℕ) : Except FieldError (List CaseDurationComputation) :=
  if definitions.rows.isEmpty then .ok []
  else computeDurationsFromEvents platform (listCaseEvents order db case_id) definitions.rows

/-- The loop that groups the fetched events by their cases. -/
def groupEvents (groups : ℕ → List (CaseEvent S N A)) : List (CaseEvent S N A) → ℕ → List (CaseEvent S N A)
  | [] => groups
  | event :: events => groupEvents (Function.update groups event.case_id (groups event.case_id ++ [event])) events

/-- `compute_durations`, as a dict. -/
def computeDurations (cases : List ℕ) : Except FieldError (List (ℕ × List CaseDurationComputation)) :=
  if cases.isEmpty then .ok []
  else if definitions.rows.isEmpty then .ok (cases.eraseDups.map fun case_id => (case_id,[]))
  else
    let all_events := order.byCase (db.filter fun event => cases.contains event.case_id)
    let events_by_case := groupEvents (fun _ => []) all_events
    cases.eraseDups.mapM fun case_id => do
      return (case_id,← computeDurationsFromEvents platform (events_by_case case_id) definitions.rows)

/-- A stored duration of the case. -/
structure CaseDuration where
  id : ℕ
  definition_id : ℕ
  start_event_id : Option ℕ
  end_event_id : Option ℕ
  started_at : Option ℤ
  ended_at : Option ℤ
  duration : Option ℤ
deriving DecidableEq, Repr

/-- What a computation writes to a row. -/
def CaseDuration.fill (entity : CaseDuration) (computation : CaseDurationComputation) : CaseDuration :=
  { entity with
    start_event_id := computation.start_event_id
    end_event_id := computation.end_event_id
    started_at := computation.started_at
    ended_at := computation.ended_at
    duration := computation.duration }

/-- The row holds the computation of its definition. -/
def CaseDuration.Holds (entity : CaseDuration) (computation : CaseDurationComputation) : Prop :=
  entity.definition_id = computation.duration_id ∧ entity.fill computation = entity

/-- The rows of a case; no two of one definition. -/
structure CaseRows where
  rows : List CaseDuration
  nodup : (rows.map CaseDuration.definition_id).Nodup

/-- One round of the loop of `sync_case_durations`: a row of `existing` is updated, else one is added with the next `id`. -/
def storeComputation (newId : ℕ → ℕ) (existing rows : List CaseDuration) (computation : CaseDurationComputation) :
    List CaseDuration :=
  if existing.any fun entity => entity.definition_id = computation.duration_id then
    rows.map fun entity => if entity.definition_id = computation.duration_id then entity.fill computation else entity
  else
    rows ++ [CaseDuration.fill ⟨newId computation.duration_id,computation.duration_id,none,none,none,none,none⟩ computation]

/-- What `sync_case_durations` stores, from what is stored and what is computed. -/
def storeComputations (newId : ℕ → ℕ) (existing : List CaseDuration) (computations : List CaseDurationComputation) :
    List CaseDuration :=
  let stored := computations.foldl (storeComputation newId existing) existing
  let seen_definitions := computations.map CaseDurationComputation.duration_id
  stored.filter fun entity =>
    !(existing.any (fun old => old.definition_id = entity.definition_id) && !seen_definitions.contains entity.definition_id)

/-- `sync_case_durations`: the computations and the rows that it leaves. -/
def syncCaseDurations (newId : ℕ → ℕ) (case_id : ℕ) (existing : List CaseDuration) :
    Except FieldError (List CaseDurationComputation × List CaseDuration) := do
  let computations ← computeDuration platform order db definitions case_id
  return (computations,storeComputations newId existing computations)

end Computation

section Events
variable {S N A : Type} {platform : Platform S N A} {order : EventOrder S N A} {db db' events events' : List (CaseEvent S N A)}
  {definitions : Definitions S N A} {definition : CaseDurationDefinitionRead S N A}

/-- No two events of a case were created at the same time. -/
def DistinctCreation (db : List (CaseEvent S N A)) : Prop :=
  db.Pairwise fun a b => a.case_id = b.case_id → a.created_at ≠ b.created_at

theorem eq_of_creation {case_id : ℕ} (h : DistinctCreation db)
    (hevents : events.Perm (db.filter fun event => event.case_id = case_id)) (hperm : events.Perm events')
    (hsorted : events.Pairwise fun a b => a.created_at ≤ b.created_at)
    (hsorted' : events'.Pairwise fun a b => a.created_at ≤ b.created_at) : events = events' := by
  have hcreated : (events.map CaseEvent.created_at).Nodup := by
    rw [(hevents.map CaseEvent.created_at).nodup_iff, List.Nodup, List.pairwise_map]
    refine List.Pairwise.imp_of_mem (fun {a b} ha hb hab => ?_) (List.Pairwise.filter _ h)
    have hcase := of_decide_eq_true (List.mem_filter.1 ha).2
    have hcase' := of_decide_eq_true (List.mem_filter.1 hb).2
    exact hab (hcase.trans hcase'.symm)
  refine List.Perm.eq_of_pairwise ?_ hsorted hsorted' hperm
  intro a b ha hb hab hba
  exact List.inj_on_of_nodup_map hcreated ha (hperm.mem_iff.2 hb) (le_antisymm hab hba)

theorem listCaseEvents_perm (case_id : ℕ) :
    (listCaseEvents order db case_id).Perm (db.filter fun event => event.case_id = case_id) :=
  order.byCreation_perm _

theorem listCaseEvents_eq (h : DistinctCreation db) (hperm : db.Perm db') (case_id : ℕ) :
    listCaseEvents order db case_id = listCaseEvents order db' case_id :=
  eq_of_creation h (listCaseEvents_perm case_id)
    (((listCaseEvents_perm case_id).trans (hperm.filter _)).trans (listCaseEvents_perm case_id).symm)
    (order.byCreation_sorted _) (order.byCreation_sorted _)

theorem groupEvents_eq (groups : ℕ → List (CaseEvent S N A)) (events : List (CaseEvent S N A)) (case_id : ℕ) :
    groupEvents groups events case_id = groups case_id ++ events.filter fun event => event.case_id = case_id := by
  induction events generalizing groups with
  | nil => exact (List.append_nil _).symm
  | cons event events ih =>
    rw [groupEvents, ih]
    by_cases hcase : event.case_id = case_id
    · rw [List.filter_cons, if_pos (decide_eq_true hcase), hcase, Function.update_self, List.append_assoc]
      rfl
    · have hother : ¬decide (event.case_id = case_id) = true := fun h => hcase (of_decide_eq_true h)
      rw [List.filter_cons, if_neg hother, Function.update_of_ne (Ne.symm hcase)]

theorem groupEvents_byCase (h : DistinctCreation db) {cases : List ℕ} {case_id : ℕ} (hcase : case_id ∈ cases) :
    groupEvents (fun _ => []) (order.byCase (db.filter fun event => cases.contains event.case_id)) case_id =
      listCaseEvents order db case_id := by
  rw [groupEvents_eq, List.nil_append]
  have hperm : ((order.byCase (db.filter fun event => cases.contains event.case_id)).filter
      fun event => event.case_id = case_id).Perm (db.filter fun event => event.case_id = case_id) := by
    refine ((order.byCase_perm _).filter _).trans (List.Perm.of_eq ?_)
    rw [List.filter_filter]
    apply List.filter_congr
    intro event _
    by_cases he : event.case_id = case_id
    · rw [decide_eq_true he, he, Bool.true_and]
      exact List.contains_iff_mem.2 hcase
    · rw [decide_eq_false he, Bool.false_and]
  refine eq_of_creation h hperm (hperm.trans (listCaseEvents_perm case_id).symm) ?_ (order.byCreation_sorted _)
  refine List.Pairwise.imp_of_mem (fun {a b} ha hb hab => ?_) (List.Pairwise.filter _ (order.byCase_sorted _))
  have hcase := of_decide_eq_true (List.mem_filter.1 ha).2
  have hcase' := of_decide_eq_true (List.mem_filter.1 hb).2
  have hsame : a.case_id = b.case_id := hcase.trans hcase'.symm
  cases hab with
  | inl hlt => omega
  | inr hle => exact hle.2

/-- What a computation says of the events for a definition. -/
structure IsDuration (platform : Platform S N A) (events : List (CaseEvent S N A))
    (definition : CaseDurationDefinitionRead S N A) (computation : CaseDurationComputation) : Prop where
  fields : computation.duration_id = definition.id ∧ computation.name = definition.name ∧
    computation.description = definition.description
  ends : ∃ start stop, IsSelected platform definition.start_anchor events none start ∧
    IsSelected platform definition.end_anchor events computation.started_at stop ∧
    computation.start_event_id = start.map (fun found => found.1.id) ∧ computation.started_at = start.map Prod.snd ∧
    computation.end_event_id = stop.map (fun found => found.1.id) ∧ computation.ended_at = stop.map Prod.snd
  ordered : ∀ start stop, computation.started_at = some start → computation.ended_at = some stop →
    start ≤ stop ∧ computation.duration = some (stop-start)
  incomplete : computation.started_at = none ∨ computation.ended_at = none → computation.duration = none

def IsReadable (platform : Platform S N A) (events : List (CaseEvent S N A))
    (definition : CaseDurationDefinitionRead S N A) : Prop :=
  events.all (isReadable platform definition.start_anchor) = true ∧ events.all (isReadable platform definition.end_anchor) = true

theorem computationOf_isDuration {start stop : Option (CaseEvent S N A × ℤ)}
    (hstart : IsSelected platform definition.start_anchor events none start)
    (hstop : IsSelected platform definition.end_anchor events (start.map Prod.snd) stop)
    (hordered : ∀ s t, start.map Prod.snd = some s → stop.map Prod.snd = some t → s ≤ t) :
    IsDuration platform events definition (computationOf definition start stop) := by
  cases start with
  | none => exact ⟨⟨rfl,rfl,rfl⟩,⟨none,stop,hstart,hstop,rfl,rfl,rfl,rfl⟩,fun s t hs _ => (Option.some_ne_none s hs.symm).elim,fun _ => rfl⟩
  | some start =>
    cases stop with
    | none => exact ⟨⟨rfl,rfl,rfl⟩,⟨some start,none,hstart,hstop,rfl,rfl,rfl,rfl⟩,
        fun s t _ ht => (Option.some_ne_none t ht.symm).elim,fun _ => rfl⟩
    | some stop =>
      have hle : start.2 ≤ stop.2 := hordered start.2 stop.2 rfl rfl
      have hkept : decide (stop.2 < start.2) = false := decide_eq_false (not_lt.2 hle)
      have hcomputation : computationOf definition (some start) (some stop) =
          ⟨definition.id,definition.name,definition.description,some start.1.id,some stop.1.id,some start.2,some stop.2,
            some (stop.2-start.2)⟩ := by
        simp only [computationOf, Option.map_some, hkept, if_neg Bool.false_ne_true]
      rw [hcomputation]
      refine ⟨⟨rfl,rfl,rfl⟩,⟨some start,some stop,hstart,hstop,rfl,rfl,rfl,rfl⟩,fun s t hs ht => ?_,fun hmissing => ?_⟩
      · rw [← Option.some.inj hs, ← Option.some.inj ht]
        exact ⟨hle,rfl⟩
      · exact hmissing.elim (fun h => (Option.some_ne_none _ h).elim) (fun h => (Option.some_ne_none _ h).elim)

theorem computeFromDefinition_of_readable (h : IsReadable platform events definition) :
    ∃ computation, computeFromDefinition platform events definition = .ok computation ∧
      IsDuration platform events definition computation := by
  obtain ⟨start,hstart,hstartSelected⟩ := findMatchingEvent_of_readable none h.1
  obtain ⟨stop,hstop,hstopSelected⟩ := findMatchingEvent_of_readable (start.map Prod.snd) h.2
  have hordered : ∀ s t, start.map Prod.snd = some s → stop.map Prod.snd = some t → s ≤ t := by
    intro s t hs ht
    obtain ⟨best,rfl,rfl⟩ := Option.map_eq_some_iff.1 ht
    exact hstopSelected.2.2.1 s hs
  refine ⟨computationOf definition start stop,?_,?_⟩
  · rw [computeFromDefinition, hstart]
    show (do
      let end_match ← findMatchingEvent platform events definition.end_anchor (start.map Prod.snd)
      return computationOf definition start end_match) = _
    rw [hstop]
    rfl
  · exact computationOf_isDuration hstartSelected hstopSelected hordered

theorem readable_of_findMatchingEvent {anchor : CaseDurationEventAnchor S N A} {earliest_after : Option ℤ}
    {found : Option (CaseEvent S N A × ℤ)} (h : findMatchingEvent platform events anchor earliest_after = .ok found) :
    events.all (isReadable platform anchor) = true := by
  by_contra hread
  obtain ⟨e,he⟩ := findMatchingEvent_of_unreadable earliest_after hread
  rw [he] at h
  cases h

theorem readable_of_computeFromDefinition {computation : CaseDurationComputation}
    (h : computeFromDefinition platform events definition = .ok computation) : IsReadable platform events definition := by
  rw [computeFromDefinition, bind_eq_ok] at h
  obtain ⟨start,hstart,h⟩ := h
  obtain ⟨stop,hstop,_⟩ := bind_eq_ok.1 h
  exact ⟨readable_of_findMatchingEvent hstart,readable_of_findMatchingEvent hstop⟩

theorem computeDurationsFromEvents_of_readable {rows : List (CaseDurationDefinitionRead S N A)}
    (h : ∀ definition ∈ rows, IsReadable platform events definition) :
    ∃ computations, computeDurationsFromEvents platform events rows = .ok computations ∧
      List.Forall₂ (IsDuration platform events) rows computations :=
  exists_mapM_eq_ok fun definition hmem => computeFromDefinition_of_readable (h definition hmem)

theorem readable_of_computeDurationsFromEvents {rows : List (CaseDurationDefinitionRead S N A)}
    {computations : List CaseDurationComputation} (h : computeDurationsFromEvents platform events rows = .ok computations) :
    ∀ definition ∈ rows, IsReadable platform events definition := by
  intro definition hmem
  obtain ⟨computation,_,hcompute⟩ := exists_of_forall₂ (mapM_eq_ok.1 h) hmem
  exact readable_of_computeFromDefinition hcompute

theorem computeFromDefinition_perm (hread : IsReadable platform events definition) (hperm : events.Perm events')
    (hstart : DistinctTimestamps platform definition.start_anchor events)
    (hstop : DistinctTimestamps platform definition.end_anchor events) :
    computeFromDefinition platform events definition = computeFromDefinition platform events' definition := by
  rw [computeFromDefinition, computeFromDefinition, findMatchingEvent_perm hread.1 hperm hstart]
  simp only [findMatchingEvent_perm hread.2 hperm hstop]

theorem computeDurationsFromEvents_perm {rows : List (CaseDurationDefinitionRead S N A)}
    (hread : ∀ definition ∈ rows, IsReadable platform events definition) (hperm : events.Perm events')
    (hdistinct : ∀ definition ∈ rows, DistinctTimestamps platform definition.start_anchor events ∧
      DistinctTimestamps platform definition.end_anchor events) :
    computeDurationsFromEvents platform events rows = computeDurationsFromEvents platform events' rows := by
  induction rows with
  | nil => rfl
  | cons definition rows ih =>
    rw [List.forall_mem_cons] at hread hdistinct
    rw [computeDurationsFromEvents, computeDurationsFromEvents, List.mapM_cons, List.mapM_cons,
      computeFromDefinition_perm hread.1 hperm hdistinct.1.1 hdistinct.1.2]
    have hrest : rows.mapM (computeFromDefinition platform events) = rows.mapM (computeFromDefinition platform events') :=
      ih hread.2 hdistinct.2
    rw [hrest]

/-- No event of an anchor of a definition has a field that fails. -/
def AllReadable (platform : Platform S N A) (db : List (CaseEvent S N A)) (definitions : Definitions S N A) : Prop :=
  ∀ definition ∈ definitions.rows, IsReadable platform db definition

theorem IsReadable.subset (h : IsReadable platform db definition) (hsub : events ⊆ db) :
    IsReadable platform events definition :=
  ⟨List.all_eq_true.2 fun event hmem => List.all_eq_true.1 h.1 event (hsub hmem),
    List.all_eq_true.2 fun event hmem => List.all_eq_true.1 h.2 event (hsub hmem)⟩

theorem listCaseEvents_subset (case_id : ℕ) : listCaseEvents order db case_id ⊆ db :=
  fun _ hmem => List.mem_of_mem_filter ((listCaseEvents_perm case_id).mem_iff.1 hmem)

theorem computeDuration_eq (case_id : ℕ) :
    computeDuration platform order db definitions case_id =
      computeDurationsFromEvents platform (listCaseEvents order db case_id) definitions.rows := by
  rw [computeDuration]
  cases hrows : definitions.rows with
  | nil => rfl
  | cons definition rows => rfl

theorem computeDuration_of_readable (order : EventOrder S N A) (h : AllReadable platform db definitions) (case_id : ℕ) :
    ∃ computations, computeDuration platform order db definitions case_id = .ok computations ∧
      List.Forall₂ (IsDuration platform (listCaseEvents order db case_id)) definitions.rows computations := by
  rw [computeDuration_eq]
  exact computeDurationsFromEvents_of_readable fun definition hmem =>
    (h definition hmem).subset (listCaseEvents_subset case_id)

/-- The durations of a batch are those of its cases alone. -/
theorem computeDurations_of_readable (hdistinct : DistinctCreation db) (h : AllReadable platform db definitions)
    (cases : List ℕ) :
    ∃ batch, computeDurations platform order db definitions cases = .ok batch ∧
      (∀ case_id, case_id ∈ batch.map Prod.fst ↔ case_id ∈ cases) ∧
      ∀ entry ∈ batch, computeDuration platform order db definitions entry.1 = .ok entry.2 := by
  by_cases hcases : cases.isEmpty = true
  · rw [computeDurations, if_pos hcases, List.isEmpty_iff.1 hcases]
    exact ⟨[],rfl,fun _ => Iff.rfl,fun _ hmem => absurd hmem List.not_mem_nil⟩
  by_cases hrows : definitions.rows.isEmpty = true
  · refine ⟨_,by rw [computeDurations, if_neg hcases, if_pos hrows],fun case_id => ?_,fun entry hmem => ?_⟩
    · rw [List.map_map, Function.comp_def, List.map_id', List.mem_eraseDups]
    · obtain ⟨case_id,_,rfl⟩ := List.mem_map.1 hmem
      rw [computeDuration, if_pos hrows]
  have hall : ∃ batch, (cases.eraseDups.mapM fun case_id => do
      return (case_id,← computeDurationsFromEvents platform
        (groupEvents (fun _ => []) (order.byCase (db.filter fun event => cases.contains event.case_id)) case_id)
        definitions.rows)) = .ok batch ∧
      List.Forall₂ (fun case_id entry => case_id = entry.1 ∧ computeDuration platform order db definitions entry.1 = .ok entry.2)
        cases.eraseDups batch := by
    apply exists_mapM_eq_ok
    intro case_id hmem
    obtain ⟨computations,hok,_⟩ := computeDuration_of_readable order h case_id
    refine ⟨(case_id,computations),?_,rfl,hok⟩
    rw [groupEvents_byCase hdistinct (List.mem_eraseDups.1 hmem), ← computeDuration_eq, hok]
    rfl
  obtain ⟨batch,hbatch,hall⟩ := hall
  refine ⟨batch,?_,fun case_id => ?_,fun entry hmem => ?_⟩
  · rw [computeDurations, if_neg hcases, if_neg hrows]
    exact hbatch
  · have hkeys : cases.eraseDups = batch.map Prod.fst := by
      rw [← List.forall₂_eq_eq_eq, List.forall₂_map_right_iff]
      exact hall.imp fun _ _ hentry => hentry.1
    rw [← hkeys, List.mem_eraseDups]
  · obtain ⟨_,_,hentry⟩ := exists_of_forall₂ hall.flip hmem
    exact hentry.2

end Events

section Storage
variable {newId : ℕ → ℕ} {existing rows : List CaseDuration} {computation : CaseDurationComputation}
  {computations : List CaseDurationComputation}

/-- One row for each computation, which holds it, and no other row. -/
structure Stores (rows : List CaseDuration) (computations : List CaseDurationComputation) : Prop where
  perm : (rows.map CaseDuration.definition_id).Perm (computations.map CaseDurationComputation.duration_id)
  holds : ∀ computation ∈ computations, ∀ entity ∈ rows, entity.definition_id = computation.duration_id →
    entity.Holds computation

theorem CaseDuration.holds_fill {entity : CaseDuration} (h : entity.definition_id = computation.duration_id) :
    (entity.fill computation).Holds computation :=
  ⟨h,rfl⟩

/-- The computations without a row. -/
def fresh (existing : List CaseDuration) (computations : List CaseDurationComputation) : List ℕ :=
  (computations.map CaseDurationComputation.duration_id).filter fun definition_id =>
    !existing.any fun entity => entity.definition_id = definition_id

theorem storeComputation_ids (newId : ℕ → ℕ) (existing rows : List CaseDuration) (computation : CaseDurationComputation) :
    (storeComputation newId existing rows computation).map CaseDuration.definition_id =
      rows.map CaseDuration.definition_id ++ fresh existing [computation] := by
  rw [storeComputation, fresh, List.map_singleton, List.filter_singleton]
  by_cases hrow : (existing.any fun entity => entity.definition_id = computation.duration_id) = true
  · rw [if_pos hrow, hrow, List.map_map]
    have hsame : (CaseDuration.definition_id ∘ fun entity : CaseDuration =>
        if entity.definition_id = computation.duration_id then entity.fill computation else entity) =
        CaseDuration.definition_id := by
      funext entity
      show (if entity.definition_id = computation.duration_id then entity.fill computation else entity).definition_id = _
      split <;> rfl
    rw [hsame]
    exact (List.append_nil _).symm
  · rw [if_neg hrow, Bool.not_eq_true] at *
    rw [hrow, List.map_append]
    rfl

theorem foldl_storeComputation_ids (newId : ℕ → ℕ) (existing rows : List CaseDuration)
    (computations : List CaseDurationComputation) :
    (computations.foldl (storeComputation newId existing) rows).map CaseDuration.definition_id =
      rows.map CaseDuration.definition_id ++ fresh existing computations := by
  induction computations generalizing rows with
  | nil => exact (List.append_nil _).symm
  | cons computation computations ih =>
    rw [List.foldl_cons, ih, storeComputation_ids, List.append_assoc]
    congr 1
    rw [fresh, fresh, fresh, ← List.filter_append]
    rfl

theorem storeComputation_holds {entity : CaseDuration} (hmem : entity ∈ storeComputation newId existing rows computation)
    (hrows : existing.any (fun old => old.definition_id = computation.duration_id) = false →
      ∀ row ∈ rows, row.definition_id ≠ computation.duration_id) :
    entity.definition_id = computation.duration_id ∧ entity.Holds computation ∨
      entity.definition_id ≠ computation.duration_id ∧ entity ∈ rows := by
  rw [storeComputation] at hmem
  split at hmem
  · obtain ⟨row,hrow,rfl⟩ := List.mem_map.1 hmem
    split
    · next hid => exact .inl ⟨hid,CaseDuration.holds_fill hid⟩
    · next hid => exact .inr ⟨hid,hrow⟩
  · next hnone =>
    cases List.mem_append.1 hmem with
    | inl hrow => exact .inr ⟨hrows (Bool.not_eq_true _ ▸ hnone) entity hrow,hrow⟩
    | inr hnew =>
      rw [List.mem_singleton.1 hnew]
      exact .inl ⟨rfl,CaseDuration.holds_fill rfl⟩

theorem foldl_storeComputation_holds (hnodup : (computations.map CaseDurationComputation.duration_id).Nodup)
    (hrows : ∀ computation ∈ computations,
      existing.any (fun old => old.definition_id = computation.duration_id) = false →
        ∀ row ∈ rows, row.definition_id ≠ computation.duration_id)
    {entity : CaseDuration} (hmem : entity ∈ computations.foldl (storeComputation newId existing) rows) :
    (∃ computation ∈ computations, entity.definition_id = computation.duration_id ∧ entity.Holds computation) ∨
      (∀ computation ∈ computations, entity.definition_id ≠ computation.duration_id) ∧ entity ∈ rows := by
  induction computations generalizing rows with
  | nil => exact .inr ⟨fun _ hnil => absurd hnil List.not_mem_nil,hmem⟩
  | cons computation computations ih =>
    rw [List.map_cons, List.nodup_cons] at hnodup
    rw [List.forall_mem_cons] at hrows
    have hother : ∀ other ∈ computations, computation.duration_id ≠ other.duration_id := by
      intro other hin heq
      exact hnodup.1 (heq ▸ List.mem_map_of_mem hin)
    have hnext : ∀ other ∈ computations, existing.any (fun old => old.definition_id = other.duration_id) = false →
        ∀ row ∈ storeComputation newId existing rows computation, row.definition_id ≠ other.duration_id := by
      intro other hin hnone row hrow
      cases storeComputation_holds hrow hrows.1 with
      | inl hwritten => exact hwritten.1 ▸ hother other hin
      | inr hkept => exact hrows.2 other hin hnone row hkept.2
    cases ih hnodup.2 hnext hmem with
    | inl hheld =>
      obtain ⟨other,hin,hholds⟩ := hheld
      exact .inl ⟨other,List.mem_cons_of_mem computation hin,hholds⟩
    | inr hrest =>
      cases storeComputation_holds hrest.2 hrows.1 with
      | inl hwritten => exact .inl ⟨computation,List.mem_cons_self,hwritten⟩
      | inr hkept => exact .inr ⟨List.forall_mem_cons.2 ⟨hkept.1,hrest.1⟩,hkept.2⟩

theorem any_definition_id {definition_id : ℕ} :
    (existing.any fun entity => entity.definition_id = definition_id) = true ↔
      definition_id ∈ existing.map CaseDuration.definition_id := by
  rw [List.any_eq_true, List.mem_map]
  simp only [decide_eq_true_eq]

/-- The rows that a synchronisation leaves are those of the computations, whatever rows there were. -/
theorem storeComputations_stores (newId : ℕ → ℕ) (hexisting : (existing.map CaseDuration.definition_id).Nodup)
    (hnodup : (computations.map CaseDurationComputation.duration_id).Nodup) :
    Stores (storeComputations newId existing computations) computations := by
  refine ⟨?_,fun computation hin entity hmem hid => ?_⟩
  · have hids : (storeComputations newId existing computations).map CaseDuration.definition_id =
        (existing.map CaseDuration.definition_id ++ fresh existing computations).filter fun definition_id =>
          !(existing.any (fun old => old.definition_id = definition_id) &&
            !(computations.map CaseDurationComputation.duration_id).contains definition_id) := by
      rw [← foldl_storeComputation_ids newId, List.filter_map]
      rfl
    have hdisjoint : (existing.map CaseDuration.definition_id ++ fresh existing computations).Nodup := by
      refine List.nodup_append.2 ⟨hexisting,List.Nodup.filter _ hnodup,fun a ha b hb hab => ?_⟩
      have hnone := (List.mem_filter.1 hb).2
      rw [← hab, any_definition_id.2 ha] at hnone
      exact absurd hnone Bool.false_ne_true
    rw [hids, List.perm_ext_iff_of_nodup (List.Nodup.filter _ hdisjoint) hnodup]
    intro definition_id
    rw [List.mem_filter, List.mem_append, fresh, List.mem_filter, ← any_definition_id, ← List.contains_iff_mem]
    -- whether the definition has a row and whether it is computed decide the rest
    cases existing.any (fun old => old.definition_id = definition_id) <;>
      cases (computations.map CaseDurationComputation.duration_id).contains definition_id <;> decide
  · have hloop := List.mem_of_mem_filter hmem
    have hnone : ∀ computation ∈ computations,
        existing.any (fun old => old.definition_id = computation.duration_id) = false →
          ∀ row ∈ existing, row.definition_id ≠ computation.duration_id := by
      intro computation _ hfalse row hrow heq
      rw [any_definition_id.2 (heq ▸ List.mem_map_of_mem hrow)] at hfalse
      exact absurd hfalse.symm Bool.false_ne_true
    cases foldl_storeComputation_holds hnodup hnone hloop with
    | inl hheld =>
      obtain ⟨other,hother,hid',hholds⟩ := hheld
      have hsame := List.inj_on_of_nodup_map hnodup hother hin (hid'.symm.trans hid)
      exact hsame ▸ hholds
    | inr hrest => exact absurd hid (hrest.1 computation hin)

theorem storeComputations_of_stores (newId : ℕ → ℕ) (h : Stores rows computations) :
    storeComputations newId rows computations = rows := by
  have hround : ∀ computation ∈ computations, storeComputation newId rows rows computation = rows := by
    intro computation hin
    have hrow := any_definition_id.2 (h.perm.mem_iff.2 (List.mem_map_of_mem hin))
    rw [storeComputation, if_pos hrow]
    calc rows.map (fun entity => if entity.definition_id = computation.duration_id then entity.fill computation else entity)
        = rows.map id := by
          apply List.map_congr_left
          intro entity hentity
          split
          · next hid => exact (h.holds computation hin entity hentity hid).2
          · rfl
      _ = rows := List.map_id rows
  have hloop : ∀ cs ⊆ computations, cs.foldl (storeComputation newId rows) rows = rows := by
    intro cs hsub
    induction cs with
    | nil => rfl
    | cons computation cs ih =>
      rw [List.cons_subset] at hsub
      rw [List.foldl_cons, hround computation hsub.1, ih hsub.2]
  rw [storeComputations, hloop computations (List.Subset.refl _), List.filter_eq_self]
  intro entity hentity
  have hseen := h.perm.mem_iff.1 (List.mem_map_of_mem hentity)
  rw [List.contains_iff_mem.2 hseen, Bool.not_true, Bool.and_false, Bool.not_false]

end Storage

section Correctness
variable {S N A : Type} {platform : Platform S N A} {order : EventOrder S N A} {db db' : List (CaseEvent S N A)}
  {definitions : Definitions S N A}

/-- Every case has its durations, alone and in a batch, whatever the order of the events, and they are what is stored. -/
structure DurationsCorrect (platform : Platform S N A) (order : EventOrder S N A) (db : List (CaseEvent S N A))
    (definitions : Definitions S N A) : Prop where
  alone : ∀ case_id, ∃ computations, computeDuration platform order db definitions case_id = .ok computations ∧
    List.Forall₂ (IsDuration platform (listCaseEvents order db case_id)) definitions.rows computations
  batch : ∀ cases, ∃ batch, computeDurations platform order db definitions cases = .ok batch ∧
    (∀ case_id, case_id ∈ batch.map Prod.fst ↔ case_id ∈ cases) ∧
    ∀ entry ∈ batch, computeDuration platform order db definitions entry.1 = .ok entry.2
  storedOrder : ∀ db', db.Perm db' → ∀ case_id,
    computeDuration platform order db' definitions case_id = computeDuration platform order db definitions case_id
  givenOrder : ∀ events events', events ⊆ db → events.Perm events' →
    (∀ definition ∈ definitions.rows, DistinctTimestamps platform definition.start_anchor events ∧
      DistinctTimestamps platform definition.end_anchor events) →
    ∃ computations, computeDurationsFromEvents platform events definitions.rows = .ok computations ∧
      computeDurationsFromEvents platform events' definitions.rows = .ok computations
  sync : ∀ newId case_id, ∀ existing : CaseRows, ∃ computations rows,
    syncCaseDurations platform order db definitions newId case_id existing.rows = .ok (computations,rows) ∧
    computeDuration platform order db definitions case_id = .ok computations ∧ Stores rows computations ∧
    (computations.map CaseDurationComputation.duration_id).Perm (definitions.rows.map CaseDurationDefinitionRead.id) ∧
    syncCaseDurations platform order db definitions newId case_id rows = .ok (computations,rows)

theorem duration_ids {events : List (CaseEvent S N A)} {rows : List (CaseDurationDefinitionRead S N A)}
    {computations : List CaseDurationComputation} (h : List.Forall₂ (IsDuration platform events) rows computations) :
    computations.map CaseDurationComputation.duration_id = rows.map CaseDurationDefinitionRead.id := by
  induction h with
  | nil => rfl
  | cons hduration _ ih => rw [List.map_cons, List.map_cons, hduration.fields.1, ih]

theorem syncCaseDurations_of_readable (h : AllReadable platform db definitions) (newId : ℕ → ℕ) (case_id : ℕ)
    (existing : CaseRows) : ∃ computations rows,
      syncCaseDurations platform order db definitions newId case_id existing.rows = .ok (computations,rows) ∧
      computeDuration platform order db definitions case_id = .ok computations ∧ Stores rows computations ∧
      (computations.map CaseDurationComputation.duration_id).Perm (definitions.rows.map CaseDurationDefinitionRead.id) ∧
      syncCaseDurations platform order db definitions newId case_id rows = .ok (computations,rows) := by
  obtain ⟨computations,hcompute,hall⟩ := computeDuration_of_readable order h case_id
  have hids := duration_ids hall
  have hstores := storeComputations_stores newId existing.nodup (hids ▸ definitions.nodup)
  refine ⟨computations,storeComputations newId existing.rows computations,?_,hcompute,hstores,.of_eq hids,?_⟩
  · rw [syncCaseDurations, hcompute]
    rfl
  · rw [syncCaseDurations, hcompute]
    show Except.ok (computations,storeComputations newId (storeComputations newId existing.rows computations) computations) = _
    rw [storeComputations_of_stores newId hstores]

/-- The durations of all cases are correct if and only if every field that an anchor reads is there,
and every timestamp is one that the platform reads or rejects as a value. -/
theorem durationsCorrect_iff (order : EventOrder S N A) (definitions : Definitions S N A) (h : DistinctCreation db) :
    DurationsCorrect platform order db definitions ↔ AllReadable platform db definitions := by
  constructor
  · intro hcorrect definition hmem
    have hread : ∀ event ∈ db, isReadable platform definition.start_anchor event = true ∧
        isReadable platform definition.end_anchor event = true := by
      intro event hevent
      obtain ⟨computations,hcompute,_⟩ := hcorrect.alone event.case_id
      rw [computeDuration_eq] at hcompute
      have hall := readable_of_computeDurationsFromEvents hcompute definition hmem
      have hlisted : event ∈ listCaseEvents order db event.case_id :=
        (listCaseEvents_perm event.case_id).mem_iff.2 (List.mem_filter.2 ⟨hevent,decide_eq_true rfl⟩)
      exact ⟨List.all_eq_true.1 hall.1 event hlisted,List.all_eq_true.1 hall.2 event hlisted⟩
    exact ⟨List.all_eq_true.2 fun event hevent => (hread event hevent).1,
      List.all_eq_true.2 fun event hevent => (hread event hevent).2⟩
  · intro hread
    refine ⟨computeDuration_of_readable order hread,computeDurations_of_readable h hread,fun db' hperm case_id => ?_,
      fun events events' hsub hperm hdistinct => ?_,syncCaseDurations_of_readable hread⟩
    · rw [computeDuration_eq, computeDuration_eq, listCaseEvents_eq h hperm]
    · have hevents : ∀ definition ∈ definitions.rows, IsReadable platform events definition :=
        fun definition hmem => (hread definition hmem).subset hsub
      obtain ⟨computations,hok,_⟩ := computeDurationsFromEvents_of_readable hevents
      exact ⟨computations,hok,computeDurationsFromEvents_perm hevents hperm hdistinct ▸ hok⟩

end Correctness

section Samples

/-- Sorting gives the orders of the database. -/
def sortedOrder (S N A : Type) : EventOrder S N A where
  byCreation events := events.mergeSort fun a b => a.created_at ≤ b.created_at
  byCase events := events.mergeSort fun a b => a.case_id < b.case_id ∨ a.case_id = b.case_id ∧ a.created_at ≤ b.created_at
  byCreation_perm events := List.mergeSort_perm events _
  byCreation_sorted events := by
    apply pairwise_mergeSort_of
    · intro a b c hab hbc
      omega
    · intro a b
      omega
  byCase_perm events := List.mergeSort_perm events _
  byCase_sorted events := by
    apply pairwise_mergeSort_of
    · intro a b c hab hbc
      omega
    · intro a b
      omega

/-- A platform of seconds and microseconds: years from 1 to 9999 are datetimes, a year beyond 31 bits is an error of
the operating system. -/
def samplePlatform : Platform ℤ ℤ Unit where
  fromisoformat _ := none
  fromtimestamp x :=
    if -62135596800 ≤ x ∧ x ≤ 253402300799 then .ok (x*1000000)
    else if -67768040609740800 ≤ x ∧ x ≤ 67768036191676799 then .error .ValueError
    else if -2^63 ≤ x ∧ x < 2^63 then .error .OSError
    else .error .OverflowError
  toUtc stamp := .ok stamp
  getattr _ _ := .ok none
  eq _ _ := false

def sampleEvent (id case_id : ℕ) (seconds : ℤ) : CaseEvent ℤ ℤ Unit where
  id := id
  case_id := case_id
  type := "case_created".toList
  created_at := id
  column name :=
    if name = "data".toList then .ok (some (.dict [("at".toList,.number seconds)]))
    else if name = "case".toList then .error .MissingGreenlet
    else .ok none

def sampleAnchor (path : Text) (selection : CaseDurationAnchorSelection) : CaseDurationEventAnchor ℤ ℤ Unit :=
  ⟨"case_created".toList,path,[],selection⟩

/-- From the first event to the last, by the datetime at a path. -/
def sampleDefinitions (path : Text) : Definitions ℤ ℤ Unit where
  rows := [⟨7,"age".toList,none,sampleAnchor path .FIRST,sampleAnchor path .LAST⟩]
  nodup := List.nodup_singleton 7

/-- A case with two events that count seconds, and one whose event counts nanoseconds. -/
def sampleEvents : List (CaseEvent ℤ ℤ Unit) :=
  [sampleEvent 1 1 1700000060,sampleEvent 2 1 1700000000,sampleEvent 3 2 1700000000000000000]

theorem sampleEvents_distinct : DistinctCreation sampleEvents := by
  have hcreated : sampleEvents.Pairwise fun a b => a.created_at ≠ b.created_at := by decide
  refine List.Pairwise.imp ?_ hcreated
  intro a b hne _
  exact hne

theorem sampleEvents_readable : AllReadable samplePlatform (sampleEvents.take 2) (sampleDefinitions "data.at".toList) :=
  List.forall_mem_singleton.2 ⟨by decide,by decide⟩

/-- The path `data.at` is readable for the first case alone. -/
theorem durationsCorrect_iff_sample :
    DistinctCreation sampleEvents ∧
    ¬ DurationsCorrect samplePlatform (sortedOrder ℤ ℤ Unit) sampleEvents (sampleDefinitions "data.at".toList) ∧
    DurationsCorrect samplePlatform (sortedOrder ℤ ℤ Unit) (sampleEvents.take 2)
      (sampleDefinitions "data.at".toList) := by
  refine ⟨sampleEvents_distinct,?_,?_⟩
  · intro hcorrect
    have hread := (durationsCorrect_iff (sortedOrder ℤ ℤ Unit) (sampleDefinitions "data.at".toList) sampleEvents_distinct).1
      hcorrect _ List.mem_cons_self
    exact absurd hread.1 (by decide)
  · exact (durationsCorrect_iff (sortedOrder ℤ ℤ Unit) (sampleDefinitions "data.at".toList)
      (List.Pairwise.sublist (List.take_sublist 2 sampleEvents) sampleEvents_distinct)).2 sampleEvents_readable

theorem listCaseEvents_single (case_id : ℕ) {event : CaseEvent ℤ ℤ Unit}
    (h : sampleEvents.filter (fun event => event.case_id = case_id) = [event]) :
    listCaseEvents (sortedOrder ℤ ℤ Unit) sampleEvents case_id = [event] := by
  rw [listCaseEvents, h]
  exact List.mergeSort_singleton _

/-- The timestamp in nanoseconds is not passed over: it fails its case, and a batch with a case that is computed alone.
The created time of the case, which is not loaded with the event, fails too. -/
theorem not_durationsCorrect :
    computeDuration samplePlatform (sortedOrder ℤ ℤ Unit) sampleEvents (sampleDefinitions "data.at".toList) 2 = .error .OSError ∧
    (∃ computations, computeDuration samplePlatform (sortedOrder ℤ ℤ Unit) sampleEvents
      (sampleDefinitions "data.at".toList) 1 = .ok computations) ∧
    computeDurations samplePlatform (sortedOrder ℤ ℤ Unit) sampleEvents (sampleDefinitions "data.at".toList) [2,1] =
      .error .OSError ∧
    computeDuration samplePlatform (sortedOrder ℤ ℤ Unit) sampleEvents (sampleDefinitions "case.created_at".toList) 2 =
      .error .MissingGreenlet := by
  have hfails : ∀ path e, findMatchingEvent samplePlatform [sampleEvent 3 2 1700000000000000000] (sampleAnchor path .FIRST) none =
        .error e → computeDurationsFromEvents samplePlatform
          (listCaseEvents (sortedOrder ℤ ℤ Unit) sampleEvents 2) (sampleDefinitions path).rows = .error e := by
    intro path e he
    rw [listCaseEvents_single 2 rfl]
    change (do
      let computation ← computeFromDefinition samplePlatform [sampleEvent 3 2 1700000000000000000] _
      return [computation]) = _
    rw [computeFromDefinition, he]
    rfl
  have hnanoseconds := hfails "data.at".toList .OSError rfl
  refine ⟨by rw [computeDuration_eq, hnanoseconds],?_,?_,?_⟩
  · rw [computeDuration_eq]
    have hlisted : listCaseEvents (sortedOrder ℤ ℤ Unit) sampleEvents 1 ⊆ sampleEvents.take 2 :=
      (listCaseEvents_perm 1).subset
    obtain ⟨computations,hok,_⟩ := computeDurationsFromEvents_of_readable fun definition hmem =>
      (sampleEvents_readable definition hmem).subset hlisted
    exact ⟨computations,hok⟩
  · have hgroup : groupEvents (fun _ => []) ((sortedOrder ℤ ℤ Unit).byCase
        (sampleEvents.filter fun event => [2,1].contains event.case_id)) 2 = listCaseEvents (sortedOrder ℤ ℤ Unit) sampleEvents 2 :=
      groupEvents_byCase sampleEvents_distinct List.mem_cons_self
    rw [computeDurations, if_neg (by decide), if_neg (by decide), show ([2,1] : List ℕ).eraseDups = [2,1] from rfl,
      List.mapM_cons, hgroup, hnanoseconds]
    rfl
  · rw [computeDuration_eq]
    exact hfails "case.created_at".toList .MissingGreenlet rfl

end Samples
end CaseDurations
end Allama

import Allama.CaseUpdates
import Allama.Chains
import Allama.Runs

/-! What the events of a case tell about its attributes. -/
namespace Allama
namespace Cases

set_option linter.constructorNameAsVariable false

open Chains RecordFields
section Changes
variable {Value Payload : Type}

/-- What events record in one respect, in their order. -/
def changesOf {A : Type} (pick : EventData Value → List A) (events : List (CaseEvent Value)) : List A :=
  events.flatMap fun event => pick event.data

def statusChange : EventData Value → List (CaseStatus × CaseStatus)
  | .closed old new | .reopened old new | .statusChanged old new => [(old,new)]
  | _ => []

def priorityChange : EventData Value → List (CasePriority × CasePriority)
  | .priorityChanged old new => [(old,new)]
  | _ => []

def severityChange : EventData Value → List (CaseSeverity × CaseSeverity)
  | .severityChanged old new => [(old,new)]
  | _ => []

def assigneeChange : EventData Value → List (Option Nat × Option Nat)
  | .assigneeChanged old new => [(old,new)]
  | _ => []

def summaryChange : EventData Value → List (String × String)
  | .updated old new => [(old,new)]
  | _ => []

def payloadChange : EventData Value → List Unit
  | .payloadChanged => [()]
  | _ => []

def fieldChange (field : String) : EventData Value → List (Option Value × Option Value)
  | .fieldsChanged changes => (changes.filter fun diff => diff.field == field).map fun diff => (diff.old,diff.new)
  | _ => []

variable {A : Type} (pick : EventData Value → List A)

@[simp] theorem changesOf_nil : changesOf pick [] = [] := rfl

@[simp] theorem changesOf_append (events events' : List (CaseEvent Value)) :
    changesOf pick (events ++ events') = changesOf pick events ++ changesOf pick events' := List.flatMap_append

@[simp] theorem changesOf_one (event : CaseEvent Value) : changesOf pick [event] = pick event.data :=
  List.flatMap_singleton ..

@[simp] theorem changesOf_if {c : Prop} [Decidable c] (events events' : List (CaseEvent Value)) :
    changesOf pick (if c then events else events') = if c then changesOf pick events else changesOf pick events' := by
  split <;> rfl

/-- The stage of an update that writes an event. -/
inductive EventStage
  | enums
  | fields
  | attributes

def EventData.stage : EventData Value → EventStage
  | .fieldsChanged _ => .fields
  | .assigneeChanged _ _ | .updated _ _ | .payloadChanged => .attributes
  | _ => .enums

def PicksOf (stage : EventStage) {A : Type} (pick : EventData Value → List A) : Prop := ∀ data, data.stage ≠ stage → pick data = []

theorem picksOf_status : PicksOf .enums (statusChange : EventData Value → _) := by
  intro data h
  cases data <;> first | rfl | exact absurd rfl h

theorem picksOf_priority : PicksOf .enums (priorityChange : EventData Value → _) := by
  intro data h
  cases data <;> first | rfl | exact absurd rfl h

theorem picksOf_severity : PicksOf .enums (severityChange : EventData Value → _) := by
  intro data h
  cases data <;> first | rfl | exact absurd rfl h

theorem picksOf_assignee : PicksOf .attributes (assigneeChange : EventData Value → _) := by
  intro data h
  cases data <;> first | rfl | exact absurd rfl h

theorem picksOf_summary : PicksOf .attributes (summaryChange : EventData Value → _) := by
  intro data h
  cases data <;> first | rfl | exact absurd rfl h

theorem picksOf_payload : PicksOf .attributes (payloadChange : EventData Value → _) := by
  intro data h
  cases data <;> first | rfl | exact absurd rfl h

theorem picksOf_field (field : String) : PicksOf .fields (fieldChange field : EventData Value → _) := by
  intro data h
  cases data <;> first | rfl | exact absurd rfl h

variable {pick}

theorem changesOf_of_other {stage stage' : EventStage} {events : List (CaseEvent Value)} (hpick : PicksOf stage pick)
    (hevents : ∀ event ∈ events, event.data.stage = stage') (hne : stage' ≠ stage) : changesOf pick events = [] :=
  List.flatMap_eq_nil_iff.mpr fun event hevent => hpick event.data (hevents event hevent ▸ hne)

variable (Value) in
theorem stage_statusEvent (old new : CaseStatus) : (statusEvent old new : EventData Value).stage = .enums := by
  unfold statusEvent
  split
  · rfl
  · split <;> rfl

variable (Value) in
theorem statusChange_statusEvent (old new : CaseStatus) :
    statusChange (statusEvent old new : EventData Value) = [(old,new)] := by
  unfold statusEvent
  split
  · rfl
  · split <;> rfl

end Changes

section Links
variable {Value Payload : Type}
variable {bind : String → Option Value → Except String (Option Value)}

/-- What is stored is stored again as it is. -/
def Stable (bind : String → Option Value → Except String (Option Value)) (field : String) (value : Option Value) : Prop :=
  ∀ stored, bind field value = .ok stored → stored = value

/-- Events that lead the attributes of a case from some values to others. -/
structure Links (bind : String → Option Value → Except String (Option Value)) (before after : Tables Value Payload)
    (events : List (CaseEvent Value)) : Prop where
  appended : after.events = before.events ++ events
  status : Linked Eq before.row.status (changesOf statusChange events) after.row.status
  priority : Linked Eq before.row.priority (changesOf priorityChange events) after.row.priority
  severity : Linked Eq before.row.severity (changesOf severityChange events) after.row.severity
  assignee : Linked Eq before.row.assignee_id (changesOf assigneeChange events) after.row.assignee_id
  summary : Linked Eq before.row.summary (changesOf summaryChange events) after.row.summary
  /-- The old value of a custom field is what the column made of the one supplied before. -/
  fields : ∀ field, Linked (fun supplied stored => bind field supplied = .ok stored) (before.fieldValue field)
    (changesOf (fieldChange field) events) (after.fieldValue field)
  statusReal : ∀ change ∈ changesOf statusChange events, change.1 ≠ change.2
  priorityReal : ∀ change ∈ changesOf priorityChange events, change.1 ≠ change.2
  severityReal : ∀ change ∈ changesOf severityChange events, change.1 ≠ change.2
  fieldsReal : ∀ field, ∀ change ∈ changesOf (fieldChange field) events, change.1 ≠ change.2

def Exact {A : Type} (old new : A) (changes : List (A × A)) : Prop :=
  (old = new → changes = []) ∧ (old ≠ new → changes = [(old,new)])

/-- What a call that returns records. -/
structure Recorded (bind : String → Option Value → Except String (Option Value)) (before after : Tables Value Payload)
    (events : List (CaseEvent Value)) : Prop where
  appended : after.events = before.events ++ events
  status : Exact before.row.status after.row.status (changesOf statusChange events)
  priority : Exact before.row.priority after.row.priority (changesOf priorityChange events)
  severity : Exact before.row.severity after.row.severity (changesOf severityChange events)
  assignee : before.row.assignee_id ≠ after.row.assignee_id →
    changesOf assigneeChange events = [(before.row.assignee_id,after.row.assignee_id)]
  summary : before.row.summary ≠ after.row.summary →
    changesOf summaryChange events = [(before.row.summary,after.row.summary)]
  payload : (before.row.payload = after.row.payload → changesOf payloadChange events = []) ∧
    (before.row.payload ≠ after.row.payload → changesOf payloadChange events = [()])
  fields : ∀ field, before.fieldValue field ≠ after.fieldValue field → ∃ supplied,
    changesOf (fieldChange field) events = [(before.fieldValue field,supplied)] ∧
      bind field supplied = .ok (after.fieldValue field)

theorem Links.refl (tables : Tables Value Payload) : Links bind tables tables [] where
  appended := (List.append_nil _).symm
  status := rfl
  priority := rfl
  severity := rfl
  assignee := rfl
  summary := rfl
  fields _ := rfl
  statusReal _ h := absurd h List.not_mem_nil
  priorityReal _ h := absurd h List.not_mem_nil
  severityReal _ h := absurd h List.not_mem_nil
  fieldsReal _ _ h := absurd h List.not_mem_nil

theorem forall_changesOf_append {A : Type} {pick : EventData Value → List A} {P : A → Prop}
    {events events' : List (CaseEvent Value)} (h : ∀ change ∈ changesOf pick events, P change)
    (h' : ∀ change ∈ changesOf pick events', P change) : ∀ change ∈ changesOf pick (events ++ events'), P change := by
  rw [changesOf_append]
  intro change hchange
  rcases List.mem_append.mp hchange with hchange | hchange
  · exact h change hchange
  · exact h' change hchange

theorem linked_changesOf_append {A B : Type} {pick : EventData Value → List (A × B)} {stands : B → A → Prop} {a b c : A}
    {events events' : List (CaseEvent Value)} (h : Linked stands a (changesOf pick events) b)
    (h' : Linked stands b (changesOf pick events') c) : Linked stands a (changesOf pick (events ++ events')) c := by
  rw [changesOf_append]
  exact linked_append h h'

theorem Links.trans {first second third : Tables Value Payload} {events events' : List (CaseEvent Value)}
    (h : Links bind first second events) (h' : Links bind second third events') :
    Links bind first third (events ++ events') where
  appended := by rw [h'.appended, h.appended, List.append_assoc]
  status := linked_changesOf_append h.status h'.status
  priority := linked_changesOf_append h.priority h'.priority
  severity := linked_changesOf_append h.severity h'.severity
  assignee := linked_changesOf_append h.assignee h'.assignee
  summary := linked_changesOf_append h.summary h'.summary
  fields field := linked_changesOf_append (h.fields field) (h'.fields field)
  statusReal := forall_changesOf_append h.statusReal h'.statusReal
  priorityReal := forall_changesOf_append h.priorityReal h'.priorityReal
  severityReal := forall_changesOf_append h.severityReal h'.severityReal
  fieldsReal field := forall_changesOf_append (h.fieldsReal field) (h'.fieldsReal field)

end Links

section Stages
variable {Value Payload : Type} {env : Environment}

/-- The events of a status, a priority and a severity that are set. -/
def enumEvents (env : Environment) (row : Attributes Payload) (status : CaseStatus) (priority : CasePriority)
    (severity : CaseSeverity) : List (CaseEvent Value) :=
  (if row.status = status then [] else [⟨statusEvent row.status status,env.wf_exec_id⟩]) ++
    (if row.priority = priority then [] else [⟨.priorityChanged row.priority priority,env.wf_exec_id⟩]) ++
    (if row.severity = severity then [] else [⟨.severityChanged row.severity severity,env.wf_exec_id⟩])

section Enums
variable (row : Attributes Payload) (status : CaseStatus) (priority : CasePriority) (severity : CaseSeverity)

theorem changesOf_enumEvents {A : Type} (pick : EventData Value → List A) :
    changesOf pick (enumEvents env row status priority severity) =
      (if row.status = status then [] else pick (statusEvent row.status status)) ++
        (if row.priority = priority then [] else pick (.priorityChanged row.priority priority)) ++
        (if row.severity = severity then [] else pick (.severityChanged row.severity severity)) := by
  simp [enumEvents]

theorem status_enumEvents : changesOf statusChange (enumEvents env row status priority severity : List (CaseEvent Value)) =
    if row.status = status then [] else [(row.status,status)] := by
  rw [changesOf_enumEvents, statusChange_statusEvent]
  simp [statusChange]

variable (Value) in
theorem statusEvent_cases (old new : CaseStatus) : (statusEvent old new : EventData Value) = .closed old new ∨
    (statusEvent old new : EventData Value) = .reopened old new ∨
    (statusEvent old new : EventData Value) = .statusChanged old new := by
  unfold statusEvent
  split
  · exact .inl rfl
  · split
    · exact .inr (.inl rfl)
    · exact .inr (.inr rfl)

theorem priority_enumEvents : changesOf priorityChange (enumEvents env row status priority severity : List (CaseEvent Value)) =
    if row.priority = priority then [] else [(row.priority,priority)] := by
  rw [changesOf_enumEvents]
  rcases statusEvent_cases Value row.status status with h | h | h <;> simp [h, priorityChange]

theorem severity_enumEvents : changesOf severityChange (enumEvents env row status priority severity : List (CaseEvent Value)) =
    if row.severity = severity then [] else [(row.severity,severity)] := by
  rw [changesOf_enumEvents]
  rcases statusEvent_cases Value row.status status with h | h | h <;> simp [h, severityChange]

variable (Value env) in
theorem stage_enumEvents : ∀ event ∈ (enumEvents env row status priority severity : List (CaseEvent Value)),
    event.data.stage = .enums := by
  intro event hevent
  simp only [enumEvents, List.mem_append, List.mem_ite_nil_left, List.mem_singleton] at hevent
  obtain (⟨-,rfl⟩ | ⟨-,rfl⟩) | ⟨-,rfl⟩ := hevent
  · exact stage_statusEvent Value ..
  · rfl
  · rfl

end Enums

section Attributes
variable [DecidableEq Payload] (params : CaseUpdate Value Payload) (row row' : Attributes Payload)

theorem summary_attributeEvents : changesOf summaryChange (attributeEvents env params row row') =
    if params.summary.isSome then [(row.summary,row'.summary)] else [] := by
  simp [attributeEvents, summaryChange]

theorem assignee_attributeEvents : changesOf assigneeChange (attributeEvents env params row row') =
    if params.assignee_id.isSome then [(row.assignee_id,row'.assignee_id)] else [] := by
  simp [attributeEvents, assigneeChange]

theorem payload_attributeEvents : changesOf payloadChange (attributeEvents env params row row') =
    if row.payload = row'.payload then [] else [()] := by
  simp [attributeEvents, payloadChange]

variable (Value env) in
theorem stage_attributeEvents : ∀ event ∈ (attributeEvents env params row row' : List (CaseEvent Value)),
    event.data.stage = .attributes := by
  intro event hevent
  simp only [attributeEvents, List.mem_append, List.mem_ite_nil_left, List.mem_ite_nil_right, List.mem_singleton] at hevent
  obtain (⟨-,rfl⟩ | ⟨-,rfl⟩) | ⟨-,rfl⟩ := hevent <;> rfl

end Attributes

section Fields
variable [DecidableEq Value]

def fieldEvents (env : Environment) (tables : Tables Value Payload) (fields : List (String × Option Value)) :
    List (CaseEvent Value) :=
  if fields = [] then [] else [⟨.fieldsChanged (diffsOf tables fields),env.wf_exec_id⟩]

variable (env) in
theorem stage_fieldEvents (tables : Tables Value Payload) (fields : List (String × Option Value)) :
    ∀ event ∈ fieldEvents env tables fields, event.data.stage = .fields := by
  intro event hevent
  rw [fieldEvents, List.mem_ite_nil_left, List.mem_singleton] at hevent
  rw [hevent.2]
  rfl

theorem field_fieldEvents (field : String) (tables : Tables Value Payload) (fields : List (String × Option Value)) :
    changesOf (fieldChange field) (fieldEvents env tables fields) = fieldChange field (.fieldsChanged (diffsOf tables fields)) := by
  cases fields with
  | nil => rfl
  | cons entry fields => simp [fieldEvents]

theorem fieldChange_of_not_supplied {field : String} (tables : Tables Value Payload)
    {fields : List (String × Option Value)} (h : field ∉ fields.map Prod.fst) :
    fieldChange field (.fieldsChanged (diffsOf tables fields)) = [] := by
  apply List.map_eq_nil_iff.mpr
  apply List.filter_eq_nil_iff.mpr
  intro diff hdiff heq
  obtain ⟨entry,hentry,hsome⟩ := List.mem_filterMap.mp hdiff
  split at hsome
  · cases hsome
  · cases hsome
    exact h (beq_iff_eq.mp heq ▸ List.mem_map_of_mem hentry)

theorem fieldChange_of_supplied {field : String} {value : Option Value} {tables : Tables Value Payload}
    {fields : List (String × Option Value)} (hnodup : (fields.map Prod.fst).Nodup) (h : fields.lookup field = some value) :
    fieldChange field (.fieldsChanged (diffsOf tables fields)) =
      if tables.fieldValue field = value then [] else [(tables.fieldValue field,value)] := by
  obtain ⟨before,after,rfl,-⟩ := List.lookup_eq_some_iff.mp h
  rw [List.map_append, List.map_cons, List.nodup_append, List.nodup_cons] at hnodup
  obtain ⟨-,⟨hafter,-⟩,hbefore⟩ := hnodup
  have hbefore : field ∉ before.map Prod.fst := fun hmem => hbefore field hmem field List.mem_cons_self rfl
  have hb := fieldChange_of_not_supplied tables hbefore
  have ha := fieldChange_of_not_supplied tables hafter
  simp only [fieldChange, diffsOf, List.filterMap_append, List.filterMap_cons, List.filter_append, List.map_append] at ha hb ⊢
  rw [hb, List.nil_append]
  by_cases hvalue : tables.fieldValue field = value
  · rw [if_pos hvalue, if_pos hvalue]
    exact ha
  · rw [if_neg hvalue, if_neg hvalue]
    dsimp only
    rw [List.filter_cons_of_pos (p := fun diff : FieldDiff Value => diff.field == field) (beq_self_eq_true field),
      List.map_cons, ha]

end Fields
end Stages
end Cases
end Allama

import Allama.CaseHistories

/-! Histories of updates of a case. -/
namespace Allama
namespace Cases

set_option linter.constructorNameAsVariable false

open Chains RecordFields
section Results
variable {Value Payload : Type} {env : Environment} {tables tables' : Tables Value Payload}

theorem changeAttribute_eq_some {A : Type} [DecidableEq A] {get : Attributes Payload → A}
    {set : A → Attributes Payload → Attributes Payload} {event : A → A → EventData Value} {wf_exec_id : Option String}
    {fails : Bool} {new : Option A} (hset : ∀ row, set (get row) row = row)
    (h : changeAttribute get set event wf_exec_id fails new tables = some tables') :
    ∃ value, tables' =
      { tables with
        row := set value tables.row
        events := tables.events ++ if get tables.row = value then [] else [⟨event (get tables.row) value,wf_exec_id⟩] } := by
  have hsame : tables =
      { tables with
        row := set (get tables.row) tables.row
        events := tables.events ++
          if get tables.row = get tables.row then [] else [⟨event (get tables.row) (get tables.row),wf_exec_id⟩] } := by
    rw [hset, if_pos rfl, List.append_nil]
  cases new with
  | none =>
    cases h
    exact ⟨_,hsame⟩
  | some new =>
    simp only [changeAttribute] at h
    split at h
    · cases h
      exact ⟨_,hsame⟩
    · rename_i hne
      split at h
      · cases h
      · cases h
        exact ⟨new,by rw [if_neg hne]⟩

theorem changeEnums_eq_some {params : CaseUpdate Value Payload}
    (h : ((changeStatus env params.status.join tables).bind (changePriority env params.priority.join)).bind
      (changeSeverity env params.severity.join) = some tables') :
    ∃ status priority severity, tables' =
      { tables with
        row := { tables.row with status := status, priority := priority, severity := severity }
        events := tables.events ++ enumEvents env tables.row status priority severity } := by
  obtain ⟨second,hsecond,hseverity⟩ := Option.bind_eq_some_iff.mp h
  obtain ⟨first,hstatus,hpriority⟩ := Option.bind_eq_some_iff.mp hsecond
  obtain ⟨status,rfl⟩ := changeAttribute_eq_some (fun _ => rfl) hstatus
  obtain ⟨priority,rfl⟩ := changeAttribute_eq_some (fun _ => rfl) hpriority
  obtain ⟨severity,rfl⟩ := changeAttribute_eq_some (fun _ => rfl) hseverity
  refine ⟨status,priority,severity,?_⟩
  simp only [enumEvents, List.append_assoc]

variable [DecidableEq Value] {bind : String → Option Value → Except String (Option Value)}

theorem changeFields_eq_ok {fields : List (String × Option Value)} (h : changeFields bind env fields tables = .ok tables') :
    ∃ stored, bindAll bind fields = .ok stored ∧ tables' =
      { tables with
        fields := stored.foldl (fun fields row => put row.1 row.2 fields) tables.fields
        events := tables.events ++ fieldEvents env tables fields } := by
  rw [changeFields] at h
  split at h
  · rename_i hnil
    cases h
    subst hnil
    refine ⟨[],rfl,?_⟩
    rw [fieldEvents, if_pos rfl, List.append_nil]
    rfl
  · rename_i hne
    split at h
    · cases h
    · rename_i stored hstored
      split at h
      · cases h
      · cases h
        exact ⟨stored,hstored,by rw [fieldEvents, if_neg hne]⟩

omit [DecidableEq Value] in
theorem setAttributes_eq_some {params : CaseUpdate Value Payload} {row row' : Attributes Payload}
    (h : setAttributes params row = some row') :
    row'.status = row.status ∧ row'.priority = row.priority ∧ row'.severity = row.severity ∧
      (params.summary = none → row'.summary = row.summary) ∧
      (params.assignee_id = none → row'.assignee_id = row.assignee_id) := by
  unfold setAttributes at h
  split at h
  · rename_i summary description hsummary hdescription
    cases h
    refine ⟨rfl,rfl,rfl,?_,?_⟩
    · intro hnone
      rw [hnone] at hsummary
      exact (Option.some.inj hsummary).symm
    · intro hnone
      change params.assignee_id.getD row.assignee_id = row.assignee_id
      rw [hnone]
      rfl
  · cases h

omit [DecidableEq Value] in
theorem finishUpdate_eq_some [DecidableEq Payload] {params : CaseUpdate Value Payload} (h : finishUpdate env params tables = some tables') :
    ∃ row, setAttributes params tables.row = some row ∧
      tables' = { tables with row := row, events := tables.events ++ attributeEvents env params tables.row row } := by
  unfold finishUpdate at h
  split at h
  · cases h
  · rename_i row hrow
    split at h
    · cases h
    · cases h
      exact ⟨row,hrow,rfl⟩

end Results

section Bound
variable {Value : Type} {bind : String → Option Value → Except String (Option Value)}

theorem keys_bindAll {fields stored : List (String × Option Value)} (h : bindAll bind fields = .ok stored) :
    stored.map Prod.fst = fields.map Prod.fst := by
  induction fields generalizing stored with
  | nil =>
    cases h
    rfl
  | cons entry fields ih =>
    obtain ⟨field,value⟩ := entry
    rw [bindAll] at h
    split at h
    · cases h
    · split at h
      · cases h
      · rename_i hrest
        cases h
        rw [List.map_cons, List.map_cons, ih hrest]

theorem lookup_bindAll {fields stored : List (String × Option Value)} {field : String} {value : Option Value}
    (h : bindAll bind fields = .ok stored) (hvalue : fields.lookup field = some value) :
    ∃ bound, bind field value = .ok bound ∧ stored.lookup field = some bound := by
  induction fields generalizing stored with
  | nil => cases hvalue
  | cons entry fields ih =>
    obtain ⟨name,supplied⟩ := entry
    rw [bindAll] at h
    split at h
    · cases h
    · rename_i bound hbound
      split at h
      · cases h
      · rename_i rows hrest
        cases h
        rw [List.lookup_cons] at hvalue ⊢
        by_cases hname : field = name
        · subst hname
          rw [beq_self_eq_true] at hvalue ⊢
          cases hvalue
          exact ⟨bound,hbound,rfl⟩
        · rw [beq_false_of_ne hname] at hvalue ⊢
          exact ih hrest hvalue

variable {Payload : Type} [DecidableEq Value]

theorem fieldValue_stored {fields stored : List (String × Option Value)} (hnodup : (fields.map Prod.fst).Nodup)
    (h : bindAll bind fields = .ok stored) {tables tables' : Tables Value Payload}
    (htables : tables'.fields = stored.foldl (fun fields row => put row.1 row.2 fields) tables.fields) (field : String) :
    (tables'.fieldValue field = tables.fieldValue field ∧ fieldChange field (.fieldsChanged (diffsOf tables fields)) = []) ∨
    ∃ supplied, bind field supplied = .ok (tables'.fieldValue field) ∧
      fieldChange field (.fieldsChanged (diffsOf tables fields)) =
        if tables.fieldValue field = supplied then [] else [(tables.fieldValue field,supplied)] := by
  have hvalue : tables'.fieldValue field = ((stored.lookup field).or (tables.fields.lookup field)).getD none := by
    rw [Tables.fieldValue, htables, lookup_putAll, lookup_reverse (keys_bindAll h ▸ hnodup)]
  cases hlookup : fields.lookup field with
  | none =>
    have hfree : stored.lookup field = none := by
      apply lookup_eq_none_of_notMem
      rw [keys_bindAll h]
      exact notMem_of_lookup hlookup
    rw [hfree] at hvalue
    exact .inl ⟨hvalue,fieldChange_of_not_supplied tables (notMem_of_lookup hlookup)⟩
  | some supplied =>
    obtain ⟨bound,hbound,hstored⟩ := lookup_bindAll h hlookup
    rw [hstored] at hvalue
    have hvalue : tables'.fieldValue field = bound := hvalue
    exact .inr ⟨supplied,hvalue ▸ hbound,fieldChange_of_supplied hnodup hlookup⟩

end Bound

section Stages
variable {Value Payload : Type} {env : Environment} {bind : String → Option Value → Except String (Option Value)}

theorem exact_written {A : Type} [DecidableEq A] (old new : A) : Exact old new (if old = new then [] else [(old,new)]) :=
  ⟨fun h => if_pos h,fun h => if_neg h⟩

theorem real_written {A : Type} [DecidableEq A] (old new : A) :
    ∀ change ∈ (if old = new then [] else [(old,new)]), change.1 ≠ change.2 := by
  intro change hchange
  split at hchange
  · cases hchange
  · rename_i hne
    obtain rfl := List.mem_singleton.mp hchange
    exact hne

theorem real_none {A : Type} {changes : List (A × A)} (h : changes = []) : ∀ change ∈ changes, change.1 ≠ change.2 :=
  h ▸ fun _ hchange => absurd hchange List.not_mem_nil

theorem linked_none {A B : Type} {stands : B → A → Prop} {a : A} {changes : List (A × B)} (h : changes = []) :
    Linked stands a changes a :=
  h ▸ linked_nil.mpr rfl

theorem links_enums (bind : String → Option Value → Except String (Option Value)) (env : Environment)
    (tables : Tables Value Payload) (status : CaseStatus) (priority : CasePriority) (severity : CaseSeverity) :
    Links bind tables
      { tables with
        row := { tables.row with status := status, priority := priority, severity := severity }
        events := tables.events ++ enumEvents env tables.row status priority severity }
      (enumEvents env tables.row status priority severity) := by
  have hstage := stage_enumEvents Value env tables.row status priority severity
  exact {
    appended := rfl
    status := by
      rw [status_enumEvents]
      exact linked_written ..
    priority := by
      rw [priority_enumEvents]
      exact linked_written ..
    severity := by
      rw [severity_enumEvents]
      exact linked_written ..
    assignee := linked_none (changesOf_of_other picksOf_assignee hstage EventStage.noConfusion)
    summary := linked_none (changesOf_of_other picksOf_summary hstage EventStage.noConfusion)
    fields := fun field => linked_none (changesOf_of_other (picksOf_field field) hstage EventStage.noConfusion)
    statusReal := by
      rw [status_enumEvents]
      exact real_written tables.row.status status
    priorityReal := by
      rw [priority_enumEvents]
      exact real_written tables.row.priority priority
    severityReal := by
      rw [severity_enumEvents]
      exact real_written tables.row.severity severity
    fieldsReal := fun field => real_none (changesOf_of_other (picksOf_field field) hstage EventStage.noConfusion) }

variable [DecidableEq Value]

/-- When the values of the fields are stable, so are those that are written, and their diffs are of real changes. -/
theorem links_fields (env : Environment) {tables tables' : Tables Value Payload} {fields stored : List (String × Option Value)}
    (hnodup : (fields.map Prod.fst).Nodup) (hbound : bindAll bind fields = .ok stored)
    (hstable : ∀ field, Stable bind field (tables.fieldValue field)) (htables : tables' =
      { tables with
        fields := stored.foldl (fun fields row => put row.1 row.2 fields) tables.fields
        events := tables.events ++ fieldEvents env tables fields }) :
    Links bind tables tables' (fieldEvents env tables fields) := by
  have hvalues : ∀ field, (tables'.fieldValue field = tables.fieldValue field ∧ _) ∨ _ :=
    fieldValue_stored hnodup hbound (congrArg Tables.fields htables)
  have hstage := stage_fieldEvents env tables fields
  have hstatus := changesOf_of_other picksOf_status hstage EventStage.noConfusion
  have hpriority := changesOf_of_other picksOf_priority hstage EventStage.noConfusion
  have hseverity := changesOf_of_other picksOf_severity hstage EventStage.noConfusion
  subst htables
  exact {
    appended := rfl
    status := linked_none hstatus
    priority := linked_none hpriority
    severity := linked_none hseverity
    assignee := linked_none (changesOf_of_other picksOf_assignee hstage EventStage.noConfusion)
    summary := linked_none (changesOf_of_other picksOf_summary hstage EventStage.noConfusion)
    fields := by
      intro field
      rw [field_fieldEvents]
      rcases hvalues field with ⟨hsame,hchanges⟩ | ⟨supplied,hsupplied,hchanges⟩
      · rw [hchanges]
        exact linked_nil.mpr hsame.symm
      · rw [hchanges]
        split
        · rename_i hsame
          exact linked_nil.mpr (hstable field _ (hsame ▸ hsupplied)).symm
        · exact linked_one hsupplied
    statusReal := real_none hstatus
    priorityReal := real_none hpriority
    severityReal := real_none hseverity
    fieldsReal := by
      intro field
      rw [field_fieldEvents]
      rcases hvalues field with ⟨-,hchanges⟩ | ⟨supplied,-,hchanges⟩
      · exact real_none hchanges
      · rw [hchanges]
        exact real_written (tables.fieldValue field) supplied }

theorem stable_stored {tables tables' : Tables Value Payload} {fields stored : List (String × Option Value)}
    (hnodup : (fields.map Prod.fst).Nodup) (hbound : bindAll bind fields = .ok stored)
    (hbind : ∀ field supplied stored, bind field supplied = .ok stored → Stable bind field stored)
    (hstable : ∀ field, Stable bind field (tables.fieldValue field))
    (htables : tables'.fields = stored.foldl (fun fields row => put row.1 row.2 fields) tables.fields) (field : String) :
    Stable bind field (tables'.fieldValue field) := by
  rcases fieldValue_stored hnodup hbound htables field with ⟨hsame,-⟩ | ⟨supplied,hsupplied,-⟩
  · rw [hsame]
    exact hstable field
  · exact hbind field supplied _ hsupplied

variable [DecidableEq Payload]

omit [DecidableEq Value] in
theorem links_attributes (bind : String → Option Value → Except String (Option Value)) (env : Environment)
    {params : CaseUpdate Value Payload} {tables : Tables Value Payload} {row : Attributes Payload}
    (h : setAttributes params tables.row = some row) :
    Links bind tables { tables with row := row, events := tables.events ++ attributeEvents env params tables.row row }
      (attributeEvents env params tables.row row) := by
  obtain ⟨hstatus,hpriority,hseverity,hsummary,hassignee⟩ := setAttributes_eq_some h
  have hstage := stage_attributeEvents Value env params tables.row row
  have hset : ∀ {A : Type} (supplied : Bool) (old new : A), (supplied = false → new = old) →
      Linked Eq old (if supplied then [(old,new)] else []) new := by
    intro A supplied old new hsame
    cases supplied with
    | false => exact linked_nil.mpr (hsame rfl).symm
    | true => exact linked_one rfl
  have hstatuses := changesOf_of_other picksOf_status hstage EventStage.noConfusion
  have hpriorities := changesOf_of_other picksOf_priority hstage EventStage.noConfusion
  have hseverities := changesOf_of_other picksOf_severity hstage EventStage.noConfusion
  have hfields := fun field => changesOf_of_other (picksOf_field field) hstage EventStage.noConfusion
  exact {
    appended := rfl
    status := hstatus ▸ linked_none hstatuses
    priority := hpriority ▸ linked_none hpriorities
    severity := hseverity ▸ linked_none hseverities
    assignee := by
      rw [assignee_attributeEvents]
      exact hset _ _ _ fun hnone => hassignee (Option.isNone_iff_eq_none.mp (Option.isSome_eq_false_iff.mp hnone))
    summary := by
      rw [summary_attributeEvents]
      exact hset _ _ _ fun hnone => hsummary (Option.isNone_iff_eq_none.mp (Option.isSome_eq_false_iff.mp hnone))
    fields := fun field => linked_none (hfields field)
    statusReal := real_none hstatuses
    priorityReal := real_none hpriorities
    severityReal := real_none hseverities
    fieldsReal := fun field => real_none (hfields field) }

end Stages

section Calls
variable {Value Payload : Type} [DecidableEq Value] [DecidableEq Payload]
variable {bind : String → Option Value → Except String (Option Value)}
variable (bind) in
theorem updateCase_cases (session : Session Value Payload) (params : CaseUpdate Value Payload) (env : Environment) :
    updateCase bind session params env = (.error .database,session.rollback) ∨
    (∃ message tables, ((changeStatus env params.status.join session.working).bind
        (changePriority env params.priority.join)).bind (changeSeverity env params.severity.join) = some tables ∧
      updateCase bind session params env = (.error (.field message),{ session with working := tables })) ∨
    ∃ first second third, ((changeStatus env params.status.join session.working).bind
        (changePriority env params.priority.join)).bind (changeSeverity env params.severity.join) = some first ∧
      changeFields bind env (suppliedFields params.fields) first = .ok second ∧ finishUpdate env params second = some third ∧
      updateCase bind session params env = (.ok (),⟨third,third⟩) := by
  unfold updateCase
  split
  · exact .inl rfl
  · rename_i first hfirst
    split
    · exact .inl rfl
    · exact .inr (.inl ⟨_,_,hfirst,rfl⟩)
    · rename_i second hsecond
      split
      · exact .inl rfl
      · rename_i third hthird
        exact .inr (.inr ⟨first,second,third,hfirst,hsecond,hthird,rfl⟩)

omit [DecidableEq Value] [DecidableEq Payload] in
theorem nodup_suppliedFields (fields : Option (Option (Fields Value))) :
    ((suppliedFields fields).map Prod.fst).Nodup := by
  cases fields with
  | none => exact List.nodup_nil
  | some fields =>
    cases fields with
    | none => exact List.nodup_nil
    | some fields => exact fields.2

/-- What the stages of a call record together. -/
theorem recorded_stages {params : CaseUpdate Value Payload} {env : Environment} {before third : Tables Value Payload}
    {status : CaseStatus} {priority : CasePriority} {severity : CaseSeverity} {row : Attributes Payload}
    {fields stored : List (String × Option Value)} {first second : Tables Value Payload}
    (hstable : ∀ field, Stable bind field (before.fieldValue field))
    (hfirst : first =
      { before with
        row := { before.row with status := status, priority := priority, severity := severity }
        events := before.events ++ enumEvents env before.row status priority severity })
    (hnodup : (fields.map Prod.fst).Nodup) (hbound : bindAll bind fields = .ok stored)
    (hsecond : second =
      { first with
        fields := stored.foldl (fun fields row => put row.1 row.2 fields) first.fields
        events := first.events ++ fieldEvents env first fields })
    (hrow : setAttributes params second.row = some row)
    (hthird : third = { second with row := row, events := second.events ++ attributeEvents env params second.row row }) :
    Recorded bind before third (enumEvents env before.row status priority severity ++ fieldEvents env first fields ++
      attributeEvents env params second.row row) := by
  have hvalues := fieldValue_stored hnodup hbound (congrArg Tables.fields hsecond)
  obtain ⟨hstatus,hpriority,hseverity,hsummary,hassignee⟩ := setAttributes_eq_some hrow
  have henums := stage_enumEvents Value env before.row status priority severity
  have hfields := stage_fieldEvents env first fields
  have hattributes := stage_attributeEvents Value env params second.row row
  -- status, priority and severity change in the first stage only, and the other attributes in the last
  have henum : ∀ {A : Type} {pick : EventData Value → List A}, PicksOf .enums pick →
      changesOf pick (enumEvents env before.row status priority severity ++ fieldEvents env first fields ++
        attributeEvents env params second.row row) = changesOf pick (enumEvents env before.row status priority severity) := by
    intro A pick hpick
    rw [changesOf_append, changesOf_append, changesOf_of_other hpick hfields EventStage.noConfusion,
      changesOf_of_other hpick hattributes EventStage.noConfusion, List.append_nil, List.append_nil]
  have hattribute : ∀ {A : Type} {pick : EventData Value → List A}, PicksOf .attributes pick →
      changesOf pick (enumEvents env before.row status priority severity ++ fieldEvents env first fields ++
        attributeEvents env params second.row row) = changesOf pick (attributeEvents env params second.row row) := by
    intro A pick hpick
    rw [changesOf_append, changesOf_append, changesOf_of_other hpick henums EventStage.noConfusion,
      changesOf_of_other hpick hfields EventStage.noConfusion]
    rfl
  subst hthird hsecond hfirst
  exact {
    appended := by simp only [List.append_assoc]
    status := by
      rw [henum picksOf_status, status_enumEvents]
      exact hstatus ▸ exact_written before.row.status status
    priority := by
      rw [henum picksOf_priority, priority_enumEvents]
      exact hpriority ▸ exact_written before.row.priority priority
    severity := by
      rw [henum picksOf_severity, severity_enumEvents]
      exact hseverity ▸ exact_written before.row.severity severity
    assignee := by
      intro hne
      rw [hattribute picksOf_assignee, assignee_attributeEvents]
      exact if_pos (Option.isSome_iff_ne_none.mpr fun hnone => hne (hassignee hnone).symm)
    summary := by
      intro hne
      rw [hattribute picksOf_summary, summary_attributeEvents]
      exact if_pos (Option.isSome_iff_ne_none.mpr fun hnone => hne (hsummary hnone).symm)
    payload := by
      rw [hattribute picksOf_payload, payload_attributeEvents]
      exact ⟨fun h => if_pos h,fun h => if_neg h⟩
    fields := by
      intro field hne
      have hpick : PicksOf .fields (fieldChange field : EventData Value → _) := picksOf_field field
      rw [changesOf_append, changesOf_append, field_fieldEvents, changesOf_of_other hpick henums EventStage.noConfusion,
        changesOf_of_other hpick hattributes EventStage.noConfusion, List.append_nil, List.nil_append]
      rcases hvalues field with ⟨hsame,-⟩ | ⟨supplied,hsupplied,hchanges⟩
      · exact absurd hsame.symm hne
      · refine ⟨supplied,?_,hsupplied⟩
        rw [hchanges]
        apply if_neg
        intro hsame
        exact hne (hstable field _ (hsame ▸ hsupplied)).symm }

theorem links_stages {params : CaseUpdate Value Payload} {env : Environment} {before first second third : Tables Value Payload}
    (hbind : ∀ field supplied stored, bind field supplied = .ok stored → Stable bind field stored)
    (hstable : ∀ field, Stable bind field (before.fieldValue field))
    (hfirst : ((changeStatus env params.status.join before).bind (changePriority env params.priority.join)).bind
      (changeSeverity env params.severity.join) = some first)
    (hsecond : changeFields bind env (suppliedFields params.fields) first = .ok second)
    (hthird : finishUpdate env params second = some third) :
    ∃ events, Links bind before third events ∧ Recorded bind before third events ∧
      ∀ field, Stable bind field (third.fieldValue field) := by
  obtain ⟨status,priority,severity,hfirst⟩ := changeEnums_eq_some hfirst
  obtain ⟨stored,hbound,hsecond⟩ := changeFields_eq_ok hsecond
  obtain ⟨row,hrow,hthird⟩ := finishUpdate_eq_some hthird
  have hnodup := nodup_suppliedFields params.fields
  have hrecorded := recorded_stages hstable hfirst hnodup hbound hsecond hrow hthird
  have henums := links_enums bind env before status priority severity
  rw [← hfirst] at henums
  -- each stage starts where the one before it ends
  have hstable' : ∀ field, Stable bind field (first.fieldValue field) := by
    subst hfirst
    exact hstable
  have hfields := links_fields env hnodup hbound hstable' hsecond
  have hattributes := links_attributes bind env hrow
  rw [← hthird] at hattributes
  refine ⟨_,(henums.trans hfields).trans hattributes,hrecorded,?_⟩
  have hstable'' := stable_stored hnodup hbound hbind hstable' (congrArg Tables.fields hsecond)
  subst hthird
  exact hstable''

end Calls
end Cases
end Allama

import Mathlib.Data.List.MinMax
import Allama.CompactGroups

/-! The merged entries of the listing, and when each of them tells what the events of its task tell. -/
namespace Allama
open RecordFields KeyedStore

namespace CompactEvents
variable {Input Failure : Type}

def taskWriter : Writer Task (Compact Input Failure) (Compact Input Failure) where
  key event := some event.task
  make := asGroup
  merge := mergeInto

def merged (first : Compact Input Failure) (rest : List (Compact Input Failure)) : Compact Input Failure :=
  rest.foldl (fun group_event event => mergeInto event group_event) (asGroup first)

section Merging

theorem nextGroup_eq (groups : List (Task × Compact Input Failure)) (event : Compact Input Failure) :
    nextGroup groups event = put event.task (taskWriter.over event (groups.lookup event.task)) groups := by
  unfold nextGroup
  cases groups.lookup event.task <;> rfl

theorem lookup_nextGroups (events : List (Compact Input Failure)) (groups : List (Task × Compact Input Failure)) (t : Task) :
    (events.foldl nextGroup groups).lookup t = taskWriter.settled (groups.lookup t) (events.filter fun event => event.task = t) := by
  induction events generalizing groups with
  | nil => rfl
  | cons event events ih =>
    rw [List.foldl_cons, ih, nextGroup_eq, lookup_put]
    by_cases ht : t = event.task
    · subst ht
      rw [List.filter_cons_of_pos (by simp), if_pos (beq_self_eq_true _)]
      rfl
    · rw [List.filter_cons_of_neg (by simpa using Ne.symm ht), if_neg (by simpa using ht)]

theorem lookup_mergeEvents_cons {events : List (Compact Input Failure)} {t : Task} {first : Compact Input Failure}
    {rest : List (Compact Input Failure)} (h : (events.filter fun event => event.task = t) = first :: rest) :
    (mergeEvents events).lookup t = some (merged first rest) := by
  rw [mergeEvents, lookup_nextGroups, h, List.lookup_nil, settled_none_cons, settled_some]
  rfl

theorem lookup_mergeEvents_nil {events : List (Compact Input Failure)} {t : Task}
    (h : (events.filter fun event => event.task = t) = []) : (mergeEvents events).lookup t = none := by
  rw [mergeEvents, lookup_nextGroups, h]
  rfl

theorem keys_mergeEvents (events : List (Compact Input Failure)) : ((mergeEvents events).map Prod.fst).Nodup := by
  have hkeys : ∀ groups : List (Task × Compact Input Failure), (groups.map Prod.fst).Nodup →
      ((events.foldl nextGroup groups).map Prod.fst).Nodup := by
    induction events with
    | nil => exact fun _ h => h
    | cons event events ih =>
      intro groups h
      rw [List.foldl_cons, nextGroup_eq]
      exact ih _ (keys_put _ _ h)
  exact hkeys [] List.nodup_nil

theorem merged_keeps {X : Type} (f : Compact Input Failure → X)
    (hf : ∀ (c : Compact Input Failure) count start schedule close result,
      f { c with
          child_wf_count := count, start_time := start, schedule_time := schedule, close_time := close
          action_result := result } = f c)
    (first : Compact Input Failure) (rest : List (Compact Input Failure)) : f (merged first rest) = f first := by
  have hgroup : f (asGroup first) = f first := by
    unfold asGroup
    split
    · exact hf first first.child_wf_count first.start_time first.schedule_time first.close_time _
    · rfl
  exact (foldl_keeps (fun group_event event => mergeInto event group_event) f (fun c a => hf c ..) rest _).trans hgroup

theorem merged_task (first : Compact Input Failure) (rest : List (Compact Input Failure)) :
    (merged first rest).task = first.task := merged_keeps Compact.task (fun _ _ _ _ _ _ => rfl) first rest

theorem asGroup_start (c : Compact Input Failure) : (asGroup c).start_time = c.start_time := by
  unfold asGroup
  split <;> rfl

theorem asGroup_close (c : Compact Input Failure) : (asGroup c).close_time = c.close_time := by
  unfold asGroup
  split <;> rfl

theorem foldl_bothTimes_none (f : ℕ → ℕ → ℕ) (times : List (Option ℕ)) : times.foldl (bothTimes f) none = none := by
  induction times with
  | nil => rfl
  | cons time times ih => exact ih

theorem foldl_bothTimes_some (f : ℕ → ℕ → ℕ) (a : ℕ) (times : List (Option ℕ)) :
    times.foldl (bothTimes f) (some a) = some ((times.filterMap id).foldl f a) := by
  induction times generalizing a with
  | nil => rfl
  | cons time times ih =>
    cases time with
    | none => exact ih a
    | some b => exact ih (f a b)

section
variable (first : Compact Input Failure) (rest : List (Compact Input Failure))
include first rest

theorem merged_start :
    (merged first rest).start_time = (rest.map Compact.start_time).foldl (bothTimes min) first.start_time := by
  rw [merged, ← asGroup_start first]
  generalize asGroup first = c
  induction rest generalizing c with
  | nil => rfl
  | cons event rest ih => exact ih (mergeInto event c)

theorem merged_close :
    (merged first rest).close_time = (rest.map Compact.close_time).foldl (bothTimes max) first.close_time := by
  rw [merged, ← asGroup_close first]
  generalize asGroup first = c
  induction rest generalizing c with
  | nil => rfl
  | cons event rest ih => exact ih (mergeInto event c)

theorem merged_result :
    (merged first rest).action_result = (rest.map Compact.action_result).foldl appendResult (asGroup first).action_result := by
  rw [merged]
  generalize asGroup first = c
  induction rest generalizing c with
  | nil => rfl
  | cons event rest ih => exact ih (mergeInto event c)

end

theorem foldl_appendResult_cons (x : Value) (xs results : List Value) :
    results.foldl appendResult (.list (x :: xs)) = .list (x :: xs ++ results) := by
  induction results generalizing xs with
  | nil => rw [List.append_nil]; rfl
  | cons result results ih =>
    rw [List.foldl_cons]
    exact (ih (xs ++ [result])).trans (by simp)

theorem foldl_appendResult_other {v : Value} (h : ∀ x xs, v ≠ .list (x :: xs)) (results : List Value) :
    results.foldl appendResult v = v := by
  induction results with
  | nil => rfl
  | cons result results ih =>
    have hsame : appendResult v result = v := by
      unfold appendResult
      split
      · exact absurd rfl (h _ _)
      · rfl
    rw [List.foldl_cons, hsame, ih]

theorem min?_iff (first : Option ℕ) (rest : List (Option ℕ)) :
    rest.foldl (bothTimes min) first = ((first :: rest).filterMap id).min? ↔ (first = none → ∀ t ∈ rest, t = none) := by
  cases first with
  | none =>
    rw [foldl_bothTimes_none, eq_comm, List.min?_eq_none_iff, List.filterMap_eq_nil_iff]
    simp
  | some a =>
    have hlist : (some a :: rest).filterMap id = a :: rest.filterMap id := rfl
    rw [foldl_bothTimes_some, hlist, List.min?_cons']
    simp

theorem max?_iff (first : Option ℕ) (rest : List (Option ℕ)) :
    rest.foldl (bothTimes max) first = ((first :: rest).filterMap id).max? ↔ (first = none → ∀ t ∈ rest, t = none) := by
  cases first with
  | none =>
    rw [foldl_bothTimes_none, eq_comm, List.max?_eq_none_iff, List.filterMap_eq_nil_iff]
    simp
  | some a =>
    have hlist : (some a :: rest).filterMap id = a :: rest.filterMap id := rfl
    rw [foldl_bothTimes_some, hlist, List.max?_cons']
    simp

end Merging

section Entries
variable {events : List (HistoryEvent Input Failure)} {pending : List PendingActivity}

/-- The entry of a task. -/
def entryOf (events : List (HistoryEvent Input Failure)) (pending : List PendingActivity) (first : ℕ × Compact Input Failure)
    (rest : List (ℕ × Compact Input Failure)) : Compact Input Failure :=
  merged (member events pending first) (rest.map (member events pending))

theorem filter_members (t : Task) : (((sources events).map (member events pending)).filter fun event => event.task = t) =
    (members events t).map (member events pending) := by
  rw [List.filter_map, members]
  congr 1
  apply List.filter_congr
  intro s _
  simp only [Function.comp_apply, member_task]

theorem mem_list_iff (h : WellFormed events pending) (entry : Compact Input Failure) :
    entry ∈ listWorkflowExecutionEventsCompact events pending ↔
      ∃ t first rest, members events t = first :: rest ∧ entry = entryOf events pending first rest := by
  rw [list_eq h]
  constructor
  · intro hentry
    obtain ⟨⟨t,c⟩,hmem,rfl⟩ := List.mem_map.mp hentry
    have hlookup := lookup_of_mem (keys_mergeEvents _) hmem
    cases hmembers : members events t with
    | nil =>
      rw [lookup_mergeEvents_nil (by rw [filter_members, hmembers]; rfl)] at hlookup
      cases hlookup
    | cons first rest =>
      rw [lookup_mergeEvents_cons (by rw [filter_members, hmembers]; rfl)] at hlookup
      exact ⟨t,first,rest,hmembers,(Option.some.inj hlookup).symm⟩
  · rintro ⟨t,first,rest,hmembers,rfl⟩
    have hlookup : (mergeEvents ((sources events).map (member events pending))).lookup t = some (entryOf events pending first rest) :=
      lookup_mergeEvents_cons (by rw [filter_members, hmembers]; rfl)
    exact List.mem_map.mpr ⟨_,mem_of_lookup hlookup,rfl⟩

theorem task_of_members {t : Task} {first : ℕ × Compact Input Failure} {rest : List (ℕ × Compact Input Failure)}
    (h : members events t = first :: rest) : first ∈ sources events ∧ (entryOf events pending first rest).task = t := by
  have hfirst : first ∈ members events t := h ▸ List.mem_cons_self
  obtain ⟨hmem,htask⟩ := List.mem_filter.mp hfirst
  refine ⟨hmem,?_⟩
  rw [entryOf, merged_task, member_task]
  exact of_decide_eq_true htask

theorem tasks_list (h : WellFormed events pending) :
    ((listWorkflowExecutionEventsCompact events pending).map Compact.task).Nodup ∧
      ∀ t, t ∈ (listWorkflowExecutionEventsCompact events pending).map Compact.task ↔
        t ∈ (sources events).map fun s => s.2.task := by
  constructor
  · rw [list_eq h, List.map_map]
    have hsame : (mergeEvents ((sources events).map (member events pending))).map (Compact.task ∘ Prod.snd) =
        (mergeEvents ((sources events).map (member events pending))).map Prod.fst := by
      apply List.map_congr_left
      rintro ⟨t,c⟩ hmem
      have hlookup := lookup_of_mem (keys_mergeEvents _) hmem
      cases hmembers : members events t with
      | nil =>
        rw [lookup_mergeEvents_nil (by rw [filter_members, hmembers]; rfl)] at hlookup
        cases hlookup
      | cons first rest =>
        rw [lookup_mergeEvents_cons (by rw [filter_members, hmembers]; rfl)] at hlookup
        cases hlookup
        exact (task_of_members hmembers).2
    rw [hsame]
    exact keys_mergeEvents _
  · intro t
    constructor
    · intro ht
      obtain ⟨entry,hentry,rfl⟩ := List.mem_map.mp ht
      obtain ⟨t,first,rest,hmembers,rfl⟩ := (mem_list_iff h entry).mp hentry
      have hfirst : first ∈ members events t := hmembers ▸ List.mem_cons_self
      refine List.mem_map.mpr ⟨first,(List.mem_filter.mp hfirst).1,?_⟩
      rw [entryOf, merged_task, member_task]
    · intro ht
      obtain ⟨s,hs,rfl⟩ := List.mem_map.mp ht
      have hmem : s ∈ members events s.2.task := List.mem_filter.mpr ⟨hs,decide_eq_true rfl⟩
      cases hmembers : members events s.2.task with
      | nil =>
        rw [hmembers] at hmem
        cases hmem
      | cons first rest =>
        exact List.mem_map.mpr ⟨_,(mem_list_iff h _).mpr ⟨_,first,rest,hmembers,rfl⟩,(task_of_members hmembers).2⟩

end Entries

section Groups
variable {events : List (HistoryEvent Input Failure)} {pending : List PendingActivity} {first : ℕ × Compact Input Failure}
  {rest : List (ℕ × Compact Input Failure)}

theorem entryOf_failed_iff (h : WellFormed events pending) (hfirst : first ∈ sources events) :
    (entryOf events pending first rest).status = .failed ∧ (entryOf events pending first rest).action_error.isSome ↔
      Fails events first ∧ first.2.status ≠ .detached := by
  have hstatus : (entryOf events pending first rest).status = (member events pending first).status :=
    merged_keeps Compact.status (fun _ _ _ _ _ _ => rfl) _ _
  have herror : (entryOf events pending first rest).action_error = (member events pending first).action_error :=
    merged_keeps Compact.action_error (fun _ _ _ _ _ _ => rfl) _ _
  rw [hstatus, herror]
  exact member_failed h hfirst

theorem entryOf_start_iff : (entryOf events pending first rest).start_time =
      ((first :: rest).filterMap (startOf events pending)).min? ↔
    (startOf events pending first = none → ∀ s ∈ rest, startOf events pending s = none) := by
  have htimes : (first :: rest).filterMap (startOf events pending) =
      ((startOf events pending first :: rest.map (startOf events pending)).filterMap id) := by
    rw [← List.map_cons, List.filterMap_map]
    rfl
  have hrest : (rest.map (member events pending)).map Compact.start_time = rest.map (startOf events pending) := by
    rw [List.map_map]
    exact List.map_congr_left fun _ _ => member_start
  rw [entryOf, merged_start, hrest, member_start, htimes, min?_iff, List.forall_mem_map]

theorem entryOf_close_iff : (entryOf events pending first rest).close_time =
      ((first :: rest).filterMap (closeOf events)).max? ↔
    (closeOf events first = none → ∀ s ∈ rest, closeOf events s = none) := by
  have htimes : (first :: rest).filterMap (closeOf events) =
      ((closeOf events first :: rest.map (closeOf events)).filterMap id) := by
    rw [← List.map_cons, List.filterMap_map]
    rfl
  have hrest : (rest.map (member events pending)).map Compact.close_time = rest.map (closeOf events) := by
    rw [List.map_map]
    exact List.map_congr_left fun _ _ => member_close
  rw [entryOf, merged_close, hrest, member_close, htimes, max?_iff, List.forall_mem_map]

theorem entryOf_result : (entryOf events pending first rest).action_result =
    (rest.map (resultOf events)).foldl appendResult
      (if first.2.loop_index.isSome then .list [resultOf events first] else resultOf events first) := by
  have hrest : (rest.map (member events pending)).map Compact.action_result = rest.map (resultOf events) := by
    rw [List.map_map]
    exact List.map_congr_left fun _ _ => member_result
  rw [entryOf, merged_result, hrest]
  congr 1
  rw [asGroup]
  cases hloop : first.2.loop_index with
  | none =>
    rw [member_loop_index, hloop]
    exact member_result
  | some k =>
    rw [member_loop_index, hloop]
    exact congrArg (fun result => Value.list [result]) member_result

/-- The results of a looped child are at their loop indices. -/
def ResultsAt (events : List (HistoryEvent Input Failure)) (ms : List (ℕ × Compact Input Failure)) (result : Value) : Prop :=
  (∃ s ∈ ms, s.2.loop_index.isSome) → ∃ results, result = .list results ∧
    results.length = ms.countP (fun s => s.2.loop_index.isSome) ∧
    ∀ s ∈ ms, ∀ k, s.2.loop_index = some k → results[k]? = some (resultOf events s)

theorem entryOf_results_iff : ResultsAt events (first :: rest) (entryOf events pending first rest).action_result ↔
    ((∃ s ∈ first :: rest, s.2.loop_index.isSome) → (∀ s ∈ first :: rest, s.2.loop_index.isSome) ∧
      ∀ s ∈ first :: rest, ∀ k, s.2.loop_index = some k →
        (first :: rest)[k]?.map (resultOf events) = some (resultOf events s)) := by
  apply imp_congr_right
  intro hlooped
  rw [entryOf_result]
  cases hfirst : first.2.loop_index.isSome with
  | true =>
    -- the list has the results of all members, in the order in which they were scheduled
    have hlist : (rest.map (resultOf events)).foldl appendResult (.list [resultOf events first]) =
        .list ((first :: rest).map (resultOf events)) := foldl_appendResult_cons _ [] _
    rw [if_pos rfl, hlist]
    constructor
    · rintro ⟨results,hresults,hlength,hat⟩
      cases hresults
      rw [List.length_map, eq_comm, List.countP_eq_length] at hlength
      refine ⟨hlength,?_⟩
      intro s hs k hk
      rw [← List.getElem?_map]
      exact hat s hs k hk
    · rintro ⟨hall,hat⟩
      refine ⟨_,rfl,?_,?_⟩
      · rw [List.length_map, eq_comm, List.countP_eq_length]
        exact hall
      · intro s hs k hk
        rw [List.getElem?_map]
        exact hat s hs k hk
  | false =>
    rw [if_neg Bool.false_ne_true]
    constructor
    · rintro ⟨results,hresults,hlength,-⟩
      -- the list is too long, or empty, or none at all
      exfalso
      have hcount : (first :: rest).countP (fun s => s.2.loop_index.isSome) ≤ rest.length := by
        rw [List.countP_cons_of_neg (by rw [hfirst]; decide)]
        exact List.countP_le_length
      have hpos : 0 < (first :: rest).countP (fun s => s.2.loop_index.isSome) := List.countP_pos_iff.mpr hlooped
      by_cases hlist : ∃ x xs, resultOf events first = .list (x :: xs)
      · obtain ⟨x,xs,hx⟩ := hlist
        rw [hx, foldl_appendResult_cons] at hresults
        have hlong := congrArg List.length (Value.list.inj hresults)
        simp only [List.length_append, List.length_cons, List.length_map] at hlong
        omega
      · rw [foldl_appendResult_other fun x xs heq => hlist ⟨x,xs,heq⟩] at hresults
        cases results with
        | nil =>
          rw [← hlength] at hpos
          exact Nat.lt_irrefl 0 hpos
        | cons x xs => exact hlist ⟨x,xs,hresults⟩
    · rintro ⟨hall,-⟩
      have hsome := hall first List.mem_cons_self
      rw [hfirst] at hsome
      cases hsome

end Groups

/-- The listing tells of every task what its events tell, if and only if the first member of each task stands for it. -/
theorem tells_iff {events : List (HistoryEvent Input Failure)} {pending : List PendingActivity} (h : WellFormed events pending) :
    Tells events pending (listWorkflowExecutionEventsCompact events pending) ↔
      ∀ t first rest, members events t = first :: rest → FirstStands events pending first rest := by
  constructor
  · intro htells t first rest hmembers
    have hentry := (mem_list_iff h _).mpr ⟨t,first,rest,hmembers,rfl⟩
    obtain ⟨hfirst,htask⟩ := task_of_members hmembers
    have hfailed := htells.failed _ hentry
    have hresults := htells.results _ hentry
    have hstart := htells.start _ hentry
    have hclose := htells.close _ hentry
    rw [htask, hmembers] at hfailed hresults hstart hclose
    exact ⟨fun hex => (entryOf_failed_iff h hfirst).mp (hfailed hex),entryOf_results_iff.mp hresults,
      entryOf_start_iff.mp hstart,entryOf_close_iff.mp hclose⟩
  · intro hstands
    have hentry : ∀ entry ∈ listWorkflowExecutionEventsCompact events pending, ∃ first rest, first ∈ sources events ∧
        members events entry.task = first :: rest ∧ entry = entryOf events pending first rest ∧
        FirstStands events pending first rest := by
      intro entry hmem
      obtain ⟨t,first,rest,hmembers,rfl⟩ := (mem_list_iff h entry).mp hmem
      obtain ⟨hfirst,htask⟩ := task_of_members hmembers
      exact ⟨first,rest,hfirst,htask.symm ▸ hmembers,rfl,hstands t first rest hmembers⟩
    refine ⟨(tasks_list h).1,(tasks_list h).2,?_,?_,?_,?_⟩
    · intro entry hmem hex
      obtain ⟨first,rest,hfirst,hmembers,heq,hfs⟩ := hentry entry hmem
      rw [hmembers] at hex
      rw [heq]
      exact (entryOf_failed_iff h hfirst).mpr (hfs.failed hex)
    · intro entry hmem
      obtain ⟨first,rest,-,hmembers,heq,hfs⟩ := hentry entry hmem
      rw [hmembers, heq]
      exact entryOf_results_iff.mpr hfs.results
    · intro entry hmem
      obtain ⟨first,rest,-,hmembers,heq,hfs⟩ := hentry entry hmem
      rw [hmembers, heq]
      exact entryOf_start_iff.mpr hfs.start
    · intro entry hmem
      obtain ⟨first,rest,-,hmembers,heq,hfs⟩ := hentry entry hmem
      rw [hmembers, heq]
      exact entryOf_close_iff.mpr hfs.close

section Samples

def child (loop_index : ℕ) : ChildWorkflow Unit :=
  .dslWorkflow ⟨"enrich",some loop_index,.wait,.root⟩ "wf_child" false ()

/-- Two children of a loop, of which the second one fails. -/
def twoChildren (first : TaskEvent String) : List (HistoryEvent Unit String) :=
  [⟨1,10,.startChildWorkflowExecutionInitiated (child 0)⟩,⟨2,11,.startChildWorkflowExecutionInitiated (child 1)⟩,
    ⟨3,12,.childWorkflowExecution 1 .started⟩,⟨4,13,.childWorkflowExecution 2 .started⟩,
    ⟨5,14,.childWorkflowExecution 1 first⟩,⟨6,15,.childWorkflowExecution 2 (.failed "boom")⟩]

theorem attached_out {events : List (HistoryEvent Unit String)} {id : ℕ} (h : ∀ event ∈ events, getSourceEventId event ≠ some id) :
    attached events id = [] := by
  apply List.filter_eq_nil_iff.mpr
  intro event hevent
  simpa using h event hevent

theorem twoChildren_wellFormed {first : TaskEvent String} (hfirst : first ≠ .started) :
    WellFormed (twoChildren first) [] := by
  refine ⟨by simp [twoChildren],by simp [twoChildren],?_,by simp [twoChildren, activities],?_,?_,?_⟩
  · simp [twoChildren, getSourceEventId]
  · intro id
    by_cases h1 : id = 1
    · subst h1
      refine ⟨[_],[_],rfl,le_rfl,le_rfl,by simp [isStarted, taskEvent],?_⟩
      cases first <;> simp [isStarted, taskEvent] at hfirst ⊢
    by_cases h2 : id = 2
    · subst h2
      exact ⟨[_],[_],rfl,by decide,by decide,by simp [isStarted, taskEvent],by simp [isStarted, taskEvent]⟩
    refine ⟨[],[],?_,by decide,by decide,by decide,by decide⟩
    apply attached_out
    simp [twoChildren, getSourceEventId, Ne.symm h1, Ne.symm h2]
  · exact fun id h => absurd rfl h
  · intro s hs herror
    have hsources : sources (twoChildren first) =
        [(1,fromInitiatedChildWorkflow 1 10 (child 0)),(2,fromInitiatedChildWorkflow 2 11 (child 1))] := rfl
    rw [hsources] at hs
    rcases List.mem_pair.mp hs with rfl | rfl <;> cases herror

/-- If the first child fails as well, the entry of the two says so. -/
theorem tells_first_failure : WellFormed (twoChildren (.failed "bang")) [] ∧
    Tells (twoChildren (.failed "bang")) [] (listWorkflowExecutionEventsCompact (twoChildren (.failed "bang")) []) := by
  have hwf : WellFormed (twoChildren (.failed "bang")) [] := twoChildren_wellFormed nofun
  refine ⟨hwf,(tells_iff hwf).mpr ?_⟩
  intro t first rest hmembers
  have hsources : sources (twoChildren (.failed "bang")) =
      [(1,fromInitiatedChildWorkflow 1 10 (child 0)),(2,fromInitiatedChildWorkflow 2 11 (child 1))] := rfl
  by_cases ht : t = ⟨"enrich",.root⟩
  · subst ht
    rw [members, hsources] at hmembers
    obtain ⟨rfl,hrest⟩ := List.cons.inj hmembers
    obtain rfl : rest = [(2,fromInitiatedChildWorkflow 2 11 (child 1))] := hrest.symm
    refine ⟨?_,?_,?_,?_⟩
    · intro _
      exact ⟨.inr ⟨_,List.mem_of_getElem? (i := 1) rfl,rfl⟩,by decide⟩
    · intro _
      refine ⟨by decide,?_⟩
      intro s hs k hk
      rcases List.mem_pair.mp hs with rfl | rfl <;> obtain rfl := Option.some.inj hk <;> rfl
    · exact fun hnone => absurd hnone (by decide)
    · intro _ s hs
      obtain rfl := List.mem_singleton.mp hs
      rfl
  · have hout : members (twoChildren (.failed "bang")) t = [] := by
      rw [members, hsources]
      apply List.filter_eq_nil_iff.mpr
      intro s hs
      rcases List.mem_pair.mp hs with rfl | rfl <;> exact fun he => ht (of_decide_eq_true he).symm
    rw [hout] at hmembers
    cases hmembers

/-- If the first child completes, the entry of the two is shown as completed, and has no error. -/
theorem later_failure_lost : WellFormed (twoChildren (.completed (.int 1))) [] ∧
    ¬ Tells (twoChildren (.completed (.int 1))) [] (listWorkflowExecutionEventsCompact (twoChildren (.completed (.int 1))) []) := by
  refine ⟨twoChildren_wellFormed nofun,fun h => ?_⟩
  have hentry : ∃ entry, (listWorkflowExecutionEventsCompact (twoChildren (.completed (.int 1))) [])[0]? = some entry ∧
      entry.status = .completed ∧ entry.task = ⟨"enrich",.root⟩ := ⟨_,rfl,rfl,rfl⟩
  obtain ⟨entry,hget,hstatus,htask⟩ := hentry
  have hfailed := (h.failed entry (List.mem_of_getElem? hget) ⟨(2,fromInitiatedChildWorkflow 2 11 (child 1)),?_,?_⟩).1
  · rw [hstatus] at hfailed
    cases hfailed
  · rw [htask]
    exact List.mem_of_getElem? (i := 1) rfl
  · exact .inr ⟨_,List.mem_of_getElem? (i := 1) rfl,rfl⟩

end Samples
end CompactEvents
end Allama

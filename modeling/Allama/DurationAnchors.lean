import Mathlib.Data.List.Nodup
import Allama.Expressions

/-! The events that start and end a duration (`cases/durations/service.py`): filters, timestamps and selection. -/
namespace Allama
namespace CaseDurations

/-- The values in events and filters. `S` are the datetimes of the platform, `N` its numbers, and `A` all else. -/
inductive Value (S N A : Type)
  | none
  | datetime (stamp : S)
  | date (midnight : S)
  | str (s : Text)
  | number (x : N)
  | enum (value : Value S N A)
  | items (vs : List (Value S N A))  -- a list, a tuple or a set
  | dict (entries : List (Text × Value S N A))
  | other (a : A)

/-- What the conversion of a value raises, and the read of a relationship that is not loaded. -/
inductive FieldError
  | TypeError | ValueError | OverflowError | OSError | MissingGreenlet
deriving DecidableEq, Repr

/-- What the code uses of the platform. Datetimes in UTC are counts of microseconds. -/
structure Platform (S N A : Type) where
  fromisoformat : Text → Option S
  fromtimestamp : N → Except FieldError S
  toUtc : S → Except FieldError ℤ
  getattr : Value S N A → Text → Except FieldError (Option (Value S N A))
  eq : Value S N A → Value S N A → Bool

/-- A case event; `column` reads its columns and relationships by their names. -/
structure CaseEvent (S N A : Type) where
  id : ℕ
  case_id : ℕ
  type : Text
  created_at : ℤ
  column : Text → Except FieldError (Option (Value S N A))

inductive CaseDurationAnchorSelection
  | FIRST | LAST
deriving DecidableEq, Repr

structure CaseDurationEventAnchor (S N A : Type) where
  event_type : Text
  timestamp_path : Text
  field_filters : List (Text × Value S N A)
  selection : CaseDurationAnchorSelection

section Fields
variable {S N A : Type} (platform : Platform S N A)

/-- A datetime text with its last `Z` written as an offset. -/
def offsetText (text : Text) : Text :=
  if text.getLast? = some 'Z' ∨ text.getLast? = some 'z' then text.dropLast ++ "+00:00".toList else text

/-- `coerce_to_utc_datetime` of `tables/common.py`. -/
def coerceToUtcDatetime : Value S N A → Except FieldError ℤ
  | .datetime stamp => platform.toUtc stamp
  | .date midnight => platform.toUtc midnight
  | .str s =>
    match platform.fromisoformat (offsetText (strip s)) with
    | some stamp => platform.toUtc stamp
    | none => .error .TypeError
  | .number x => do platform.toUtc (← platform.fromtimestamp x)
  | _ => .error .TypeError

def resolvePart (value : Value S N A) (part : Text) : Except FieldError (Value S N A) :=
  match value with
  | .dict entries => .ok ((entries.lookup part).getD .none)
  | value => do return (← platform.getattr value part).getD .none

def resolveParts : Value S N A → List Text → Except FieldError (Value S N A)
  | value, [] => .ok value
  | value, part :: parts => do
    match ← resolvePart platform value part with
    | .none => return .none
    | next => resolveParts next parts

/-- `_resolve_field`: the first part is a column of the event. -/
def resolveField (event : CaseEvent S N A) (path : Text) : Except FieldError (Value S N A) :=
  match path.splitOn '.' with
  | [] => .ok .none
  | part :: parts => do
    match (← event.column part).getD .none with
    | .none => return .none
    | value => resolveParts platform value parts

mutual

def normalizeFilterValue : Value S N A → Value S N A
  | .enum value => value
  | .items vs => .items (normalizeFilterValues vs)
  | value => value

def normalizeFilterValues : List (Value S N A) → List (Value S N A)
  | [] => []
  | v :: vs => normalizeFilterValue v :: normalizeFilterValues vs

end

/-- The comparison of one filter. -/
def matchesValue (actual expected : Value S N A) : Bool :=
  match normalizeFilterValue expected with
  | .items options =>
    match normalizeFilterValue actual with
    | .none => false
    | .items vs => vs.any fun v => options.any (platform.eq v)
    | v => options.any (platform.eq v)
  | expected => platform.eq (normalizeFilterValue actual) expected

/-- `_matches_filters`: no filter behind the first that does not match is read. -/
def matchesFilters (event : CaseEvent S N A) : List (Text × Value S N A) → Except FieldError Bool
  | [] => .ok true
  | (path,expected) :: filters => do
    if matchesValue platform (← resolveField platform event path) expected then matchesFilters event filters
    else return false

/-- The `try` of `_extract_timestamp`: three kinds of errors mean that there is no timestamp. -/
def timestampOf (value : Value S N A) : Except FieldError (Option ℤ) :=
  match coerceToUtcDatetime platform value with
  | .ok timestamp => .ok (some timestamp)
  | .error .TypeError | .error .ValueError | .error .OverflowError => .ok none
  | .error e => .error e

/-- `_extract_timestamp`; the read of the field is outside the `try`. -/
def extractTimestamp (event : CaseEvent S N A) (anchor : CaseDurationEventAnchor S N A) : Except FieldError (Option ℤ) := do
  timestampOf platform (← resolveField platform event anchor.timestamp_path)

/-- What the loop of `_find_matching_event` makes of one event: its timestamp if it is a candidate. -/
def candidateAt (anchor : CaseDurationEventAnchor S N A) (earliest_after : Option ℤ) (event : CaseEvent S N A) :
    Except FieldError (Option ℤ) :=
  if event.type ≠ anchor.event_type then .ok none
  else do
    if ← matchesFilters platform event anchor.field_filters then
      match ← extractTimestamp platform event anchor with
      | none => return none
      | some timestamp => return if earliest_after.any (timestamp < ·) then none else some timestamp
    else return none

/-- The loop of `_find_matching_event`. -/
def candidates (anchor : CaseDurationEventAnchor S N A) (earliest_after : Option ℤ) :
    List (CaseEvent S N A) → Except FieldError (List (CaseEvent S N A × ℤ))
  | [] => .ok []
  | event :: events => do
    let found ← candidateAt platform anchor earliest_after event
    let rest ← candidates anchor earliest_after events
    match found with
    | some timestamp => return (event,timestamp) :: rest
    | none => return rest

def sortByTimestamp (found : List (CaseEvent S N A × ℤ)) : List (CaseEvent S N A × ℤ) :=
  found.mergeSort fun a b => a.2 ≤ b.2

def select (selection : CaseDurationAnchorSelection) (found : List (CaseEvent S N A × ℤ)) : Option (CaseEvent S N A × ℤ) :=
  match selection with
  | .LAST => found.getLast?
  | .FIRST => found.head?

def findMatchingEvent (events : List (CaseEvent S N A)) (anchor : CaseDurationEventAnchor S N A) (earliest_after : Option ℤ) :
    Except FieldError (Option (CaseEvent S N A × ℤ)) := do
  return select anchor.selection (sortByTimestamp (← candidates platform anchor earliest_after events))

end Fields

section Selection
variable {S N A : Type} (platform : Platform S N A) (anchor : CaseDurationEventAnchor S N A)

/-- An event of the anchor, with its timestamp. -/
structure IsAnchored (event : CaseEvent S N A) (timestamp : ℤ) : Prop where
  type : event.type = anchor.event_type
  filters : matchesFilters platform event anchor.field_filters = .ok true
  timestamp : extractTimestamp platform event anchor = .ok (some timestamp)

/-- Neither the filters nor the timestamp of the anchor fail for the event: no field that they read is a
relationship that is not loaded, and no timestamp is an error of the operating system. -/
def isReadable (event : CaseEvent S N A) : Bool :=
  event.type ≠ anchor.event_type ||
    match matchesFilters platform event anchor.field_filters with
    | .ok matched => !matched || (extractTimestamp platform event anchor).isOk
    | .error _ => false

/-- A timestamp comes first, or last. -/
def CaseDurationAnchorSelection.Prefers (selection : CaseDurationAnchorSelection) (t t' : ℤ) : Prop :=
  match selection with
  | .FIRST => t ≤ t'
  | .LAST => t' ≤ t

/-- The first or the last event of the anchor, not before `earliest_after`. -/
def IsSelected (events : List (CaseEvent S N A)) (earliest_after : Option ℤ) : Option (CaseEvent S N A × ℤ) → Prop
  | none => ∀ event ∈ events, ∀ t, IsAnchored platform anchor event t → ∃ start, earliest_after = some start ∧ t < start
  | some (event,t) =>
    event ∈ events ∧ IsAnchored platform anchor event t ∧ (∀ start, earliest_after = some start → start ≤ t) ∧
    ∀ other ∈ events, ∀ t', IsAnchored platform anchor other t' → (∀ start, earliest_after = some start → start ≤ t') →
      anchor.selection.Prefers t t'

variable {platform anchor} {earliest_after : Option ℤ} {event : CaseEvent S N A} {events events' : List (CaseEvent S N A)}

theorem candidateAt_of_unreadable (earliest_after : Option ℤ) (h : isReadable platform anchor event = false) :
    ∃ e, candidateAt platform anchor earliest_after event = .error e := by
  rw [isReadable, Bool.or_eq_false_iff, decide_eq_false_iff_not] at h
  obtain ⟨htype,h⟩ := h
  rw [candidateAt, if_neg htype]
  cases hfilters : matchesFilters platform event anchor.field_filters with
  | error e => exact ⟨e,rfl⟩
  | ok matched =>
    rw [hfilters] at h
    cases matched with
    | false => cases h
    | true =>
      cases hextract : extractTimestamp platform event anchor with
      | error e => exact ⟨e,rfl⟩
      | ok found =>
        rw [hextract] at h
        cases h

/-- A readable event is a candidate exactly if it belongs to the anchor and is not too early. -/
theorem candidateAt_of_readable (earliest_after : Option ℤ) (h : isReadable platform anchor event = true) :
    ∃ found, candidateAt platform anchor earliest_after event = .ok found ∧
      ∀ t, found = some t ↔ IsAnchored platform anchor event t ∧ ∀ start, earliest_after = some start → start ≤ t := by
  by_cases htype : event.type = anchor.event_type
  swap
  · exact ⟨none,if_pos htype,fun t => ⟨fun h => (Option.some_ne_none t h.symm).elim,fun h => absurd h.1.type htype⟩⟩
  rw [isReadable, decide_eq_false (not_not_intro htype), Bool.false_or] at h
  rw [candidateAt, if_neg (not_not_intro htype)]
  cases hfilters : matchesFilters platform event anchor.field_filters with
  | error e =>
    rw [hfilters] at h
    cases h
  | ok matched =>
    cases matched with
    | false =>
      refine ⟨none,rfl,fun t => ⟨fun h => (Option.some_ne_none t h.symm).elim,fun h => ?_⟩⟩
      have htrue := h.1.filters
      rw [hfilters] at htrue
      cases htrue
    | true =>
      cases hextract : extractTimestamp platform event anchor with
      | error e =>
        rw [hfilters, hextract] at h
        cases h
      | ok found =>
        cases found with
        | none =>
          refine ⟨none,rfl,fun t => ⟨fun h => (Option.some_ne_none t h.symm).elim,fun hanchored => ?_⟩⟩
          have hsome := hanchored.1.timestamp
          rw [hextract] at hsome
          cases hsome
        | some timestamp =>
          refine ⟨if earliest_after.any (timestamp < ·) then none else some timestamp,rfl,fun t => ?_⟩
          have hanchored : IsAnchored platform anchor event t ↔ t = timestamp := by
            refine ⟨fun ha => ?_,fun ht => ⟨htype,hfilters,ht ▸ hextract⟩⟩
            have hsome := ha.timestamp
            rw [hextract] at hsome
            exact (Option.some.inj (Except.ok.inj hsome)).symm
          rw [hanchored]
          cases earliest_after with
          | none => simp [eq_comm]
          | some start =>
            by_cases hearly : timestamp < start
            · simp [hearly]
              intro ht
              omega
            · simp [hearly]
              omega

/-- What the loop makes of a readable event. -/
def stampOf (platform : Platform S N A) (anchor : CaseDurationEventAnchor S N A) (earliest_after : Option ℤ)
    (event : CaseEvent S N A) : Option (CaseEvent S N A × ℤ) :=
  match candidateAt platform anchor earliest_after event with
  | .ok found => found.map fun timestamp => (event,timestamp)
  | .error _ => none

theorem stampOf_eq_some (h : isReadable platform anchor event = true) {candidate : CaseEvent S N A × ℤ} :
    stampOf platform anchor earliest_after event = some candidate ↔
      candidate.1 = event ∧ IsAnchored platform anchor event candidate.2 ∧
        ∀ start, earliest_after = some start → start ≤ candidate.2 := by
  obtain ⟨found,hfound,hiff⟩ := candidateAt_of_readable earliest_after h
  rw [stampOf, hfound, ← hiff candidate.2, Option.map_eq_some_iff]
  constructor
  · rintro ⟨t,ht,rfl⟩
    exact ⟨rfl,ht⟩
  · rintro ⟨he,ht⟩
    exact ⟨candidate.2,ht,Prod.ext he.symm rfl⟩

theorem candidates_of_readable (h : events.all (isReadable platform anchor) = true) :
    candidates platform anchor earliest_after events = .ok (events.filterMap (stampOf platform anchor earliest_after)) := by
  induction events with
  | nil => rfl
  | cons event events ih =>
    rw [List.all_cons, Bool.and_eq_true] at h
    obtain ⟨found,hfound,_⟩ := candidateAt_of_readable earliest_after h.1
    rw [candidates, ih h.2, hfound, List.filterMap_cons, stampOf, hfound]
    cases found <;> rfl

theorem candidates_of_unreadable (earliest_after : Option ℤ) (h : ¬events.all (isReadable platform anchor) = true) :
    ∃ e, candidates platform anchor earliest_after events = .error e := by
  induction events with
  | nil => exact absurd rfl h
  | cons event events ih =>
    rw [candidates]
    cases hread : isReadable platform anchor event with
    | false =>
      obtain ⟨e,he⟩ := candidateAt_of_unreadable earliest_after hread
      exact ⟨e,by rw [he]; rfl⟩
    | true =>
      obtain ⟨found,hfound,_⟩ := candidateAt_of_readable earliest_after hread
      rw [List.all_cons, hread, Bool.true_and] at h
      obtain ⟨e,he⟩ := ih h
      exact ⟨e,by rw [hfound, he]; rfl⟩

theorem pairwise_mergeSort_of {α : Type} {r : α → α → Prop} [DecidableRel r] (htrans : ∀ a b c, r a b → r b c → r a c)
    (htotal : ∀ a b, r a b ∨ r b a) (as : List α) : (as.mergeSort fun a b => decide (r a b)).Pairwise r := by
  have hsorted : (as.mergeSort fun a b => decide (r a b)).Pairwise fun a b => decide (r a b) = true := by
    apply List.pairwise_mergeSort
    · intro a b c hab hbc
      exact decide_eq_true (htrans a b c (of_decide_eq_true hab) (of_decide_eq_true hbc))
    · intro a b
      rw [Bool.or_eq_true, decide_eq_true_eq, decide_eq_true_eq]
      exact htotal a b
  exact hsorted.imp of_decide_eq_true

theorem sortByTimestamp_sorted (found : List (CaseEvent S N A × ℤ)) :
    (sortByTimestamp found).Pairwise fun a b => a.2 ≤ b.2 :=
  pairwise_mergeSort_of (fun _ _ _ hab hbc => hab.trans hbc) (fun a b => le_total a.2 b.2) found

theorem select_sorted {selection : CaseDurationAnchorSelection} {found : List (CaseEvent S N A × ℤ)}
    (h : found.Pairwise fun a b => a.2 ≤ b.2) {best : CaseEvent S N A × ℤ} (hbest : select selection found = some best) :
    best ∈ found ∧ ∀ other ∈ found, selection.Prefers best.2 other.2 := by
  cases selection with
  | FIRST =>
    obtain ⟨rest,rfl⟩ := List.head?_eq_some_iff.1 hbest
    refine ⟨List.mem_cons_self,fun other hmem => ?_⟩
    cases List.mem_cons.1 hmem with
    | inl hself => exact le_of_eq (congrArg Prod.snd hself.symm)
    | inr hrest => exact List.rel_of_pairwise_cons h hrest
  | LAST =>
    obtain ⟨rest,rfl⟩ := List.getLast?_eq_some_iff.1 hbest
    refine ⟨List.mem_append_right rest List.mem_cons_self,fun other hmem => ?_⟩
    cases List.mem_append.1 hmem with
    | inl hrest => exact (List.pairwise_append.1 h).2.2 other hrest best List.mem_cons_self
    | inr hself => exact le_of_eq (congrArg Prod.snd (List.mem_singleton.1 hself))

theorem select_eq_none {selection : CaseDurationAnchorSelection} {found : List (CaseEvent S N A × ℤ)} :
    select selection found = none ↔ found = [] := by
  cases selection with
  | FIRST => exact List.head?_eq_none_iff
  | LAST => exact List.getLast?_eq_none_iff

/-- `_find_matching_event` on readable events: the event that the anchor selects. -/
theorem findMatchingEvent_of_readable (earliest_after : Option ℤ) (h : events.all (isReadable platform anchor) = true) :
    ∃ found, findMatchingEvent platform events anchor earliest_after = .ok found ∧
      IsSelected platform anchor events earliest_after found := by
  have hread := List.all_eq_true.1 h
  have hmem : ∀ candidate, candidate ∈ sortByTimestamp (events.filterMap (stampOf platform anchor earliest_after)) ↔
      candidate.1 ∈ events ∧ IsAnchored platform anchor candidate.1 candidate.2 ∧
        ∀ start, earliest_after = some start → start ≤ candidate.2 := by
    intro candidate
    rw [sortByTimestamp, List.mem_mergeSort, List.mem_filterMap]
    constructor
    · rintro ⟨event,hevent,hstamp⟩
      have hparts := (stampOf_eq_some (hread event hevent)).1 hstamp
      rw [hparts.1]
      exact ⟨hevent,hparts.2⟩
    · rintro ⟨hevent,hparts⟩
      exact ⟨candidate.1,hevent,(stampOf_eq_some (hread candidate.1 hevent)).2 ⟨rfl,hparts⟩⟩
  refine ⟨select anchor.selection (sortByTimestamp (events.filterMap (stampOf platform anchor earliest_after))),?_,?_⟩
  · rw [findMatchingEvent, candidates_of_readable h]
    rfl
  · cases hselect : select anchor.selection (sortByTimestamp (events.filterMap (stampOf platform anchor earliest_after))) with
    | none =>
      intro event hevent t ht
      by_contra hlate
      have hbound : ∀ start, earliest_after = some start → start ≤ t :=
        fun start hstart => not_lt.1 fun hlt => hlate ⟨start,hstart,hlt⟩
      have hin := (hmem (event,t)).2 ⟨hevent,ht,hbound⟩
      rw [select_eq_none.1 hselect] at hin
      exact absurd hin List.not_mem_nil
    | some best =>
      have hbest := select_sorted (sortByTimestamp_sorted _) hselect
      have hparts := (hmem best).1 hbest.1
      exact ⟨hparts.1,hparts.2.1,hparts.2.2,fun other hother t' ht' hbound =>
        hbest.2 (other,t') ((hmem (other,t')).2 ⟨hother,ht',hbound⟩)⟩

theorem findMatchingEvent_of_unreadable (earliest_after : Option ℤ)
    (h : ¬events.all (isReadable platform anchor) = true) :
    ∃ e, findMatchingEvent platform events anchor earliest_after = .error e := by
  obtain ⟨e,he⟩ := candidates_of_unreadable earliest_after h
  exact ⟨e,by rw [findMatchingEvent, he]; rfl⟩

/-- No two of the events have the same timestamp for the anchor. -/
def DistinctTimestamps (platform : Platform S N A) (anchor : CaseDurationEventAnchor S N A)
    (events : List (CaseEvent S N A)) : Prop :=
  events.Pairwise fun a b => ∀ t, IsAnchored platform anchor a t → ¬IsAnchored platform anchor b t

theorem findMatchingEvent_perm (hread : events.all (isReadable platform anchor) = true) (hperm : events.Perm events')
    (hdistinct : DistinctTimestamps platform anchor events) :
    findMatchingEvent platform events anchor earliest_after = findMatchingEvent platform events' anchor earliest_after := by
  have hread' : events'.all (isReadable platform anchor) = true := hperm.all_eq ▸ hread
  rw [findMatchingEvent, findMatchingEvent, candidates_of_readable hread, candidates_of_readable hread']
  have hkeys : ((events.filterMap (stampOf platform anchor earliest_after)).map Prod.snd).Nodup := by
    rw [List.Nodup, List.pairwise_map, List.pairwise_filterMap]
    refine List.Pairwise.imp_of_mem (fun {a b} ha hb hab => ?_) hdistinct
    intro x hx y hy hxy
    have hx' := ((stampOf_eq_some (List.all_eq_true.1 hread a ha)).1 hx).2.1
    have hy' := ((stampOf_eq_some (List.all_eq_true.1 hread b hb)).1 hy).2.1
    exact hab x.2 hx' (hxy ▸ hy')
  have hsorted : sortByTimestamp (events.filterMap (stampOf platform anchor earliest_after)) =
      sortByTimestamp (events'.filterMap (stampOf platform anchor earliest_after)) := by
    have hperm' := hperm.filterMap (stampOf platform anchor earliest_after)
    refine List.Perm.eq_of_pairwise ?_ (sortByTimestamp_sorted _) (sortByTimestamp_sorted _)
      (((List.mergeSort_perm _ _).trans hperm').trans (List.mergeSort_perm _ _).symm)
    intro a b ha hb hab hba
    have ha' := List.mem_mergeSort.1 ha
    have hb' := hperm'.mem_iff.2 (List.mem_mergeSort.1 hb)
    exact List.inj_on_of_nodup_map hkeys ha' hb' (le_antisymm hab hba)
  simp only [bind, Except.bind, hsorted]

end Selection
end CaseDurations
end Allama

import Allama.GatherFinalize

/-! The values and the errors a gather is given, and what each strategy makes of them. -/
namespace Allama
section
variable (parseInt : String → Option ℤ)

theorem exprContext_ofValue (c : ExprContext) : ExprContext.ofValue c.value = some c := by
  cases c <;> decide

mutual
theorem asErrorInfo_dump : ∀ e : ActionErrorInfo, asErrorInfo parseInt e.dump = some e
  | .mk ref message type exprContext attempt streamId none => by
    simp [ActionErrorInfo.dump, dumpChildren, asErrorInfo, errorFields, errorList,
      ActionErrorInfo.ofFields, ErrorField.lookup, asStr, asInt, exprContext_ofValue]
  | .mk ref message type exprContext attempt streamId (some es) => by
    have hes := errorItems_dumpList es
    simp [ActionErrorInfo.dump, dumpChildren, asErrorInfo, errorFields, errorList, hes,
      ActionErrorInfo.ofFields, ErrorField.lookup, asStr, asInt, exprContext_ofValue]

theorem errorItems_dumpList : ∀ es : List ActionErrorInfo,
    errorItems parseInt (dumpList es) = some es
  | [] => rfl
  | e :: es => by
    rw [dumpList, errorItems, asErrorInfo_dump e, errorItems_dumpList es]
    rfl
end
end

/-- What an execution stream leaves in its slot: a user's value or an error of the stream. -/
inductive GatherEntry
  | value (v : Value)
  | error (e : ActionErrorInfo)

variable {entries : List GatherEntry} (dropNulls : Bool)

def GatherEntry.data : GatherEntry → Value
  | .value v => v
  | .error e => e.dump

def GatherEntry.value? : GatherEntry → Option Value
  | .value v => some v
  | .error _ => none

def GatherEntry.error? : GatherEntry → Option ActionErrorInfo
  | .value _ => none
  | .error e => some e

/-- What `drop_nulls` leaves. -/
def GatherEntry.kept (dropNulls : Bool) : GatherEntry → Bool
  | .value v => !(dropNulls && v.isNone)
  | .error _ => true

/-- The values of a list of entries, in order. -/
def keptValues (dropNulls : Bool) (entries : List GatherEntry) : List Value :=
  (entries.filterMap GatherEntry.value?).filter fun v => !(dropNulls && v.isNone)

section
variable {parseInt : String → Option ℤ}

theorem dump_not_none (e : ActionErrorInfo) : e.dump.isNone = false := by
  cases e
  rfl

/-- No user value has the shape of an error info. -/
def ValuesPlain (parseInt : String → Option ℤ) (entries : List GatherEntry) : Prop :=
  ∀ v, .value v ∈ entries → asErrorInfo parseInt v = none

theorem ValuesPlain.tail {x : GatherEntry} {entries : List GatherEntry}
    (h : ValuesPlain parseInt (x :: entries)) : ValuesPlain parseInt entries :=
  fun v hv => h v (.tail x hv)

theorem filter_data (entries : List GatherEntry) :
    (if dropNulls then (entries.map GatherEntry.data).filter (fun v => !v.isNone)
      else entries.map GatherEntry.data) =
    (entries.filter (GatherEntry.kept dropNulls)).map GatherEntry.data := by
  have hall : ∀ x : GatherEntry, x.kept false = true := fun x => by cases x <;> rfl
  have hkept : ∀ x : GatherEntry, (!x.data.isNone) = x.kept true := by
    intro x
    cases x with
    | value v => rfl
    | error e => rw [GatherEntry.data, dump_not_none]; rfl
  cases dropNulls with
  | false => rw [List.filter_eq_self.mpr fun x _ => hall x]; rfl
  | true =>
    rw [if_pos rfl, List.filter_map]
    exact congrArg (List.map GatherEntry.data) (List.filter_congr fun x _ => hkept x)

theorem partitionErrors_data (h : ValuesPlain parseInt entries) :
    partitionErrors parseInt (entries.map GatherEntry.data) =
      (entries.filterMap GatherEntry.value?,entries.filterMap GatherEntry.error?) := by
  induction entries with
  | nil => rfl
  | cons x entries ih =>
    rw [List.map_cons, partitionErrors, ih h.tail]
    cases x with
    | value v =>
      rw [GatherEntry.data, h v List.mem_cons_self]
      rfl
    | error e =>
      rw [GatherEntry.data, asErrorInfo_dump]
      rfl

theorem dropErrors_data (h : ValuesPlain parseInt entries) :
    (entries.map GatherEntry.data).filter (fun v => !isErrorInfo parseInt v) =
      entries.filterMap GatherEntry.value? := by
  induction entries with
  | nil => rfl
  | cons x entries ih =>
    rw [List.map_cons]
    cases x with
    | value v =>
      have hv : isErrorInfo parseInt (GatherEntry.value v).data = false := by
        rw [isErrorInfo, GatherEntry.data, h v List.mem_cons_self]
        rfl
      rw [List.filter_cons_of_pos (by rw [hv]; rfl), ih h.tail]
      rfl
    | error e =>
      have he : isErrorInfo parseInt (GatherEntry.error e).data = true := by
        rw [isErrorInfo, GatherEntry.data, asErrorInfo_dump]
        rfl
      rw [List.filter_cons_of_neg (by rw [he]; simp), ih h.tail]
      rfl

theorem filterMap_value_kept (entries : List GatherEntry) :
    (entries.filter (GatherEntry.kept dropNulls)).filterMap GatherEntry.value? =
      keptValues dropNulls entries := by
  rw [keptValues, List.filterMap_filter, List.filter_filterMap]
  refine congrArg (fun f => List.filterMap f entries) (funext fun x => ?_)
  cases x with
  | value v => rfl
  | error e => rfl

theorem filterMap_error_kept (entries : List GatherEntry) :
    (entries.filter (GatherEntry.kept dropNulls)).filterMap GatherEntry.error? =
      entries.filterMap GatherEntry.error? := by
  rw [List.filterMap_filter]
  refine congrArg (fun f => List.filterMap f entries) (funext fun x => ?_)
  cases x with
  | value v => exact ite_self _
  | error e => rfl

theorem ValuesPlain.filter (h : ValuesPlain parseInt entries) (p : GatherEntry → Bool) :
    ValuesPlain parseInt (entries.filter p) :=
  fun v hv => h v (List.mem_filter.mp hv).1

theorem finalizeGather_entries (h : ValuesPlain parseInt entries) (dropNulls : Bool)
    (errorStrategy : StreamErrorHandlingStrategy) :
    finalizeGather parseInt (entries.map GatherEntry.data) dropNulls errorStrategy =
      match errorStrategy with
      | .partition | .raise => (keptValues dropNulls entries,entries.filterMap GatherEntry.error?)
      | .drop => (keptValues dropNulls entries,[])
      | .include => ((entries.filter (GatherEntry.kept dropNulls)).map GatherEntry.data,[]) := by
  have hplain := h.filter (GatherEntry.kept dropNulls)
  have hpartition : partitionErrors parseInt
      ((entries.filter (GatherEntry.kept dropNulls)).map GatherEntry.data) =
        (keptValues dropNulls entries,entries.filterMap GatherEntry.error?) := by
    rw [partitionErrors_data hplain, filterMap_value_kept, filterMap_error_kept]
  unfold finalizeGather
  dsimp only
  rw [filter_data]
  cases errorStrategy with
  | partition => exact hpartition
  | «include» => rfl
  | drop =>
    dsimp only
    rw [dropErrors_data hplain, filterMap_value_kept]
  | raise => exact hpartition

end
end Allama

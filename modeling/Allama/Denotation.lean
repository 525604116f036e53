import Allama.EdgeMarking
import Allama.FailurePaths

/-! The meaning of a graph without scatters and gathers: a status for every action, by recursion
over its dependencies. -/
namespace Allama

inductive ActionStatus
  | executed
  | failed
  | skipped
deriving DecidableEq

/-- The marker of the edges of a type out of an action with this status. -/
def ActionStatus.marker (type : EdgeType) : ActionStatus → EdgeMarker
  | .executed => if type = .success then .visited else .skipped
  | .failed => if type = .error then .visited else .skipped
  | .skipped => .skipped

/-- How each action ends when it is executed, and what its `run_if` gives; `none` is an error of
the evaluation. -/
structure OutcomeOracle where
  succeeds : String → Bool
  runIf : String → Option Bool

section
variable (o : OutcomeOracle)

def ActionStatement.AllSkipped (stmt : ActionStatement) (edge : AdjDst → EdgeMarker) : Prop :=
  stmt.deps ≠ [] ∧ ∀ d ∈ stmt.deps, edge d = .skipped

/-- The join strategy is met. -/
def ActionStatement.JoinMet (stmt : ActionStatement) (edge : AdjDst → EdgeMarker) : Prop :=
  stmt.deps = [] ∨ match stmt.joinStrategy with
    | .any => ∃ d ∈ stmt.deps, edge d = .visited
    | .all => ∀ d ∈ stmt.deps, edge d = .visited

instance (stmt : ActionStatement) (edge : AdjDst → EdgeMarker) :
    Decidable (stmt.AllSkipped edge) := by
  unfold ActionStatement.AllSkipped; infer_instance

instance (stmt : ActionStatement) (edge : AdjDst → EdgeMarker) : Decidable (stmt.JoinMet edge) := by
  unfold ActionStatement.JoinMet
  cases stmt.joinStrategy <;> infer_instance

/-- What `run_if` gives; an action without it runs. -/
def OutcomeOracle.condition (stmt : ActionStatement) : Option Bool :=
  if stmt.runIf.isSome then o.runIf stmt.ref else some true

/-- The status of an action, given the markers of its incoming edges. -/
def OutcomeOracle.status (stmt : ActionStatement) (edge : AdjDst → EdgeMarker) : ActionStatus :=
  if stmt.AllSkipped edge then .skipped
  else if ¬ stmt.JoinMet edge then .failed
  else match o.condition stmt with
    | none => .failed
    | some false => .skipped
    | some true => if o.succeeds stmt.ref then .executed else .failed

variable (dsl : DSLInput)

/-- The denotation of an action, over the dependency graph. -/
noncomputable def denote (hdag : WellFounded dsl.Dep) : String → ActionStatus :=
  hdag.fix fun r denoteDep => o.status (dsl.task r) fun d =>
    if hd : dsl.Dep d.1 r then (denoteDep d.1 hd).marker d.2 else .skipped

end

section
variable {o : OutcomeOracle} {dsl : DSLInput} {stmt : ActionStatement}

theorem allSkipped_congr {edge edge' : AdjDst → EdgeMarker}
    (h : ∀ d ∈ stmt.deps, edge d = edge' d) : stmt.AllSkipped edge ↔ stmt.AllSkipped edge' :=
  and_congr_right fun _ => forall₂_congr fun d hd => by rw [h d hd]

theorem joinMet_congr {edge edge' : AdjDst → EdgeMarker}
    (h : ∀ d ∈ stmt.deps, edge d = edge' d) : stmt.JoinMet edge ↔ stmt.JoinMet edge' := by
  refine or_congr_right ?_
  cases stmt.joinStrategy with
  | any => exact exists_congr fun d => and_congr_right fun hd => by rw [h d hd]
  | all => exact forall₂_congr fun d hd => by rw [h d hd]

theorem status_congr {edge edge' : AdjDst → EdgeMarker}
    (h : ∀ d ∈ stmt.deps, edge d = edge' d) : o.status stmt edge = o.status stmt edge' := by
  simp only [OutcomeOracle.status, allSkipped_congr h, joinMet_congr h]

theorem denote_eq (hdag : WellFounded dsl.Dep) (r : String) : denote o dsl hdag r =
    o.status (dsl.task r) fun d => (denote o dsl hdag d.1).marker d.2 := by
  rw [denote, WellFounded.fix_eq]
  refine status_congr fun d hd => ?_
  rw [dif_pos ⟨d,hd,rfl⟩]

theorem status_of_allSkipped {edge : AdjDst → EdgeMarker} (h : stmt.AllSkipped edge) :
    o.status stmt edge = .skipped := by
  rw [OutcomeOracle.status, if_pos h]

theorem status_of_not_joinMet {edge : AdjDst → EdgeMarker} (hs : ¬ stmt.AllSkipped edge)
    (hj : ¬ stmt.JoinMet edge) : o.status stmt edge = .failed := by
  rw [OutcomeOracle.status, if_neg hs, if_pos hj]

def ActionStatement.Ready (stmt : ActionStatement) (edge : AdjDst → EdgeMarker) : Prop :=
  ¬ stmt.AllSkipped edge ∧ stmt.JoinMet edge

theorem status_of_ready {edge : AdjDst → EdgeMarker} (h : stmt.Ready edge) :
    o.status stmt edge = match o.condition stmt with
      | none => .failed
      | some false => .skipped
      | some true => if o.succeeds stmt.ref then .executed else .failed := by
  rw [OutcomeOracle.status, if_neg h.1, if_neg (not_not.mpr h.2)]

/-! The two checks of `_schedule_task` are the ones of the denotation. -/

theorem skipShouldPropagate_iff (f : Flow) (t : Task) :
    f.skipShouldPropagate t stmt = true ↔
      stmt.AllSkipped fun d => f.edges (edgeByRefs d t.ref t.streamId) := by
  unfold Flow.skipShouldPropagate ActionStatement.AllSkipped
  split
  · rename_i hnil
    simp [hnil]
  · rename_i deps hne
    have hdeps : stmt.deps ≠ [] := hne
    simp [hdeps, Flow.edgeHasMarker]

theorem isReachable_iff (f : Flow) (t : Task) :
    f.isReachable t stmt = true ↔
      stmt.JoinMet fun d => f.edges (edgeByRefs d t.ref t.streamId) := by
  unfold Flow.isReachable ActionStatement.JoinMet
  split
  · rename_i hnil
    simp [hnil]
  · -- with one dependency the strategies agree
    rename_i dep hone
    rw [hone]
    cases stmt.joinStrategy <;> simp [Flow.edgeHasMarker]
  · rename_i deps hnil hone
    have hdeps : stmt.deps ≠ [] := hnil
    cases stmt.joinStrategy with
    | any => simp [hdeps, Flow.edgeHasMarker, List.countP_pos_iff]
    | all => simp [hdeps, Flow.edgeHasMarker, List.countP_eq_length]

end
end Allama

import Allama.SchedulerCases

/-! Activities whose results do not depend on what they are sent. -/
namespace Allama

/-- A result for each instance of an activity, the same at every attempt. -/
structure Oracle where
  runIf : Task → Except Exc Bool := fun _ => .ok true
  collection : Task → Except Exc (List Value) := fun _ => .ok []
  items : Task → Except Exc StoredObject := fun _ => .ok ⟨false,.none⟩
  action : Task → Except Exc StoredObject := fun _ => .ok ⟨false,.none⟩

def Oracle.activities (o : Oracle) : Activities where
  evaluateRunIf := fun t _ _ => o.runIf t
  handleScatterInput := fun t _ _ => o.collection t
  evaluateItems := fun t _ _ => o.items t
  finalizeFailure := fun _ => none
  noopGatherAction := fun _ => .ok ()
  handleTimers := fun _ _ => .ok ()
  prepareSubflow := fun _ _ _ => .ok .none
  runChildWorkflow := fun t _ _ _ => o.action t
  executeAction := fun t _ _ => o.action t
  evaluateRetryUntil := fun _ _ _ _ => .ok true
  computeLogicalTime := fun _ _ => 0
  resultExternalizationEnabled := false
  parseInt := fun _ => none

section
variable (A : Activities)

/-- How the stretches of `execute_task` for an instance can end, whatever its contexts are when
it goes on. -/
inductive ExecReaches (stmt : ActionStatement) (t : Task) : ExecEnd → Prop
  | first {c : Contexts} : (c.streams t.streamId).isSome →
      ExecReaches stmt t (executeTask A stmt t c).2
  | next {pc : ExecPc} {c : Contexts} : ExecReaches stmt t (.await pc) →
      (c.streams t.streamId).isSome → ExecReaches stmt t (resumeTask A stmt t pc c).2

end

/-- What an execution under `Oracle.activities` can still come to. -/
def Oracle.Allows (o : Oracle) (t : Task) : ExecEnd → Prop
  | .await (.timers _ result) => ∃ u, result = .ok u
  | .await (.prepare _ result) => ∃ v, result = .ok v
  | .await (.action _ result) => result = o.action t
  | .await (.retryUntil _ result) => result = .ok true ∧ ∃ v, o.action t = .ok v
  | .returned => ∃ v, o.action t = .ok v
  | .raised exc => o.action t = .error exc

section
variable {o : Oracle} {stmt : ActionStatement} {t : Task} {c : Contexts}

theorem finishAction_end (hc : (c.streams t.streamId).isSome) (result : TaskResult)
    (ending : ExecEnd) : (finishAction t result ending c).2 = ending := by
  obtain ⟨ctx,hctx⟩ := Option.isSome_iff_exists.mp hc
  rw [finishAction, hctx]

theorem Oracle.allows_beginAction (hc : (c.streams t.streamId).isSome) (attempt : ℕ) :
    o.Allows t (beginAction o.activities stmt t attempt c).2 := by
  obtain ⟨ctx,hctx⟩ := Option.isSome_iff_exists.mp hc
  unfold beginAction
  split
  · rw [hctx]
    exact ⟨_,rfl⟩
  · rfl
  · rfl
  · rfl

theorem Oracle.allows_beginTask (hc : (c.streams t.streamId).isSome) (attempt : ℕ) :
    o.Allows t (beginTask o.activities stmt t attempt c).2 := by
  unfold beginTask
  split
  · exact ⟨_,rfl⟩
  · exact allows_beginAction hc attempt

theorem Oracle.allows_raise {first : Contexts × ExecEnd}
    (hc : (first.1.streams t.streamId).isSome) (hfirst : o.Allows t first.2) :
    o.Allows t (match first with
      | (c, .raised exc) => raiseAction t exc c
      | (c, ending) => (c, ending)).2 := by
  obtain ⟨c,ending⟩ := first
  cases ending with
  | raised exc =>
    dsimp only
    rw [raiseAction, finishAction_end hc]
    exact hfirst
  | await pc => exact hfirst
  | returned => exact hfirst

theorem Oracle.allows_executeTask (hc : (c.streams t.streamId).isSome) :
    o.Allows t (executeTask o.activities stmt t c).2 := by
  have hsame := (sameStreams_writes t.ref).beginTask (A := o.activities) stmt 0 c
  unfold executeTask
  exact allows_raise (by rwa [hsame.streams]) (allows_beginTask hc 0)

theorem Oracle.allows_resumeTask {pc : ExecPc} (hpc : o.Allows t (.await pc))
    (hc : (c.streams t.streamId).isSome) :
    o.Allows t (resumeTask o.activities stmt t pc c).2 := by
  obtain ⟨ctx,hctx⟩ := Option.isSome_iff_exists.mp hc
  unfold resumeTask
  split
  · obtain ⟨u,hu⟩ := hpc
    cases hu
  · have hsame := (sameStreams_writes t.ref).beginAction (A := o.activities) stmt ‹ℕ› c
    exact allows_raise (by rwa [hsame.streams]) (allows_beginAction hc _)
  · obtain ⟨v,hv⟩ := hpc
    cases hv
  · split
    · rw [hctx]
      rfl
    · rfl
  · rw [raiseAction, finishAction_end hc]
    exact hpc.symm
  · dsimp only
    split
    · rw [finishAction_end hc]
      exact ⟨_,hpc.symm⟩
    · rw [finishAction, hctx]
      exact ⟨rfl,_,hpc.symm⟩
  · cases hpc.1
  · exact hpc.2
  · cases hpc.1

theorem Oracle.allows_of_reaches {ending : ExecEnd}
    (h : ExecReaches o.activities stmt t ending) : o.Allows t ending := by
  induction h with
  | first hc => exact allows_executeTask hc
  | next _ hc ih => exact allows_resumeTask ih hc

end
end Allama

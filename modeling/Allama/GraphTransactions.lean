import Allama.RowLocks
import Allama.WorkflowGraph

/-! The transactions of `apply_operations`: each client reads the workflow row `FOR UPDATE`, checks the
version, applies its operations and commits. -/
namespace Allama
open Checked

structure GraphOperationsRequest where
  baseVersion : ℤ
  operations : List GraphOperation

/-- The check of `base_version` against the row that was read. -/
def checkVersion (baseVersion : ℤ) (w : Workflow) : Except GraphError Workflow :=
  if w.graphVersion ≠ baseVersion then .error (.versionConflict w.graphVersion) else .ok w

def GraphOperationsRequest.isStructural (request : GraphOperationsRequest) : Bool :=
  request.operations.any GraphOperation.isStructural

section
variable (cast : String → Option Uuid)

/-- What `apply_operations` does between the read of the row and the commit, statement by
statement; other clients act in between. -/
def applySteps (request : GraphOperationsRequest) : List (Workflow → Except GraphError Workflow) :=
  checkVersion request.baseVersion ::
    (request.operations.map (fun op w => applyOperation cast w op) ++
      [fun w => .ok (w.bumpVersion request.isStructural)])

/-- Any number of clients `ι` on one workflow. -/
abbrev GraphClients (ι : Type) := RowLocks.System ι Workflow GraphOperationsRequest GraphError

/-- What the transactions of the clients guarantee in a state. -/
structure Serialized {ι : Type} [DecidableEq ι] (w : Workflow) (st : GraphClients ι) : Prop where
  -- the graph is what the committed batches make of it, each against the version it names
  serial : st.log.foldlM (fun v request =>
    applyOperations cast v request.baseVersion request.operations) w = .ok st.row
  version : st.row.graphVersion =
    w.graphVersion+(st.log.countP GraphOperationsRequest.isStructural : ℕ)
  -- one step changes the graph by the commit of one batch against the current version, or not
  committed : ∀ event st', RowLocks.step (applySteps cast) st event = some st' →
    st'.row = st.row ∧ st'.log = st.log ∨
      ∃ i request, event = .commit i ∧ st'.log = st.log ++ [request] ∧
        st.row.graphVersion = request.baseVersion ∧
        applyOperations cast st.row request.baseVersion request.operations = .ok st'.row ∧
        st'.row.graphVersion = st.row.graphVersion+(if request.isStructural then 1 else 0)
  -- a rejected batch fails on the graph as it is, and leaves it
  rejected : ∀ event st', RowLocks.step (applySteps cast) st event = some st' →
    ∀ i request e, st'.clients i = .rejected request e → st.clients i ≠ .rejected request e →
      applyOperations cast st.row request.baseVersion request.operations = .error e ∧
        st'.row = st.row ∧ st'.log = st.log

variable {cast}

theorem moveNodes_version {w w' : Workflow} {p : MoveNodesPayload}
    (h : moveNodes cast w p = .ok w') : w'.graphVersion = w.graphVersion := by
  apply foldlM_invariant (P := fun v : Workflow => v.graphVersion = w.graphVersion) ?_ rfl h
  intro v pos v' hv hm
  unfold moveNode at hm
  split at hm
  · split at hm
    · cases hm
    · cases hm
      exact hv
  · cases hm
    exact hv

theorem applyOperation_version {w w' : Workflow} {op : GraphOperation}
    (h : applyOperation cast w op = .ok w') : w'.graphVersion = w.graphVersion := by
  cases op with
  | addNode p uuid4 =>
    rw [applyOperation, addNode] at h
    split at h
    · cases h
    · cases h
      rfl
  | updateNode p =>
    cases h
    rfl
  | deleteNode p =>
    cases h
    rfl
  | addEdge p =>
    simp only [applyOperation, addEdge, bind_eq_ok] at h
    obtain ⟨_,-,target,-,h⟩ := h
    cases h
    rfl
  | deleteEdge p =>
    simp only [applyOperation, deleteEdge, bind_eq_ok] at h
    obtain ⟨target,-,h⟩ := h
    cases h
    rfl
  | moveNodes p => exact moveNodes_version h
  | updateTriggerPosition p =>
    cases h
    rfl
  | updateViewport p =>
    cases h
    rfl
  | malformed type => cases h

theorem applyOperations_version {w w' : Workflow} {request : GraphOperationsRequest}
    (h : applyOperations cast w request.baseVersion request.operations = .ok w') :
    w.graphVersion = request.baseVersion ∧
      w'.graphVersion = w.graphVersion+(if request.isStructural then 1 else 0) := by
  unfold applyOperations at h
  split at h
  · cases h
  · rename_i hbase
    obtain ⟨v,hv,h⟩ := bind_eq_ok.mp h
    obtain rfl : v.bumpVersion request.isStructural = w' := Except.ok.inj h
    have hsame : v.graphVersion = w.graphVersion := by
      apply foldlM_invariant (P := fun u : Workflow => u.graphVersion = w.graphVersion) ?_ rfl hv
      intro u op u' hu ha
      exact (applyOperation_version ha).trans hu
    refine ⟨not_not.mp hbase,?_⟩
    rw [Workflow.bumpVersion]
    split
    · exact congrArg (· + 1) hsame
    · rw [hsame, add_zero]

theorem perform_applySteps (request : GraphOperationsRequest) (w : Workflow) :
    RowLocks.perform (applySteps cast request) w =
      applyOperations cast w request.baseVersion request.operations := by
  have hall : ∀ v, RowLocks.perform (request.operations.map fun op w => applyOperation cast w op) v =
      applyAll cast v request.operations := by
    intro v
    rw [RowLocks.perform, List.foldlM_map, applyAll]
  unfold applySteps applyOperations RowLocks.perform
  rw [List.foldlM_cons, checkVersion]
  split
  · rfl
  · change RowLocks.perform (_ ++ _) w = _
    rw [RowLocks.perform_append, hall]
    cases applyAll cast w request.operations <;> rfl

theorem replay_version {w w' : Workflow} {log : List GraphOperationsRequest}
    (h : log.foldlM (fun v request =>
      applyOperations cast v request.baseVersion request.operations) w = .ok w') :
    w'.graphVersion = w.graphVersion+(log.countP GraphOperationsRequest.isStructural : ℕ) := by
  induction log generalizing w with
  | nil =>
    cases h
    simp
  | cons request log ih =>
    rw [List.foldlM_cons, bind_eq_ok] at h
    obtain ⟨v,hv,h⟩ := h
    have hstep := (applyOperations_version hv).2
    have hrest := ih h
    rw [hrest, hstep, List.countP_cons]
    cases request.isStructural with
    | true => simp only [if_true, Nat.cast_add, Nat.cast_one]; omega
    | false => simp only [Bool.false_eq_true, if_false, add_zero]

/-- Any interleaving of the transactions of any number of clients is serial: no batch is lost, each
is applied against the version it names, and a rejected one changes nothing. -/
theorem batches_serialized {ι : Type} [DecidableEq ι] {w : Workflow} {st : GraphClients ι}
    (h : Runs.Reachable (RowLocks.step (applySteps cast)) (RowLocks.System.init ι w) st) :
    Serialized cast w st := by
  have hlocked := RowLocks.locked_of_reachable h
  have hserial : st.log.foldlM (fun v request =>
      applyOperations cast v request.baseVersion request.operations) w = .ok st.row := by
    simpa only [RowLocks.replay, perform_applySteps] using hlocked.log
  refine ⟨hserial,replay_version hserial,?_,?_⟩
  · intro event st' hs
    rcases hlocked.row_cases hs with hsame | ⟨i,request,he,hlog,hrow⟩
    · exact .inl hsame
    · rw [perform_applySteps] at hrow
      obtain ⟨hbase,hversion⟩ := applyOperations_version hrow
      exact .inr ⟨i,request,he,hlog,hbase,hrow,hversion⟩
  · intro event st' hs i request e hi hnew
    obtain ⟨hrow,hlog,he⟩ := hlocked.rejected hs hi hnew
    rw [perform_applySteps] at he
    exact ⟨he,hrow,hlog⟩

end

def sampleRequest (title : String) (d : Fin 16) : GraphOperationsRequest :=
  ⟨1,[.addNode ⟨"core.noop",title,none,none,none,0,0⟩ (Uuid.ofDigit d)]⟩

/-- Two clients with batches for the same version. -/
def sampleInterleaving : List (RowLocks.Event Bool GraphOperationsRequest) :=
  [.request true (sampleRequest "a" 10),.request false (sampleRequest "b" 11),.lock false,
    .advance false,.advance false,.advance false,.commit false,.lock true,.advance true]

theorem batches_serialized_conflict : ∃ st : GraphClients Bool,
    Runs.Reachable (RowLocks.step (applySteps Uuid.parse))
      (RowLocks.System.init Bool ⟨Uuid.ofDigit 0,1,0,0,0,0,1,[]⟩) st ∧
    (st.row.graphVersion,st.row.actions.map Action.title,st.holder) = (2,["b"],none) ∧
    Serialized Uuid.parse ⟨Uuid.ofDigit 0,1,0,0,0,0,1,[]⟩ st := by
  have hrun : (Runs.follow (RowLocks.step (applySteps Uuid.parse)) (RowLocks.System.init Bool
      ⟨Uuid.ofDigit 0,1,0,0,0,0,1,[]⟩) sampleInterleaving).map
        (fun st => (st.row.graphVersion,st.row.actions.map Action.title,st.holder)) =
      some (2,["b"],none) := by
    decide
  obtain ⟨st,hst,hobs⟩ := Runs.reachable_of_observed hrun
  exact ⟨st,hst,hobs,batches_serialized hst⟩

end Allama

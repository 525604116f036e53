import Allama.Approvals
import Allama.RecordFields

/-! Runs in which the decisions that are used are those that are recorded. -/
namespace Allama
namespace Approvals
open RecordFields Runs
variable {approvals : List (String × Decision)} {submission : Submission}

/-- The row of a call says the decision, and who made it. -/
def Recorded (table : Table) (id : String) (decision : Decision) (approvedBy : Option String) : Prop :=
  ∃ row, table id = some (applyDecision row (ApprovalManager.payload approvedBy (id,decision)))

/-- A call is executed, or denied, as the recorded decision of this turn says. -/
def CallFaithful (s : System) (approved : List ApprovedToolCall) (denied : List DeniedToolCall) (call : ToolCall) : Prop :=
  ∃ submission decision, s.used = some ⟨submission,s.turn⟩ ∧ submission.approvals.lookup call.id = some decision ∧
    Recorded s.table call.id decision submission.approvedBy ∧
    (decision.approves = true → (∃ tool ∈ approved, treat call (some decision) = .inl tool) ∧
      ∀ tool ∈ denied, tool.toolCallId ≠ call.id) ∧
    (decision.approves = false → (∃ tool ∈ denied, treat call (some decision) = .inr tool) ∧
      ∀ tool ∈ approved, tool.toolCallId ≠ call.id)

/-- When tools are executed, each call that was requested is treated by its recorded decision. -/
def Faithful (s : System) : Prop :=
  match s.phase with
  | .executing calls approved denied => ∀ call ∈ calls, CallFaithful s approved denied call
  | _ => True

/-- No submission that differs is accepted while the decisions are persisted. -/
def Undisturbed (s : System) : Event → Prop
  | .submit submission =>
    match s.phase with
    | .persisting _ _ => s.manager.validateResponses submission.approvals = .ok () →
      submission.approvals = s.manager.approvals ∧ submission.approvedBy = s.manager.approvedBy
    | _ => True
  | _ => True

/-- The manager holds a submission of this turn that decides each call. -/
def Decided (s : System) (calls : List ToolCall) : Prop :=
  ∃ submission, s.accepted = some ⟨submission,s.turn⟩ ∧ s.manager.approvals = submission.approvals ∧
    s.manager.approvedBy = submission.approvedBy ∧ ∀ call ∈ calls, ∃ decision, submission.approvals.lookup call.id = some decision

structure Expecting (s : System) (calls : List ToolCall) : Prop where
  expected : s.manager.expectedToolCalls = calls
  prepared : s.prepared = s.turn

def Inv (s : System) : Prop :=
  match s.phase with
  | .recording calls | .waiting calls => calls ≠ [] → Expecting s calls ∧ (s.manager.status = .ready → Decided s calls)
  | .persisting calls decisions => calls ≠ [] → Expecting s calls ∧ Decided s calls ∧ decisions = s.manager.decisions
  | .executing calls approved denied => ∀ call ∈ calls, CallFaithful s approved denied call
  | _ => True

theorem lookup_of_mem_keys {id : String} (h : id ∈ approvals.map Prod.fst) :
    ∃ decision, approvals.lookup id = some decision := by
  apply Option.ne_none_iff_exists'.mp
  exact fun hnone => notMem_of_lookup hnone h

theorem validateResponses_covers {m : ApprovalManager} (h : m.validateResponses approvals = .ok ()) :
    ∀ call ∈ m.expectedToolCalls, ∃ decision, approvals.lookup call.id = some decision := by
  intro call hcall
  apply lookup_of_mem_keys
  by_contra hmissing
  unfold ApprovalManager.validateResponses at h
  have hne : (m.expectedToolCalls.map ToolCall.id).filter (· ∉ approvals.map Prod.fst) ≠ [] := by
    apply List.ne_nil_of_mem (a := call.id)
    exact List.mem_filter.mpr ⟨List.mem_map_of_mem hcall,decide_eq_true hmissing⟩
  by_cases hexpected : m.expectedToolCalls = []
  · rw [hexpected] at hcall
    cases hcall
  · by_cases hempty : approvals = []
    · simp [hexpected, hempty, throw, throwThe, MonadExceptOf.throw, bind, Except.bind] at h
    · simp [hexpected, hempty, throw, throwThe, MonadExceptOf.throw, bind, Except.bind] at h
      rw [if_neg hne] at h
      cases h

theorem applyApprovalDecisions_notMem {id : String} {decisions : List ApprovalDecisionPayload}
    (h : ∀ d ∈ decisions, d.toolCallId ≠ id) (table : Table) : applyApprovalDecisions decisions table id = table id := by
  induction decisions generalizing table with
  | nil => rfl
  | cons d decisions ih =>
    have hne := (h d List.mem_cons_self).symm
    change applyApprovalDecisions decisions (Function.update table d.toolCallId _) id = _
    rw [ih fun other hother => h other (List.mem_cons_of_mem _ hother)]
    exact Function.update_of_ne hne ..

@[simp] theorem payload_toolCallId (approvedBy : Option String) (entry : String × Decision) :
    (ApprovalManager.payload approvedBy entry).toolCallId = entry.1 := by
  obtain ⟨id,decision⟩ := entry
  cases decision <;> rfl

theorem recorded_of_lookup (hkeys : (approvals.map Prod.fst).Nodup) {id : String}
    {decision : Decision} (h : approvals.lookup id = some decision) (approvedBy : Option String)
    (table : Table) :
    Recorded (applyApprovalDecisions (approvals.map (ApprovalManager.payload approvedBy)) table) id decision approvedBy := by
  induction approvals generalizing table with
  | nil => cases h
  | cons entry approvals ih =>
    rw [List.map_cons, List.nodup_cons] at hkeys
    rw [List.map_cons]
    change Recorded (applyApprovalDecisions _ (Function.update table _ _)) id decision approvedBy
    rw [List.lookup_cons] at h
    by_cases hid : id = entry.1
    · rw [hid, beq_self_eq_true] at h
      have hdecision : entry.2 = decision := Option.some.inj h
      have hentry : entry = (id,decision) := by rw [hid, ← hdecision]
      have hrest : ∀ d ∈ approvals.map (ApprovalManager.payload approvedBy), d.toolCallId ≠ id := by
        intro d hd
        obtain ⟨other,hother,rfl⟩ := List.mem_map.mp hd
        rw [payload_toolCallId]
        intro heq
        exact hkeys.1 (by rw [← hid, ← heq]; exact List.mem_map_of_mem hother)
      rw [Recorded, applyApprovalDecisions_notMem hrest, hentry, payload_toolCallId, Function.update_self]
      exact ⟨_,rfl⟩
    · rw [beq_false_of_ne hid] at h
      exact ih hkeys.2 h _

theorem treat_inl {call : ToolCall} {decision? : Option Decision} {tool : ApprovedToolCall}
    (h : treat call decision? = .inl tool) :
    tool.toolCallId = call.id ∧ ∀ decision, decision? = some decision → decision.approves = true := by
  unfold treat at h
  split at h <;> cases h <;> exact ⟨rfl,by rintro decision ⟨⟩; rfl⟩

theorem treat_inr {call : ToolCall} {decision? : Option Decision} {tool : DeniedToolCall}
    (h : treat call decision? = .inr tool) :
    tool.toolCallId = call.id ∧ ∀ decision, decision? = some decision → decision.approves = false := by
  unfold treat at h
  split at h <;> cases h <;> exact ⟨rfl,by rintro decision ⟨⟩ <;> rfl⟩

theorem treat_approves (call : ToolCall) (decision : Decision) (h : decision.approves = true) :
    ∃ tool, treat call (some decision) = .inl tool ∧ tool.toolCallId = call.id := by
  cases decision with
  | bool value =>
    cases value with
    | false => cases h
    | true => exact ⟨_,rfl,rfl⟩
  | approved overrideArgs => exact ⟨_,rfl,rfl⟩
  | denied message => cases h

theorem treat_denies (call : ToolCall) (decision : Decision) (h : decision.approves = false) :
    ∃ tool, treat call (some decision) = .inr tool ∧ tool.toolCallId = call.id := by
  cases decision with
  | bool value =>
    cases value with
    | false => exact ⟨_,rfl,rfl⟩
    | true => cases h
  | approved overrideArgs => cases h
  | denied message => exact ⟨_,rfl,rfl⟩

/-- The lists that are built treat each call by its decision. -/
theorem callFaithful_of_built {s : System} {calls : List ToolCall}
    (hused : s.used = some ⟨submission,s.turn⟩) {call : ToolCall} (hcall : call ∈ calls)
    {decision : Decision} (hdecision : submission.approvals.lookup call.id = some decision)
    (hrecorded : Recorded s.table call.id decision submission.approvedBy) :
    CallFaithful s (buildToolLists submission.approvals calls).1 (buildToolLists submission.approvals calls).2 call := by
  have hmem : treat call (some decision) ∈ calls.map fun call => treat call (submission.approvals.lookup call.id) :=
    List.mem_map.mpr ⟨call,hcall,by rw [hdecision]⟩
  -- another call with this id has the same decision
  have hother : ∀ other : ToolCall, other.id = call.id → submission.approvals.lookup other.id = some decision := by
    intro other hid
    rw [hid, hdecision]
  refine ⟨submission,decision,hused,hdecision,hrecorded,?_,?_⟩
  · intro happroves
    obtain ⟨tool,htool,-⟩ := treat_approves call decision happroves
    refine ⟨⟨tool,?_,htool⟩,?_⟩
    · exact List.mem_filterMap.mpr ⟨_,hmem,by rw [htool]; rfl⟩
    · intro denied hdenied hid
      obtain ⟨treated,htreated,hright⟩ := List.mem_filterMap.mp hdenied
      obtain ⟨other,-,rfl⟩ := List.mem_map.mp htreated
      obtain ⟨hsame,hdenies⟩ := treat_inr (Sum.getRight?_eq_some_iff.mp hright)
      have hfalse := hdenies decision (hother other (hsame.symm.trans hid))
      exact absurd (happroves.symm.trans hfalse) nofun
  · intro hdenies
    obtain ⟨tool,htool,-⟩ := treat_denies call decision hdenies
    refine ⟨⟨tool,?_,htool⟩,?_⟩
    · exact List.mem_filterMap.mpr ⟨_,hmem,by rw [htool]; rfl⟩
    · intro approved happroved hid
      obtain ⟨treated,htreated,hleft⟩ := List.mem_filterMap.mp happroved
      obtain ⟨other,-,rfl⟩ := List.mem_map.mp htreated
      obtain ⟨hsame,happroves⟩ := treat_inl (Sum.getLeft?_eq_some_iff.mp hleft)
      have htrue := happroves decision (hother other (hsame.symm.trans hid))
      exact absurd (hdenies.symm.trans htrue) nofun

section Steps
variable {s s' : System}

theorem submit_eq (s : System) (submission : Submission) : s.submit submission = s ∨
    (s.manager.validateResponses submission.approvals = .ok () ∧
      s.submit submission = {s with manager := s.manager.set submission, accepted := some ⟨submission,s.prepared⟩}) := by
  unfold System.submit
  split
  · exact .inl rfl
  · rename_i hvalid
    exact .inr ⟨hvalid,rfl⟩

theorem Expecting.decided {calls : List ToolCall} (h : Expecting s calls)
    (hvalid : s.manager.validateResponses submission.approvals = .ok ()) :
    Decided {s with manager := s.manager.set submission, accepted := some ⟨submission,s.prepared⟩} calls := by
  refine ⟨submission,?_,rfl,rfl,?_⟩
  · rw [← h.prepared]
  · intro call hcall
    exact validateResponses_covers hvalid call (by rw [h.expected]; exact hcall)

theorem Inv.submit (h : Inv s) (hok : Undisturbed s (.submit submission)) :
    Inv (s.submit submission) := by
  rcases submit_eq s submission with hsame | ⟨hvalid,hsubmit⟩
  · rw [hsame]
    exact h
  · rw [hsubmit]
    unfold Inv at h ⊢
    unfold Undisturbed at hok
    cases hphase : s.phase with
    | recording calls =>
      rw [hphase] at h
      intro hne
      exact ⟨⟨(h hne).1.expected,(h hne).1.prepared⟩,fun _ => (h hne).1.decided hvalid⟩
    | waiting calls =>
      rw [hphase] at h
      intro hne
      exact ⟨⟨(h hne).1.expected,(h hne).1.prepared⟩,fun _ => (h hne).1.decided hvalid⟩
    | persisting calls decisions =>
      rw [hphase] at h hok
      intro hne
      obtain ⟨hexpecting,-,hdecisions⟩ := h hne
      obtain ⟨happrovals,hby⟩ := hok hvalid
      refine ⟨⟨hexpecting.expected,hexpecting.prepared⟩,hexpecting.decided hvalid,?_⟩
      rw [hdecisions, ApprovalManager.decisions, ApprovalManager.decisions, ← happrovals, ← hby]
      rfl
    | executing calls approved denied =>
      rw [hphase] at h
      exact h
    | running => trivial
    | reloading => trivial
    | finished => trivial

theorem inv_buildLists {calls : List ToolCall} (hdecided : calls ≠ [] → Decided s calls)
    (hrecorded : ∀ call ∈ calls, ∀ decision, s.manager.approvals.lookup call.id = some decision →
      Recorded s.table call.id decision s.manager.approvedBy) : Inv (s.buildLists calls) := by
  unfold Inv System.buildLists
  dsimp only
  by_cases hnone : (buildToolLists s.manager.approvals calls).1.isEmpty && (buildToolLists s.manager.approvals calls).2.isEmpty
  · rw [if_pos hnone]
    trivial
  · rw [if_neg hnone]
    intro call hcall
    obtain ⟨submission,haccepted,happrovals,hby,hdecides⟩ := hdecided (List.ne_nil_of_mem hcall)
    obtain ⟨decision,hdecision⟩ := hdecides call hcall
    rw [happrovals]
    refine callFaithful_of_built haccepted hcall hdecision ?_
    rw [← hby]
    exact hrecorded call hcall decision (by rw [happrovals]; exact hdecision)

theorem Inv.next (h : Inv s) {event : Event} (hok : Undisturbed s event) (hnext : s.next event = some s') : Inv s' := by
  cases event with
  | submit submission =>
    unfold System.next at hnext
    dsimp only at hnext
    split at hnext
    · cases hnext
    · cases hnext
      exact h.submit hok
  | turnEnded approvalRequested calls =>
    unfold System.next at hnext
    dsimp only at hnext
    split at hnext
    · split at hnext
      · split at hnext
        · cases hnext
          exact fun hne => absurd rfl hne
        · cases hnext
          exact fun _ => ⟨⟨rfl,rfl⟩,nofun⟩
      · cases hnext
        trivial
    · cases hnext
  | requestsRecorded =>
    unfold System.next at hnext
    dsimp only at hnext
    split at hnext
    · rename_i calls hphase
      cases hnext
      unfold Inv at h
      rw [hphase] at h
      intro hne
      exact ⟨⟨(h hne).1.expected,(h hne).1.prepared⟩,(h hne).2⟩
    · cases hnext
  | ready =>
    unfold System.next at hnext
    dsimp only at hnext
    split at hnext
    · rename_i calls hphase
      unfold Inv at h
      rw [hphase] at h
      split at hnext
      · rename_i hready
        split at hnext
        · rename_i hempty
          cases hnext
          refine inv_buildLists (fun hne => (h hne).2 hready) ?_
          intro call _ decision hdecision
          rw [hempty] at hdecision
          cases hdecision
        · cases hnext
          exact fun hne => ⟨⟨(h hne).1.expected,(h hne).1.prepared⟩,(h hne).2 hready,rfl⟩
      · cases hnext
    · cases hnext
  | decisionsApplied =>
    unfold System.next at hnext
    dsimp only at hnext
    split at hnext
    · rename_i calls decisions hphase
      unfold Inv at h
      rw [hphase] at h
      cases hnext
      refine inv_buildLists (fun hne => (h hne).2.1) ?_
      intro call hcall decision hdecision
      obtain ⟨-,⟨submission,-,happrovals,-⟩,hdecisions⟩ := h (List.ne_nil_of_mem hcall)
      rw [hdecisions]
      exact recorded_of_lookup (by rw [happrovals]; exact submission.keys) hdecision s.manager.approvedBy s.table
    · cases hnext
  | toolsExecuted =>
    unfold System.next at hnext
    dsimp only at hnext
    split at hnext
    · cases hnext
      trivial
    · cases hnext
  | sessionReloaded =>
    unfold System.next at hnext
    dsimp only at hnext
    split at hnext
    · cases hnext
      trivial
    · cases hnext

end Steps

/-- In every run without a disturbing submission, each call is treated by its recorded decision. -/
theorem faithful_of_reaches {s : System} (h : Reaches System.next Undisturbed {} s) : Faithful s := by
  have hinv : Inv s := h.invariant trivial fun st event st' _ hst hok hnext => hst.next hok hnext
  unfold Faithful
  unfold Inv at hinv
  split
  · rename_i calls approved denied hphase
    rw [hphase] at hinv
    exact hinv
  · trivial

def sampleCall : ToolCall := ⟨"toolu_1","core.http_request",[("url",.str "https://example.com")]⟩

def rejection : Submission := ⟨[("toolu_1",.bool false)],some "alice",by decide⟩

def approval : Submission := ⟨[("toolu_1",.bool true)],some "bob",by decide⟩

/-- A turn whose call is rejected while the request is recorded, up to the execution of the tools. -/
def rejectedTurn : List Event :=
  [.turnEnded true [sampleCall],.submit rejection,.requestsRecorded,.ready,.decisionsApplied]

def disturbedTurn : List Event :=
  [.turnEnded true [sampleCall],.submit rejection,.requestsRecorded,.ready,.submit approval,.decisionsApplied]

def stateAfter (events : List Event) : System := (follow System.next {} events).getD {}

theorem rejectedTurn_faithful : Faithful (stateAfter rejectedTurn) := by
  apply faithful_of_reaches
  have h1 : Reaches System.next Undisturbed {} (stateAfter (rejectedTurn.take 1)) :=
    .step (a := .turnEnded true [sampleCall]) .refl trivial rfl
  have h2 : Reaches System.next Undisturbed {} (stateAfter (rejectedTurn.take 2)) := h1.step (a := .submit rejection) trivial rfl
  have h3 : Reaches System.next Undisturbed {} (stateAfter (rejectedTurn.take 3)) := h2.step (a := .requestsRecorded) trivial rfl
  have h4 : Reaches System.next Undisturbed {} (stateAfter (rejectedTurn.take 4)) := h3.step (a := .ready) trivial rfl
  exact h4.step (a := .decisionsApplied) trivial rfl

/-- A call is executed whose recorded decision is a rejection. -/
theorem disturbedTurn_unfaithful : ¬ ∀ s, Reachable System.next {} s → Faithful s := by
  intro h
  have hstate : follow System.next {} disturbedTurn = some (stateAfter disturbedTurn) := rfl
  obtain ⟨submission,decision,hused,hlookup,⟨row,hrow⟩,-,-⟩ :=
    h _ (reachable_of_follow hstate) sampleCall List.mem_cons_self
  cases hused
  cases hlookup
  have hstatus : some ApprovalStatus.rejected = some .approved := congrArg (Option.map Approval.status) hrow
  cases hstatus

end Approvals
end Allama

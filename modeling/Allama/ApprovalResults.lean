import Allama.ApprovalRuns
import Allama.ApprovalTurn
import Allama.HistoryRewrite

/-! Turns whose requested calls all have one result. -/
namespace Allama
namespace ApprovalTurn
open AgentStream Approvals Runs Sandbox SessionHistory
section Messages

def afterMessages (result : LoopbackResult) (requests : List (List ToolCallContent)) : LoopbackResult :=
  match requests.getLast? with
  | none => result
  | some items => {result with approvalRequested := true, approvalItems := items}

def itemsOf : RuntimeMessage → Option (List ToolCallContent)
  | .streamEvent event => if event.type = .approvalRequest then some (event.approvalItems.getD []) else none
  | _ => none

theorem requestOf_eq (message : RuntimeMessage) : requestOf message = (itemsOf message).map (List.map toCall) := by
  cases message with
  | streamEvent event =>
    rw [requestOf, itemsOf]
    split <;> rfl
  | _ => rfl

theorem process_of_goesOn {message : RuntimeMessage} (h : endsLoop message = false) (handler : Handler) :
    (∀ items, (handler.process message).phase ≠ .appending items true) ∧
      (handler.process message).result = afterMessages handler.result (itemsOf message).toList := by
  cases message with
  | streamEvent event =>
    have hne : ¬ event.type = .error := of_decide_eq_false h
    rw [Handler.process, if_neg hne, itemsOf]
    split
    · exact ⟨nofun,rfl⟩
    · exact ⟨nofun,rfl⟩
  | error error => cases h
  | done => cases h
  | other => exact ⟨nofun,rfl⟩

theorem afterMessages_append (result : LoopbackResult) (requests requests' : List (List ToolCallContent)) :
    afterMessages (afterMessages result requests) requests' = afterMessages result (requests ++ requests') := by
  cases hlast : requests'.getLast? with
  | none =>
    obtain rfl := List.getLast?_eq_none_iff.mp hlast
    rw [List.append_nil]
    rfl
  | some items =>
    have happend : (requests ++ requests').getLast? = some items := by
      rw [List.getLast?_append, hlast]
      rfl
    simp only [afterMessages, hlast, happend]
    cases requests.getLast? <;> rfl

theorem readMessages_eq {messages : List RuntimeMessage} (h : ∀ message ∈ messages, endsLoop message = false)
    (handler : Handler) :
    (readMessages handler (messages ++ [.done])).result = afterMessages handler.result (messages.filterMap itemsOf) := by
  induction messages generalizing handler with
  | nil => rfl
  | cons message messages ih =>
    obtain ⟨hgoes,hresult⟩ := process_of_goesOn (h message List.mem_cons_self) handler
    have htail := ih (fun later hlater => h later (List.mem_cons_of_mem _ hlater)) (handler.process message)
    have hread : readMessages handler (message :: messages ++ [.done]) =
        readMessages (handler.process message) (messages ++ [.done]) := by
      rw [List.cons_append, readMessages]
      split
      · rename_i items hphase
        exact absurd hphase (hgoes items)
      · rfl
    rw [hread, htail, hresult, afterMessages_append]
    cases hitems : itemsOf message with
    | none => rw [List.filterMap_cons_none hitems]; rfl
    | some items => rw [List.filterMap_cons_some hitems]; rfl

theorem turnResult_calls {messages : List RuntimeMessage} (h : ∀ message ∈ messages, endsLoop message = false) :
    (turnResult messages).approvalItems.map toCall = lastRequest messages := by
  have hrequests : messages.filterMap requestOf = (messages.filterMap itemsOf).map (List.map toCall) := by
    rw [List.map_filterMap]
    exact congrArg (messages.filterMap ·) (funext requestOf_eq)
  rw [turnResult, readMessages_eq h, lastRequest, hrequests, List.getLast?_map, afterMessages]
  cases (messages.filterMap itemsOf).getLast? <;> rfl

theorem lastRequest_subset {messages : List RuntimeMessage} : ∀ call ∈ lastRequest messages, call ∈ requestedCalls messages := by
  intro call hcall
  rw [lastRequest] at hcall
  cases hlast : (messages.filterMap requestOf).getLast? with
  | none =>
    rw [hlast] at hcall
    cases hcall
  | some calls =>
    rw [hlast] at hcall
    exact List.mem_flatten.mpr ⟨calls,List.mem_of_getLast? hlast,hcall⟩

end Messages

section Decisions
variable {s s' : Approvals.System} {calls : List ToolCall}

/-- From the end of a turn to the lists, its calls are expected, and they are decided once the manager is ready. -/
def Pending (calls : List ToolCall) (s : Approvals.System) : Prop :=
  match s.phase with
  | .recording calls' | .waiting calls' => calls' = calls ∧ (calls ≠ [] → Expecting s calls ∧ (s.manager.status = .ready → Decided s calls))
  | .persisting calls' _ => calls' = calls ∧ (calls ≠ [] → Expecting s calls ∧ Decided s calls)
  | .finished => True
  | _ => builtLists s.phase ≠ none

theorem Pending.submit (h : Pending calls s) (submission : Submission) : Pending calls (s.submit submission) := by
  rcases submit_eq s submission with hsame | ⟨hvalid,hsubmit⟩
  · rw [hsame]
    exact h
  · rw [hsubmit]
    unfold Pending at h ⊢
    cases hphase : s.phase with
    | recording calls' =>
      rw [hphase] at h
      exact ⟨h.1,fun hne => ⟨⟨(h.2 hne).1.expected,(h.2 hne).1.prepared⟩,fun _ => (h.2 hne).1.decided hvalid⟩⟩
    | waiting calls' =>
      rw [hphase] at h
      exact ⟨h.1,fun hne => ⟨⟨(h.2 hne).1.expected,(h.2 hne).1.prepared⟩,fun _ => (h.2 hne).1.decided hvalid⟩⟩
    | persisting calls' decisions =>
      rw [hphase] at h
      exact ⟨h.1,fun hne => ⟨⟨(h.2 hne).1.expected,(h.2 hne).1.prepared⟩,(h.2 hne).1.decided hvalid⟩⟩
    | _ =>
      rw [hphase] at h
      exact h

theorem builtLists_buildLists (s : Approvals.System) (calls : List ToolCall) :
    builtLists (s.buildLists calls).phase = some (buildToolLists s.manager.approvals calls) := by
  rw [Approvals.System.buildLists]
  dsimp only
  split
  · rename_i hnone
    obtain ⟨happroved,hdenied⟩ := Bool.and_eq_true_iff.mp hnone
    rw [List.isEmpty_iff] at happroved hdenied
    rw [builtLists, ← happroved, ← hdenied]
  · rfl

theorem pending_of_built (h : builtLists s.phase ≠ none) : Pending calls s := by
  unfold Pending
  cases hphase : s.phase with
  | executing calls' approved denied => nofun
  | reloading => nofun
  | finished => trivial
  | _ =>
    rw [hphase] at h
    exact absurd rfl h

/-- What the lists are built of. -/
structure Built (calls : List ToolCall) (s s' : Approvals.System) : Prop where
  lists : builtLists s'.phase = some (buildToolLists s.manager.approvals calls)
  expected : s'.manager.expectedToolCalls = s.manager.expectedToolCalls
  used : s'.used = s.accepted
  turn : s'.turn = s.turn

theorem built_buildLists (s : Approvals.System) (calls : List ToolCall) : Built calls s (s.buildLists calls) :=
  ⟨builtLists_buildLists s calls,rfl,rfl,rfl⟩

/-- A step keeps what is pending, or builds the lists. -/
theorem Pending.next (h : Pending calls s) {event : Approvals.Event} (hok : WithinTurn s event)
    (hnext : s.next event = some s') : Pending calls s' ∧
      (builtLists s.phase = none → builtLists s'.phase ≠ none →
        Built calls s s' ∧ (calls ≠ [] → Expecting s calls ∧ Decided s calls)) := by
  cases event with
  | submit submission =>
    unfold Approvals.System.next at hnext
    dsimp only at hnext
    split at hnext
    · cases hnext
    · cases hnext
      refine ⟨h.submit submission,fun hnone hsome => absurd ?_ hsome⟩
      rcases submit_eq s submission with hsame | ⟨-,hsubmit⟩
      · rw [hsame, hnone]
      · rw [hsubmit, hnone]
  | turnEnded approvalRequested calls' =>
    unfold Approvals.System.next at hnext
    dsimp only at hnext
    split at hnext
    · rename_i hphase
      unfold Pending at h
      rw [hphase] at h
      exact absurd rfl h
    · cases hnext
  | requestsRecorded =>
    unfold Approvals.System.next at hnext
    dsimp only at hnext
    split at hnext
    · rename_i calls' hphase
      cases hnext
      unfold Pending at h
      rw [hphase] at h
      exact ⟨⟨h.1,fun hne => ⟨⟨(h.2 hne).1.expected,(h.2 hne).1.prepared⟩,(h.2 hne).2⟩⟩,fun _ hsome => absurd rfl hsome⟩
    · cases hnext
  | ready =>
    unfold Approvals.System.next at hnext
    dsimp only at hnext
    split at hnext
    · rename_i calls' hphase
      unfold Pending at h
      rw [hphase] at h
      obtain ⟨rfl,hpending⟩ := h
      split at hnext
      · rename_i hready
        split at hnext
        · cases hnext
          refine ⟨pending_of_built (by rw [builtLists_buildLists]; nofun),fun _ _ => ⟨built_buildLists s calls',?_⟩⟩
          exact fun hne => ⟨(hpending hne).1,(hpending hne).2 hready⟩
        · cases hnext
          refine ⟨⟨rfl,fun hne => ⟨⟨(hpending hne).1.expected,(hpending hne).1.prepared⟩,(hpending hne).2 hready⟩⟩,?_⟩
          exact fun _ hsome => absurd rfl hsome
      · cases hnext
    · cases hnext
  | decisionsApplied =>
    unfold Approvals.System.next at hnext
    dsimp only at hnext
    split at hnext
    · rename_i calls' decisions hphase
      cases hnext
      unfold Pending at h
      rw [hphase] at h
      obtain ⟨rfl,hpending⟩ := h
      refine ⟨pending_of_built (by rw [builtLists_buildLists]; nofun),fun _ _ => ⟨?_,hpending⟩⟩
      exact ⟨builtLists_buildLists ..,rfl,rfl,rfl⟩
    · cases hnext
  | toolsExecuted =>
    unfold Approvals.System.next at hnext
    dsimp only at hnext
    split at hnext
    · rename_i calls' approved denied hphase
      cases hnext
      exact ⟨pending_of_built nofun,fun hnone => by rw [hphase] at hnone; cases hnone⟩
    · cases hnext
  | sessionReloaded => exact hok.elim

theorem pending_of_turnEnded {approvalRequested : Bool} (h : s.next (.turnEnded approvalRequested calls) = some s') :
    Pending calls s' := by
  unfold Approvals.System.next at h
  dsimp only at h
  split at h
  · split at h
    · split at h
      · rename_i hnil
        cases h
        exact ⟨hnil.symm,fun hne => absurd hnil hne⟩
      · cases h
        exact ⟨rfl,fun _ => ⟨⟨rfl,rfl⟩,nofun⟩⟩
    · cases h
      trivial
  · cases h

theorem Turn.built_of_lastRequest (turn : Turn) : Built (lastRequest turn.messages) turn.deciding turn.built ∧
    (lastRequest turn.messages ≠ [] →
      Expecting turn.deciding (lastRequest turn.messages) ∧ Decided turn.deciding (lastRequest turn.messages)) := by
  have hends := turn.ends
  rw [turnResult_calls turn.calm] at hends
  have hfirst := pending_of_turnEnded hends
  have hpending := turn.reached.invariant hfirst fun st a st' _ hP hok hnext => (hP.next hok hnext).1
  have hwithin : WithinTurn turn.deciding turn.event := by
    cases hevent : turn.event with
    | sessionReloaded =>
      have hbuilds := turn.builds
      rw [hevent] at hbuilds
      unfold Approvals.System.next at hbuilds
      dsimp only at hbuilds
      split at hbuilds
      · rename_i hphase
        have hunbuilt := turn.unbuilt
        rw [hphase] at hunbuilt
        cases hunbuilt
      · cases hbuilds
    | _ => trivial
  have hsome : builtLists turn.built.phase ≠ none := by
    rw [turn.lists]
    nofun
  exact (hpending.next hwithin turn.builds).2 turn.unbuilt hsome

end Decisions

section Tools
variable {execute : ApprovedToolCall → ActionOutcome} {appendError : ℕ → Option String}

/-- A tool that is executed or denied. -/
abbrev Tool := ApprovedToolCall ⊕ DeniedToolCall

variable {tool : Tool} {tools : List Tool} {activity : Activity}

def toolId : Tool → String
  | .inl call => call.toolCallId
  | .inr call => call.toolCallId

def toolResult (execute : ApprovedToolCall → ActionOutcome) : Tool → ToolResult := Sum.elim (executionResult execute) denialResult

theorem toolResult_id (tool : Tool) : (toolResult execute tool).toolCallId = toolId tool := by
  cases tool with
  | inl call =>
    change (executionResult execute call).toolCallId = call.toolCallId
    rw [executionResult]
    split <;> rfl
  | inr call => rfl

def treatTool (execute : ApprovedToolCall → ActionOutcome) (appendError : ℕ → Option String) (activity : Activity) :
    Tool → Except String Activity :=
  Sum.elim (executeTool execute appendError activity) (denyTool appendError activity)

def toolsOf (approved : List ApprovedToolCall) (denied : List DeniedToolCall) : List Tool :=
  approved.map Sum.inl ++ denied.map Sum.inr

theorem executeApprovedTools_eq (approved : List ApprovedToolCall) (denied : List DeniedToolCall) :
    executeApprovedTools execute appendError approved denied =
      (toolsOf approved denied).foldlM (treatTool execute appendError) {} := by
  rw [toolsOf, List.foldlM_append, List.foldlM_map, executeApprovedTools]
  congr 1
  funext activity
  rw [List.foldlM_map]
  rfl

/-- What a list of tools adds to the activity: at least one result for each, and one for each append. -/
structure Adds (execute : ApprovedToolCall → ActionOutcome) (appendError : ℕ → Option String) (tools : List Tool)
    (activity final : Activity) (added : List ToolResult) : Prop where
  results : final.results = activity.results ++ added
  appends : final.appends = activity.appends + added.length
  executed : final.executed = activity.executed ++ tools.filterMap Sum.getLeft?
  each : (tools.map (toolResult execute)).Sublist added
  ids : ∀ result ∈ added, result.toolCallId ∈ tools.map toolId
  sound : added.length = tools.length → ∀ i < tools.length, appendError (activity.appends + i) = none

/-- A tool adds its result, and a second one after an error of the stream. -/
theorem treatTool_ok {next : Activity} (h : treatTool execute appendError activity tool = .ok next) :
    ∃ added, Adds execute appendError [tool] activity next added := by
  have hhead : ∀ result : ToolResult, result.toolCallId = toolId tool → result.toolCallId ∈ [tool].map toolId := by
    intro result hid
    rw [hid]
    exact List.mem_singleton_self _
  have hone : ∀ executed, appendError activity.appends = none →
      next = ⟨activity.results ++ [toolResult execute tool],activity.appends+1,executed⟩ →
      executed = activity.executed ++ [tool].filterMap Sum.getLeft? →
      ∃ added, Adds execute appendError [tool] activity next added := by
    rintro executed hnone rfl hexecuted
    refine ⟨[toolResult execute tool],rfl,rfl,hexecuted,List.Sublist.refl _,?_,?_⟩
    · intro result hresult
      rw [List.mem_singleton.mp hresult]
      exact hhead _ (toolResult_id tool)
    · intro _ i hi
      obtain rfl : i = 0 := by simpa using hi
      exact hnone
  cases tool with
  | inl call =>
    change executeTool execute appendError activity call = .ok next at h
    unfold executeTool Activity.emit at h
    dsimp only at h
    cases happend : appendError activity.appends with
    | none =>
      rw [happend] at h
      refine hone _ happend ?_ rfl
      cases hexecute : execute call <;> rw [hexecute] at h <;> exact (Except.ok.inj h).symm
    | some error =>
      rw [happend] at h
      cases hexecute : execute call with
      | value value =>
        rw [hexecute] at h
        dsimp only at h
        split at h
        swap
        · cases h
        rename_i emitted hemitted
        cases h
        obtain ⟨rfl,-⟩ := Prod.mk.inj hemitted
        refine ⟨[executionResult execute call,⟨call.toolCallId,call.toolName,.str ("Unexpected error: " ++ error),true⟩],?_,rfl,
          rfl,?_,?_,?_⟩
        · simp
        · exact (List.Sublist.refl _).cons_cons _ |>.trans (by simp [toolResult])
        · intro result hresult
          rcases List.mem_pair.mp hresult with rfl | rfl
          · exact hhead _ (toolResult_id (.inl call))
          · exact hhead _ rfl
        · intro hlength
          cases hlength
      | actionError text =>
        rw [hexecute] at h
        cases h
      | unexpected text =>
        rw [hexecute] at h
        cases h
  | inr call =>
    change denyTool appendError activity call = .ok next at h
    unfold denyTool Activity.emit at h
    cases happend : appendError activity.appends with
    | none =>
      rw [happend] at h
      exact hone _ happend (Except.ok.inj h).symm (List.append_nil _).symm
    | some error =>
      rw [happend] at h
      cases h

theorem treatTool_of_none (h : appendError activity.appends = none) :
    treatTool execute appendError activity tool = .ok ⟨activity.results ++ [toolResult execute tool],activity.appends+1,
      activity.executed ++ [tool].filterMap Sum.getLeft?⟩ := by
  cases tool with
  | inl call =>
    change executeTool execute appendError activity call = _
    unfold executeTool Activity.emit
    dsimp only
    rw [h]
    cases execute call <;> rfl
  | inr call =>
    change denyTool appendError activity call = _
    unfold denyTool Activity.emit
    rw [h]
    simp [toolResult]

theorem Adds.cons {middle final : Activity} {first added : List ToolResult}
    (h : Adds execute appendError [tool] activity middle first)
    (h' : Adds execute appendError tools middle final added) :
    Adds execute appendError (tool :: tools) activity final (first ++ added) where
  results := by rw [h'.results, h.results, List.append_assoc]
  appends := by rw [h'.appends, h.appends, List.length_append, Nat.add_assoc]
  executed := by
    rw [h'.executed, h.executed, List.append_assoc, ← List.filterMap_append]
    rfl
  each := by
    rw [← List.singleton_append, List.map_append]
    exact h.each.append h'.each
  ids := by
    intro result hresult
    rcases List.mem_append.mp hresult with hresult | hresult
    · rw [List.mem_singleton.mp (h.ids result hresult)]
      exact List.mem_cons_self
    · exact List.mem_cons_of_mem _ (h'.ids result hresult)
  sound := by
    intro hlength i hi
    have hfirst := h.each.length_le
    have hadded := h'.each.length_le
    simp only [List.length_append, List.length_cons, List.length_map, List.length_nil] at hlength hfirst hadded hi
    have hlength' : first.length = [tool].length := by
      rw [List.length_singleton]
      omega
    cases i with
    | zero => exact h.sound hlength' 0 Nat.zero_lt_one
    | succ i =>
      have hnone := h'.sound (by omega) i (by omega)
      rw [h.appends, hlength', List.length_singleton] at hnone
      rw [← hnone]
      congr 1
      omega

theorem runTools_ok {final : Activity}
    (h : tools.foldlM (treatTool execute appendError) activity = .ok final) :
    ∃ added, Adds execute appendError tools activity final added := by
  induction tools generalizing activity with
  | nil =>
    cases h
    exact ⟨[],(List.append_nil _).symm,rfl,(List.append_nil _).symm,List.Sublist.refl _,nofun,fun _ i hi => absurd hi (by simp)⟩
  | cons tool tools ih =>
    rw [List.foldlM_cons] at h
    obtain ⟨middle,hmiddle,hrest⟩ := Checked.bind_eq_ok.mp h
    obtain ⟨first,hfirst⟩ := treatTool_ok hmiddle
    obtain ⟨added,hadded⟩ := ih hrest
    exact ⟨first ++ added,hfirst.cons hadded⟩

theorem runTools_of_none (h : ∀ i < tools.length, appendError (activity.appends + i) = none) :
    tools.foldlM (treatTool execute appendError) activity =
      .ok ⟨activity.results ++ tools.map (toolResult execute),activity.appends + tools.length,
        activity.executed ++ tools.filterMap Sum.getLeft?⟩ := by
  induction tools generalizing activity with
  | nil =>
    rw [List.map_nil, List.filterMap_nil, List.append_nil, List.append_nil]
    rfl
  | cons tool tools ih =>
    have hfirst : appendError activity.appends = none := h 0 (by simp)
    rw [List.foldlM_cons, treatTool_of_none hfirst]
    refine (ih fun i hi => ?_).trans ?_
    · have hnone := h (i+1) (by simpa using hi)
      rw [← hnone]
      congr 1
      dsimp only
      omega
    · dsimp only
      rw [List.append_assoc, List.append_assoc, ← List.filterMap_append, List.length_cons, Nat.add_assoc, Nat.add_comm 1]
      rfl

theorem partition_perm {A B : Type} (xs : List (A ⊕ B)) :
    ((xs.filterMap Sum.getLeft?).map Sum.inl ++ (xs.filterMap Sum.getRight?).map Sum.inr).Perm xs := by
  induction xs with
  | nil => exact .nil
  | cons x xs ih =>
    cases x with
    | inl a => exact ih.cons _
    | inr b => exact List.perm_middle.trans (ih.cons _)

theorem toolsOf_perm (approvals : List (String × Decision)) (calls : List ToolCall) :
    (toolsOf (buildToolLists approvals calls).1 (buildToolLists approvals calls).2).Perm
      (calls.map fun call => treat call (approvals.lookup call.id)) :=
  partition_perm _

theorem toolId_treat (call : ToolCall) (decision : Option Decision) : toolId (treat call decision) = call.id := by
  cases htreat : treat call decision with
  | inl tool => exact (treat_inl htreat).1
  | inr tool => exact (treat_inr htreat).1

theorem treat_isLeft (call : ToolCall) (decision : Decision) : (treat call (some decision)).isLeft = decision.approves := by
  cases decision with
  | bool value => cases value <;> rfl
  | approved overrideArgs => rfl
  | denied message => rfl

theorem toolIds_perm (approvals : List (String × Decision)) (calls : List ToolCall) :
    ((toolsOf (buildToolLists approvals calls).1 (buildToolLists approvals calls).2).map toolId).Perm
      (calls.map ToolCall.id) := by
  have hids : (calls.map fun call => treat call (approvals.lookup call.id)).map toolId = calls.map ToolCall.id := by
    rw [List.map_map]
    exact List.map_congr_left fun call _ => toolId_treat call _
  rw [← hids]
  exact (toolsOf_perm approvals calls).map toolId

theorem executed_count {approvals : List (String × Decision)} {calls : List ToolCall} {call : ToolCall} {decision : Decision}
    (h : approvals.lookup call.id = some decision) :
    ((toolsOf (buildToolLists approvals calls).1 (buildToolLists approvals calls).2).filterMap Sum.getLeft?).countP
        (·.toolCallId = call.id) =
      if decision.approves then (calls.map ToolCall.id).count call.id else 0 := by
  have hleft (tools : List Tool) : (tools.filterMap Sum.getLeft?).countP (·.toolCallId = call.id) =
      tools.countP fun tool => tool.isLeft && toolId tool = call.id := by
    rw [List.countP_filterMap]
    apply List.countP_congr
    rintro (tool | tool) -
    · exact Iff.rfl
    · exact Iff.rfl
  rw [hleft, (toolsOf_perm approvals calls).countP_eq, List.countP_map, List.count, List.countP_map]
  by_cases happroves : decision.approves = true
  · rw [if_pos happroves]
    apply List.countP_congr
    intro other _
    simp only [Function.comp_apply, toolId_treat, Bool.and_eq_true, decide_eq_true_eq, beq_iff_eq]
    refine ⟨And.right,fun hid => ⟨?_,hid⟩⟩
    rw [hid, h, treat_isLeft, happroves]
  · rw [if_neg happroves, List.countP_eq_zero]
    intro other _ htrue
    simp only [Function.comp_apply, toolId_treat, Bool.and_eq_true, decide_eq_true_eq] at htrue
    rw [htrue.2, h, treat_isLeft] at htrue
    exact happroves htrue.1

end Tools

section History
variable {dumps : Value → String} {uuid : String} {results : List ToolResult} {history : List HistoryLine}
variable {toolCallIds toolCallIds' : List String}

theorem isInterrupt_congr (h : ∀ id, id ∈ toolCallIds ↔ id ∈ toolCallIds') (line : HistoryLine) :
    isInterrupt toolCallIds line = isInterrupt toolCallIds' line := by
  have hblock : isInterruptBlock toolCallIds = isInterruptBlock toolCallIds' := by
    funext block
    cases block <;> simp [isInterruptBlock, h]
  rw [isInterrupt, isInterrupt, hblock]

theorem lastUse_congr (h : ∀ id, id ∈ toolCallIds ↔ id ∈ toolCallIds') (history : List HistoryLine) :
    lastUse toolCallIds history = lastUse toolCallIds' history := by
  have huses : ∀ line, usesTool toolCallIds line = usesTool toolCallIds' line := fun line =>
    Bool.eq_iff_iff.mpr ⟨usesTool_mono fun id => (h id).mp,usesTool_mono fun id => (h id).mpr⟩
  induction history with
  | nil => rfl
  | cons line lines ih => rw [lastUse, lastUse, ih, huses line]

theorem history_once_iff (hc : Coherent uuid history) (hids : ∀ id, id ∈ results.map ToolResult.toolCallId ↔ id ∈ toolCallIds)
    (hdistinct : (results.map ToolResult.toolCallId).Nodup) (hne : results ≠ [])
    (hused : ∀ id ∈ toolCallIds, ∃ line ∈ history, usesTool [id] line = true) :
    (∀ id ∈ toolCallIds, resultCount id (replaceInterrupt dumps uuid results history).history = 1) ↔
      FreeOfResults toolCallIds history := by
  obtain ⟨result,hresult⟩ := List.exists_mem_of_ne_nil _ hne
  obtain ⟨before,anchor,after,anchorUuid,hlast,-,-,hrewrite⟩ := replaceInterrupt_eq dumps hc hresult
    (hused _ ((hids _).mp (List.mem_map_of_mem hresult)))
  have hcounts : (∀ id ∈ toolCallIds, resultCount id (replaceInterrupt dumps uuid results history).history = 1) ↔
      ∀ result ∈ results, resultCount result.toolCallId (replaceInterrupt dumps uuid results history).history = 1 := by
    constructor
    · exact fun h result hresult => h _ ((hids _).mp (List.mem_map_of_mem hresult))
    · intro h id hid
      obtain ⟨result,hresult,rfl⟩ := List.mem_map.mp ((hids id).mpr hid)
      exact h result hresult
  rw [hcounts, hrewrite, FreeOfResults, ← lastUse_congr hids, hlast]
  refine (once_iff hdistinct).trans ?_
  simp only [isInterrupt_congr hids, hids]
  constructor
  · rintro h before' anchor' after' heq
    cases heq
    exact h
  · exact fun h => h before anchor after rfl

end History

section Turns
variable {execute : ApprovedToolCall → ActionOutcome} {appendError : ℕ → Option String} {dumps : Value → String} {uuid : String}
variable {history : List HistoryLine} {turn : Turn}

theorem Turn.tools_eq (turn : Turn) : ∃ approvals,
    toolsOf turn.approved turn.denied =
      toolsOf (buildToolLists approvals (lastRequest turn.messages)).1 (buildToolLists approvals (lastRequest turn.messages)).2 ∧
    (lastRequest turn.messages ≠ [] → turn.built.manager.expectedToolCalls = lastRequest turn.messages ∧
      ∃ submission, turn.built.used = some ⟨submission,turn.built.turn⟩ ∧ submission.approvals = approvals ∧
        ∀ call ∈ lastRequest turn.messages, ∃ decision, approvals.lookup call.id = some decision) := by
  obtain ⟨hbuilt,hdecided⟩ := turn.built_of_lastRequest
  refine ⟨turn.deciding.manager.approvals,?_,fun hne => ?_⟩
  · have hlists := Option.some.inj (turn.lists.symm.trans hbuilt.lists)
    rw [← hlists]
  · obtain ⟨hexpecting,submission,haccepted,happrovals,-,hdecides⟩ := hdecided hne
    refine ⟨hbuilt.expected.trans hexpecting.expected,submission,?_,happrovals.symm,?_⟩
    · rw [hbuilt.used, haccepted, hbuilt.turn]
    · rw [happrovals]
      exact hdecides

theorem CallSettled.count {call : ToolCall} (h : CallSettled execute appendError dumps uuid history turn call) :
    call ∈ lastRequest turn.messages ∧ ((lastRequest turn.messages).map ToolCall.id).count call.id = 1 := by
  obtain ⟨approvals,htools,hturn⟩ := turn.tools_eq
  obtain ⟨submission,decision,activity,-,-,hrun,hresult,honce,-,-⟩ := h.settled
  rw [executeApprovedTools_eq, htools] at hrun
  obtain ⟨added,hadds⟩ := runTools_ok hrun
  have hresults : activity.results = added := hadds.results
  rw [hresults] at hresult honce
  have hids := toolIds_perm approvals (lastRequest turn.messages)
  have hmem : call.id ∈ (lastRequest turn.messages).map ToolCall.id := by
    have hid := hadds.ids _ hresult
    have hsame : (resultOf execute call decision).toolCallId = call.id := by
      have htreat : (toolResult execute (treat call (some decision))).toolCallId = call.id :=
        (toolResult_id _).trans (toolId_treat call _)
      exact htreat
    rw [hsame] at hid
    exact hids.mem_iff.mp hid
  have hne : lastRequest turn.messages ≠ [] := by
    rintro hnil
    rw [hnil] at hmem
    cases hmem
  refine ⟨(hturn hne).1 ▸ h.prepared,le_antisymm ?_ (List.one_le_count_iff.mpr hmem)⟩
  have hcount : ((lastRequest turn.messages).map ToolCall.id).count call.id ≤ added.countP (·.toolCallId = call.id) := by
    rw [← hids.count_eq]
    refine le_trans (le_of_eq ?_) (hadds.each.countP_le)
    rw [List.countP_map, List.count, List.countP_map]
    apply List.countP_congr
    intro tool _
    simp [toolResult_id]
  omega

/-- The results of a turn whose calls are all settled are those of its tools, without an error of the stream. -/
theorem appends_of_settled (hcalls : requestedCalls turn.messages ≠ [])
    (h : ∀ call ∈ requestedCalls turn.messages, CallSettled execute appendError dumps uuid history turn call) :
    ∀ i < (lastRequest turn.messages).length, appendError i = none := by
  obtain ⟨approvals,htools,-⟩ := turn.tools_eq
  obtain ⟨first,hfirst⟩ := List.exists_mem_of_ne_nil _ hcalls
  obtain ⟨_,_,activity,-,-,hrun,-⟩ := (h first hfirst).settled
  have hids := toolIds_perm approvals (lastRequest turn.messages)
  have honce : ∀ id ∈ (lastRequest turn.messages).map ToolCall.id, activity.results.countP (·.toolCallId = id) = 1 ∧
      ((lastRequest turn.messages).map ToolCall.id).count id = 1 := by
    intro id hid
    obtain ⟨call,hcall,rfl⟩ := List.mem_map.mp hid
    have hsettled := h call (lastRequest_subset call hcall)
    obtain ⟨_,_,other,-,-,hother,-,hcount,-⟩ := hsettled.settled
    obtain rfl := Except.ok.inj (hrun.symm.trans hother)
    exact ⟨hcount,hsettled.count.2⟩
  rw [executeApprovedTools_eq, htools] at hrun
  obtain ⟨added,hadds⟩ := runTools_ok hrun
  have hresults : activity.results = added := hadds.results
  rw [hresults] at honce
  have hadded : ∀ id ∈ added.map ToolResult.toolCallId, id ∈ (lastRequest turn.messages).map ToolCall.id := by
    intro id hid
    obtain ⟨result,hresult,rfl⟩ := List.mem_map.mp hid
    exact hids.mem_iff.mp (hadds.ids result hresult)
  have hcount : ∀ id, (added.map ToolResult.toolCallId).count id = added.countP (·.toolCallId = id) := by
    intro id
    rw [List.count, List.countP_map]
    apply List.countP_congr
    intro result _
    simp
  -- both lists of ids have each id of the request once
  have hperm : (added.map ToolResult.toolCallId).Perm ((lastRequest turn.messages).map ToolCall.id) := by
    rw [List.perm_iff_count]
    intro id
    by_cases hid : id ∈ (lastRequest turn.messages).map ToolCall.id
    · rw [hcount, (honce id hid).1, (honce id hid).2]
    · rw [List.count_eq_zero_of_not_mem hid, List.count_eq_zero_of_not_mem fun hmem => hid (hadded id hmem)]
  have hlength := hperm.length_eq
  have htoolsLength := hids.length_eq
  simp only [List.length_map] at hlength htoolsLength
  intro i hi
  have hnone := hadds.sound (hlength.trans htoolsLength.symm) i (by omega)
  rw [← hnone]
  exact congrArg appendError (Nat.zero_add i).symm

/-- Each call for which approval is requested is settled if and only if the last request of the turn has each of them once,
the results can be appended to the stream, and the history is free of other results. -/
theorem settled_iff (hc : Coherent uuid history)
    (hused : ∀ call ∈ requestedCalls turn.messages, ∃ line ∈ history, usesTool [call.id] line = true) :
    (∀ call ∈ requestedCalls turn.messages, CallSettled execute appendError dumps uuid history turn call) ↔
      (∀ call ∈ requestedCalls turn.messages, call ∈ lastRequest turn.messages ∧
        ((lastRequest turn.messages).map ToolCall.id).count call.id = 1) ∧
      (requestedCalls turn.messages ≠ [] → (∀ i < (lastRequest turn.messages).length, appendError i = none) ∧
        FreeOfResults ((lastRequest turn.messages).map ToolCall.id) history) := by
  have husedIds : ∀ id ∈ (lastRequest turn.messages).map ToolCall.id, ∃ line ∈ history, usesTool [id] line = true := by
    intro id hid
    obtain ⟨call,hcall,rfl⟩ := List.mem_map.mp hid
    exact hused call (lastRequest_subset call hcall)
  obtain ⟨approvals,htools,hturn⟩ := turn.tools_eq
  have hids := toolIds_perm approvals (lastRequest turn.messages)
  -- the activity without an error of the stream
  have hrun : (∀ i < (lastRequest turn.messages).length, appendError i = none) →
      executeApprovedTools execute appendError turn.approved turn.denied =
        .ok ⟨(toolsOf turn.approved turn.denied).map (toolResult execute),(toolsOf turn.approved turn.denied).length,
          (toolsOf turn.approved turn.denied).filterMap Sum.getLeft?⟩ := by
    intro happends
    have hlength := hids.length_eq
    rw [← htools, List.length_map, List.length_map] at hlength
    rw [executeApprovedTools_eq, runTools_of_none]
    · rw [Nat.zero_add]
      rfl
    · intro i hi
      rw [Nat.zero_add]
      exact happends i (by omega)
  have hresultIds : ((toolsOf turn.approved turn.denied).map (toolResult execute)).map ToolResult.toolCallId =
      (toolsOf turn.approved turn.denied).map toolId := by
    rw [List.map_map]
    exact List.map_congr_left fun tool _ => toolResult_id tool
  have hresultPerm : (((toolsOf turn.approved turn.denied).map (toolResult execute)).map ToolResult.toolCallId).Perm
      ((lastRequest turn.messages).map ToolCall.id) := by
    rw [hresultIds, htools]
    exact hids
  have hfree : lastRequest turn.messages ≠ [] → ((lastRequest turn.messages).map ToolCall.id).Nodup →
      ((∀ id ∈ (lastRequest turn.messages).map ToolCall.id, resultCount id (replaceInterrupt dumps uuid
        ((toolsOf turn.approved turn.denied).map (toolResult execute)) history).history = 1) ↔
        FreeOfResults ((lastRequest turn.messages).map ToolCall.id) history) := by
    intro hne hnodup
    refine history_once_iff hc (fun id => hresultPerm.mem_iff) (hresultPerm.nodup_iff.mpr hnodup) ?_ husedIds
    intro hnil
    rw [hnil] at hresultPerm
    exact hne (List.map_eq_nil_iff.mp hresultPerm.nil_eq.symm)
  have hnodup : (∀ call ∈ requestedCalls turn.messages, ((lastRequest turn.messages).map ToolCall.id).count call.id = 1) →
      ((lastRequest turn.messages).map ToolCall.id).Nodup := by
    intro hcounts
    rw [List.nodup_iff_count_le_one]
    intro id
    by_cases hid : id ∈ (lastRequest turn.messages).map ToolCall.id
    · obtain ⟨call,hcall,rfl⟩ := List.mem_map.mp hid
      exact (hcounts call (lastRequest_subset call hcall)).le
    · rw [List.count_eq_zero_of_not_mem hid]
      exact Nat.zero_le 1
  constructor
  · intro h
    refine ⟨fun call hcall => (h call hcall).count,fun hcalls => ?_⟩
    have happends := appends_of_settled hcalls h
    refine ⟨happends,?_⟩
    obtain ⟨first,hfirst⟩ := List.exists_mem_of_ne_nil _ hcalls
    apply (hfree (List.ne_nil_of_mem (h first hfirst).count.1) (hnodup fun call hcall => (h call hcall).count.2)).mp
    intro id hid
    obtain ⟨call,hcall,rfl⟩ := List.mem_map.mp hid
    obtain ⟨_,_,activity,-,-,hactivity,-,-,-,hhistory⟩ := (h call (lastRequest_subset call hcall)).settled
    obtain rfl := Except.ok.inj ((hrun happends).symm.trans hactivity)
    exact hhistory
  · rintro ⟨hcalls,hrest⟩ call hcall
    obtain ⟨happends,hclean⟩ := hrest (List.ne_nil_of_mem hcall)
    obtain ⟨hmem,hcount⟩ := hcalls call hcall
    have hne := List.ne_nil_of_mem hmem
    obtain ⟨hexpected,submission,hsubmission,happrovals,hdecides⟩ := hturn hne
    obtain ⟨decision,hdecision⟩ := hdecides call hmem
    refine ⟨hexpected ▸ hmem,submission,decision,_,hsubmission,happrovals ▸ hdecision,hrun happends,?_,?_,?_,?_⟩
    · apply List.mem_map_of_mem
      rw [htools]
      refine (toolsOf_perm approvals _).mem_iff.mpr (List.mem_map.mpr ⟨call,hmem,?_⟩)
      rw [hdecision]
    · have hcountResults := hresultPerm.count_eq call.id
      rw [hcount, List.count, List.countP_map] at hcountResults
      rw [← hcountResults]
      apply List.countP_congr
      intro result _
      simp
    · dsimp only
      rw [htools, executed_count hdecision, hcount]
    · exact (hfree hne (hnodup fun other hother => (hcalls other hother).2)).mpr hclean call.id (List.mem_map_of_mem hmem)

end Turns

section Samples

def requestMessage (id : String) : RuntimeMessage :=
  .streamEvent {type := .approvalRequest, approvalItems := some [⟨id,"core.http_request",.dict []⟩]}

def requestCall (id : String) : ToolCall := ⟨id,"core.http_request",[]⟩

def approvalOf (id : String) : Submission := ⟨[(id,.bool true)],some "alice",by simp⟩

def eventsOf (id : String) : List Approvals.Event :=
  [.turnEnded true [requestCall id],.submit (approvalOf id),.requestsRecorded,.ready,.decisionsApplied]

theorem eventsOf_reaches (id : String) {s₁ s₄ : Approvals.System} (s₂ s₃ : Approvals.System)
    (h₁ : s₁.next (.submit (approvalOf id)) = some s₂) (h₂ : s₂.next .requestsRecorded = some s₃)
    (h₃ : s₃.next .ready = some s₄) : Reaches Approvals.System.next WithinTurn s₁ s₄ :=
  ((Reaches.refl.step (a := .submit (approvalOf id)) trivial h₁).step (a := .requestsRecorded) trivial h₂).step (a := .ready)
    trivial h₃

def approvedTurn : Turn where
  messages := [requestMessage "toolu_1"]
  calm := by simp [requestMessage, endsLoop, RuntimeMessage.failed]
  before := {}
  ended := stateAfter ((eventsOf "toolu_1").take 1)
  ends := rfl
  deciding := stateAfter ((eventsOf "toolu_1").take 4)
  reached := eventsOf_reaches "toolu_1" (stateAfter ((eventsOf "toolu_1").take 2)) (stateAfter ((eventsOf "toolu_1").take 3)) rfl rfl rfl
  event := .decisionsApplied
  built := stateAfter (eventsOf "toolu_1")
  builds := rfl
  unbuilt := rfl
  approved := [⟨"toolu_1","core.http_request",[]⟩]
  denied := []
  lists := rfl

/-- Two requests, of which the handler keeps the second. -/
def twoRequestsTurn : Turn where
  messages := [requestMessage "toolu_1",requestMessage "toolu_2"]
  calm := by simp [requestMessage, endsLoop, RuntimeMessage.failed]
  before := {}
  ended := stateAfter ((eventsOf "toolu_2").take 1)
  ends := rfl
  deciding := stateAfter ((eventsOf "toolu_2").take 4)
  reached := eventsOf_reaches "toolu_2" (stateAfter ((eventsOf "toolu_2").take 2)) (stateAfter ((eventsOf "toolu_2").take 3)) rfl rfl rfl
  event := .decisionsApplied
  built := stateAfter (eventsOf "toolu_2")
  builds := rfl
  unbuilt := rfl
  approved := [⟨"toolu_2","core.http_request",[]⟩]
  denied := []
  lists := rfl

theorem approvedTurn_settled : CallSettled (fun _ => .value (.str "ok")) (fun _ => none) (fun _ => "") "r1" interruptedHistory
    approvedTurn (requestCall "toolu_1") := by
  have hcalls : requestedCalls approvedTurn.messages = [requestCall "toolu_1"] := rfl
  have hlast : lastRequest approvedTurn.messages = [requestCall "toolu_1"] := rfl
  refine (settled_iff interruptedHistory_coherent (by rw [hcalls]; decide)).mpr ?_ _ List.mem_cons_self
  rw [hcalls, hlast]
  refine ⟨fun call hcall => ⟨hcall,?_⟩,fun _ => ⟨fun _ _ => rfl,?_⟩⟩
  · rw [List.mem_singleton.mp hcall]
    decide
  · intro before anchor after huse
    cases huse
    exact ⟨by decide,by decide⟩

/-- The call of the first request is lost. -/
theorem twoRequestsTurn_unsettled : ¬ ∀ (execute : ApprovedToolCall → ActionOutcome) (appendError : ℕ → Option String)
    (dumps : Value → String) (uuid : String) (history : List HistoryLine) (turn : Turn), Coherent uuid history →
    (∀ call ∈ requestedCalls turn.messages, ∃ line ∈ history, usesTool [call.id] line = true) →
    ∀ call ∈ requestedCalls turn.messages, CallSettled execute appendError dumps uuid history turn call := by
  intro h
  have hcalls : requestedCalls twoRequestsTurn.messages = [requestCall "toolu_1",requestCall "toolu_2"] := rfl
  have hsettled := h (fun _ => .value (.str "ok")) (fun _ => none) (fun _ => "") "r1" parallelHistory twoRequestsTurn
    parallelHistory_coherent (by rw [hcalls]; decide) (requestCall "toolu_1") List.mem_cons_self
  have hprepared : requestCall "toolu_1" ∈ [requestCall "toolu_2"] := hsettled.prepared
  have hid := congrArg ToolCall.id (List.mem_singleton.mp hprepared)
  exact absurd hid (by decide)

end Samples
end ApprovalTurn
end Allama

import Allama.FrameProtocol

/-! Streams whose events keep to their parts and calls have well-formed frames. -/
namespace Allama
namespace AgentStream
open Function RecordFields
section Steps
variable {uuid4 : ℕ → String} {loads : String → Option Value} {ctx : Context} {r : Reading}

def Unreplaced (ctx : Context) (partId : Option ℤ) : Prop := partId = none → ctx.partStates.lookup 0 = none

/-- A delta with a text is for a part of its kind, or for none. -/
def OfKind (ctx : Context) (partId : Option ℤ) (text : Option String) (kind : Kind) : Prop :=
  (text.filter (· ≠ "")).isSome → ∀ state, ctx.partAt partId = some state → state.partType = kind.partType

/-- What an event of a well-behaved stream keeps to, in the state before it. -/
def OrderlyEvent (uuid4 : ℕ → String) (ctx : Context) (event : UnifiedStreamEvent) : Prop :=
  match event.type with
  | .textStart | .thinkingStart => Unreplaced ctx event.partId
  | .textDelta => OfKind ctx event.partId event.text .text
  | .thinkingDelta => OfKind ctx event.partId event.thinking .reasoning
  | .toolCallStart =>
    let id := (callId uuid4 event ctx.drawn).1
    Unreplaced ctx event.partId ∧ (ctx.toolIndex id = none ∨ ctx.toolIndex id = event.partId)
  | .toolResult => ctx.toolFinished (resultId event) ≠ some true
  | _ => True

def Orderly (uuid4 : ℕ → String) (ctx : Context) : StoredEvent → Prop
  | .delta event => OrderlyEvent uuid4 ctx event
  | _ => True

theorem read_deltaFrames {frame : String → Frame} (h : ∀ delta, r.accept (frame delta) = some r) (text : Option String) :
    r.read (deltaFrames frame text) = some r := by
  unfold deltaFrames
  split
  · rfl
  · split
    · rfl
    · rename_i delta _
      change r.accept (frame delta) >>= _ = _
      rw [h]
      rfl

theorem Emits.cons {r' : Reading} {frame : Frame} {frames : List Frame} (hframe : r.accept frame = some r')
    (h : Emits r' (ctx,frames)) : Emits r (ctx,frame :: frames) := by
  obtain ⟨r'',hr'',hagrees⟩ := h
  refine ⟨r'',?_,hagrees⟩
  change r.accept frame >>= _ = _
  rw [hframe]
  exact hr''

theorem Agrees.startPart (h : Agrees ctx r) (kind : Kind) {start : ℕ → Frame} {delta : ℕ → String → Frame}
    (hstart : ∀ (r : Reading) id, r.accept (start id) = r.startPart id kind)
    (hdelta : ∀ (r : Reading) id text, r.accept (delta id text) = r.partDelta id kind) {partId : Option ℤ}
    (hpart : Unreplaced ctx partId) (initial : Option String) :
    Emits r (AgentStream.startPart kind.partType start delta partId initial ctx) := by
  have hends := h.closeAt partId
  refine hends.append fun r' hagrees => ?_
  obtain ⟨r'',hr'',hcreated,hopened⟩ := hagrees.created (closeAt_free hpart) kind
  refine .cons ((hstart _ _).trans hr'') ⟨r'',?_,hcreated⟩
  apply read_deltaFrames
  intro text
  exact (hdelta _ _ _).trans (if_pos hopened)

theorem Agrees.partDelta (h : Agrees ctx r) {kind : Kind} {delta : ℕ → String → Frame}
    (hdelta : ∀ (r : Reading) id text, r.accept (delta id text) = r.partDelta id kind) {partId : Option ℤ}
    {text : Option String} (hkind : OfKind ctx partId text kind) :
    Emits r (ctx,AgentStream.partDelta delta partId text ctx) := by
  unfold AgentStream.partDelta
  split
  · exact .silent h
  · rename_i state hstate
    by_cases htext : (text.filter (· ≠ "")).isSome
    · obtain ⟨i,rfl,hlookup⟩ := Option.bind_eq_some_iff.mp hstate
      have hopened : r.parts state.partId = .opened kind :=
        (h.opened _ _).mpr ⟨_,mem_of_lookup hlookup,rfl,hkind htext state hstate⟩
      refine ⟨r,?_,h⟩
      apply read_deltaFrames
      intro text
      exact (hdelta _ _ _).trans (if_pos hopened)
    · have hnone : deltaFrames (delta state.partId) text = [] := by
        unfold deltaFrames
        split
        · rfl
        · rename_i text
          rw [if_pos]
          by_contra hne
          simp [Option.filter, hne] at htext
      rw [hnone]
      exact .silent h

theorem Agrees.toolCallStart (h : Agrees ctx r) {event : UnifiedStreamEvent} (hpart : Unreplaced ctx event.partId)
    (hcall : ctx.toolIndex (callId uuid4 event ctx.drawn).1 = none ∨
      ctx.toolIndex (callId uuid4 event ctx.drawn).1 = event.partId) :
    Emits r (AgentStream.toolCallStart uuid4 event ctx) := by
  have hindex := h.closeAt_toolIndex hcall
  have hdrawn := (closeAt_frame ctx event.partId).2
  have hfree := closeAt_free hpart
  have hends := h.closeAt event.partId
  unfold AgentStream.toolCallStart
  generalize ctx.closeAt event.partId = closed at hindex hdrawn hfree hends
  obtain ⟨closed,ends⟩ := closed
  refine hends.append fun r' hagrees => ?_
  rw [← hdrawn] at hindex
  have hle : closed.drawn ≤ (callId uuid4 event closed.drawn).2 := by
    unfold callId
    split
    · exact le_rfl
    · exact Nat.le_succ _
  refine .single rfl ?_
  exact hagrees.createdTool hfree ⟨_,(callId uuid4 event closed.drawn).1,_⟩ hindex hle

theorem Agrees.toolCallDelta (h : Agrees ctx r) (event : UnifiedStreamEvent) :
    Emits r (ctx,AgentStream.toolCallDelta event ctx) := by
  unfold AgentStream.toolCallDelta
  split
  · exact .silent h
  · rename_i call hcall
    obtain ⟨state,hstate,hcall⟩ := Option.bind_eq_some_iff.mp hcall
    obtain ⟨i,-,hlookup⟩ := Option.bind_eq_some_iff.mp hstate
    have hrunning := h.running _ _ (h.toolIndex _ (mem_of_lookup hlookup) call hcall)
    have hcalls : r.calls call.toolCallId ≠ .answered := by
      intro hanswered
      by_cases hemitted : ctx.toolInputEmitted call.toolCallId = some true
      · rw [h.available _ hemitted] at hanswered
        cases hanswered
      · rcases h.unemitted _ hemitted hrunning with habsent | hstarted
        · rw [habsent] at hanswered
          cases hanswered
        · rw [hstarted] at hanswered
          cases hanswered
    refine ⟨r,read_deltaFrames (fun delta => ?_) _,h⟩
    exact if_neg hcalls

theorem Agrees.toolCallStop (h : Agrees ctx r) (event : UnifiedStreamEvent) :
    Emits r (AgentStream.toolCallStop event ctx) := by
  unfold AgentStream.toolCallStop
  cases hcall : (ctx.partAt event.partId).bind PartState.toolCall with
  | none => exact h.closeAt event.partId
  | some call =>
    obtain ⟨state,hstate,hstateCall⟩ := Option.bind_eq_some_iff.mp hcall
    obtain ⟨i,-,hlookup⟩ := Option.bind_eq_some_iff.mp hstate
    have hrunning := h.running _ _ (h.toolIndex _ (mem_of_lookup hlookup) call hstateCall)
    have hinputs : Emits r (emitInput event call ctx) := by
      unfold emitInput
      split
      · exact .silent h
      · rename_i hemitted
        exact h.inputAvailable hemitted hrunning _ _
    exact hinputs.append fun r' hagrees => hagrees.closeAt event.partId

theorem Agrees.toolResult (h : Agrees ctx r) {event : UnifiedStreamEvent}
    (hrunning : ctx.toolFinished (resultId event) ≠ some true) : Emits r (AgentStream.toolResult loads event ctx) := by
  have hindex : (ctx.closeCall (resultId event)).1.toolIndex (resultId event) = none := h.closeAt_toolIndex (.inr rfl)
  have hfinished : (ctx.closeCall (resultId event)).1.toolFinished = ctx.toolFinished := (closeAt_frame ctx _).1
  unfold AgentStream.toolResult
  dsimp only
  rw [List.append_assoc]
  refine (h.closeCall (resultId event)).append fun r' hagrees => ?_
  unfold ensureInput
  split
  · rename_i hemitted
    exact hagrees.answered hindex (hagrees.available _ hemitted) _
  · rename_i hemitted
    rw [← hfinished] at hrunning
    refine (hagrees.inputAvailable hemitted hrunning _ _).append fun r'' hagrees' => ?_
    have hanswered := hagrees'.answered hindex (hagrees'.available _ (update_self ..)) (resultOutput loads event)
    rwa [update_idem] at hanswered

theorem Agrees.approvalItem (h : Agrees ctx r) (item : ToolCallContent) : Emits r (AgentStream.approvalItem item ctx) := by
  apply Agrees.closeCall
  exact ⟨h.table,h.fresh,h.opened,h.toolIndex,h.indexed,h.running,h.available,h.unemitted,h.started,h.pending⟩

theorem Agrees.approvalItems (items : List ToolCallContent) : ∀ {ctx : Context} {r : Reading}, Agrees ctx r →
    Emits r (AgentStream.approvalItems items ctx) := by
  induction items with
  | nil => exact fun h => .silent h
  | cons item items ih => exact fun h => (h.approvalItem item).append fun r' hagrees => ih hagrees

theorem Agrees.handleUnifiedEvent (h : Agrees ctx r) {event : UnifiedStreamEvent} (horderly : OrderlyEvent uuid4 ctx event) :
    Emits r (AgentStream.handleUnifiedEvent uuid4 loads event ctx) := by
  unfold AgentStream.handleUnifiedEvent
  unfold OrderlyEvent at horderly
  cases htype : event.type with
  | textStart =>
    rw [htype] at horderly
    exact h.startPart .text (fun _ _ => rfl) (fun _ _ _ => rfl) horderly event.text
  | thinkingStart =>
    rw [htype] at horderly
    exact h.startPart .reasoning (fun _ _ => rfl) (fun _ _ _ => rfl) horderly event.thinking
  | textDelta =>
    rw [htype] at horderly
    exact h.partDelta (fun _ _ _ => rfl) horderly
  | thinkingDelta =>
    rw [htype] at horderly
    exact h.partDelta (fun _ _ _ => rfl) horderly
  | textStop => exact h.closeAt event.partId
  | thinkingStop => exact h.closeAt event.partId
  | toolCallStart =>
    rw [htype] at horderly
    exact h.toolCallStart horderly.1 horderly.2
  | toolCallDelta => exact h.toolCallDelta event
  | toolCallStop => exact h.toolCallStop event
  | toolResult =>
    rw [htype] at horderly
    exact h.toolResult horderly
  | error => exact .single rfl h
  | approvalRequest =>
    dsimp only
    split
    · exact .silent h
    · exact .silent h
    · exact (Agrees.approvalItems _ h).append fun r' hagrees => .single rfl hagrees
  | messageStart => exact .silent h
  | messageStop => exact .silent h
  | done => exact .silent h
  | userMessage => exact .silent h

theorem Agrees.usedUp (h : Agrees ctx r) :
    Agrees {ctx with drawn := ctx.drawn+1} {r with parts := update r.parts ctx.drawn .closed} := by
  refine ⟨{ h.table with below := fun p hp => Nat.lt_succ_of_lt (h.table.below p hp) },?_,?_,h.toolIndex,h.indexed,
    h.running,h.available,h.unemitted,h.started,h.pending⟩
  · intro id hid
    change update r.parts ctx.drawn .closed id = .fresh
    rw [update_of_ne (Nat.ne_of_gt hid)]
    exact h.fresh id (Nat.le_of_succ_le hid)
  · intro id kind
    change update r.parts ctx.drawn .closed id = .opened kind ↔ _
    by_cases hid : id = ctx.drawn
    · subst hid
      rw [update_self]
      refine ⟨nofun,?_⟩
      rintro ⟨p,hp,hpid,-⟩
      exact absurd hpid (Nat.ne_of_lt (h.table.below p hp))
    · rw [update_of_ne hid]
      exact h.opened id kind

theorem read_wholeText (id : ℕ) (text : String) (error : String) (hfresh : r.parts id = .fresh) :
    r.read [.textStart id,.textDelta id text,.textEnd id,.error error] =
      some {r with parts := update r.parts id .closed} := by
  let opened : Reading := {r with parts := update r.parts id (.opened .text)}
  have hopened : opened.parts id = .opened .text := update_self ..
  have hstart : r.accept (.textStart id) = some opened := if_pos hfresh
  have hdelta : opened.accept (.textDelta id text) = some opened := if_pos hopened
  have hend : opened.accept (.textEnd id) = some {r with parts := update r.parts id .closed} := by
    change opened.endPart id .text = _
    rw [Reading.endPart, if_pos hopened, update_idem]
  simp only [Reading.read, List.foldlM_cons, hstart, hdelta, hend, Option.bind_eq_bind, Option.bind_some, List.foldlM_nil]
  rfl

theorem Agrees.handleStored (h : Agrees ctx r) {event : StoredEvent} (horderly : Orderly uuid4 ctx event) :
    Emits r (AgentStream.handleStored uuid4 loads event ctx) := by
  cases event with
  | delta event =>
    have hpending : {ctx with pendingDataEvents := []} = ctx := by rw [← h.pending]
    unfold AgentStream.handleStored handleEvent
    rw [hpending, h.pending]
    exact h.handleUnifiedEvent horderly
  | message approvals =>
    cases approvals with
    | none => exact .silent h
    | some calls =>
      obtain ⟨r',hr',hagrees⟩ := Agrees.approvalItems calls h
      have hpending : {(AgentStream.approvalItems calls ctx).1 with pendingDataEvents := []} =
          (AgentStream.approvalItems calls ctx).1 := by rw [← hagrees.pending]
      change Emits r ({(AgentStream.approvalItems calls ctx).1 with pendingDataEvents := []},
        (AgentStream.approvalItems calls ctx).2 ++ (AgentStream.approvalItems calls ctx).1.pendingDataEvents ++ [.data calls])
      rw [hagrees.pending, List.append_nil, hpending]
      exact Emits.append ⟨r',hr',hagrees⟩ fun r'' hagrees' => .single rfl hagrees'
  | keepAlive => exact .single rfl h
  | error error => exact ⟨_,read_wholeText _ _ _ (h.fresh _ le_rfl),h.usedUp⟩
  | endOfStream => exact .silent h

theorem Agrees.finalizeParts (indices : List ℤ) : ∀ {ctx : Context} {r : Reading}, Agrees ctx r →
    Emits r (Context.finalizeParts indices ctx) ∧
      (Context.finalizeParts indices ctx).1.partStates = ctx.partStates.filter (·.1 ∉ indices) := by
  induction indices with
  | nil =>
    intro ctx r h
    refine ⟨.silent h,?_⟩
    simp [Context.finalizeParts]
  | cons i indices ih =>
    intro ctx r h
    obtain ⟨r',hr',hagrees⟩ := h.finalizePart i
    refine ⟨Emits.append ⟨r',hr',hagrees⟩ fun r'' hagrees' => (ih hagrees').1,?_⟩
    change (Context.finalizeParts indices (ctx.finalizePart i).1).1.partStates = _
    rw [(ih hagrees).2, (finalizePart_frame ctx i).2.2.1, List.filter_filter]
    apply List.filter_congr
    intro p _
    by_cases hi : p.1 = i <;> simp [hi]

end Steps

/-- A run all of whose events are orderly, in the states that they come in. -/
def OrderlyRun (uuid4 : ℕ → String) (loads : String → Option Value) : List StoredEvent → Context → Prop
  | [], _ => True
  | event :: events, ctx =>
    Orderly uuid4 ctx event ∧
      (event = .endOfStream ∨ OrderlyRun uuid4 loads events (handleStored uuid4 loads event ctx).1)

section Runs
variable (uuid4 : ℕ → String) (loads : String → Option Value)

theorem runStored_cons {event : StoredEvent} (hevent : event ≠ .endOfStream) (events : List StoredEvent) (ctx : Context) :
    runStored uuid4 loads (event :: events) ctx =
      ((runStored uuid4 loads events (handleStored uuid4 loads event ctx).1).1,
        (handleStored uuid4 loads event ctx).2 ++ (runStored uuid4 loads events (handleStored uuid4 loads event ctx).1).2) := by
  cases event with
  | endOfStream => exact absurd rfl hevent
  | _ => rfl

theorem Agrees.runStored {events : List StoredEvent} : ∀ {ctx : Context} {r : Reading}, Agrees ctx r →
    OrderlyRun uuid4 loads events ctx → Emits r (AgentStream.runStored uuid4 loads events ctx) := by
  induction events with
  | nil => exact fun h _ => .silent h
  | cons event events ih =>
    intro ctx r h ⟨horderly,hrest⟩
    by_cases hevent : event = .endOfStream
    · subst hevent
      exact .silent h
    · rw [runStored_cons uuid4 loads hevent]
      exact Emits.append (h.handleStored horderly) fun r' hagrees => ih hagrees (hrest.resolve_left hevent)

/-- The frames of an orderly run are well formed. -/
theorem sseVercel_wellFormed {events : List StoredEvent} (horderly : OrderlyRun uuid4 loads events {}) :
    WellFormed (sseVercel uuid4 loads events) := by
  obtain ⟨r,hr,hagrees⟩ := Agrees.runStored uuid4 loads agrees_empty horderly
  obtain ⟨⟨r',hr',hclosed⟩,hparts⟩ := hagrees.finalizeParts ((AgentStream.runStored uuid4 loads events {}).1.partStates.map Prod.fst)
  have hnone : ∀ p ∈ (AgentStream.runStored uuid4 loads events {}).1.collectCurrentPartEndEvents.1.partStates, False := by
    intro p hp
    change p ∈ (Context.finalizeParts _ _).1.partStates at hp
    rw [hparts] at hp
    obtain ⟨hp,hnot⟩ := List.mem_filter.mp hp
    exact of_decide_eq_true hnot (List.mem_map_of_mem hp)
  refine ⟨r',?_,?_,?_⟩
  · change ([Frame.start] ++ (AgentStream.runStored uuid4 loads events {}).2 ++
      (AgentStream.runStored uuid4 loads events {}).1.collectCurrentPartEndEvents.2 ++
      [Frame.finish,Frame.done]).foldlM Reading.accept {} = some r'
    change (AgentStream.runStored uuid4 loads events {}).2.foldlM Reading.accept {} = some r at hr
    change (AgentStream.runStored uuid4 loads events {}).1.collectCurrentPartEndEvents.2.foldlM Reading.accept r = some r' at hr'
    have hstart : [Frame.start].foldlM Reading.accept {} = some {} := rfl
    have hend : [Frame.finish,Frame.done].foldlM Reading.accept r' = some r' := rfl
    simp only [List.foldlM_append, hstart, Option.bind_eq_bind, Option.bind_some, hr, hr', hend]
  · intro id kind hopen
    obtain ⟨p,hp,-⟩ := (hclosed.opened id kind).mp hopen
    exact hnone p hp
  · intro id hstarted
    obtain ⟨i,hi⟩ := Option.isSome_iff_exists.mp (hclosed.started id hstarted)
    obtain ⟨p,hp,-⟩ := hclosed.indexed id i hi
    exact hnone p hp

end Runs

/-- A text, and a tool call with its result. -/
def sampleRun : List StoredEvent :=
  [.delta {type := .textStart, partId := some 0, text := some "hi"},
    .delta {type := .textStop, partId := some 0},
    .delta {type := .toolCallStart, partId := some 1, toolCallId := some "c", toolName := some "core.http_request"},
    .delta {type := .toolResult, toolCallId := some "c"},
    .endOfStream]

theorem sampleRun_wellFormed : WellFormed (sseVercel (fun _ => "u") (fun _ => none) sampleRun) :=
  sseVercel_wellFormed (fun _ => "u") (fun _ => none)
    ⟨nofun,.inr ⟨trivial,.inr ⟨⟨nofun,.inl rfl⟩,.inr ⟨nofun,.inr ⟨trivial,.inl rfl⟩⟩⟩⟩⟩

/-- A second result for a call follows its output. -/
theorem secondResult_malformed : ¬ WellFormed (sseVercel (fun _ => "u") (fun _ => none)
    [.delta {type := .toolResult, toolCallId := some "c"},.delta {type := .toolResult, toolCallId := some "c"}]) := by
  rintro ⟨r,hr,-⟩
  have hnone : Reading.read {} (sseVercel (fun _ => "u") (fun _ => none)
    [.delta {type := .toolResult, toolCallId := some "c"},.delta {type := .toolResult, toolCallId := some "c"}]) = none := rfl
  rw [hnone] at hr
  cases hr

end AgentStream
end Allama

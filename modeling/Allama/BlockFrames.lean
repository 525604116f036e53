import Allama.SDKAdapter

/-! What the blocks of a model's message become on the way to the frames. -/
namespace Allama
namespace AgentStream
open Function RecordFields

/-- The blocks that are open. -/
abbrev OpenBlocks := ℤ → Option ContentBlock

def BlockType.partType : BlockType → PartType
  | .text => .text
  | .thinking => .reasoning
  | .toolUse => .tool
  | .unknown => .text

def Delta.type : Delta → BlockType
  | .text _ => .text
  | .thinking _ => .thinking
  | .inputJson _ => .toolUse
  | .unknown => .unknown

/-- A text, a thinking or a tool use with its id. -/
structure ContentBlock.Known (block : ContentBlock) : Prop where
  type : block.type ≠ .unknown
  id : block.type = .toolUse → ∃ id, block.id = some id ∧ id ≠ ""

/-- No two open tool uses share their id. -/
def DistinctCalls (opened : OpenBlocks) : Prop :=
  ∀ i j block other, opened i = some block → opened j = some other → block.type = .toolUse → other.type = .toolUse →
    block.id = other.id → i = j

/-- What may come while some blocks are open. -/
def Allowed (native : NativeEvent) (opened : OpenBlocks) : Prop :=
  match native with
  | .contentBlockStart i block =>
    opened i = none ∧ block.Known ∧ DistinctCalls (update opened i (some block))
  | .contentBlockDelta i delta => ∃ block, opened i = some block ∧ delta.type = block.type
  | .contentBlockStop i => opened i ≠ none
  | .messageStart | .messageDelta | .messageStop => True
  | .error _ _ | .unknown _ => False

def openedAfter (native : NativeEvent) (opened : OpenBlocks) : OpenBlocks :=
  match native with
  | .contentBlockStart i block => update opened i (some block)
  | .contentBlockStop i => update opened i none
  | _ => opened

/-- Content blocks that start, have deltas of their type and stop, at any indices, with the events of messages among
them. -/
def WellBracketed : List NativeEvent → OpenBlocks → Prop
  | [], opened => ∀ i, opened i = none
  | native :: natives, opened => Allowed native opened ∧ WellBracketed natives (openedAfter native opened)

def deltaText (i : ℤ) : NativeEvent → Option String
  | .contentBlockDelta j (.text text) => if j = i then some text else none
  | .contentBlockDelta j (.thinking thinking) => if j = i then some thinking else none
  | _ => none

def deltaJson (i : ℤ) : NativeEvent → Option String
  | .contentBlockDelta j (.inputJson partialJson) => if j = i then some partialJson else none
  | _ => none

def deltaTexts (i : ℤ) (natives : List NativeEvent) : List String := (natives.filterMap (deltaText i)).filter (· ≠ "")

/-- The concatenation of the deltas of a tool use. -/
def jsonText (i : ℤ) (natives : List NativeEvent) : String := String.join (natives.filterMap (deltaJson i))

def Frame.part : Frame → Option ℕ
  | .textStart id | .textDelta id _ | .textEnd id | .reasoningStart id | .reasoningDelta id _ | .reasoningEnd id => some id
  | _ => none

def partFrames (id : ℕ) (frames : List Frame) : List Frame := frames.filter (·.part = some id)

def Frame.inputFor (id : String) : Frame → Option Value
  | .toolInputAvailable id' _ input => if id' = id then some input else none
  | _ => none

def inputsFor (id : String) (frames : List Frame) : List Value := frames.filterMap (·.inputFor id)

/-- What the frames from the start to the stop of a block say of it. -/
def FramesOf (loads : String → Option Value) (i : ℤ) (block : ContentBlock) (mid : List NativeEvent) (part : ℕ)
    (frames : List Frame) : Prop :=
  match block.type with
  | .text => partFrames part frames =
      .textStart part :: (deltaTexts i mid).map (Frame.textDelta part) ++ [.textEnd part]
  | .thinking => partFrames part frames =
      .reasoningStart part :: (deltaTexts i mid).map (Frame.reasoningDelta part) ++ [.reasoningEnd part]
  | .toolUse => ∀ id, block.id = some id → inputsFor id frames = [parseArgs loads (jsonText i mid)]
  | .unknown => True

/-- A block comes out as itself. -/
def BlockTranslated (uuid4 : ℕ → String) (loads : String → Option Value) (before : List NativeEvent) (i : ℤ)
    (block : ContentBlock) (mid : List NativeEvent) : Prop :=
  ∃ ctx frames ctx' frames', nativeRun uuid4 loads before {} = .ok (ctx,frames) ∧
    nativeRun uuid4 loads (.contentBlockStart i block :: (mid ++ [.contentBlockStop i])) ctx = .ok (ctx',frames') ∧
    FramesOf loads i block mid ctx.drawn frames'

/-- The block that starts at a place of the sequence, with what comes before it and until it stops. -/
def BlockAt (natives before : List NativeEvent) (i : ℤ) (block : ContentBlock) (mid : List NativeEvent) : Prop :=
  ∃ after, natives = before ++ .contentBlockStart i block :: (mid ++ .contentBlockStop i :: after) ∧
    .contentBlockStop i ∉ mid

def ContentBlock.shownName (block : ContentBlock) : String :=
  ((some (normalizeName (block.name.getD "unknown"))).filter (· ≠ "")).getD "unknown"

def ContentBlock.part (part : ℕ) (block : ContentBlock) : PartState :=
  ⟨part,block.type.partType,
    if block.type = .toolUse then some ⟨block.shownName,block.id.getD "",.dict []⟩ else none⟩

def startFrames (part : ℕ) (block : ContentBlock) : List Frame :=
  match block.type with
  | .text => [.textStart part]
  | .thinking => [.reasoningStart part]
  | .toolUse => [.toolInputStart (block.id.getD "") block.shownName]
  | .unknown => []

def blockDeltaFrames (part : ℕ) (block : ContentBlock) (delta : Delta) : List Frame :=
  match delta with
  | .text text => deltaFrames (.textDelta part) (some text)
  | .thinking thinking => deltaFrames (.reasoningDelta part) (some thinking)
  | .inputJson partialJson => deltaFrames (.toolInputDelta (block.id.getD "")) (some partialJson)
  | .unknown => []

/-- The end of a block, whose type and arguments are unknown by then. -/
def stopFrames (part : ℕ) (block : ContentBlock) : List Frame :=
  match block.type with
  | .text => [.textEnd part]
  | .thinking => [.reasoningEnd part]
  | .toolUse => [.toolInputAvailable (block.id.getD "") block.shownName (.dict [])]
  | .unknown => []

/-- The frames of a native event, where `part` has the parts of the open blocks. -/
def blockFrames (opened : OpenBlocks) (part : ℤ → ℕ) (drawn : ℕ) (native : NativeEvent) : List Frame :=
  match native with
  | .contentBlockStart _ block => startFrames drawn block
  | .contentBlockDelta i delta => ((opened i).map fun block => blockDeltaFrames (part i) block delta).getD []
  | .contentBlockStop i => ((opened i).map (stopFrames (part i))).getD []
  | _ => []

/-- The context has a part for each open block. -/
structure Tracks (opened : OpenBlocks) (part : ℤ → ℕ) (ctx : Context) : Prop where
  parts : ∀ i, ctx.partStates.lookup i = (opened i).map (ContentBlock.part (part i))
  known : ∀ i block, opened i = some block → block.Known
  calls : DistinctCalls opened
  below : ∀ i, opened i ≠ none → part i < ctx.drawn
  distinct : ∀ i j, opened i ≠ none → opened j ≠ none → part i = part j → i = j
  unemitted : ∀ i block, opened i = some block → block.type = .toolUse →
    ctx.toolInputEmitted (block.id.getD "") ≠ some true
  pending : ctx.pendingDataEvents = []

theorem tracks_empty (part : ℤ → ℕ) : Tracks (fun _ => none) part {} where
  parts _ := rfl
  known := nofun
  calls _ _ _ _ h := absurd h (Option.some_ne_none _).symm
  below _ h := absurd rfl h
  distinct _ _ h := absurd rfl h
  unemitted := nofun
  pending := rfl

section Steps
variable {uuid4 : ℕ → String} {loads : String → Option Value} {opened : OpenBlocks} {part : ℤ → ℕ} {ctx : Context}

section
variable (h : Tracks opened part ctx)
include h

theorem Tracks.forwarded {native : NativeEvent} {event : UnifiedStreamEvent}
    (hforward : forwardEvent loads native = .ok event) :
    nativeStep uuid4 loads native ctx = .ok (handleUnifiedEvent uuid4 loads event ctx) := by
  have hctx : {ctx with pendingDataEvents := []} = ctx := by rw [← h.pending]
  rw [AgentStream.nativeStep, hforward]
  change Except.ok (handleEvent uuid4 loads event ctx) = _
  rw [handleEvent, hctx, h.pending]
  rfl

theorem Tracks.closeAt_free {i : ℤ} (hi : opened i = none) : ctx.closeAt (some i) = (ctx,[]) := by
  have hnone : ctx.partStates.lookup i = none := by rw [h.parts, hi]; rfl
  rw [Context.closeAt, Context.finalizePart, hnone]

theorem Tracks.createdPart {i : ℤ} (hi : opened i = none) (partType : PartType) (call : Option ToolCallPart) :
    let ctx' := (ctx.createPartState i partType call).1
    ctx'.partStates = ctx.partStates ++ [(i,⟨ctx.drawn,partType,call⟩)] ∧ ctx'.drawn = ctx.drawn+1 ∧
      ctx'.toolInputEmitted = ctx.toolInputEmitted ∧ ctx'.pendingDataEvents = [] := by
  have hnone : ctx.partStates.lookup i = none := by rw [h.parts, hi]; rfl
  have hset := setPart_free ctx hnone ⟨ctx.drawn,partType,call⟩
  cases call <;> simp [Context.createPartState, hset, h.pending]

/-- The blocks and their parts after a start. -/
theorem Tracks.started {i : ℤ} {block : ContentBlock} (hi : opened i = none) (hknown : block.Known)
    (hcalls : DistinctCalls (update opened i (some block))) {ctx' : Context}
    (hparts : ctx'.partStates = ctx.partStates ++ [(i,block.part ctx.drawn)]) (hdrawn : ctx'.drawn = ctx.drawn+1)
    (hemitted : ∀ id, ctx'.toolInputEmitted id = some true → ctx.toolInputEmitted id = some true)
    (hown : block.type = .toolUse → ctx'.toolInputEmitted (block.id.getD "") ≠ some true)
    (hpending : ctx'.pendingDataEvents = []) :
    Tracks (update opened i (some block)) (update part i ctx.drawn) ctx' := by
  have hnone : ctx.partStates.lookup i = none := by rw [h.parts, hi]; rfl
  have hold : ∀ j, j ≠ i → update opened i (some block) j ≠ none → part j < ctx.drawn := by
    intro j hj hopen
    rw [update_of_ne hj] at hopen
    exact h.below j hopen
  constructor
  case parts =>
    intro j
    rw [hparts, lookup_append_key hnone]
    by_cases hj : j = i
    · rw [hj, beq_self_eq_true, update_self, update_self]
      rfl
    · rw [beq_false_of_ne hj, update_of_ne hj, update_of_ne hj, ← h.parts]
      rfl
  case known =>
    intro j other hother
    by_cases hj : j = i
    · rw [hj, update_self] at hother
      exact Option.some.inj hother ▸ hknown
    · rw [update_of_ne hj] at hother
      exact h.known j other hother
  case calls => exact hcalls
  case below =>
    intro j hopen
    rw [hdrawn]
    by_cases hj : j = i
    · rw [hj, update_self]
      exact Nat.lt_succ_self _
    · rw [update_of_ne hj]
      exact Nat.lt_succ_of_lt (hold j hj hopen)
  case distinct =>
    intro j k hopenj hopenk heq
    by_cases hj : j = i
    · by_cases hk : k = i
      · rw [hj, hk]
      · rw [hj, update_self, update_of_ne hk] at heq
        have := hold k hk hopenk
        omega
    · by_cases hk : k = i
      · rw [hk, update_self, update_of_ne hj] at heq
        have := hold j hj hopenj
        omega
      · rw [update_of_ne hj] at hopenj heq
        rw [update_of_ne hk] at hopenk heq
        exact h.distinct j k hopenj hopenk heq
  case unemitted =>
    intro j other hother htype
    by_cases hj : j = i
    · rw [hj, update_self] at hother
      rw [← Option.some.inj hother] at htype ⊢
      exact hown htype
    · rw [update_of_ne hj] at hother
      exact fun hid => h.unemitted j other hother htype (hemitted _ hid)
  case pending => exact hpending

/-- A block starts. -/
theorem Tracks.start {i : ℤ} {block : ContentBlock} (hi : opened i = none) (hknown : block.Known)
    (hcalls : DistinctCalls (update opened i (some block))) :
    ∃ ctx', nativeStep uuid4 loads (.contentBlockStart i block) ctx = .ok (ctx',startFrames ctx.drawn block) ∧
      Tracks (update opened i (some block)) (update part i ctx.drawn) ctx' := by
  cases htype : block.type with
  | text =>
    have hforward : forwardEvent loads (.contentBlockStart i block) = .ok {type := .textStart, partId := some i} := by
      simp [forwardEvent, toUnifiedEvent, convertContentBlockStart, htype, Except.map]
    obtain ⟨hparts,hdrawn,hemitted,hpending⟩ := h.createdPart hi .text none
    refine ⟨_,(h.forwarded hforward).trans ?_,h.started hi hknown hcalls ?_ hdrawn ?_ ?_ hpending⟩
    · simp [handleUnifiedEvent, startPart, h.closeAt_free hi, startFrames, htype, deltaFrames, Context.createPartState]
    · rw [hparts, ContentBlock.part, htype]
      rfl
    · exact fun id hid => by rwa [hemitted] at hid
    · intro htool
      cases htype.symm.trans htool
  | thinking =>
    have hforward : forwardEvent loads (.contentBlockStart i block) = .ok {type := .thinkingStart, partId := some i} := by
      simp [forwardEvent, toUnifiedEvent, convertContentBlockStart, htype, Except.map]
    obtain ⟨hparts,hdrawn,hemitted,hpending⟩ := h.createdPart hi .reasoning none
    refine ⟨_,(h.forwarded hforward).trans ?_,h.started hi hknown hcalls ?_ hdrawn ?_ ?_ hpending⟩
    · simp [handleUnifiedEvent, startPart, h.closeAt_free hi, startFrames, htype, deltaFrames, Context.createPartState]
    · rw [hparts, ContentBlock.part, htype]
      rfl
    · exact fun id hid => by rwa [hemitted] at hid
    · intro htool
      cases htype.symm.trans htool
  | toolUse =>
    obtain ⟨id,hid,hne⟩ := hknown.id htype
    let event : UnifiedStreamEvent :=
      {type := .toolCallStart
       partId := some i
       toolCallId := some id
       toolName := some (normalizeName (block.name.getD "unknown"))
       toolInput := some (.dict [])}
    have hforward : forwardEvent loads (.contentBlockStart i block) = .ok event := by
      simp [forwardEvent, toUnifiedEvent, convertContentBlockStart, htype, hid, Except.map, event]
    have hcall : callId uuid4 event ctx.drawn = (id,ctx.drawn) := by simp [callId, event, Option.filter, hne]
    obtain ⟨hparts,hdrawn,hemitted,hpending⟩ := h.createdPart hi .tool (some ⟨block.shownName,id,.dict []⟩)
    refine ⟨{(ctx.createPartState i .tool (some ⟨block.shownName,id,.dict []⟩)).1 with
      toolFinished := update ctx.toolFinished id none
      toolInputEmitted := update ctx.toolInputEmitted id (some false)},
      (h.forwarded hforward).trans ?_,h.started hi hknown hcalls ?_ hdrawn ?_ ?_ hpending⟩
    · have hclose : ctx.closeAt event.partId = (ctx,[]) := h.closeAt_free hi
      have hframes : startFrames ctx.drawn block = [.toolInputStart id block.shownName] := by
        rw [startFrames, htype, hid]
        rfl
      apply congrArg Except.ok
      change toolCallStart uuid4 event ctx = _
      rw [toolCallStart, hclose]
      dsimp only
      rw [hcall, hframes]
      rfl
    · rw [hparts, ContentBlock.part, htype, hid]
      rfl
    · intro id' hid'
      change update ctx.toolInputEmitted id (some false) id' = some true at hid'
      by_cases heq : id' = id
      · rw [heq, update_self] at hid'
        cases hid'
      · rwa [update_of_ne heq] at hid'
    · intro _
      change update ctx.toolInputEmitted id (some false) (block.id.getD "") ≠ some true
      rw [hid, Option.getD_some, update_self]
      intro hsome
      cases hsome
  | unknown => exact absurd htype hknown.type

end

theorem deltaFrames_some (frame : String → Frame) (delta : String) :
    deltaFrames frame (some delta) = if delta = "" then [] else [frame delta] := rfl

theorem Tracks.delta (h : Tracks opened part ctx) {i : ℤ} {block : ContentBlock} (hi : opened i = some block) {delta : Delta}
    (hdelta : delta.type = block.type) :
    nativeStep uuid4 loads (.contentBlockDelta i delta) ctx = .ok (ctx,blockDeltaFrames (part i) block delta) := by
  have hpart : ctx.partAt (some i) = some (block.part (part i)) := by
    change ctx.partStates.lookup i = _
    rw [h.parts, hi]
    rfl
  cases delta with
  | text text =>
    refine (h.forwarded rfl).trans (congrArg Except.ok ?_)
    change (ctx,partDelta .textDelta (some i) (some text) ctx) = _
    rw [partDelta, hpart]
    rfl
  | thinking thinking =>
    refine (h.forwarded rfl).trans (congrArg Except.ok ?_)
    change (ctx,partDelta .reasoningDelta (some i) (some thinking) ctx) = _
    rw [partDelta, hpart]
    rfl
  | inputJson partialJson =>
    have htype : block.type = .toolUse := hdelta.symm
    have hcall : (ctx.partAt (some i)).bind PartState.toolCall = some ⟨block.shownName,block.id.getD "",.dict []⟩ := by
      rw [hpart]
      exact if_pos htype
    refine (h.forwarded rfl).trans (congrArg Except.ok ?_)
    change (ctx,toolCallDelta {type := .toolCallDelta, partId := some i, text := some partialJson} ctx) = _
    rw [toolCallDelta, hcall]
    rfl
  | unknown => exact absurd hdelta.symm (h.known i block hi).type

/-- The blocks and their parts after a stop. -/
theorem Tracks.stopped (h : Tracks opened part ctx) {i : ℤ} {block : ContentBlock} (hi : opened i = some block)
    {ctx' : Context} (hparts : ctx'.partStates = ctx.partStates.filter (·.1 ≠ i)) (hdrawn : ctx'.drawn = ctx.drawn)
    (hemitted : ∀ id, ctx'.toolInputEmitted id = some true → ctx.toolInputEmitted id = some true ∨
      block.type = .toolUse ∧ block.id.getD "" = id)
    (hpending : ctx'.pendingDataEvents = []) : Tracks (update opened i none) part ctx' := by
  have hold : ∀ j other, update opened i none j = some other → j ≠ i ∧ opened j = some other := by
    intro j other hother
    by_cases hj : j = i
    · rw [hj, update_self] at hother
      cases hother
    · rw [update_of_ne hj] at hother
      exact ⟨hj,hother⟩
  have hopen : ∀ j, update opened i none j ≠ none → opened j ≠ none := by
    intro j hj
    obtain ⟨other,hother⟩ := Option.ne_none_iff_exists'.mp hj
    rw [(hold j other hother).2]
    nofun
  constructor
  case parts =>
    intro j
    have hfilter := lookup_filter_key (fun k => decide (k ≠ i)) ctx.partStates j
    rw [hparts, hfilter]
    by_cases hj : j = i
    · rw [hj, update_self, if_neg (by simp)]
      rfl
    · rw [update_of_ne hj, if_pos (decide_eq_true hj)]
      exact h.parts j
  case known => exact fun j other hother => h.known j other (hold j other hother).2
  case calls =>
    intro j k block other hblock hother
    exact h.calls j k block other (hold j block hblock).2 (hold k other hother).2
  case below =>
    intro j hj
    rw [hdrawn]
    exact h.below j (hopen j hj)
  case distinct => exact fun j k hj hk => h.distinct j k (hopen j hj) (hopen k hk)
  case unemitted =>
    intro j other hother htype hid
    obtain ⟨hj,hother⟩ := hold j other hother
    rcases hemitted _ hid with hid | ⟨htool,heq⟩
    · exact h.unemitted j other hother htype hid
    · -- the call that has just been emitted is that of no other open block
      obtain ⟨id,hblockId,-⟩ := (h.known i block hi).id htool
      obtain ⟨id',hotherId,-⟩ := (h.known j other hother).id htype
      rw [hblockId, hotherId] at heq
      exact hj (h.calls j i other block hother hi htype htool (by rw [hotherId, hblockId]; exact congrArg some heq.symm))
  case pending => exact hpending

/-- A block stops: the adapter knows of no start, so the event is that of a text. -/
theorem Tracks.stop (h : Tracks opened part ctx) {i : ℤ} {block : ContentBlock} (hi : opened i = some block) :
    ∃ ctx', nativeStep uuid4 loads (.contentBlockStop i) ctx = .ok (ctx',stopFrames (part i) block) ∧
      Tracks (update opened i none) part ctx' := by
  have hlookup : ctx.partStates.lookup i = some (block.part (part i)) := by
    rw [h.parts, hi]
    rfl
  have hclose : handleUnifiedEvent uuid4 loads {type := .textStop, partId := some i} ctx =
      (ctx.popPart i).closePart (block.part (part i)) := by
    change ctx.finalizePart i = _
    rw [Context.finalizePart, hlookup]
  have hstep : nativeStep uuid4 loads (.contentBlockStop i) ctx = .ok ((ctx.popPart i).closePart (block.part (part i))) :=
    (h.forwarded rfl).trans (congrArg Except.ok hclose)
  rw [hstep, Context.closePart]
  cases htype : block.type with
  | text =>
    refine ⟨ctx.popPart i,?_,h.stopped hi rfl rfl (fun _ => .inl) h.pending⟩
    rw [stopFrames, htype]
    simp [ContentBlock.part, htype, BlockType.partType]
  | thinking =>
    refine ⟨ctx.popPart i,?_,h.stopped hi rfl rfl (fun _ => .inl) h.pending⟩
    rw [stopFrames, htype]
    simp [ContentBlock.part, htype, BlockType.partType]
  | toolUse =>
    have hemitted : (ctx.popPart i).toolInputEmitted (block.id.getD "") ≠ some true := h.unemitted i block hi htype
    refine ⟨{ctx.popPart i with
      toolIndex := update ctx.toolIndex (block.id.getD "") none
      toolInputEmitted := update ctx.toolInputEmitted (block.id.getD "") (some true)},?_,
      h.stopped hi rfl rfl ?_ h.pending⟩
    · rw [stopFrames, htype]
      simp only [ContentBlock.part, htype, BlockType.partType, if_true, if_neg hemitted]
      rfl
    · intro id hid
      change update ctx.toolInputEmitted (block.id.getD "") (some true) id = some true at hid
      by_cases heq : id = block.id.getD ""
      · exact .inr ⟨htype,heq.symm⟩
      · rw [update_of_ne heq] at hid
        exact .inl hid
  | unknown => exact absurd htype (h.known i block hi).type

end Steps
end AgentStream
end Allama

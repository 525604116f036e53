import Allama.RecordFields
import Allama.StreamContext

/-! When the frames of a stream are well formed. -/
namespace Allama
namespace AgentStream
open Function RecordFields

inductive Kind
  | text
  | reasoning
deriving DecidableEq

def Kind.partType : Kind → PartType
  | .text => .text
  | .reasoning => .reasoning

inductive PartStatus
  | fresh
  | opened (kind : Kind)
  | closed
deriving DecidableEq

inductive CallStatus
  | absent
  | started
  | available
  | answered
deriving DecidableEq

/-- What a reader of the frames knows: of each part id, and of each tool call. -/
structure Reading where
  parts : ℕ → PartStatus := fun _ => .fresh
  calls : String → CallStatus := fun _ => .absent

namespace Reading
variable (r : Reading)

def startPart (id : ℕ) (kind : Kind) : Option Reading :=
  if r.parts id = .fresh then some {r with parts := update r.parts id (.opened kind)} else none

def partDelta (id : ℕ) (kind : Kind) : Option Reading := if r.parts id = .opened kind then some r else none

def endPart (id : ℕ) (kind : Kind) : Option Reading :=
  if r.parts id = .opened kind then some {r with parts := update r.parts id .closed} else none

/-- The protocol: a part starts with a fresh id and ends once, as what it started; the input of a call is available once
between its start and its output, its output comes after the input, and nothing comes after its output until it starts
again. -/
def accept : Frame → Option Reading
  | .textStart id => r.startPart id .text
  | .textDelta id _ => r.partDelta id .text
  | .textEnd id => r.endPart id .text
  | .reasoningStart id => r.startPart id .reasoning
  | .reasoningDelta id _ => r.partDelta id .reasoning
  | .reasoningEnd id => r.endPart id .reasoning
  | .toolInputStart id _ => some {r with calls := update r.calls id .started}
  | .toolInputDelta id _ => if r.calls id = .answered then none else some r
  | .toolInputAvailable id _ _ =>
    if r.calls id = .absent ∨ r.calls id = .started then
      some {r with calls := update r.calls id .available}
    else none
  | .toolOutputAvailable id _ =>
    if r.calls id = .available then some {r with calls := update r.calls id .answered} else none
  | .start | .finish | .done | .keepAlive | .data _ | .error _ => some r

def read (frames : List Frame) : Option Reading := frames.foldlM accept r

end Reading

/-- The frames follow the protocol, and leave no part open and no call without its input. -/
def WellFormed (frames : List Frame) : Prop :=
  ∃ r, Reading.read {} frames = some r ∧ (∀ id kind, r.parts id ≠ .opened kind) ∧ ∀ id, r.calls id ≠ .started

/-- The open parts, whose ids have all been drawn. -/
structure PartTable (parts : List (ℤ × PartState)) (drawn : ℕ) : Prop where
  keys : (parts.map Prod.fst).Nodup
  below : ∀ p ∈ parts, p.2.partId < drawn
  distinct : ∀ p ∈ parts, ∀ q ∈ parts, p.2.partId = q.2.partId → p.1 = q.1
  toolParts : ∀ p ∈ parts, p.2.partType = .tool ↔ p.2.toolCall ≠ none

/-- What the context holds against what the reader knows. -/
structure Agrees (ctx : Context) (r : Reading) : Prop where
  table : PartTable ctx.partStates ctx.drawn
  fresh : ∀ id, ctx.drawn ≤ id → r.parts id = .fresh
  opened : ∀ id kind, r.parts id = .opened kind ↔
    ∃ p ∈ ctx.partStates, p.2.partId = id ∧ p.2.partType = kind.partType
  toolIndex : ∀ p ∈ ctx.partStates, ∀ call, p.2.toolCall = some call → ctx.toolIndex call.toolCallId = some p.1
  indexed : ∀ id i, ctx.toolIndex id = some i → ∃ p ∈ ctx.partStates, p.1 = i ∧ p.2.toolCall.map ToolCallPart.toolCallId = some id
  running : ∀ id i, ctx.toolIndex id = some i → ctx.toolFinished id ≠ some true
  available : ∀ id, ctx.toolInputEmitted id = some true → r.calls id = .available
  unemitted : ∀ id, ctx.toolInputEmitted id ≠ some true → ctx.toolFinished id ≠ some true →
    r.calls id = .absent ∨ r.calls id = .started
  started : ∀ id, r.calls id = .started → (ctx.toolIndex id).isSome
  pending : ctx.pendingDataEvents = []

def Emits (r : Reading) (step : Context × List Frame) : Prop := ∃ r', r.read step.2 = some r' ∧ Agrees step.1 r'

theorem Emits.append {r : Reading} {ctx ctx' : Context} {frames frames' : List Frame} (h : Emits r (ctx,frames))
    (h' : ∀ r', Agrees ctx r' → Emits r' (ctx',frames')) : Emits r (ctx',frames ++ frames') := by
  obtain ⟨r',hr',hagrees⟩ := h
  obtain ⟨r'',hr'',hagrees'⟩ := h' r' hagrees
  refine ⟨r'',?_,hagrees'⟩
  change (frames ++ frames').foldlM Reading.accept r = some r''
  rw [List.foldlM_append]
  exact Option.bind_eq_some_iff.mpr ⟨r',hr',hr''⟩

theorem Emits.silent {r : Reading} {ctx : Context} (h : Agrees ctx r) : Emits r (ctx,[]) := ⟨r,rfl,h⟩

theorem Emits.single {r r' : Reading} {ctx : Context} {frame : Frame} (hframe : r.accept frame = some r')
    (h : Agrees ctx r') : Emits r (ctx,[frame]) := by
  refine ⟨r',?_,h⟩
  change r.accept frame >>= _ = _
  rw [hframe]
  rfl

theorem agrees_empty : Agrees {} {} where
  table := ⟨List.nodup_nil,nofun,nofun,nofun⟩
  fresh _ _ := rfl
  opened id kind := by simp
  toolIndex := nofun
  indexed := nofun
  running := nofun
  available := nofun
  unemitted _ _ _ := .inl rfl
  started := nofun
  pending := rfl

namespace PartTable
variable {parts : List (ℤ × PartState)} {drawn : ℕ}

theorem eq_of_index (h : PartTable parts drawn) {i : ℤ} {s : PartState} (hs : (i,s) ∈ parts) {p : ℤ × PartState}
    (hp : p ∈ parts) (hi : p.1 = i) : p.2 = s := by
  obtain ⟨j,s'⟩ := p
  obtain rfl : j = i := hi
  exact Option.some.inj ((lookup_of_mem h.keys hp).symm.trans (lookup_of_mem h.keys hs))

theorem pop (h : PartTable parts drawn) (i : ℤ) : PartTable (parts.filter (·.1 ≠ i)) drawn := by
  have hmem : ∀ p ∈ parts.filter (·.1 ≠ i), p ∈ parts := fun p hp => (List.mem_filter.mp hp).1
  refine ⟨(List.filter_sublist.map Prod.fst).nodup h.keys,?_,?_,?_⟩
  · exact fun p hp => h.below p (hmem p hp)
  · exact fun p hp q hq => h.distinct p (hmem p hp) q (hmem q hq)
  · exact fun p hp => h.toolParts p (hmem p hp)

theorem mem_append_part {part p : ℤ × PartState} : p ∈ parts ++ [part] ↔ p ∈ parts ∨ p = part := by simp

theorem append (h : PartTable parts drawn) {i : ℤ} (hfree : parts.lookup i = none) {state : PartState}
    (hid : drawn ≤ state.partId) (htool : state.partType = .tool ↔ state.toolCall ≠ none) :
    PartTable (parts ++ [(i,state)]) (state.partId+1) := by
  have hbelow : ∀ p ∈ parts, p.2.partId < state.partId := fun p hp => (h.below p hp).trans_le hid
  constructor
  · rw [List.map_append, List.map_singleton]
    exact List.nodup_append_comm.mp (List.nodup_cons.mpr ⟨notMem_of_lookup hfree,h.keys⟩)
  · intro p hp
    rcases mem_append_part.mp hp with hp | rfl
    · exact Nat.lt_succ_of_lt (hbelow p hp)
    · exact Nat.lt_succ_self _
  · intro p hp q hq heq
    rcases mem_append_part.mp hp with hp | rfl <;> rcases mem_append_part.mp hq with hq | rfl
    · exact h.distinct p hp q hq heq
    · exact absurd heq (Nat.ne_of_lt (hbelow p hp))
    · exact absurd heq (Nat.ne_of_gt (hbelow q hq))
    · rfl
  · intro p hp
    rcases mem_append_part.mp hp with hp | rfl
    · exact h.toolParts p hp
    · exact htool

end PartTable

open PartTable
section Parts
variable {ctx : Context} {r : Reading}

theorem mem_popPart {i : ℤ} {p : ℤ × PartState} :
    p ∈ (ctx.popPart i).partStates ↔ p ∈ ctx.partStates ∧ p.1 ≠ i := by
  simp [Context.popPart]

theorem Agrees.exists_pop (h : Agrees ctx r) {i : ℤ} {s : PartState} (hs : (i,s) ∈ ctx.partStates)
    {P : ℤ × PartState → Prop} (hP : ∀ p, p.2 = s → ¬ P p) :
    (∃ p ∈ (ctx.popPart i).partStates, P p) ↔ ∃ p ∈ ctx.partStates, P p := by
  constructor
  · rintro ⟨p,hp,hPp⟩
    exact ⟨p,(mem_popPart.mp hp).1,hPp⟩
  · rintro ⟨p,hp,hPp⟩
    exact ⟨p,mem_popPart.mpr ⟨hp,fun hi => hP p (h.table.eq_of_index hs hp hi) hPp⟩,hPp⟩

theorem Agrees.closed (h : Agrees ctx r) {i : ℤ} {s : PartState} (hs : (i,s) ∈ ctx.partStates) (kind : Kind)
    (hkind : s.partType = kind.partType) :
    ∃ r', r.endPart s.partId kind = some r' ∧ Agrees (ctx.popPart i) r' := by
  have hopened : r.parts s.partId = .opened kind := (h.opened _ _).mpr ⟨(i,s),hs,rfl,hkind⟩
  have hnone : s.toolCall = none := by
    by_contra hcall
    have htool := (h.table.toolParts (i,s) hs).mpr hcall
    rw [hkind] at htool
    cases kind <;> cases htool
  refine ⟨_,if_pos hopened,h.table.pop i,?_,?_,?_,?_,h.running,h.available,h.unemitted,h.started,h.pending⟩
  · intro id hid
    have hne : id ≠ s.partId := Nat.ne_of_gt ((h.table.below (i,s) hs).trans_le hid)
    change update r.parts s.partId .closed id = .fresh
    rw [update_of_ne hne]
    exact h.fresh id hid
  · intro id k
    change update r.parts s.partId .closed id = .opened k ↔ _
    by_cases hid : id = s.partId
    · subst hid
      rw [update_self]
      refine ⟨nofun,?_⟩
      rintro ⟨p,hp,hpid,-⟩
      obtain ⟨hp,hpi⟩ := mem_popPart.mp hp
      exact absurd (h.table.distinct p hp (i,s) hs hpid) hpi
    · rw [update_of_ne hid, h.opened]
      refine (h.exists_pop hs ?_).symm
      rintro p hps ⟨hpid,-⟩
      exact hid (by rw [← hpid, hps])
  · exact fun p hp => h.toolIndex p (mem_popPart.mp hp).1
  · intro id j hj
    refine (h.exists_pop hs ?_).mpr (h.indexed id j hj)
    rintro p hps ⟨-,hcall⟩
    rw [hps, hnone] at hcall
    cases hcall

theorem Agrees.popTool (h : Agrees ctx r) {i : ℤ} {s : PartState} (hs : (i,s) ∈ ctx.partStates) {call : ToolCallPart}
    (hcall : s.toolCall = some call) (hstarted : r.calls call.toolCallId ≠ .started) :
    Agrees {ctx.popPart i with toolIndex := update ctx.toolIndex call.toolCallId none} r := by
  have htool : s.partType = .tool := (h.table.toolParts (i,s) hs).mpr (by simp [hcall])
  have hother : ∀ {id j}, update ctx.toolIndex call.toolCallId none id = some j →
      id ≠ call.toolCallId ∧ ctx.toolIndex id = some j := by
    intro id j hj
    by_cases hid : id = call.toolCallId
    · rw [hid, update_self] at hj
      cases hj
    · rw [update_of_ne hid] at hj
      exact ⟨hid,hj⟩
  refine ⟨h.table.pop i,h.fresh,?_,?_,?_,?_,h.available,h.unemitted,?_,h.pending⟩
  · intro id k
    rw [h.opened]
    refine (h.exists_pop hs ?_).symm
    rintro p hps ⟨-,hpk⟩
    rw [hps, htool] at hpk
    cases k <;> cases hpk
  · intro p hp call' hcall'
    obtain ⟨hp,hpi⟩ := mem_popPart.mp hp
    have hindex := h.toolIndex p hp call' hcall'
    change update ctx.toolIndex call.toolCallId none call'.toolCallId = some p.1
    rw [update_of_ne, hindex]
    intro heq
    rw [heq, h.toolIndex (i,s) hs call hcall] at hindex
    exact hpi (Option.some.inj hindex).symm
  · intro id j hj
    obtain ⟨hid,hj⟩ := hother hj
    refine (h.exists_pop hs ?_).mpr (h.indexed id j hj)
    rintro p hps ⟨-,hpcall⟩
    rw [hps, hcall] at hpcall
    exact hid (Option.some.inj hpcall).symm
  · exact fun id j hj => h.running id j (hother hj).2
  · intro id hid
    have hne : id ≠ call.toolCallId := by
      rintro rfl
      exact hstarted hid
    change (update ctx.toolIndex call.toolCallId none id).isSome
    rw [update_of_ne hne]
    exact h.started id hid

theorem started_of_update {calls : String → CallStatus} {id id' : String} {status : CallStatus}
    (h : update calls id status id' = .started) (hstatus : status ≠ .started) : calls id' = .started := by
  by_cases heq : id' = id
  · rw [heq, update_self] at h
    exact absurd h hstatus
  · rwa [update_of_ne heq] at h

theorem Agrees.inputAvailable (h : Agrees ctx r) {id : String} (hemitted : ctx.toolInputEmitted id ≠ some true)
    (hfinished : ctx.toolFinished id ≠ some true) (name : String) (input : Value) :
    Emits r ({ctx with toolInputEmitted := update ctx.toolInputEmitted id (some true)},
      [.toolInputAvailable id name input]) := by
  have hframe : r.accept (.toolInputAvailable id name input) = some {r with calls := update r.calls id .available} :=
    if_pos (h.unemitted id hemitted hfinished)
  apply Emits.single hframe
  · refine ⟨h.table,h.fresh,h.opened,h.toolIndex,h.indexed,h.running,?_,?_,?_,h.pending⟩
    · intro id' hid'
      change update r.calls id .available id' = .available
      change update ctx.toolInputEmitted id (some true) id' = some true at hid'
      by_cases heq : id' = id
      · rw [heq, update_self]
      · rw [update_of_ne heq] at hid' ⊢
        exact h.available id' hid'
    · intro id' hid' hrunning
      change update ctx.toolInputEmitted id (some true) id' ≠ some true at hid'
      change update r.calls id .available id' = .absent ∨ update r.calls id .available id' = .started
      by_cases heq : id' = id
      · rw [heq, update_self] at hid'
        exact absurd rfl hid'
      · rw [update_of_ne heq] at hid' ⊢
        exact h.unemitted id' hid' hrunning
    · exact fun id' hid' => h.started id' (started_of_update hid' (by decide))

theorem Agrees.finalizePart (h : Agrees ctx r) (i : ℤ) : Emits r (ctx.finalizePart i) := by
  rw [Context.finalizePart]
  cases hlookup : ctx.partStates.lookup i with
  | none => exact .silent h
  | some s =>
    have hs := mem_of_lookup hlookup
    dsimp only
    rw [Context.closePart]
    split
    · rename_i hkind
      obtain ⟨r',hr',hagrees⟩ := h.closed hs .text hkind
      exact .single hr' hagrees
    · rename_i hkind
      obtain ⟨r',hr',hagrees⟩ := h.closed hs .reasoning hkind
      exact .single hr' hagrees
    · rename_i hkind hnone
      exact absurd hnone ((h.table.toolParts (i,s) hs).mp hkind)
    · rename_i call hkind hcall
      dsimp only
      split
      · rename_i hemitted
        refine .silent (h.popTool hs hcall ?_)
        rw [h.available _ hemitted]
        exact nofun
      · rename_i hemitted
        have hrunning := h.running _ _ (h.toolIndex (i,s) hs call hcall)
        obtain ⟨r',hr',hagrees⟩ := h.inputAvailable hemitted hrunning call.toolName call.args
        refine ⟨r',hr',hagrees.popTool hs hcall ?_⟩
        rw [hagrees.available _ (update_self ..)]
        exact nofun

theorem finalizePart_frame (ctx : Context) (i : ℤ) :
    let ctx' := (ctx.finalizePart i).1
    ctx'.toolFinished = ctx.toolFinished ∧ ctx'.drawn = ctx.drawn ∧ ctx'.partStates = ctx.partStates.filter (·.1 ≠ i) ∧
      ∀ id, ctx'.toolIndex id = none ∨ ctx'.toolIndex id = ctx.toolIndex id := by
  dsimp only
  rw [Context.finalizePart]
  cases hlookup : ctx.partStates.lookup i with
  | none =>
    refine ⟨rfl,rfl,?_,fun _ => .inr rfl⟩
    symm
    apply List.filter_eq_self.mpr
    intro p hp
    apply decide_eq_true
    rintro rfl
    exact notMem_of_lookup hlookup (List.mem_map_of_mem hp)
  | some s =>
    have hindex : ∀ c id, update ctx.toolIndex c none id = none ∨
        update ctx.toolIndex c none id = ctx.toolIndex id := by
      intro c id
      by_cases heq : id = c
      · rw [heq, update_self]
        exact .inl rfl
      · rw [update_of_ne heq]
        exact .inr rfl
    dsimp only
    rw [Context.closePart]
    split
    · exact ⟨rfl,rfl,rfl,fun _ => .inr rfl⟩
    · exact ⟨rfl,rfl,rfl,fun _ => .inr rfl⟩
    · exact ⟨rfl,rfl,rfl,fun _ => .inr rfl⟩
    · rename_i call _ _
      dsimp only
      split
      · exact ⟨rfl,rfl,rfl,hindex call.toolCallId⟩
      · exact ⟨rfl,rfl,rfl,hindex call.toolCallId⟩

theorem Agrees.closeAt (h : Agrees ctx r) (partId : Option ℤ) : Emits r (ctx.closeAt partId) := by
  cases partId with
  | none => exact .silent h
  | some i => exact h.finalizePart i

theorem Agrees.closeCall (h : Agrees ctx r) (id : String) : Emits r (ctx.closeCall id) := h.closeAt _

theorem closeAt_frame (ctx : Context) (partId : Option ℤ) : (ctx.closeAt partId).1.toolFinished = ctx.toolFinished ∧
    (ctx.closeAt partId).1.drawn = ctx.drawn := by
  cases partId with
  | none => exact ⟨rfl,rfl⟩
  | some i => exact ⟨(finalizePart_frame _ i).1,(finalizePart_frame _ i).2.1⟩

theorem closeAt_free {partId : Option ℤ} (h : partId = none → ctx.partStates.lookup 0 = none) :
    (ctx.closeAt partId).1.partStates.lookup (partId.getD 0) = none := by
  cases partId with
  | none => exact h rfl
  | some i =>
    apply lookup_eq_none_of_notMem
    intro hmem
    obtain ⟨p,hp,hpi⟩ := List.mem_map.mp hmem
    rw [Context.closeAt, (finalizePart_frame _ i).2.2.1] at hp
    exact of_decide_eq_true (List.mem_filter.mp hp).2 hpi

theorem Agrees.closeAt_toolIndex (h : Agrees ctx r) {partId : Option ℤ} {id : String}
    (hid : ctx.toolIndex id = none ∨ ctx.toolIndex id = partId) : (ctx.closeAt partId).1.toolIndex id = none := by
  cases partId with
  | none => exact hid.elim (fun h => h) fun h => h
  | some i =>
    obtain ⟨r',-,hagrees⟩ := h.finalizePart i
    rcases (finalizePart_frame ctx i).2.2.2 id with hnone | hsame
    · exact hnone
    · rcases hid with hnone | hsome
      · exact hsame.trans hnone
      · obtain ⟨p,hp,hpi,-⟩ := hagrees.indexed id i (hsame.trans hsome)
        rw [(finalizePart_frame _ i).2.2.1] at hp
        exact absurd hpi (of_decide_eq_true (List.mem_filter.mp hp).2)

theorem setPart_free (ctx : Context) {i : ℤ} (hfree : ctx.partStates.lookup i = none) (state : PartState) :
    ctx.setPart i state = {ctx with partStates := ctx.partStates ++ [(i,state)]} := by
  rw [Context.setPart, hfree]
  rfl

/-- A text or a reasoning part starts. -/
theorem Agrees.created (h : Agrees ctx r) {i : ℤ} (hfree : ctx.partStates.lookup i = none) (kind : Kind) :
    ∃ r', r.startPart ctx.drawn kind = some r' ∧ Agrees (ctx.createPartState i kind.partType none).1 r' ∧
      r'.parts ctx.drawn = .opened kind := by
  refine ⟨_,if_pos (h.fresh _ le_rfl),?_,update_self ..⟩
  rw [Context.createPartState, setPart_free ctx hfree]
  have hkind : kind.partType ≠ .tool := by cases kind <;> decide
  refine ⟨h.table.append hfree le_rfl ⟨fun he => absurd he hkind,fun he => absurd rfl he⟩,?_,?_,?_,?_,h.running,
    h.available,h.unemitted,h.started,h.pending⟩
  · intro id hid
    change update r.parts ctx.drawn (.opened kind) id = .fresh
    rw [update_of_ne (Nat.ne_of_gt hid)]
    exact h.fresh id (Nat.le_of_succ_le hid)
  · intro id k
    change update r.parts ctx.drawn (.opened kind) id = .opened k ↔
      ∃ p ∈ ctx.partStates ++ [(i,(⟨ctx.drawn,kind.partType,none⟩ : PartState))], p.2.partId = id ∧ p.2.partType = k.partType
    by_cases hid : id = ctx.drawn
    · subst hid
      rw [update_self]
      constructor
      · intro heq
        injection heq with heq
        exact ⟨_,mem_append_part.mpr (.inr rfl),rfl,by rw [heq]⟩
      · rintro ⟨p,hp,hpid,hpk⟩
        rcases mem_append_part.mp hp with hp | rfl
        · exact absurd hpid (Nat.ne_of_lt (h.table.below p hp))
        · cases kind <;> cases k <;> first | rfl | cases hpk
    · rw [update_of_ne hid, h.opened]
      constructor
      · rintro ⟨p,hp,hpid⟩
        exact ⟨p,mem_append_part.mpr (.inl hp),hpid⟩
      · rintro ⟨p,hp,hpid,hpk⟩
        rcases mem_append_part.mp hp with hp | rfl
        · exact ⟨p,hp,hpid,hpk⟩
        · exact absurd hpid.symm hid
  · intro p hp call hcall
    rcases mem_append_part.mp hp with hp | rfl
    · exact h.toolIndex p hp call hcall
    · cases hcall
  · intro id j hj
    obtain ⟨p,hp,hpj⟩ := h.indexed id j hj
    exact ⟨p,mem_append_part.mpr (.inl hp),hpj⟩

/-- A tool call starts, or starts again. -/
theorem Agrees.createdTool (h : Agrees ctx r) {i : ℤ} (hfree : ctx.partStates.lookup i = none) (call : ToolCallPart)
    (hcall : ctx.toolIndex call.toolCallId = none) {drawn : ℕ} (hdrawn : ctx.drawn ≤ drawn) :
    let created := ({ctx with drawn := drawn}.createPartState i .tool (some call)).1
    Agrees
      {created with
        toolFinished := update ctx.toolFinished call.toolCallId none
        toolInputEmitted := update ctx.toolInputEmitted call.toolCallId (some false)}
      {r with calls := update r.calls call.toolCallId .started} := by
  intro created
  have hcreated : created =
      {ctx with
        partStates := ctx.partStates ++ [(i,⟨drawn,.tool,some call⟩)]
        drawn := drawn+1
        toolIndex := update ctx.toolIndex call.toolCallId (some i)} := by
    change ({ctx with drawn := drawn}.createPartState i .tool (some call)).1 = _
    rw [Context.createPartState, setPart_free {ctx with drawn := drawn} hfree]
  rw [hcreated]
  refine ⟨h.table.append hfree hdrawn ⟨nofun,fun _ => rfl⟩,fun id hid => h.fresh id (hdrawn.trans (Nat.le_of_succ_le hid)),
    ?_,?_,?_,?_,?_,?_,?_,h.pending⟩
  · intro id k
    rw [h.opened]
    constructor
    · rintro ⟨p,hp,hpid⟩
      exact ⟨p,mem_append_part.mpr (.inl hp),hpid⟩
    · rintro ⟨p,hp,hpid,hpk⟩
      rcases mem_append_part.mp hp with hp | rfl
      · exact ⟨p,hp,hpid,hpk⟩
      · cases k <;> cases hpk
  · intro p hp call' hcall'
    change update ctx.toolIndex call.toolCallId (some i) call'.toolCallId = some p.1
    rcases mem_append_part.mp hp with hp | rfl
    · have hindex := h.toolIndex p hp call' hcall'
      rw [update_of_ne, hindex]
      intro heq
      rw [heq, hcall] at hindex
      cases hindex
    · injection hcall' with hcall'
      rw [← hcall', update_self]
  all_goals
    -- the statuses of this call are set, and those of the others are as before
    intro id
    obtain rfl | hid := eq_or_ne id call.toolCallId
    · simp
    simp only [update_of_ne hid, mem_append_part]
  · intro j hj
    obtain ⟨p,hp,hpj⟩ := h.indexed id j hj
    exact ⟨p,.inl hp,hpj⟩
  · exact h.running id
  · exact h.available id
  · exact h.unemitted id
  · exact h.started id

theorem Agrees.answered (h : Agrees ctx r) {id : String} (hindex : ctx.toolIndex id = none) (havailable : r.calls id = .available)
    (output : Value) :
    Emits r
      ({ctx with
        toolFinished := update ctx.toolFinished id (some true)
        toolInputEmitted := update ctx.toolInputEmitted id none},
        [.toolOutputAvailable id output]) := by
  have hframe : r.accept (.toolOutputAvailable id output) = some {r with calls := update r.calls id .answered} :=
    if_pos havailable
  apply Emits.single hframe
  refine ⟨h.table,h.fresh,h.opened,h.toolIndex,h.indexed,?_,?_,?_,?_,h.pending⟩
  · intro id' j hj
    have hne : id' ≠ id := by
      rintro rfl
      rw [hindex] at hj
      cases hj
    change update ctx.toolFinished id (some true) id' ≠ some true
    rw [update_of_ne hne]
    exact h.running id' j hj
  · intro id' hid'
    change update ctx.toolInputEmitted id none id' = some true at hid'
    change update r.calls id .answered id' = .available
    by_cases heq : id' = id
    · rw [heq, update_self] at hid'
      cases hid'
    · rw [update_of_ne heq] at hid' ⊢
      exact h.available id' hid'
  · intro id' hid' hrunning
    change update ctx.toolInputEmitted id none id' ≠ some true at hid'
    change update ctx.toolFinished id (some true) id' ≠ some true at hrunning
    change update r.calls id .answered id' = .absent ∨ update r.calls id .answered id' = .started
    have hne : id' ≠ id := by
      rintro rfl
      exact hrunning (update_self ..)
    rw [update_of_ne hne] at hid' hrunning ⊢
    exact h.unemitted id' hid' hrunning
  · exact fun id' hid' => h.started id' (started_of_update hid' (by decide))

end Parts
end AgentStream
end Allama

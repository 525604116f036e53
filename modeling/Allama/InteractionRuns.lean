import Allama.Interactions

/-! Which responses an interaction keeps. -/
namespace Allama
namespace Interactions
variable {Data : Type}

/-- The accepted responses of an interaction. -/
def Workflow.accepted (wf : Workflow Data) (id : ℕ) : List Data :=
  (wf.responses.filter fun response => response.1 == id).map Prod.snd

def Phase.interaction : Phase Data → Option ℕ
  | .preparing => none
  | .executing id | .marking id | .waiting id | .completing id _ | .returned id _ | .timingOut id | .timedOut id
  | .failing id => some id
  | .raised id => id

/-- What holds of the interaction of a call. -/
def Fits (wf : Workflow Data) : Phase Data → Prop
  | .preparing | .raised none => True
  | .executing id => (wf.rows id).isSome ∧ (wf.states id).isSome ∧ wf.accepted id = []
  | .marking id | .waiting id => (wf.rows id).isSome ∧ ∃ state, wf.states id = some state ∧
    (state.status = .pending ∧ wf.accepted id = [] ∨ state.status = .completed ∧ wf.accepted id = [state.data])
  | .completing id payload => (wf.rows id).isSome ∧ wf.states id = some ⟨.completed,payload⟩ ∧ wf.accepted id = [payload]
  | .returned id result => wf.rows id = some ⟨.completed,some result⟩ ∧ wf.accepted id = [result]
  | .timingOut id | .timedOut id | .failing id | .raised (some id) => wf.accepted id = []

/-- Everything about the interactions that are there is the same, but for one of them. -/
structure Frame (own : Option ℕ) (wf wf' : Workflow Data) : Prop where
  responses : wf'.responses = wf.responses
  created : wf.created ≤ wf'.created
  states : ∀ id < wf.created, own ≠ some id → wf'.states id = wf.states id
  rows : ∀ id < wf.created, own ≠ some id → wf'.rows id = wf.rows id
  fresh : (∀ id, wf.created ≤ id → wf.states id = none) → ∀ id, wf'.created ≤ id → wf'.states id = none

section Frames
variable {wf : Workflow Data} {own : Option ℕ}

theorem Frame.refl (own : Option ℕ) (wf : Workflow Data) : Frame own wf wf :=
  ⟨rfl,Nat.le_refl _,fun _ _ _ => rfl,fun _ _ _ => rfl,fun h => h⟩

theorem frame_createInteraction (wf : Workflow Data) : Frame own wf (createInteraction wf) where
  responses := rfl
  created := Nat.le_succ _
  states _ _ _ := rfl
  rows _ hid _ := if_neg (Nat.ne_of_lt hid)
  fresh h _ hid := h _ (Nat.le_of_succ_le hid)

theorem frame_prepareInteraction [EmptyCollection Data] (wf : Workflow Data) : Frame own wf (prepareInteraction wf) where
  responses := rfl
  created := Nat.le_succ _
  states _ hid _ := if_neg (Nat.ne_of_lt hid)
  rows _ hid _ := if_neg (Nat.ne_of_lt hid)
  fresh h _ hid := (if_neg (Nat.ne_of_gt hid)).trans (h _ (Nat.le_of_succ_le hid))

theorem frame_changeState (id : ℕ) (f : InteractionState Data → InteractionState Data) (wf : Workflow Data) :
    Frame (some id) wf (wf.changeState id f) where
  responses := rfl
  created := Nat.le_refl _
  states _ _ hown := if_neg fun h => hown (congrArg some h.symm)
  rows _ _ _ := rfl
  fresh h k hk := by
    unfold Workflow.changeState
    dsimp only
    rw [h k hk]
    split <;> rfl

theorem frame_updateInteraction (id : ℕ) (status : InteractionStatus) (payload : Option Data) (wf : Workflow Data) :
    Frame (some id) wf (updateInteraction id status payload wf) where
  responses := rfl
  created := Nat.le_refl _
  states _ _ _ := rfl
  rows _ _ hown := if_neg fun h => hown (congrArg some h.symm)
  fresh h := h

theorem frame_if {c : Prop} [Decidable c] {wf' : Workflow Data} (h : Frame own wf wf') :
    Frame own wf (if c then wf' else wf) := by
  split
  · exact h
  · exact Frame.refl own wf

theorem Frame.accepted {wf' : Workflow Data} (h : Frame own wf wf') (id : ℕ) : wf'.accepted id = wf.accepted id :=
  congrArg (fun responses => (responses.filter fun response => response.1 == id).map Prod.snd) h.responses

theorem Fits.congr {wf' : Workflow Data} {phase : Phase Data} (h : Fits wf phase)
    (hsame : ∀ id, phase.interaction = some id →
      wf'.states id = wf.states id ∧ wf'.rows id = wf.rows id ∧ wf'.accepted id = wf.accepted id) : Fits wf' phase := by
  cases phase with
  | preparing => exact trivial
  | raised id =>
    cases id with
    | none => exact trivial
    | some id => exact (hsame id rfl).2.2.trans h
  | executing id =>
    obtain ⟨hs,hr,ha⟩ := hsame id rfl
    exact ⟨hr ▸ h.1,hs ▸ h.2.1,ha ▸ h.2.2⟩
  | marking id | waiting id =>
    obtain ⟨hs,hr,ha⟩ := hsame id rfl
    obtain ⟨hrow,state,hstate,hcase⟩ := h
    exact ⟨hr ▸ hrow,state,hs.trans hstate,ha ▸ hcase⟩
  | completing id payload =>
    obtain ⟨hs,hr,ha⟩ := hsame id rfl
    exact ⟨hr ▸ h.1,hs.trans h.2.1,ha.trans h.2.2⟩
  | returned id result =>
    obtain ⟨-,hr,ha⟩ := hsame id rfl
    exact ⟨hr.trans h.1,ha.trans h.2⟩
  | timingOut id | timedOut id | failing id => exact (hsame id rfl).2.2.trans h

end Frames

section Advance
variable [EmptyCollection Data] {wf wf' : Workflow Data} {call call' : Call Data} {event : Event}

theorem frame_advance (h : advance wf call event = some (wf',call')) :
    Frame call.phase.interaction wf wf' ∧ (call'.phase.interaction = call.phase.interaction ∨
      call'.phase.interaction = some wf.created ∧ wf.created < wf'.created) := by
  unfold advance at h
  split at h
  all_goals try (rename_i hphase; rw [hphase])
  · cases h
    exact ⟨frame_prepareInteraction wf,.inr ⟨rfl,Nat.lt_succ_self _⟩⟩
  · cases h
    exact ⟨frame_if (frame_createInteraction wf),.inl rfl⟩
  · cases h
    exact ⟨frame_changeState _ _ wf,.inl rfl⟩
  · cases h
    exact ⟨Frame.refl _ wf,.inl rfl⟩
  · cases h
    exact ⟨frame_updateInteraction _ _ _ wf,.inl rfl⟩
  · cases h
    exact ⟨frame_if (frame_updateInteraction _ _ _ wf),.inl rfl⟩
  · split at h
    · cases h
    · split at h
      · cases h
        exact ⟨Frame.refl _ wf,.inl rfl⟩
      · cases h
  · split at h
    · cases h
    · split at h
      · cases h
        exact ⟨Frame.refl _ wf,.inl rfl⟩
      · cases h
  · cases h
    exact ⟨Frame.refl _ wf,.inl rfl⟩
  · split at h
    · cases h
    · cases h
      exact ⟨frame_updateInteraction _ _ _ wf,.inl rfl⟩
  · cases h
    exact ⟨frame_if (frame_updateInteraction _ _ _ wf),.inl rfl⟩
  · cases h
    exact ⟨frame_updateInteraction _ _ _ wf,.inl rfl⟩
  · cases h
    exact ⟨frame_if (frame_updateInteraction _ _ _ wf),.inl rfl⟩
  · cases h
    exact ⟨frame_updateInteraction _ _ _ wf,.inl rfl⟩
  · cases h
    exact ⟨frame_if (frame_updateInteraction _ _ _ wf),.inl rfl⟩
  · cases h

/-- The responses of a call that still awaits its own part of `wait_for_response`, with an accepted one. -/
def Phase.answered (wf : Workflow Data) : Phase Data → Bool
  | .marking id | .waiting id => (wf.states id).any InteractionState.isActivated
  | .completing _ _ => true
  | _ => false

def Event.breaks : Event → Bool
  | .fail _ | .cancel => true
  | _ => false

omit [EmptyCollection Data] in
theorem accepted_of_not_answered {state : InteractionState Data} {id : ℕ} (hstate : wf.states id = some state)
    (hcase : state.status = .pending ∧ wf.accepted id = [] ∨ state.status = .completed ∧ wf.accepted id = [state.data])
    (h : (wf.states id).any InteractionState.isActivated = false) : wf.accepted id = [] := by
  rcases hcase with ⟨-,haccepted⟩ | ⟨hstatus,-⟩
  · exact haccepted
  · rw [hstate] at h
    simp [InteractionState.isActivated, hstatus] at h

omit [EmptyCollection Data] in
theorem rows_updateInteraction {id : ℕ} (status : InteractionStatus) (payload : Option Data)
    (h : (wf.rows id).isSome = true) : ((updateInteraction id status payload wf).rows id).isSome = true := by
  unfold updateInteraction
  dsimp only
  rw [if_pos rfl, Option.isSome_map]
  exact h

omit [EmptyCollection Data] in
theorem rows_completed {id : ℕ} (payload : Data) (h : (wf.rows id).isSome = true) :
    (updateInteraction id .completed (some payload) wf).rows id = some ⟨.completed,some payload⟩ := by
  obtain ⟨row,hrow⟩ := Option.isSome_iff_exists.mp h
  unfold updateInteraction
  dsimp only
  rw [if_pos rfl, hrow]
  rfl

/-- A step keeps what holds of the interaction of its call, unless it breaks one that is answered. -/
theorem fits_advance (h : advance wf call event = some (wf',call')) (hfits : Fits wf call.phase)
    (hfresh : wf.accepted wf.created = []) (hquiet : call.phase.answered wf = true → event.breaks = false) :
    Fits wf' call'.phase := by
  unfold advance at h
  split at h
  -- one goal for each pair of a phase and an event, in the order of the branches
  all_goals try (rename_i hphase; rw [hphase] at hfits hquiet)
  · cases h
    refine ⟨?_,?_,hfresh⟩
    · exact congrArg Option.isSome (if_pos rfl)
    · exact congrArg Option.isSome (if_pos rfl)
  · cases h
    exact trivial
  · cases h
    obtain ⟨hrow,hstate,haccepted⟩ := hfits
    obtain ⟨state,hstate⟩ := Option.isSome_iff_exists.mp hstate
    refine ⟨hrow,{ state with status := .pending },?_,.inl ⟨rfl,haccepted⟩⟩
    unfold Workflow.changeState
    dsimp only
    rw [if_pos rfl, hstate]
    rfl
  · cases h
    exact hfits.2.2
  · cases h
    exact ⟨rows_updateInteraction _ _ hfits.1,hfits.2⟩
  · cases h
    obtain ⟨-,state,hstate,hcase⟩ := hfits
    -- the update of the status fails, and the interaction is not answered yet
    have hanswered : (wf.states _).any InteractionState.isActivated = false :=
      Bool.eq_false_iff.mpr fun h => Bool.false_ne_true (hquiet h).symm
    have haccepted := accepted_of_not_answered hstate hcase hanswered
    exact ((frame_if (frame_updateInteraction _ _ _ wf)).accepted _).trans haccepted
  · obtain ⟨hrow,state,hstate,hcase⟩ := hfits
    rw [hstate] at h
    dsimp only at h
    split at h
    · rename_i hactivated
      cases h
      -- the payload is that of the only response
      obtain ⟨status,data⟩ := state
      obtain rfl : status = .completed := beq_iff_eq.mp hactivated
      rcases hcase with ⟨hpending,-⟩ | ⟨-,haccepted⟩
      · cases hpending
      · exact ⟨hrow,hstate,haccepted⟩
    · cases h
  · obtain ⟨hrow,state,hstate,hcase⟩ := hfits
    rw [hstate] at h
    dsimp only at h
    split at h
    · rename_i htimeout
      cases h
      -- the wait ends by its timeout only where the state is not activated
      have hpending : state.isActivated = false := by simpa using (Bool.and_eq_true_iff.mp htimeout).2
      exact accepted_of_not_answered hstate hcase (by rw [hstate]; exact hpending)
    · cases h
  · cases h
    obtain ⟨-,state,hstate,hcase⟩ := hfits
    have hanswered : (wf.states _).any InteractionState.isActivated = false :=
      Bool.eq_false_iff.mpr fun h => Bool.false_ne_true (hquiet h).symm
    exact accepted_of_not_answered hstate hcase hanswered
  · obtain ⟨hrow,hstate,haccepted⟩ := hfits
    rw [hstate] at h
    cases h
    exact ⟨rows_completed _ hrow,haccepted⟩
  · exact absurd (hquiet rfl) Bool.true_eq_false.mp
  · cases h
    exact hfits
  · cases h
    exact ((frame_if (frame_updateInteraction _ _ _ wf)).accepted _).trans hfits
  · cases h
    exact hfits
  · cases h
    exact ((frame_if (frame_updateInteraction _ _ _ wf)).accepted _).trans hfits
  · cases h

end Advance
end Interactions
end Allama

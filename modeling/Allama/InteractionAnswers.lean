import Allama.InteractionRuns

/-! Interactions over every run of a workflow, and the responses that are lost or come too late. -/
namespace Allama
namespace Interactions
variable {Data : Type}

def Phase.waits (id : ℕ) : Phase Data → Bool
  | .marking interaction_id | .waiting interaction_id => interaction_id == id
  | _ => false

/-- A response that is valid finds its interaction pending and waited for, and an interaction that has one is neither
cancelled nor broken by an activity. -/
def Timely (state : State Data) : Action Data → Bool
  | .start _ => true
  | .response input =>
    match validateInteraction state.wf input, state.wf.states input.interaction_id with
    | .ok (), some interaction =>
      interaction.status == .pending && state.calls.any fun call => call.phase.waits input.interaction_id
    | _, _ => true
  | .event i event =>
    match state.calls[i]? with
    | none => true
    | some call => !(call.phase.answered state.wf && event.breaks)

/-- A call that leads by itself to the return of a response. -/
def Returns [EmptyCollection Data] (wf : Workflow Data) (call : Call Data) (id : ℕ) (data : Data) : Prop :=
  ∃ events, (∀ event ∈ events, event = .succeed ∨ event = .activate) ∧ ∃ wf',
    Runs.follow (fun pair event => advance pair.1 pair.2 event) (wf,call) events =
      some (wf',{ call with phase := .returned id data }) ∧ wf'.rows id = some ⟨.completed,some data⟩

/-- What an interaction comes to. -/
structure Answered [EmptyCollection Data] (wf : Workflow Data) (call : Call Data) : Prop where
  /-- An accepted response is what the wait returns and what is stored, once the awaits of the call end. -/
  returns : ∀ id data, call.phase.interaction = some id → data ∈ wf.accepted id → Returns wf call id data
  /-- What is returned is what is stored, and the only response that was accepted. -/
  returned : ∀ id result, call.phase = .returned id result →
    wf.accepted id = [result] ∧ wf.rows id = some ⟨.completed,some result⟩
  /-- An interaction that timed out has accepted none. -/
  timedOut : ∀ id, call.phase = .timingOut id ∨ call.phase = .timedOut id → wf.accepted id = []
  once : ∀ id, call.phase.interaction = some id → (wf.accepted id).length ≤ 1

section Fits
variable [EmptyCollection Data] {wf : Workflow Data}

theorem completes {id : ℕ} {data : Data} (timeout : Bool) (hrow : (wf.rows id).isSome = true)
    (hstate : wf.states id = some ⟨.completed,data⟩) :
    ∃ wf', advance wf ⟨timeout,.completing id data⟩ .succeed = some (wf',⟨timeout,.returned id data⟩) ∧
      wf'.rows id = some ⟨.completed,some data⟩ := by
  refine ⟨_,?_,rows_completed data hrow⟩
  unfold advance
  dsimp only
  rw [hstate]

theorem activates {id : ℕ} {data : Data} (timeout : Bool) (hstate : wf.states id = some ⟨.completed,data⟩) :
    advance wf ⟨timeout,.waiting id⟩ .activate = some (wf,⟨timeout,.completing id data⟩) := by
  unfold advance
  dsimp only
  rw [hstate]
  rfl

theorem Returns.before {wf' : Workflow Data} {timeout : Bool} {phase phase' : Phase Data} {event : Event} {id : ℕ} {data : Data}
    (hstep : advance wf ⟨timeout,phase⟩ event = some (wf',⟨timeout,phase'⟩)) (hevent : event = .succeed ∨ event = .activate)
    (h : Returns wf' ⟨timeout,phase'⟩ id data) : Returns wf ⟨timeout,phase⟩ id data := by
  obtain ⟨events,hevents,last,hfollow,hrow⟩ := h
  refine ⟨event :: events,?_,last,?_,hrow⟩
  · intro e he
    rcases List.mem_cons.mp he with rfl | he
    · exact hevent
    · exact hevents e he
  · simp only [Runs.follow, hstep, Option.bind_some]
    exact hfollow

theorem returns_returned {timeout : Bool} {id : ℕ} {data : Data} (hrow : wf.rows id = some ⟨.completed,some data⟩) :
    Returns wf ⟨timeout,.returned id data⟩ id data := by
  refine ⟨[],?_,wf,rfl,hrow⟩
  intro event hevent
  cases hevent

theorem returns_completing {timeout : Bool} {id : ℕ} {data : Data} (hrow : (wf.rows id).isSome = true)
    (hstate : wf.states id = some ⟨.completed,data⟩) : Returns wf ⟨timeout,.completing id data⟩ id data := by
  obtain ⟨wf',hstep,hrow'⟩ := completes timeout hrow hstate
  exact (returns_returned hrow').before hstep (.inl rfl)

theorem returns_waiting {timeout : Bool} {id : ℕ} {data : Data} (hrow : (wf.rows id).isSome = true)
    (hstate : wf.states id = some ⟨.completed,data⟩) : Returns wf ⟨timeout,.waiting id⟩ id data :=
  (returns_completing hrow hstate).before (activates timeout hstate) (.inr rfl)

theorem returns_marking {timeout : Bool} {id : ℕ} {data : Data} (hrow : (wf.rows id).isSome = true)
    (hstate : wf.states id = some ⟨.completed,data⟩) : Returns wf ⟨timeout,.marking id⟩ id data := by
  have hwaiting : Returns (updateInteraction id .pending none wf) ⟨timeout,.waiting id⟩ id data :=
    returns_waiting (rows_updateInteraction _ _ hrow) hstate
  exact hwaiting.before rfl (.inl rfl)

omit [EmptyCollection Data] in
theorem state_of_response {state : InteractionState Data} {id : ℕ} {data : Data} (hstate : wf.states id = some state)
    (hcase : state.status = .pending ∧ wf.accepted id = [] ∨ state.status = .completed ∧ wf.accepted id = [state.data])
    (hdata : data ∈ wf.accepted id) : wf.states id = some ⟨.completed,data⟩ := by
  obtain ⟨status,last⟩ := state
  rcases hcase with ⟨-,hnone⟩ | ⟨hstatus,hone⟩
  · rw [hnone] at hdata
    cases hdata
  · rw [hone] at hdata
    obtain rfl := List.mem_singleton.mp hdata
    obtain rfl : status = .completed := hstatus
    exact hstate

omit [EmptyCollection Data] in
theorem once_of_case {state : InteractionState Data} {id : ℕ}
    (hcase : state.status = .pending ∧ wf.accepted id = [] ∨ state.status = .completed ∧ wf.accepted id = [state.data]) :
    (wf.accepted id).length ≤ 1 := by
  rcases hcase with ⟨-,h⟩ | ⟨-,h⟩
  · rw [h]
    exact Nat.zero_le 1
  · rw [h]
    exact Nat.le_refl 1

theorem returns_of_fits {timeout : Bool} {phase : Phase Data} {id : ℕ} {data : Data} (h : Fits wf phase)
    (hid : phase.interaction = some id) (hdata : data ∈ wf.accepted id) : Returns wf ⟨timeout,phase⟩ id data := by
  have hempty : wf.accepted id ≠ [] := List.ne_nil_of_mem hdata
  cases phase with
  | preparing => cases hid
  | raised interaction =>
    cases hid
    exact absurd h hempty
  | executing =>
    cases hid
    exact absurd h.2.2 hempty
  | marking =>
    cases hid
    obtain ⟨hrow,state,hstate,hcase⟩ := h
    exact returns_marking hrow (state_of_response hstate hcase hdata)
  | waiting =>
    cases hid
    obtain ⟨hrow,state,hstate,hcase⟩ := h
    exact returns_waiting hrow (state_of_response hstate hcase hdata)
  | completing _ payload =>
    cases hid
    obtain ⟨hrow,hstate,hone⟩ := h
    rw [hone] at hdata
    obtain rfl := List.mem_singleton.mp hdata
    exact returns_completing hrow hstate
  | returned _ result =>
    cases hid
    obtain ⟨hrow,hone⟩ := h
    rw [hone] at hdata
    obtain rfl := List.mem_singleton.mp hdata
    exact returns_returned hrow
  | timingOut | timedOut | failing =>
    cases hid
    exact absurd h hempty

omit [EmptyCollection Data] in
theorem once_of_fits {phase : Phase Data} {id : ℕ} (h : Fits wf phase) (hid : phase.interaction = some id) :
    (wf.accepted id).length ≤ 1 := by
  have hlength : ∀ {accepted : List Data}, accepted = [] → accepted.length ≤ 1 := by
    rintro _ rfl
    exact Nat.zero_le 1
  cases phase with
  | preparing => cases hid
  | raised interaction =>
    cases hid
    exact hlength h
  | executing =>
    cases hid
    exact hlength h.2.2
  | marking | waiting =>
    cases hid
    obtain ⟨-,state,-,hcase⟩ := h
    exact once_of_case hcase
  | completing =>
    cases hid
    exact Nat.le_of_eq (congrArg List.length h.2.2)
  | returned =>
    cases hid
    exact Nat.le_of_eq (congrArg List.length h.2)
  | timingOut | timedOut | failing =>
    cases hid
    exact hlength h

theorem answered_of_fits {call : Call Data} (h : Fits wf call.phase) : Answered wf call where
  returns _ _ hid hdata := returns_of_fits h hid hdata
  returned _ _ hphase := by
    rw [hphase] at h
    exact ⟨h.2,h.1⟩
  timedOut _ hphase := by
    rcases hphase with hphase | hphase
    · rw [hphase] at h
      exact h
    · rw [hphase] at h
      exact h
  once _ hid := once_of_fits h hid

end Fits

section Kept

/-- The invariant of the runs. -/
structure Kept (state : State Data) : Prop where
  distinct : ∀ (i j : ℕ) (ci cj : Call Data) (id : ℕ), state.calls[i]? = some ci → state.calls[j]? = some cj → ci.phase.interaction = some id →
    cj.phase.interaction = some id → i = j
  known : ∀ call ∈ state.calls, ∀ id, call.phase.interaction = some id → id < state.wf.created
  states : ∀ id, state.wf.created ≤ id → state.wf.states id = none
  responses : ∀ id, state.wf.created ≤ id → state.wf.accepted id = []
  fits : ∀ call ∈ state.calls, Fits state.wf call.phase

theorem kept_started [EmptyCollection Data] (wf_exec_id : String) : Kept (started wf_exec_id : State Data) where
  distinct _ _ _ _ _ h := absurd h (by simp [started])
  known _ h := absurd h List.not_mem_nil
  states _ _ := rfl
  responses _ _ := rfl
  fits _ h := absurd h List.not_mem_nil

variable {state : State Data}

theorem Kept.start (h : Kept state) (timeout : Bool) : Kept { state with calls := state.calls ++ [⟨timeout,.preparing⟩] } := by
  have hold : ∀ {i : ℕ} {call : Call Data} {id : ℕ}, (state.calls ++ [⟨timeout,.preparing⟩])[i]? = some call →
      call.phase.interaction = some id → state.calls[i]? = some call := by
    intro i call id hi hid
    rw [List.getElem?_append] at hi
    split at hi
    · exact hi
    · obtain rfl := List.mem_singleton.mp (List.mem_of_getElem? hi)
      cases hid
  refine ⟨?_,?_,h.states,h.responses,?_⟩
  · intro i j ci cj id hi hj hci hcj
    exact h.distinct i j ci cj id (hold hi hci) (hold hj hcj) hci hcj
  · intro call hcall id hid
    rcases List.mem_append.mp hcall with hcall | hcall
    · exact h.known call hcall id hid
    · obtain rfl := List.mem_singleton.mp hcall
      cases hid
  · intro call hcall
    rcases List.mem_append.mp hcall with hcall | hcall
    · exact h.fits call hcall
    · obtain rfl := List.mem_singleton.mp hcall
      exact trivial

/-- A step of a call. The other calls have other interactions, which it does not touch. -/
theorem Kept.event [EmptyCollection Data] {i : ℕ} {call call' : Call Data} {event : Event} {wf' : Workflow Data} (h : Kept state)
    (hi : state.calls[i]? = some call) (hadvance : advance state.wf call event = some (wf',call'))
    (hquiet : call.phase.answered state.wf = true → event.breaks = false) : Kept ⟨wf',state.calls.set i call'⟩ := by
  obtain ⟨hframe,hid⟩ := frame_advance hadvance
  have hmem := List.mem_of_getElem? hi
  have hfits := fits_advance hadvance (h.fits call hmem) (h.responses _ (Nat.le_refl _)) hquiet
  have hlookup : ∀ {j : ℕ} {c : Call Data}, (state.calls.set i call')[j]? = some c →
      (j = i ∧ c = call') ∨ (j ≠ i ∧ state.calls[j]? = some c) := by
    intro j c hj
    by_cases hij : i = j
    · subst hij
      obtain ⟨hlt,-⟩ := List.getElem?_eq_some_iff.mp hi
      rw [List.getElem?_set_self hlt] at hj
      exact .inl ⟨rfl,(Option.some.inj hj).symm⟩
    · rw [List.getElem?_set_ne hij] at hj
      exact .inr ⟨Ne.symm hij,hj⟩
  -- the interaction of the call is its own, before and after
  have hown : ∀ {j : ℕ} {c : Call Data} {id : ℕ}, j ≠ i → state.calls[j]? = some c → c.phase.interaction = some id →
      call'.phase.interaction ≠ some id ∧ call.phase.interaction ≠ some id := by
    intro j c id hne hj hc
    have hcall : call.phase.interaction ≠ some id := fun heq => hne (h.distinct j i c call id hj hi hc heq)
    refine ⟨?_,hcall⟩
    rcases hid with hsame | ⟨hnew,-⟩
    · rw [hsame]
      exact hcall
    · rw [hnew]
      intro heq
      have hlt := h.known c (List.mem_of_getElem? hj) id hc
      exact Nat.ne_of_lt hlt (Option.some.inj heq).symm
  -- one component for each field: distinct, known, states, responses, fits
  refine ⟨?_,?_,hframe.fresh h.states,?_,?_⟩
  · intro j k cj ck id hj hk hcj hck
    rcases hlookup hj with ⟨hji,hcall⟩ | ⟨hji,hj⟩
    · rcases hlookup hk with ⟨hki,-⟩ | ⟨hki,hk⟩
      · exact hji.trans hki.symm
      · exact absurd (hcall ▸ hcj) (hown hki hk hck).1
    · rcases hlookup hk with ⟨-,hcall⟩ | ⟨hki,hk⟩
      · exact absurd (hcall ▸ hck) (hown hji hj hcj).1
      · exact h.distinct j k cj ck id hj hk hcj hck
  · intro c hc id hcid
    rcases List.mem_or_eq_of_mem_set hc with hc | rfl
    · exact Nat.lt_of_lt_of_le (h.known c hc id hcid) hframe.created
    · rcases hid with hsame | ⟨hnew,hlt⟩
      · exact Nat.lt_of_lt_of_le (h.known call hmem id (hsame ▸ hcid)) hframe.created
      · obtain rfl := Option.some.inj (hnew.symm.trans hcid)
        exact hlt
  · intro id hle
    rw [hframe.accepted]
    exact h.responses id (Nat.le_trans hframe.created hle)
  · intro c hc
    obtain ⟨j,hj⟩ := List.mem_iff_getElem?.mp hc
    rcases hlookup hj with ⟨-,rfl⟩ | ⟨hji,hj⟩
    · exact hfits
    · refine (h.fits c (List.mem_of_getElem? hj)).congr ?_
      intro id hcid
      have hlt := h.known c (List.mem_of_getElem? hj) id hcid
      have hne := (hown hji hj hcid).2
      exact ⟨hframe.states id hlt hne,hframe.rows id hlt hne,hframe.accepted id⟩

def Workflow.accept (wf : Workflow Data) (id : ℕ) (data : Data) : Workflow Data :=
  { wf.changeState id fun _ => ⟨.completed,data⟩ with responses := wf.responses ++ [(id,data)] }

theorem respond_cases (wf : Workflow Data) (input : InteractionInput Data) : (respond wf input).2 = wf ∨
    ∃ interaction, validateInteraction wf input = .ok () ∧ wf.states input.interaction_id = some interaction ∧
      (respond wf input).2 = wf.accept input.interaction_id input.data := by
  unfold respond
  cases hvalid : validateInteraction wf input with
  | error message => exact .inl rfl
  | ok _ =>
    cases hstate : wf.states input.interaction_id with
    | none =>
      rw [validateInteraction, if_pos hstate] at hvalid
      cases hvalid
    | some interaction =>
      refine .inr ⟨interaction,rfl,rfl,?_⟩
      have hne : ¬ wf.states input.interaction_id = none := by
        rw [hstate]
        exact Option.some_ne_none interaction
      unfold handleInteraction
      dsimp only
      rw [if_neg hne]
      rfl

theorem states_accept (wf : Workflow Data) (id k : ℕ) (data : Data) :
    (wf.accept id data).states k = if k = id then (wf.states k).map fun _ => ⟨.completed,data⟩ else wf.states k := rfl

theorem accepted_accept (wf : Workflow Data) (id k : ℕ) (data : Data) :
    (wf.accept id data).accepted k = wf.accepted k ++ if k = id then [data] else [] := by
  unfold Workflow.accepted Workflow.accept
  dsimp only
  rw [List.filter_append, List.map_append]
  congr 1
  by_cases hk : k = id
  · subst hk
    rw [if_pos rfl, List.filter_cons_of_pos (p := fun response : ℕ × Data => response.1 == k) (beq_self_eq_true k)]
    rfl
  · rw [if_neg hk, List.filter_cons_of_neg]
    · rfl
    · intro heq
      exact hk (beq_iff_eq.mp heq).symm

theorem interaction_of_waits {phase : Phase Data} {id : ℕ} (h : phase.waits id = true) :
    phase = .marking id ∨ phase = .waiting id := by
  cases phase with
  | marking => exact .inl (congrArg Phase.marking (beq_iff_eq.mp h))
  | waiting => exact .inr (congrArg Phase.waiting (beq_iff_eq.mp h))
  | _ => cases h

/-- A response in time is the first one of its interaction. -/
theorem Kept.accept {id : ℕ} {data : Data} {interaction : InteractionState Data} (h : Kept state)
    (hstate : state.wf.states id = some interaction) (hpending : interaction.status = .pending)
    (hwaits : ∃ call ∈ state.calls, call.phase.waits id = true) : Kept { state with wf := state.wf.accept id data } := by
  -- a state that is there is one of an interaction that was created
  have hlt : id < state.wf.created := by
    apply Nat.lt_of_not_le
    intro hle
    rw [h.states id hle] at hstate
    cases hstate
  refine ⟨h.distinct,h.known,?_,?_,?_⟩
  · intro k hk
    dsimp only
    rw [states_accept, if_neg (Nat.ne_of_gt (Nat.lt_of_lt_of_le hlt hk))]
    exact h.states k hk
  · intro k hk
    dsimp only
    rw [accepted_accept, if_neg (Nat.ne_of_gt (Nat.lt_of_lt_of_le hlt hk)), List.append_nil]
    exact h.responses k hk
  · intro call hcall
    by_cases hid : call.phase.interaction = some id
    · -- the call is the one that waits
      obtain ⟨waiting,hwaiting,hphase⟩ := hwaits
      have hsame : waiting.phase.interaction = some id := by
        rcases interaction_of_waits hphase with hp | hp <;> rw [hp] <;> rfl
      obtain ⟨i,hi⟩ := List.mem_iff_getElem?.mp hcall
      obtain ⟨j,hj⟩ := List.mem_iff_getElem?.mp hwaiting
      obtain rfl := h.distinct i j call waiting id hi hj hid hsame
      obtain rfl : call = waiting := Option.some.inj (hi.symm.trans hj)
      have hfits := h.fits call hcall
      have hwait : Fits state.wf (.waiting id) := by
        rcases interaction_of_waits hphase with hp | hp
        · rw [hp] at hfits
          exact hfits
        · rw [hp] at hfits
          exact hfits
      obtain ⟨hrow,found,hfound,hcase⟩ := hwait
      obtain rfl := Option.some.inj (hfound.symm.trans hstate)
      -- a pending state has no response yet, by the phase of its call
      have hnone : state.wf.accepted id = [] := by
        rcases hcase with ⟨-,hnone⟩ | ⟨hcompleted,-⟩
        · exact hnone
        · rw [hpending] at hcompleted
          cases hcompleted
      have hnew : Fits (state.wf.accept id data) (.waiting id) := by
        refine ⟨hrow,⟨.completed,data⟩,?_,.inr ⟨rfl,?_⟩⟩
        · rw [states_accept, if_pos rfl, hstate]
          rfl
        · rw [accepted_accept, if_pos rfl, hnone]
          rfl
      rcases interaction_of_waits hphase with hp | hp
      · rw [hp]
        exact hnew
      · rw [hp]
        exact hnew
    · refine (h.fits call hcall).congr ?_
      intro k hk
      have hne : k ≠ id := by
        rintro rfl
        exact hid hk
      dsimp only
      rw [states_accept, accepted_accept, if_neg hne, if_neg hne, List.append_nil]
      exact ⟨rfl,rfl,rfl⟩

theorem kept_next [EmptyCollection Data] {state' : State Data} {action : Action Data} (h : Kept state)
    (htimely : Timely state action = true) (hnext : next state action = some state') : Kept state' := by
  cases action with
  | start timeout =>
    cases hnext
    exact h.start timeout
  | response input =>
    cases hnext
    rcases respond_cases state.wf input with hsame | ⟨interaction,hvalid,hstate,haccept⟩
    · rw [hsame]
      exact h
    · rw [haccept]
      simp only [Timely, hvalid, hstate, Bool.and_eq_true, List.any_eq_true] at htimely
      exact h.accept hstate (beq_iff_eq.mp htimely.1) htimely.2
  | event i event =>
    obtain ⟨call,hi,hcall⟩ := Option.bind_eq_some_iff.mp hnext
    obtain ⟨⟨wf',call'⟩,hadvance,rfl⟩ := Option.map_eq_some_iff.mp hcall
    refine h.event hi hadvance ?_
    intro hanswered
    simpa [Timely, hi, hanswered] using htimely

end Kept

/-- In a run whose responses are in time every response is returned and stored, and none is accepted after a timeout or a
response before. -/
theorem answered_of_reaches [EmptyCollection Data] {wf_exec_id : String} {state : State Data}
    (h : Runs.Reaches next (fun state action => Timely state action = true) (started wf_exec_id) state) :
    ∀ call ∈ state.calls, Answered state.wf call := by
  have hkept : Kept state := by
    refine h.invariant (kept_started wf_exec_id) ?_
    intro _ _ _ _ hkept htimely hnext
    exact kept_next hkept htimely hnext
  intro call hcall
  exact answered_of_fits (hkept.fits call hcall)

section Samples

/-- The data of a response, a dict. -/
abbrev Input : Type := List (String × ℕ)

def promptRun : List (Action Input) :=
  [.start false,.event 0 .succeed,.event 0 .succeed,.response ⟨0,"wf",[("answer",7)]⟩,.event 0 .succeed,.event 0 .activate]

theorem answered_prompt : ∃ state : State Input, (∀ call ∈ state.calls, Answered state.wf call) ∧
    state.calls = [⟨false,.completing 0 [("answer",7)]⟩] := by
  have hrun : Runs.followOk next Timely (started "wf") promptRun = some _ := rfl
  exact ⟨_,answered_of_reaches (Runs.reaches_of_followOk hrun),rfl⟩

def earlyRun : List (Action Input) :=
  [.start false,.event 0 .succeed,.response ⟨0,"wf",[("answer",7)]⟩,.event 0 .succeed,.event 0 .succeed]

/-- It is accepted and lost: the call waits, and its wait does not end. -/
theorem early_response_lost : ∃ state : State Input, Runs.Reachable next (started "wf") state ∧
    state.calls = [⟨false,.waiting 0⟩] ∧ state.wf.accepted 0 = [[("answer",7)]] ∧
    next state (.event 0 .activate) = none ∧ ¬ ∀ call ∈ state.calls, Answered state.wf call := by
  have hrun : Runs.follow next (started "wf") earlyRun = some _ := rfl
  refine ⟨_,Runs.reachable_of_follow hrun,rfl,rfl,rfl,?_⟩
  intro hanswered
  obtain ⟨events,hevents,wf',hfollow,-⟩ :=
    (hanswered ⟨false,.waiting 0⟩ List.mem_cons_self).returns 0 [("answer",7)] rfl List.mem_cons_self
  cases events with
  | nil => cases hfollow
  | cons event events =>
    have hnone : (none : Option (Workflow Input × Call Input)) = some (wf',⟨false,.returned 0 [("answer",7)]⟩) := by
      rcases hevents event List.mem_cons_self with rfl | rfl
      · exact hfollow
      · exact hfollow
    cases hnone

end Samples
end Interactions
end Allama

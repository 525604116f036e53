import Allama.OAuthTokens

/-! When the stored tokens of an integration are those that the provider issued last. -/
namespace Allama
open Function
namespace OAuthTokens

def Phase.response : Phase → Option TokenResponse
  | .answered _ response => some response
  | .connecting response => some response
  | .storing _ response => some response
  | _ => none

def Phase.token (phase : Phase) : Option Text := phase.response.bind TokenResponse.refresh_token

/-- The call has committed. -/
def Phase.done : Phase → Bool
  | .reloading | .returned => true
  | _ => false

/-- The columns that an UPDATE leaves out have the values that they are to have. -/
structure Update.Keeps (update : Update) (row target : Row) : Prop where
  access_token : update.access_token = none → row.access_token = target.access_token
  refresh_token : update.refresh_token = none → row.refresh_token = target.refresh_token
  expires_at : update.expires_at = none → row.expires_at = target.expires_at
  scope : update.scope = none → row.scope = target.scope

/-- A step with which no refresh token of the provider gets lost before it is stored, no tokens are stored after others that the
provider issued later, none are refreshed after a disconnect, every column that an UPDATE leaves out has the right value, and no
refresh fails that has committed. -/
def Fits (st : State) : Action → Prop
  | .answer _ (some response) delivered => delivered = true ∨ response.refresh_token = none
  | .fail id => ∀ call, st.calls id = some call → (call.request = .refresh → call.phase ≠ .reloading) ∧
    ∀ token, call.phase.token = some token → st.last ≠ some token
  | .commit id => ∀ call, st.calls id = some call →
    (∀ token, call.phase.token = some token → st.last = some token) ∧
    (∀ loaded response, call.phase = .answered loaded response → st.connected = true) ∧
    (∀ response, call.phase = .storing none response → st.row = none) ∧
    ∀ target update row, call.phase.writes st.now = some (target,update) → st.row = some row → update.Keeps row target
  | _ => True

/-- What is to hold of the stored tokens: all columns are from one response, or empty without a connection; the refresh token is the
last one, unless a call is about to store that; and a refresh that has failed has not written. -/
structure Correct (st : State) : Prop where
  one : st.connected = true → ∃ response ∈ st.responses, ∃ now, st.row = some (.of response now)
  latest : (∀ id call token, st.calls id = some call → call.phase.token = some token → st.last ≠ some token) →
    ∀ row token, st.row = some row → row.refresh_token = some token → st.last = some token
  disconnected : st.connected = false → ∀ row, st.row = some row → row = .empty
  failed : ∀ id call, st.calls id = some call → call.request = .refresh → call.phase = .failed → id ∉ st.writes

section Updates
variable {st st' : State} {id : ℕ} {call call' : Call}

theorem apply_eq {update : Update} {row target : Row} (h : update.Keeps row target)
    (haccess : ∀ v, update.access_token = some v → v = target.access_token)
    (hrefresh : ∀ v, update.refresh_token = some v → v = target.refresh_token)
    (hexpires : ∀ v, update.expires_at = some v → v = target.expires_at)
    (hscope : ∀ v, update.scope = some v → v = target.scope) : update.apply row = target := by
  have hcolumn {A : Type} {set : Option (Option A)} {old new : Option A} (hkept : set = none → old = new)
      (hset : ∀ v, set = some v → v = new) : set.getD old = new := by
    cases set with
    | none => exact hkept rfl
    | some v => exact hset v rfl
  have h₁ := hcolumn h.access_token haccess
  have h₂ := hcolumn h.refresh_token hrefresh
  have h₃ := hcolumn h.expires_at hexpires
  have h₄ := hcolumn h.scope hscope
  obtain ⟨access_token,refresh_token,expires_at,scope⟩ := target
  exact Row.mk.injEq _ _ _ _ _ _ _ _ ▸ ⟨h₁,h₂,h₃,h₄⟩

theorem eq_of_changed {A : Type} [DecidableEq A] {loaded new v : Option A} (h : changed loaded new = some v) : v = new := by
  unfold changed at h
  split at h
  · cases h
  · exact (Option.some.inj h).symm

theorem eq_of_assigned {A : Type} {loaded new v : Option A} (h : assigned loaded new = some v) : v = new := by
  unfold assigned at h
  split at h
  · cases h
  · exact (Option.some.inj h).symm

theorem apply_writes {phase : Phase} {now : ℕ} {target row : Row} {update : Update} (h : phase.writes now = some (target,update))
    (hkeeps : update.Keeps row target) : update.apply row = target := by
  cases phase with
  | answered loaded response =>
    cases h
    refine apply_eq hkeeps (fun _ => eq_of_assigned) ?_ (fun _ => eq_of_assigned) fun _ => eq_of_changed
    intro v hv
    obtain ⟨token,htoken,rfl⟩ := Option.map_eq_some_iff.mp hv
    exact htoken.symm
  | storing loaded response =>
    cases loaded with
    | none => cases h
    | some loaded =>
      cases h
      exact apply_eq hkeeps (fun _ => eq_of_assigned) (fun _ => eq_of_assigned) (fun _ => eq_of_assigned) fun _ => eq_of_changed
  | wiping loaded =>
    cases h
    exact apply_eq hkeeps (fun _ => eq_of_changed) (fun _ => eq_of_changed) (fun _ => eq_of_changed) fun _ => eq_of_changed
  | _ => cases h

end Updates

section Invariant
variable {grant : GrantType} {st st' : State} {id : ℕ} {call call' : Call}

def State.Owed (st : State) : Prop := ∃ id call token, st.calls id = some call ∧ call.phase.token = some token ∧ st.last = some token

structure Sound (st : State) : Prop where
  one : st.connected = true → ∃ response ∈ st.responses, ∃ now, st.row = some (.of response now)
  latest : ∀ row token, st.row = some row → row.refresh_token = some token → st.last = some token ∨ st.Owed
  disconnected : st.connected = false → ∀ row, st.row = some row → row = .empty
  held : ∀ id call response, st.calls id = some call → call.phase.response = some response → response ∈ st.responses
  writes : ∀ id ∈ st.writes, ∃ call, st.calls id = some call ∧ (call.request = .refresh → call.phase.done = true)

theorem Sound.correct (h : Sound st) : Correct st := by
  refine ⟨h.one,?_,h.disconnected,?_⟩
  · intro hnone row token hrow htoken
    rcases h.latest row token hrow htoken with hlast | ⟨id,call,token',hcall,hheld,hlast⟩
    · exact hlast
    · exact (hnone id call token' hcall hheld hlast).elim
  · intro id call hcall hrefresh hfailed hwrite
    obtain ⟨call',hcall',hdone⟩ := h.writes id hwrite
    obtain rfl := Option.some.inj (hcall.symm.trans hcall')
    have hdone := hdone hrefresh
    rw [hfailed] at hdone
    cases hdone

theorem State.Owed.step (h : st.Owed) (hcalls : st'.calls = update st.calls id (some call')) (hlast : st'.last = st.last)
    (hself : ∀ call token, st.calls id = some call → call.phase.token = some token → st.last = some token →
      call'.phase.token = some token) : st'.Owed := by
  obtain ⟨i,call,token,hcall,hheld,howed⟩ := h
  by_cases hi : i = id
  · subst hi
    refine ⟨i,call',token,?_,hself call token hcall hheld howed,hlast.trans howed⟩
    rw [hcalls, update_self]
  · refine ⟨i,call,token,?_,hheld,hlast.trans howed⟩
    rw [hcalls, update_of_ne hi]
    exact hcall

theorem held_step (h : Sound st) (hcalls : st'.calls = update st.calls id (some call'))
    (hresponses : ∀ response ∈ st.responses, response ∈ st'.responses)
    (hself : ∀ response, call'.phase.response = some response → response ∈ st'.responses) :
    ∀ i call response, st'.calls i = some call → call.phase.response = some response → response ∈ st'.responses := by
  intro i call response hcall hresponse
  rw [hcalls] at hcall
  by_cases hi : i = id
  · subst hi
    rw [update_self] at hcall
    cases hcall
    exact hself response hresponse
  · rw [update_of_ne hi] at hcall
    exact hresponses response (h.held i call response hcall hresponse)

theorem writes_step (h : Sound st) (hcalls : st'.calls = update st.calls id (some call'))
    (hself : ∀ call, st.calls id = some call → call'.request = .refresh →
      call.request = .refresh ∧ (call.phase.done = true → call'.phase.done = true))
    (hwrites : st'.writes = st.writes ∨ st'.writes = id :: st.writes ∧ call'.phase.done = true) :
    ∀ i ∈ st'.writes, ∃ call, st'.calls i = some call ∧ (call.request = .refresh → call.phase.done = true) := by
  have hold : ∀ i ∈ st.writes, ∃ call, st'.calls i = some call ∧ (call.request = .refresh → call.phase.done = true) := by
    intro i hi
    obtain ⟨call,hcall,hdone⟩ := h.writes i hi
    rw [hcalls]
    by_cases heq : i = id
    · subst heq
      rw [update_self]
      refine ⟨call',rfl,fun hrefresh => ?_⟩
      obtain ⟨hsame,hkept⟩ := hself call hcall hrefresh
      exact hkept (hdone hsame)
    · rw [update_of_ne heq]
      exact ⟨call,hcall,hdone⟩
  intro i hi
  rcases hwrites with heq | ⟨heq,hdone⟩
  · exact hold i (heq ▸ hi)
  · rw [heq] at hi
    rcases List.mem_cons.mp hi with rfl | hi
    · refine ⟨call',?_,fun _ => hdone⟩
      rw [hcalls, update_self]
    · exact hold i hi

theorem Sound.quiet (h : Sound st) (hcall : st.calls id = some call) {phase : Phase}
    (hdone : call.request = .refresh → call.phase.done = true → phase.done = true)
    (hresponse : ∀ response, phase.response = some response → call.phase.response = some response)
    (htoken : ∀ token, call.phase.token = some token → st.last = some token → phase.token = some token) :
    Sound (st.setPhase id call phase) := by
  have hcalls : (st.setPhase id call phase).calls = update st.calls id (some ⟨call.request,phase⟩) := rfl
  refine ⟨h.one,?_,h.disconnected,held_step h hcalls (fun _ hr => hr) ?_,writes_step h hcalls ?_ (.inl rfl)⟩
  · intro row token hrow hrefresh
    rcases h.latest row token hrow hrefresh with hlast | howed
    · exact .inl hlast
    · refine .inr (howed.step hcalls rfl ?_)
      intro call' token' hcall' hheld hlast
      obtain rfl := Option.some.inj (hcall.symm.trans hcall')
      exact htoken token' hheld hlast
  · intro response hheld
    exact h.held id call response hcall (hresponse response hheld)
  · intro call' hcall' hrefresh
    obtain rfl := Option.some.inj (hcall.symm.trans hcall')
    exact ⟨hrefresh,hdone hrefresh⟩

theorem Sound.start (h : Sound st) (hstart : st.start id call = some st') (hresponse : ∀ response, call.phase.response = some response →
    response ∈ st.responses) : Sound st' := by
  unfold State.start at hstart
  split at hstart
  · cases hstart
  · rename_i hnone
    cases hstart
    have hnew : ∀ call', st.calls id ≠ some call' := by
      intro call' hcall'
      rw [hcall'] at hnone
      exact hnone rfl
    refine ⟨h.one,?_,h.disconnected,held_step h rfl (fun _ hr => hr) hresponse,writes_step h rfl ?_ (.inl rfl)⟩
    · intro row token hrow hrefresh
      rcases h.latest row token hrow hrefresh with hlast | howed
      · exact .inl hlast
      · refine .inr (howed.step rfl rfl ?_)
        intro call' token' hcall'
        exact (hnew call' hcall').elim
    · intro call' hcall'
      exact (hnew call' hcall').elim

theorem Sound.written (h : Sound st) (hcall : st.calls id = some call) {row : Row}
    {connected : Bool} (hone : connected = true → ∃ response ∈ st.responses, ∃ now, row = .of response now)
    (hdisconnected : connected = false → row = .empty) (hlatest : ∀ token, row.refresh_token = some token → st.last = some token) :
    Sound { st.setPhase id call call.committed with row := some row, connected := connected, writes := id :: st.writes } := by
  have hcommitted : call.committed.response = none ∧ call.committed.done = true := by
    unfold Call.committed
    split <;> exact ⟨rfl,rfl⟩
  refine ⟨?_,?_,?_,held_step h rfl (fun _ hr => hr) ?_,writes_step h rfl ?_ (.inr ⟨rfl,hcommitted.2⟩)⟩
  · intro hconnected
    obtain ⟨response,hmem,now,rfl⟩ := hone hconnected
    exact ⟨response,hmem,now,rfl⟩
  · intro row' token hrow hrefresh
    cases hrow
    exact .inl (hlatest token hrefresh)
  · intro hno row' hrow
    cases hrow
    exact hdisconnected hno
  · intro response hheld
    cases hcommitted.1.symm.trans hheld
  · intro call' hcall' hrefresh
    obtain rfl := Option.some.inj (hcall.symm.trans hcall')
    exact ⟨hrefresh,fun _ => hcommitted.2⟩

/-- The provider issues a response, which a call has. -/
theorem Sound.issue (h : Sound st) {response : TokenResponse} (hcalls : st'.calls = update st.calls id (some call'))
    (hstate : st'.last = (st.issue response).last ∧ st'.responses = response :: st.responses ∧ st'.row = st.row ∧
      st'.connected = st.connected ∧ st'.writes = st.writes)
    (hasking : ∀ call, st.calls id = some call → call'.request = call.request ∧ call.phase.done = false ∧
      call.phase.token = none)
    (hresponse : ∀ r, call'.phase.response = some r → r = response)
    (htoken : call'.phase.token = response.refresh_token ∨ response.refresh_token = none) : Sound st' := by
  obtain ⟨hlast,hresponses,hrow,hconnected,hwrites⟩ := hstate
  refine ⟨?_,?_,?_,held_step h hcalls ?_ ?_,writes_step h hcalls ?_ (.inl hwrites)⟩
  · intro hc
    obtain ⟨r,hmem,now,hof⟩ := h.one (hconnected ▸ hc)
    exact ⟨r,hresponses ▸ List.mem_cons_of_mem _ hmem,now,hrow.trans hof⟩
  · intro row token hrow' hrefresh
    cases hissued : response.refresh_token with
    | some issued =>
      -- the new token is owed by this call
      refine .inr ⟨id,call',issued,?_,?_,?_⟩
      · rw [hcalls, update_self]
      · rcases htoken with heq | hnone
        · rw [heq, hissued]
        · rw [hissued] at hnone
          cases hnone
      · rw [hlast]
        change response.refresh_token.or st.last = some issued
        rw [hissued]
        rfl
    | none =>
      have hsame : st'.last = st.last := by
        rw [hlast]
        change response.refresh_token.or st.last = st.last
        rw [hissued]
        rfl
      rcases h.latest row token (hrow ▸ hrow') hrefresh with hl | howed
      · exact .inl (hsame.trans hl)
      · refine .inr (howed.step hcalls hsame ?_)
        intro call token' hcall hheld
        rw [(hasking call hcall).2.2] at hheld
        cases hheld
  · intro hno row hrow'
    exact h.disconnected (hconnected ▸ hno) row (hrow ▸ hrow')
  · intro r hr
    exact hresponses ▸ List.mem_cons_of_mem _ hr
  · intro r hr
    exact hresponses ▸ hresponse r hr ▸ List.mem_cons_self
  · intro call hcall hrefresh
    obtain ⟨hrequest,hdone,-⟩ := hasking call hcall
    exact ⟨hrequest ▸ hrefresh,fun h => absurd (hdone.symm.trans h) Bool.false_ne_true⟩

end Invariant

section Steps
variable {grant : GrantType} {st st' : State} {id : ℕ} {call : Call}

theorem response_read {phase phase' : Phase} {request : Request} (h : read grant st phase request = some phase') :
    phase.done = false ∧ phase'.response = phase.response := by
  cases request with
  | refresh =>
    simp only [read] at h
    split at h
    · rename_i hbegun
      cases h
      subst hbegun
      refine ⟨rfl,?_⟩
      unfold refreshRead
      split
      · rfl
      · split
        · rfl
        · split
          · rfl
          · split <;> rfl
    · cases h
  | store =>
    simp only [read] at h
    split at h
    · cases h
      exact ⟨rfl,rfl⟩
    · cases h
  | disconnect =>
    simp only [read] at h
    split at h
    · rename_i hbegun
      cases h
      subst hbegun
      refine ⟨rfl,?_⟩
      cases st.row <;> rfl
    · cases h

theorem target_writes {phase : Phase} {now : ℕ} {target : Row} {update : Update} (h : phase.writes now = some (target,update)) :
    phase.done = false ∧
      ((∃ response, phase.response = some response ∧ target = .of response now ∧
        ((∃ loaded, phase = .answered loaded response) ∨ ∀ connected, phase.connects connected = true)) ∨
      target = .empty ∧ ∀ connected, phase.connects connected = false) := by
  cases phase with
  | answered loaded response =>
    cases h
    exact ⟨rfl,.inl ⟨response,rfl,rfl,.inl ⟨loaded,rfl⟩⟩⟩
  | storing loaded response =>
    cases loaded with
    | none => cases h
    | some loaded =>
      cases h
      exact ⟨rfl,.inl ⟨response,rfl,rfl,.inr fun _ => rfl⟩⟩
  | wiping loaded =>
    cases h
    exact ⟨rfl,.inr ⟨rfl,fun _ => rfl⟩⟩
  | _ => cases h

theorem Sound.commit (h : Sound st) (hcall : st.calls id = some call) (hfits : Fits st (.commit id))
    (hcommit : st.commit id call = some st') : Sound st' := by
  obtain ⟨hlast,hrefresh,hnew,hkeeps⟩ := hfits call hcall
  unfold State.commit at hcommit
  split at hcommit
  · rename_i response hphase
    rw [hnew response hphase] at hcommit
    cases hcommit
    have hresponse : call.phase.response = some response := by
      rw [hphase]
      rfl
    refine h.written hcall ?_ (fun hno => Bool.noConfusion hno) ?_
    · exact fun _ => ⟨response,h.held id call response hcall hresponse,st.now,rfl⟩
    · intro token htoken
      apply hlast
      unfold Phase.token
      rw [hresponse]
      exact htoken
  · obtain ⟨⟨target,update⟩,hwrites,rfl⟩ := Option.map_eq_some_iff.mp hcommit
    obtain ⟨hopen,htarget⟩ := target_writes hwrites
    cases hrow : st.row with
    | none =>
      -- without a row nothing is owed to it
      refine ⟨?_,?_,?_,held_step h rfl (fun _ hr => hr) ?_,writes_step h rfl ?_ (.inl rfl)⟩
      · intro hconnected
        obtain ⟨response,-,now,hof⟩ := h.one hconnected
        rw [hrow] at hof
        cases hof
      · intro row token hrow'
        cases hrow.symm.trans hrow'
      · intro _ row hrow'
        cases hrow.symm.trans hrow'
      · intro response hheld
        cases hheld
      · intro call' hcall' hrefresh
        obtain rfl := Option.some.inj (hcall.symm.trans hcall')
        exact ⟨hrefresh,fun hdone => absurd (hopen.symm.trans hdone) Bool.false_ne_true⟩
    | some row =>
      have happly := apply_writes hwrites (hkeeps target update row hwrites hrow)
      dsimp only
      rw [happly]
      rcases htarget with ⟨response,hresponse,rfl,hphase⟩ | ⟨rfl,hdisconnects⟩
      · have hconnected : call.phase.connects st.connected = true := by
          rcases hphase with ⟨loaded,hphase⟩ | hstores
          · rw [hphase]
            exact hrefresh loaded response hphase
          · exact hstores st.connected
        rw [hconnected]
        refine h.written hcall ?_ (fun hno => Bool.noConfusion hno) ?_
        · exact fun _ => ⟨response,h.held id call response hcall hresponse,st.now,rfl⟩
        · intro token htoken
          apply hlast
          unfold Phase.token
          rw [hresponse]
          exact htoken
      · rw [hdisconnects]
        refine h.written hcall (fun hno => Bool.noConfusion hno) (fun _ => rfl) ?_
        intro token htoken
        cases htoken

theorem Sound.answer (h : Sound st) (hcall : st.calls id = some call) {loaded : Row} (hphase : call.phase = .asking loaded)
    {response : Option TokenResponse} {delivered : Bool} (hfits : Fits st (.answer id response delivered))
    (hanswer : st.answer grant id call loaded response delivered = some st') : Sound st' := by
  have hasking : call.phase.done = false ∧ call.phase.token = none := by
    rw [hphase]
    exact ⟨rfl,rfl⟩
  cases response with
  | none =>
    cases hanswer
    refine h.quiet hcall (fun _ hdone => absurd (hasking.1.symm.trans hdone) Bool.false_ne_true)
      (fun response hr => Option.noConfusion rfl (heq_of_eq hr)) ?_
    intro token htoken
    rw [hasking.2] at htoken
    cases htoken
  | some response =>
    simp only [State.answer] at hanswer
    split at hanswer
    · cases hanswer
      refine h.issue rfl ⟨rfl,rfl,rfl,rfl,rfl⟩ ?_ ?_ ?_
      · intro call' hcall'
        obtain rfl := Option.some.inj (hcall.symm.trans hcall')
        exact ⟨rfl,hasking⟩
      · intro r hr
        cases delivered with
        | true => exact (Option.some.inj hr).symm
        | false => cases hr
      · cases delivered with
        | true => exact .inl rfl
        | false => exact .inr (hfits.resolve_left Bool.false_ne_true)
    · cases hanswer

theorem Sound.next (h : Sound st) {action : Action} (hfits : Fits st action) (hnext : next grant st action = some st') :
    Sound st' := by
  cases action with
  | tick elapsed =>
    cases hnext
    exact ⟨h.one,h.latest,h.disconnected,h.held,h.writes⟩
  | refresh id => exact h.start hnext fun _ hr => by cases hr
  | disconnect id => exact h.start hnext fun _ hr => by cases hr
  | connect id response =>
    simp only [OAuthTokens.next] at hnext
    split at hnext
    · unfold State.start at hnext
      split at hnext
      · cases hnext
      · rename_i hnone
        cases hnext
        refine h.issue rfl ⟨rfl,rfl,rfl,rfl,rfl⟩ ?_ (fun r hr => (Option.some.inj hr).symm) (.inl rfl)
        intro call hcall
        exact (hnone (Option.isSome_iff_exists.mpr ⟨call,hcall⟩)).elim
    · cases hnext
  | read id =>
    obtain ⟨call,hcall,hnext⟩ := Option.bind_eq_some_iff.mp hnext
    obtain ⟨phase,hread,rfl⟩ := Option.map_eq_some_iff.mp hnext
    obtain ⟨hopen,hresponse⟩ := response_read hread
    refine h.quiet hcall (fun _ hdone => absurd (hopen.symm.trans hdone) Bool.false_ne_true) (fun _ hr => hresponse ▸ hr) ?_
    intro token htoken _
    unfold Phase.token at htoken ⊢
    rw [hresponse]
    exact htoken
  | answer id response delivered =>
    obtain ⟨call,hcall,hnext⟩ := Option.bind_eq_some_iff.mp hnext
    split at hnext
    · rename_i hphase
      exact h.answer hcall hphase hfits hnext
    · cases hnext
  | commit id =>
    obtain ⟨call,hcall,hcommit⟩ := Option.bind_eq_some_iff.mp hnext
    exact h.commit hcall hfits hcommit
  | reload id =>
    obtain ⟨call,hcall,hnext⟩ := Option.bind_eq_some_iff.mp hnext
    split at hnext
    · rename_i hphase
      cases hnext
      refine h.quiet hcall (fun _ _ => rfl) (fun _ hr => by cases hr) fun token htoken => ?_
      rw [hphase] at htoken
      cases htoken
    · cases hnext
  | fail id =>
    obtain ⟨call,hcall,hnext⟩ := Option.bind_eq_some_iff.mp hnext
    obtain ⟨hkept,hlost⟩ := hfits call hcall
    split at hnext
    · rename_i hrunning
      cases hnext
      refine h.quiet hcall (fun hrefresh hdone => ?_) (fun _ hr => by cases hr) fun token htoken hlast =>
        (hlost token htoken hlast).elim
      -- a call that is done and still runs loads the row again
      have hreloading := hkept hrefresh
      cases hphase : call.phase <;> rw [hphase] at hrunning hdone hreloading <;>
        first | exact absurd rfl hreloading | exact Bool.noConfusion hdone | exact Bool.noConfusion hrunning
    · cases hnext

/-- In runs whose steps all fit, the stored tokens are what they should be, whatever the grant and the overlaps of the calls. -/
theorem tokens_correct (grant : GrantType) (configured : Bool) (h : Runs.Reaches (next grant) Fits (started configured) st) :
    Correct st := by
  have hstarted : Sound (started configured) := by
    refine ⟨fun hno => Bool.noConfusion hno,?_,?_,?_,fun _ hw => (List.not_mem_nil hw).elim⟩
    · intro row token hrow htoken
      cases configured with
      | true =>
        cases hrow
        cases htoken
      | false => cases hrow
    · intro _ row hrow
      cases configured with
      | true => exact (Option.some.inj hrow).symm
      | false => cases hrow
    · intro id call response hcall
      cases hcall
  exact (h.invariant hstarted fun _ _ _ _ hs hfits hnext => hs.next hfits hnext).correct

end Steps

section Samples

def sampleResponse (name scope : String) : TokenResponse := ⟨name.toList,some (name.toList ++ ['r']),60,scope.toList⟩

def connects : List Action := [.connect 0 (sampleResponse "a" "x"),.read 0,.commit 0,.reload 0]

/-- A refresh that has the answer of the provider. -/
def refreshes : List Action := [.refresh 1,.read 1,.answer 1 (some (sampleResponse "b" "x")) true]

theorem tokens_correct_refreshed : ∃ st, Runs.follow (next .authorizationCode) (started true) (connects ++ refreshes ++ [.commit 1,.reload 1]) =
    some st ∧ st.row = some (.of (sampleResponse "b" "x") 0) ∧ Correct st := by
  refine ⟨_,rfl,rfl,tokens_correct .authorizationCode true ?_⟩
  have hfirst : Runs.Reaches (next .authorizationCode) Fits (started true) (started true) := .refl
  have hread := (hfirst.step (a := Action.connect 0 (sampleResponse "a" "x")) trivial rfl).step (a := Action.read 0) trivial rfl
  have hconnected := hread.step (a := Action.commit 0) ?_ rfl
  · have hanswered := (((hconnected.step (a := Action.reload 0) trivial rfl).step (a := Action.refresh 1) trivial rfl).step (a := Action.read 1) trivial rfl).step
      (a := Action.answer 1 (some (sampleResponse "b" "x")) true) (.inl rfl) rfl
    refine (hanswered.step (a := Action.commit 1) ?_ rfl).step (a := Action.reload 1) trivial rfl
    intro call hcall
    cases hcall
    refine ⟨fun _ htoken => htoken,fun _ _ _ => rfl,fun _ h => Phase.noConfusion h,?_⟩
    intro target update row hwrites hrow
    cases hwrites
    cases hrow
    refine ⟨?_,?_,?_,fun _ => rfl⟩ <;> intro h <;> cases h
  · intro call hcall
    cases hcall
    refine ⟨fun _ htoken => htoken,fun _ _ h => Phase.noConfusion h,?_,?_⟩
    · intro response h
      cases h
    · intro target update row hwrites hrow
      cases hwrites
      cases hrow
      constructor <;> intro h <;> cases h

def resurrection : List Action := connects ++ refreshes ++ [.disconnect 2,.read 2,.commit 2,.commit 1]

def mixture : List Action := connects ++ refreshes ++ [.connect 2 (sampleResponse "c" "y"),.read 2,.commit 2,.commit 1]

def loss : List Action := connects ++ refreshes ++ [.fail 1]

def lateFailure : List Action := connects ++ refreshes ++ [.commit 1,.fail 1]

/-- A refresh brings tokens back after a disconnect; it stores its tokens beside the scope of a later connection; it loses the
refresh token that the provider has rotated; and it fails after it has stored its tokens. -/
theorem tokens_go_wrong :
    (∃ st, Runs.follow (next .authorizationCode) (started true) resurrection = some st ∧ st.connected = false ∧
      st.row = some ⟨some "b".toList,some "br".toList,some 60,none⟩ ∧ ¬ Correct st) ∧
    (∃ st, Runs.follow (next .authorizationCode) (started true) mixture = some st ∧
      st.row = some ⟨some "b".toList,some "br".toList,some 60,some "y".toList⟩ ∧ st.last = some "cr".toList ∧ ¬ Correct st) ∧
    (∃ st, Runs.follow (next .authorizationCode) (started true) loss = some st ∧ st.row = some (.of (sampleResponse "a" "x") 0) ∧
      st.last = some "br".toList ∧ ¬ Correct st) ∧
    ∃ st, Runs.follow (next .authorizationCode) (started true) lateFailure = some st ∧
      st.row = some (.of (sampleResponse "b" "x") 0) ∧ ¬ Correct st := by
  refine ⟨⟨_,rfl,rfl,rfl,?_⟩,⟨_,rfl,rfl,rfl,?_⟩,⟨_,rfl,rfl,rfl,?_⟩,_,rfl,rfl,fun h => ?_⟩
  · intro h
    have hempty := h.disconnected rfl ⟨some "b".toList,some "br".toList,some 60,none⟩ rfl
    cases hempty
  · intro h
    obtain ⟨response,hmem,now,hrow⟩ := h.one rfl
    have hnone : ∀ r ∈ [sampleResponse "c" "y",sampleResponse "b" "x",sampleResponse "a" "x"],
      ¬ (r.access_token = "b".toList ∧ r.scope = "y".toList) := by decide
    have hsome : some (⟨some "b".toList,some "br".toList,some 60,some "y".toList⟩ : Row) = some (.of response now) := hrow
    obtain ⟨haccess,-,-,hscope⟩ := Row.mk.inj (Option.some.inj hsome)
    exact hnone response hmem ⟨(Option.some.inj haccess).symm,(Option.some.inj hscope).symm⟩
  · intro h
    have hlast := h.latest ?_ (.of (sampleResponse "a" "x") 0) "ar".toList rfl rfl
    · exact absurd hlast (by decide)
    · intro id call token hcall htoken
      by_cases hone : id = 1
      · subst hone
        cases hcall
        cases htoken
      · by_cases hzero : id = 0
        · subst hzero
          cases hcall
          cases htoken
        · -- the two calls of the run are the only ones
          change update (update (update (update (update (update
            (update (update (fun _ => none) 0 _) 0 _) 0 _) 0 _) 1 _) 1 _) 1 _) 1 _ id = some call at hcall
          simp only [update_of_ne hone, update_of_ne hzero, reduceCtorEq] at hcall
  · exact h.failed 1 ⟨.refresh,.failed⟩ rfl rfl rfl List.mem_cons_self

end Samples
end OAuthTokens
end Allama

import Allama.InvitationRuns

/-! The invitation calls step by step, and the runs that keep what acceptance promises. -/
namespace Allama
namespace Invitations
open IdRows
section Reads
variable {config : Config} {st : State} {call : Call} {phase : Phase}

def Phase.invitation : Phase → Option Invitation
  | .found invitation => some invitation
  | .entering invitation _ => some invitation
  | .accepting invitation _ => some invitation
  | _ => none

def Phase.joins : Phase → List MembershipRow
  | .entering _ joins => joins
  | .accepting _ joins => joins
  | _ => []

/-- What a statement that reads leads a call to. -/
structure Reads (config : Config) (st : State) (call : Call) (phase : Phase) : Prop where
  uncommitted : call.phase.uncommitted = true
  invitation : ∀ invitation, phase.invitation = some invitation → invitation ∈ st.invitations ∨ call.phase.invitation = some invitation
  joins : ∀ m ∈ phase.joins, m ∈ call.phase.joins ∨ call.request.acceptor = some m.user_id
  named : ∀ user_id token invitation joins, call.request = .acceptOrganization user_id token → phase = .accepting invitation joins →
    Named config user_id invitation
  unsettled : phase ≠ .committed ∧ phase ≠ .returned

theorem Reads.of_bare (huncommitted : call.phase.uncommitted = true) (hinv : phase.invitation = none) (hjoins : phase.joins = [])
    (hunsettled : phase ≠ .committed ∧ phase ≠ .returned) : Reads config st call phase := by
  refine ⟨huncommitted,?_,?_,?_,hunsettled⟩
  · intro invitation h
    rw [hinv] at h
    cases h
  · intro m hm
    rw [hjoins] at hm
    cases hm
  · rintro _ _ invitation joins - rfl
    cases hinv

theorem Reads.raised (huncommitted : call.phase.uncommitted = true) : Reads config st call .raised :=
  .of_bare huncommitted rfl rfl ⟨Phase.noConfusion,Phase.noConfusion⟩

theorem Reads.begun (hbegun : call.phase = .begun) (workspace : Bool) (token : Text) :
    Reads config st call ((st.byToken workspace token).elim .raised .found) := by
  have huncommitted : call.phase.uncommitted = true := by
    rw [hbegun]
    rfl
  cases htoken : st.byToken workspace token with
  | none => exact .raised huncommitted
  | some found =>
    refine ⟨huncommitted,?_,fun _ hm => (List.not_mem_nil hm).elim,fun _ _ _ _ _ h => Phase.noConfusion h,
      ⟨Phase.noConfusion,Phase.noConfusion⟩⟩
    rintro invitation h
    cases h
    exact .inl (List.mem_of_find?_eq_some htoken)

theorem reads_forUser {user_id : ℕ} {token : Text} (hrequest : call.request = .acceptOrganization user_id token)
    (h : acceptInvitationForUser config st user_id token call.phase = some phase) : Reads config st call phase := by
  obtain ⟨request,old⟩ := call
  obtain rfl : request = _ := hrequest
  change acceptInvitationForUser config st user_id token old = some phase at h
  cases old <;> simp only [acceptInvitationForUser, Option.some.injEq, reduceCtorEq] at h
  case begun =>
    rw [← h]
    exact .begun rfl _ _
  case found invitation =>
    cases hemail : config.email user_id with
    | none =>
      simp only [hemail] at h
      rw [← h]
      exact .raised rfl
    | some email =>
      simp only [hemail] at h
      split at h
      · rw [← h]
        exact .raised rfl
      · rename_i hsame
        split at h
        · rw [← h]
          exact .raised rfl
        · rw [← h]
          refine ⟨rfl,fun inv hinv => .inr hinv,fun _ hm => (List.not_mem_nil hm).elim,?_,⟨Phase.noConfusion,Phase.noConfusion⟩⟩
          intro user_id' token' invitation' joins hrequest' hphase
          cases hrequest'
          cases hphase
          exact ⟨email,hemail,not_not.mp hsame⟩

theorem reads_workspace {user_id : ℕ} {token : Text} (hrequest : call.request = .acceptWorkspace user_id token)
    (h : acceptWorkspaceInvitation config st user_id token call.phase = some phase) : Reads config st call phase := by
  obtain ⟨request,old⟩ := call
  obtain rfl : request = _ := hrequest
  change acceptWorkspaceInvitation config st user_id token old = some phase at h
  have hnamed {next : Phase} : ∀ user_id' token' invitation joins, Request.acceptWorkspace user_id token =
      .acceptOrganization user_id' token' → next = .accepting invitation joins → Named config user_id' invitation :=
    fun _ _ _ _ hrequest => Request.noConfusion hrequest
  cases old <;> simp only [acceptWorkspaceInvitation, Option.some.injEq, reduceCtorEq] at h
  case begun =>
    rw [← h]
    exact .begun rfl _ _
  case found invitation =>
    split at h
    · rw [← h]
      exact .raised rfl
    split at h
    · rw [← h]
      exact .raised rfl
    split at h
    · rw [← h]
      exact ⟨rfl,fun inv hinv => .inr hinv,fun _ hm => (List.not_mem_nil hm).elim,hnamed,⟨Phase.noConfusion,Phase.noConfusion⟩⟩
    · rw [← h]
      refine ⟨rfl,fun inv hinv => .inr hinv,?_,hnamed,⟨Phase.noConfusion,Phase.noConfusion⟩⟩
      intro m hm
      obtain rfl := List.mem_singleton.mp hm
      exact .inr rfl
  case entering invitation joins =>
    split at h
    · rw [← h]
      exact .raised rfl
    · rw [← h]
      exact ⟨rfl,fun inv hinv => .inr hinv,fun m hm => .inl hm,hnamed,⟨Phase.noConfusion,Phase.noConfusion⟩⟩

theorem Reads.plain {request : Request} {old next : Phase} (huncommitted : old.uncommitted = true)
    (hplain : next.invitation = none ∧ next.joins = []) (hunsettled : next ≠ .committed ∧ next ≠ .returned) :
    Reads config st ⟨request,old⟩ next := .of_bare huncommitted hplain.1 hplain.2 hunsettled

theorem reads_createOrganization {caller : Caller} {place : Place} {email : Text} {role : Role}
    (h : createOrganizationInvitation config st caller place email role call.phase = some phase) : Reads config st call phase := by
  obtain ⟨request,old⟩ := call
  change createOrganizationInvitation config st caller place email role old = some phase at h
  cases old <;> simp only [createOrganizationInvitation, Option.some.injEq, reduceCtorEq] at h
  case begun =>
    split_ifs at h <;> subst h <;> exact .plain rfl ⟨rfl,rfl⟩ ⟨Phase.noConfusion,Phase.noConfusion⟩
  case inviting =>
    split at h
    · subst h
      exact .plain rfl ⟨rfl,rfl⟩ ⟨Phase.noConfusion,Phase.noConfusion⟩
    · split_ifs at h <;> subst h <;> exact .plain rfl ⟨rfl,rfl⟩ ⟨Phase.noConfusion,Phase.noConfusion⟩
    · subst h
      exact .raised rfl

theorem reads_createWorkspace {place : Place} {email : Text} (h : createWorkspaceInvitation st place email call.phase = some phase) :
    Reads config st call phase := by
  obtain ⟨request,old⟩ := call
  change createWorkspaceInvitation st place email old = some phase at h
  cases old <;> simp only [createWorkspaceInvitation, Option.some.injEq, reduceCtorEq] at h
  case begun =>
    split_ifs at h <;> subst h <;> exact .plain rfl ⟨rfl,rfl⟩ ⟨Phase.noConfusion,Phase.noConfusion⟩
  case conflicting now =>
    split at h
    · subst h
      exact .raised rfl
    · split_ifs at h <;> subst h <;> exact .plain rfl ⟨rfl,rfl⟩ ⟨Phase.noConfusion,Phase.noConfusion⟩

theorem reads_revoke {place : Place} {invitation_id : ℕ} (hbegun : call.phase = .begun) :
    Reads config st call (revokeInvitation st place invitation_id) := by
  have huncommitted : call.phase.uncommitted = true := by
    rw [hbegun]
    rfl
  unfold revokeInvitation
  split
  · exact .raised huncommitted
  · split
    · exact .raised huncommitted
    · exact .of_bare huncommitted rfl rfl ⟨Phase.noConfusion,Phase.noConfusion⟩

theorem reads_of_read (h : read config st call = some phase) : Reads config st call phase := by
  unfold read at h
  split at h
  · exact reads_createOrganization h
  · exact reads_createWorkspace h
  · rename_i hrequest
    exact reads_forUser hrequest h
  · rename_i hrequest
    exact reads_workspace hrequest h
  · split at h
    · rename_i hbegun
      cases h
      exact reads_revoke hbegun
    · cases h

end Reads

section Calls
variable {config : Config} {initial : List MembershipRow} {st st' : State} {id : ℕ} {call call' : Call}

def State.knows (st : State) (invitation : Invitation) : Prop :=
  invitation.id < st.created ∧ ∀ row ∈ st.rows, row.id = invitation.id → row.terms = invitation.terms

/-- What a call holds. -/
structure Captured (config : Config) (st : State) (call : Call) : Prop where
  knows : ∀ invitation, call.phase.invitation = some invitation → st.knows invitation
  joins : ∀ m ∈ call.phase.joins, call.request.acceptor = some m.user_id
  named : ∀ user_id token invitation joins, call.request = .acceptOrganization user_id token →
    call.phase = .accepting invitation joins → Named config user_id invitation

/-- A call that has committed an acceptance does not raise. -/
def Settled (call : Call) : Prop := (call.phase = .committed ∨ call.phase = .returned) ∧ call.request.acceptor ≠ none

structure Sound (config : Config) (initial : List MembershipRow) (st : State) : Prop where
  recorded : Recorded config initial st
  captured : ∀ id call, st.calls id = some call → Captured config st call
  settled : ∀ g ∈ st.grants, ∃ call, st.calls g.call = some call ∧ Settled call

theorem Later.knows (h : Later st st') {invitation : Invitation} (hknows : st.knows invitation) : st'.knows invitation := by
  refine ⟨hknows.1.trans_le h.created,?_⟩
  intro row' hrow' hid
  obtain ⟨row,hrow,hsame,hterms⟩ := h.rows row' hrow' (hid ▸ hknows.1)
  exact hterms.symm.trans (hknows.2 row hrow (hsame.trans hid))

theorem Captured.later (h : Captured config st call) (hlater : Later st st') : Captured config st' call :=
  ⟨fun invitation hinv => hlater.knows (h.knows invitation hinv),h.joins,h.named⟩

theorem Recorded.knows (h : Recorded config initial st) {invitation : Invitation} (hinv : invitation ∈ st.invitations) :
    st.knows invitation := by
  have hmem : invitation ∈ st.rows := List.mem_append_left _ hinv
  refine ⟨h.fresh _ hmem,?_⟩
  intro row hrow hid
  rw [List.inj_on_of_nodup_map h.ids hrow hmem hid]

theorem Captured.read (h : Captured config st call) (hrecorded : Recorded config initial st) {phase : Phase}
    (hreads : Reads config st call phase) : Captured config st ⟨call.request,phase⟩ := by
  refine ⟨?_,?_,hreads.named⟩
  · intro invitation hinv
    rcases hreads.invitation invitation hinv with hmem | hheld
    · exact hrecorded.knows hmem
    · exact h.knows invitation hheld
  · intro m hm
    rcases hreads.joins m hm with hm | hm
    · exact h.joins m hm
    · exact hm

theorem Captured.bare (request : Request) {phase : Phase} (hinv : phase.invitation = none) (hjoins : phase.joins = []) :
    Captured config st ⟨request,phase⟩ := by
  refine ⟨?_,?_,?_⟩
  · intro invitation h
    change phase.invitation = _ at h
    rw [hinv] at h
    cases h
  · intro m hm
    change m ∈ phase.joins at hm
    rw [hjoins] at hm
    cases hm
  · intro _ _ invitation joins _ hphase
    change phase = _ at hphase
    rw [hphase] at hinv
    cases hinv

section
variable (h : Sound config initial st)
include h

theorem Sound.ungranted (hcall : st.calls id = some call) (huncommitted : call.phase.uncommitted = true) :
    ∀ g ∈ st.grants, g.call ≠ id := by
  rintro g hg rfl
  obtain ⟨call',hcall',hsettled,-⟩ := h.settled g hg
  obtain rfl := Option.some.inj (hcall.symm.trans hcall')
  rcases hsettled with hphase | hphase <;> rw [hphase] at huncommitted <;> cases huncommitted

theorem Sound.step (hcalls : st'.calls = Function.update st.calls id (some call')) (hlater : Later st st')
    (hrecorded : Recorded config initial st') (hcaptured : Captured config st' call')
    (hself : ∀ g ∈ st'.grants, g.call = id → Settled call') (hother : ∀ g ∈ st'.grants, g.call ≠ id → g ∈ st.grants) :
    Sound config initial st' := by
  refine ⟨hrecorded,?_,?_⟩
  · intro i c hc
    rw [hcalls] at hc
    by_cases hi : i = id
    · subst hi
      rw [Function.update_self] at hc
      exact Option.some.inj hc ▸ hcaptured
    · rw [Function.update_of_ne hi] at hc
      exact (h.captured i c hc).later hlater
  · intro g hg
    rw [hcalls]
    by_cases hi : g.call = id
    · rw [hi, Function.update_self]
      exact ⟨call',rfl,hself g hg hi⟩
    · rw [Function.update_of_ne hi]
      exact h.settled g (hother g hg hi)

theorem Sound.quiet (hcall : st.calls id = some call) (huncommitted : call.phase.uncommitted = true) {request : Request}
    {phase : Phase} (hcalls : st'.calls = Function.update st.calls id (some ⟨request,phase⟩)) (hlater : Later st st')
    (hrecorded : Recorded config initial st') (hgrants : st'.grants = st.grants)
    (hplain : phase.invitation = none ∧ phase.joins = []) : Sound config initial st' := by
  refine h.step hcalls hlater hrecorded (.bare request hplain.1 hplain.2) ?_ ?_
  · intro g hg hid
    exact (h.ungranted hcall huncommitted g (hgrants ▸ hg) hid).elim
  · intro g hg _
    exact hgrants ▸ hg

theorem Sound.setPhase (hcall : st.calls id = some call) (huncommitted : call.phase.uncommitted = true) {phase : Phase}
    (hplain : phase.invitation = none ∧ phase.joins = []) : Sound config initial (st.setPhase id call phase) :=
  h.quiet hcall huncommitted rfl (.of_subset le_rfl fun _ hrow => hrow) (h.recorded.perm (.refl _) rfl rfl rfl) rfl hplain

end

theorem Sound.accept (h : Sound config initial st) (hcall : st.calls id = some call) {user_id : ℕ} {invitation : Invitation}
    {joins : List MembershipRow} (hphase : call.phase = .accepting invitation joins) (hacceptor : call.request.acceptor = some user_id)
    (hfits : ∀ row, st.acceptable config user_id invitation joins = some row → st.now ≤ row.expires_at)
    (hnamed : ∀ row, st.acceptable config user_id invitation joins = some row → row.email = invitation.email →
      Named config user_id row) : Sound config initial (st.accept config id call user_id invitation joins) := by
  have huncommitted : call.phase.uncommitted = true := by
    rw [hphase]
    rfl
  have hheld := h.captured id call hcall
  unfold State.accept
  split
  · exact h.setPhase hcall huncommitted ⟨rfl,rfl⟩
  · rename_i row hacceptable
    have hfound : rowAt Invitation.id invitation.id st.invitations = some row ∧ row.status = .pending := by
      unfold State.acceptable at hacceptable
      split at hacceptable
      · obtain ⟨hrow,hstatus⟩ := Option.filter_eq_some_iff.mp hacceptable
        exact ⟨hrow,of_decide_eq_true hstatus⟩
      · cases hacceptable
    obtain ⟨hrow,hpending⟩ := hfound
    obtain ⟨hmem,hid⟩ := rowAt_mem hrow
    -- the row has the terms that the call has read
    have hterms : row.terms = invitation.terms :=
      (hheld.knows invitation (by rw [hphase]; rfl)).2 row (List.mem_append_left _ hmem) hid
    obtain ⟨hemail,hplace,hrole⟩ := eq_of_terms hterms
    have hgrant : Granted config ⟨id,row,user_id,st.now,members user_id invitation joins⟩ := by
      refine ⟨hpending,hfits row hacceptable,hnamed row hacceptable hemail,⟨joins,?_⟩,?_⟩
      · change joins ++ [⟨user_id,invitation.place,invitation.role⟩] = joins ++ [⟨user_id,row.place,row.role⟩]
        rw [hplace, hrole]
      · intro m hm
        rcases List.mem_append.mp hm with hm | hm
        · have hjoin := hheld.joins m (by rw [hphase]; exact hm)
          exact (Option.some.inj (hacceptor.symm.trans hjoin)).symm
        · rw [List.mem_singleton.mp hm]
    have hrecorded := h.recorded.accept hrow hgrant (some st.now)
    have hcalls : ((st.update invitation.id .accepted (some st.now)).setPhase id call .committed).calls =
      Function.update st.calls id (some ⟨call.request,.committed⟩) := rfl
    refine h.step hcalls ?_ (hrecorded.perm (.refl _) rfl rfl rfl) (.bare _ rfl rfl) ?_ ?_
    · have hlater := later_update h.recorded.ids hrow .accepted (some st.now)
      exact ⟨hlater.created,hlater.rows⟩
    · intro g _ _
      refine ⟨.inl rfl,?_⟩
      change call.request.acceptor ≠ none
      rw [hacceptor]
      exact Option.some_ne_none user_id
    · intro g hg hne
      rcases List.mem_append.mp hg with hg | hg
      · exact hg
      · rw [List.mem_singleton.mp hg] at hne
        exact (hne rfl).elim

theorem Sound.revoke (h : Sound config initial st) (hcall : st.calls id = some call) {invitation_id : ℕ}
    (hphase : call.phase = .revoking invitation_id)
    (hfits : ∀ row ∈ st.invitations, row.id = invitation_id → row.status = .pending) :
    Sound config initial (st.revoke id call invitation_id) := by
  have huncommitted : call.phase.uncommitted = true := by
    rw [hphase]
    rfl
  unfold State.revoke
  split
  · exact h.setPhase hcall huncommitted ⟨rfl,rfl⟩
  · rename_i row hrow
    obtain ⟨hmem,hid⟩ := rowAt_mem hrow
    have hrecorded := h.recorded.revoke hrow (hfits row hmem hid) row.accepted_at
    have hlater := later_update h.recorded.ids hrow .revoked row.accepted_at
    exact h.quiet hcall huncommitted rfl ⟨hlater.created,hlater.rows⟩ (hrecorded.perm (.refl _) rfl rfl rfl) rfl ⟨rfl,rfl⟩

theorem Sound.replace (h : Sound config initial st) (hcall : st.calls id = some call) (huncommitted : call.phase.uncommitted = true)
    (existing : Option ℕ) {draft : Invitation} (hid : draft.id = st.created) (hpending : draft.status = .pending) :
    Sound config initial (st.replace id call existing draft) := by
  unfold State.replace
  dsimp only
  split
  · cases existing with
    | none =>
      have hlater := later_insert st hid
      have hrecorded := h.recorded.insert hid hpending
      exact h.quiet hcall huncommitted rfl ⟨hlater.created,hlater.rows⟩ (hrecorded.perm (.refl _) rfl rfl rfl) rfl ⟨rfl,rfl⟩
    | some existing =>
      have hlater := later_insert (st.delete existing) hid
      have hrecorded := (h.recorded.delete existing).insert hid hpending
      refine h.quiet hcall huncommitted rfl ⟨hlater.created,?_⟩ (hrecorded.perm (.refl _) rfl rfl rfl) rfl ⟨rfl,rfl⟩
      intro row' hrow' hlt
      obtain ⟨row,hrow,hsame⟩ := hlater.rows row' hrow' hlt
      exact ⟨row,(rows_delete_perm st existing).mem_iff.mp hrow,hsame⟩
  · exact h.setPhase hcall huncommitted ⟨rfl,rfl⟩

theorem Sound.propose (h : Sound config initial st) (hcall : st.calls id = some call) (huncommitted : call.phase.uncommitted = true)
    (now : ℕ) {draft : Invitation} (hid : draft.id = st.created) (hpending : draft.status = .pending) :
    Sound config initial (st.propose id call now draft) := by
  unfold State.propose
  split_ifs
  · have hlater := later_insert st hid
    have hrecorded := h.recorded.insert hid hpending
    exact h.quiet hcall huncommitted rfl ⟨hlater.created,hlater.rows⟩ (hrecorded.perm (.refl _) rfl rfl rfl) rfl ⟨rfl,rfl⟩
  · exact h.setPhase hcall huncommitted ⟨rfl,rfl⟩
  · exact h.setPhase hcall huncommitted ⟨rfl,rfl⟩

theorem Sound.clear (h : Sound config initial st) (hcall : st.calls id = some call) (huncommitted : call.phase.uncommitted = true)
    (existing : ℕ) : Sound config initial ((st.delete existing).setPhase id call .begun) := by
  have hlater := later_delete st existing
  exact h.quiet hcall huncommitted rfl ⟨hlater.created,hlater.rows⟩
    ((h.recorded.delete existing).perm (.refl _) rfl rfl rfl) rfl ⟨rfl,rfl⟩

end Calls

section Runs
variable {config : Config} {initial : List MembershipRow} {st st' : State}

theorem uncommitted_of_eq {call : Call} {phase : Phase} (h : call.phase = phase) (hphase : phase.uncommitted = true) :
    call.phase.uncommitted = true := by
  rw [h]
  exact hphase

theorem Sound.write (h : Sound config initial st) {id : ℕ} {token : Text} {call : Call} (hcall : st.calls id = some call)
    (hfits : Fits config st (.write id token)) (hwrite : write config st id call token = some st') : Sound config initial st' := by
  obtain ⟨haccepts,hrevokes⟩ := hfits call hcall
  unfold Invitations.write at hwrite
  split at hwrite
  · rename_i user_id token' invitation joins hrequest hphase
    cases hwrite
    have hacceptor : call.request.acceptor = some user_id := by
      rw [hrequest]
      rfl
    refine h.accept hcall hphase hacceptor ?_ ?_
    · intro row hrow
      exact (haccepts user_id invitation joins row hacceptor hphase hrow).1
    · -- the call has compared the emails itself
      intro row _ hemail
      obtain ⟨email,hknown,hsame⟩ := (h.captured id call hcall).named user_id token' invitation joins hrequest hphase
      exact ⟨email,hknown,hemail ▸ hsame⟩
  · rename_i user_id token' invitation joins hrequest hphase
    cases hwrite
    have hacceptor : call.request.acceptor = some user_id := by
      rw [hrequest]
      rfl
    refine h.accept hcall hphase hacceptor ?_ ?_
    · intro row hrow
      exact (haccepts user_id invitation joins row hacceptor hphase hrow).1
    · intro row hrow _
      exact (haccepts user_id invitation joins row hacceptor hphase hrow).2 ⟨token',hrequest⟩
  · rename_i invitation_id _ hphase
    cases hwrite
    exact h.revoke hcall hphase (hrevokes invitation_id hphase)
  · rename_i hphase
    cases hwrite
    exact h.replace hcall (uncommitted_of_eq hphase rfl) _ rfl rfl
  · rename_i hphase
    cases hwrite
    exact h.propose hcall (uncommitted_of_eq hphase rfl) _ rfl rfl
  · rename_i hphase
    cases hwrite
    exact h.clear hcall (uncommitted_of_eq hphase rfl) _
  · cases hwrite

theorem Sound.finish (h : Sound config initial st) {id : ℕ} {call : Call} (hcall : st.calls id = some call)
    {succeeds : Bool} (hfits : Fits config st (.finish id succeeds)) :
    Sound config initial (st.setPhase id call (if succeeds then .returned else .raised)) := by
  have hplain : (if succeeds then Phase.returned else .raised).invitation = none ∧
      (if succeeds then Phase.returned else .raised).joins = [] := by
    cases succeeds <;> exact ⟨rfl,rfl⟩
  refine h.step rfl (.of_subset le_rfl fun _ hrow => hrow) (h.recorded.perm (.refl _) rfl rfl rfl)
    (.bare call.request hplain.1 hplain.2) ?_ fun g hg _ => hg
  rintro g hg rfl
  obtain ⟨call',hcall',-,hacceptor⟩ := h.settled g hg
  obtain rfl := Option.some.inj (hcall.symm.trans hcall')
  obtain rfl := hfits call hcall hacceptor
  exact ⟨.inr rfl,hacceptor⟩

theorem Sound.next (h : Sound config initial st) {action : Action} (hfits : Fits config st action)
    (hnext : next config st action = some st') : Sound config initial st' := by
  cases action with
  | tick elapsed =>
    cases hnext
    have hlater : Later st { st with now := st.now + elapsed } := .of_subset le_rfl fun _ hrow => hrow
    exact ⟨h.recorded.perm (.refl _) rfl rfl rfl,fun id call hcall => (h.captured id call hcall).later hlater,h.settled⟩
  | call id request =>
    simp only [Invitations.next] at hnext
    split at hnext
    · cases hnext
    · rename_i hnone
      cases hnext
      refine h.step rfl (.of_subset le_rfl fun _ hrow => hrow) (h.recorded.perm (.refl _) rfl rfl rfl) (.bare request rfl rfl) ?_
        fun g hg _ => hg
      rintro g hg rfl
      obtain ⟨call,hcall,-⟩ := h.settled g hg
      rw [hcall] at hnone
      exact (hnone rfl).elim
  | read id =>
    obtain ⟨call,hcall,hnext⟩ := Option.bind_eq_some_iff.mp hnext
    obtain ⟨phase,hread,rfl⟩ := Option.map_eq_some_iff.mp hnext
    have hreads := reads_of_read hread
    have hcaptured := (h.captured id call hcall).read h.recorded hreads
    refine h.step rfl (.of_subset le_rfl fun _ hrow => hrow) (h.recorded.perm (.refl _) rfl rfl rfl)
      (hcaptured.later (.of_subset le_rfl fun _ hrow => hrow)) ?_ fun g hg _ => hg
    intro g hg hid
    exact (h.ungranted hcall hreads.uncommitted g hg hid).elim
  | write id token =>
    obtain ⟨call,hcall,hwrite⟩ := Option.bind_eq_some_iff.mp hnext
    exact h.write hcall hfits hwrite
  | finish id succeeds =>
    obtain ⟨call,hcall,hnext⟩ := Option.bind_eq_some_iff.mp hnext
    split at hnext
    · cases hnext
      exact h.finish hcall hfits
    · cases hnext
  | fail id =>
    obtain ⟨call,hcall,hnext⟩ := Option.bind_eq_some_iff.mp hnext
    split at hnext
    · rename_i huncommitted
      cases hnext
      exact h.setPhase hcall huncommitted ⟨rfl,rfl⟩
    · cases hnext

theorem Sound.correct (h : Sound config initial st) : Correct config initial st := by
  refine ⟨h.recorded.memberships,h.recorded.once,h.recorded.granted,h.recorded.accepted,?_,?_⟩
  · intro row hrow hrevoked g hg hid
    have haccepted := (h.recorded.accepted row hrow).mpr ⟨g,hg,hid⟩
    rw [hrevoked] at haccepted
    cases haccepted
  · rintro id call hcall hraised g hg rfl
    obtain ⟨call',hcall',hsettled,-⟩ := h.settled g hg
    obtain rfl := Option.some.inj (hcall.symm.trans hcall')
    rcases hsettled with hphase | hphase <;> rw [hphase] at hraised <;> cases hraised

/-- In a run in which rows are accepted before they expire and in workspaces for the users that they name, only pending rows are
revoked, and committed acceptances do not raise, memberships are created as the invitations tell. -/
theorem invitations_hold (config : Config) (initial : List MembershipRow)
    (h : Runs.Reaches (next config) (Fits config) (started initial) st) : Correct config initial st := by
  have hstarted : Sound config initial (started initial) := by
    refine ⟨⟨List.nodup_nil,?_,?_,?_,List.nodup_nil,?_,(List.append_nil initial).symm⟩,?_,?_⟩
    · exact fun _ hrow => (List.not_mem_nil hrow).elim
    · exact fun _ hg => (List.not_mem_nil hg).elim
    · exact fun _ hrow => (List.not_mem_nil hrow).elim
    · exact fun _ hg => (List.not_mem_nil hg).elim
    · intro id call hcall
      cases hcall
    · exact fun _ hg => (List.not_mem_nil hg).elim
  exact (h.invariant hstarted fun _ _ _ _ hs hfits hnext => hs.next hfits hnext).correct

end Runs

section Samples

def sampleConfig : Config where
  email user_id := if user_id = 0 then some "a@x".toList else if user_id = 1 then some "b@x".toList else none
  organization_id _ := 7
  lower := List.map Char.toLower

def sampleCaller : Caller := ⟨some 9,some .owner,false⟩

def sampleToken : Text := "token".toList

def sampleCreate : Request := .create sampleCaller (.organization 7) "A@x".toList (.organization .member)

def invites : List Action := [.call 0 sampleCreate,.read 0,.read 0,.write 0 sampleToken]

def invitesToWorkspace : List Action :=
  [.call 0 (.create sampleCaller (.workspace 3) "A@x".toList (.workspace .admin)),.read 0,.write 0 sampleToken]

def accepts : List Action := [.call 1 (.acceptOrganization 0 sampleToken),.read 1,.read 1]

def acceptedRun : List Action := invites ++ accepts ++ [.write 1 [],.finish 1 true]

theorem invitations_hold_accepted : ∃ st, Runs.follow (next sampleConfig) (started []) acceptedRun = some st ∧
    Correct sampleConfig [] st := by
  refine ⟨_,rfl,invitations_hold sampleConfig [] ?_⟩
  have hfirst : Runs.Reaches (next sampleConfig) (Fits sampleConfig) (started []) (started []) := .refl
  have hread := ((hfirst.step (a := Action.call 0 sampleCreate) trivial rfl).step (a := Action.read 0) trivial rfl).step (a := Action.read 0) trivial rfl
  have hinvited := hread.step (a := Action.write 0 sampleToken) ?_ rfl
  · have haccepting := ((hinvited.step (a := Action.call 1 (.acceptOrganization 0 sampleToken)) trivial rfl).step (a := Action.read 1) trivial
      rfl).step (a := Action.read 1) trivial rfl
    have haccepted := haccepting.step (a := Action.write 1 []) ?_ rfl
    · exact haccepted.step (a := Action.finish 1 true) (fun _ _ _ => rfl) rfl
    · intro call hcall
      cases hcall
      refine ⟨?_,fun _ h => Phase.noConfusion h⟩
      intro user_id invitation joins row huser hphase hrow
      cases huser
      cases hphase
      cases hrow
      refine ⟨by decide,?_⟩
      rintro ⟨_,hrequest⟩
      cases hrequest
  · intro call hcall
    cases hcall
    refine ⟨?_,fun _ h => Phase.noConfusion h⟩
    intro _ _ _ _ huser
    cases huser

def statuses (st : State) : List InvitationStatus := st.invitations.map Invitation.status

def users (st : State) : List ℕ := st.memberships.map MembershipRow.user_id

/-- An administrator has read the pending row when the user accepts it. -/
def revokedRun : List Action :=
  invites ++ accepts ++ [.call 2 (.revoke (.organization 7) 0),.read 2,.write 1 [],.finish 1 true,.write 2 []]

def otherUserRun : List Action :=
  invitesToWorkspace ++ [.call 1 (.acceptWorkspace 1 sampleToken),.read 1,.read 1,.read 1,.write 1 []]

/-- The invitation expires between the check and the commit. -/
def lateRun : List Action := invites ++ accepts ++ [.tick (week + 1),.write 1 []]

def raisedRun : List Action := invites ++ accepts ++ [.write 1 [],.finish 1 false]

/-- An accepted invitation ends revoked; a user whom no invitation names, and one whose invitation has expired, become members; and a
call that raises leaves its membership. -/
theorem invitations_go_wrong :
    (∃ st, Runs.follow (next sampleConfig) (started []) revokedRun = some st ∧ statuses st = [.revoked] ∧ users st = [0] ∧
      ¬ Correct sampleConfig [] st) ∧
    (∃ st, Runs.follow (next sampleConfig) (started []) otherUserRun = some st ∧ users st = [1,1] ∧ ¬ Correct sampleConfig [] st) ∧
    (∃ st, Runs.follow (next sampleConfig) (started []) lateRun = some st ∧ users st = [0] ∧ ¬ Correct sampleConfig [] st) ∧
    ∃ st, Runs.follow (next sampleConfig) (started []) raisedRun = some st ∧ users st = [0] ∧ ¬ Correct sampleConfig [] st := by
  refine ⟨⟨_,rfl,rfl,rfl,?_⟩,⟨_,rfl,rfl,?_⟩,⟨_,rfl,rfl,?_⟩,_,rfl,rfl,?_⟩
  · intro h
    exact h.revoked _ List.mem_cons_self rfl _ List.mem_cons_self rfl
  · intro h
    obtain ⟨email,hemail,hsame⟩ := (h.granted _ List.mem_cons_self).named
    cases hemail
    exact absurd hsame (by decide)
  · intro h
    exact absurd (h.granted _ List.mem_cons_self).unexpired (by decide)
  · intro h
    exact h.raised 1 _ rfl rfl _ List.mem_cons_self rfl

end Samples
end Invitations
end Allama

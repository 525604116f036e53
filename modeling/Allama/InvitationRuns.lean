import Allama.Invitations

/-! What the runs of the invitation calls keep, and when it is what acceptance promises. -/
namespace Allama
namespace Invitations
open IdRows

/-- Every row that there is or was. -/
def State.rows (st : State) : List Invitation := st.invitations ++ st.deleted

def Request.acceptor : Request → Option ℕ
  | .acceptOrganization user_id _ => some user_id
  | .acceptWorkspace user_id _ => some user_id
  | _ => none

/-- The invitation names the email of the user. -/
def Named (config : Config) (user_id : ℕ) (invitation : Invitation) : Prop :=
  ∃ email, config.email user_id = some email ∧ config.lower email = config.lower invitation.email

/-- A step that accepts a row before it expires, and in a workspace for the user that the row names; that revokes a row which is still
pending; or after which an acceptance that has committed does not raise. -/
def Fits (config : Config) (st : State) : Action → Prop
  | .write id _ => ∀ call, st.calls id = some call →
    (∀ user_id invitation joins row, call.request.acceptor = some user_id → call.phase = .accepting invitation joins →
      st.acceptable config user_id invitation joins = some row →
        st.now ≤ row.expires_at ∧ ((∃ token, call.request = .acceptWorkspace user_id token) → Named config user_id row)) ∧
    ∀ invitation_id, call.phase = .revoking invitation_id → ∀ row ∈ st.invitations, row.id = invitation_id → row.status = .pending
  | .finish id succeeds => ∀ call, st.calls id = some call → call.request.acceptor ≠ none → succeeds = true
  | _ => True

/-- The memberships of a grant are of a user whom the row names, while it is pending and has not expired. -/
structure Granted (config : Config) (grant : Grant) : Prop where
  pending : grant.invitation.status = .pending
  unexpired : grant.time ≤ grant.invitation.expires_at
  named : Named config grant.user_id grant.invitation
  members : ∃ joins, grant.members = members grant.user_id grant.invitation joins
  user : ∀ m ∈ grant.members, m.user_id = grant.user_id

/-- What acceptance promises of a state. -/
structure Correct (config : Config) (initial : List MembershipRow) (st : State) : Prop where
  memberships : st.memberships = initial ++ st.grants.flatMap Grant.members
  once : (st.grants.map fun g => g.invitation.id).Nodup
  granted : ∀ g ∈ st.grants, Granted config g
  accepted : ∀ row ∈ st.rows, row.status = .accepted ↔ ∃ g ∈ st.grants, g.invitation.id = row.id
  revoked : ∀ row ∈ st.rows, row.status = .revoked → ∀ g ∈ st.grants, g.invitation.id ≠ row.id
  raised : ∀ id call, st.calls id = some call → call.phase = .raised → ∀ g ∈ st.grants, g.call ≠ id

section Tables
variable {config : Config} {initial : List MembershipRow} {st st' : State}

/-- The tables and the grants of a run. -/
structure Recorded (config : Config) (initial : List MembershipRow) (st : State) : Prop where
  ids : (st.rows.map Invitation.id).Nodup
  fresh : ∀ row ∈ st.rows, row.id < st.created
  old : ∀ g ∈ st.grants, g.invitation.id < st.created
  accepted : ∀ row ∈ st.rows, row.status = .accepted ↔ ∃ g ∈ st.grants, g.invitation.id = row.id
  once : (st.grants.map fun g => g.invitation.id).Nodup
  granted : ∀ g ∈ st.grants, Granted config g
  memberships : st.memberships = initial ++ st.grants.flatMap Grant.members

def Invitation.terms (invitation : Invitation) : Invitation := { invitation with status := .pending, accepted_at := none }

theorem eq_of_terms {row invitation : Invitation} (h : row.terms = invitation.terms) :
    row.email = invitation.email ∧ row.place = invitation.place ∧ row.role = invitation.role := by
  have hemail := congrArg Invitation.email h
  have hplace := congrArg Invitation.place h
  have hrole := congrArg Invitation.role h
  exact ⟨hemail,hplace,hrole⟩

/-- Rows are only added, with new ids, and only their status changes. -/
structure Later (st st' : State) : Prop where
  created : st.created ≤ st'.created
  rows : ∀ row' ∈ st'.rows, row'.id < st.created → ∃ row ∈ st.rows, row.id = row'.id ∧ row.terms = row'.terms

theorem Later.of_subset (hcreated : st.created ≤ st'.created) (h : ∀ row ∈ st'.rows, row ∈ st.rows) : Later st st' :=
  ⟨hcreated,fun row' hrow' _ => ⟨row',h row' hrow',rfl,rfl⟩⟩

theorem rows_delete_perm (st : State) (invitation_id : ℕ) : (st.delete invitation_id).rows.Perm st.rows := by
  have hsplit := List.filter_append_perm (fun inv : Invitation => decide (inv.id ≠ invitation_id)) st.invitations
  have hneg : (st.invitations.filter fun inv => !decide (inv.id ≠ invitation_id)) =
      st.invitations.filter fun inv => inv.id = invitation_id := by
    apply List.filter_congr
    intro inv _
    simp
  rw [hneg] at hsplit
  -- the rows deleted now are moved in front of those deleted before
  change ((st.invitations.filter _) ++ (st.deleted ++ st.invitations.filter _)).Perm (st.invitations ++ st.deleted)
  refine (List.perm_append_comm.append_left (st.invitations.filter fun inv => inv.id ≠ invitation_id)).trans ?_
  rw [← List.append_assoc]
  exact hsplit.append_right _

theorem rows_insert_perm (st : State) (draft : Invitation) : (st.insert draft).rows.Perm (draft :: st.rows) := by
  change ((st.invitations ++ [draft]) ++ st.deleted).Perm (draft :: (st.invitations ++ st.deleted))
  rw [List.append_assoc]
  exact List.perm_middle

theorem Recorded.perm (h : Recorded config initial st) (hrows : st'.rows.Perm st.rows) (hcreated : st'.created = st.created)
    (hgrants : st'.grants = st.grants) (hmembers : st'.memberships = st.memberships) : Recorded config initial st' where
  ids := ((hrows.map Invitation.id).nodup_iff).mpr h.ids
  fresh row hrow := by
    rw [hcreated]
    exact h.fresh row (hrows.mem_iff.mp hrow)
  old g hg := by
    rw [hcreated]
    exact h.old g (hgrants ▸ hg)
  accepted row hrow := by
    rw [hgrants]
    exact h.accepted row (hrows.mem_iff.mp hrow)
  once := by
    rw [hgrants]
    exact h.once
  granted g hg := h.granted g (hgrants ▸ hg)
  memberships := by
    rw [hmembers, hgrants]
    exact h.memberships

theorem Recorded.delete (h : Recorded config initial st) (invitation_id : ℕ) : Recorded config initial (st.delete invitation_id) :=
  h.perm (rows_delete_perm st invitation_id) rfl rfl rfl

theorem later_delete (st : State) (invitation_id : ℕ) : Later st (st.delete invitation_id) :=
  .of_subset le_rfl fun _ hrow => (rows_delete_perm st invitation_id).mem_iff.mp hrow

theorem Recorded.insert (h : Recorded config initial st) {draft : Invitation} (hid : draft.id = st.created)
    (hpending : draft.status = .pending) : Recorded config initial (st.insert draft) := by
  have hperm := rows_insert_perm st draft
  have hnone : ∀ g ∈ st.grants, g.invitation.id ≠ draft.id := by
    intro g hg
    rw [hid]
    exact (h.old g hg).ne
  refine ⟨?_,?_,?_,?_,h.once,h.granted,h.memberships⟩
  · rw [(hperm.map Invitation.id).nodup_iff, List.map_cons, List.nodup_cons]
    refine ⟨?_,h.ids⟩
    intro hmem
    obtain ⟨row,hrow,heq⟩ := List.mem_map.mp hmem
    exact (h.fresh row hrow).ne (heq.trans hid)
  · intro row hrow
    change row.id < st.created + 1
    rcases List.mem_cons.mp (hperm.mem_iff.mp hrow) with rfl | hrow
    · omega
    · have := h.fresh row hrow
      omega
  · intro g hg
    exact (h.old g hg).trans (Nat.lt_succ_self _)
  · intro row hrow
    rcases List.mem_cons.mp (hperm.mem_iff.mp hrow) with rfl | hrow
    · rw [hpending]
      constructor
      · exact InvitationStatus.noConfusion
      · rintro ⟨g,hg,heq⟩
        exact (hnone g hg heq).elim
    · exact h.accepted row hrow

theorem later_insert (st : State) {draft : Invitation} (hid : draft.id = st.created) : Later st (st.insert draft) := by
  refine ⟨Nat.le_succ _,?_⟩
  intro row hrow hlt
  rcases List.mem_cons.mp ((rows_insert_perm st draft).mem_iff.mp hrow) with rfl | hrow
  · omega
  · exact ⟨row,hrow,rfl,rfl⟩

theorem rows_update (hids : (st.rows.map Invitation.id).Nodup) {invitation_id : ℕ} {row : Invitation}
    (hrow : rowAt Invitation.id invitation_id st.invitations = some row) (status : InvitationStatus) (accepted_at : Option ℕ) :
    ((st.update invitation_id status accepted_at).rows.map Invitation.id).Nodup ∧
      ∀ row' ∈ (st.update invitation_id status accepted_at).rows, ∃ row₀ ∈ st.rows, row₀.id = row'.id ∧ row₀.terms = row'.terms ∧
        (row'.id = invitation_id → row'.status = status) ∧ (row'.id ≠ invitation_id → row'.status = row₀.status) := by
  obtain ⟨hmem,hid⟩ := rowAt_mem hrow
  constructor
  · have hsame : (st.update invitation_id status accepted_at).invitations.map Invitation.id = st.invitations.map Invitation.id := by
      apply ids_changeAt
      intro inv
      rfl
    change (((st.update invitation_id status accepted_at).invitations ++ st.deleted).map Invitation.id).Nodup
    rw [List.map_append, hsame, ← List.map_append]
    exact hids
  · intro row' hrow'
    rcases List.mem_append.mp hrow' with hrow' | hrow'
    · obtain ⟨row₀,hrow₀,rfl⟩ := List.mem_map.mp hrow'
      refine ⟨row₀,List.mem_append_left _ hrow₀,?_⟩
      by_cases heq : row₀.id = invitation_id
      · rw [if_pos heq]
        exact ⟨rfl,rfl,fun _ => rfl,fun hne => (hne heq).elim⟩
      · rw [if_neg heq]
        exact ⟨rfl,rfl,fun h => (heq h).elim,fun _ => rfl⟩
    · refine ⟨row',List.mem_append_right _ hrow',rfl,rfl,?_,fun _ => rfl⟩
      -- the id of the row is not that of a deleted one
      intro heq
      change ((st.invitations ++ st.deleted).map Invitation.id).Nodup at hids
      rw [List.map_append] at hids
      have hdisjoint := List.disjoint_of_nodup_append hids
      have hin : invitation_id ∈ st.invitations.map Invitation.id := List.mem_map.mpr ⟨row,hmem,hid⟩
      exact (hdisjoint hin (List.mem_map.mpr ⟨row',hrow',heq⟩)).elim

theorem later_update (hids : (st.rows.map Invitation.id).Nodup) {invitation_id : ℕ} {row : Invitation}
    (hrow : rowAt Invitation.id invitation_id st.invitations = some row) (status : InvitationStatus) (accepted_at : Option ℕ) :
    Later st (st.update invitation_id status accepted_at) := by
  refine ⟨le_rfl,?_⟩
  intro row' hrow' _
  obtain ⟨row₀,hrow₀,hid,hterms,-,-⟩ := (rows_update hids hrow status accepted_at).2 row' hrow'
  exact ⟨row₀,hrow₀,hid,hterms⟩

theorem Recorded.ungranted (h : Recorded config initial st) {invitation_id : ℕ} {row : Invitation}
    (hrow : rowAt Invitation.id invitation_id st.invitations = some row) (hpending : row.status = .pending) :
    row.id = invitation_id ∧ ∀ g ∈ st.grants, g.invitation.id ≠ invitation_id := by
  obtain ⟨hmem,rfl⟩ := rowAt_mem hrow
  refine ⟨rfl,?_⟩
  intro g hg heq
  have haccepted := (h.accepted row (List.mem_append_left _ hmem)).mpr ⟨g,hg,heq⟩
  rw [hpending] at haccepted
  cases haccepted

theorem Recorded.revoke (h : Recorded config initial st) {invitation_id : ℕ} {row : Invitation}
    (hrow : rowAt Invitation.id invitation_id st.invitations = some row) (hpending : row.status = .pending) (accepted_at : Option ℕ) :
    Recorded config initial (st.update invitation_id .revoked accepted_at) := by
  obtain ⟨hids,hrows⟩ := rows_update h.ids hrow .revoked accepted_at
  obtain ⟨-,hnone⟩ := h.ungranted hrow hpending
  refine ⟨hids,?_,h.old,?_,h.once,h.granted,h.memberships⟩
  · intro row' hrow'
    obtain ⟨row₀,hrow₀,hid,-⟩ := hrows row' hrow'
    exact hid ▸ h.fresh row₀ hrow₀
  · intro row' hrow'
    obtain ⟨row₀,hrow₀,hid,-,hself,hother⟩ := hrows row' hrow'
    by_cases heq : row'.id = invitation_id
    · rw [hself heq, heq]
      constructor
      · exact InvitationStatus.noConfusion
      · rintro ⟨g,hg,hgid⟩
        exact (hnone g hg hgid).elim
    · rw [hother heq, ← hid]
      exact h.accepted row₀ hrow₀

def State.grant (st : State) (grant : Grant) : State :=
  { st with memberships := st.memberships ++ grant.members, grants := st.grants ++ [grant] }

theorem Recorded.accept (h : Recorded config initial st) {invitation_id : ℕ} {grant : Grant}
    (hrow : rowAt Invitation.id invitation_id st.invitations = some grant.invitation) (hgrant : Granted config grant)
    (accepted_at : Option ℕ) : Recorded config initial ((st.update invitation_id .accepted accepted_at).grant grant) := by
  obtain ⟨hids,hrows⟩ := rows_update h.ids hrow .accepted accepted_at
  obtain ⟨hid,hnone⟩ := h.ungranted hrow hgrant.pending
  have hnew : ∀ g ∈ st.grants ++ [grant], g ∈ st.grants ∨ g = grant := by
    intro g hg
    exact (List.mem_append.mp hg).imp_right List.mem_singleton.mp
  refine ⟨hids,?_,?_,?_,?_,?_,?_⟩
  · intro row' hrow'
    obtain ⟨row₀,hrow₀,hid,-⟩ := hrows row' hrow'
    exact hid ▸ h.fresh row₀ hrow₀
  · intro g hg
    rcases hnew g hg with hg | rfl
    · exact h.old g hg
    · exact h.fresh _ (List.mem_append_left _ (rowAt_mem hrow).1)
  · intro row' hrow'
    obtain ⟨row₀,hrow₀,hsame,-,hself,hother⟩ := hrows row' hrow'
    change row'.status = .accepted ↔ ∃ g ∈ st.grants ++ [grant], g.invitation.id = row'.id
    by_cases heq : row'.id = invitation_id
    · rw [hself heq, heq]
      exact ⟨fun _ => ⟨grant,List.mem_append_right _ List.mem_cons_self,hid⟩,fun _ => rfl⟩
    · rw [hother heq, ← hsame, h.accepted row₀ hrow₀]
      constructor
      · rintro ⟨g,hg,hgid⟩
        exact ⟨g,List.mem_append_left _ hg,hgid⟩
      · rintro ⟨g,hg,hgid⟩
        rcases hnew g hg with hg | rfl
        · exact ⟨g,hg,hgid⟩
        · exact (heq (hsame ▸ hgid.symm.trans hid)).elim
  · change ((st.grants ++ [grant]).map fun g => g.invitation.id).Nodup
    rw [List.map_append, List.map_singleton, List.nodup_append_comm, List.singleton_append, List.nodup_cons]
    refine ⟨?_,h.once⟩
    intro hmem
    obtain ⟨g,hg,hgid⟩ := List.mem_map.mp hmem
    exact hnone g hg (hgid.trans hid)
  · intro g hg
    rcases hnew g hg with hg | rfl
    · exact h.granted g hg
    · exact hgrant
  · change st.memberships ++ grant.members = initial ++ (st.grants ++ [grant]).flatMap Grant.members
    rw [h.memberships, List.flatMap_append, List.flatMap_singleton, List.append_assoc]

end Tables
end Invitations
end Allama

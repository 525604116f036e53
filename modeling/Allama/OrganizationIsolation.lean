import Allama.OrganizationMembers

/-! When the operations on one organization leave the others alone. -/
namespace Allama
namespace OrganizationMembers
open KeyedTables
variable {user : User} {params : UserUpdate}

/-- The organization of a place. -/
def Config.organizationOf (config : Config) : Place → ℕ
  | .organization organization_id => organization_id
  | .workspace workspace_id => config.organization_id workspace_id

/-- A member of an organization can sign in with an email and a password. -/
def CanSignIn (config : Config) (st : State) (organization_id user_id : ℕ) (email password : Text) : Prop :=
  (∃ m ∈ st.memberships.rows, m.user_id = user_id ∧ config.organizationOf m.place = organization_id) ∧
    ∃ user ∈ st.users.rows, user.id = user_id ∧ user.is_active = true ∧ config.lower user.email = config.lower email ∧
      user.password = password

/-- Two states are the same for an organization: its memberships, its invitations, and who can sign in. -/
structure SameFor (config : Config) (organization_id : ℕ) (st st' : State) : Prop where
  memberships : ∀ m, config.organizationOf m.place = organization_id → (m ∈ st'.memberships.rows ↔ m ∈ st.memberships.rows)
  invitations : ∀ inv, inv.organization_id = organization_id → (inv ∈ st'.invitations.rows ↔ inv ∈ st.invitations.rows)
  signIn : ∀ user_id email password,
    CanSignIn config st' organization_id user_id email password ↔ CanSignIn config st organization_id user_id email password

/-- Two states are the same for every other organization. -/
def SameForOthers (config : Config) (organization_id : ℕ) (st st' : State) : Prop :=
  ∀ other ≠ organization_id, SameFor config other st st'

/-- The user is a member of this organization only. -/
def State.Own (config : Config) (organization_id : ℕ) (st : State) (user_id : ℕ) : Prop :=
  ∀ m ∈ st.memberships.rows, m.user_id = user_id → config.organizationOf m.place = organization_id

/-- An operation that deletes only users who are members of this organization alone and have invited nobody to another one, that
changes the email or the password only of such members or of inactive users, and adds members to this organization. -/
def Harmless (config : Config) (organization_id : ℕ) (st : State) : Operation → Prop
  | .deleteMember user_id refused => refused = false → getOrdinaryMember organization_id st user_id ≠ none →
    st.Own config organization_id user_id ∧
      ∀ inv ∈ st.invitations.rows, inv.invited_by = some user_id → inv.organization_id = organization_id
  | .updateMember user_id params => ∀ user, getOrdinaryMember organization_id st user_id = some user →
    params.valid config st user = true → user.is_active = true → st.Own config organization_id user_id ∨
      (∀ email, params.email = some email → email = user.email) ∧ ∀ password, params.password = some password → password = user.password
  | .addMember user_id added _ => added = organization_id ∨ config.organizations added = false ∨
    (∀ user ∈ st.users.rows, user.id ≠ user_id) ∨ ∃ m ∈ st.memberships.rows, m.key = (user_id,.organization added)
  | _ => True

section Views
variable {config : Config} {organization_id : ℕ} {st st' st'' : State}

theorem SameFor.refl (config : Config) (organization_id : ℕ) (st : State) : SameFor config organization_id st st :=
  ⟨fun _ _ => Iff.rfl,fun _ _ => Iff.rfl,fun _ _ _ => Iff.rfl⟩

theorem SameFor.symm (h : SameFor config organization_id st st') : SameFor config organization_id st' st :=
  ⟨fun m hm => (h.memberships m hm).symm,fun inv hinv => (h.invitations inv hinv).symm,fun u e p => (h.signIn u e p).symm⟩

theorem SameFor.trans (h : SameFor config organization_id st st') (h' : SameFor config organization_id st' st'') :
    SameFor config organization_id st st'' :=
  ⟨fun m hm => (h'.memberships m hm).trans (h.memberships m hm),fun inv hinv => (h'.invitations inv hinv).trans (h.invitations inv hinv),
    fun u e p => (h'.signIn u e p).trans (h.signIn u e p)⟩

theorem signIn_congr (hmembers : ∀ m, config.organizationOf m.place = organization_id → (m ∈ st'.memberships.rows ↔ m ∈ st.memberships.rows))
    (husers : ∀ m ∈ st.memberships.rows, config.organizationOf m.place = organization_id → ∀ email password,
      (∃ user ∈ st'.users.rows, user.id = m.user_id ∧ user.is_active = true ∧ config.lower user.email = config.lower email ∧
        user.password = password) ↔
      ∃ user ∈ st.users.rows, user.id = m.user_id ∧ user.is_active = true ∧ config.lower user.email = config.lower email ∧
        user.password = password) (user_id : ℕ) (email password : Text) :
    CanSignIn config st' organization_id user_id email password ↔ CanSignIn config st organization_id user_id email password := by
  constructor
  · rintro ⟨⟨m,hm,rfl,horg⟩,huser⟩
    have hm' := (hmembers m horg).mp hm
    exact ⟨⟨m,hm',rfl,horg⟩,(husers m hm' horg email password).mp huser⟩
  · rintro ⟨⟨m,hm,rfl,horg⟩,huser⟩
    exact ⟨⟨m,(hmembers m horg).mpr hm,rfl,horg⟩,(husers m hm horg email password).mpr huser⟩

theorem SameFor.of_invitations {invitations : Table OrganizationInvitation.id}
    (h : ∀ inv, inv.organization_id = organization_id → (inv ∈ invitations.rows ↔ inv ∈ st.invitations.rows)) :
    SameFor config organization_id st { st with invitations := invitations } :=
  ⟨fun _ _ => Iff.rfl,h,fun _ _ _ => Iff.rfl⟩

theorem getOrdinaryMember_eq_some {user_id : ℕ}
    (h : getOrdinaryMember organization_id st user_id = some user) :
    user ∈ st.users.rows ∧ user.id = user_id ∧ ∃ m ∈ st.memberships.rows, m.key = (user_id,.organization organization_id) := by
  obtain ⟨h,-⟩ := Option.filter_eq_some_iff.mp h
  unfold getMember at h
  split at h
  · rename_i found role hone
    obtain rfl := Option.some.inj h
    have hmem : (found,role) ∈ (listMembers organization_id st).filter fun member => member.1.id = user_id :=
      hone ▸ List.mem_cons_self
    obtain ⟨hlisted,hid⟩ := List.mem_filter.mp hmem
    obtain ⟨row,hrow,hmap⟩ := List.mem_filterMap.mp hlisted
    obtain ⟨role',hrole,heq⟩ := Option.map_eq_some_iff.mp hmap
    obtain ⟨rfl,-⟩ := Prod.mk.inj heq
    have hid' : row.id = user_id := of_decide_eq_true hid
    obtain ⟨m,hfind,-⟩ := Option.map_eq_some_iff.mp hrole
    have hkey : m.key = (row.id,.organization organization_id) := by
      simpa using List.find?_some hfind
    exact ⟨hrow,hid',m,List.mem_of_find?_eq_some hfind,hid' ▸ hkey⟩
  · cases h

end Views

section Steps
variable {config : Config} {organization_id : ℕ} {st : State}

/-- An organization that a deleted user is a member of, or has invited somebody to, is not the same any more. -/
theorem same_deleteUser_iff (config : Config) (organization_id : ℕ) (st : State) (user_id : ℕ) :
    SameForOthers config organization_id st (st.deleteUser user_id) ↔ st.Own config organization_id user_id ∧
      ∀ inv ∈ st.invitations.rows, inv.invited_by = some user_id → inv.organization_id = organization_id := by
  constructor
  · intro h
    constructor
    · intro m hm huser
      by_contra hother
      have hkept := ((h _ hother).memberships m rfl).mpr hm
      have hgone := st.memberships.mem_erase.mp hkept
      exact of_decide_eq_false hgone.2 huser
    · intro inv hinv hinviter
      by_contra hother
      have hkept := ((h _ hother).invitations inv rfl).mpr hinv
      obtain ⟨before,-,rfl⟩ := List.mem_map.mp hkept
      obtain ⟨-,hne⟩ := Option.filter_eq_some_iff.mp hinviter
      exact of_decide_eq_true hne rfl
  · rintro ⟨hown,hinvited⟩ other hother
    have hmembers : ∀ m, config.organizationOf m.place = other →
        (m ∈ (st.deleteUser user_id).memberships.rows ↔ m ∈ st.memberships.rows) := by
      intro m horg
      refine st.memberships.mem_erase.trans (and_iff_left_of_imp ?_)
      intro hm
      refine decide_eq_false ?_
      intro huser
      exact hother (horg.symm.trans (hown m hm huser))
    refine ⟨hmembers,?_,signIn_congr hmembers ?_⟩
    · intro inv horg
      refine mem_map_of_fixed ?_
      intro before hbefore heq
      have hbefore' : before.organization_id = other := by
        rcases heq with rfl | rfl
        · exact horg
        · exact horg
      have hinviter : before.invited_by.filter (fun inviter => inviter ≠ user_id) = before.invited_by := by
        cases hby : before.invited_by with
        | none => rfl
        | some inviter =>
          rw [Option.filter_some, if_pos]
          refine decide_eq_true ?_
          rintro rfl
          exact hother (hbefore'.symm.trans (hinvited before hbefore hby))
      rw [hinviter]
    · intro m hm horg email password
      have hne : m.user_id ≠ user_id := fun huser => hother (horg.symm.trans (hown m hm huser))
      constructor
      · rintro ⟨user,huser,hid,hrest⟩
        exact ⟨user,(st.users.mem_erase.mp huser).1,hid,hrest⟩
      · rintro ⟨user,huser,hid,hrest⟩
        exact ⟨user,st.users.mem_erase.mpr ⟨huser,decide_eq_false fun h => hne (hid.symm.trans h)⟩,hid,hrest⟩

theorem deleteMember_iff (user_id : ℕ) (refused : Bool) :
    SameForOthers config organization_id st (deleteMember organization_id st user_id refused) ↔
      Harmless config organization_id st (.deleteMember user_id refused) := by
  unfold deleteMember
  cases hmember : getOrdinaryMember organization_id st user_id with
  | none =>
    refine ⟨fun _ _ hne => (hne hmember).elim,fun _ other _ => ?_⟩
    exact SameFor.refl config other st
  | some user =>
    obtain ⟨-,hid,-⟩ := getOrdinaryMember_eq_some hmember
    cases refused with
    | true =>
      refine ⟨fun _ hno => Bool.noConfusion hno,fun _ other _ => ?_⟩
      exact SameFor.refl config other st
    | false =>
      refine (same_deleteUser_iff config organization_id st user.id).trans ?_
      rw [hid]
      refine ⟨fun h _ _ => h,fun h => h rfl ?_⟩
      rw [hmember]
      exact Option.some_ne_none user

theorem mem_updateUser {user_id : ℕ} (hne : user.id ≠ user_id) :
    user ∈ (st.updateUser user_id params).users.rows ↔ user ∈ st.users.rows := by
  refine mem_map_of_fixed ?_
  intro before _ heq
  have hid : before.id = user.id := by
    rcases heq with heq | rfl
    · rw [← heq]
      split <;> rfl
    · rfl
  rw [if_neg (hid ▸ hne)]

section
variable (huser : user ∈ st.users.rows)
include huser

theorem signIn_updateUser (params : UserUpdate) (email password : Text) :
    (∃ u ∈ (st.updateUser user.id params).users.rows, u.id = user.id ∧ u.is_active = true ∧
      config.lower u.email = config.lower email ∧ u.password = password) ↔
    user.is_active = true ∧ config.lower (params.apply user).email = config.lower email ∧ (params.apply user).password = password := by
  constructor
  · rintro ⟨u,hu,hid,hactive,hemail,hpassword⟩
    obtain ⟨before,hbefore,rfl⟩ := List.mem_map.mp hu
    have hsame : before = user := by
      refine st.users.eq_of_key hbefore huser (Eq.trans ?_ hid)
      split <;> rfl
    subst hsame
    rw [if_pos rfl] at hactive hemail hpassword
    exact ⟨hactive,hemail,hpassword⟩
  · rintro ⟨hactive,hemail,hpassword⟩
    refine ⟨params.apply user,List.mem_map.mpr ⟨user,huser,if_pos rfl⟩,rfl,hactive,hemail,hpassword⟩

theorem signIn_user (email password : Text) :
    (∃ u ∈ st.users.rows, u.id = user.id ∧ u.is_active = true ∧ config.lower u.email = config.lower email ∧ u.password = password) ↔
    user.is_active = true ∧ config.lower user.email = config.lower email ∧ user.password = password := by
  constructor
  · rintro ⟨u,hu,hid,hrest⟩
    obtain rfl := st.users.eq_of_key hu huser hid
    exact hrest
  · intro hrest
    exact ⟨user,huser,rfl,hrest⟩

theorem email_of_valid (hvalid : params.valid config st user = true)
    (hsame : config.lower (params.apply user).email = config.lower user.email) :
    ∀ email, params.email = some email → email = user.email := by
  intro email hemail
  obtain ⟨hfree,-⟩ := Bool.and_eq_true_iff.mp hvalid
  rw [hemail] at hfree
  rcases Bool.or_eq_true_iff.mp hfree with heq | htaken
  · exact of_decide_eq_true heq
  · have hlower : config.lower email = config.lower user.email := by
      have heq : (params.apply user).email = email := by
        change params.email.getD user.email = email
        rw [hemail]
        rfl
      rw [← heq]
      exact hsame
    have hmine : st.emailTaken config email = true := List.any_eq_true.mpr ⟨user,huser,decide_eq_true hlower.symm⟩
    rw [hmine] at htaken
    cases htaken

theorem same_updateUser_iff (hvalid : params.valid config st user = true) :
    SameForOthers config organization_id st (st.updateUser user.id params) ↔
      (user.is_active = true → st.Own config organization_id user.id ∨
        (∀ email, params.email = some email → email = user.email) ∧
          ∀ password, params.password = some password → password = user.password) := by
  constructor
  · intro h hactive
    by_cases hown : st.Own config organization_id user.id
    · exact .inl hown
    · refine .inr ?_
      -- the user is a member of another organization, where he signs in as before
      obtain ⟨m,hm⟩ := not_forall.mp hown
      obtain ⟨hmem,hm⟩ := Classical.not_imp.mp hm
      obtain ⟨hid,hother⟩ := Classical.not_imp.mp hm
      have hbefore : CanSignIn config st (config.organizationOf m.place) user.id user.email user.password :=
        ⟨⟨m,hmem,hid,rfl⟩,(signIn_user huser _ _).mpr ⟨hactive,rfl,rfl⟩⟩
      obtain ⟨-,hafter⟩ := ((h _ hother).signIn _ _ _).mpr hbefore
      obtain ⟨-,hemail,hpassword⟩ := (signIn_updateUser huser params _ _).mp hafter
      refine ⟨email_of_valid huser hvalid hemail,?_⟩
      intro password hset
      change params.password.getD user.password = user.password at hpassword
      rw [hset] at hpassword
      exact hpassword
  · intro h other hother
    refine ⟨fun _ _ => Iff.rfl,fun _ _ => Iff.rfl,signIn_congr (fun _ _ => Iff.rfl) ?_⟩
    intro m hm horg email password
    by_cases hid : m.user_id = user.id
    · rw [hid]
      refine (signIn_updateUser huser params email password).trans ((and_congr_right ?_).trans (signIn_user huser email password).symm)
      intro hactive
      rcases h hactive with hown | ⟨hemail,hpassword⟩
      · exact (hother (horg.symm.trans (hown m hm hid))).elim
      · have hsame : (params.apply user).email = user.email ∧ (params.apply user).password = user.password := by
          constructor
          · change params.email.getD user.email = user.email
            cases hset : params.email with
            | none => rfl
            | some e => exact hemail e hset
          · change params.password.getD user.password = user.password
            cases hset : params.password with
            | none => rfl
            | some p => exact hpassword p hset
        rw [hsame.1, hsame.2]
    · constructor
      · rintro ⟨u,hu,huid,hrest⟩
        exact ⟨u,(mem_updateUser fun h => hid (huid.symm.trans h)).mp hu,huid,hrest⟩
      · rintro ⟨u,hu,huid,hrest⟩
        exact ⟨u,(mem_updateUser fun h => hid (huid.symm.trans h)).mpr hu,huid,hrest⟩

end

theorem updateMember_iff (user_id : ℕ) (params : UserUpdate) :
    SameForOthers config organization_id st (updateMember config organization_id st user_id params) ↔
      Harmless config organization_id st (.updateMember user_id params) := by
  unfold updateMember
  cases hmember : getOrdinaryMember organization_id st user_id with
  | none =>
    refine ⟨fun _ user huser => ?_,fun _ other _ => ?_⟩
    · rw [hmember] at huser
      cases huser
    · exact SameFor.refl config other st
  | some user =>
    obtain ⟨huser,rfl,-⟩ := getOrdinaryMember_eq_some hmember
    cases hvalid : params.valid config st user with
    | false =>
      have hrefused : (some user).filter (fun user => params.valid config st user) = none := by
        rw [Option.filter_some, if_neg (by rw [hvalid]; exact Bool.false_ne_true)]
      rw [hrefused]
      refine ⟨fun _ user' huser' hvalid' => ?_,fun _ other _ => ?_⟩
      · rw [hmember] at huser'
        cases huser'
        rw [hvalid] at hvalid'
        cases hvalid'
      · exact SameFor.refl config other st
    | true =>
      rw [Option.filter_some, if_pos hvalid]
      refine (same_updateUser_iff huser hvalid).trans ⟨?_,fun h => h user hmember hvalid⟩
      intro h user' huser' _
      rw [hmember] at huser'
      cases huser'
      exact h

theorem addMember_iff (user_id added : ℕ) (role : OrgRole) :
    SameForOthers config organization_id st (addMember config st user_id added role) ↔
      Harmless config organization_id st (.addMember user_id added role) := by
  unfold addMember
  split
  · rename_i hknown
    cases hinsert : st.memberships.insert ⟨user_id,.organization added,role⟩ with
    | none =>
      refine ⟨fun _ => .inr (.inr (.inr ?_)),fun _ other _ => ?_⟩
      · unfold Table.insert at hinsert
        split at hinsert
        · rename_i htaken
          exact List.mem_map.mp htaken
        · cases hinsert
      · exact SameFor.refl config other st
    | some memberships =>
      obtain ⟨hnew,hmem⟩ := Table.insert_eq_some hinsert
      constructor
      · intro h
        by_contra hharm
        have hother : added ≠ organization_id := fun heq => hharm (.inl heq)
        have hrow := ((h added hother).memberships ⟨user_id,.organization added,role⟩ rfl).mp ((hmem _).mpr (.inl rfl))
        exact hnew hrow
      · intro h other hother
        rcases h with rfl | hunknown | hnobody | htaken
        · have hmembers : ∀ m, config.organizationOf m.place = other → (m ∈ memberships.rows ↔ m ∈ st.memberships.rows) := by
            intro m horg
            refine (hmem m).trans (or_iff_right ?_)
            rintro rfl
            exact hother horg.symm
          exact ⟨hmembers,fun _ _ => Iff.rfl,signIn_congr hmembers fun _ _ _ _ _ => Iff.rfl⟩
        · rw [hunknown] at hknown
          exact (Bool.false_ne_true hknown.1).elim
        · obtain ⟨-,user,huser,hid⟩ := hknown
          exact (hnobody user huser hid).elim
        · have hkey : (⟨user_id,.organization added,role⟩ : MembershipRow).key ∈ st.memberships.rows.map MembershipRow.key :=
            List.mem_map.mpr htaken
          unfold Table.insert at hinsert
          rw [dif_pos hkey] at hinsert
          cases hinsert
  · rename_i hunknown
    refine ⟨fun _ => .inr ?_,fun _ other _ => SameFor.refl config other st⟩
    by_cases horg : config.organizations added = true
    · refine .inr (.inl ?_)
      intro user huser hid
      exact hunknown ⟨horg,user,huser,hid⟩
    · exact .inl (Bool.not_eq_true _ ▸ horg)

theorem same_deleteSession (session_id other : ℕ) : SameFor config other st (deleteSession organization_id st session_id) := by
  unfold deleteSession
  split
  · exact ⟨fun _ _ => Iff.rfl,fun _ _ => Iff.rfl,fun _ _ _ => Iff.rfl⟩
  · exact SameFor.refl config other st

theorem same_invite {existing : Option ℕ} {inv : OrganizationInvitation} (hinv : inv.organization_id = organization_id)
    (hexisting : ∀ i ∈ st.invitations.rows, some i.id = existing → i.organization_id = organization_id) {other : ℕ}
    (hother : other ≠ organization_id) : SameFor config other st (st.invite existing inv) := by
  unfold State.invite
  dsimp only
  split
  · exact SameFor.refl config other st
  · split
    · rename_i invitations hinsert
      obtain ⟨-,hmem⟩ := Table.insert_eq_some hinsert
      refine SameFor.of_invitations ?_
      intro i horg
      rw [hmem, Table.mem_erase]
      constructor
      · rintro (rfl | hi)
        · exact (hother (horg.symm.trans hinv)).elim
        · exact hi.1
      · intro hi
        exact .inr ⟨hi,decide_eq_false fun heq => hother (horg.symm.trans (hexisting i hi heq))⟩
    · exact SameFor.refl config other st

theorem same_createInvitation (caller : Caller) (email : Text) (role : OrgRole) (id : ℕ) (token : Text) (now : ℕ) {other : ℕ}
    (hother : other ≠ organization_id) :
    SameFor config other st (createInvitation config organization_id st caller email role id token now) := by
  unfold createInvitation
  split
  · exact SameFor.refl config other st
  split
  · exact SameFor.refl config other st
  split
  · exact SameFor.refl config other st
  split
  · refine same_invite rfl ?_ hother
    intro i _ hnone
    cases hnone
  · rename_i existing hexisting
    split
    · exact SameFor.refl config other st
    · refine same_invite rfl ?_ hother
      intro i hi hid
      have hmem : existing ∈ st.invitedTo config organization_id email := hexisting ▸ List.mem_cons_self
      obtain ⟨hrow,hof⟩ := List.mem_filter.mp hmem
      rw [st.invitations.eq_of_key hi hrow (Option.some.inj hid)]
      exact (of_decide_eq_true hof).1
  · exact SameFor.refl config other st

theorem same_revokeInvitation (invitation_id : ℕ) {other : ℕ} (hother : other ≠ organization_id) :
    SameFor config other st (revokeInvitation organization_id st invitation_id) := by
  unfold revokeInvitation
  split
  · exact SameFor.refl config other st
  · rename_i inv hfind
    split
    · exact SameFor.refl config other st
    · have hof : inv.organization_id = organization_id := by
        have hboth : inv.id = invitation_id ∧ inv.organization_id = organization_id := by simpa using List.find?_some hfind
        exact hboth.2
      refine SameFor.of_invitations ?_
      intro i horg
      refine mem_map_of_fixed ?_
      intro before hbefore heq
      by_cases hid : before.id = inv.id
      · -- the invitation that is revoked is one of this organization
        have hsame := st.invitations.eq_of_key hbefore (List.mem_of_find?_eq_some hfind) hid
        have hi : i.organization_id = inv.organization_id := by
          rcases heq with rfl | rfl
          · rw [if_pos hid, hsame]
          · rw [hsame]
        exact (hother (horg.symm.trans (hi.trans hof))).elim
      · exact if_neg hid

theorem perform_iff (config : Config) (organization_id : ℕ) (st : State) (operation : Operation) :
    SameForOthers config organization_id st (perform config organization_id st operation) ↔
      Harmless config organization_id st operation := by
  cases operation with
  | listMembers => exact ⟨fun _ => trivial,fun _ other _ => SameFor.refl config other st⟩
  | getMember user_id => exact ⟨fun _ => trivial,fun _ other _ => SameFor.refl config other st⟩
  | deleteMember user_id refused => exact deleteMember_iff user_id refused
  | updateMember user_id params => exact updateMember_iff user_id params
  | addMember user_id added role => exact addMember_iff user_id added role
  | listSessions => exact ⟨fun _ => trivial,fun _ other _ => SameFor.refl config other st⟩
  | deleteSession session_id => exact ⟨fun _ => trivial,fun _ other _ => same_deleteSession session_id other⟩
  | createInvitation caller email role id token now =>
    exact ⟨fun _ => trivial,fun _ _ hother => same_createInvitation caller email role id token now hother⟩
  | revokeInvitation invitation_id => exact ⟨fun _ => trivial,fun _ _ hother => same_revokeInvitation invitation_id hother⟩

/-- All along a sequence of operations of its administrators the other organizations stay as they were exactly when every operation is
harmless in the state that it meets. -/
theorem organizations_isolated_iff (config : Config) (organization_id : ℕ) (st : State) (operations : List Operation) :
    Runs.Throughout (next config organization_id) (SameForOthers config organization_id st) st operations ↔
      Runs.StepsMeet (next config organization_id) (Harmless config organization_id) st operations := by
  refine Runs.throughout_iff_stepsMeet (I := fun _ => True) (fun _ _ _ _ _ => trivial) ?_ trivial
    (fun other _ => SameFor.refl config other st) operations
  rintro before operation after - hbefore hnext
  cases hnext
  rw [← perform_iff]
  constructor
  · intro h other hother
    exact (hbefore other hother).symm.trans (h other hother)
  · intro h other hother
    exact (hbefore other hother).trans (h other hother)

end Steps

section Samples

def sampleConfig : Config where
  organizations organization_id := organization_id = 1 ∨ organization_id = 2
  organization_id _ := 1
  lower := List.map Char.toLower
  min_password_length := 12

/-- A user of both organizations, who has invited somebody to the second. -/
def sampleState : State where
  users := ⟨[⟨5,"a@x".toList,"correct horse".toList,true,false,true,.basic,none,none⟩,
    ⟨6,"b@x".toList,"battery staple".toList,true,false,true,.basic,none,none⟩],by decide⟩
  memberships := ⟨[⟨5,.organization 1,.member⟩,⟨5,.organization 2,.owner⟩,⟨6,.organization 1,.member⟩],by decide⟩
  invitations := ⟨[⟨0,2,"c@x".toList,.member,some 5,"t".toList,100,.pending⟩],by decide⟩
  access_tokens := ⟨[],by decide⟩

def newPassword : UserUpdate := ⟨none,some "something else".toList,none,none,none,none,none,none⟩

/-- The first organization deletes the user of both, changes his password, and adds a member to the second. -/
theorem organizations_interfere :
    ¬ SameFor sampleConfig 2 sampleState (perform sampleConfig 1 sampleState (.deleteMember 5 false)) ∧
    ¬ SameFor sampleConfig 2 sampleState (perform sampleConfig 1 sampleState (.updateMember 5 newPassword)) ∧
    ¬ SameFor sampleConfig 2 sampleState (perform sampleConfig 1 sampleState (.addMember 6 2 .owner)) := by
  refine ⟨?_,?_,?_⟩
  · intro h
    have hkept := (h.memberships ⟨5,.organization 2,.owner⟩ rfl).mpr (by decide)
    exact absurd hkept (by decide)
  · intro h
    have hbefore : CanSignIn sampleConfig sampleState 2 5 "a@x".toList "correct horse".toList :=
      ⟨⟨⟨5,.organization 2,.owner⟩,by decide,rfl,rfl⟩,_,List.mem_cons_self,rfl,rfl,rfl,rfl⟩
    obtain ⟨-,user,huser,hid,-,-,hpassword⟩ := (h.signIn _ _ _).mpr hbefore
    have hchanged : ∀ u ∈ (perform sampleConfig 1 sampleState (.updateMember 5 newPassword)).users.rows, u.id = 5 →
        u.password ≠ "correct horse".toList := by decide
    exact hchanged user huser hid hpassword
  · intro h
    have hadded := (h.memberships ⟨6,.organization 2,.owner⟩ rfl).mp (by decide)
    exact absurd hadded (by decide)

end Samples
end OrganizationMembers
end Allama

import Allama.Identifiers
import Allama.KeyedTables
import Allama.Runs

/-! The members, sessions and invitations of an organization, as its administrators manage them by `OrgService`
(`organization/service.py`); users and sessions are shared by all organizations. -/
namespace Allama
namespace OrganizationMembers
open KeyedTables

inductive UserRole
  | basic
  | admin
deriving DecidableEq, Repr

inductive OrgRole
  | member
  | admin
  | owner
deriving DecidableEq, Repr

/-- An account, with the password that its hash is of. -/
structure User where
  id : ℕ
  email : Text
  password : Text
  is_active : Bool
  is_superuser : Bool
  is_verified : Bool
  role : UserRole
  first_name : Option Text
  last_name : Option Text
deriving DecidableEq, Repr

/-- An organization, or a workspace of one. -/
inductive Place
  | organization (organization_id : ℕ)
  | workspace (workspace_id : ℕ)
deriving DecidableEq, Repr

/-- A row of `OrganizationMembership`, or of `Membership`, whose role is not used here. -/
structure MembershipRow where
  user_id : ℕ
  place : Place
  role : OrgRole
deriving DecidableEq, Repr

def MembershipRow.key (m : MembershipRow) : ℕ × Place := (m.user_id,m.place)

structure AccessToken where
  id : ℕ
  user_id : ℕ
deriving DecidableEq, Repr

inductive InvitationStatus
  | pending
  | accepted
  | revoked
deriving DecidableEq, Repr

structure OrganizationInvitation where
  id : ℕ
  organization_id : ℕ
  email : Text
  role : OrgRole
  invited_by : Option ℕ
  token : Text
  expires_at : ℕ
  status : InvitationStatus
deriving DecidableEq, Repr

structure State where
  users : Table User.id
  memberships : Table MembershipRow.key
  invitations : Table OrganizationInvitation.id
  access_tokens : Table AccessToken.id

/-- The organizations, the one of a workspace, `lower`, and the length of a password. -/
structure Config where
  organizations : ℕ → Bool
  organization_id : ℕ → ℕ
  lower : Text → Text
  min_password_length : ℕ

/-- `UserUpdate`: the fields that are set. -/
structure UserUpdate where
  email : Option Text
  password : Option Text
  is_active : Option Bool
  is_superuser : Option Bool
  is_verified : Option Bool
  role : Option UserRole
  first_name : Option (Option Text)
  last_name : Option (Option Text)
deriving DecidableEq, Repr

/-- The role of an administrator. -/
structure Caller where
  user_id : Option ℕ
  org_role : Option OrgRole
  is_superuser : Bool
deriving DecidableEq, Repr

inductive Operation
  | listMembers
  | getMember (user_id : ℕ)
  /-- `refused` tells whether rows of other tables keep the user. -/
  | deleteMember (user_id : ℕ) (refused : Bool)
  | updateMember (user_id : ℕ) (params : UserUpdate)
  | addMember (user_id organization_id : ℕ) (role : OrgRole)
  | listSessions
  | deleteSession (session_id : ℕ)
  /-- `id` and `token` are drawn, and `now` is the time. -/
  | createInvitation (caller : Caller) (email : Text) (role : OrgRole) (id : ℕ) (token : Text) (now : ℕ)
  | revokeInvitation (invitation_id : ℕ)
deriving DecidableEq, Repr

section Members
variable (config : Config) (organization_id : ℕ)

def State.orgRole (st : State) (user_id : ℕ) : Option OrgRole :=
  (st.memberships.rows.find? fun m => m.key = (user_id,.organization organization_id)).map MembershipRow.role

def listMembers (st : State) : List (User × OrgRole) :=
  st.users.rows.filterMap fun user => (st.orgRole organization_id user.id).map fun role => (user,role)

/-- `one()` of the members with the id; `none` is its `NoResultFound`. -/
def getMember (st : State) (user_id : ℕ) : Option User :=
  match (listMembers organization_id st).filter fun member => member.1.id = user_id with
  | [(user,_)] => some user
  | _ => none

/-- The member that `delete_member` and `update_member` go on with. -/
def getOrdinaryMember (st : State) (user_id : ℕ) : Option User := (getMember organization_id st user_id).filter fun user => !user.is_superuser

/-- The user is deleted with his memberships and sessions; his invitations lose their inviter. -/
def State.deleteUser (st : State) (user_id : ℕ) : State where
  users := st.users.erase fun user => user.id = user_id
  memberships := st.memberships.erase fun m => m.user_id = user_id
  invitations := st.invitations.modify
    (fun inv => { inv with invited_by := inv.invited_by.filter fun inviter => inviter ≠ user_id }) fun _ => rfl
  access_tokens := st.access_tokens.erase fun token => token.user_id = user_id

def deleteMember (st : State) (user_id : ℕ) (refused : Bool) : State :=
  match (getOrdinaryMember organization_id st user_id).filter fun _ => !refused with
  | some user => st.deleteUser user.id
  | none => st

/-- `get_by_email`. -/
def State.emailTaken (st : State) (email : Text) : Bool := st.users.rows.any fun user => config.lower user.email = config.lower email

/-- The checks of `UserManager.update`: a new email that nobody has, and a password that is long enough. -/
def UserUpdate.valid (params : UserUpdate) (st : State) (user : User) : Bool :=
  (params.email.all fun email => email = user.email || !st.emailTaken config email) &&
    params.password.all fun password => config.min_password_length ≤ password.length

/-- A safe update leaves `is_active` and `is_superuser`; a new email is not verified. -/
def UserUpdate.apply (params : UserUpdate) (user : User) : User :=
  { user with
    email := params.email.getD user.email
    password := params.password.getD user.password
    is_verified := if params.email.all fun email => email = user.email then user.is_verified else false
    role := params.role.getD user.role
    first_name := params.first_name.getD user.first_name
    last_name := params.last_name.getD user.last_name }

def State.updateUser (st : State) (user_id : ℕ) (params : UserUpdate) : State :=
  { st with
    users := st.users.modify (fun user => if user.id = user_id then params.apply user else user) (fun user => by split <;> rfl) }

def updateMember (st : State) (user_id : ℕ) (params : UserUpdate) : State :=
  match (getOrdinaryMember organization_id st user_id).filter fun user => params.valid config st user with
  | some user => st.updateUser user.id params
  | none => st

end Members

section Operations
variable (config : Config) (organization_id : ℕ)

/-- `add_member`, for any organization that there is and any user. -/
def addMember (st : State) (user_id organization_id : ℕ) (role : OrgRole) : State :=
  if config.organizations organization_id ∧ ∃ user ∈ st.users.rows, user.id = user_id then
    match st.memberships.insert ⟨user_id,.organization organization_id,role⟩ with
    | some memberships => { st with memberships := memberships }
    | none => st
  else st

def listSessions (st : State) : List AccessToken :=
  st.access_tokens.rows.filter fun token => (listMembers organization_id st).any fun member => member.1.id = token.user_id

def deleteSession (st : State) (session_id : ℕ) : State :=
  match (listSessions organization_id st).find? fun token => token.id = session_id with
  | some token => { st with access_tokens := st.access_tokens.erase fun t => t.id = token.id }
  | none => st

def week : ℕ := 7 * 24 * 60 * 60

def State.invitedTo (st : State) (email : Text) : List OrganizationInvitation :=
  st.invitations.rows.filter fun inv => inv.organization_id = organization_id ∧ config.lower inv.email = config.lower email

/-- The DELETE of the existing invitation and the INSERT of the new one, under the constraints on the token and on the email in an
organization. -/
def State.invite (st : State) (existing : Option ℕ) (inv : OrganizationInvitation) : State :=
  let cleared := st.invitations.erase fun i => some i.id = existing
  if cleared.rows.any fun i => i.token = inv.token ∨ i.email = inv.email ∧ i.organization_id = inv.organization_id then st
  else match cleared.insert inv with
    | some invitations => { st with invitations := invitations }
    | none => st

def createInvitation (st : State) (caller : Caller) (email : Text) (role : OrgRole) (id : ℕ) (token : Text) (now : ℕ) : State :=
  if caller.user_id = none then st
  else if role = .owner ∧ caller.org_role ≠ some .owner ∧ caller.is_superuser = false then st
  else if (listMembers organization_id st).any fun member => config.lower member.1.email = config.lower email then st
  else
    let inv : OrganizationInvitation := ⟨id,organization_id,email,role,caller.user_id,token,now + week,.pending⟩
    match st.invitedTo config organization_id email with
    | [] => st.invite none inv
    | [existing] => if existing.status = .pending ∧ now ≤ existing.expires_at then st else st.invite (some existing.id) inv
    | _ :: _ :: _ => st

def revokeInvitation (st : State) (invitation_id : ℕ) : State :=
  match st.invitations.rows.find? fun inv => inv.id = invitation_id ∧ inv.organization_id = organization_id with
  | none => st
  | some inv =>
    if inv.status ≠ .pending then st
    else { st with
      invitations := st.invitations.modify (fun i => if i.id = inv.id then { i with status := .revoked } else i)
        (fun i => by split <;> rfl) }

/-- The state after an operation of an administrator of the organization; one that raises leaves it. -/
def perform (st : State) : Operation → State
  | .listMembers => st
  | .getMember _ => st
  | .deleteMember user_id refused => deleteMember organization_id st user_id refused
  | .updateMember user_id params => updateMember config organization_id st user_id params
  | .addMember user_id organization_id role => addMember config st user_id organization_id role
  | .listSessions => st
  | .deleteSession session_id => deleteSession organization_id st session_id
  | .createInvitation caller email role id token now => createInvitation config organization_id st caller email role id token now
  | .revokeInvitation invitation_id => revokeInvitation organization_id st invitation_id

def next (st : State) (operation : Operation) : Option State := some (perform config organization_id st operation)

end Operations
end OrganizationMembers
end Allama

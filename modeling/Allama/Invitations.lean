import Mathlib.Logic.Function.Basic
import Allama.Expressions
import Allama.IdRows
import Allama.Runs

/-! Invitations to organizations (`organization/service.py`) and to workspaces (`workspaces/service.py`): calls that create, accept and
revoke them, whose statements overlap under READ COMMITTED. -/
namespace Allama
namespace Invitations
open IdRows

inductive InvitationStatus
  | pending
  | accepted
  | revoked
deriving DecidableEq, Repr

inductive OrgRole
  | member
  | admin
  | owner
deriving DecidableEq, Repr

inductive WorkspaceRole
  | editor
  | admin
deriving DecidableEq, Repr

/-- What an invitation or a membership is for. -/
inductive Place
  | organization (organization_id : ℕ)
  | workspace (workspace_id : ℕ)
deriving DecidableEq, Repr

inductive Role
  | organization (role : OrgRole)
  | workspace (role : WorkspaceRole)
deriving DecidableEq, Repr

/-- A row of `OrganizationInvitation` or of `Invitation`, as its place tells. -/
structure Invitation where
  id : ℕ
  place : Place
  email : Text
  role : Role
  invited_by : Option ℕ
  token : Text
  expires_at : ℕ
  status : InvitationStatus
  accepted_at : Option ℕ
deriving DecidableEq, Repr

/-- A row of `OrganizationMembership` or of `Membership`. -/
structure MembershipRow where
  user_id : ℕ
  place : Place
  role : Role
deriving DecidableEq, Repr

/-- The role of a caller that has passed the decorators of a service. -/
structure Caller where
  user_id : Option ℕ
  org_role : Option OrgRole
  is_superuser : Bool
deriving DecidableEq, Repr

/-- A call of `create_invitation`, of `accept_invitation` or `accept_invitation_for_user`, or of `revoke_invitation`. -/
inductive Request
  | create (caller : Caller) (place : Place) (email : Text) (role : Role)
  | acceptOrganization (user_id : ℕ) (token : Text)
  | acceptWorkspace (user_id : ℕ) (token : Text)
  | revoke (place : Place) (invitation_id : ℕ)
deriving DecidableEq, Repr

/-- Where a call is. -/
inductive Phase
  | begun
  /-- It has the invitation of a token. -/
  | found (invitation : Invitation)
  /-- It has put the membership of the organization to its transaction, if there was none. -/
  | entering (invitation : Invitation) (joins : List MembershipRow)
  | accepting (invitation : Invitation) (joins : List MembershipRow)
  | revoking (invitation_id : ℕ)
  /-- No member has the email. -/
  | inviting
  | replacing (existing : Option ℕ)
  /-- It has found no invitation that is pending at its `now`. -/
  | drafting (now : ℕ)
  /-- The email has an invitation, and the transaction was rolled back. -/
  | conflicting (now : ℕ)
  | clearing (existing : ℕ)
  | committed
  | returned
  | raised
deriving DecidableEq, Repr

structure Call where
  request : Request
  phase : Phase
deriving DecidableEq, Repr

/-- What a call has committed from an invitation, as its row was before: the user, the time, and the memberships. -/
structure Grant where
  call : ℕ
  invitation : Invitation
  user_id : ℕ
  time : ℕ
  members : List MembershipRow
deriving DecidableEq, Repr

/-- The users, the workspaces, and `str.lower`. -/
structure Config where
  email : ℕ → Option Text
  organization_id : ℕ → ℕ
  lower : Text → Text

/-- The clock, the tables, the rows that were deleted, the memberships that calls have created, the calls, and the number of ids. -/
structure State where
  now : ℕ
  invitations : List Invitation
  deleted : List Invitation
  memberships : List MembershipRow
  grants : List Grant
  calls : ℕ → Option Call
  created : ℕ

def started (memberships : List MembershipRow) : State := ⟨0,[],[],memberships,[],fun _ => none,0⟩

inductive Action
  | tick (elapsed : ℕ)
  | call (id : ℕ) (request : Request)
  /-- The next statements of a call, which read. -/
  | read (id : ℕ)
  /-- The statements of a call that write, with the commit; `token` is a new one. -/
  | write (id : ℕ) (token : Text)
  /-- What a call does after its commit: it reads the row again, and writes the audit log. -/
  | finish (id : ℕ) (succeeds : Bool)
  /-- A statement of a call fails. -/
  | fail (id : ℕ)
deriving DecidableEq, Repr

def Place.isWorkspace : Place → Bool
  | .organization _ => false
  | .workspace _ => true

def week : ℕ := 7 * 24 * 60 * 60

section Statements

def State.setPhase (st : State) (id : ℕ) (call : Call) (phase : Phase) : State :=
  { st with calls := Function.update st.calls id (some ⟨call.request,phase⟩) }

/-- `scalar_one_or_none` on the table that has the token. -/
def State.byToken (st : State) (workspace : Bool) (token : Text) : Option Invitation :=
  st.invitations.find? fun inv => inv.place.isWorkspace = workspace ∧ inv.token = token

def State.membership (st : State) (user_id : ℕ) (place : Place) : Option MembershipRow :=
  st.memberships.find? fun m => m.user_id = user_id ∧ m.place = place

/-- The rows of an email in a place, where `same` compares emails. -/
def State.invited (st : State) (place : Place) (same : Text → Bool) : List Invitation :=
  st.invitations.filter fun inv => inv.place = place ∧ same inv.email

def State.update (st : State) (invitation_id : ℕ) (status : InvitationStatus) (accepted_at : Option ℕ) : State :=
  { st with
    invitations := changeAt Invitation.id invitation_id (fun inv => { inv with status := status, accepted_at := accepted_at })
      st.invitations }

def State.delete (st : State) (invitation_id : ℕ) : State :=
  { st with
    invitations := st.invitations.filter fun inv => inv.id ≠ invitation_id
    deleted := st.deleted ++ st.invitations.filter fun inv => inv.id = invitation_id }

/-- The pending row of an invitation that expires in a week. -/
def State.draft (st : State) (caller : Caller) (place : Place) (email : Text) (role : Role) (token : Text) : Invitation where
  id := st.created
  place := place
  email := email
  role := role
  invited_by := caller.user_id
  token := token
  expires_at := st.now + week
  status := .pending
  accepted_at := none

def State.insert (st : State) (invitation : Invitation) : State :=
  { st with invitations := st.invitations ++ [invitation], created := st.created + 1 }

def State.emailFree (st : State) (place : Place) (email : Text) : Bool := (st.invited place fun e => e = email).isEmpty

def State.tokenFree (st : State) (place : Place) (token : Text) : Bool := (st.byToken place.isWorkspace token).isNone

end Statements

section Accepting
variable (config : Config)

/-- The statements of `accept_invitation_for_user` and of `OrgService.accept_invitation` before the UPDATE. -/
def acceptInvitationForUser (st : State) (user_id : ℕ) (token : Text) : Phase → Option Phase
  | .begun => some ((st.byToken false token).elim .raised .found)
  | .found invitation => some <|
      match config.email user_id with
      | none => .raised
      | some email =>
        if config.lower email ≠ config.lower invitation.email then .raised
        else if invitation.expires_at < st.now then .raised
        else .accepting invitation []
  | _ => none

/-- The statements of `WorkspaceService.accept_invitation` before the UPDATE. -/
def acceptWorkspaceInvitation (st : State) (user_id : ℕ) (token : Text) : Phase → Option Phase
  | .begun => some ((st.byToken true token).elim .raised .found)
  | .found invitation => some <|
      if invitation.expires_at < st.now then .raised
      else match invitation.place with
        | .organization _ => .raised
        | .workspace workspace_id =>
          let organization := Place.organization (config.organization_id workspace_id)
          match st.membership user_id organization with
          | some _ => .entering invitation []
          | none => .entering invitation [⟨user_id,organization,.organization .member⟩]
  | .entering invitation joins => some <|
      match st.membership user_id invitation.place with
      | some _ => .raised
      | none => .accepting invitation joins
  | _ => none

/-- The memberships that an acceptance commits. -/
def members (user_id : ℕ) (invitation : Invitation) (joins : List MembershipRow) : List MembershipRow :=
  joins ++ [⟨user_id,invitation.place,invitation.role⟩]

/-- The row that the conditional UPDATE of an acceptance finds, where the constraints on the memberships let the commit through. -/
def State.acceptable (st : State) (user_id : ℕ) (invitation : Invitation) (joins : List MembershipRow) : Option Invitation :=
  if (config.email user_id).isSome ∧ ∀ m ∈ members user_id invitation joins, st.membership m.user_id m.place = none then
    (rowAt Invitation.id invitation.id st.invitations).filter fun row => row.status = .pending
  else none

/-- The UPDATE of an acceptance with its memberships and its commit. -/
def State.accept (st : State) (id : ℕ) (call : Call) (user_id : ℕ) (invitation : Invitation) (joins : List MembershipRow) : State :=
  match st.acceptable config user_id invitation joins with
  | none => st.setPhase id call .raised
  | some row =>
    { (st.update invitation.id .accepted (some st.now)).setPhase id call .committed with
      memberships := st.memberships ++ members user_id invitation joins
      grants := st.grants ++ [⟨id,row,user_id,st.now,members user_id invitation joins⟩] }

end Accepting

section Revoking

/-- The SELECT of `revoke_invitation`, and what the status of the row leads to. -/
def revokeInvitation (st : State) (place : Place) (invitation_id : ℕ) : Phase :=
  match st.invitations.find? fun inv => inv.id = invitation_id ∧ inv.place = place with
  | none => .raised
  | some invitation => if invitation.status ≠ .pending then .raised else .revoking invitation.id

/-- The UPDATE by primary key of the changed status, and the commit. -/
def State.revoke (st : State) (id : ℕ) (call : Call) (invitation_id : ℕ) : State :=
  match rowAt Invitation.id invitation_id st.invitations with
  | none => st.setPhase id call .raised
  | some row => (st.update invitation_id .revoked row.accepted_at).setPhase id call .committed

end Revoking

section Creating
variable (config : Config)

/-- The statements of `OrgService.create_invitation` before it writes. -/
def createOrganizationInvitation (st : State) (caller : Caller) (place : Place) (email : Text) (role : Role) : Phase → Option Phase
  | .begun => some <|
      if caller.user_id = none then .raised
      else if role = .organization .owner ∧ caller.org_role ≠ some .owner ∧ caller.is_superuser = false then .raised
      else if (st.memberships.any fun m => m.place = place ∧ (config.email m.user_id).map config.lower = some (config.lower email)) then
        .raised
      else .inviting
  | .inviting => some <|
      match st.invited place fun e => config.lower e = config.lower email with
      | [] => .replacing none
      | [existing] => if existing.status = .pending ∧ st.now ≤ existing.expires_at then .raised else .replacing (some existing.id)
      | _ :: _ :: _ => .raised
  | _ => none

/-- The DELETE of the existing row, the INSERT and the commit of `OrgService.create_invitation`. -/
def State.replace (st : State) (id : ℕ) (call : Call) (existing : Option ℕ) (draft : Invitation) : State :=
  let cleared := existing.elim st st.delete
  if cleared.emailFree draft.place draft.email ∧ cleared.tokenFree draft.place draft.token then
    (cleared.insert draft).setPhase id call .committed
  else st.setPhase id call .raised

/-- The SELECTs of `WorkspaceService.create_invitation`: for a pending invitation, and after a conflict for any. -/
def createWorkspaceInvitation (st : State) (place : Place) (email : Text) : Phase → Option Phase
  | .begun => some <|
      if (st.invited place fun e => e = email).any fun inv => inv.status = .pending ∧ st.now < inv.expires_at then .raised
      else .drafting st.now
  | .conflicting now => some <|
      match (st.invited place fun e => e = email).head? with
      | none => .raised
      | some existing => if existing.expires_at < now then .clearing existing.id else .raised
  | _ => none

/-- The INSERT of `WorkspaceService.create_invitation`. -/
def State.propose (st : State) (id : ℕ) (call : Call) (now : ℕ) (draft : Invitation) : State :=
  if st.emailFree draft.place draft.email then
    if st.tokenFree draft.place draft.token then (st.insert draft).setPhase id call .committed else st.setPhase id call .raised
  else st.setPhase id call (.conflicting now)

end Creating

section Steps
variable (config : Config)

/-- The next phase of a call whose next statements read. -/
def read (st : State) (call : Call) : Option Phase :=
  match call.request with
  | .create caller (.organization o) email role =>
    createOrganizationInvitation config st caller (.organization o) email role call.phase
  | .create _ (.workspace w) email _ => createWorkspaceInvitation st (.workspace w) email call.phase
  | .acceptOrganization user_id token => acceptInvitationForUser config st user_id token call.phase
  | .acceptWorkspace user_id token => acceptWorkspaceInvitation config st user_id token call.phase
  | .revoke place invitation_id => if call.phase = .begun then some (revokeInvitation st place invitation_id) else none

/-- The state after the statements of a call that write. -/
def write (st : State) (id : ℕ) (call : Call) (token : Text) : Option State :=
  match call.request, call.phase with
  | .acceptOrganization user_id _, .accepting invitation joins => some (st.accept config id call user_id invitation joins)
  | .acceptWorkspace user_id _, .accepting invitation joins => some (st.accept config id call user_id invitation joins)
  | .revoke _ _, .revoking invitation_id => some (st.revoke id call invitation_id)
  | .create caller place email role, .replacing existing =>
    some (st.replace id call existing (st.draft caller place email role token))
  | .create caller place email role, .drafting now => some (st.propose id call now (st.draft caller place email role token))
  -- the expired row is deleted, and the call begins again
  | .create _ _ _ _, .clearing existing => some ((st.delete existing).setPhase id call .begun)
  | _, _ => none

def Phase.uncommitted : Phase → Bool
  | .committed | .returned | .raised => false
  | _ => true

def next (st : State) : Action → Option State
  | .tick elapsed => some { st with now := st.now + elapsed }
  | .call id request =>
    if (st.calls id).isSome then none else some { st with calls := Function.update st.calls id (some ⟨request,.begun⟩) }
  | .read id => (st.calls id).bind fun call => (read config st call).map fun phase => st.setPhase id call phase
  | .write id token => (st.calls id).bind fun call => write config st id call token
  | .finish id succeeds =>
    (st.calls id).bind fun call =>
      if call.phase = .committed then some (st.setPhase id call (if succeeds then .returned else .raised)) else none
  | .fail id => (st.calls id).bind fun call => if call.phase.uncommitted then some (st.setPhase id call .raised) else none

end Steps
end Invitations
end Allama

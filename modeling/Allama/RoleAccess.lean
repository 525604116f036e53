import Allama.Identifiers

/-! The roles that `_role_dependency` (`auth/credentials.py`) gives to the callers of the API. -/
namespace Allama
namespace RoleAccess

inductive UserRole
  | basic
  | admin
deriving DecidableEq, Repr

inductive AccessLevel
  | basic
  | admin
deriving DecidableEq, Repr

inductive WorkspaceRole
  | editor
  | admin
deriving DecidableEq, Repr

inductive OrgRole
  | member
  | admin
  | owner
deriving DecidableEq, Repr

structure User where
  id : Uuid
  role : UserRole
  is_superuser : Bool
deriving DecidableEq

structure Membership where
  user_id : Uuid
  workspace_id : Uuid
  role : WorkspaceRole
deriving DecidableEq

structure Workspace where
  id : Uuid
  organization_id : Uuid
deriving DecidableEq

structure OrganizationMembership where
  user_id : Uuid
  organization_id : Uuid
  role : OrgRole
deriving DecidableEq

structure Database where
  users : List User
  organizations : List Uuid
  workspaces : List Workspace
  memberships : List Membership
  organization_memberships : List OrganizationMembership

structure MembershipWithOrg where
  membership : Membership
  org_id : Uuid
deriving DecidableEq

inductive RoleType
  | user
  | service
deriving DecidableEq, Repr

structure Role where
  type : RoleType
  workspace_id : Option Uuid
  organization_id : Option Uuid
  workspace_role : Option WorkspaceRole
  org_role : Option OrgRole
  user_id : Option Uuid
  access_level : AccessLevel
  service_id : Text
  is_platform_superuser : Bool
deriving DecidableEq

/-- What a call raises: an `HTTPException`, or an error of Python that nothing catches. -/
inductive Failure
  | http (status_code : ℕ) (detail : Text)
  | keyError (key : Text)
  | valueError
deriving DecidableEq, Repr

structure ExecutorTokenPayload where
  workspace_id : Uuid
  user_id : Option Uuid
deriving DecidableEq

/-- The settings, and what `verify_executor_token` makes of a token, where `none` is its `ValueError`. -/
structure Config where
  service_key : Text
  service_roles_whitelist : List Text
  verifyExecutorToken : Text → Option ExecutorTokenPayload

/-- The headers, by their names in lower case, and the cookies. -/
structure Request where
  header : Text → Option Text
  cookie : Text → Option Text

inductive RequireWorkspace
  | yes
  | no
  | optional
deriving DecidableEq, Repr

/-- `request.state.auth_cache`. -/
structure AuthCache where
  memberships : Uuid → Option Membership
  membership_checked : Bool
  all_memberships : List Membership
  user_id : Option Uuid

/-- The cache of the middleware. -/
def AuthCache.initial : AuthCache := ⟨fun _ => none,false,[],none⟩

/-- The arguments of `_role_dependency`; a single required role is a list of one. -/
structure Arguments where
  request : Request
  workspace_id : Option Uuid
  user : Option User
  api_key : Option Text
  allow_user : Bool
  allow_service : Bool
  allow_executor : Bool
  require_workspace : RequireWorkspace
  min_access_level : Option AccessLevel
  require_workspace_roles : Option (List WorkspaceRole)

def AccessLevel.value : AccessLevel → ℕ
  | .basic => 0
  | .admin => 999

/-- `USER_ROLE_TO_ACCESS_LEVEL`. -/
def UserRole.accessLevel : UserRole → AccessLevel
  | .admin => .admin
  | .basic => .basic

def isUnprivileged (user : User) : Bool := user.role ≠ .admin ∧ user.is_superuser = false

def maxCachedMemberships : ℕ := 1000

def forbidden : Failure := .http 403 "Forbidden".toList

def unauthorized : Failure := .http 401 "Unauthorized".toList

section Database
variable (db : Database)

def Database.organizationOf (workspace_id : Uuid) : Option Uuid :=
  (db.workspaces.find? fun w => w.id = workspace_id).map Workspace.organization_id

def listUserMemberships (user_id : Uuid) : List Membership := db.memberships.filter fun m => m.user_id = user_id

def listUserMembershipsWithOrg (user_id : Uuid) : List MembershipWithOrg :=
  (listUserMemberships db user_id).filterMap fun m => (db.organizationOf m.workspace_id).map fun org_id => ⟨m,org_id⟩

def getMembership (workspace_id user_id : Uuid) : Option MembershipWithOrg :=
  (listUserMembershipsWithOrg db user_id).find? fun m => m.membership.workspace_id = workspace_id

def Database.orgRole (user_id organization_id : Uuid) : Option OrgRole :=
  (db.organization_memberships.find? fun m => m.user_id = user_id ∧ m.organization_id = organization_id).map
    OrganizationMembership.role

def Database.userRole (user_id : Uuid) : Option UserRole := (db.users.find? fun u => u.id = user_id).map User.role

end Database

section Users
variable (db : Database)

/-- The cache after the memberships of a user are loaded; of two with one key the last is kept. -/
def AuthCache.load (user_id : Uuid) (all_memberships : List Membership) : AuthCache where
  memberships workspace_id := all_memberships.reverse.find? fun m => m.workspace_id = workspace_id
  membership_checked := true
  all_memberships := all_memberships
  user_id := some user_id

/-- The membership of a user in a workspace, by way of the cache if there is one. -/
def findMembership (cache : Option AuthCache) (workspace_id user_id : Uuid) : Option MembershipWithOrg × Option AuthCache :=
  match cache with
  | none => (getMembership db workspace_id user_id,none)
  | some auth_cache =>
    if ((auth_cache.memberships workspace_id).filter fun m => m.user_id = user_id).isSome then
      (getMembership db workspace_id user_id,some auth_cache)
    else if auth_cache.membership_checked = false then
      let all_memberships := listUserMemberships db user_id
      if maxCachedMemberships < all_memberships.length then (getMembership db workspace_id user_id,some auth_cache)
      else (getMembership db workspace_id user_id,some (.load user_id all_memberships))
    else if auth_cache.user_id ≠ some user_id then (getMembership db workspace_id user_id,some auth_cache)
    -- every membership of the user is in the cache
    else (none,some auth_cache)

/-- The role in a workspace, and its organization. -/
def workspaceContext (args : Arguments) : Option MembershipWithOrg → Except Failure (Option WorkspaceRole × Uuid)
  | none => .error forbidden
  | some m =>
    match args.require_workspace_roles with
    | some (role :: roles) =>
      if m.membership.role ∉ role :: roles then .error (.http 403 "You cannot perform this operation".toList)
      else .ok (some m.membership.role,m.org_id)
    | _ => .ok (some m.membership.role,m.org_id)

/-- The organization that a superuser has selected by the cookie `allama-org-id`. -/
def selectedOrganization (args : Arguments) : Option Uuid :=
  match args.request.cookie "allama-org-id".toList with
  | some (c :: cs) => (Uuid.parse (String.ofList (c :: cs))).filter fun org_id => org_id ∈ db.organizations
  | _ => none

def organizationIds (user_id : Uuid) : List Uuid := ((listUserMembershipsWithOrg db user_id).map MembershipWithOrg.org_id).dedup

/-- The organization of a request without a workspace, and of one by a privileged user. -/
def organizationContext (args : Arguments) (user : User) : Except Failure Uuid :=
  if user.is_superuser then
    match selectedOrganization db args with
    | some organization_id => .ok organization_id
    | none => .error (.http 428 "Organization selection required".toList)
  else match organizationIds db user.id with
    | [] => .error (.http 400 "User has no organization memberships".toList)
    | [organization_id] => .ok organization_id
    | _ :: _ :: _ => .error (.http 400 "Multiple organizations found. Provide workspace_id to select an organization.".toList)

def userContext (args : Arguments) (user : User) (cache : Option AuthCache) :
    Except Failure (Option WorkspaceRole × Uuid) × Option AuthCache :=
  match isUnprivileged user, args.workspace_id with
  | true, some workspace_id =>
    let found := findMembership db cache workspace_id user.id
    (workspaceContext args found.1,found.2)
  | _, _ => ((organizationContext db args user).map fun organization_id => (none,organization_id),cache)

def getRoleFromUser (user : User) (organization_id : Uuid) (workspace_id : Option Uuid) (workspace_role : Option WorkspaceRole)
    (org_role : Option OrgRole) : Role where
  type := .user
  workspace_id := workspace_id
  organization_id := some organization_id
  workspace_role := workspace_role
  org_role := if user.is_superuser then some .owner else org_role
  user_id := some user.id
  access_level := if user.is_superuser then .admin else user.role.accessLevel
  service_id := "allama-api".toList
  is_platform_superuser := user.is_superuser

end Users

section Services
variable (config : Config)

def WorkspaceRole.ofText (s : Text) : Except Failure WorkspaceRole :=
  if s = "editor".toList then .ok .editor else if s = "admin".toList then .ok .admin else .error .valueError

def OrgRole.ofText (s : Text) : Except Failure OrgRole :=
  if s = "member".toList then .ok .member else if s = "admin".toList then .ok .admin
  else if s = "owner".toList then .ok .owner else .error .valueError

/-- `AccessLevel[name]`. -/
def AccessLevel.ofName (name : Text) : Except Failure AccessLevel :=
  if name = "BASIC".toList then .ok .basic else if name = "ADMIN".toList then .ok .admin else .error (.keyError name)

def uuidOfText (s : Text) : Except Failure Uuid :=
  match Uuid.parse (String.ofList s) with
  | some u => .ok u
  | none => .error .valueError

def Request.optional {A : Type} (request : Request) (name : Text) (ofText : Text → Except Failure A) : Except Failure (Option A) :=
  match request.header name with
  | none => .ok none
  | some s => (ofText s).map some

def Request.accessLevel (request : Request) : Except Failure AccessLevel :=
  match request.header "x-allama-role-access-level".toList with
  | none => .error (.keyError "x-allama-role-access-level".toList)
  | some name => AccessLevel.ofName name

/-- The role of the headers of a service. -/
def serviceRole (request : Request) (service_id : Text) : Except Failure Role := do
  let user_id ← request.optional "x-allama-role-user-id".toList uuidOfText
  let workspace_id ← request.optional "x-allama-role-workspace-id".toList uuidOfText
  let workspace_role ← request.optional "x-allama-role-workspace-role".toList WorkspaceRole.ofText
  let org_role ← request.optional "x-allama-role-org-role".toList OrgRole.ofText
  let access_level ← request.accessLevel
  return ⟨.service,workspace_id,none,workspace_role,org_role,user_id,access_level,service_id,false⟩

/-- A character of a header, which is Latin-1, as `repr` writes it between quotes. -/
def reprChar (quote c : Char) : Text :=
  if c = quote ∨ c = '\\' then ['\\',c]
  else if c = '\t' then ['\\','t']
  else if c = '\n' then ['\\','n']
  else if c = '\r' then ['\\','r']
  else if c.toNat < 32 ∨ 127 ≤ c.toNat ∧ c.toNat ≤ 160 ∨ c.toNat = 173 then
    ['\\','x',hexDigit (Fin.ofNat 16 (c.toNat/16)),hexDigit (Fin.ofNat 16 c.toNat)]
  else [c]

/-- `repr` of a header: in single quotes, unless it has some and no double ones. -/
def repr (text : Text) : Text :=
  let quote := if '\'' ∈ text ∧ '"' ∉ text then '"' else '\''
  quote :: (text.flatMap (reprChar quote) ++ [quote])

example : repr ['a','\''] = ['"','a','\'','"'] := by decide

/-- `_authenticate_service` with a key. -/
def authenticateService (request : Request) (api_key : Text) : Except Failure Role :=
  match request.header "x-allama-role-service-id".toList with
  | none => .error (.http 401 "Missing x-allama-role-service-id header".toList)
  | some service_role_id =>
    if service_role_id ∉ config.service_roles_whitelist then
      .error (.http 401 ("x-allama-role-service-id ".toList ++ repr service_role_id ++ " invalid or not allowed".toList))
    else if config.service_key = [] then .error (.keyError "ALLAMA__SERVICE_KEY is not set".toList)
    else if api_key ≠ config.service_key then .error (.http 401 "Could not validate credentials".toList)
    else serviceRole request service_role_id

/-- The text before the first blank and after it, and the token where the first is `bearer`. -/
def getBearerToken (request : Request) : Option Text :=
  match request.header "authorization".toList with
  | none => none
  | some auth_header =>
    let scheme := auth_header.takeWhile (· ≠ ' ')
    let token := (auth_header.dropWhile (· ≠ ' ')).drop 1
    if scheme.map Char.toLower ≠ "bearer".toList ∨ token = [] then none else some token

def executorPayload (request : Request) : Option ExecutorTokenPayload := (getBearerToken request).bind config.verifyExecutorToken

def executorAccessLevel (db : Database) (payload : ExecutorTokenPayload) : AccessLevel :=
  match payload.user_id.bind db.userRole with
  | some role => role.accessLevel
  | none => .basic

def executorRole (db : Database) (args : Arguments) : Except Failure Role :=
  match executorPayload config args.request with
  | none => .error unauthorized
  | some payload =>
    if args.require_workspace = .yes ∧ args.workspace_id ≠ none ∧ args.workspace_id ≠ some payload.workspace_id then
      .error forbidden
    else .ok ⟨.service,some payload.workspace_id,db.organizationOf payload.workspace_id,none,none,payload.user_id,
      executorAccessLevel db payload,"allama-executor".toList,false⟩

end Services

section Dependencies
variable (config : Config) (db : Database)

/-- How a caller is served. -/
inductive Via
  | user (user : User)
  | service (api_key : Text)
  | executor
deriving DecidableEq

def Arguments.via (args : Arguments) : Option Via :=
  match args.user.filter fun _ => args.allow_user with
  | some user => some (.user user)
  | none =>
    match args.api_key.filter fun api_key => api_key ≠ [] ∧ args.allow_service with
    | some api_key => some (.service api_key)
    | none => if args.allow_executor then some .executor else none

/-- The structural checks on a role. -/
def Arguments.check (args : Arguments) (role : Role) : Except Failure Role :=
  if args.require_workspace = .yes ∧ role.workspace_id = none then .error forbidden
  else if args.min_access_level.any fun level => role.access_level.value < level.value then .error forbidden
  else .ok role

/-- `_role_dependency`, with the cache that it leaves. -/
def roleDependency (cache : Option AuthCache) (args : Arguments) : Except Failure Role × Option AuthCache :=
  match args.via with
  | some (.user user) =>
    let context := userContext db args user cache
    (context.1.bind fun found =>
      args.check (getRoleFromUser user found.2 args.workspace_id found.1 (db.orgRole user.id found.2)),context.2)
  | some (.service api_key) => ((authenticateService config args.request api_key).bind args.check,cache)
  | some .executor => ((executorRole config db args).bind args.check,cache)
  | none => (.error forbidden,cache)

/-- The parameters of `RoleACL`. -/
structure RoleACL where
  allow_user : Bool
  allow_service : Bool
  allow_executor : Bool
  require_workspace : RequireWorkspace
  min_access_level : Option AccessLevel
  workspace_id_in_path : Bool
  require_workspace_roles : Option (List WorkspaceRole)

/-- A request, with the workspace of its path or query, and the user and the key that it authenticates. -/
structure Caller where
  request : Request
  workspace_id : Option Uuid
  user : Option User
  api_key : Option Text

/-- Parameters that raise no `ValueError`. -/
def RoleACL.valid (acl : RoleACL) : Bool := acl.require_workspace = .yes ∨ acl.workspace_id_in_path = false

def RoleACL.executorOnly (acl : RoleACL) : Bool :=
  acl.allow_executor = true ∧ acl.allow_user = false ∧ acl.allow_service = false ∧ acl.require_workspace = .yes

/-- The arguments with which the dependency of `RoleACL` calls `_role_dependency`; a request without a workspace that is required
does not come that far. -/
def RoleACL.arguments (acl : RoleACL) (caller : Caller) : Option Arguments :=
  if acl.valid = false then none
  else if acl.executorOnly then
    some ⟨caller.request,none,none,none,false,false,true,acl.require_workspace,acl.min_access_level,acl.require_workspace_roles⟩
  else
    let called (workspace_id : Option Uuid) : Arguments := ⟨caller.request,workspace_id,caller.user,caller.api_key,acl.allow_user,
      acl.allow_service,acl.allow_executor,acl.require_workspace,acl.min_access_level,acl.require_workspace_roles⟩
    match acl.require_workspace with
    | .yes => caller.workspace_id.map fun workspace_id => called (some workspace_id)
    | .optional => some (called caller.workspace_id)
    | .no => some (called none)

end Dependencies
end RoleAccess
end Allama

import Allama.Checked
import Allama.RoleAccess

/-! The workspaces and organizations of the roles of `_role_dependency`, and its cache. -/
namespace Allama
open Checked
namespace RoleAccess
section Cache
variable {config : Config} {db : Database} {cache : Option AuthCache}

/-- The caches that earlier calls on a request leave, from none or that of the middleware. -/
inductive Produced (config : Config) (db : Database) : Option AuthCache → Prop
  | none : Produced config db none
  | initial : Produced config db (some .initial)
  | call {cache : Option AuthCache} (acl : RoleACL) (caller : Caller) {args : Arguments} : Produced config db cache →
      acl.arguments caller = some args → Produced config db (roleDependency config db cache args).2

/-- A cache that is loaded holds every membership of its user. -/
def Fresh (db : Database) (cache : Option AuthCache) : Prop :=
  ∀ auth_cache, cache = some auth_cache → auth_cache.membership_checked = true →
    ∃ user_id, auth_cache = .load user_id (listUserMemberships db user_id)

theorem fresh_findMembership (h : Fresh db cache) (workspace_id user_id : Uuid) :
    Fresh db (findMembership db cache workspace_id user_id).2 := by
  unfold findMembership
  cases cache with
  | none => exact h
  | some auth_cache =>
    dsimp only
    split_ifs
    · exact h
    · exact h
    · intro loaded hloaded _
      cases hloaded
      exact ⟨user_id,rfl⟩
    · exact h
    · exact h

theorem fresh_roleDependency (h : Fresh db cache) (args : Arguments) : Fresh db (roleDependency config db cache args).2 := by
  unfold roleDependency
  split
  · unfold userContext
    split
    · exact fresh_findMembership h _ _
    · exact h
  · exact h
  · exact h
  · exact h

theorem Produced.fresh (h : Produced config db cache) : Fresh db cache := by
  induction h with
  | none =>
    intro auth_cache h
    cases h
  | initial =>
    intro auth_cache h hchecked
    cases h
    cases hchecked
  | call acl caller _ _ ih => exact fresh_roleDependency ih _

theorem getMembership_of_load {workspace_id user_id : Uuid}
    (h : ((AuthCache.load user_id (listUserMemberships db user_id)).memberships workspace_id).filter (fun m => m.user_id = user_id) = none) :
    getMembership db workspace_id user_id = none := by
  have hnone : ∀ m ∈ listUserMemberships db user_id, m.workspace_id ≠ workspace_id := by
    intro m hm hw
    cases hfind : (listUserMemberships db user_id).reverse.find? fun m => m.workspace_id = workspace_id with
    | none =>
      have hne := List.find?_eq_none.mp hfind m (List.mem_reverse.mpr hm)
      exact hne (decide_eq_true hw)
    | some found =>
      -- what is found is a membership of the user
      have hmem := List.mem_reverse.mp (List.mem_of_find?_eq_some hfind)
      have huser := (List.mem_filter.mp hmem).2
      change ((listUserMemberships db user_id).reverse.find? fun m => m.workspace_id = workspace_id).filter _ = none at h
      rw [hfind] at h
      exact Option.filter_eq_none_iff.mp h found rfl huser
  refine List.find?_eq_none.mpr ?_
  intro m hm
  obtain ⟨row,hrow,hmap⟩ := List.mem_filterMap.mp hm
  obtain ⟨org_id,-,rfl⟩ := Option.map_eq_some_iff.mp hmap
  intro hw
  exact hnone row hrow (of_decide_eq_true hw)

theorem findMembership_fst (h : Fresh db cache) (workspace_id user_id : Uuid) :
    (findMembership db cache workspace_id user_id).1 = getMembership db workspace_id user_id := by
  unfold findMembership
  cases cache with
  | none => rfl
  | some auth_cache =>
    dsimp only
    split_ifs with hfound hunchecked _ hother
    · rfl
    · rfl
    · rfl
    · rfl
    · obtain ⟨owner,hload⟩ := h auth_cache rfl (Bool.not_eq_false _ ▸ hunchecked)
      subst hload
      obtain rfl : owner = user_id := Option.some.inj (not_not.mp hother)
      exact (getMembership_of_load (Option.not_isSome_iff_eq_none.mp hfound)).symm

theorem roleDependency_fst (h : Fresh db cache) (args : Arguments) :
    (roleDependency config db cache args).1 = (roleDependency config db none args).1 := by
  have hcontext : ∀ user, (userContext db args user cache).1 = (userContext db args user none).1 := by
    intro user
    unfold userContext
    split
    · dsimp only
      rw [findMembership_fst h]
      rfl
    · rfl
  unfold roleDependency
  split
  · dsimp only
    rw [hcontext]
  · rfl
  · rfl
  · rfl

end Cache

section Roles
variable {config : Config} {db : Database} {args : Arguments}

/-- Why a user may act in a workspace of an organization. -/
inductive Entitled (db : Database) (args : Arguments) (user : User) (role : Role) (workspace_id organization_id : Uuid) : Prop
  | member (m : Membership) : m ∈ db.memberships → m.user_id = user.id → m.workspace_id = workspace_id →
      role.workspace_role = some m.role →
      (∀ roles, args.require_workspace_roles = some roles → roles ≠ [] → m.role ∈ roles) →
      Entitled db args user role workspace_id organization_id
  | administrator : user.role = .admin →
      (∃ m ∈ db.memberships, m.user_id = user.id ∧ db.organizationOf m.workspace_id = some organization_id) →
      Entitled db args user role workspace_id organization_id
  | superuser : user.is_superuser = true → selectedOrganization db args = some organization_id →
      Entitled db args user role workspace_id organization_id

/-- What a role has to be for the arguments that it is given for. -/
structure Correct (config : Config) (db : Database) (args : Arguments) (role : Role) : Prop where
  user : role.type = .user → ∃ user, args.user = some user ∧ role.user_id = some user.id ∧
    ∀ workspace_id, role.workspace_id = some workspace_id → ∃ organization_id, role.organization_id = some organization_id ∧
      db.organizationOf workspace_id = some organization_id ∧ Entitled db args user role workspace_id organization_id
  executor : args.via = some .executor → ∃ payload, executorPayload config args.request = some payload ∧
    role.workspace_id = some payload.workspace_id ∧ ∀ workspace_id, args.workspace_id = some workspace_id → payload.workspace_id = workspace_id
  level : ∀ level, args.min_access_level = some level → level.value ≤ role.access_level.value

/-- The organization that a privileged user acts for: the selected one, or the one of all his workspaces. -/
def ActsFor (db : Database) (args : Arguments) (user : User) (organization_id : Uuid) : Prop :=
  user.is_superuser = true ∧ selectedOrganization db args = some organization_id ∨
    user.is_superuser = false ∧ user.role = .admin ∧ organizationIds db user.id = [organization_id]

/-- A privileged user asks for a workspace of the organization that he acts for; and an executor, where a workspace is optional and his
access level suffices, for that of his token. -/
structure Fits (config : Config) (db : Database) (args : Arguments) : Prop where
  privileged : ∀ user workspace_id organization_id, args.via = some (.user user) → args.workspace_id = some workspace_id →
    ActsFor db args user organization_id → db.organizationOf workspace_id = some organization_id
  executor : args.via = some .executor → args.require_workspace ≠ .yes → ∀ payload workspace_id,
    executorPayload config args.request = some payload → args.workspace_id = some workspace_id →
      (∀ level, args.min_access_level = some level → level.value ≤ (executorAccessLevel db payload).value) →
        payload.workspace_id = workspace_id

variable {user : User} {organization_id : Uuid} {role : Role}

theorem check_eq_ok {role role' : Role} : args.check role = .ok role' ↔ role' = role ∧
    (args.require_workspace = .yes → role.workspace_id ≠ none) ∧
      ∀ level, args.min_access_level = some level → level.value ≤ role.access_level.value := by
  unfold Arguments.check
  by_cases hnone : args.require_workspace = .yes ∧ role.workspace_id = none
  · rw [if_pos hnone]
    constructor
    · intro h
      cases h
    · exact fun h => (h.2.1 hnone.1 hnone.2).elim
  · rw [if_neg hnone]
    have hworkspace : args.require_workspace = .yes → role.workspace_id ≠ none := fun hyes heq => hnone ⟨hyes,heq⟩
    cases args.min_access_level with
    | none =>
      constructor
      · intro h
        refine ⟨(Except.ok.inj h).symm,hworkspace,?_⟩
        intro level hlevel
        cases hlevel
      · rintro ⟨rfl,-⟩
        rfl
    | some level =>
      by_cases hlt : role.access_level.value < level.value
      · rw [if_pos (by simpa using hlt)]
        constructor
        · intro h
          cases h
        · exact fun h => (Nat.not_le.mpr hlt (h.2.2 level rfl)).elim
      · rw [if_neg (by simpa using hlt)]
        constructor
        · intro h
          refine ⟨(Except.ok.inj h).symm,hworkspace,?_⟩
          intro required hrequired
          exact Option.some.inj hrequired ▸ Nat.not_lt.mp hlt
        · rintro ⟨rfl,-⟩
          rfl

theorem getMembership_eq_some {workspace_id user_id : Uuid} {m : MembershipWithOrg} (h : getMembership db workspace_id user_id = some m) :
    m.membership ∈ db.memberships ∧ m.membership.user_id = user_id ∧ m.membership.workspace_id = workspace_id ∧
      db.organizationOf workspace_id = some m.org_id := by
  have hworkspace : m.membership.workspace_id = workspace_id := by simpa using List.find?_some h
  obtain ⟨row,hrow,hmap⟩ := List.mem_filterMap.mp (List.mem_of_find?_eq_some h)
  obtain ⟨org_id,horg,rfl⟩ := Option.map_eq_some_iff.mp hmap
  obtain ⟨hmem,huser⟩ := List.mem_filter.mp hrow
  exact ⟨hmem,of_decide_eq_true huser,hworkspace,hworkspace ▸ horg⟩

theorem mem_organizationIds {user_id : Uuid} (h : organization_id ∈ organizationIds db user_id) :
    ∃ m ∈ db.memberships, m.user_id = user_id ∧ db.organizationOf m.workspace_id = some organization_id := by
  obtain ⟨m,hm,rfl⟩ := List.mem_map.mp (List.mem_dedup.mp h)
  obtain ⟨row,hrow,hmap⟩ := List.mem_filterMap.mp hm
  obtain ⟨org_id,horg,rfl⟩ := Option.map_eq_some_iff.mp hmap
  obtain ⟨hmem,huser⟩ := List.mem_filter.mp hrow
  exact ⟨row,hmem,of_decide_eq_true huser,horg⟩

theorem organizationContext_eq_ok : organizationContext db args user = .ok organization_id ↔
    user.is_superuser = true ∧ selectedOrganization db args = some organization_id ∨
      user.is_superuser = false ∧ organizationIds db user.id = [organization_id] := by
  unfold organizationContext
  cases user.is_superuser with
  | true =>
    cases selectedOrganization db args with
    | none => simp
    | some selected => simp
  | false =>
    simp only [Bool.false_eq_true, if_false, false_and, true_and, false_or]
    split
    · rename_i hids
      simp [hids]
    · rename_i hids
      simp [hids]
    · rename_i hids
      simp [hids]

theorem isUnprivileged_eq_false :
    isUnprivileged user = false ↔ user.is_superuser = true ∨ user.role = .admin := by
  unfold isUnprivileged
  cases user.is_superuser <;> cases user.role <;> simp

theorem ActsFor.organizationContext (h : ActsFor db args user organization_id) :
    RoleAccess.organizationContext db args user = .ok organization_id ∧ isUnprivileged user = false := by
  rw [organizationContext_eq_ok, isUnprivileged_eq_false]
  rcases h with ⟨hsuper,hselected⟩ | ⟨hsuper,hadmin,hids⟩
  · exact ⟨.inl ⟨hsuper,hselected⟩,.inl hsuper⟩
  · exact ⟨.inr ⟨hsuper,hids⟩,.inr hadmin⟩

theorem userContext_eq_ok {found : Option WorkspaceRole × Uuid}
    (h : (userContext db args user none).1 = .ok found) :
    (∃ workspace_id m, args.workspace_id = some workspace_id ∧ getMembership db workspace_id user.id = some m ∧
      found = (some m.membership.role,m.org_id) ∧
        ∀ roles, args.require_workspace_roles = some roles → roles ≠ [] → m.membership.role ∈ roles) ∨
    (isUnprivileged user = true → args.workspace_id = none) ∧ organizationContext db args user = .ok found.2 := by
  unfold userContext at h
  split at h
  · rename_i workspace_id _ hworkspace
    refine .inl ?_
    change workspaceContext args (getMembership db workspace_id user.id) = .ok found at h
    cases hm : getMembership db workspace_id user.id with
    | none =>
      rw [hm] at h
      cases h
    | some m =>
      rw [hm] at h
      refine ⟨workspace_id,m,hworkspace,hm,?_⟩
      unfold workspaceContext at h
      dsimp only at h
      split at h
      · rename_i role roles hroles
        split at h
        · cases h
        · rename_i hmem
          refine ⟨(Except.ok.inj h).symm,?_⟩
          intro required hrequired _
          rw [hroles] at hrequired
          exact Option.some.inj hrequired ▸ not_not.mp hmem
      · rename_i hroles
        refine ⟨(Except.ok.inj h).symm,?_⟩
        intro required hrequired hne
        obtain ⟨role,roles,rfl⟩ := List.exists_cons_of_ne_nil hne
        exact (hroles role roles hrequired).elim
  · rename_i hother
    refine .inr ⟨?_,?_⟩
    · intro hunprivileged
      cases hw : args.workspace_id with
      | none => rfl
      | some workspace_id => exact (hother workspace_id hunprivileged hw).elim
    · change (organizationContext db args user).map _ = .ok found at h
      cases horg : organizationContext db args user with
      | error e =>
        rw [horg] at h
        cases h
      | ok organization_id =>
        rw [horg] at h
        rw [← Except.ok.inj h]

theorem user_of_via (h : args.via = some (.user user)) : args.user = some user := by
  unfold Arguments.via at h
  split at h
  · rename_i huser
    cases h
    exact (Option.filter_eq_some_iff.mp huser).1
  · split at h
    · cases h
    · split at h <;> cases h

theorem roleDependency_user (hvia : args.via = some (.user user)) :
    (roleDependency config db none args).1 = .ok role ↔ ∃ found, (userContext db args user none).1 = .ok found ∧
      args.check (getRoleFromUser user found.2 args.workspace_id found.1 (db.orgRole user.id found.2)) = .ok role := by
  unfold roleDependency
  rw [hvia]
  change (userContext db args user none).1.bind _ = .ok role ↔ _
  cases (userContext db args user none).1 with
  | error e =>
    constructor
    · intro h
      cases h
    · rintro ⟨found,h,-⟩
      cases h
  | ok found =>
    constructor
    · exact fun h => ⟨found,rfl,h⟩
    · rintro ⟨found',h,hcheck⟩
      cases h
      exact hcheck

theorem level_admin (level : AccessLevel) : level.value ≤ AccessLevel.admin.value := by
  cases level <;> decide

theorem accessLevel_privileged (h : isUnprivileged user = false) (organization_id : Uuid)
    (workspace_id : Option Uuid) (workspace_role : Option WorkspaceRole) (org_role : Option OrgRole) :
    (getRoleFromUser user organization_id workspace_id workspace_role org_role).access_level = .admin := by
  change (if user.is_superuser = true then AccessLevel.admin else user.role.accessLevel) = .admin
  rcases isUnprivileged_eq_false.mp h with hsuper | hadmin
  · rw [if_pos hsuper]
  · rw [hadmin]
    split <;> rfl

theorem roleDependency_privileged {user : User} {workspace_id organization_id : Uuid} (hvia : args.via = some (.user user))
    (hworkspace : args.workspace_id = some workspace_id) (hacts : ActsFor db args user organization_id) :
    (roleDependency config db none args).1 =
      .ok (getRoleFromUser user organization_id (some workspace_id) none (db.orgRole user.id organization_id)) := by
  obtain ⟨hcontext,hprivileged⟩ := hacts.organizationContext
  have huser : (userContext db args user none).1 = .ok (none,organization_id) := by
    unfold userContext
    rw [hprivileged]
    change (organizationContext db args user).map _ = _
    rw [hcontext]
    rfl
  refine (roleDependency_user hvia).mpr ⟨_,huser,?_⟩
  rw [check_eq_ok, hworkspace]
  refine ⟨rfl,fun _ h => Option.noConfusion rfl (heq_of_eq h),?_⟩
  intro level _
  rw [accessLevel_privileged hprivileged]
  exact level_admin level

theorem correct_user {user : User} (hvia : args.via = some (.user user)) (hfits : Fits config db args) {role : Role}
    (h : (roleDependency config db none args).1 = .ok role) : Correct config db args role := by
  obtain ⟨found,hcontext,hcheck⟩ := (roleDependency_user hvia).mp h
  obtain ⟨rfl,-,hlevel⟩ := check_eq_ok.mp hcheck
  refine ⟨fun _ => ⟨user,user_of_via hvia,rfl,?_⟩,?_,hlevel⟩
  · intro workspace_id hworkspace
    change args.workspace_id = some workspace_id at hworkspace
    refine ⟨found.2,rfl,?_⟩
    rcases userContext_eq_ok hcontext with ⟨w,m,hw,hm,rfl,hroles⟩ | ⟨hplain,horg⟩
    · obtain rfl := Option.some.inj (hw.symm.trans hworkspace)
      obtain ⟨hmem,huser,hsame,horg⟩ := getMembership_eq_some hm
      exact ⟨horg,.member m.membership hmem huser hsame rfl hroles⟩
    · -- a workspace and no membership: the user is privileged
      have hprivileged : isUnprivileged user = false := by
        cases hunprivileged : isUnprivileged user with
        | false => rfl
        | true =>
          rw [hplain hunprivileged] at hworkspace
          cases hworkspace
      rcases organizationContext_eq_ok.mp horg with ⟨hsuper,hselected⟩ | ⟨hsuper,hids⟩
      · exact ⟨hfits.privileged user _ _ hvia hworkspace (.inl ⟨hsuper,hselected⟩),.superuser hsuper hselected⟩
      · have hadmin : user.role = .admin := by
          refine (isUnprivileged_eq_false.mp hprivileged).resolve_left ?_
          rw [hsuper]
          exact Bool.false_ne_true
        refine ⟨hfits.privileged user _ _ hvia hworkspace (.inr ⟨hsuper,hadmin,hids⟩),.administrator hadmin ?_⟩
        exact mem_organizationIds (hids ▸ List.mem_cons_self)
  · intro hexecutor
    rw [hvia] at hexecutor
    cases hexecutor

theorem type_authenticateService {request : Request} {api_key : Text}
    (h : authenticateService config request api_key = .ok role) : role.type = .service := by
  unfold authenticateService at h
  split at h
  · cases h
  · rename_i service_role_id _
    have hheaders : serviceRole request service_role_id = .ok role := by
      split_ifs at h
      exact h
    obtain ⟨_,-,hheaders⟩ := bind_eq_ok.mp hheaders
    obtain ⟨_,-,hheaders⟩ := bind_eq_ok.mp hheaders
    obtain ⟨_,-,hheaders⟩ := bind_eq_ok.mp hheaders
    obtain ⟨_,-,hheaders⟩ := bind_eq_ok.mp hheaders
    obtain ⟨_,-,hheaders⟩ := bind_eq_ok.mp hheaders
    rw [← Except.ok.inj hheaders]

theorem correct_service {api_key : Text} (hvia : args.via = some (.service api_key)) {role : Role}
    (h : (roleDependency config db none args).1 = .ok role) : Correct config db args role := by
  unfold roleDependency at h
  rw [hvia] at h
  obtain ⟨role',hservice,hcheck⟩ := bind_eq_ok.mp h
  obtain ⟨rfl,-,hlevel⟩ := check_eq_ok.mp hcheck
  refine ⟨?_,?_,hlevel⟩
  · intro huser
    rw [type_authenticateService hservice] at huser
    cases huser
  · intro hexecutor
    rw [hvia] at hexecutor
    cases hexecutor

/-- The role of an executor. -/
def executorRoleOf (db : Database) (payload : ExecutorTokenPayload) : Role where
  type := .service
  workspace_id := some payload.workspace_id
  organization_id := db.organizationOf payload.workspace_id
  workspace_role := none
  org_role := none
  user_id := payload.user_id
  access_level := executorAccessLevel db payload
  service_id := "allama-executor".toList
  is_platform_superuser := false

theorem roleDependency_executor (hvia : args.via = some .executor) :
    (roleDependency config db none args).1 = .ok role ↔ ∃ payload, executorPayload config args.request = some payload ∧
      (args.require_workspace = .yes → args.workspace_id = none ∨ args.workspace_id = some payload.workspace_id) ∧
      args.check (executorRoleOf db payload) = .ok role := by
  unfold roleDependency
  rw [hvia]
  change (executorRole config db args).bind args.check = .ok role ↔ _
  unfold executorRole
  cases executorPayload config args.request with
  | none =>
    constructor
    · intro h
      cases h
    · rintro ⟨payload,h,-⟩
      cases h
  | some payload =>
    dsimp only
    by_cases hmismatch : args.require_workspace = .yes ∧ args.workspace_id ≠ none ∧ args.workspace_id ≠ some payload.workspace_id
    · rw [if_pos hmismatch]
      constructor
      · intro h
        cases h
      · rintro ⟨payload',h,hyes,-⟩
        cases h
        exact ((hyes hmismatch.1).elim hmismatch.2.1 hmismatch.2.2).elim
    · rw [if_neg hmismatch]
      constructor
      · intro h
        refine ⟨payload,rfl,?_,h⟩
        intro hyes
        by_contra hneither
        exact hmismatch ⟨hyes,not_or.mp hneither⟩
      · rintro ⟨payload',h,-,hcheck⟩
        cases h
        exact hcheck

theorem correct_executor (hvia : args.via = some .executor) (hfits : Fits config db args) {role : Role}
    (h : (roleDependency config db none args).1 = .ok role) : Correct config db args role := by
  obtain ⟨payload,hpayload,hyes,hcheck⟩ := (roleDependency_executor hvia).mp h
  obtain ⟨rfl,-,hlevel⟩ := check_eq_ok.mp hcheck
  refine ⟨fun huser => RoleType.noConfusion huser,fun _ => ⟨payload,hpayload,rfl,?_⟩,hlevel⟩
  intro workspace_id hworkspace
  by_cases hrequired : args.require_workspace = .yes
  · rcases hyes hrequired with hnone | hsame
    · rw [hnone] at hworkspace
      cases hworkspace
    · exact Option.some.inj (hsame.symm.trans hworkspace)
  · exact hfits.executor hvia hrequired payload workspace_id hpayload hworkspace hlevel

theorem correct_iff (config : Config) (db : Database) (args : Arguments) :
    (∀ role, (roleDependency config db none args).1 = .ok role → Correct config db args role) ↔ Fits config db args := by
  constructor
  · intro hcorrect
    constructor
    · intro user workspace_id organization_id hvia hworkspace hacts
      obtain ⟨_,-,-,horg⟩ := (hcorrect _ (roleDependency_privileged hvia hworkspace hacts)).user rfl
      obtain ⟨o,ho,horg,-⟩ := horg workspace_id rfl
      cases ho
      exact horg
    · intro hvia hrequired payload workspace_id hpayload hworkspace hlevel
      have hcheck : args.check (executorRoleOf db payload) = .ok (executorRoleOf db payload) :=
        check_eq_ok.mpr ⟨rfl,fun hyes => (hrequired hyes).elim,hlevel⟩
      have h := (roleDependency_executor hvia).mpr ⟨payload,hpayload,fun hyes => (hrequired hyes).elim,hcheck⟩
      obtain ⟨payload',hpayload',-,hsame⟩ := (hcorrect _ h).executor hvia
      obtain rfl := Option.some.inj (hpayload.symm.trans hpayload')
      exact hsame workspace_id hworkspace
  · intro hfits role h
    cases hvia : args.via with
    | none =>
      unfold roleDependency at h
      rw [hvia] at h
      cases h
    | some via =>
      cases via with
      | user user => exact correct_user hvia hfits h
      | service api_key => exact correct_service hvia h
      | executor => exact correct_executor hvia hfits h

/-- Whatever the cache of a request, the role is the one without a cache; and it is in order for a user, for an executor and for the
minimal access level exactly where privileged users stay in their organization and executors in the workspace of their token. -/
theorem role_dependency_correct_iff (config : Config) (db : Database) {cache : Option AuthCache} (hcache : Produced config db cache)
    (args : Arguments) : ((roleDependency config db cache args).1 = (roleDependency config db none args).1 ∧
      ∀ role, (roleDependency config db cache args).1 = .ok role → Correct config db args role) ↔ Fits config db args := by
  rw [roleDependency_fst hcache.fresh args, ← correct_iff config db args]
  exact ⟨And.right,fun h => ⟨rfl,h⟩⟩

end Roles

section Samples

/-- Two organizations with a workspace each; the administrator and the member belong to the first. -/
def sampleDatabase : Database where
  users := []
  organizations := [.ofDigit 1,.ofDigit 2]
  workspaces := [⟨.ofDigit 3,.ofDigit 1⟩,⟨.ofDigit 4,.ofDigit 2⟩]
  memberships := [⟨.ofDigit 5,.ofDigit 3,.editor⟩,⟨.ofDigit 6,.ofDigit 3,.editor⟩]
  organization_memberships := []

def sampleConfig : Config where
  service_key := "key".toList
  service_roles_whitelist := []
  verifyExecutorToken token := if token = "t".toList then some ⟨.ofDigit 3,none⟩ else none

def plainRequest : Request := ⟨fun _ => none,fun _ => none⟩

def administrator : User := ⟨.ofDigit 5,.admin,false⟩

def member : User := ⟨.ofDigit 6,.basic,false⟩

def userACL : RoleACL := ⟨true,false,false,.yes,none,false,none⟩

/-- The arguments of a user who asks for a workspace. -/
def userArguments (user : User) (workspace_id : Uuid) : Arguments :=
  ⟨plainRequest,some workspace_id,some user,none,true,false,false,.yes,none,none⟩

/-- The second call on a request of a member. -/
theorem role_dependency_correct_cached : (userACL.arguments ⟨plainRequest,some (.ofDigit 3),some member,none⟩ =
      some (userArguments member (.ofDigit 3))) ∧
    (((roleDependency sampleConfig sampleDatabase (roleDependency sampleConfig sampleDatabase (some .initial)
        (userArguments member (.ofDigit 3))).2 (userArguments member (.ofDigit 3))).1 =
      (roleDependency sampleConfig sampleDatabase none (userArguments member (.ofDigit 3))).1 ∧
      ∀ role, (roleDependency sampleConfig sampleDatabase (roleDependency sampleConfig sampleDatabase (some .initial)
        (userArguments member (.ofDigit 3))).2 (userArguments member (.ofDigit 3))).1 = .ok role →
          Correct sampleConfig sampleDatabase (userArguments member (.ofDigit 3)) role) ↔
      Fits sampleConfig sampleDatabase (userArguments member (.ofDigit 3))) := by
  have hcalled : Produced sampleConfig sampleDatabase (roleDependency sampleConfig sampleDatabase (some .initial)
      (userArguments member (.ofDigit 3))).2 :=
    .call userACL ⟨plainRequest,some (.ofDigit 3),some member,none⟩ .initial rfl
  exact ⟨rfl,role_dependency_correct_iff sampleConfig sampleDatabase hcalled _⟩

/-- Executors and users, with an optional workspace. -/
def optionalACL : RoleACL := ⟨true,false,true,.optional,none,false,none⟩

def executorRequest : Request := ⟨fun name => if name = "authorization".toList then some "Bearer t".toList else none,fun _ => none⟩

def executorArguments : Arguments := ⟨executorRequest,some (.ofDigit 4),none,none,true,false,true,.optional,none,none⟩

/-- An administrator of the first organization gets a role in the workspace of the second; and an executor that asks for one workspace
gets a role in the other one of its token. -/
theorem roles_cross : (userACL.arguments ⟨plainRequest,some (.ofDigit 4),some administrator,none⟩ =
      some (userArguments administrator (.ofDigit 4)) ∧
    ∃ role, (roleDependency sampleConfig sampleDatabase none (userArguments administrator (.ofDigit 4))).1 = .ok role ∧
      role.workspace_id = some (.ofDigit 4) ∧ role.organization_id = some (.ofDigit 1) ∧
      sampleDatabase.organizationOf (.ofDigit 4) = some (.ofDigit 2) ∧
      ¬ Correct sampleConfig sampleDatabase (userArguments administrator (.ofDigit 4)) role) ∧
    optionalACL.arguments ⟨executorRequest,some (.ofDigit 4),none,none⟩ = some executorArguments ∧
    ∃ role, (roleDependency sampleConfig sampleDatabase none executorArguments).1 = .ok role ∧
      role.workspace_id = some (.ofDigit 3) ∧ ¬ Correct sampleConfig sampleDatabase executorArguments role := by
  have hne : (Uuid.ofDigit 1) ≠ .ofDigit 2 := by decide
  refine ⟨⟨rfl,_,rfl,rfl,rfl,by decide,?_⟩,rfl,_,rfl,rfl,?_⟩
  · intro h
    obtain ⟨user,-,-,horg⟩ := h.user rfl
    obtain ⟨o,ho,horg,-⟩ := horg (.ofDigit 4) rfl
    cases ho
    exact hne (Option.some.inj (horg.symm.trans (by decide)))
  · intro h
    obtain ⟨payload,hpayload,-,hsame⟩ := h.executor rfl
    have hthird : payload.workspace_id = .ofDigit 3 := by
      cases hpayload
      rfl
    exact absurd (hthird.symm.trans (hsame (.ofDigit 4) rfl)) (by decide)

end Samples
end RoleAccess
end Allama

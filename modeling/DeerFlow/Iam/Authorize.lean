import DeerFlow.Data.TtlCache
import DeerFlow.Iam.Rows
import Mathlib.Data.Finset.Basic
import Mathlib.Data.Finset.Dedup

/-!
# The authorize service

The permissions a principal has in an organisation, computed from the tables or taken from the
permission cache, and the answer to one `authorize` call. A scope restriction is applied after the
cache.
-/

namespace DeerFlow

inductive ErrorCode where
  | permissionDenied
  | orgSuspended
  | orgDeleting
  | authenticationInvalid
  | principalDisabled
  deriving DecidableEq

structure AuthorizeError where
  code : ErrorCode
  message : String
  permission : Option String := none
  deriving DecidableEq

def denied (message : String) (permission : Option String) : AuthorizeError :=
  ⟨.permissionDenied, message, permission⟩

/-- The `system` domain of the permission registry. -/
def systemPermissions : Finset String :=
  {"system:org:create", "system:org:read_all", "system:org:operate_all"}

/-- `perm.startswith(SYSTEM_PERMISSION_PREFIX)`. -/
def isSystemPermission (permission : String) : Bool :=
  "system:".toList.isPrefixOf permission.toList

/-- `compute_effective_permissions`. The two statuses have been gated on by the caller. -/
def computeEffectivePermissions (_membershipStatus : Option MembershipStatus)
    (rolePermissions : Finset String) (_orgStatus : OrgStatus) (systemRole : String)
    (apiKeyScopes : Option (Finset String)) : Finset String :=
  let base := if systemRole = "admin" then systemPermissions else rolePermissions
  match apiKeyScopes with
  | none => base
  | some scopes => base ∩ scopes

def applyScopes (perms : Finset String) : Option (Finset String) → Finset String
  | none => perms
  | some scopes => perms ∩ scopes

/-- What a role's permission list grants: its strings outside the `system` domain. -/
def RoleRow.granted (r : RoleRow) : List String :=
  r.permissions.filterMap fun
    | .str p => if isSystemPermission p then none else some p
    | _ => none

namespace IamDb

variable (db : IamDb) (now : ℕ) (orgId : String)

def fetchRolePermissions (type : PrincipalType) (id : String) : Finset String :=
  let rows := db.bindings.values.filter fun b => b.isOf orgId type id && b.live now
  (rows.flatMap fun b => ((db.roles.get? b.roleId).map RoleRow.granted).getD []).toFinset

def orgGate : Except AuthorizeError OrgStatus :=
  match db.orgs.get? orgId with
  | none => .error (denied "Principal has no effective organization scope." none)
  | some .suspended => .error ⟨.orgSuspended, "Organization is suspended.", none⟩
  | some .deleting => .error ⟨.orgDeleting, "Organization is being deleted.", none⟩
  | some .deleted => .error ⟨.orgDeleting, "Organization is deleted.", none⟩
  | some .active => .ok .active

def membershipGate (userId : String) : Except AuthorizeError MembershipStatus :=
  match db.memberships.get? (orgId, userId) with
  | none | some .invited | some .removed =>
    .error (denied "Principal has no active membership in this organization." none)
  | some .suspended => .error (denied "Principal's membership is suspended." none)
  | some .active => .ok .active

def serviceAccountGate (id : String) : Except AuthorizeError MembershipStatus :=
  match db.serviceAccounts.get? id with
  | none => .error ⟨.authenticationInvalid, "ServiceAccount does not exist in this organization.", none⟩
  | some sa =>
    if sa.orgId ≠ orgId then
      .error ⟨.authenticationInvalid, "ServiceAccount does not exist in this organization.", none⟩
    else
      match sa.status with
      | .disabled => .error ⟨.principalDisabled, "ServiceAccount is disabled.", none⟩
      | .active => .ok .active

def principalGate : PrincipalType → String → Except AuthorizeError MembershipStatus
  | .user, id => db.membershipGate orgId id
  | .serviceAccount, id => db.serviceAccountGate orgId id
  | .system, _ => .error ⟨.authenticationInvalid,
      "authorize() does not yet support principal type 'system'.", none⟩

def computePermissions (type : PrincipalType) (id systemRole : String) :
    Except AuthorizeError (Finset String) := do
  let org ← db.orgGate orgId
  let membership ← db.principalGate orgId type id
  return computeEffectivePermissions (some membership) (db.fetchRolePermissions now orgId type id) org
    systemRole none

def computeUserPermissions (userId systemRole : String) : Except AuthorizeError (Finset String) :=
  db.computePermissions now orgId .user userId systemRole

def computeServiceAccountPermissions (id : String) : Except AuthorizeError (Finset String) :=
  db.computePermissions now orgId .serviceAccount id "user"

end IamDb

abbrev PermissionCache := TtlCache String (Finset String)

def orgCacheKey (orgId : String) (type : PrincipalType) (id : String) : String :=
  "authz:" ++ orgId ++ ":" ++ type.text ++ ":" ++ id

def systemCacheKey (id : String) : String := "authz:system:" ++ id

def clampTtl (ttlSeconds : ℤ) : ℕ :=
  if ttlSeconds < 0 then 0 else if ttlSeconds > 60 then 60 else ttlSeconds.toNat

/-- What an `authorize` call is given. -/
structure AuthorizeArgs where
  principal : PrincipalRef
  orgId : String
  permission : String
  scopes : Option (Finset String) := none
  forceRefresh : Bool := false
  deriving DecidableEq

namespace PermissionCache

variable (c : PermissionCache) (ttlSeconds : ℤ) (mono : ℕ)

/-- The cache read of a computation, which `force_refresh` skips. -/
def lookup (key : String) (forceRefresh : Bool) : Option (Finset String) × PermissionCache :=
  if forceRefresh then (none, c) else (c.get? mono key, c.touch mono key)

def store (key : String) (perms : Finset String) : PermissionCache :=
  c.set mono key (clampTtl ttlSeconds) perms

/-- A cached set, or a computed one that is stored; narrowed by the scopes. -/
def readThrough (key : String) (scopes : Option (Finset String)) (forceRefresh : Bool)
    (compute : Except AuthorizeError (Finset String)) :
    Except AuthorizeError (Finset String) × PermissionCache :=
  match c.lookup mono key forceRefresh with
  | (some perms, c') => (.ok (applyScopes perms scopes), c')
  | (none, c') =>
    match compute with
    | .error e => (.error e, c')
    | .ok perms => (.ok (applyScopes perms scopes), store c' ttlSeconds mono key perms)

variable (db : IamDb) (wall : ℕ) (orgId : String)

def computePermissionsForUser (userId systemRole : String) (scopes : Option (Finset String))
    (forceRefresh : Bool) : Except AuthorizeError (Finset String) × PermissionCache :=
  if systemRole = "admin" then
    c.readThrough ttlSeconds mono (systemCacheKey userId) scopes forceRefresh (.ok systemPermissions)
  else
    c.readThrough ttlSeconds mono (orgCacheKey orgId .user userId) scopes forceRefresh
      (db.computeUserPermissions wall orgId userId systemRole)

def computePermissionsForServiceAccount (id : String) (scopes : Option (Finset String))
    (forceRefresh : Bool) : Except AuthorizeError (Finset String) × PermissionCache :=
  c.readThrough ttlSeconds mono (orgCacheKey orgId .serviceAccount id) scopes forceRefresh
    (db.computeServiceAccountPermissions wall orgId id)

end PermissionCache

namespace AuthorizeArgs

variable (a : AuthorizeArgs)

def subject : Except AuthorizeError (PrincipalType × String) :=
  match a.principal.type with
  | .user =>
    match a.principal.userId with
    | none => .error ⟨.authenticationInvalid,
        "authorize() requires a 'user' principal to carry a user_id.", none⟩
    | some userId => .ok (.user, userId)
  | .serviceAccount =>
    if a.principal.id = "" then
      .error ⟨.authenticationInvalid,
        "authorize() requires a 'service_account' principal to carry a non-empty id.", none⟩
    else .ok (.serviceAccount, a.principal.id)
  | .system =>
    .error ⟨.authenticationInvalid, "authorize() does not yet support principal type 'system'.", none⟩

def answer (effective : Finset String) : Except AuthorizeError Unit :=
  if a.permission ∈ effective then .ok ()
  else .error (denied ("Principal lacks required permission '" ++ a.permission ++ "'.")
    (some a.permission))

def effective (ttlSeconds : ℤ) (db : IamDb) (wall mono : ℕ) (c : PermissionCache) :
    Except AuthorizeError (Finset String) × PermissionCache :=
  match a.subject with
  | .error e => (.error e, c)
  | .ok (.user, userId) =>
    c.computePermissionsForUser ttlSeconds mono db wall a.orgId userId "user" a.scopes a.forceRefresh
  | .ok (_, id) =>
    c.computePermissionsForServiceAccount ttlSeconds mono db wall a.orgId id a.scopes a.forceRefresh

end AuthorizeArgs

def authorize (ttlSeconds : ℤ) (db : IamDb) (wall mono : ℕ) (c : PermissionCache)
    (a : AuthorizeArgs) : Except AuthorizeError Unit × PermissionCache :=
  match a.effective ttlSeconds db wall mono c with
  | (.error e, c') => (.error e, c')
  | (.ok perms, c') => (a.answer perms, c')

end DeerFlow

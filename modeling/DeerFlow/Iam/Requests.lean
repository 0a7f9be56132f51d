import DeerFlow.Iam.Authorize

/-!
# The IAM requests

The write endpoints of the IAM router and the OIDC group-mapping engine, cut where they go to the
database: each read, each transaction and the invalidation after the commit is a step.
-/

namespace DeerFlow

open MappingMode

inductive IamError where
  | membershipNotFound
  | serviceAccountNotFound
  | mappingNotFound
  | lastAdmin (orgId roleId : String)
  | bindingConflict
  | nameConflict
  | mappingConflict
  | targetOrgMismatch
  | unknownMode (mode : String)
  | unknownRole (roleId : String)
  | systemRole
  | invalidRole
  | multipleRows
  | multiMembership
  | failed
  deriving DecidableEq

inductive IamWrite where
  | nothing
  | setMembership (orgId userId : String) (status : MembershipStatus)
  | putServiceAccount (id : String) (row : ServiceAccountRow)
  | dropServiceAccount (id : String)
  | putBinding (id : String) (row : RoleBindingRow)
  | dropBinding (id : String)
  | putMapping (id : String) (row : GroupMappingRow)
  | dropMapping (id : String)
  deriving DecidableEq

def IamDb.commit (db : IamDb) : IamWrite → IamDb
  | .nothing => db
  | .setMembership orgId userId status =>
    { db with memberships := db.memberships.set (orgId, userId) status }
  | .putServiceAccount id row => { db with serviceAccounts := db.serviceAccounts.set id row }
  | .dropServiceAccount id =>
    { db with
      serviceAccounts := db.serviceAccounts.pop id
      bindings := db.bindings.filter fun _ b =>
        !(b.principalType = .serviceAccount && b.principalId = id) }
  | .putBinding id row => { db with bindings := db.bindings.set id row }
  | .dropBinding id => { db with bindings := db.bindings.pop id }
  | .putMapping id row => { db with mappings := db.mappings.set id row }
  | .dropMapping id => { db with mappings := db.mappings.pop id }

def knownPermissions : List String :=
  ["runtime:thread:read", "runtime:thread:write", "runtime:run:create", "runtime:run:read",
    "runtime:run:cancel", "runtime:run:resume", "admin:org:read", "admin:org:manage",
    "admin:iam:read", "admin:iam:manage", "admin:audit:read", "admin:console:read",
    "studio:package:read", "studio:package:write", "studio:release:promote_dev",
    "studio:release:promote", "studio:release:rollback", "connector:read", "connector:manage",
    "system:org:create", "system:org:read_all", "system:org:operate_all"]

/-- `validate_role_permissions` accepts the list. -/
def validateRolePermissions (permissions : List Json) (isSystem : Bool) : Bool :=
  permissions.all fun
    | .str p => p ∈ knownPermissions && (isSystem || !isSystemPermission p)
    | _ => false

def RoleRow.carriesSystem (r : RoleRow) : Bool :=
  r.permissions.any fun
    | .str p => isSystemPermission p
    | _ => false

/-- `mode` is one of the two modes. -/
def MappingMode.parse (mode : String) : Option MappingMode :=
  if mode = "additive" then some .additive
  else if mode = "authoritative" then some .authoritative
  else none

structure MappingBody where
  issuer : String
  groupClaim : String := "groups"
  groupValue : String
  targetOrgId : String
  targetRoleId : String
  mode : String := "additive"
  deriving DecidableEq

structure MappingFields where
  groupClaim : Option String := none
  groupValue : Option String := none
  targetRoleId : Option String := none
  mode : Option String := none
  deriving DecidableEq

structure MappingOutcome where
  groupValue : String
  targetRoleId : String
  targetOrgId : String
  applied : Bool := false
  reason : String := ""
  deriving DecidableEq

structure MappingResult where
  userId : String
  issuer : String
  dryRun : Bool
  planned : List MappingOutcome := []
  applied : List MappingOutcome := []
  skipped : List MappingOutcome := []
  deriving DecidableEq

namespace IamDb

variable (db : IamDb) (wall : ℕ) (newId : String)

/-- `_org_admin_role_id`; more than one row is an error of the query. -/
def orgAdminRoleId : Except IamError (Option String) :=
  match db.roles.entries.filter fun e => e.2.name = "org:admin" && e.2.isSystem with
  | [] => .ok none
  | [e] => .ok (some e.1)
  | _ => .error .multipleRows

def countUserBindingsForRole (orgId roleId : String) (excludePrincipalId : Option String) : ℕ :=
  (db.bindings.values.filter fun b =>
    b.orgId = orgId && b.roleId = roleId && b.principalType = .user && b.live wall &&
      some b.principalId ≠ excludePrincipalId).length

/-- `set_membership_status`, after its `SELECT`. -/
def setMembershipStatus (orgId userId : String) (read status : MembershipStatus) : IamWrite :=
  if read = status then .nothing else .setMembership orgId userId status

/-- `create_service_account`; names are unique in an organisation. -/
def createServiceAccount (orgId name : String) : Except IamError IamWrite :=
  if (db.serviceAccounts.get? newId).isSome ||
      db.serviceAccounts.values.any (fun sa => sa.orgId = orgId && sa.name = name) then
    .error .nameConflict
  else .ok (.putServiceAccount newId ⟨orgId, name, .active⟩)

/-- `delete_service_account`, with its bindings; `none` where the row is absent. -/
def deleteServiceAccount (id : String) : Option IamWrite :=
  (db.serviceAccounts.get? id).map fun _ => .dropServiceAccount id

/-- `create_role_binding`: one row for a principal and a role in an organisation, and the role has
to exist. -/
def createRoleBinding (row : RoleBindingRow) : Except IamError IamWrite :=
  if (db.bindings.get? newId).isSome || (db.roles.get? row.roleId).isNone ||
      db.bindings.values.any (fun b =>
        b.isOf row.orgId row.principalType row.principalId && b.roleId = row.roleId) then
    .error .bindingConflict
  else .ok (.putBinding newId row)

/-- `delete_role_binding`, by the id and the organisation alone. -/
def deleteRoleBinding (bindingId orgId : String) : IamWrite :=
  match db.bindings.get? bindingId with
  | some b => if b.orgId = orgId then .dropBinding bindingId else .nothing
  | none => .nothing

/-- `get_service_account`, hidden from other organisations. -/
def serviceAccountOf (orgId id : String) : Bool :=
  (db.serviceAccounts.get? id).any fun sa => sa.orgId = orgId

/-- The unique key of `oidc_group_mappings` is taken by another row. -/
def mappingTaken (id : String) (row : GroupMappingRow) : Bool :=
  db.mappings.entries.any fun e =>
    e.1 ≠ id && e.2.issuer = row.issuer && e.2.groupValue = row.groupValue &&
      e.2.targetOrgId = row.targetOrgId && e.2.targetRoleId = row.targetRoleId

def createOidcGroupMapping (row : GroupMappingRow) : Except IamError IamWrite :=
  if (db.mappings.get? newId).isSome || db.mappingTaken newId row then .error .mappingConflict
  else .ok (.putMapping newId row)

def updateOidcGroupMapping (id : String) (fields : MappingFields) : Except IamError IamWrite :=
  match db.mappings.get? id with
  | none => .error .mappingNotFound
  | some row =>
    let row' : GroupMappingRow := { row with
      groupClaim := fields.groupClaim.getD row.groupClaim
      groupValue := fields.groupValue.getD row.groupValue
      targetRoleId := fields.targetRoleId.getD row.targetRoleId
      mode := (fields.mode.bind parse).getD row.mode }
    if db.mappingTaken id row' then .error .mappingConflict else .ok (.putMapping id row')

def deleteOidcGroupMapping (id orgId : String) : IamWrite :=
  match db.mappings.get? id with
  | some row => if row.targetOrgId = orgId then .dropMapping id else .nothing
  | none => .nothing

/-- `get_oidc_group_mapping`, hidden from other organisations. -/
def mappingOf (orgId id : String) : Bool :=
  (db.mappings.get? id).any fun row => row.targetOrgId = orgId

/-- `_validate_mapping_target_role`. The organisation of the role is not looked at. -/
def validateMappingTargetRole (roleId : String) : Except IamError Unit :=
  match db.roles.get? roleId with
  | none => .error (.unknownRole roleId)
  | some r =>
    if r.carriesSystem then .error .systemRole
    else if validateRolePermissions r.permissions r.isSystem then .ok ()
    else .error .invalidRole

def targetRoleSafe (roleId : String) : Bool :=
  (db.roles.get? roleId).any fun r => !r.carriesSystem

def activeMemberships (userId : String) : List String :=
  db.memberships.entries.filterMap fun e =>
    if e.1.2 = userId && e.2 = .active then some e.1.1 else none

/-- The row `_ensure_group_role_binding` makes. -/
def groupBinding (orgId userId roleId provenance : String) : RoleBindingRow :=
  ⟨orgId, .user, userId, roleId, some provenance, none, user_ne_system⟩

/-- `_ensure_group_role_binding`; a row that is there is left as it is. -/
def ensureGroupRoleBinding (orgId userId roleId provenance : String) : Except IamError IamWrite :=
  if db.bindings.values.any (fun b => b.isOf orgId .user userId && b.roleId = roleId) then
    .ok .nothing
  else db.createRoleBinding newId (groupBinding orgId userId roleId provenance)

end IamDb

inductive IamRequest where
  | suspendMember (orgId userId : String)
  | activateMember (orgId userId : String)
  | createServiceAccount (orgId name : String)
  | setServiceAccountStatus (orgId id : String) (status : ServiceAccountStatus)
  | deleteServiceAccount (orgId id : String)
  | createSaRoleBinding (orgId id roleId : String) (actor : Option String) (expiresAt : Option ℕ)
  | deleteSaRoleBinding (orgId id bindingId : String)
  | createMapping (orgId : String) (body : MappingBody)
  | updateMapping (orgId mappingId : String) (fields : MappingFields)
  | deleteMapping (orgId mappingId : String)
  | applyGroupMapping (userId issuer : String) (groups : List String) (dryRun : Bool)
  deriving DecidableEq

inductive IamAnswer where
  | ok
  | mapped (result : MappingResult)
  | raised (e : IamError)
  deriving DecidableEq

/-- Where a request stands: its next read, transaction or invalidation. -/
inductive IamPhase where
  | called
  | guarding (roleId : String)
  | totalling (roleId : String)
  | selecting
  | committing (read : MembershipStatus)
  | checking
  | writing
  | invalidating (type : PrincipalType) (id : String)
  | listing (orgId : String)
  | mapping (orgId : String) (rules : List GroupMappingRow) (result : MappingResult)
  | binding (orgId : String) (rule : GroupMappingRow) (rules : List GroupMappingRow)
      (result : MappingResult)
  | done (a : IamAnswer)
  deriving DecidableEq

/-- One step of a request: what it commits, the cache key it drops and where it goes. -/
structure IamMove where
  next : IamPhase
  write : IamWrite := .nothing
  invalidate : Option String := none

namespace IamMove

def raise (e : IamError) : IamMove := { next := .done (.raised e) }

def goto (phase : IamPhase) : IamMove := { next := phase }

def transact (phase : IamPhase) : Except IamError IamWrite → IamMove
  | .ok w => { next := phase, write := w }
  | .error e => raise e

/-- `invalidate_principal`. -/
def drop (orgId : String) (type : PrincipalType) (id : String) : IamMove :=
  { next := .done .ok, invalidate := some (orgCacheKey orgId type id) }

end IamMove

namespace IamRequest

open IamMove

variable (db : IamDb) (wall : ℕ) (newId : String)

/-- The transaction of a membership change, and the invalidation after it. -/
def transition (orgId userId : String) (status : MembershipStatus) : IamPhase → Option IamMove
  | .selecting =>
    match db.memberships.get? (orgId, userId) with
    | none => some (raise .membershipNotFound)
    | some read => some (goto (.committing read))
  | .committing read =>
    some (transact (.invalidating .user userId)
      (.ok (IamDb.setMembershipStatus orgId userId read status)))
  | .invalidating type id => some (drop orgId type id)
  | _ => none

/-- `suspend_org_member`, with `assert_not_last_admin` before the transaction. -/
def suspendOrgMember (orgId userId : String) : IamPhase → Option IamMove
  | .called =>
    match db.orgAdminRoleId with
    | .error e => some (raise e)
    | .ok none => some (goto .selecting)
    | .ok (some roleId) => some (goto (.guarding roleId))
  | .guarding roleId =>
    if 0 < db.countUserBindingsForRole wall orgId roleId (some userId) then some (goto .selecting)
    else some (goto (.totalling roleId))
  | .totalling roleId =>
    if db.countUserBindingsForRole wall orgId roleId none = 0 then some (goto .selecting)
    else some (raise (.lastAdmin orgId roleId))
  | phase => transition db orgId userId .suspended phase

def activateOrgMember (orgId userId : String) : IamPhase → Option IamMove
  | .called => some (goto .selecting)
  | phase => transition db orgId userId .active phase

def createOrgServiceAccount (orgId name : String) : IamPhase → Option IamMove
  | .called => some (transact (.done .ok) (db.createServiceAccount newId orgId name))
  | _ => none

def transitionStatus (orgId id : String) (status : ServiceAccountStatus) :
    IamPhase → Option IamMove
  | .called =>
    match db.serviceAccounts.get? id with
    | none => some (raise .serviceAccountNotFound)
    | some sa =>
      if sa.orgId = orgId then
        some (transact (.invalidating .serviceAccount id)
          (.ok (.putServiceAccount id { sa with status := status })))
      else some (raise .serviceAccountNotFound)
  | .invalidating type id => some (drop orgId type id)
  | _ => none

def deleteOrgServiceAccount (orgId id : String) : IamPhase → Option IamMove
  | .called =>
    if db.serviceAccountOf orgId id then some (goto .writing) else some (raise .serviceAccountNotFound)
  | .writing =>
    match db.deleteServiceAccount id with
    | none => some (goto (.done .ok))
    | some w => some (transact (.invalidating .serviceAccount id) (.ok w))
  | .invalidating type id => some (drop orgId type id)
  | _ => none

/-- `create_sa_role_binding`. -/
def createSaBinding (orgId id roleId : String) (actor : Option String) (expiresAt : Option ℕ) :
    IamPhase → Option IamMove
  | .called =>
    if db.serviceAccountOf orgId id then some (goto .writing) else some (raise .serviceAccountNotFound)
  | .writing =>
    some (transact (.invalidating .serviceAccount id)
      (db.createRoleBinding newId
        ⟨orgId, .serviceAccount, id, roleId, actor, expiresAt, serviceAccount_ne_system⟩))
  | .invalidating type id => some (drop orgId type id)
  | _ => none

/-- `delete_sa_role_binding`. The binding is not compared with the service account of the path. -/
def deleteSaBinding (orgId id bindingId : String) : IamPhase → Option IamMove
  | .called =>
    if db.serviceAccountOf orgId id then some (goto .writing) else some (raise .serviceAccountNotFound)
  | .writing =>
    some (transact (.invalidating .serviceAccount id) (.ok (db.deleteRoleBinding bindingId orgId)))
  | .invalidating type id => some (drop orgId type id)
  | _ => none

/-- `create_oidc_group_mapping_route`. -/
def createGroupMapping (orgId : String) (body : MappingBody) : IamPhase → Option IamMove
  | .called =>
    if body.targetOrgId ≠ orgId then some (raise .targetOrgMismatch)
    else
      match parse body.mode with
      | none => some (raise (.unknownMode body.mode))
      | some _ =>
        match db.validateMappingTargetRole body.targetRoleId with
        | .error e => some (raise e)
        | .ok () => some (goto .writing)
  | .writing =>
    some (transact (.done .ok) (db.createOidcGroupMapping newId
      ⟨body.issuer, body.groupClaim, body.groupValue, body.targetOrgId, body.targetRoleId,
        (parse body.mode).getD .additive⟩))
  | _ => none

def validateFields (fields : MappingFields) : Except IamError Unit := do
  match fields.mode with
  | none => pure ()
  | some mode =>
    match parse mode with
    | none => throw (.unknownMode mode)
    | some _ => pure ()
  match fields.targetRoleId with
  | none => pure ()
  | some roleId => db.validateMappingTargetRole roleId

/-- `update_oidc_group_mapping_route`. -/
def updateGroupMapping (orgId mappingId : String) (fields : MappingFields) :
    IamPhase → Option IamMove
  | .called =>
    match validateFields db fields with
    | .error e => some (raise e)
    | .ok () => some (goto .checking)
  | .checking =>
    if db.mappingOf orgId mappingId then some (goto .writing) else some (raise .mappingNotFound)
  | .writing => some (transact (.done .ok) (db.updateOidcGroupMapping mappingId fields))
  | _ => none

/-- `delete_oidc_group_mapping_route`. -/
def deleteGroupMapping (orgId mappingId : String) : IamPhase → Option IamMove
  | .called =>
    if db.mappingOf orgId mappingId then some (goto .writing) else some (raise .mappingNotFound)
  | .writing => some (transact (.done .ok) (.ok (db.deleteOidcGroupMapping mappingId orgId)))
  | _ => none

def outcome (rule : GroupMappingRow) (applied : Bool) (reason : String) : MappingOutcome :=
  ⟨rule.groupValue, rule.targetRoleId, rule.targetOrgId, applied, reason⟩

def considerRule (groups : List String) (orgId : String) (rule : GroupMappingRow)
    (rules : List GroupMappingRow) (result : MappingResult) : IamPhase :=
  let skip (reason : String) : IamPhase :=
    .mapping orgId rules { result with skipped := result.skipped ++ [outcome rule false reason] }
  if rule.groupValue ∉ groups then .mapping orgId rules result
  else if rule.mode = .authoritative then skip "authoritative_mode_not_enabled"
  else if rule.targetOrgId ≠ orgId then skip "target_org_not_user_membership"
  else if !db.targetRoleSafe rule.targetRoleId then skip "target_role_missing_or_system"
  else if result.dryRun then
    .mapping orgId rules { result with planned := result.planned ++ [outcome rule false "dry_run"] }
  else .binding orgId rule rules result

/-- `apply_group_mapping`. -/
def applyMapping (userId issuer : String) (groups : List String) (dryRun : Bool) :
    IamPhase → Option IamMove
  | .called =>
    match db.activeMemberships userId with
    | [] => some (goto (.done (.mapped ⟨userId, issuer, dryRun, [], [], []⟩)))
    | [orgId] => some (goto (.listing orgId))
    | _ => some (raise .multiMembership)
  | .listing orgId =>
    some (goto (.mapping orgId (db.mappings.values.filter fun m => m.issuer = issuer)
      ⟨userId, issuer, dryRun, [], [], []⟩))
  | .mapping _ [] result => some (goto (.done (.mapped result)))
  | .mapping orgId (rule :: rules) result =>
    some (goto (considerRule db groups orgId rule rules result))
  | .binding orgId rule rules result =>
    some (transact
      (.mapping orgId rules
        { result with
          planned := result.planned ++ [outcome rule true ""]
          applied := result.applied ++ [outcome rule true ""] })
      (db.ensureGroupRoleBinding newId orgId userId rule.targetRoleId
        ("oidc-group-mapping:" ++ issuer ++ ":" ++ rule.groupValue)))
  | _ => none

def step : IamRequest → IamPhase → Option IamMove
  | .suspendMember orgId userId => suspendOrgMember db wall orgId userId
  | .activateMember orgId userId => activateOrgMember db orgId userId
  | .createServiceAccount orgId name => createOrgServiceAccount db newId orgId name
  | .setServiceAccountStatus orgId id status => transitionStatus db orgId id status
  | .deleteServiceAccount orgId id => deleteOrgServiceAccount db orgId id
  | .createSaRoleBinding orgId id roleId actor expiresAt =>
    createSaBinding db newId orgId id roleId actor expiresAt
  | .deleteSaRoleBinding orgId id bindingId => deleteSaBinding db orgId id bindingId
  | .createMapping orgId body => createGroupMapping db newId orgId body
  | .updateMapping orgId mappingId fields => updateGroupMapping db orgId mappingId fields
  | .deleteMapping orgId mappingId => deleteGroupMapping db orgId mappingId
  | .applyGroupMapping userId issuer groups dryRun => applyMapping db newId userId issuer groups dryRun

end IamRequest

end DeerFlow

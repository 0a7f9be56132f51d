import DeerFlow.Types

/-!
# Organisations, members, service accounts, roles

The tables an authorisation is decided from. A check constraint is a field of its row; a unique key
is the key of the table's dictionary, where nothing else refers to the row by its id.
-/

namespace DeerFlow

inductive OrgStatus where
  | active
  | suspended
  | deleting
  | deleted
  deriving DecidableEq

inductive MembershipStatus where
  | invited
  | active
  | suspended
  | removed
  deriving DecidableEq

inductive ServiceAccountStatus where
  | active
  | disabled
  deriving DecidableEq

inductive PrincipalType where
  | user
  | serviceAccount
  | system
  deriving DecidableEq

def PrincipalType.text : PrincipalType → String
  | .user => "user"
  | .serviceAccount => "service_account"
  | .system => "system"

/-- Whoever is behind a request or an audit event. Only users carry a user id. -/
structure PrincipalRef where
  type : PrincipalType
  id : String
  userId : Option String := none
  displayName : Option String := none
  nonempty : id ≠ ""
  userOnly : type ≠ .user → userId = none
  deriving DecidableEq

/-- A row of `roles`. A role without an organisation is a system template. -/
structure RoleRow where
  orgId : Option String
  name : String
  permissions : List Json
  isSystem : Bool
  inScope : orgId ≠ none ∨ isSystem = true

theorem isSystem_inScope : (none : Option String) ≠ none ∨ true = true := .inr rfl

theorem user_ne_system : PrincipalType.user ≠ .system := nofun

theorem serviceAccount_ne_system : PrincipalType.serviceAccount ≠ .system := nofun

/-- A row of `role_bindings`; a user or a service account holds the role in the organisation. -/
structure RoleBindingRow where
  orgId : String
  principalType : PrincipalType
  principalId : String
  roleId : String
  createdBy : Option String := none
  expiresAt : Option ℕ := none
  principal : principalType ≠ .system
  deriving DecidableEq

structure ServiceAccountRow where
  orgId : String
  name : String
  status : ServiceAccountStatus := .active
  deriving DecidableEq

inductive MappingMode where
  | additive
  | authoritative
  deriving DecidableEq

/-- A row of `oidc_group_mappings`. -/
structure GroupMappingRow where
  issuer : String
  groupClaim : String
  groupValue : String
  targetOrgId : String
  targetRoleId : String
  mode : MappingMode := .additive
  deriving DecidableEq

structure IamDb where
  orgs : OrdDict String OrgStatus := .empty
  memberships : OrdDict (String × String) MembershipStatus := .empty
  serviceAccounts : OrdDict String ServiceAccountRow := .empty
  roles : OrdDict String RoleRow := .empty
  bindings : OrdDict String RoleBindingRow := .empty
  mappings : OrdDict String GroupMappingRow := .empty

/-- `expires_at IS NULL OR expires_at > now`. -/
def RoleBindingRow.live (b : RoleBindingRow) (now : ℕ) : Bool :=
  match b.expiresAt with
  | none => true
  | some t => now < t

def RoleBindingRow.isOf (b : RoleBindingRow) (orgId : String) (type : PrincipalType) (id : String) :
    Bool :=
  b.orgId = orgId && b.principalType = type && b.principalId = id

theorem RoleBindingRow.live_iff {b : RoleBindingRow} {now : ℕ} :
    b.live now ↔ ∀ t, b.expiresAt = some t → now < t := by
  unfold RoleBindingRow.live
  split <;> simp_all

theorem RoleBindingRow.isOf_iff {b : RoleBindingRow} {orgId : String} {type : PrincipalType}
    {id : String} : b.isOf orgId type id ↔
      b.orgId = orgId ∧ b.principalType = type ∧ b.principalId = id := by
  simp [RoleBindingRow.isOf, and_assoc]

end DeerFlow

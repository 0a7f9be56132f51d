import DeerFlow.Data.Machine
import DeerFlow.Release.Rows

/-!
# The release repository

Packages, versions and channel pointers, with the object store the versions use. Each call is a
transaction; the object store is not part of it. The resolver picks the version a new run is pinned
to.
-/

namespace DeerFlow

/-- A row of `agent_packages`; `archived` is its status. -/
structure PackageRow where
  orgId : String
  workspaceId : Option String := none
  name : String
  archived : Bool := false

/-- What a row of `release_channels` is found by. -/
structure ChannelKey where
  orgId : String
  workspaceId : Option String
  packageId : String
  channel : ReleaseChannel
  deriving DecidableEq

structure ChannelRow where
  id : String
  currentVersionId : Option VersionId := none
  rowVersion : ℕ := 1
  updatedBy : Option String := none
  deriving DecidableEq

inductive ReleaseAction where
  | promote
  | rollback
  deriving DecidableEq

structure ReleaseEvent where
  id : String
  orgId : String
  channelId : String
  fromVersionId : Option VersionId
  toVersionId : VersionId
  action : ReleaseAction
  actorType : Option String
  actorId : Option String
  reason : Option String
  deriving DecidableEq

inductive ReleaseError where
  | orgRequired
  | versionNotFound (id : VersionId) (orgId : String)
  | immutable (id : VersionId) (status : VersionStatus)
  | illegalTransition (current target : VersionStatus)
  | gate (channel : ReleaseChannel) (status : VersionStatus)
  | conflict (channelId : String) (expected : ℤ)
  | integrity
  deriving DecidableEq

/-- The arguments of `create_agent_version`. -/
structure CreateVersionArgs where
  orgId : String
  packageId : String
  version : String
  manifest : String
  content : String
  workspaceId : Option String := none
  threshold : ℕ := 65536

/-- The arguments of `_move_channel`. -/
structure MoveArgs where
  orgId : String
  packageId : String
  channel : ReleaseChannel
  targetVersionId : VersionId
  expectedChannelVersion : ℤ
  action : ReleaseAction
  actorId : Option String := none
  actorType : Option String := some "user"
  reason : Option String := none
  workspaceId : Option String := none
  deriving DecidableEq

structure ReleaseDb where
  packages : OrdDict String PackageRow := .empty
  versions : OrdDict VersionId VersionRow := .empty
  channels : OrdDict ChannelKey ChannelRow := .empty
  events : List ReleaseEvent := []
  store : ObjectStore

def ReleaseDb.fresh (backend : ObjectBackend) : ReleaseDb where
  store := { backend := backend }

/-- The row `create_agent_version` adds. -/
def CreateVersionArgs.row (sha256 : String → String) (a : CreateVersionArgs) (id : VersionId) :
    VersionRow where
  orgId := a.orgId
  packageId := a.packageId
  version := a.version
  digest := computeArtifactDigest sha256 a.content
  status := .draft
  manifest := a.manifest
  contentInline :=
    (routeContent a.threshold (computeObjectKey a.orgId a.workspaceId id) a.content).1
  objectKey := (routeContent a.threshold (computeObjectKey a.orgId a.workspaceId id) a.content).2
  sizeBytes := a.content.utf8ByteSize

/-- `create_agent_version`'s `store.put`, before the flush. -/
def CreateVersionArgs.upload (a : CreateVersionArgs) (id : VersionId) (st : ObjectStore) :
    ObjectStore :=
  st.keep a.threshold (computeObjectKey a.orgId a.workspaceId id) a.content

def MoveArgs.key (a : MoveArgs) : ChannelKey := ⟨a.orgId, a.workspaceId, a.packageId, a.channel⟩

/-- The event a move appends; `previous` is the pointer in the channel row it read. -/
def MoveArgs.event (a : MoveArgs) (id channelId : String) (previous : Option VersionId) :
    ReleaseEvent :=
  ⟨id, a.orgId, channelId, previous, a.targetVersionId, a.action, a.actorType, a.actorId, a.reason⟩

def assertGate (channel : ReleaseChannel) (row : VersionRow) (isRollback : Bool) :
    Except ReleaseError Unit :=
  if row.status ∉ channel.allowed then .error (.gate channel row.status)
  else if channel = .prod ∧ isRollback ∧ row.status = .revoked then
    .error (.gate channel row.status)
  else .ok ()

/-- The target of a move: in the package and organisation, and through the gate. -/
def MoveArgs.checkTarget (a : MoveArgs) (target : Option VersionRow) : Except ReleaseError Unit :=
  match target with
  | none => .error (.versionNotFound a.targetVersionId a.orgId)
  | some row =>
    if row.orgId ≠ a.orgId ∨ row.packageId ≠ a.packageId then
      .error (.versionNotFound a.targetVersionId a.orgId)
    else assertGate a.channel row (a.action = .rollback)

def ChannelRow.moved (row : ChannelRow) (a : MoveArgs) : ChannelRow :=
  { row with
    currentVersionId := some a.targetVersionId
    rowVersion := row.rowVersion + 1
    updatedBy := a.actorId }

/-- `_cas_update_channel` on the row the statement finds. -/
def casUpdateChannel (row : ChannelRow) (a : MoveArgs) : Except ReleaseError ChannelRow :=
  if (row.rowVersion : ℤ) = a.expectedChannelVersion then .ok (row.moved a)
  else .error (.conflict row.id a.expectedChannelVersion)

/-- The unique index takes no workspace and the workspace `_default` for the same. -/
def ChannelKey.indexed (k : ChannelKey) : String × String × String × ReleaseChannel :=
  (k.orgId, k.workspaceId.getD "_default", k.packageId, k.channel)

namespace ReleaseDb

variable (sha256 : String → String) (db : ReleaseDb)

/-- The unique constraints and the foreign key of `agent_versions`. -/
def accepts (id : VersionId) (row : VersionRow) : Bool :=
  (db.packages.get? row.packageId).isSome && row.contentExclusive
    && db.versions.entries.all fun e =>
      e.1 = id ||
        !(e.2.orgId = row.orgId && e.2.packageId = row.packageId && e.2.version = row.version)
          && !(e.2.orgId = row.orgId && e.2.digest = row.digest)

def createAgentPackage (id : String) (row : PackageRow) : ReleaseDb × Except ReleaseError Unit :=
  if db.packages.entries.any fun e => e.2.orgId = row.orgId && e.2.name = row.name then
    (db, .error .integrity)
  else ({ db with packages := db.packages.set id row }, .ok ())

/-- `_set_package_status`; `false` where the package is not there. -/
def setPackageStatus (id orgId : String) (archived : Bool) : ReleaseDb × Bool :=
  match db.packages.get? id with
  | none => (db, false)
  | some row =>
    if row.orgId ≠ orgId then (db, false)
    else ({ db with packages := db.packages.set id { row with archived := archived } }, true)

/-- The flush of a version row; `refused` is a failure that no constraint explains. -/
def flushVersion (id : VersionId) (row : VersionRow) (refused : Bool) :
    ReleaseDb × Except ReleaseError VersionRow :=
  if db.accepts id row && !refused then ({ db with versions := db.versions.set id row }, .ok row)
  else (db, .error .integrity)

def createAgentVersion (id : VersionId) (a : CreateVersionArgs) (refused : Bool) :
    ReleaseDb × Except ReleaseError VersionRow :=
  flushVersion { db with store := a.upload id db.store } id (a.row sha256 id) refused

def updateAgentVersion (id : VersionId) (orgId : String) (a : UpdateArgs) (refused : Bool) :
    ReleaseDb × Except ReleaseError VersionRow :=
  match db.versions.get? id with
  | none => (db, .error (.versionNotFound id orgId))
  | some row =>
    if row.orgId ≠ orgId then (db, .error (.versionNotFound id orgId))
    else if row.status.frozen then (db, .error (.immutable id row.status))
    else
      flushVersion { db with store := a.upload orgId id db.store } id
        (row.updated sha256 orgId id a) refused

def setVersionStatus (id : VersionId) (orgId : String) (status : VersionStatus) (now : ℕ)
    (refused : Bool) : ReleaseDb × Except ReleaseError VersionRow :=
  match db.versions.get? id with
  | none => (db, .error (.versionNotFound id orgId))
  | some row =>
    if row.orgId ≠ orgId then (db, .error (.versionNotFound id orgId))
    else if status ∉ row.status.legalTransitions then
      (db, .error (.illegalTransition row.status status))
    else flushVersion db id (row.withStatus status now) refused

def getOrCreateChannel (key : ChannelKey) (newId : String) :
    Except ReleaseError (ReleaseDb × ChannelRow) :=
  if key.orgId = "" then .error .orgRequired
  else
    match db.channels.get? key with
    | some row => .ok (db, row)
    | none =>
      if (db.packages.get? key.packageId).isNone
          || db.channels.entries.any fun e => e.1.indexed = key.indexed then
        .error .integrity
      else .ok ({ db with channels := db.channels.set key ⟨newId, none, 1, none⟩ }, ⟨newId, none, 1, none⟩)

/-- `_move_channel`, up to its commit. -/
def moved (a : MoveArgs) (channelId eventId : String) :
    Except ReleaseError (ReleaseDb × ChannelRow × ReleaseEvent) := do
  let (db, ch) ← db.getOrCreateChannel a.key channelId
  a.checkTarget (db.versions.get? a.targetVersionId)
  let row ← casUpdateChannel ch a
  let ev := a.event eventId ch.id ch.currentVersionId
  .ok ({ db with channels := db.channels.set a.key row, events := db.events ++ [ev] }, row, ev)

/-- `promote_channel` and `rollback_channel`. -/
def moveChannel (a : MoveArgs) (channelId eventId : String) (refused : Bool) :
    ReleaseDb × Except ReleaseError (ChannelRow × ReleaseEvent) :=
  match db.moved a channelId eventId with
  | .error e => (db, .error e)
  | .ok (db', row, ev) => if refused then (db, .error .integrity) else (db', .ok (row, ev))

end ReleaseDb

inductive RepositoryAct where
  | createPackage (id : String) (row : PackageRow)
  | setPackageStatus (id orgId : String) (archived : Bool)
  | createVersion (id : VersionId) (a : CreateVersionArgs) (refused : Bool)
  | updateVersion (id : VersionId) (orgId : String) (a : UpdateArgs) (refused : Bool)
  | setVersionStatus (id : VersionId) (orgId : String) (status : VersionStatus) (now : ℕ)
      (refused : Bool)
  | move (a : MoveArgs) (channelId eventId : String) (refused : Bool)

/-- Calls of the repository one after the other. Ids of rows that are created are new. -/
def repository (sha256 : String → String) : Machine ReleaseDb RepositoryAct where
  step db
    | .createPackage id row =>
      if (db.packages.get? id).isSome then none else some (db.createAgentPackage id row).1
    | .setPackageStatus id orgId archived => some (db.setPackageStatus id orgId archived).1
    | .createVersion id a refused =>
      if (db.versions.get? id).isSome then none
      else some (db.createAgentVersion sha256 id a refused).1
    | .updateVersion id orgId a refused => some (db.updateAgentVersion sha256 id orgId a refused).1
    | .setVersionStatus id orgId status now refused =>
      some (db.setVersionStatus id orgId status now refused).1
    | .move a channelId eventId refused => some (db.moveChannel a channelId eventId refused).1

section Resolver

structure ReleaseRef where
  orgId : String
  workspaceId : Option String
  packageId : String
  versionId : VersionId
  agentName : String
  version : String
  digest : String
  channel : ReleaseChannel
  deriving DecidableEq

/-- The codes of `ReleaseResolutionError`. -/
inductive ResolutionError where
  | notFound
  | notPublished
  | revoked
  | tenantMismatch
  deriving DecidableEq

variable (sha256 : String → String)

def assertProdGate (inlineDigestCheck : Bool) (row : VersionRow) : Except ResolutionError Unit :=
  if row.status = .revoked then .error .revoked
  else if row.status ≠ .published then .error .notPublished
  else
    match row.contentInline with
    | some content =>
      if inlineDigestCheck && computeArtifactDigest sha256 content != row.digest then
        .error .notFound
      else .ok ()
    | none => .ok ()

/-- `get_agent_package_by_name`. -/
def ReleaseDb.packageByName (db : ReleaseDb) (orgId name : String) : Option (String × PackageRow) :=
  db.packages.entries.find? fun e => e.2.orgId = orgId && e.2.name = name

/-- `DbReleaseResolver.resolve`; an empty `orgId` is a tenant context without one. -/
def ReleaseDb.resolve (db : ReleaseDb) (orgId : String) (workspaceId : Option String)
    (agentName : String) (channel : ReleaseChannel) (inlineDigestCheck : Bool := true) :
    Except ResolutionError ReleaseRef :=
  if orgId = "" then .error .tenantMismatch
  else
    match db.packageByName orgId agentName with
    | none => .error .notFound
    | some (packageId, pkg) =>
      match (db.channels.get? ⟨orgId, workspaceId, packageId, channel⟩).bind (·.currentVersionId) with
      | none => .error .notFound
      | some versionId =>
        match db.versions.get? versionId with
        | none => .error .notFound
        | some row =>
          if row.orgId ≠ orgId then .error .notFound
          else
            match if channel = .prod then assertProdGate sha256 inlineDigestCheck row else .ok () with
            | .error e => .error e
            | .ok () =>
              .ok ⟨orgId, workspaceId, packageId, versionId, pkg.name, row.version, row.digest,
                channel⟩

end Resolver

end DeerFlow

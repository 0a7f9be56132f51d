import DeerFlow.Data.OrdDict

/-!
# Agent versions and their artifacts

The rows of `agent_versions`, the object store behind them, and what the repository computes on a
row. A text stands for its UTF-8 bytes; the hash is a parameter.
-/

namespace DeerFlow

/-- `uuid4().hex`. -/
structure VersionId where
  hex : String
  clean : '/' ∉ hex.toList
  deriving DecidableEq

theorem clean_a : '/' ∉ "a".toList := by decide

theorem clean_b : '/' ∉ "b".toList := by decide

inductive VersionStatus where
  | draft
  | reviewed
  | published
  | revoked
  | archived
  deriving DecidableEq

inductive ReleaseChannel where
  | dev
  | staging
  | prod
  deriving DecidableEq

namespace VersionStatus

/-- The statuses `_assert_mutable` refuses. -/
def frozen (s : VersionStatus) : Bool := s ∈ [published, revoked, archived]

def legalTransitions : VersionStatus → List VersionStatus
  | draft => [reviewed, published, revoked, archived]
  | reviewed => [draft, published, revoked, archived]
  | published => [revoked]
  | revoked => []
  | archived => []

end VersionStatus

/-- `_CHANNEL_ALLOWED_VERSION_STATUSES`. -/
def ReleaseChannel.allowed : ReleaseChannel → List VersionStatus
  | dev => [.draft, .reviewed, .published]
  | staging => [.reviewed, .published]
  | prod => [.published]

def computeArtifactDigest (sha256 : String → String) (content : String) : String :=
  "sha256:" ++ sha256 content

/-- `DEFAULT_WORKSPACE_SEGMENT` stands for no workspace, and for an empty one. -/
def workspaceSegment : Option String → String
  | some ws => if ws = "" then "_default" else ws
  | none => "_default"

def computeObjectKey (orgId : String) (workspaceId : Option String) (versionId : VersionId) :
    String :=
  "org/" ++ orgId ++ "/workspace/" ++ workspaceSegment workspaceId ++ "/agent-version/"
    ++ versionId.hex ++ "/artifact"

/-- `InlineObjectStore` and `S3ObjectStore`. -/
inductive ObjectBackend where
  | inline
  | s3
  deriving DecidableEq

structure ObjectStore where
  backend : ObjectBackend
  objects : String → Option String := fun _ => none

namespace ObjectStore

variable (st : ObjectStore)

def put (key content : String) : ObjectStore :=
  match st.backend with
  | .inline => st
  | .s3 => { st with objects := Function.update st.objects key (some content) }

/-- `none` where `get` raises. -/
def get? (key : String) : Option String :=
  match st.backend with
  | .inline => some ""
  | .s3 => st.objects key

end ObjectStore

/-- A row of `agent_versions`, without its id. -/
structure VersionRow where
  orgId : String
  packageId : String
  version : String
  digest : String
  status : VersionStatus
  manifest : String
  contentInline : Option String
  objectKey : Option String
  sizeBytes : ℕ
  publishedAt : Option ℕ := none
  revokedAt : Option ℕ := none
  deriving DecidableEq

/-- Content is kept in the row up to the threshold, and in the object store beyond it. -/
def fitsInline (threshold : ℕ) (content : String) : Bool := content.utf8ByteSize ≤ threshold

/-- Where the content of a version goes: `content_inline` and `object_key`. -/
def routeContent (threshold : ℕ) (key content : String) : Option String × Option String :=
  if fitsInline threshold content then (some content, none) else (none, some key)

/-- The `store.put` of content that does not stay in the row. -/
def ObjectStore.keep (st : ObjectStore) (threshold : ℕ) (key content : String) : ObjectStore :=
  if fitsInline threshold content then st else st.put key content

/-- The arguments of `update_agent_version`. -/
structure UpdateArgs where
  version : Option String := none
  manifest : Option String := none
  content : Option String := none
  threshold : ℕ := 65536

namespace VersionRow

variable (row : VersionRow)

/-- The CHECK `ck_agent_versions_content_exclusive`. -/
def contentExclusive : Bool := row.contentInline.isSome != row.objectKey.isSome

/-- The bytes a reader gets: `content_inline`, or the object. -/
def retrieve (st : ObjectStore) : Option String :=
  match row.contentInline with
  | some content => some content
  | none => row.objectKey.bind st.get?

/-- `row.content_inline`, `row.object_key`, `row.digest` and `row.size_bytes` for new content. -/
def withContent (sha256 : String → String) (threshold : ℕ) (key content : String) : VersionRow :=
  { row with
    contentInline := (routeContent threshold key content).1
    objectKey := (routeContent threshold key content).2
    digest := computeArtifactDigest sha256 content
    sizeBytes := content.utf8ByteSize }

/-- The row as `update_agent_version` leaves it in memory. The key has no workspace. -/
def updated (sha256 : String → String) (orgId : String) (id : VersionId) (a : UpdateArgs) :
    VersionRow :=
  let row := { row with
    version := a.version.getD row.version
    manifest := a.manifest.getD row.manifest }
  match a.content with
  | some content => row.withContent sha256 a.threshold (computeObjectKey orgId none id) content
  | none => row

/-- The row as `set_version_status` leaves it in memory. -/
def withStatus (status : VersionStatus) (now : ℕ) : VersionRow :=
  { row with
    status := status
    publishedAt :=
      if status = .published ∧ row.publishedAt = none then some now else row.publishedAt
    revokedAt := if status = .revoked ∧ row.revokedAt = none then some now else row.revokedAt }

end VersionRow

/-- `update_agent_version`'s `store.put`, before the flush. -/
def UpdateArgs.upload (a : UpdateArgs) (orgId : String) (id : VersionId) (st : ObjectStore) :
    ObjectStore :=
  match a.content with
  | some content => st.keep a.threshold (computeObjectKey orgId none id) content
  | none => st

/-- A column that was assigned a new value is written; any other stays as it is in the table. -/
def flushColumn {α : Type} [DecidableEq α] (loaded assigned stored : α) : α :=
  if assigned = loaded then stored else assigned

/-- The `UPDATE` of a flush: the row was `loaded` and then `assigned`. -/
def VersionRow.flush (loaded assigned stored : VersionRow) : VersionRow where
  orgId := flushColumn loaded.orgId assigned.orgId stored.orgId
  packageId := flushColumn loaded.packageId assigned.packageId stored.packageId
  version := flushColumn loaded.version assigned.version stored.version
  digest := flushColumn loaded.digest assigned.digest stored.digest
  status := flushColumn loaded.status assigned.status stored.status
  manifest := flushColumn loaded.manifest assigned.manifest stored.manifest
  contentInline := flushColumn loaded.contentInline assigned.contentInline stored.contentInline
  objectKey := flushColumn loaded.objectKey assigned.objectKey stored.objectKey
  sizeBytes := flushColumn loaded.sizeBytes assigned.sizeBytes stored.sizeBytes
  publishedAt := flushColumn loaded.publishedAt assigned.publishedAt stored.publishedAt
  revokedAt := flushColumn loaded.revokedAt assigned.revokedAt stored.revokedAt

end DeerFlow

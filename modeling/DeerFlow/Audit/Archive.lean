import DeerFlow.Audit.Event
import DeerFlow.Data.Machine

/-!
# The audit archive

Once a day `sweep_archive_audit` writes the events of the day before to object storage, one object
and one manifest for each organisation, and sets the organisation's watermark to the end of the day.
Times are microseconds since 1970-01-01, in UTC.
-/

namespace DeerFlow

def dayMicros : ℤ := 86400000000

def civilDate (day : ℤ) : ℤ × ℤ × ℤ :=
  -- eras of 400 years that begin in March, so that a leap day is the last of its year
  let z := day + 719468
  let era := z / 146097
  let doe := z % 146097
  let yoe := (doe - doe / 1460 + doe / 36524 - doe / 146096) / 365
  let doy := doe - (365 * yoe + yoe / 4 - yoe / 100)
  let mp := (5 * doy + 2) / 153
  let month := if mp < 10 then mp + 3 else mp - 9
  (yoe + era * 400 + (if month ≤ 2 then 1 else 0), month, doy - (153 * mp + 2) / 5 + 1)

def padded (width : ℕ) (n : ℤ) : String :=
  let digits := Nat.toDigits 10 n.toNat
  String.ofList (List.replicate (width - digits.length) '0' ++ digits)

/-- `date.isoformat`. -/
def dateText (day : ℤ) : String :=
  let (year, month, dom) := civilDate day
  padded 4 year ++ "-" ++ padded 2 month ++ "-" ++ padded 2 dom

/-- `datetime.isoformat`, of a time in UTC. -/
def isoformat (t : ℤ) : String :=
  let second := t % dayMicros / 1000000
  let micros := t % 1000000
  dateText (t / dayMicros) ++ "T" ++ padded 2 (second / 3600) ++ ":" ++ padded 2 (second / 60 % 60)
    ++ ":" ++ padded 2 (second % 60) ++ (if micros = 0 then "" else "." ++ padded 6 micros)
    ++ "+00:00"

example : isoformat (19782 * dayMicros + 3723000042) = "2024-02-29T01:02:03.000042+00:00" := by
  decide +kernel

def archiveBatchSize : ℕ := 500

def storageVersion : String := "1"

/-- The columns of `audit_events` that an export reads. -/
structure ExportRow where
  eventId : String
  orgId : Option String
  action : String
  actorType : PrincipalType
  actorId : String
  outcome : AuditOutcome
  resourceType : Option String
  resourceId : Option String
  occurredAt : ℤ
  payload : Dict

/-- `_row_to_jsonl`. -/
def ExportRow.toJsonl (r : ExportRow) : List Char :=
  (Json.obj
    [("event_id", .str r.eventId), ("org_id", .ofOption r.orgId), ("action", .str r.action),
      ("actor_type", .str r.actorType.text), ("actor_id", .str r.actorId),
      ("outcome", .str r.outcome.text), ("resource_type", .ofOption r.resourceType),
      ("resource_id", .ofOption r.resourceId), ("occurred_at", .str (isoformat r.occurredAt)),
      ("payload", .obj r.payload)]).sortKeys.dumps

/-- The filter of an export: events of no organisation go to `system`. -/
def ExportRow.isOf (r : ExportRow) (org : String) : Bool :=
  if org = "system" then r.orgId = none else r.orgId = some org

def ExportRow.orgName (r : ExportRow) : String := r.orgId.getD "system"

def jsonlContent (rows : List ExportRow) : List Char :=
  let content := ['\n'].intercalate (rows.map ExportRow.toJsonl)
  if content = [] then content else content ++ ['\n']

def archiveObjectKey (org date batch : String) : String :=
  "audit/org/" ++ org ++ "/date/" ++ date ++ "/batch/" ++ batch ++ ".jsonl"

def manifestObjectKey (org date : String) : String :=
  "audit/org/" ++ org ++ "/date/" ++ date ++ "/manifest.json"

/-- A row of `audit_archive_watermarks`. -/
structure Watermark where
  lastArchivedWindowEnd : ℤ
  lastEventId : String
  batchCount : ℕ

structure ArchiveReport where
  orgsArchived : ℕ := 0
  eventsArchived : ℕ := 0
  batchesWritten : ℕ := 0
  verifyFailures : List String := []

structure ArchiveDb where
  events : List ExportRow := []
  watermarks : OrdDict String Watermark := .empty
  store : OrdDict String (List Char) := .empty

/-- What the object store does with the objects of an organisation. -/
inductive StoreFate where
  | verified
  | damaged (stored : List Char)
  | unreadable (error : String)
  | putRaises (error : String)
  | manifestRaises (error : String)

def StoreFate.stored (content : List Char) : StoreFate → List Char
  | .damaged stored => stored
  | _ => content

/-- One day, from its first microsecond to the one after its last. -/
structure ArchiveWindow where
  day : ℤ

namespace ArchiveWindow

variable (W : ArchiveWindow)

def start : ℤ := W.day * dayMicros

def stop : ℤ := W.day * dayMicros + dayMicros

def dateStr : String := dateText W.day

def contains (r : ExportRow) : Bool := W.start ≤ r.occurredAt && r.occurredAt < W.stop

end ArchiveWindow

def archiveWindow (now : ℤ) : ArchiveWindow := ⟨now / dayMicros - 1⟩

def archiveManifest (W : ArchiveWindow) (now : ℤ) (org batch digest : String) (rows : List ExportRow) :
    List Char :=
  asciiText (Json.obj
    [("batch_id", .str batch), ("schema_versions", .arr [.str "audit_event_v1"]),
      ("org_id", if org = "system" then .null else .str org),
      ("window_start", .str (isoformat W.start)), ("window_end", .str (isoformat W.stop)),
      ("event_count", .num rows.length),
      ("first_event_id", .ofOption (rows.head?.map ExportRow.eventId)),
      ("last_event_id", .ofOption (rows.getLast?.map ExportRow.eventId)),
      ("content_digest", .str ("sha256:" ++ digest)), ("created_at", .str (isoformat now)),
      ("storage_version", .str storageVersion),
      ("batches", .arr [.obj [("batch_id", .str batch),
        ("object_key", .str (archiveObjectKey org W.dateStr batch)),
        ("event_count", .num rows.length)]])]).sortKeys.dumps

namespace ArchiveDb

variable (db : ArchiveDb)

/-- `insert_audit_event`; the id is the primary key. -/
def insert (r : ExportRow) : ArchiveDb :=
  if db.events.any fun e => e.eventId = r.eventId then db else { db with events := db.events ++ [r] }

def put (key : String) (content : List Char) : ArchiveDb :=
  { db with store := db.store.set key content }

def getAllOrgIds : List String :=
  let orgIds := (db.events.filterMap ExportRow.orgId).dedup
  if "system" ∈ orgIds then orgIds else orgIds ++ ["system"]

def windowEvents (W : ArchiveWindow) (org : String) : List ExportRow :=
  db.events.filter fun r => r.isOf org && W.contains r

/-- The rows of `_export_window`. -/
def exportWindow (W : ArchiveWindow) (org : String) : List ExportRow :=
  ((db.windowEvents W org).insertionSort fun a b =>
    a.occurredAt < b.occurredAt ∨ a.occurredAt = b.occurredAt ∧ a.eventId ≤ b.eventId).take
      archiveBatchSize

def upsertWatermark (org : String) (windowEnd : ℤ) (lastEventId : String) (delta : ℕ) : ArchiveDb :=
  let batchCount := ((db.watermarks.get? org).map Watermark.batchCount).getD 0
  { db with watermarks := db.watermarks.set org ⟨windowEnd, lastEventId, batchCount + delta⟩ }

end ArchiveDb

/-- What a pass of the loop over the organisations ends with. -/
inductive OrgOutcome where
  | skipped
  | raised (error : String)
  | failed (message : String)
  | archived (events : ℕ)

section Sweep

variable (sha256 : List Char → String) (W : ArchiveWindow) (now : ℤ) (batch : String → String)
  (fate : String → StoreFate)

def writeBatch (org : String) (rows : List ExportRow) (db : ArchiveDb) : ArchiveDb :=
  (db.put (archiveObjectKey org W.dateStr (batch org)) ((fate org).stored (jsonlContent rows))).put
    (manifestObjectKey org W.dateStr)
    (archiveManifest W now org (batch org) (sha256 (jsonlContent rows)) rows)

/-- The read-back of the object, and the watermark if it is what was written. -/
def verifyBatch (org : String) (rows : List ExportRow) (db : ArchiveDb) : ArchiveDb × OrgOutcome :=
  let digest := sha256 (jsonlContent rows)
  match fate org with
  | .unreadable error =>
    (db, .failed s!"org={org} date={W.dateStr}: read-back failed: {error}")
  | f =>
    let readDigest := sha256 (f.stored (jsonlContent rows))
    if readDigest ≠ digest then
      (db, .failed (s!"org={org} date={W.dateStr}: digest mismatch on read-back (expected "
        ++ s!"sha256:{digest}, got sha256:{readDigest})"))
    else
      (db.upsertWatermark org W.stop ((rows.getLast?.map ExportRow.eventId).getD "") 1,
        .archived rows.length)

def archiveOrg (org : String) (db : ArchiveDb) : ArchiveDb × OrgOutcome :=
  let rows := db.exportWindow W org
  if rows = [] then (db, .skipped)
  else
    match fate org with
    | .putRaises error => (db, .raised error)
    | .manifestRaises error =>
      (db.put (archiveObjectKey org W.dateStr (batch org)) (jsonlContent rows), .raised error)
    | _ => verifyBatch sha256 W fate org rows (writeBatch sha256 W now batch fate org rows db)

def archiveOrgs : List String → ArchiveDb → ArchiveReport → ArchiveDb × Except String ArchiveReport
  | [], db, report => (db, .ok report)
  | org :: orgs, db, report =>
    match archiveOrg sha256 W now batch fate org db with
    | (db', .skipped) => archiveOrgs orgs db' report
    | (db', .raised error) => (db', .error error)
    | (db', .failed message) =>
      archiveOrgs orgs db' { report with verifyFailures := report.verifyFailures ++ [message] }
    | (db', .archived events) =>
      archiveOrgs orgs db'
        { report with
          orgsArchived := report.orgsArchived + 1
          eventsArchived := report.eventsArchived + events
          batchesWritten := report.batchesWritten + 1 }

end Sweep

/-- One sweep; the ids of its batches and what the store does are given for each organisation. -/
def sweepArchiveAudit (sha256 : List Char → String) (now : ℤ) (batch : String → String)
    (fate : String → StoreFate) (db : ArchiveDb) : ArchiveDb × Except String ArchiveReport :=
  archiveOrgs sha256 (archiveWindow now) now batch fate db.getAllOrgIds db {}

inductive ArchiveAct where
  | insert (r : ExportRow)
  | sweep (now : ℤ) (batch : String → String) (fate : String → StoreFate)

def auditArchive (sha256 : List Char → String) : Machine ArchiveDb ArchiveAct where
  step db
    | .insert r => some (db.insert r)
    | .sweep now batch fate => some (sweepArchiveAudit sha256 now batch fate db).1

end DeerFlow

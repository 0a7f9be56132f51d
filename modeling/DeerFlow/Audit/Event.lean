import DeerFlow.Iam.Rows
import DeerFlow.JsonText

/-!
# Audit events

An audit event, its JSON text and the row it becomes in `audit_events`. The text is what the outbox
keeps of an event; it is validated again when the event is published. Times are the texts they are
written as.
-/

namespace DeerFlow

inductive AuditOutcome where
  | success
  | denied
  | failure
  deriving DecidableEq

def AuditOutcome.text : AuditOutcome → String
  | .success => "success"
  | .denied => "denied"
  | .failure => "failure"

def AuditOutcome.parse (s : String) : Option AuditOutcome :=
  [AuditOutcome.success, .denied, .failure].find? fun o => o.text = s

def PrincipalType.parse (s : String) : Option PrincipalType :=
  [PrincipalType.user, .serviceAccount, .system].find? fun t => t.text = s

def forbiddenPayloadKeys : List String :=
  ["authorization_header", "cookie", "api_key", "key_hash", "oauth_token", "connector_password",
    "full_prompt", "full_model_response", "full_file_content", "signed_url_query", "database_dsn"]

def scrubPayload (payload : Dict) : Dict := payload.filter fun kv => kv.1 ∉ forbiddenPayloadKeys

structure ResourceRef where
  type : String
  id : Option String := none
  orgId : String
  workspaceId : Option String := none
  attributes : Dict := []
  typeNonempty : type ≠ ""
  orgNonempty : orgId ≠ ""

structure AuditEvent where
  schemaVersion : String := "v1alpha1"
  eventId : String
  idempotencyKey : String
  orgId : Option String := none
  workspaceId : Option String := none
  actor : PrincipalRef
  action : String
  resource : Option ResourceRef := none
  outcome : AuditOutcome
  reasonCode : Option String := none
  requestId : String
  traceId : Option String := none
  runId : Option String := none
  occurredAt : String
  payload : Dict := []
  nonempty : eventId ≠ "" ∧ idempotencyKey ≠ "" ∧ action ≠ "" ∧ requestId ≠ ""
  scrubbed : (scrubPayload payload).length = payload.length

def Json.ofOption : Option String → Json
  | none => .null
  | some s => .str s

def PrincipalRef.toJson (p : PrincipalRef) : Json :=
  .obj [("type", .str p.type.text), ("id", .str p.id), ("user_id", .ofOption p.userId),
    ("display_name", .ofOption p.displayName)]

def ResourceRef.toJson (r : ResourceRef) : Json :=
  .obj [("type", .str r.type), ("id", .ofOption r.id), ("org_id", .str r.orgId),
    ("workspace_id", .ofOption r.workspaceId), ("attributes", .obj r.attributes)]

def AuditEvent.fields (e : AuditEvent) : Dict :=
  [("schema_version", .str e.schemaVersion), ("event_id", .str e.eventId),
    ("idempotency_key", .str e.idempotencyKey), ("org_id", .ofOption e.orgId),
    ("workspace_id", .ofOption e.workspaceId), ("actor", e.actor.toJson), ("action", .str e.action),
    ("resource", (e.resource.map ResourceRef.toJson).getD .null), ("outcome", .str e.outcome.text),
    ("reason_code", .ofOption e.reasonCode), ("request_id", .str e.requestId),
    ("trace_id", .ofOption e.traceId), ("run_id", .ofOption e.runId),
    ("occurred_at", .str e.occurredAt), ("payload", .obj e.payload)]

/-- `model_dump_json`, but for the blanks that pydantic leaves out after `,` and `:`; both are read
back alike. -/
def AuditEvent.modelDumpJson (e : AuditEvent) : List Char := (Json.obj e.fields).dumps

namespace Dict

variable (d : Dict) (key : String)

def text : Option String :=
  match d.get? key with
  | some (.str s) => some s
  | _ => none

def optText : Option (Option String) :=
  match d.get? key with
  | none | some .null => some none
  | some (.str s) => some (some s)
  | _ => none

def subDict : Option Dict :=
  match d.get? key with
  | none => some []
  | some (.obj kvs) => some kvs
  | _ => none

end Dict

def PrincipalRef.ofDict (d : Dict) : Option PrincipalRef := do
  let type ← (← d.text "type") |> PrincipalType.parse
  let id ← d.text "id"
  let userId ← d.optText "user_id"
  let displayName ← d.optText "display_name"
  if h : id ≠ "" ∧ (type ≠ .user → userId = none) then
    return ⟨type, id, userId, displayName, h.1, h.2⟩
  else none

def ResourceRef.ofDict (d : Dict) : Option ResourceRef := do
  let type ← d.text "type"
  let id ← d.optText "id"
  let orgId ← d.text "org_id"
  let workspaceId ← d.optText "workspace_id"
  let attributes ← d.subDict "attributes"
  if h : type ≠ "" ∧ orgId ≠ "" then
    return ⟨type, id, orgId, workspaceId, attributes, h.1, h.2⟩
  else none

def AuditEvent.readResource (d : Dict) : Option (Option ResourceRef) :=
  match d.get? "resource" with
  | none | some .null => some none
  | some (.obj kvs) => (ResourceRef.ofDict kvs).map some
  | _ => none

def AuditEvent.ofDict (d : Dict) : Option AuditEvent := do
  let schemaVersion := (← d.optText "schema_version").getD "v1alpha1"
  let eventId ← d.text "event_id"
  let idempotencyKey ← d.text "idempotency_key"
  let orgId ← d.optText "org_id"
  let workspaceId ← d.optText "workspace_id"
  let actor ← (← d.subDict "actor") |> PrincipalRef.ofDict
  let action ← d.text "action"
  let resource ← AuditEvent.readResource d
  let outcome ← (← d.text "outcome") |> AuditOutcome.parse
  let reasonCode ← d.optText "reason_code"
  let requestId ← d.text "request_id"
  let traceId ← d.optText "trace_id"
  let runId ← d.optText "run_id"
  let occurredAt ← d.text "occurred_at"
  let payload ← d.subDict "payload"
  if h : (eventId ≠ "" ∧ idempotencyKey ≠ "" ∧ action ≠ "" ∧ requestId ≠ "") ∧
      (scrubPayload payload).length = payload.length then
    return ⟨schemaVersion, eventId, idempotencyKey, orgId, workspaceId, actor, action, resource,
      outcome, reasonCode, requestId, traceId, runId, occurredAt, payload, h.1, h.2⟩
  else none

/-- `AuditEvent.model_validate_json`. -/
def AuditEvent.modelValidateJson (text : List Char) : Option AuditEvent :=
  match Json.loads text with
  | some (.obj d) => AuditEvent.ofDict d
  | _ => none

/-- A row of `audit_events`; actor and resource are flattened. -/
structure AuditEventRow where
  eventId : String
  idempotencyKey : String
  schemaVersion : String
  orgId : Option String
  workspaceId : Option String
  actorType : PrincipalType
  actorId : String
  actorUserId : Option String
  actorDisplayName : Option String
  action : String
  outcome : AuditOutcome
  reasonCode : Option String
  resourceType : Option String
  resourceId : Option String
  resourceOrgId : Option String
  resourceWorkspaceId : Option String
  resourceAttributes : Option Dict
  requestId : String
  traceId : Option String
  runId : Option String
  occurredAt : String
  payload : Dict
  producer : Option String

/-- `_event_to_row`, of an event whose actor and resource are flattened, as `model_construct` may
have made it. -/
def eventToRow (event : AuditEventRow) : AuditEventRow :=
  { event with payload := scrubPayload event.payload }

/-- `_event_to_row`, of an event that passed its own checks. -/
def AuditEvent.toRow (e : AuditEvent) (producer : Option String) : AuditEventRow :=
  eventToRow {
    eventId := e.eventId
    idempotencyKey := e.idempotencyKey
    schemaVersion := e.schemaVersion
    orgId := e.orgId
    workspaceId := e.workspaceId
    actorType := e.actor.type
    actorId := e.actor.id
    actorUserId := e.actor.userId
    actorDisplayName := e.actor.displayName
    action := e.action
    outcome := e.outcome
    reasonCode := e.reasonCode
    resourceType := e.resource.map ResourceRef.type
    resourceId := e.resource.bind ResourceRef.id
    resourceOrgId := e.resource.map ResourceRef.orgId
    resourceWorkspaceId := e.resource.bind ResourceRef.workspaceId
    resourceAttributes := e.resource.map ResourceRef.attributes
    requestId := e.requestId
    traceId := e.traceId
    runId := e.runId
    occurredAt := e.occurredAt
    payload := e.payload
    producer := producer }

inductive Json.HasKey (key : String) : Json → Prop where
  | here {kvs : Dict} {v : Json} : (key, v) ∈ kvs → HasKey key (.obj kvs)
  | field {kvs : Dict} {k : String} {v : Json} : (k, v) ∈ kvs → HasKey key v → HasKey key (.obj kvs)
  | item {xs : List Json} {v : Json} : v ∈ xs → HasKey key v → HasKey key (.arr xs)

def Json.SecretFree (v : Json) : Prop := ∀ key ∈ forbiddenPayloadKeys, ¬ v.HasKey key

end DeerFlow

import DeerFlow.Audit.Event
import DeerFlow.Proofs.JsonRoundTrip

/-!
# An audit event and its text

What is read back from the text of an event is the event. The row of an event has the keys that bear
secrets taken out of the top level of its payload, and nowhere else.
-/

namespace DeerFlow

open List Option Dict AuditEvent Json

theorem PrincipalType.parse_text (t : PrincipalType) : PrincipalType.parse t.text = some t := by
  cases t <;> rfl

theorem AuditOutcome.parse_text (o : AuditOutcome) : AuditOutcome.parse o.text = some o := by
  cases o <;> rfl

section Fields

variable {d : Dict} {key : String}

theorem Dict.text_eq {s : String} (h : d.get? key = some (.str s)) : d.text key = some s := by
  simp [text, h]

theorem Dict.optText_eq {o : Option String} (h : d.get? key = some (.ofOption o)) :
    d.optText key = some o := by
  cases o <;> simp [optText, h, ofOption]

theorem Dict.subDict_eq {kvs : Dict} (h : d.get? key = some (.obj kvs)) :
    d.subDict key = some kvs := by
  simp [subDict, h]

end Fields

theorem PrincipalRef.ofDict_toJson (p : PrincipalRef) :
    ∃ d, p.toJson = .obj d ∧ PrincipalRef.ofDict d = some p := by
  refine ⟨_, rfl, ?_⟩
  unfold PrincipalRef.ofDict
  rw [text_eq rfl, bind_eq_bind, bind_some, PrincipalType.parse_text,
    text_eq rfl, optText_eq rfl, optText_eq rfl]
  simp only [bind_eq_bind, bind_some]
  rw [dif_pos ⟨p.nonempty, p.userOnly⟩]
  rfl

theorem ResourceRef.ofDict_toJson (r : ResourceRef) :
    ∃ d, r.toJson = .obj d ∧ ResourceRef.ofDict d = some r := by
  refine ⟨_, rfl, ?_⟩
  unfold ResourceRef.ofDict
  rw [text_eq rfl, optText_eq rfl, text_eq rfl, optText_eq rfl,
    subDict_eq rfl]
  simp only [bind_eq_bind, bind_some]
  rw [dif_pos ⟨r.typeNonempty, r.orgNonempty⟩]
  rfl

theorem AuditEvent.readResource_eq {d : Dict} {o : Option ResourceRef}
    (h : d.get? "resource" = some ((o.map ResourceRef.toJson).getD .null)) :
    readResource d = some o := by
  unfold readResource
  rw [h]
  cases o with
  | none => rfl
  | some r =>
    obtain ⟨kvs, hkvs, hr⟩ := r.ofDict_toJson
    simp only [map_some, getD_some, hkvs, hr]

theorem AuditEvent.ofDict_fields (e : AuditEvent) : ofDict e.fields = some e := by
  obtain ⟨actor, hactor, hread⟩ := e.actor.ofDict_toJson
  have h1 : e.fields.optText "schema_version" = some (some e.schemaVersion) := optText_eq rfl
  have h2 : e.fields.text "event_id" = some e.eventId := text_eq rfl
  have h3 : e.fields.text "idempotency_key" = some e.idempotencyKey := text_eq rfl
  have h4 : e.fields.optText "org_id" = some e.orgId := optText_eq rfl
  have h5 : e.fields.optText "workspace_id" = some e.workspaceId := optText_eq rfl
  have h6 : e.fields.subDict "actor" = some actor := subDict_eq (hactor ▸ rfl)
  have h7 : e.fields.text "action" = some e.action := text_eq rfl
  have h8 : readResource e.fields = some e.resource := readResource_eq rfl
  have h9 : e.fields.text "outcome" = some e.outcome.text := text_eq rfl
  have h10 : e.fields.optText "reason_code" = some e.reasonCode := optText_eq rfl
  have h11 : e.fields.text "request_id" = some e.requestId := text_eq rfl
  have h12 : e.fields.optText "trace_id" = some e.traceId := optText_eq rfl
  have h13 : e.fields.optText "run_id" = some e.runId := optText_eq rfl
  have h14 : e.fields.text "occurred_at" = some e.occurredAt := text_eq rfl
  have h15 : e.fields.subDict "payload" = some e.payload := subDict_eq rfl
  unfold ofDict
  simp only [h1, h2, h3, h4, h5, h6, hread, h7, h8, h9, AuditOutcome.parse_text, h10, h11, h12, h13,
    h14, h15, bind_eq_bind, bind_some, getD_some]
  rw [dif_pos ⟨e.nonempty, e.scrubbed⟩]
  rfl

theorem AuditEvent.modelValidateJson_dump (e : AuditEvent) :
    modelValidateJson e.modelDumpJson = some e := by
  unfold modelValidateJson modelDumpJson
  rw [loads_dumps]
  exact e.ofDict_fields

theorem Json.secretFree_obj {kvs : Dict} :
    (obj kvs).SecretFree ↔ ∀ kv ∈ kvs, kv.1 ∉ forbiddenPayloadKeys ∧ kv.2.SecretFree := by
  constructor
  · intro h kv hkv
    exact ⟨fun hkey => h kv.1 hkey (.here hkv), fun key hkey hv => h key hkey (.field hkv hv)⟩
  · intro h key hkey hv
    cases hv with
    | here hkv => exact (h _ hkv).1 hkey
    | field hkv hv => exact (h _ hkv).2 key hkey hv

theorem secretFree_scrubPayload {payload : Dict} : (obj (scrubPayload payload)).SecretFree
      ↔ ∀ kv ∈ payload, kv.1 ∉ forbiddenPayloadKeys → kv.2.SecretFree := by
  rw [secretFree_obj]
  simp only [scrubPayload, mem_filter, decide_eq_true_eq]
  exact ⟨fun h kv hkv hkey => (h kv ⟨hkv, hkey⟩).2, fun h kv hkv => ⟨hkv.2, h kv hkv.1 hkv.2⟩⟩

/-- The row of an event holds no key that bears a secret exactly if the event has none below the top
level of its payload and none in the attributes of its resource. -/
theorem audit_row_secret_free_iff (event : AuditEventRow) :
    ((obj (eventToRow event).payload).SecretFree
      ∧ ∀ attributes, (eventToRow event).resourceAttributes = some attributes →
        (obj attributes).SecretFree)
    ↔ (∀ kv ∈ event.payload, kv.1 ∉ forbiddenPayloadKeys → kv.2.SecretFree)
      ∧ ∀ attributes, event.resourceAttributes = some attributes →
        ∀ kv ∈ attributes, kv.1 ∉ forbiddenPayloadKeys ∧ kv.2.SecretFree := by
  refine and_congr secretFree_scrubPayload ?_
  simp only [eventToRow, secretFree_obj]

/-- An event that passes every check of its own, with a cookie inside a field of the payload and a
key among the attributes of the resource. -/
theorem audit_row_keeps_secrets :
    ∃ e : AuditEvent, (obj (e.toRow none).payload).HasKey "cookie"
      ∧ ∃ attributes, (e.toRow none).resourceAttributes = some attributes
        ∧ (obj attributes).HasKey "api_key" := by
  refine ⟨{
    eventId := "e", idempotencyKey := "k"
    actor := ⟨.system, "s", none, none, by decide, by decide⟩
    action := "iam.key.read"
    resource := some {
      type := "thread", orgId := "o", attributes := [("api_key", .str "x")]
      typeNonempty := by decide, orgNonempty := by decide }
    outcome := .success, requestId := "r", occurredAt := ""
    payload := [("headers", .obj [("cookie", .str "x")])]
    nonempty := by decide, scrubbed := by decide }, ?_, _, rfl, ?_⟩
  · exact .field mem_cons_self (.here mem_cons_self)
  · exact .here mem_cons_self

end DeerFlow

import DeerFlow.Audit.Event
import DeerFlow.Data.Machine

/-!
# The audit outbox

Rows wait in `audit_outbox` until a worker has copied their event to `audit_events`. A worker
releases stale rows, claims a batch, and for each row inserts the event and marks the row, or
records a failure. Each of these is a transaction, and the worker may stop between any two.
-/

namespace DeerFlow

inductive OutboxStatus where
  | pending
  | processing
  | published
  | deadLetter
  deriving DecidableEq

structure OutboxRow where
  eventId : String
  payloadJson : List Char
  orgId : Option String
  status : OutboxStatus := .pending
  attempts : ℕ := 0
  availableAt : ℕ
  updatedAt : ℕ
  ownerToken : Option String := none
  publishedAt : Option ℕ := none
  lastError : Option String := none
  deriving DecidableEq

/-- The row `enqueue_audit_outbox` adds. -/
def AuditEvent.outboxRow (e : AuditEvent) (now : ℕ) : OutboxRow where
  eventId := e.eventId
  payloadJson := e.modelDumpJson
  orgId := e.orgId
  availableAt := now
  updatedAt := now

def backoffFor (attempts : ℕ) : ℕ := if attempts = 0 then 2 else min (2 * 2 ^ (attempts - 1)) 300

def truncateError (error : String) : String := String.ofList (error.toList.take 512)

def deadLetterThreshold : ℕ := 10

namespace OutboxRow

variable (r : OutboxRow)

/-- `release_stale_processing`, on one row. -/
def release (staleAfter now : ℕ) : OutboxRow :=
  if r.status = .processing ∧ r.updatedAt + staleAfter < now then
    { r with status := .pending, ownerToken := none, updatedAt := now }
  else r

def claim (token : String) (now : ℕ) : OutboxRow :=
  { r with status := .processing, ownerToken := some token, updatedAt := now }

/-- `mark_outbox_published`. -/
def publish (now : ℕ) : OutboxRow :=
  { r with status := .published, publishedAt := some now, updatedAt := now, ownerToken := none }

/-- What `mark_outbox_failed` makes of the row it has read. -/
def fail (error : String) (now : ℕ) : OutboxRow :=
  if deadLetterThreshold ≤ r.attempts + 1 then
    { r with
      status := .deadLetter
      attempts := r.attempts + 1
      lastError := some (truncateError error)
      ownerToken := none
      updatedAt := now }
  else
    { r with
      status := .pending
      attempts := r.attempts + 1
      lastError := some (truncateError error)
      availableAt := now + backoffFor (r.attempts + 1)
      ownerToken := none
      updatedAt := now }

/-- The `UPDATE` of a session: the columns that were changed since the row was read. -/
def flush (seen new : OutboxRow) : OutboxRow :=
  { r with
    status := if new.status = seen.status then r.status else new.status
    attempts := if new.attempts = seen.attempts then r.attempts else new.attempts
    availableAt := if new.availableAt = seen.availableAt then r.availableAt else new.availableAt
    updatedAt := if new.updatedAt = seen.updatedAt then r.updatedAt else new.updatedAt
    ownerToken := if new.ownerToken = seen.ownerToken then r.ownerToken else new.ownerToken
    lastError := if new.lastError = seen.lastError then r.lastError else new.lastError }

end OutboxRow

abbrev Outbox := OrdDict String OutboxRow

namespace Outbox

variable (o : Outbox)

/-- `enqueue_audit_outbox`; an id or event that is there already is an `IntegrityError`. -/
def enqueue (id : String) (e : AuditEvent) (now : ℕ) : Outbox :=
  if (o.get? id).isSome || o.values.any (fun r => r.eventId = e.eventId) then o
  else o.set id (e.outboxRow now)

def releaseStale (staleAfter now : ℕ) : Outbox := o.mapValues fun _ r => r.release staleAfter now

def claimable (batchSize now : ℕ) (locked : List String) : List String :=
  let rows := o.entries.filter fun e =>
    e.2.status = .pending && e.2.availableAt ≤ now && e.1 ∉ locked
  ((rows.insertionSort fun a b =>
    a.2.availableAt < b.2.availableAt ∨ a.2.availableAt = b.2.availableAt ∧ a.1 ≤ b.1).take
      batchSize).map Prod.fst

/-- The table after the `UPDATE` of a claim. -/
def claim (ids : List String) (token : String) (now : ℕ) : Outbox :=
  o.mapValues fun id r => if id ∈ ids then r.claim token now else r

def rowsOf (ids : List String) : List (String × OutboxRow) :=
  ids.filterMap fun id => (o.get? id).map fun r => (id, r)

def update (id : String) (f : OutboxRow → OutboxRow) : Outbox :=
  o.mapValues fun k r => if k = id then f r else r

end Outbox

inductive DrainPhase where
  | releasing
  | claiming
  | taking (ids : List String)
  | publishing (rows : List (String × OutboxRow))
  | marking (id : String) (duplicate : Bool) (rows : List (String × OutboxRow))
  | failing (id : String) (error : String) (rows : List (String × OutboxRow))
  | recording (id : String) (seen : OutboxRow) (error : String) (rows : List (String × OutboxRow))
  | done
  deriving DecidableEq

/-- A `drain_audit_outbox` call, or a `mark_outbox_failed` call of its own. -/
structure DrainWorker where
  now : ℕ
  batchSize : ℕ := 50
  token : String := ""
  published : ℕ := 0
  phase : DrainPhase := .releasing

/-- How a transaction ends for the worker: it may commit and the worker still see an error. -/
inductive Fate where
  | runs
  | raises (error : String)
  | commitsThenRaises (error : String)
  deriving DecidableEq

structure AuditDesk where
  outbox : Outbox := .empty
  events : List AuditEventRow := []
  workers : List DrainWorker := []

inductive AuditAct where
  | enqueue (id : String) (e : AuditEvent) (now : ℕ)
  | insert (e : AuditEvent) (producer : Option String)
  | drain (now batchSize : ℕ) (token : String)
  | retry (id : String) (error : String) (now : ℕ)
  | release (staleAfter now : ℕ)
  | step (i : ℕ) (fate : Fate) (locked : List String)
  | crash (i : ℕ)

namespace AuditDesk

variable (s : AuditDesk)

def has (eventId : String) : Bool := s.events.any fun r => r.eventId = eventId

/-- `insert_audit_event`; `event_id` is the primary key. -/
def insertEvent (e : AuditEvent) (producer : Option String) : AuditDesk :=
  if s.has e.eventId then s else { s with events := s.events ++ [e.toRow producer] }

variable (i : ℕ) (w : DrainWorker)

def goto (phase : DrainPhase) : AuditDesk :=
  { s with workers := s.workers.set i { w with phase := phase } }

def count (phase : DrainPhase) : AuditDesk :=
  { s with workers := s.workers.set i { w with phase := phase, published := w.published + 1 } }

def withOutbox (o : Outbox) : AuditDesk := { s with outbox := o }

/-- `release_stale_processing` at the start of a pass; the pass goes on if it fails. -/
def releasing : Fate → AuditDesk
  | .runs | .commitsThenRaises _ =>
    (s.withOutbox (s.outbox.releaseStale 300 w.now)).goto i w .claiming
  | .raises _ => s.goto i w .claiming

/-- `claim_audit_outbox`, its `SELECT`; the pass ends if it fails. -/
def claiming (locked : List String) : Fate → AuditDesk
  | .runs => s.goto i w (.taking (s.outbox.claimable w.batchSize w.now locked))
  | .raises _ | .commitsThenRaises _ => s.goto i w .done

/-- Its `UPDATE` and commit. SQLite has no row locks, so that the rows may have changed. -/
def taking (ids : List String) : Fate → AuditDesk
  | .runs =>
    (s.withOutbox (s.outbox.claim ids w.token w.now)).goto i w
      (.publishing ((s.outbox.claim ids w.token w.now).rowsOf ids))
  | .commitsThenRaises _ => (s.withOutbox (s.outbox.claim ids w.token w.now)).goto i w .done
  | .raises _ => s.goto i w .done

def publishing (id : String) (r : OutboxRow) (rows : List (String × OutboxRow)) (fate : Fate) :
    AuditDesk :=
  match AuditEvent.modelValidateJson r.payloadJson with
  | none => s.goto i w (.failing id "payload undecodable" rows)
  | some e =>
    match fate with
    | .runs =>
      (s.insertEvent e (some "audit-outbox-worker")).goto i w (.marking id (s.has e.eventId) rows)
    | .raises error => s.goto i w (.failing id error rows)
    | .commitsThenRaises error =>
      (s.insertEvent e (some "audit-outbox-worker")).goto i w (.failing id error rows)

/-- `mark_outbox_published`. An error of it ends the pass after an `IntegrityError`, and else fails
the row. -/
def marking (id : String) (duplicate : Bool) (rows : List (String × OutboxRow)) : Fate → AuditDesk
  | .runs =>
    (s.withOutbox (s.outbox.update id fun r => r.publish w.now)).count i w (.publishing rows)
  | .raises error => s.goto i w (if duplicate then .done else .failing id error rows)
  | .commitsThenRaises error =>
    (s.withOutbox (s.outbox.update id fun r => r.publish w.now)).goto i w
      (if duplicate then .done else .failing id error rows)

/-- `mark_outbox_failed`, its `SELECT`; errors are swallowed. -/
def failing (id error : String) (rows : List (String × OutboxRow)) : Fate → AuditDesk
  | .runs =>
    match s.outbox.get? id with
    | none => s.goto i w (.publishing rows)
    | some seen => s.goto i w (.recording id seen error rows)
  | .raises _ | .commitsThenRaises _ => s.goto i w (.publishing rows)

/-- Its `UPDATE` and commit. -/
def recording (id : String) (seen : OutboxRow) (error : String) (rows : List (String × OutboxRow)) :
    Fate → AuditDesk
  | .runs | .commitsThenRaises _ =>
    (s.withOutbox (s.outbox.update id fun r => r.flush seen (seen.fail error w.now))).goto i w
      (.publishing rows)
  | .raises _ => s.goto i w (.publishing rows)

def stepWorker (fate : Fate) (locked : List String) : Option AuditDesk :=
  match w.phase with
  | .releasing => some (s.releasing i w fate)
  | .claiming => some (s.claiming i w locked fate)
  | .taking ids => some (s.taking i w ids fate)
  | .publishing [] => some (s.goto i w .done)
  | .publishing ((id, r) :: rows) => some (s.publishing i w id r rows fate)
  | .marking id duplicate rows => some (s.marking i w id duplicate rows fate)
  | .failing id error rows => some (s.failing i w id error rows fate)
  | .recording id seen error rows => some (s.recording i w id seen error rows fate)
  | .done => none

end AuditDesk

def auditDesk : Machine AuditDesk AuditAct where
  step s
    | .enqueue id e now => some (s.withOutbox (s.outbox.enqueue id e now))
    | .insert e producer => some (s.insertEvent e producer)
    | .drain now batchSize token =>
      some { s with workers := s.workers ++ [⟨now, batchSize, token, 0, .releasing⟩] }
    | .retry id error now =>
      some { s with workers := s.workers ++ [⟨now, 0, "", 0, .failing id error []⟩] }
    | .release staleAfter now => some (s.withOutbox (s.outbox.releaseStale staleAfter now))
    | .step i fate locked => s.workers[i]?.bind fun w => s.stepWorker i w fate locked
    | .crash i => s.workers[i]?.map fun w => s.goto i w .done

end DeerFlow

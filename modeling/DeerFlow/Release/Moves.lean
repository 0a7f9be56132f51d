import DeerFlow.Data.TxCell
import DeerFlow.Release.Idempotency

/-!
# Concurrent promotes and rollbacks

`_orchestrate_idempotent_move` statement by statement, one transaction under READ COMMITTED: it
looks for a replay record, reads or inserts the channel row, checks the target, moves the pointer by
a compare-and-set, inserts the release event, the audit row and the replay record, and commits.
-/

namespace DeerFlow

inductive MoveFailure where
  | release (e : ReleaseError)
  | idempotencyConflict
  | raceLost
  | lost
  deriving DecidableEq

/-- The answer of a request: its own move, the stored response of another one, or an error. -/
inductive MoveAnswer where
  | moved (p : PromoteResponse)
  | replayed (p : PromoteResponse)
  | raised (e : MoveFailure)
  deriving DecidableEq

inductive MovePhase where
  | called
  | selecting
  | inserting
  | checking (ch : ChannelRow)
  | swapping (ch : ChannelRow)
  | recording (p : PromoteResponse)
  | auditing (p : PromoteResponse)
  | keying (p : PromoteResponse)
  | committing (p : PromoteResponse)
  | rereading
  | done (a : MoveAnswer)
  deriving DecidableEq

/-- A promote or rollback with its `Idempotency-Key`, if it has one. -/
structure MoveRequest where
  args : MoveArgs
  key : Option String := none
  phase : MovePhase := .called
  deriving DecidableEq

/-- A committed row of `release_events`, and the request it is from. -/
structure CommittedEvent where
  request : ℕ
  args : MoveArgs
  key : Option String
  event : ReleaseEvent

/-- A committed row of `audit_outbox` for a move. -/
structure CommittedAudit where
  request : ℕ
  args : MoveArgs
  key : Option String
  channelId : String
  fromVersionId : Option VersionId
  toVersionId : VersionId
  rowVersion : ℕ

structure ReleaseDesk where
  versions : VersionId → Option VersionRow := fun _ => none
  channels : ChannelKey → TxCell ℕ (Option ChannelRow) := fun _ => ⟨none, none⟩
  records : String × String → TxCell ℕ (Option IdempotencyRecord) := fun _ => ⟨none, none⟩
  events : List CommittedEvent := []
  audits : List CommittedAudit := []
  requests : List MoveRequest := []

inductive MoveAct where
  | call (args : MoveArgs) (key : Option String)
  | version (id : VersionId) (row : Option VersionRow)
  | step (i : ℕ) (newId : String) (refused : Bool)
  | lose (i : ℕ)

namespace ReleaseDesk

variable (s : ReleaseDesk) (i : ℕ) (r : MoveRequest)

def goto (phase : MovePhase) : ReleaseDesk :=
  { s with requests := s.requests.set i { r with phase := phase } }

def abort (phase : MovePhase) : ReleaseDesk :=
  { s.goto i r phase with
    channels := fun k => (s.channels k).rollback i
    records := fun k => (s.records k).rollback i }

def raise (e : MoveFailure) : ReleaseDesk := s.abort i r (.done (.raised e))

/-- An `IntegrityError`: with a key the request looks again for a record. -/
def integrity : ReleaseDesk :=
  match r.key with
  | none => s.raise i r (.release .integrity)
  | some _ => s.abort i r .rereading

def event (p : PromoteResponse) : CommittedEvent := ⟨i, r.args, r.key, p.event⟩

def audit (p : PromoteResponse) : CommittedAudit :=
  ⟨i, r.args, r.key, p.channel.id, p.event.fromVersionId, p.event.toVersionId, p.channel.rowVersion⟩

def commit (p : PromoteResponse) : ReleaseDesk :=
  { s.goto i r (.done (.moved p)) with
    channels := fun k => (s.channels k).commit i
    records := fun k => (s.records k).commit i
    events := s.events ++ [event i r p]
    audits := s.audits ++ [audit i r p] }

variable (sha256 : List Char → String)

def answer (rec : IdempotencyRecord) : MovePhase :=
  if rec.requestHash = computeRequestHash sha256 r.args then .done (.replayed rec.responsePayload)
  else .done (.raised .idempotencyConflict)

/-- `get_idempotency_record` before any mutation. -/
def lookup : ReleaseDesk :=
  match r.key with
  | none => s.goto i r .selecting
  | some key =>
    if r.args.orgId = "" then s.raise i r (.release .orgRequired)
    else
      match (s.records (r.args.orgId, key)).visible i with
      | some rec => s.goto i r (answer r sha256 rec)
      | none => s.goto i r .selecting

/-- `get_or_create_channel`, its `SELECT`. -/
def select : ReleaseDesk :=
  if r.args.orgId = "" then s.raise i r (.release .orgRequired)
  else
    match (s.channels r.args.key).visible i with
    | some ch => s.goto i r (.checking ch)
    | none => s.goto i r .inserting

/-- The `INSERT` of the channel row. It fails on a committed row with the same key, and waits for
one that is not. -/
def insert (newId : String) (refused : Bool) : Option ReleaseDesk :=
  let ch : ChannelRow := ⟨newId, none, 1, none⟩
  if refused || (s.channels r.args.key).committed.isSome then some (s.integrity i r)
  else
    match (s.channels r.args.key).write i (some ch) with
    | none => none
    | some c =>
      some { s.goto i r (.checking ch) with channels := Function.update s.channels r.args.key c }

def check (ch : ChannelRow) : ReleaseDesk :=
  match r.args.checkTarget (s.versions r.args.targetVersionId) with
  | .error e => s.raise i r (.release e)
  | .ok () => s.goto i r (.swapping ch)

/-- `_cas_update_channel`. A row that does not match is not waited for. `session.get` gives the row of
the `SELECT` back, which the `UPDATE` changes in the session only where its version is the expected
one. -/
def swap (ch : ChannelRow) (newId : String) : Option ReleaseDesk :=
  match (s.channels r.args.key).visible i with
  | none => some (s.raise i r (.release (.conflict ch.id r.args.expectedChannelVersion)))
  | some row =>
    match casUpdateChannel row r.args with
    | .error e => some (s.raise i r (.release e))
    | .ok row' =>
      match (s.channels r.args.key).write i (some row') with
      | none => none
      | some c =>
        let got := if (ch.rowVersion : ℤ) = r.args.expectedChannelVersion then row' else ch
        some { s.goto i r (.recording ⟨got, r.args.event newId row'.id ch.currentVersionId⟩) with
          channels := Function.update s.channels r.args.key c }

/-- The `INSERT` of the replay record. -/
def insertRecord (key : String) (p : PromoteResponse) : Option ReleaseDesk :=
  if (s.records (r.args.orgId, key)).committed.isSome then some (s.integrity i r)
  else
    match (s.records (r.args.orgId, key)).write i
        (some ⟨computeRequestHash sha256 r.args, p, 200⟩) with
    | none => none
    | some c =>
      some { s.goto i r (.committing p) with
        records := Function.update s.records (r.args.orgId, key) c }

/-- `resolve_idempotency_outcome`, on a session of its own. -/
def reread (key : String) : ReleaseDesk :=
  match (s.records (r.args.orgId, key)).committed with
  | some rec => s.goto i r (answer r sha256 rec)
  | none => s.goto i r (.done (.raised .raceLost))

/-- One statement of request `i`; `none` where it waits or is over. `refused` is a constraint
outside the model. -/
def stepRequest (newId : String) (refused : Bool) : Option ReleaseDesk :=
  match r.phase with
  | .called => some (s.lookup i r sha256)
  | .selecting => some (s.select i r)
  | .inserting => s.insert i r newId refused
  | .checking ch => some (s.check i r ch)
  | .swapping ch => s.swap i r ch newId
  | .recording p => some (if refused then s.integrity i r else s.goto i r (.auditing p))
  | .auditing p =>
    some (if refused then s.integrity i r
      else s.goto i r (if r.key.isSome then .keying p else .committing p))
  | .keying p =>
    match r.key with
    | some key => if refused then some (s.integrity i r) else s.insertRecord i r sha256 key p
    | none => none
  | .committing p => some (s.commit i r p)
  | .rereading => r.key.map fun key => s.reread i r sha256 key
  | .done _ => none

end ReleaseDesk

def releaseMoves (sha256 : List Char → String) : Machine ReleaseDesk MoveAct where
  step s
    | .call args key => some { s with requests := s.requests ++ [⟨args, key, .called⟩] }
    | .version id row => some { s with versions := Function.update s.versions id row }
    | .step i newId refused => s.requests[i]?.bind fun r => s.stepRequest i r sha256 newId refused
    | .lose i => s.requests[i]?.bind fun r =>
        match r.phase with
        | .done _ => none
        | _ => some (s.raise i r .lost)

end DeerFlow

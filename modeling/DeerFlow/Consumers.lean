import DeerFlow.Data.Machine
import DeerFlow.Manager

/-!
# The consumers of a run

`sse_consumer` and `wait_for_run_completion` follow the stream of a run for a client, on the record
they were given: the record object of their replica, or a copy that `RunManager.get` made of a row.
The runs move the statuses of records and rows at any time.
-/

namespace DeerFlow

inductive ConsumerKind where
  | sse
  | wait

/-- What `bridge.subscribe` yields. -/
inductive BridgeEntry where
  | heartbeat
  | event
  | end

/-- What a consumer wakes up for. `authorized` is false where a due re-validation is denied;
`closed` is any other end of the loop. -/
inductive ConsumerEvent where
  | entry (e : BridgeEntry) (disconnected authorized : Bool)
  | closed

namespace ConsumerKind

/-- Whether the loop is left at an event, and if so whether `END_SENTINEL` was seen. -/
def leaves : ConsumerKind → ConsumerEvent → Option Bool
  | _, .closed => some false
  | sse, .entry e disconnected authorized =>
    if disconnected then some false
    else
      match e with
      | .end => some true
      | _ => if authorized then none else some false
  | wait, .entry e disconnected _ =>
    match e with
    | .end => some true
    | _ => if disconnected then some false else none

/-- Whether the `finally` block calls `run_mgr.cancel`. -/
def finallyCancels (completed : Bool) (x : RunRecord) : ConsumerKind → Bool
  | sse => x.status.inflight && x.onDisconnect = .cancel
  | wait => !completed && x.status.inflight && x.onDisconnect = .cancel

end ConsumerKind

/-- The record of a consumer: the object its replica has, or a copy of its own. -/
inductive HeldRecord where
  | own
  | hydrated (x : RunRecord)

def HeldRecord.record? (w : World) (ρ : ReplicaId) (r : RunId) : HeldRecord → Option RunRecord
  | own => w.record? ρ r
  | hydrated x => some x

structure Consumer where
  kind : ConsumerKind
  replica : ReplicaId
  runId : RunId
  held : HeldRecord

/-- `join_run`, and `stream_existing_run`, which may be asked to cancel the run first. -/
inductive Endpoint where
  | join
  | stream (action : Option String)
  deriving DecidableEq

/-- Whether the endpoint follows the record; `passes` is the release gate, or the answer of
`cancel`. -/
def Endpoint.follows (crossReplica passes : Bool) (t : ThreadId) (x : RunRecord) : Endpoint → Bool
  | stream (some _) => x.threadId = t && passes
  | _ => x.threadId = t && (!x.storeOnly || crossReplica) && passes

/-- A `RunManager.get` that did not find the run in memory; `row` is what the store answered. -/
structure Lookup where
  endpoint : Endpoint
  replica : ReplicaId
  threadId : ThreadId
  runId : RunId
  row : Option (Option RunRow) := none

/-- What `get` returns after its second look at the memory. -/
def Lookup.found (w : World) (k : Lookup) (row : Option RunRow) : Option (HeldRecord × RunRecord) :=
  match (w.managers k.replica).get? k.runId with
  | some x => some (.own, x)
  | none => row.map fun y => (.hydrated y.recordFromStore, y.recordFromStore)

/-- The replicas with their endpoints; `cancels` are the calls of `run_mgr.cancel` that consumers
made. -/
structure Gateway where
  world : World := {}
  lookups : List Lookup := []
  consumers : List Consumer := []
  cancels : List (ReplicaId × RunId) := []

inductive GatewayAct where
  | create (ρ : ReplicaId) (a : CreateArgs)
  | persist (ρ : ReplicaId) (r : RunId) (error : Option String)
  | retire (ρ : ReplicaId) (r : RunId)
  | recordStatus (ρ : ReplicaId) (r : RunId) (status : RunStatus)
  | rowStatus (r : RunId) (status : RunStatus)
  | follow (kind : ConsumerKind) (ρ : ReplicaId) (r : RunId)
  | look (e : Endpoint) (ρ : ReplicaId) (t : ThreadId) (r : RunId) (passes : Bool)
  | read (l : ℕ)
  | settle (l : ℕ) (passes : Bool)
  | wake (c : ℕ) (ev : ConsumerEvent)

namespace Gateway

variable (s : Gateway)

/-- The endpoint goes on with what `get` found: it follows the run or answers with an error. -/
def proceed (crossReplica passes : Bool) (k : Lookup) (found : Option (HeldRecord × RunRecord)) :
    Gateway :=
  match found with
  | none => s
  | some (held, x) =>
    if k.endpoint.follows crossReplica passes k.threadId x then
      { s with consumers := s.consumers ++ [⟨.sse, k.replica, k.runId, held⟩] }
    else s

/-- The `finally` block of a consumer that leaves its loop. -/
def leave (c : Consumer) (completed : Bool) : Gateway :=
  match c.held.record? s.world c.replica c.runId with
  | none => s
  | some x =>
    if c.kind.finallyCancels completed x then
      { s with cancels := s.cancels ++ [(c.replica, c.runId)] }
    else s

end Gateway

/-- `create`, `persist` and `retire` are sections of the calls that make a run and take it out
again, `follow` is what the creator's endpoint opens. -/
def gateway (crossReplica : Bool) : Machine Gateway GatewayAct where
  step s
    | .create ρ a =>
      let m := (s.world.managers ρ).register (a.record s.world.now)
      some { s with world := s.world.setManager ρ m }
    | .persist ρ r error => (s.world.record? ρ r).map fun x =>
      { s with world := s.world.put r (x.storePutPayload error) }
    | .retire ρ r => (s.world.record? ρ r).map fun x =>
      let m := ((s.world.managers ρ).popRun r).unindexRunLocked r x.threadId
      { s with world := s.world.setManager ρ m }
    | .recordStatus ρ r status =>
      some { s with world := s.world.updateRecord ρ r fun x => { x with status := status } }
    | .rowStatus r status => some { s with world := (s.world.updateStatus r status none none).1 }
    | .follow kind ρ r => (s.world.record? ρ r).map fun _ =>
      { s with consumers := s.consumers ++ [⟨kind, ρ, r, .own⟩] }
    | .look e ρ t r passes =>
      match (s.world.managers ρ).get? r with
      | some x => some (s.proceed crossReplica passes ⟨e, ρ, t, r, none⟩ (some (.own, x)))
      | none =>
        if (s.world.managers ρ).hasStore then
          some { s with lookups := s.lookups ++ [⟨e, ρ, t, r, none⟩] }
        else some s
    | .read l => s.lookups[l]?.map fun k =>
      { s with lookups := s.lookups.set l { k with row := some (s.world.row? k.runId) } }
    | .settle l passes => (s.lookups[l]?).bind fun k => k.row.map fun row =>
      { s with lookups := s.lookups.eraseIdx l }.proceed crossReplica passes k (k.found s.world row)
    | .wake c ev => (s.consumers[c]?).map fun x =>
      match x.kind.leaves ev with
      | none => s
      | some completed => { s with consumers := s.consumers.eraseIdx c }.leave x completed

end DeerFlow

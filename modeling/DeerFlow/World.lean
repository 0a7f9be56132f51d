import DeerFlow.Coop.Rely
import DeerFlow.Types
import Mathlib.Data.List.Sort
import Mathlib.Logic.Function.Basic

/-!
# The shared state and its operations

`World` is what the tasks of all replicas share: the `runs` table, the lease keys, the stream
bridge, the checkpoints, and each replica's `RunManager`. `Op` lists what a coroutine awaits,
`Op.effect` what an operation does when it goes through, and `execOp` adds that it raises or is
cancelled, with the effect done or not.
-/

namespace DeerFlow

open Coop

/-- `heap` holds the record objects, also those no longer in `_runs` that a task still refers to;
`runs` are the keys of `_runs`, `runsByThread` is `_runs_by_thread`. -/
structure RunManager where
  hasStore : Bool := true
  hasNotifier : Bool := false
  lock : Option ℕ := none
  heap : RunId → Option RunRecord := fun _ => none
  runs : List RunId := []
  runsByThread : OrdDict ThreadId (List RunId) := .empty

/-- What `logger` was told about a rollback. -/
inductive LogLine where
  | noCheckpointer
  | skippedCaptureFailed
  | resetToEmpty
  | skippedInvalidSnapshot
  | skippedNoCheckpointId
  | rollbackFailed
  | rolledBack

/-- The state all tasks share; `ended` are the runs `publish_end` was called for. -/
structure World where
  now : ℕ := 0
  rows : OrdDict RunId RunRow := .empty
  managers : ReplicaId → RunManager := fun _ => {}
  redis : String → Option (ClaimRecord × ℕ) := fun _ => none
  tokens : ℕ := 0
  published : List (RunId × String) := []
  ended : List RunId := []
  checkpoints : ThreadId → List StoredCheckpoint := fun _ => []
  frames : RunId → Frame := fun _ => {}
  leaseStop : RunId → Bool := fun _ => false
  log : List (RunId × LogLine) := []

inductive Op where
  | start
  | sleep
  | acquire (ρ : ReplicaId)
  | put (r : RunId) (p : PutPayload)
  | get (r : RunId)
  | updateStatus (r : RunId) (status : RunStatus) (error : Option String) (expected : Option ℕ)
  | updateRunCompletion (r : RunId) (status : RunStatus) (c : Completion) (error : Option String)
      (expected : Option ℕ)
  | requestCancel (r : RunId) (action : String)
  | getCancelIntent (r : RunId)
  | listInflight (before : Option ℕ)
  | updateModelName (r : RunId) (name : Option String)
  | notify (r : RunId) (action : String)
  | putEvent (r : RunId) (outcome reason : String)
  | waitTasks (ρ : ReplicaId) (rs : List RunId)
  | gather (rs : List RunId)
  | redisSetNx (key : String) (value : ClaimRecord) (ttl : ℕ)
  | redisGet (key : String)
  | redisRenew (key : String) (token : ℕ) (ttl : ℕ) (expires : ℕ)
  | redisRelease (key : String) (token : ℕ)
  | publish (r : RunId) (event : String)
  | publishEnd (r : RunId)
  | agetTuple (t : ThreadId)
  | aput (t : ThreadId) (ns : String) (c : Checkpoint) (metadata : Json)
  | aputWrites (t : ThreadId) (ns : String) (id : ℕ) (task : String) (ws : List (String × Json))
  | adeleteThread (t : ThreadId)
  | anext (r : RunId) (t : ThreadId)
  | joinHeartbeat (r : RunId)
  | waitStop (r : RunId)
  | flushJournal (r : RunId)
  | checkAccess (t : ThreadId) (user : String)
  | resolveRelease (agent : String)
  | threadGet (t : ThreadId) (tenantScoped : Bool)
  | threadWrite (t : ThreadId) (what : String)

abbrev Op.Res : Op → Type
  | .get _ => Option RunRow
  | .updateStatus .. => Bool
  | .updateRunCompletion .. => Bool
  | .requestCancel .. => Bool
  | .getCancelIntent _ => Option (Bool × Option String)
  | .listInflight _ => List RunRow
  | .waitTasks .. => List RunId
  | .redisSetNx .. => Bool
  | .redisGet _ => Option ClaimRecord
  | .redisRenew .. => Bool
  | .redisRelease .. => Bool
  | .agetTuple _ => Option StoredCheckpoint
  | .aput .. => ℕ
  | .anext .. => Option StreamItem
  | .checkAccess .. => Bool
  | .threadGet .. => Option String
  | _ => Unit

/-- What the outside world answers an operation whose result this state does not determine. -/
inductive Answer where
  | unit
  | flag (b : Bool)
  | found (user : Option String)
  | item (i : Option StreamItem) (ws : List GraphWrite)

/-- An operation goes through, raises with its effect done (with an answer) or not, or is cancelled
before it. -/
inductive Outcome where
  | ok (a : Answer := .unit)
  | raised (e : Exc) (applied : Option Answer := none)
  | cancelled

inductive Call where
  | createOrReject (ρ : ReplicaId) (a : CreateArgs)
  | setStatus (ρ : ReplicaId) (r : RunId) (status : RunStatus) (error : Option String)
  | cancel (ρ : ReplicaId) (r : RunId) (action : String)
  | updateRunCompletion (ρ : ReplicaId) (r : RunId) (status : RunStatus) (c : Completion)
      (error : Option String) (expected : Option ℕ)
  | reconcile (ρ : ReplicaId) (error : String) (before : Option ℕ) (lease : LeaseBackend)
      (events : Bool)
  | shutdown (ρ : ReplicaId) (timeout : ℕ)
  | persistInterrupted (ρ : ReplicaId) (r : RunId)
  | cleanup (ρ : ReplicaId) (r : RunId) (delay : ℕ)
  | claim (org : String) (r : RunId) (workerId workerVersion : String) (ttl : ℕ)
  | renew (org : String) (c : ClaimRecord) (ttl : ℕ)
  | release (org : String) (c : ClaimRecord)
  | getHolder (org : String) (r : RunId)
  | startRun (ρ : ReplicaId) (q : StartRequest)
  | runAgent (ρ : ReplicaId) (r : RunId) (x : ExecRequest)
  | heartbeat (ρ : ReplicaId) (r : RunId) (org : String) (c : ClaimRecord) (beats : ℕ)

inductive Reply where
  | unit
  | bool (b : Bool)
  | run (r : RunId)
  | runs (rs : List RunId)
  | claim (c : ClaimResult)
  | holder (c : Option ClaimRecord)

abbrev runSig : Sig where
  Op := Op
  Res := Op.Res
  Exc := Exc
  Label := Call
  cancelled := .cancelled

abbrev Co (α : Type) := Coro World runSig α

abbrev awaitOp (op : Op) : Co op.Res := @Coro.perform World runSig op

namespace World

def setManager (w : World) (ρ : ReplicaId) (m : RunManager) : World :=
  { w with managers := Function.update w.managers ρ m }

def record? (w : World) (ρ : ReplicaId) (r : RunId) : Option RunRecord := (w.managers ρ).heap r

def updateRecord (w : World) (ρ : ReplicaId) (r : RunId) (f : RunRecord → RunRecord) : World :=
  w.setManager ρ { w.managers ρ with
    heap := fun r' => if r' = r then ((w.managers ρ).heap r).map f else (w.managers ρ).heap r' }

def setRow (w : World) (r : RunId) (x : RunRow) : World := { w with rows := w.rows.set r x }

def row? (w : World) (r : RunId) : Option RunRow := w.rows.get? r

def lease? (w : World) (key : String) : Option ClaimRecord :=
  match w.redis key with
  | some (c, deadline) => if w.now < deadline then some c else none
  | none => none

def latest (w : World) (t : ThreadId) : Option StoredCheckpoint :=
  (w.checkpoints t).reverse.find? fun c => c.ns = ""

def addLog (w : World) (r : RunId) (l : LogLine) : World := { w with log := w.log ++ [(r, l)] }

end World

section Store

variable (w : World)

/-- `RunRepository.put`: insert, or update the columns that are not insert-only. -/
def World.put (r : RunId) (p : PutPayload) : World :=
  match w.row? r with
  | none => w.setRow r
      { runId := r, threadId := p.threadId, assistantId := p.assistantId, orgId := p.orgId
        status := p.status, multitaskStrategy := p.multitaskStrategy, error := p.error
        createdAt := p.createdAt, updatedAt := w.now }
  | some x => w.setRow r
      { x with
        threadId := p.threadId, assistantId := p.assistantId, status := p.status
        multitaskStrategy := p.multitaskStrategy, error := p.error, updatedAt := w.now }

/-- `UPDATE runs ... WHERE run_id = r [AND row_version = v]`: the row if it matches. -/
def World.matchRow (r : RunId) (expected : Option ℕ) : Option RunRow :=
  match w.row? r with
  | none => none
  | some x =>
    match expected with
    | none => some x
    | some v => if x.rowVersion = v then some x else none

def nextVersion (expected : Option ℕ) (x : RunRow) : ℕ :=
  if expected.isSome then x.rowVersion + 1 else x.rowVersion

def World.updateStatus (r : RunId) (status : RunStatus) (error : Option String)
    (expected : Option ℕ) : World × Bool :=
  match w.matchRow r expected with
  | none => (w, false)
  | some x =>
    (w.setRow r { x with
      status := status, error := error.or x.error, updatedAt := w.now
      rowVersion := nextVersion expected x }, true)

def World.updateRunCompletion (r : RunId) (status : RunStatus) (c : Completion)
    (error : Option String) (expected : Option ℕ) : World × Bool :=
  match w.matchRow r expected with
  | none => (w, false)
  | some x =>
    (w.setRow r { x with
      status := status
      completion := { c with
        lastAiMessage := (c.lastAiMessage.map (·.take 2000 |>.toString)).or x.completion.lastAiMessage
        firstHumanMessage :=
          (c.firstHumanMessage.map (·.take 2000 |>.toString)).or x.completion.firstHumanMessage }
      error := error.or x.error, updatedAt := w.now
      rowVersion := nextVersion expected x }, true)

/-- `RunRepository.request_cancel`: the intent lands on an active run that has none. -/
def World.requestCancel (r : RunId) (action : String) : World × Bool :=
  match w.row? r with
  | none => (w, false)
  | some x =>
    if x.status.inflight && !x.cancelRequested then
      (w.setRow r { x with
        cancelRequested := true, cancelAction := some action, cancelRequestedAt := some w.now }, true)
    else (w, false)

def World.listInflight (before : Option ℕ) : List RunRow :=
  (w.rows.values.filter fun x => x.status.inflight && x.createdAt ≤ before.getD w.now).insertionSort
    fun x y => x.createdAt ≤ y.createdAt

end Store

section Redis

variable (w : World)

def seconds (n : ℕ) : ℕ := n * 1000000

def World.setLease (key : String) (v : Option (ClaimRecord × ℕ)) : World :=
  { w with redis := Function.update w.redis key v }

/-- `SET key value NX EX ttl`. -/
def World.redisSetNx (key : String) (value : ClaimRecord) (ttl : ℕ) : World × Bool :=
  match w.lease? key with
  | some _ => (w, false)
  | none => (w.setLease key (some (value, w.now + seconds ttl)), true)

/-- `_RENEW_SCRIPT`. -/
def World.redisRenew (key : String) (token ttl expires : ℕ) : World × Bool :=
  match w.lease? key with
  | none => (w, false)
  | some c =>
    if c.leaseToken = token then
      (w.setLease key (some ({ c with leaseExpiresAt := expires }, w.now + seconds ttl)), true)
    else (w, false)

/-- `_RELEASE_SCRIPT`. -/
def World.redisRelease (key : String) (token : ℕ) : World × Bool :=
  match w.lease? key with
  | none => (w, false)
  | some c => if c.leaseToken = token then (w.setLease key none, true) else (w, false)

end Redis

def addWrites (ns : String) (id : ℕ) (ws : List PendingWrite) (c : StoredCheckpoint) :
    StoredCheckpoint :=
  if c.ns = ns ∧ c.id = id then { c with pendingWrites := c.pendingWrites ++ ws } else c

def GraphWrite.apply (cs : List StoredCheckpoint) : GraphWrite → List StoredCheckpoint
  | .put c => cs ++ [c]
  | .writes ns id ws => cs.map (addWrites ns id ws)

def World.setCheckpoints (w : World) (t : ThreadId) (cs : List StoredCheckpoint) : World :=
  { w with checkpoints := Function.update w.checkpoints t cs }

/-- What an operation of task `i` does when it goes through; `none` while it blocks. -/
def Op.effect (i : ℕ) : (op : Op) → Answer → World → Option (World × op.Res)
  | .start, .unit, w => some (w, ())
  | .sleep, .unit, w => some (w, ())
  | .acquire ρ, .unit, w =>
    if (w.managers ρ).lock = none then
      some (w.setManager ρ { w.managers ρ with lock := some i }, ())
    else none
  | .put r p, .unit, w => some (w.put r p, ())
  | .get r, .unit, w => some (w, w.row? r)
  | .updateStatus r st e v, .unit, w => some (w.updateStatus r st e v)
  | .updateRunCompletion r st c e v, .unit, w => some (w.updateRunCompletion r st c e v)
  | .requestCancel r a, .unit, w => some (w.requestCancel r a)
  | .getCancelIntent r, .unit, w =>
    some (w, (w.row? r).map fun x => (x.cancelRequested, x.cancelAction))
  | .listInflight b, .unit, w => some (w, w.listInflight b)
  | .updateModelName .., .unit, w => some (w, ())
  | .notify .., .unit, w => some (w, ())
  | .putEvent .., .unit, w => some (w, ())
  | .waitTasks ρ rs, .unit, w =>
    some (w, rs.filter fun r => ((w.record? ρ r).map RunRecord.taskActive).getD false)
  | .gather _, .unit, w => some (w, ())
  | .redisSetNx k v ttl, .unit, w => some (w.redisSetNx k v ttl)
  | .redisGet k, .unit, w => some (w, w.lease? k)
  | .redisRenew k tok ttl ex, .unit, w => some (w.redisRenew k tok ttl ex)
  | .redisRelease k tok, .unit, w => some (w.redisRelease k tok)
  | .publish r ev, .unit, w => some ({ w with published := w.published ++ [(r, ev)] }, ())
  | .publishEnd _, .unit, w => some (w, ())
  | .agetTuple t, .unit, w => some (w, w.latest t)
  | .aput t ns c md, .unit, w =>
    some (w.setCheckpoints t (w.checkpoints t ++ [⟨ns, c.id.getD 0, some c, some md, []⟩]), c.id.getD 0)
  | .aputWrites t ns id task ws, .unit, w =>
    some (w.setCheckpoints t ((w.checkpoints t).map
      (addWrites ns id (ws.map fun x => .write task x.1 x.2))), ())
  | .adeleteThread t, .unit, w => some (w.setCheckpoints t [], ())
  | .anext _ t, .item x ws, w =>
    some (w.setCheckpoints t (ws.foldl GraphWrite.apply (w.checkpoints t)), x)
  | .joinHeartbeat _, .unit, w => some (w, ())
  | .waitStop _, .unit, w => some (w, ())
  | .flushJournal _, .unit, w => some (w, ())
  | .checkAccess .., .flag b, w => some (w, b)
  | .resolveRelease _, .unit, w => some (w, ())
  | .threadGet .., .found u, w => some (w, u)
  | .threadWrite .., .unit, w => some (w, ())
  | _, _, _ => none

def Op.canRaise : Op → Bool
  | .start | .sleep | .acquire _ | .waitTasks .. | .waitStop _ => false
  | _ => true

namespace Call

/-- A cancellation is on its way: by `task.cancel()` for the task of a run, by whoever made the call
for the others. -/
def mustCancel (w : World) : Call → Bool
  | runAgent ρ r _ => ((w.record? ρ r).bind fun x => x.task.map TaskHandle.mustCancel).getD false
  | _ => true

def clearCancel (w : World) : Call → World
  | runAgent ρ r _ => w.updateRecord ρ r fun x =>
      { x with task := x.task.map fun t => { t with mustCancel := false } }
  | _ => w

/-- A task of a run is resumed with the cancellation it was sent; any other call may be cancelled by
its caller. -/
def interrupt (l : Call) (c : Bool) (w : World) : Option World :=
  match l, c with
  | runAgent .., false => if l.mustCancel w then none else some w
  | _, false => some w
  | _, true => if l.mustCancel w then some (l.clearCancel w) else none

end Call

def World.unlock (w : World) (ρ : ReplicaId) : World :=
  w.setManager ρ { w.managers ρ with lock := none }

/-- Resume a task with a result or a cancellation. A task cancelled as the lock was handed to it
does not take it. -/
def deliverOp (l : Call) : (op : Op) → Except Exc op.Res → Bool → World → Option World
  | .acquire ρ, .ok _, true, w => (l.interrupt true w).map fun w => w.unlock ρ
  | _, _, c, w => l.interrupt c w

/-- One way an operation of task `i`, which runs `l`, can end. -/
def execOp (i : ℕ) (l : Call) (op : Op) (o : Outcome) (w : World) :
    Option (World × Except Exc op.Res) :=
  match o with
  | .ok a => (op.effect i a w).map fun q => (q.1, .ok q.2)
  | .raised e none => if op.canRaise && e.isException then some (w, .error e) else none
  | .raised e (some a) =>
    if op.canRaise && e.isException then (op.effect i a w).map fun q => (q.1, .error e) else none
  | .cancelled => if l.mustCancel w then some (l.clearCancel w, .error .cancelled) else none

/-- Time passes, the task of a run is made and ends, workers outside the pool write lease keys. -/
inductive EnvEvent where
  | tick (d : ℕ)
  | attachTask (ρ : ReplicaId) (r : RunId)
  | settleTask (ρ : ReplicaId) (r : RunId) (cancelled : Bool)
  | writeLease (key : String) (v : Option (ClaimRecord × ℕ))

def EnvEvent.apply (w : World) : EnvEvent → World
  | tick d => { w with now := w.now + d }
  | attachTask ρ r => w.updateRecord ρ r fun x => { x with task := some {} }
  | settleTask ρ r c => w.updateRecord ρ r fun x =>
      { x with task := x.task.map fun t => { t with done := true, cancelled := c } }
  | writeLease k v => w.setLease k v

end DeerFlow

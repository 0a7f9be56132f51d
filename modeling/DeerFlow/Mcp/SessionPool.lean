import DeerFlow.Data.Machine
import DeerFlow.Data.OrdDict

/-!
# The pool of MCP sessions

`MCPSessionPool` with the tasks that own its sessions, the calls of `get_session` and of the
`close_*` functions, and the shutdowns scheduled on other loops. A step goes from one `await` to the
next. An error is known by a number, a task, a call or a shutdown by its place in its list.
-/

namespace DeerFlow

/-- Where `_run_session` is. -/
inductive OwnerPhase where
  | created
  /-- It awaits `cm.__aenter__()`. -/
  | entering
  | initializing
  /-- It awaits `close_evt`. -/
  | waiting
  /-- It awaits `cm.__aexit__()`. -/
  | exiting
  | finished
  deriving DecidableEq

/-- The future `ready`; `cancelled` is a `CancelledError` that was set as its exception. -/
inductive Ready where
  | pending
  | session
  | failed (error : ℕ)
  | cancelled
  deriving DecidableEq

structure Owner where
  loop : ℕ
  phase : OwnerPhase := .created
  ready : Ready := .pending
  /-- `close_evt` is set. -/
  closed : Bool := false
  /-- `close_evt.set` is scheduled on the loop. -/
  closeScheduled : Bool := false
  /-- Someone has set `close_evt`, or scheduled that or a shutdown on the loop. -/
  signalled : Bool := false
  /-- `CancelledError` is thrown when the task goes on. -/
  cancelling : Bool := false
  /-- `task.cancel()` was called. -/
  cancelled : Bool := false
  /-- The tasks that entered the context manager, and those that exited it. -/
  enteredBy : List ℕ := []
  exitedBy : List ℕ := []
  deriving DecidableEq

inductive OwnerReply where
  | ok
  | error (e : ℕ)
  deriving DecidableEq

namespace Owner

variable (o : Owner)

def closeEvt : Owner := { o with closed := true, signalled := true }

def scheduleClose : Owner := { o with closeScheduled := true, signalled := true }

/-- `task.cancel()`; a task that is done is not cancelled. -/
def cancelTask : Owner :=
  if o.phase = .finished then o else { o with cancelling := true, cancelled := true }

/-- `if not ready.done(): ...`. -/
def complete (ready : Ready) : Owner := if o.ready = .pending then { o with ready } else o

def exit (k : ℕ) : Owner := { o with phase := .exiting, exitedBy := o.exitedBy ++ [k] }

def calm : Owner := { o with cancelling := false }

/-- `_run_session`, task number `k`, goes on. -/
def step (k : ℕ) (reply : OwnerReply) : Option Owner :=
  match o.phase, o.cancelling, reply with
  -- A task that is cancelled before it starts never runs.
  | .created, true, _ => some { o.calm with phase := .finished }
  | .created, false, _ => some { o.calm with phase := .entering }
  | .entering, true, _ => some { o.calm.complete .cancelled with phase := .finished }
  | .entering, false, .ok =>
    some { o.calm with phase := .initializing, enteredBy := o.enteredBy ++ [k] }
  | .entering, false, .error e => some { o.calm.complete (.failed e) with phase := .finished }
  | .initializing, true, _ => some ((o.calm.complete .cancelled).exit k)
  | .initializing, false, .ok =>
    some (if o.closed then (o.calm.complete .session).exit k
      else { o.calm.complete .session with phase := .waiting })
  | .initializing, false, .error e => some ((o.calm.complete (.failed e)).exit k)
  | .waiting, true, _ => some (o.calm.exit k)
  | .waiting, false, _ => if o.closed then some (o.calm.exit k) else none
  | .exiting, _, _ => some { o.calm with phase := .finished }
  | .finished, _, _ => none

end Owner

abbrev SessionKey := String × String

/-- What a call awaits while it shuts owners down: a task, or a shutdown on another loop. -/
inductive ShutWait where
  | task (k : ℕ)
  | job (j : ℕ)
  deriving DecidableEq

/-- What a call does once the owners it has taken out are shut down. -/
inductive ShutNext where
  | join (k : ℕ)
  | create (key : SessionKey) (k : ℕ)
  | closed
  deriving DecidableEq

/-- Where a call is; `raised` has the owner it waited for, and `none` for a `CancelledError`. -/
inductive PoolPhase where
  | shutting (wait : ShutWait) (todo : List (ℕ × Bool)) (next : ShutNext)
  | joining (k : ℕ)
  | awaiting (key : SessionKey) (k : ℕ)
  /-- The owner has failed, or was cancelled with the call, and is waited for. -/
  | unwinding (key : SessionKey) (k : ℕ) (error : Option ℕ)
  /-- The record of the creation is gone, and the owner is waited for. -/
  | tearing (k : ℕ)
  | returned (k : ℕ)
  | raised (k : ℕ) (error : Option ℕ)
  /-- A `CancelledError` in the middle of a shutdown. -/
  | interrupted
  | closed
  deriving DecidableEq

inductive JobPhase where
  | scheduled
  | waiting
  | finished
  deriving DecidableEq

/-- A `_shutdown` of an owner that a call has scheduled on the loop of the owner. -/
structure ShutJob where
  owner : ℕ
  cancel : Bool
  phase : JobPhase := .scheduled
  cancelling : Bool := false
  deriving DecidableEq

abbrev SessionRecords := OrdDict SessionKey ℕ

/-- `_entries`, the one used last at the end, and `_inflight`, with the owners and the shutdowns. -/
structure SessionRegistry where
  owners : List Owner := []
  entries : SessionRecords := OrdDict.empty
  inflight : SessionRecords := OrdDict.empty
  jobs : List ShutJob := []

def maxSessions : ℕ := 256

def ownersOf (es : List (SessionKey × ℕ)) (cancel : Bool) : List (ℕ × Bool) :=
  es.map fun e => (e.2, cancel)

/-- The entries that go while there are `MAX_SESSIONS` of them, the oldest first. -/
def oldestEntries (d : SessionRecords) : List (SessionKey × ℕ) :=
  d.entries.take (d.entries.length + 1 - maxSessions)

namespace SessionRegistry

variable (r : SessionRegistry)

def modifyOwner (k : ℕ) (f : Owner → Owner) : SessionRegistry :=
  { r with owners := r.owners.modify k f }

def isFinished (k : ℕ) : Bool := r.owners[k]?.all fun o => o.phase = .finished

def isOn (k loop : ℕ) : Bool := r.owners[k]?.any fun o => o.loop = loop

def ready (k : ℕ) : Ready := (r.owners[k]?.map Owner.ready).getD .pending

/-- `_shutdown` up to its `await`. -/
def shutdown (k : ℕ) (cancel : Bool) : SessionRegistry :=
  if cancel then (r.modifyOwner k Owner.closeEvt).modifyOwner k Owner.cancelTask
  else r.modifyOwner k Owner.closeEvt

/-- The loop over the owners taken out, up to its next `await`. `close_*` shuts every owner down on
its loop, `get_session` only signals the initialized ones of another loop. -/
def shut (loop : ℕ) (next : ShutNext) :
    List (ℕ × Bool) → SessionRegistry → SessionRegistry × Option (ShutWait × List (ℕ × Bool))
  | [], r => (r, none)
  | (k, cancel) :: todo, r =>
    if r.isOn k loop then
      let r := r.shutdown k cancel
      if r.isFinished k then shut loop next todo r else (r, some (.task k, todo))
    else if cancel || next = .closed then
      ({ r.modifyOwner k (fun o => { o with signalled := true }) with
          jobs := r.jobs ++ [{ owner := k, cancel }] }, some (.job r.jobs.length, todo))
    else shut loop next todo (r.modifyOwner k Owner.scheduleClose)

def leave (key : SessionKey) (k : ℕ) (error : Option ℕ) : SessionRegistry × PoolPhase :=
  ({ r with inflight := if r.inflight.get? key = some k then r.inflight.pop key else r.inflight },
    .raised k error)

/-- `await asyncio.shield(task)` in the handler below. -/
def awaitOwner (key : SessionKey) (k : ℕ) (error : Option ℕ) : SessionRegistry × PoolPhase :=
  if r.isFinished k then r.leave key k error else (r, .unwinding key k error)

/-- The handler of `await asyncio.shield(ready)`. -/
def unwind (key : SessionKey) (k : ℕ) (error : Option ℕ) : SessionRegistry × PoolPhase :=
  match r.ready k with
  | .failed _ | .cancelled => r.awaitOwner key k error
  | .pending | .session => (r.shutdown k true).awaitOwner key k error

/-- Phase 4: the creation becomes an entry if its record is still there. -/
def promote (key : SessionKey) (k : ℕ) : SessionRegistry × PoolPhase :=
  if r.inflight.get? key = some k then
    ({ r with inflight := r.inflight.pop key, entries := r.entries.set key k }, .returned k)
  else
    let r := r.shutdown k false
    if r.isFinished k then (r, .raised k none) else (r, .tearing k)

def awaitReady (key : SessionKey) (k : ℕ) : SessionRegistry × PoolPhase :=
  match r.ready k with
  | .pending => (r, .awaiting key k)
  | .session => r.promote key k
  | .failed e => r.unwind key k (some e)
  | .cancelled => r.unwind key k none

def awaitJoin (k : ℕ) : PoolPhase :=
  match r.ready k with
  | .pending => .joining k
  | .session => .returned k
  | .failed e => .raised k (some e)
  | .cancelled => .raised k none

def proceed (loop : ℕ) (todo : List (ℕ × Bool)) (next : ShutNext) : SessionRegistry × PoolPhase :=
  match shut loop next todo r with
  | (r, some (wait, todo)) => (r, .shutting wait todo next)
  | (r, none) =>
    match next with
    | .join k => (r, r.awaitJoin k)
    | .create key k => r.awaitReady key k
    | .closed => (r, .closed)

def evictAndProceed (loop : ℕ) (evicted : List (ℕ × Bool)) (next : ShutNext) :
    SessionRegistry × PoolPhase :=
  { r with entries := r.entries.popAll ((oldestEntries r.entries).map Prod.fst) }.proceed loop
    (evicted ++ ownersOf (oldestEntries r.entries) false) next

def create (loop : ℕ) (key : SessionKey) : SessionRegistry :=
  { r with
    owners := r.owners ++ [{ loop }]
    inflight := (r.inflight.pop key).set key r.owners.length }

/-- Phase 1 for a key without an entry: a creation on this loop is joined, another one replaced. -/
def joinOrCreate (loop : ℕ) (key : SessionKey) (evicted : List (ℕ × Bool)) :
    SessionRegistry × PoolPhase :=
  match r.inflight.get? key with
  | some k =>
    if r.isOn k loop then r.evictAndProceed loop evicted (.join k)
    else (r.create loop key).evictAndProceed loop (evicted ++ [(k, true)])
      (.create key r.owners.length)
  | none => (r.create loop key).evictAndProceed loop evicted (.create key r.owners.length)

/-- `get_session` up to its first `await`. -/
def getSession (loop : ℕ) (key : SessionKey) : SessionRegistry × PoolPhase :=
  match r.entries.get? key with
  | some k =>
    if r.isOn k loop then
      ({ r with entries := (r.entries.pop key).set key k }, .returned k)
    else { r with entries := r.entries.pop key }.joinOrCreate loop key [(k, false)]
  | none => r.joinOrCreate loop key []

/-- `close_scope`, `close_server` and `close_all` up to their first `await`, for the keys they are
about. -/
def closeKeys (loop : ℕ) (keys : SessionKey → Bool) : SessionRegistry × PoolPhase :=
  { r with
    entries := r.entries.filter fun key _ => !keys key
    inflight := r.inflight.filter fun key _ => !keys key }.proceed loop
      (ownersOf (r.entries.filter fun key _ => keys key).entries false ++
        ownersOf (r.inflight.filter fun key _ => keys key).entries true) .closed

end SessionRegistry

/-- A call of `get_session` or `close_*`; `cancelled` says that it was cancelled. -/
structure PoolCall where
  loop : ℕ
  phase : PoolPhase
  cancelling : Bool := false
  cancelled : Bool := false
  deriving DecidableEq

structure SessionPool where
  registry : SessionRegistry := {}
  calls : List PoolCall := []

inductive PoolAct where
  | getSession (loop : ℕ) (key : SessionKey)
  | closeScope (loop : ℕ) (scope : String)
  | closeServer (loop : ℕ) (server : String)
  | closeAll (loop : ℕ)
  /-- Call number `i` goes on, or is cancelled. -/
  | step (i : ℕ)
  | cancel (i : ℕ)
  /-- Owner number `k` goes on. -/
  | owner (k : ℕ) (reply : OwnerReply)
  /-- `close_evt.set` runs on the loop of the owner. -/
  | callback (k : ℕ)
  | job (j : ℕ)

namespace SessionRegistry

variable (r : SessionRegistry)

def resume (c : PoolCall) : Option (SessionRegistry × PoolPhase) :=
  match c.phase with
  | .shutting (.task k) todo next =>
    if r.isFinished k then some (r.proceed c.loop todo next) else none
  | .shutting (.job j) todo next =>
    if c.cancelling then some (r, .interrupted)
    else if r.jobs[j]?.any fun job => job.phase = .finished then some (r.proceed c.loop todo next)
    else none
  | .joining k =>
    if c.cancelling then some (r, .raised k none)
    else if r.ready k = .pending then none
    else some (r, r.awaitJoin k)
  | .awaiting key k =>
    if c.cancelling then some (r.unwind key k none)
    else if r.ready k = .pending then none
    else some (r.awaitReady key k)
  | .unwinding key k error =>
    if c.cancelling || r.isFinished k then some (r.leave key k error) else none
  | .tearing k => if r.isFinished k then some (r, .raised k none) else none
  | _ => none

/-- What the cancellation of a call does at once: a task awaited without a shield is cancelled too,
and so is a shutdown on another loop. -/
def cancelCall (c : PoolCall) : Option (SessionRegistry × Bool) :=
  match c.phase with
  | .shutting (.task k) _ _ => some (r.modifyOwner k Owner.cancelTask, false)
  | .shutting (.job j) _ _ =>
    some ({ r with jobs := r.jobs.modify j fun job => { job with cancelling := true } }, true)
  | .tearing k => some (r.modifyOwner k Owner.cancelTask, false)
  | .joining _ | .awaiting _ _ | .unwinding _ _ _ => some (r, true)
  | _ => none

def setJob (j : ℕ) (job : ShutJob) : SessionRegistry := { r with jobs := r.jobs.set j job }

/-- A shutdown on another loop goes on; one that is cancelled before it starts is told so only after
its first part. -/
def stepJob (j : ℕ) (job : ShutJob) : Option SessionRegistry :=
  match job.phase, job.cancelling with
  | .scheduled, _ =>
    some ((r.shutdown job.owner job.cancel).setJob j { job with phase := .waiting })
  | .waiting, true =>
    some ((r.modifyOwner job.owner Owner.cancelTask).setJob j { job with cancelling := false })
  | .waiting, false =>
    if r.isFinished job.owner then some (r.setJob j { job with phase := .finished }) else none
  | .finished, _ => none

end SessionRegistry

namespace SessionPool

variable (s : SessionPool)

def start (loop : ℕ) (p : SessionRegistry × PoolPhase) : SessionPool :=
  ⟨p.1, s.calls ++ [{ loop, phase := p.2 }]⟩

end SessionPool

def sessionPool : Machine SessionPool PoolAct where
  step s act :=
    match act with
    | .getSession loop key => some (s.start loop (s.registry.getSession loop key))
    | .closeScope loop scope =>
      some (s.start loop (s.registry.closeKeys loop fun key => key.2 = scope))
    | .closeServer loop server =>
      some (s.start loop (s.registry.closeKeys loop fun key => key.1 = server))
    | .closeAll loop => some (s.start loop (s.registry.closeKeys loop fun _ => true))
    | .step i => s.calls[i]?.bind fun c => (s.registry.resume c).map fun p =>
        ⟨p.1, s.calls.set i { c with phase := p.2, cancelling := false }⟩
    | .cancel i => s.calls[i]?.bind fun c => (s.registry.cancelCall c).map fun p =>
        ⟨p.1, s.calls.set i { c with cancelling := c.cancelling || p.2, cancelled := true }⟩
    | .owner k reply => s.registry.owners[k]?.bind fun o => (o.step k reply).map fun o' =>
        { s with registry := { s.registry with owners := s.registry.owners.set k o' } }
    | .callback k => s.registry.owners[k]?.bind fun o =>
        if o.closeScheduled then some { s with registry := { s.registry with
          owners := s.registry.owners.set k { o with closed := true, closeScheduled := false } } }
        else none
    | .job j => s.registry.jobs[j]?.bind fun job => (s.registry.stepJob j job).map fun r =>
        { s with registry := r }

/-- What happens where one loop asks for the session of one key, and nothing is closed. -/
inductive CallerAct where
  | getSession
  | step (i : ℕ)
  | cancel (i : ℕ)
  | owner (k : ℕ) (reply : OwnerReply)

def CallerAct.poolAct (loop : ℕ) (key : SessionKey) : CallerAct → PoolAct
  | .getSession => .getSession loop key
  | .step i => .step i
  | .cancel i => .cancel i
  | .owner k reply => .owner k reply

/-- The calls of `get_session` for one key on one loop. -/
def sessionCallers (loop : ℕ) (key : SessionKey) : Machine SessionPool CallerAct where
  step s act := sessionPool.step s (act.poolAct loop key)

end DeerFlow

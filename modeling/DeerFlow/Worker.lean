import DeerFlow.Manager

/-!
# The worker

`run_agent`, the task that executes a run, with the heartbeat that renews its lease and the rollback
to the checkpoint before it. The agent graph is an unknown source of stream items that may write
checkpoints.
-/

namespace DeerFlow

open Coop Coro RunRecord

/-- `WORKER_ID`. -/
def ownWorkerId : String := "worker-"

/-- `abort_event` is set and the task of the run is cancelled. -/
def RunRecord.abort (action : String) (x : RunRecord) : RunRecord :=
  { x with
    abortAction := action, abortEvent := true, task := x.task.map TaskHandle.cancel }

def pollCancelIntent (ρ : ReplicaId) (r : RunId) : Co Bool := do
  let w ← get
  let aborted := ((w.record? ρ r).map abortEvent).getD true
  if !(w.managers ρ).hasStore || aborted then pure false
  else do
    let intent ← orReturn (awaitOp (.getCancelIntent r)) none
    match intent with
    | some (true, action) => do
      let action := if action = some "" then "interrupt" else action.getD "interrupt"
      modify fun w => w.updateRecord ρ r (·.abort action)
      pure true
    | _ => pure false

/-- `_run_lease_heartbeat`, for so many beats. -/
def runLeaseHeartbeat (ρ : ReplicaId) (r : RunId) (org : String) (c : ClaimRecord) : ℕ → Co Unit
  | 0 => pure ()
  | n + 1 => do
    let w ← get
    if w.leaseStop r then pure ()
    else do
      awaitOp (.waitStop r)
      let w ← get
      if w.leaseStop r then pure ()
      else do
        let renewed ← orReturn (RedisLeaseStore.renew org c leaseTtlSeconds) false
        if !renewed then pure ()
        else do
          let found ← pollCancelIntent ρ r
          if found then pure () else runLeaseHeartbeat ρ r org c n

/-- `_new_checkpoint_marker`: an id no checkpoint of the thread has. -/
def newCheckpointMarker (cs : List StoredCheckpoint) : ℕ := (cs.map (·.id)).foldr max 0 + 1

/-- The pending writes of each task, tasks in the order they first write; what is no write raises. -/
def writesByTask (r : RunId) :
    List PendingWrite → OrdDict String (List (String × Json)) →
      Except Exc (OrdDict String (List (String × Json)))
  | [], d => .ok d
  | .write task channel value :: ws, d =>
    writesByTask r ws (d.set task ((d.get? task).getD [] ++ [(channel, value)]))
  | .notTriple :: _, _ =>
    .error (.other "RuntimeError" s!"Run {r} rollback failed: pending_write is not a 3-tuple")
  | .badChannel task :: _, _ =>
    .error (.other "RuntimeError"
      s!"Run {r} rollback failed: pending_write has non-string channel: task_id={task}")

def logLine (r : RunId) (l : LogLine) : Co Unit := modify fun w => w.addLog r l

def restoreSnapshot (r : RunId) (t : ThreadId) (f : Frame) (s : Snapshot) : Co Unit :=
  match s.checkpoint with
  | none => logLine r .skippedInvalidSnapshot
  | some c =>
    match c.id.or f.preRunCheckpointId with
    | none => logLine r .skippedNoCheckpointId
    | some _ => do
      let w ← get
      let marker := newCheckpointMarker (w.checkpoints t)
      let id ← awaitOp (.aput t s.checkpointNs { c with id := some marker }
        (s.metadata.getD (.obj [])))
      let writes ← ofExcept (writesByTask r s.pendingWrites .empty)
      forEach (fun e => awaitOp (.aputWrites t s.checkpointNs id e.1 e.2)) writes.entries

def rollbackToPreRunCheckpoint (x : ExecRequest) (r : RunId) (t : ThreadId) : Co Unit := do
  let w ← get
  let f := w.frames r
  if !x.ctx.checkpointer then logLine r .noCheckpointer
  else if f.snapshotCaptureFailed then logLine r .skippedCaptureFailed
  else
    match f.preRunSnapshot with
    | none => do
      awaitOp (.adeleteThread t)
      logLine r .resetToEmpty
    | some s => restoreSnapshot r t f s

section RunAgent

variable (ρ : ReplicaId) (r : RunId) (x : ExecRequest)

def setFrame (f : Frame → Frame) : Co Unit :=
  modify fun w => { w with frames := Function.update w.frames r (f (w.frames r)) }

def setLeaseStop (b : Bool) : Co Unit :=
  modify fun w => { w with leaseStop := Function.update w.leaseStop r b }

def threadOf : Co ThreadId := do
  let w ← get
  pure (((w.record? ρ r).map threadId).getD "")

def captureSnapshot (t : ThreadId) : Co Unit :=
  if !x.ctx.checkpointer then pure ()
  else tryExcept (do
      let c ← awaitOp (.agetTuple t)
      match c with
      | none => pure ()
      | some c => setFrame r fun f =>
          { f with
            preRunCheckpointId := some c.id
            preRunSnapshot := some ⟨c.ns, c.checkpoint, c.metadata, c.pendingWrites⟩ })
    fun e =>
      if e.isException then setFrame r fun f => { f with snapshotCaptureFailed := true }
      else throw e

/-- Record the model the agent resolved to, if the run asked for another one. -/
def syncModelName : Co Unit := do
  let w ← get
  match (w.record? ρ r).bind modelName, x.agent.effectiveModel with
  | some requested, some effective =>
    if effective = "" || effective = requested then pure ()
    else updateModelName ρ r (some effective)
  | _, _ => pure ()

/-- The `astream` loop, for so many items: the LLM fallback message it saw. -/
def streamLoop (t : ThreadId) : ℕ → Option String → Co (Option String)
  | 0, fallback => pure fallback
  | n + 1, fallback => do
    let item ← awaitOp (.anext r t)
    match item with
    | none => pure fallback
    | some i => do
      let w ← get
      if ((w.record? ρ r).map abortEvent).getD false then pure fallback
      else
        match i.mode with
        | none => streamLoop t n fallback
        | some mode => do
          awaitOp (.publish r mode)
          streamLoop t n (fallback.or i.fallback)

def rollBack (t : ThreadId) : Co Unit := do
  setStatus ρ r .error (some "Rolled back by user")
  tryExcept (do
      rollbackToPreRunCheckpoint x r t
      logLine r .rolledBack)
    fun e => if e.isException then logLine r .rollbackFailed else throw e

def finishAborted (t : ThreadId) : Co Unit := do
  let w ← get
  if (w.record? ρ r).map abortAction = some "rollback" then rollBack ρ r x t
  else setStatus ρ r .interrupted none

def finalStatus (t : ThreadId) (fallback : Option String) : Co Unit := do
  let w ← get
  let journal := if x.ctx.eventStore then x.agent.journalFallback else none
  if ((w.record? ρ r).map abortEvent).getD false then finishAborted ρ r x t
  else if fallback.isSome || journal.isSome then
    setStatus ρ r .error (some ((fallback.or journal.join).getD "LLM provider failed after retries"))
  else setStatus ρ r .success none

/-- The body of the `try` of `run_agent`. -/
def agentBody (t : ThreadId) : Co Unit := do
  setStatus ρ r .running none
  captureSnapshot r x t
  awaitOp (.publish r "metadata")
  ofExcept x.agent.build
  syncModelName ρ r x
  let fallback ← streamLoop ρ r t x.agent.items none
  finalStatus ρ r x t fallback

/-- Its `except` clauses. -/
def agentHandler (t : ThreadId) (e : Exc) : Co Unit :=
  if e.isException then do
    setStatus ρ r .error (some e.msg)
    awaitOp (.publish r "error")
  else finishAborted ρ r x t

/-- Persist what the journal counted, against the row version the record has. -/
def persistCompletion : Co Unit := do
  let w ← get
  match w.record? ρ r with
  | none => pure ()
  | some y => updateRunCompletion ρ r y.status x.agent.completion none (some y.rowVersion)

def closeJournal : Co Unit := do
  orReturn (awaitOp (.flushJournal r)) ()
  orReturn (persistCompletion ρ r x) ()

def syncTitle (t : ThreadId) : Co Unit := do
  let c ← awaitOp (.agetTuple t)
  match (c.bind (·.checkpoint)).bind fun c => c.channelValues.get? "title" with
  | some title => if title.truthy then awaitOp (.threadWrite t "update_display_name")
  | none => pure ()

/-- `bridge.publish_end`. -/
def publishEnd : Co Unit := do
  modify fun w => { w with ended := w.ended ++ [r] }
  awaitOp (.publishEnd r)

/-- Its `finally` clause. -/
def agentFinally (org : String) (t : ThreadId) (lease : ClaimRecord) : Co Unit := do
  setLeaseStop r true
  if x.ctx.leaseStore = .redis then orReturn (awaitOp (.joinHeartbeat r)) ()
  let _ ← orReturn (x.ctx.leaseStore.release org lease) false
  if x.ctx.eventStore then closeJournal ρ r x
  if x.ctx.checkpointer && x.ctx.threadStore then orReturn (syncTitle t) ()
  if x.ctx.threadStore then orReturn (awaitOp (.threadWrite t "update_status")) ()
  publishEnd r

def workerId : String := if x.ctx.workerId = "" then ownWorkerId else x.ctx.workerId

def runAgent : Co Unit := do
  setFrame r fun _ => {}
  setLeaseStop r false
  let t ← threadOf ρ r
  let org := x.ctx.tenantOrg.getD ""
  let claim ← x.ctx.leaseStore.claim org r (workerId x) ownWorkerId
  match claim.record with
  | none => pure ()
  | some lease => do
    if x.ctx.leaseStore = .redis then fork (.heartbeat ρ r org lease x.beats)
    tryFinally (tryExcept (agentBody ρ r x t) (agentHandler ρ r x t))
      (agentFinally ρ r x org t lease)

/-- `run_agent` as the task of its record, which is done when it ends. -/
def runAgentTask : Co Unit :=
  (awaitOp .start >>= fun _ => runAgent ρ r x).attempt.bind fun res => do
    modify fun w => w.updateRecord ρ r fun y =>
      { y with task := y.task.map fun t =>
          { t with done := true, cancelled := res matches .error .cancelled } }
    .ret res

end RunAgent

end DeerFlow

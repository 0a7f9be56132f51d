import DeerFlow.Ownership

/-!
# The run manager

The coroutines of `RunManager`. A lock section is `withLock`; what a section does to the records and
the thread index is a function on the manager. The run id `uuid4` draws is an argument.
-/

namespace DeerFlow

open Coop Coro TaskHandle

namespace RunManager

/-- `_runs.get(run_id)`. -/
def get? (m : RunManager) (r : RunId) : Option RunRecord := if r ∈ m.runs then m.heap r else none

def insertKey (l : List RunId) (r : RunId) : List RunId := if r ∈ l then l else l ++ [r]

def indexRunLocked (m : RunManager) (x : RunRecord) : RunManager :=
  { m with
    runsByThread := m.runsByThread.set x.threadId
      (insertKey ((m.runsByThread.get? x.threadId).getD []) x.runId) }

def unindexRunLocked (m : RunManager) (r : RunId) (t : ThreadId) : RunManager :=
  match m.runsByThread.get? t with
  | none => m
  | some bucket =>
    let bucket' := bucket.filter fun r' => r' ≠ r
    if bucket'.isEmpty then { m with runsByThread := m.runsByThread.pop t }
    else { m with runsByThread := m.runsByThread.set t bucket' }

def threadRecordsLocked (m : RunManager) (t : ThreadId) : List RunRecord :=
  ((m.runsByThread.get? t).getD []).filterMap m.get?

/-- The records of `_runs`, in its order. -/
def records (m : RunManager) : List RunRecord := m.runs.filterMap m.get?

/-- `_runs[run_id] = record` and its index entry. -/
def register (m : RunManager) (x : RunRecord) : RunManager :=
  { m with
    heap := fun r => if r = x.runId then some x else m.heap r
    runs := insertKey m.runs x.runId }.indexRunLocked x

/-- `_runs.pop(run_id, None)`. -/
def popRun (m : RunManager) (r : RunId) : RunManager :=
  { m with runs := m.runs.filter fun r' => r' ≠ r }

/-- Change the record objects of `rs`. -/
def updateRecords (m : RunManager) (rs : List RunId) (f : RunRecord → RunRecord) : RunManager :=
  { m with heap := fun r => if r ∈ rs then (m.heap r).map f else m.heap r }

end RunManager

namespace RunRecord

def interruptBy (action : String) (now : ℕ) (x : RunRecord) : RunRecord :=
  { x with
    abortAction := action, abortEvent := true, task := x.task.map cancel
    status := .interrupted, updatedAt := now }

/-- What `shutdown` does to a record it drains. -/
def drain (x : RunRecord) : RunRecord :=
  { x with abortAction := "interrupt", abortEvent := true, task := x.task.map cancel }

end RunRecord

section Locks

variable {α : Type}

def release (ρ : ReplicaId) : Co Unit := modify fun w => w.unlock ρ

/-- `async with self._lock: p`. -/
def withLock (ρ : ReplicaId) (p : Co α) : Co α := do
  awaitOp (.acquire ρ)
  tryFinally p (release ρ)

def modifyManager (ρ : ReplicaId) (f : RunManager → RunManager) : Co Unit :=
  modify fun w => w.setManager ρ (f (w.managers ρ))

def getManager (ρ : ReplicaId) : Co RunManager := do
  let w ← get
  pure (w.managers ρ)

end Locks

/-- `_call_store_with_retry`, with so many attempts left. -/
def callStoreWithRetry (op : Op) : ℕ → Co op.Res
  | 0 => awaitOp op
  | n + 1 => tryExcept (awaitOp op) fun e =>
      if e.isException && e.isRetryable && n != 0 then do
        awaitOp .sleep
        callStoreWithRetry op n
      else throw e

/-- `PersistenceRetryPolicy.max_attempts`. -/
def maxAttempts : ℕ := 5

def storeCall (op : Op) : Co op.Res := callStoreWithRetry op maxAttempts

/-- `except Exception: return b`. -/
def orReturn {α : Type} (p : Co α) (a : α) : Co α :=
  tryExcept p fun e => if e.isException then pure a else throw e

def persistSnapshotToStore (ρ : ReplicaId) (r : RunId) (p : PutPayload) : Co Bool := do
  let m ← getManager ρ
  if !m.hasStore then pure true
  else orReturn (do
    storeCall (.put r p)
    pure true) false

def persistNewRunToStore (ρ : ReplicaId) (x : RunRecord) : Co Unit := do
  let m ← getManager ρ
  if !m.hasStore then pure ()
  else storeCall (.put x.runId (x.storePutPayload none))

/-- `_persist_status`; `mirror` writes the new row version into the record it was called with. -/
def persistStatus (ρ : ReplicaId) (r : RunId) (payload : PutPayload) (status : RunStatus)
    (error : Option String) (expected : Option ℕ) (mirror : ℕ → Co Unit) : Co Bool := do
  let m ← getManager ρ
  if !m.hasStore then pure true
  else orReturn (do
    let updated ← storeCall (.updateStatus r status error expected)
    if !updated then
      match expected with
      | some _ => do
        let existing ← awaitOp (.get r)
        match existing with
        | none => persistSnapshotToStore ρ r payload
        | some _ => pure false
      | none => persistSnapshotToStore ρ r payload
    else
      match expected with
      | some v => do
        mirror (v + 1)
        pure true
      | none => pure true) false

/-- `record.row_version = v` on the record object of a run. -/
def mirrorRowVersion (ρ : ReplicaId) (r : RunId) (v : ℕ) : Co Unit :=
  modify fun w => w.updateRecord ρ r fun x => { x with rowVersion := v }

/-- `_persist_status` of the record object of a run. -/
def persistRecordStatus (ρ : ReplicaId) (r : RunId) (status : RunStatus) (error : Option String)
    (expected : Option ℕ) : Co Bool := do
  let w ← get
  match w.record? ρ r with
  | none => pure true
  | some x =>
    persistStatus ρ r (x.storePutPayload error) status error expected (mirrorRowVersion ρ r)

/-- `_persist_status(record, interrupted)`, whatever the row's version. -/
def persistInterrupted (ρ : ReplicaId) (r : RunId) : Co Unit := do
  let _ ← persistRecordStatus ρ r .interrupted none none
  pure ()

/-- The section of `set_status`: the version to compare with, if the run is known. -/
def setStatusLocked (ρ : ReplicaId) (r : RunId) (status : RunStatus) (error : Option String) :
    Co (Option ℕ) := do
  let w ← get
  match (w.managers ρ).get? r with
  | none => pure none
  | some x =>
    match RunStatus.assertRunTransition x.status status with
    | .error e => throw (.illegalRunTransition e)
    | .ok _ => do
      modify fun w => w.updateRecord ρ r fun x =>
        { x with status := status, updatedAt := w.now, error := error.or x.error }
      pure (some x.rowVersion)

def setStatus (ρ : ReplicaId) (r : RunId) (status : RunStatus) (error : Option String) :
    Co Unit := do
  let expected ← withLock ρ (setStatusLocked ρ r status error)
  match expected with
  | none => pure ()
  | some v => do
    let _ ← persistRecordStatus ρ r status error (some v)
    withLock ρ (pure ())

def publishCancelNotify (ρ : ReplicaId) (r : RunId) (action : String) : Co Unit := do
  let m ← getManager ρ
  if !m.hasNotifier then pure ()
  else orReturn (awaitOp (.notify r action)) ()

/-- The section of `cancel`: its answer, or the version to compare with. -/
def cancelLocked (ρ : ReplicaId) (r : RunId) (action : String) : Co (Bool ⊕ ℕ) := do
  let w ← get
  match (w.managers ρ).get? r with
  | none =>
    if !(w.managers ρ).hasStore then pure (.inl false)
    else do
      let persisted ← awaitOp (.requestCancel r action)
      if persisted then do
        publishCancelNotify ρ r action
        pure (.inl true)
      else do
        let existing ← awaitOp (.getCancelIntent r)
        match existing with
        | some (true, _) => pure (.inl true)
        | _ => pure (.inl false)
  | some x =>
    if x.status = .interrupted then pure (.inl true)
    else if !x.status.inflight then pure (.inl false)
    else
      match RunStatus.assertRunTransition x.status .interrupted with
      | .error e => throw (.illegalRunTransition e)
      | .ok _ => do
        modify fun w => w.updateRecord ρ r fun x =>
          { x with
            abortAction := action, abortEvent := true, task := x.task.map cancel
            status := .interrupted, updatedAt := w.now }
        pure (.inr x.rowVersion)

def cancel (ρ : ReplicaId) (r : RunId) (action : String) : Co Bool := do
  let a ← withLock ρ (cancelLocked ρ r action)
  match a with
  | .inl b => pure b
  | .inr v => do
    let _ ← persistRecordStatus ρ r .interrupted none (some v)
    let m ← getManager ρ
    if m.hasStore then
      orReturn (do
        let _ ← awaitOp (.requestCancel r action)
        pure ()) ()
    publishCancelNotify ρ r action
    pure true

def supportedStrategies : List String := ["reject", "interrupt", "rollback"]

def CreateArgs.record (a : CreateArgs) (now : ℕ) : RunRecord where
  runId := a.runId
  threadId := a.threadId
  assistantId := a.assistantId
  status := .pending
  onDisconnect := a.onDisconnect
  multitaskStrategy := a.multitaskStrategy
  orgId := a.orgId
  createdAt := now
  updatedAt := now
  modelName := a.modelName

/-- Register a run, persist it and interrupt the runs `inflight`; if that fails it is taken out
again. -/
def createLocked (ρ : ReplicaId) (a : CreateArgs) (now : ℕ) (inflight : List RunId) :
    Co (List RunId) := do
  modifyManager ρ fun m => m.register (a.record now)
  tryExcept (persistNewRunToStore ρ (a.record now)) fun e => do
    modifyManager ρ fun m => (m.popRun a.runId).unindexRunLocked a.runId a.threadId
    throw e
  modifyManager ρ fun m => m.updateRecords inflight (·.interruptBy a.multitaskStrategy now)
  pure inflight

/-- The section of `create_or_reject`: the runs it interrupted. -/
def createOrRejectLocked (ρ : ReplicaId) (a : CreateArgs) (now : ℕ) : Co (List RunId) := do
  if a.multitaskStrategy ∉ supportedStrategies then
    throw (.unsupportedStrategy (s!"Multitask strategy '{a.multitaskStrategy}' is not yet supported. "
      ++ "Supported strategies: " ++ ", ".intercalate supportedStrategies))
  else do
    let m ← getManager ρ
    let inflight := (m.threadRecordsLocked a.threadId).filter fun x => x.status.inflight
    if a.multitaskStrategy = "reject" && !inflight.isEmpty then
      throw (.conflict s!"Thread {a.threadId} already has an active run")
    else createLocked ρ a now (inflight.map RunRecord.runId)

def createOrReject (ρ : ReplicaId) (a : CreateArgs) : Co RunId := do
  let w ← get
  let interrupted ← withLock ρ (createOrRejectLocked ρ a w.now)
  forEach (persistInterrupted ρ) interrupted
  pure a.runId

/-- `update_run_completion`; the recovery payload is that of the record, if it is known. -/
def updateRunCompletion (ρ : ReplicaId) (r : RunId) (status : RunStatus) (c : Completion)
    (error : Option String) (expected : Option ℕ) : Co Unit := do
  let payload ← withLock ρ (do
    let w ← get
    match (w.managers ρ).get? r with
    | none => pure none
    | some _ => do
      modify fun w => w.updateRecord ρ r fun x =>
        { x with
          completion := { c with
            lastAiMessage := c.lastAiMessage.or x.completion.lastAiMessage
            firstHumanMessage := c.firstHumanMessage.or x.completion.firstHumanMessage }
          error := error.or x.error, updatedAt := w.now }
      let w ← get
      pure ((w.record? ρ r).map (·.storePutPayload error)))
  let m ← getManager ρ
  if !m.hasStore then pure ()
  else orReturn (do
    let updated ← storeCall (.updateRunCompletion r status c error expected)
    if updated || expected.isSome then pure ()
    else
      match payload with
      | none => pure ()
      | some p => do
        let b ← persistSnapshotToStore ρ r p
        if b then do
          let _ ← storeCall (.updateRunCompletion r status c error expected)
          pure ()
        else pure ()) ()

def cleanupLocked (ρ : ReplicaId) (r : RunId) : Co Unit := do
  let m ← getManager ρ
  match m.get? r with
  | none => pure ()
  | some x => modifyManager ρ fun m => (m.popRun r).unindexRunLocked r x.threadId

def cleanup (ρ : ReplicaId) (r : RunId) (delay : ℕ) : Co Unit := do
  if delay > 0 then awaitOp .sleep
  withLock ρ (cleanupLocked ρ r)

def updateModelName (ρ : ReplicaId) (r : RunId) (name : Option String) : Co Unit := do
  let known ← withLock ρ (do
    let w ← get
    match (w.managers ρ).get? r with
    | none => pure false
    | some _ => do
      modify fun w => w.updateRecord ρ r fun x =>
        { x with modelName := name, updatedAt := w.now }
      pure true)
  let m ← getManager ρ
  if known && m.hasStore then orReturn (storeCall (.updateModelName r name)) ()

/-- The outcome label of a run whose lease allows it to be reclaimed; `none` for a live holder. -/
def leaseOutcome (lease : LeaseBackend) (x : RunRecord) : Co (Option String) :=
  match lease with
  | .null => pure (some "recovered")
  | .redis => orReturn (do
      let holder ← RedisLeaseStore.getHolder (x.orgId.getD "") x.runId
      let w ← get
      match holder with
      | none => pure (some "recovered")
      | some c => if c.isExpired w.now then pure (some "expired_lease_reclaimed") else pure none)
      (some "recovered")

/-- Drive a run whose owner is gone to `error`; whether it was. -/
def reclaim (ρ : ReplicaId) (error : String) (events : Bool) (x : RunRecord) (label : String) :
    Co Bool := do
  let live ← withLock ρ (do
    let m ← getManager ρ
    pure (((m.get? x.runId).map fun y => y.status.inflight).getD false))
  if live then pure false
  else do
    let y := { x with status := .error, error := some error }
    let persisted ← persistStatus ρ x.runId (y.storePutPayload (some error)) .error (some error)
      (some x.rowVersion) fun _ => pure ()
    if !persisted then pure false
    else do
      if events then orReturn (awaitOp (.putEvent x.runId label error)) ()
      pure true

def reconcileRow (ρ : ReplicaId) (error : String) (lease : LeaseBackend) (events : Bool)
    (row : RunRow) : Co Bool := do
  let x := row.recordFromStore
  if x.status.isTerminal then pure false
  else do
    let outcome ← leaseOutcome lease x
    match outcome with
    | none => pure false
    | some label => reclaim ρ error events x label

def reconcileRows (ρ : ReplicaId) (error : String) (lease : LeaseBackend) (events : Bool) :
    List RunRow → List RunId → Co (List RunId)
  | [], recovered => pure recovered
  | row :: rows, recovered => do
    let b ← reconcileRow ρ error lease events row
    reconcileRows ρ error lease events rows (if b then recovered ++ [row.runId] else recovered)

def reconcileOrphanedInflightRuns (ρ : ReplicaId) (error : String) (before : Option ℕ)
    (lease : LeaseBackend) (events : Bool) : Co (List RunId) := do
  let m ← getManager ρ
  if !m.hasStore then pure []
  else do
    let rows ← orReturn (storeCall (.listInflight before)) []
    reconcileRows ρ error lease events rows []

/-- The first section of `shutdown`: cancel the tasks of the runs in flight. -/
def shutdownCancelLocked (ρ : ReplicaId) : Co (List RunId) := do
  let m ← getManager ρ
  let inflight := (m.records.filter fun x => x.status.inflight && x.taskActive).map RunRecord.runId
  modifyManager ρ fun m => m.updateRecords inflight RunRecord.drain
  pure inflight

/-- Whether the drain has to persist `interrupted` for a run. -/
def RunRecord.unsettled (x : RunRecord) (waiting : List RunId) : Bool :=
  x.runId ∈ waiting || ((x.task.map cancelled).getD false)

/-- The second section of `shutdown`: the runs whose status it has to persist. -/
def shutdownMarkLocked (ρ : ReplicaId) (inflight waiting : List RunId) : Co (List RunId) := do
  let w ← get
  let toPersist := inflight.filter fun r =>
    ((w.record? ρ r).map fun x => x.unsettled waiting).getD false
  modifyManager ρ fun m => m.updateRecords toPersist fun x =>
    if x.status.inflight then { x with status := .interrupted, updatedAt := w.now } else x
  pure toPersist

def shutdown (ρ : ReplicaId) (timeout : ℕ) : Co Unit := do
  let w ← get
  let deadline := w.now + timeout
  let inflight ← withLock ρ (shutdownCancelLocked ρ)
  if inflight.isEmpty then pure ()
  else do
    let waiting ← awaitOp (.waitTasks ρ inflight)
    let toPersist ← withLock ρ (shutdownMarkLocked ρ inflight waiting)
    let w ← get
    if toPersist.isEmpty || deadline ≤ w.now then pure ()
    else do
      forEach (fun r => fork (.persistInterrupted ρ r)) toPersist
      tryExcept (awaitOp (.gather toPersist)) fun e =>
        if e = .timeout then pure () else throw e

end DeerFlow

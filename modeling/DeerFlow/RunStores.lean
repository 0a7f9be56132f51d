import DeerFlow.Journal

/-!
# The run stores

`MemoryRunStore`, a dict of dicts, and `RunRepository`, the rows of `runs`, under the calls that
write a run. A key a dict lacks is `none`; a row's columns have their defaults.
-/

namespace DeerFlow

inductive Counter where
  | totalInputTokens
  | totalOutputTokens
  | totalTokens
  | llmCallCount
  | leadAgentTokens
  | subagentTokens
  | middlewareTokens
  | messageCount

def Counter.all : List Counter :=
  [.totalInputTokens, .totalOutputTokens, .totalTokens, .llmCallCount, .leadAgentTokens,
    .subagentTokens, .middlewareTokens, .messageCount]

structure ReleasePin where
  packageId : Option String := none
  versionId : Option String := none
  channel : Option String := none
  digest : Option String := none

abbrev UsageByModel := List (String × ModelUsage)

structure StoredRun where
  threadId : String
  assistantId : Option String
  orgId : Option String
  modelName : Option String
  status : RunStatus
  multitaskStrategy : String
  error : Option String
  createdAt : String
  updatedAt : String
  rowVersion : Int := 1
  cancelRequested : Bool := false
  cancelAction : Option String := none
  cancelRequestedAt : Option String := none
  pin : ReleasePin := {}
  legacyUnpinned : Bool := true
  counters : Counter → Option Int := fun _ => none
  tokenUsageByModel : Option UsageByModel := none
  lastAiMessage : Option String := none
  firstHumanMessage : Option String := none

/-- The `org_id` argument: left out, or a value. -/
inductive OrgArg where
  | omitted
  | given (org : Option String)

/-- The arguments of `put` and the clock at the call. -/
structure PutArgs where
  threadId : String
  assistantId : Option String := none
  orgId : OrgArg := .omitted
  modelName : Option String := none
  status : RunStatus := .pending
  multitaskStrategy : String := "reject"
  error : Option String := none
  createdAt : Option String := none
  pin : ReleasePin := {}
  legacyUnpinned : Bool := true
  now : String := ""

/-- The counts and texts that `update_run_completion` and `update_run_progress` are given. -/
structure RunReport where
  counters : Counter → Option Int := fun _ => none
  tokenUsageByModel : Option UsageByModel := none
  lastAiMessage : Option String := none
  firstHumanMessage : Option String := none
  error : Option String := none
  now : String := ""

abbrev RunTable := OrdDict String StoredRun

namespace MemoryRunStore

def orgOf : OrgArg → Option String
  | .omitted => none
  | .given org => org

/-- The pin fields of a `put`: one that is not given keeps what the run has. -/
def keepPin (given old : ReleasePin) : ReleasePin where
  packageId := given.packageId.or old.packageId
  versionId := given.versionId.or old.versionId
  channel := given.channel.or old.channel
  digest := given.digest.or old.digest

def put (s : RunTable) (runId : String) (a : PutArgs) : RunTable :=
  let existing := s.get? runId
  s.set runId {
    threadId := a.threadId
    assistantId := a.assistantId
    orgId := (orgOf a.orgId).or (existing.bind StoredRun.orgId)
    modelName := a.modelName
    status := a.status
    multitaskStrategy := a.multitaskStrategy
    error := a.error
    createdAt := (orText a.createdAt none).getD a.now
    updatedAt := a.now
    rowVersion := (existing.map StoredRun.rowVersion).getD 1
    cancelRequested := (existing.map StoredRun.cancelRequested).getD false
    cancelAction := existing.bind StoredRun.cancelAction
    cancelRequestedAt := existing.bind StoredRun.cancelRequestedAt
    pin := keepPin a.pin ((existing.map StoredRun.pin).getD {})
    legacyUnpinned := a.legacyUnpinned }

def get (s : RunTable) (runId : String) (org : OrgArg) : Option StoredRun :=
  (s.get? runId).bind fun run =>
    match orgOf org with
    | some o => if run.orgId ≠ some o then none else some run
    | none => some run

/-- The compare-and-set of a status write: whether it goes through, and the version after it. -/
def casVersion (run : StoredRun) (expected : Option Int) : Option Int :=
  match expected with
  | none => some run.rowVersion
  | some v => if run.rowVersion ≠ v then none else some (run.rowVersion + 1)

def updateStatus (s : RunTable) (runId : String) (status : RunStatus) (error : Option String)
    (expected : Option Int) (now : String) : RunTable × Bool :=
  match s.get? runId with
  | none => (s, false)
  | some run => match casVersion run expected with
    | none => (s, false)
    | some version =>
      (s.set runId { run with
        status := status, error := error.or run.error, updatedAt := now, rowVersion := version }, true)

/-- `run[key] = value` for every value that is not `None`. -/
def merge (run : StoredRun) (r : RunReport) : StoredRun :=
  { run with
    counters := fun c => (r.counters c).or (run.counters c)
    tokenUsageByModel := r.tokenUsageByModel.or run.tokenUsageByModel
    lastAiMessage := r.lastAiMessage.or run.lastAiMessage
    firstHumanMessage := r.firstHumanMessage.or run.firstHumanMessage
    error := r.error.or run.error
    updatedAt := r.now }

def updateRunCompletion (s : RunTable) (runId : String) (status : RunStatus) (r : RunReport)
    (expected : Option Int) : RunTable × Bool :=
  match s.get? runId with
  | none => (s, false)
  | some run => match casVersion run expected with
    | none => (s, false)
    | some version => (s.set runId { merge run r with status := status, rowVersion := version }, true)

def updateRunProgress (s : RunTable) (runId : String) (r : RunReport) : RunTable :=
  match s.get? runId with
  | none => s
  | some run => if run.status = .running then s.set runId (merge run r) else s

def requestCancel (s : RunTable) (runId action now : String) : RunTable × Bool :=
  match s.get? runId with
  | none => (s, false)
  | some run =>
    if !run.status.inflight then (s, false)
    else if run.cancelRequested then (s, false)
    else (s.set runId { run with
      cancelRequested := true, cancelAction := some action, cancelRequestedAt := some now }, true)

end MemoryRunStore

/-- What the repository runs on: `datetime.fromisoformat`, the rows the engine lets in, and the
tenant that is bound. -/
structure RunDbEngine where
  fromIso : String → Option String
  accepts : String → StoredRun → Bool
  tenant : String
  normalizeModelName : String → String

namespace RunRepository

variable (E : RunDbEngine)

def resolveOrgId : OrgArg → Option String
  | .omitted => some E.tenant
  | .given org => org

/-- `created_at` as a time, or what `fromisoformat` raises. -/
def createdOf (a : PutArgs) : Option String :=
  match orText a.createdAt none with
  | some text => E.fromIso text
  | none => some a.now

/-- The row of a first `put`. -/
def insertRow (a : PutArgs) (created : String) : StoredRun where
  threadId := a.threadId
  assistantId := a.assistantId
  orgId := resolveOrgId E a.orgId
  modelName := a.modelName.map E.normalizeModelName
  status := a.status
  multitaskStrategy := a.multitaskStrategy
  error := a.error
  createdAt := created
  updatedAt := a.now
  pin := a.pin
  legacyUnpinned := a.legacyUnpinned
  counters := fun _ => some 0
  tokenUsageByModel := some []

/-- `none` where it raises; `org_id` is not nullable. -/
def put (s : RunTable) (runId : String) (a : PutArgs) : Option RunTable :=
  match createdOf E a with
  | none => none
  | some created =>
    match s.get? runId with
    | none =>
      let row := insertRow E a created
      if row.orgId.isSome && E.accepts runId row then some (s.set runId row) else none
    | some row =>
      let row := { row with
        threadId := a.threadId, assistantId := a.assistantId
        modelName := a.modelName.map E.normalizeModelName
        status := a.status, multitaskStrategy := a.multitaskStrategy, error := a.error
        updatedAt := a.now }
      if E.accepts runId row then some (s.set runId row) else none

def get (s : RunTable) (runId : String) (org : OrgArg) : Option StoredRun :=
  (s.get? runId).bind fun row =>
    match resolveOrgId E org with
    | some o => if row.orgId ≠ some o then none else some row
    | none => some row

/-- The rows an `UPDATE` with these conditions matches, and the version it sets. -/
def whereVersion (row : StoredRun) : Option Int → Option Int
  | none => some row.rowVersion
  | some v => if row.rowVersion = v then some (row.rowVersion + 1) else none

def updateStatus (s : RunTable) (runId : String) (status : RunStatus) (error : Option String)
    (expected : Option Int) (now : String) : RunTable × Bool :=
  match (s.get? runId).bind fun row => (whereVersion row expected).map fun v => (row, v) with
  | none => (s, false)
  | some (row, version) =>
    (s.set runId { row with
      status := status, error := error.or row.error, updatedAt := now, rowVersion := version }, true)

def updateRunCompletion (s : RunTable) (runId : String) (status : RunStatus) (r : RunReport)
    (expected : Option Int) : RunTable × Bool :=
  match (s.get? runId).bind fun row => (whereVersion row expected).map fun v => (row, v) with
  | none => (s, false)
  | some (row, version) =>
    (s.set runId { row with
      status := status
      counters := fun c => some ((r.counters c).getD 0)
      tokenUsageByModel := some (r.tokenUsageByModel.getD [])
      lastAiMessage := (r.lastAiMessage.map fun m => (m.take 2000).toString).or row.lastAiMessage
      firstHumanMessage :=
        (r.firstHumanMessage.map fun m => (m.take 2000).toString).or row.firstHumanMessage
      error := r.error.or row.error
      updatedAt := r.now
      rowVersion := version }, true)

/-- Takes no `error`. -/
def updateRunProgress (s : RunTable) (runId : String) (r : RunReport) : RunTable :=
  match s.get? runId with
  | none => s
  | some row =>
    if row.status = .running then
      s.set runId { row with
        counters := fun c => (r.counters c).or (row.counters c)
        tokenUsageByModel := r.tokenUsageByModel.or row.tokenUsageByModel
        lastAiMessage := (r.lastAiMessage.map fun m => (m.take 2000).toString).or row.lastAiMessage
        firstHumanMessage :=
          (r.firstHumanMessage.map fun m => (m.take 2000).toString).or row.firstHumanMessage
        updatedAt := r.now }
    else s

def requestCancel (s : RunTable) (runId action now : String) : RunTable × Bool :=
  match s.get? runId with
  | none => (s, false)
  | some row =>
    if row.status.inflight && !row.cancelRequested then
      (s.set runId { row with
        cancelRequested := true, cancelAction := some action, cancelRequestedAt := some now }, true)
    else (s, false)

end RunRepository

structure RunView where
  orgId : Option String
  pin : ReleasePin
  legacyUnpinned : Bool
  status : RunStatus
  rowVersion : Int
  cancelRequested : Bool
  cancelAction : Option String
  counters : List Int
  tokenUsageByModel : UsageByModel

def StoredRun.view (x : StoredRun) : RunView where
  orgId := x.orgId
  pin := x.pin
  legacyUnpinned := x.legacyUnpinned
  status := x.status
  rowVersion := x.rowVersion
  cancelRequested := x.cancelRequested
  cancelAction := x.cancelAction
  counters := Counter.all.map fun c => (x.counters c).getD 0
  tokenUsageByModel := x.tokenUsageByModel.getD []

structure RunStores where
  memory : RunTable := .empty
  sql : RunTable := .empty

inductive RunStoreAct where
  | put (runId : String) (a : PutArgs)
  | updateStatus (runId : String) (status : RunStatus) (error : Option String)
      (expected : Option Int) (now : String)
  | updateRunCompletion (runId : String) (status : RunStatus) (r : RunReport)
      (expected : Option Int)
  | updateRunProgress (runId : String) (r : RunReport)
  | requestCancel (runId action now : String)

/-- Both stores under the same calls; a `put` that raises leaves the table alone. -/
def runStores (E : RunDbEngine) : Machine RunStores RunStoreAct where
  step s
    | .put runId a => some ⟨MemoryRunStore.put s.memory runId a,
        (RunRepository.put E s.sql runId a).getD s.sql⟩
    | .updateStatus runId status error expected now =>
      some ⟨(MemoryRunStore.updateStatus s.memory runId status error expected now).1,
        (RunRepository.updateStatus s.sql runId status error expected now).1⟩
    | .updateRunCompletion runId status r expected =>
      some ⟨(MemoryRunStore.updateRunCompletion s.memory runId status r expected).1,
        (RunRepository.updateRunCompletion s.sql runId status r expected).1⟩
    | .updateRunProgress runId r =>
      some ⟨MemoryRunStore.updateRunProgress s.memory runId r,
        RunRepository.updateRunProgress s.sql runId r⟩
    | .requestCancel runId action now =>
      some ⟨(MemoryRunStore.requestCancel s.memory runId action now).1,
        (RunRepository.requestCancel s.sql runId action now).1⟩

end DeerFlow

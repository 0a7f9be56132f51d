import DeerFlow.Status
import DeerFlow.Data.OrdDict

/-!
# The data of the run subsystem

Rows of the `runs` table, in-memory run records, ownership leases, checkpoints and the arguments
of the calls. Times are numbers of microseconds, lease tokens are opaque.
-/

namespace DeerFlow

abbrev RunId := String

abbrev ThreadId := String

/-- A process of the gateway, with its own `RunManager`. -/
abbrev ReplicaId := ℕ

inductive Json where
  | null
  | bool (b : Bool)
  | num (n : Int)
  | str (s : String)
  | arr (xs : List Json)
  | obj (kvs : List (String × Json))

abbrev Dict := List (String × Json)

namespace Dict

/-- `d.get(key)`. -/
def get? (d : Dict) (key : String) : Option Json := (d.find? fun kv => kv.1 = key).map Prod.snd

/-- `d[key] = v`. -/
def set (d : Dict) (key : String) (v : Json) : Dict := OrdDict.write key v d

/-- `d.setdefault(key, v)`. -/
def setDefault (d : Dict) (key : String) (v : Json) : Dict :=
  if (d.get? key).isSome then d else d.set key v

/-- `d.update(e)`. -/
def update (d e : Dict) : Dict := e.foldl (fun d kv => d.set kv.1 kv.2) d

end Dict

namespace Json

/-- `d.get(key)` on a dict. -/
def get? : Json → String → Option Json
  | obj kvs, key => Dict.get? kvs key
  | _, _ => none

/-- `type(v).__name__`. -/
def typeName : Json → String
  | null => "NoneType"
  | bool _ => "bool"
  | num _ => "int"
  | str _ => "str"
  | arr _ => "list"
  | obj _ => "dict"

def truthy : Json → Bool
  | null => false
  | bool b => b
  | num n => n != 0
  | str s => s != ""
  | arr xs => !xs.isEmpty
  | obj kvs => !kvs.isEmpty

end Json

/-- What a coroutine of the subsystem can raise. Only `cancelled` is no `Exception`. -/
inductive Exc where
  | cancelled
  | timeout
  | conflict (msg : String)
  | unsupportedStrategy (msg : String)
  | illegalRunTransition (msg : String)
  | store (retryable : Bool) (msg : String)
  | http (status : ℕ) (detail : String)
  | value (msg : String)
  | other (name msg : String)
  deriving DecidableEq

namespace Exc

def isException : Exc → Bool
  | cancelled => false
  | _ => true

def isRetryable : Exc → Bool
  | store b _ => b
  | _ => false

/-- `type(exc).__name__`. -/
def name : Exc → String
  | cancelled => "CancelledError"
  | timeout => "TimeoutError"
  | conflict _ => "ConflictError"
  | unsupportedStrategy _ => "UnsupportedStrategyError"
  | illegalRunTransition _ => "IllegalRunTransitionError"
  | store _ _ => "OperationalError"
  | http _ _ => "HTTPException"
  | value _ => "ValueError"
  | other n _ => n

def msg : Exc → String
  | cancelled => ""
  | timeout => ""
  | conflict m | unsupportedStrategy m | illegalRunTransition m | store _ m => m
  | http _ d => d
  | value m => m
  | other _ m => m

end Exc

structure Completion where
  totalInputTokens : ℕ := 0
  totalOutputTokens : ℕ := 0
  totalTokens : ℕ := 0
  llmCallCount : ℕ := 0
  leadAgentTokens : ℕ := 0
  subagentTokens : ℕ := 0
  middlewareTokens : ℕ := 0
  messageCount : ℕ := 0
  lastAiMessage : Option String := none
  firstHumanMessage : Option String := none
  deriving DecidableEq

structure TaskHandle where
  done : Bool := false
  cancelled : Bool := false
  mustCancel : Bool := false
  deriving DecidableEq

/-- `task.cancel()`, which a finished task ignores. -/
def TaskHandle.cancel (t : TaskHandle) : TaskHandle :=
  if t.done then t else { t with mustCancel := true }

structure RunRecord where
  runId : RunId
  threadId : ThreadId
  assistantId : Option String := none
  status : RunStatus := .pending
  onDisconnect : DisconnectMode := .cancel
  multitaskStrategy : String := "reject"
  orgId : Option String := none
  createdAt : ℕ := 0
  updatedAt : ℕ := 0
  task : Option TaskHandle := none
  abortEvent : Bool := false
  abortAction : String := "interrupt"
  error : Option String := none
  modelName : Option String := none
  storeOnly : Bool := false
  completion : Completion := {}
  rowVersion : ℕ := 1
  deriving DecidableEq

def RunRecord.taskActive (x : RunRecord) : Bool :=
  match x.task with
  | some t => !t.done
  | none => false

/-- A row of the `runs` table. -/
structure RunRow where
  runId : RunId
  threadId : ThreadId
  assistantId : Option String := none
  orgId : Option String := none
  status : RunStatus := .pending
  multitaskStrategy : String := "reject"
  error : Option String := none
  createdAt : ℕ := 0
  updatedAt : ℕ := 0
  completion : Completion := {}
  rowVersion : ℕ := 1
  cancelRequested : Bool := false
  cancelAction : Option String := none
  cancelRequestedAt : Option ℕ := none
  deriving DecidableEq

/-- The keyword arguments of `RunStore.put`. -/
structure PutPayload where
  threadId : ThreadId
  assistantId : Option String
  orgId : Option String
  status : RunStatus
  multitaskStrategy : String
  error : Option String
  createdAt : ℕ

def RunRecord.storePutPayload (x : RunRecord) (error : Option String) : PutPayload where
  threadId := x.threadId
  assistantId := x.assistantId
  orgId := x.orgId
  status := x.status
  multitaskStrategy := x.multitaskStrategy
  error := if error.isSome then error else x.error
  createdAt := x.createdAt

/-- `_record_from_store`: the read-only record of a row. -/
def RunRow.recordFromStore (x : RunRow) : RunRecord where
  runId := x.runId
  threadId := x.threadId
  assistantId := x.assistantId
  status := x.status
  onDisconnect := .cancel
  multitaskStrategy := x.multitaskStrategy
  orgId := x.orgId
  createdAt := x.createdAt
  updatedAt := x.updatedAt
  error := x.error
  storeOnly := true
  completion := x.completion
  rowVersion := x.rowVersion

structure ClaimRecord where
  runId : RunId
  workerId : String
  leaseToken : ℕ
  leaseExpiresAt : ℕ
  workerVersion : String
  claimedAt : ℕ
  deriving DecidableEq

structure ClaimResult where
  record : Option ClaimRecord
  currentHolder : Option ClaimRecord := none

inductive LeaseBackend where
  | null | redis
  deriving DecidableEq

/-- The checkpoint dict of a thread, `id` as the dict has it. -/
structure Checkpoint where
  id : Option ℕ
  channelValues : Json
  channelVersions : Json

/-- One pending write of a checkpoint; the last two are not what `put_writes` stores. -/
inductive PendingWrite where
  | write (task channel : String) (value : Json)
  | notTriple
  | badChannel (task : String)

/-- A stored checkpoint; `none` for a checkpoint or metadata that is no dict. -/
structure StoredCheckpoint where
  ns : String
  id : ℕ
  checkpoint : Option Checkpoint
  metadata : Option Json
  pendingWrites : List PendingWrite

/-- What the graph writes through the checkpointer while it runs. -/
inductive GraphWrite where
  | put (c : StoredCheckpoint)
  | writes (ns : String) (id : ℕ) (ws : List PendingWrite)

/-- One item of `agent.astream`: its mode, if it unpacks, and the fallback marker in its chunk. -/
structure StreamItem where
  mode : Option String
  fallback : Option String

/-- The pre-run snapshot `run_agent` keeps for a rollback. -/
structure Snapshot where
  checkpointNs : String
  checkpoint : Option Checkpoint
  metadata : Option Json
  pendingWrites : List PendingWrite

/-- The locals of `run_agent` that its handlers read. -/
structure Frame where
  preRunCheckpointId : Option ℕ := none
  preRunSnapshot : Option Snapshot := none
  snapshotCaptureFailed : Bool := false

structure RunContext where
  checkpointer : Bool := true
  eventStore : Bool := true
  threadStore : Bool := true
  tenantOrg : Option String := none
  workerId : String := ""
  leaseStore : LeaseBackend := .null
  deriving DecidableEq

/-- What building the agent raises, its model, the fallback and completion data its journal ends
with, and how many items its stream has at most. -/
structure Agent where
  build : Except Exc Unit := .ok ()
  effectiveModel : Option String := none
  journalFallback : Option (Option String) := none
  completion : Completion := {}
  items : ℕ := 0

structure ExecRequest where
  ctx : RunContext
  agent : Agent
  beats : ℕ := 0

structure RunCreateRequest where
  assistantId : Option String := none
  input : Option Dict := none
  command : Option Dict := none
  metadata : Option Dict := none
  config : Option Dict := none
  context : Option Dict := none
  onDisconnect : DisconnectMode := .cancel
  multitaskStrategy : String := "reject"

structure RequestUser where
  id : String
  internal : Bool := false
  deriving DecidableEq

/-- What Python does with texts: `str`, `strip` and `lower`. -/
structure TextOps where
  str : Json → String
  strip : String → String
  lower : String → String

/-- A call of `start_run`: the run's id, the body and the thread, what the request and the
configuration hold (`modelAllowed`, `releaseEnforce`), and `convertToMessages` of the message
library. -/
structure StartRequest where
  runId : RunId
  threadId : ThreadId
  body : RunCreateRequest
  user : Option RequestUser := none
  ownerUserId : Option String := none
  modelAllowed : String → Bool
  releaseEnforce : Bool := false
  convertToMessages : Json → Except Exc (List Json)
  text : TextOps
  exec : ExecRequest

/-- The arguments of `create_or_reject` and the id `uuid4` gives it. -/
structure CreateArgs where
  runId : RunId
  threadId : ThreadId
  assistantId : Option String := none
  onDisconnect : DisconnectMode := .cancel
  multitaskStrategy : String := "reject"
  modelName : Option String := none
  orgId : Option String := none

end DeerFlow

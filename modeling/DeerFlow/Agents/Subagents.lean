import DeerFlow.Data.Machine
import DeerFlow.Data.OrdDict

/-!
# Subagents in the background

`task_tool` hands a task to a subagent and polls until it ends. The result is an object in a table
of the process, under the id of the tool call. A thread of the scheduler pool starts the subagent
and waits for it with a timeout; the first terminal status written stays. All of them run at the
same time, section by section.
-/

namespace DeerFlow

inductive SubagentStatus where
  | pending
  | running
  | completed
  | failed
  | cancelled
  | timedOut
  deriving DecidableEq

namespace SubagentStatus

def isTerminal : SubagentStatus → Bool
  | .completed | .failed | .cancelled | .timedOut => true
  | .pending | .running => false

def value : SubagentStatus → String
  | .pending => "pending"
  | .running => "running"
  | .completed => "completed"
  | .failed => "failed"
  | .cancelled => "cancelled"
  | .timedOut => "timed_out"

end SubagentStatus

structure UsageRecord where
  sourceRunId : String
  caller : String
  modelName : Option String
  inputTokens : ℕ
  outputTokens : ℕ
  totalTokens : ℕ
  deriving DecidableEq

/-- A generation of a model response, with the usage its message has. -/
structure Generation where
  hasMessage : Bool := true
  inputTokens : ℕ := 0
  outputTokens : ℕ := 0
  totalTokens : ℕ := 0
  modelName : Option String := none

/-- `SubagentTokenCollector`. -/
structure TokenCollector where
  caller : String
  records : List UsageRecord := []
  countedRunIds : List String := []
  deriving DecidableEq

def Generation.total (g : Generation) : ℕ :=
  if g.totalTokens = 0 then g.inputTokens + g.outputTokens else g.totalTokens

/-- `on_llm_end`: the first generation that counts is recorded, once for each run id. -/
def TokenCollector.onLlmEnd (c : TokenCollector) (rid : String)
    (generations : List (List Generation)) : TokenCollector :=
  if rid ∈ c.countedRunIds then c
  else
    match generations.flatten.find? fun g => g.hasMessage && 0 < g.total with
    | none => c
    | some g =>
      { c with
        countedRunIds := c.countedRunIds ++ [rid]
        records := c.records ++
          [⟨rid, c.caller, g.modelName, g.inputTokens, g.outputTokens, g.total⟩] }

structure UsageTotals where
  inputTokens : ℕ
  outputTokens : ℕ
  totalTokens : ℕ
  deriving DecidableEq

def summarizeUsage (records : List UsageRecord) : Option UsageTotals :=
  if records = [] then none
  else some ⟨(records.map UsageRecord.inputTokens).sum, (records.map UsageRecord.outputTokens).sum,
    (records.map UsageRecord.totalTokens).sum⟩

inductive ContentBlock where
  | str (text : String)
  | dict (text : Option String)
  | other
  deriving DecidableEq

inductive SubagentContent where
  | str (text : String)
  | blocks (blocks : List ContentBlock)
  | other (repr : String)
  deriving DecidableEq

structure SubagentMessage where
  isAi : Bool
  id : Option String := none
  content : SubagentContent
  deriving DecidableEq

def textParts : List ContentBlock → List String → List String → List String
  | [], pending, parts => if pending = [] then parts else parts ++ [String.join pending]
  | .str s :: bs, pending, parts => textParts bs (pending ++ [s]) parts
  | .dict text :: bs, pending, parts =>
    textParts bs [] ((if pending = [] then parts else parts ++ [String.join pending]) ++ text.toList)
  | .other :: bs, pending, parts => textParts bs pending parts

def SubagentContent.text : SubagentContent → String
  | .str s => s
  | .blocks bs =>
    let parts := textParts bs [] []
    if parts = [] then "No text content in response" else "\n".intercalate parts
  | .other repr => repr

/-- The result of a subagent whose stream has ended with these messages. -/
def finalResult : Option (List SubagentMessage) → String
  | none => "No response generated"
  | some messages =>
    match messages.reverse.find? SubagentMessage.isAi, messages.getLast? with
    | some m, _ => m.content.text
    | none, some m => m.content.text
    | none, none => "No response generated"

/-- The captured messages after a chunk: its last message is added if it is new. -/
def captureMessage (captured messages : List SubagentMessage) : List SubagentMessage :=
  match messages.getLast? with
  | none => captured
  | some m =>
    let duplicate :=
      if m.id.getD "" = "" then m ∈ captured else captured.any fun c => c.id = m.id
    if m.isAi && !duplicate then captured ++ [m] else captured

structure SubagentResult where
  status : SubagentStatus := .pending
  result : Option String := none
  error : Option String := none
  completedAt : Bool := false
  aiMessages : List SubagentMessage := []
  tokenUsageRecords : List UsageRecord := []
  usageReported : Bool := false
  cancelEvent : Bool := false
  deriving DecidableEq

/-- The arguments of a call of `try_set_terminal`. -/
structure Ending where
  status : SubagentStatus
  result : Option String := none
  error : Option String := none
  records : Option (List UsageRecord) := none
  terminal : status.isTerminal = true
  deriving DecidableEq

namespace SubagentResult

variable (r : SubagentResult)

def trySetTerminal (e : Ending) : SubagentResult :=
  if r.status.isTerminal then r
  else
    { r with
      result := e.result.or r.result
      error := e.error.or r.error
      tokenUsageRecords := e.records.getD r.tokenUsageRecords
      completedAt := true
      status := e.status }

/-- `_is_subagent_terminal`. -/
def isTerminal : Bool := r.status.isTerminal || r.completedAt

def cancel : SubagentResult := { r with cancelEvent := true }

end SubagentResult

/-- The thread of the scheduler pool that runs `run_task`. -/
inductive SchedulerPhase where
  | queued
  | submitting (holder : ℕ)
  | waiting (holder : ℕ)
  | timingOut (holder : ℕ)
  | done

/-- `_aexecute` on the isolated loop. -/
inductive AgentPhase where
  | absent
  | building (holder : ℕ)
  | streaming (holder : ℕ) (final : Option (List SubagentMessage))
  | closing (holder : ℕ) (ending : Ending)
  | ended (died : Option String)
  deriving DecidableEq

/-- The result `_aexecute` works on. -/
def AgentPhase.holder : AgentPhase → Option ℕ
  | .building h | .streaming h _ | .closing h _ => some h
  | .absent | .ended _ => none

/-- How `task_tool` ends. -/
inductive ToolEnd where
  | returned (text : String)
  | raisedCancelled
  | raised
  deriving DecidableEq

inductive ToolPhase where
  | polling (count : ℕ)
  | looked (holder : ℕ) (usage : Option UsageTotals) (count : ℕ)
  | sleeping (holder : ℕ) (count : ℕ)
  | awaiting (polls : ℕ)
  | finished (how : ToolEnd)
  deriving DecidableEq

inductive TaskEvent where
  | started (description : String)
  | running (message : SubagentMessage) (index total : ℕ)
  | disappeared (error : String)
  | ended (status : SubagentStatus) (text : Option String) (usage : Option UsageTotals)
  | pollingTimedOut (usage : Option UsageTotals)

/-- A call of `task_tool` with the scheduler thread and the subagent it starts. -/
structure Invocation where
  toolCallId : String
  subagentName : String
  timeoutSeconds : ℕ
  cacheTokenUsage : Bool
  scheduler : SchedulerPhase := .queued
  agent : AgentPhase := .absent
  cancelRequested : Bool := false
  collector : TokenCollector
  tool : ToolPhase := .polling 0
  lastMessageCount : ℕ := 0
  deferred : Option ℕ := none
  events : List TaskEvent := []
  reports : List (List UsageRecord) := []
  stamped : Option UsageTotals := none

def Invocation.maxPollCount (v : Invocation) : ℕ := (v.timeoutSeconds + 60) / 5

/-- `_background_tasks`, `_subagent_usage_cache`, and the calls with the objects they have made. -/
structure Subagents where
  results : ℕ → SubagentResult := fun _ => {}
  background : OrdDict String ℕ := .empty
  usageCache : OrdDict String UsageTotals := .empty
  invocations : ℕ → Option Invocation := fun _ => none

inductive JournalFate where
  | accepts
  | raises
  | absent
  deriving DecidableEq

inductive AgentMove where
  | built
  | buildRaises (error : String)
  | llmEnd (rid : String) (generations : List (List Generation))
  | chunk (messages : List SubagentMessage)
  | streamEnd
  | streamRaises (error : String)
  | write
  | interrupt
  | die (error : String)

inductive SchedulerMove where
  | begin
  | submit (error : Option String)
  | expire
  | timeOut
  | join

inductive ToolMove where
  | look (writerRaises : Bool)
  | settle (journal : JournalFate) (writerRaises : Bool)
  | wake (journal : JournalFate) (writerRaises : Bool)
  | cancel
  | await (journal : JournalFate)
  | cancelAgain (journal : JournalFate)
  | clean
  | stamp

namespace Invocation

variable (v : Invocation)

/-- The snapshot of the collector is taken, and what is written to the result is known. -/
def close (holder : ℕ) (e : Ending) : Invocation := { v with agent := .closing holder e }

def cancelledEnding : Ending where
  status := .cancelled
  error := some "Cancelled by user"
  records := some v.collector.records
  terminal := rfl

/-- A section of `_aexecute`, on its call and the result it has been given. -/
def agentStep (r : SubagentResult) : AgentMove → Option (Invocation × SubagentResult)
  | .built =>
    match v.agent with
    | .building h =>
      if r.cancelEvent then some (v.close h v.cancelledEnding, r)
      else some ({ v with agent := .streaming h none }, r)
    | _ => none
  | .buildRaises error =>
    match v.agent with
    | .building h => some (v.close h ⟨.failed, none, some error, none, rfl⟩, r)
    | _ => none
  | .llmEnd rid generations =>
    match v.agent with
    | .streaming _ _ => some ({ v with collector := v.collector.onLlmEnd rid generations }, r)
    | _ => none
  | .chunk messages =>
    match v.agent with
    | .streaming h _ =>
      if r.cancelEvent then some (v.close h v.cancelledEnding, r)
      else some ({ v with agent := .streaming h (some messages) },
        { r with aiMessages := captureMessage r.aiMessages messages })
    | _ => none
  | .streamEnd =>
    match v.agent with
    | .streaming h final =>
      some (v.close h
        ⟨.completed, some (finalResult final), none, some v.collector.records, rfl⟩, r)
    | _ => none
  | .streamRaises error =>
    match v.agent with
    | .streaming h _ =>
      some (v.close h ⟨.failed, none, some error, some v.collector.records, rfl⟩, r)
    | _ => none
  | .write =>
    match v.agent with
    | .closing _ e => some ({ v with agent := .ended none }, r.trySetTerminal e)
    | _ => none
  -- the task is cancelled while it waits; the handler does not catch it
  | .interrupt =>
    match v.agent with
    | .building _ | .streaming _ _ =>
      if v.cancelRequested then some ({ v with agent := .ended none }, r) else none
    | _ => none
  | .die error =>
    match v.agent with
    | .building _ | .streaming _ _ => some ({ v with agent := .ended (some error) }, r)
    | _ => none

end Invocation

namespace Subagents

variable (s : Subagents) (n : ℕ) (v : Invocation)

def setInvocation : Subagents := { s with invocations := Function.update s.invocations n (some v) }

def setResult (r : SubagentResult) : Subagents :=
  { s with results := Function.update s.results n r }

/-- `request_cancel_background_task`. -/
def requestCancel (taskId : String) : Subagents :=
  match s.background.get? taskId with
  | none => s
  | some h => s.setResult h (s.results h).cancel

/-- `cleanup_background_task`. -/
def cleanup (taskId : String) : Subagents :=
  match s.background.get? taskId with
  | none => s
  | some h =>
    if (s.results h).isTerminal then { s with background := s.background.pop taskId } else s

/-- `_cache_subagent_usage`. -/
def cacheUsage (toolCallId : String) (usage : Option UsageTotals) (enabled : Bool) : Subagents :=
  match usage with
  | none => s
  | some u => if enabled then { s with usageCache := s.usageCache.set toolCallId u } else s

/-- `pop_cached_subagent_usage`, the cache that is left. -/
def popUsage (toolCallId : String) : Subagents :=
  { s with usageCache := s.usageCache.pop toolCallId }

/-- `execute_async`, from a new call. -/
def start (toolCallId description subagentName : String) (timeoutSeconds : ℕ)
    (cacheTokenUsage : Bool) : Subagents :=
  ({ s.setResult n {} with background := s.background.set toolCallId n }).setInvocation n
    { toolCallId := toolCallId
      subagentName := subagentName
      timeoutSeconds := timeoutSeconds
      cacheTokenUsage := cacheTokenUsage
      collector := { caller := "subagent:" ++ subagentName }
      events := [.started description] }

def agentMove (m : AgentMove) : Option Subagents :=
  v.agent.holder.bind fun h =>
    (v.agentStep (s.results h) m).map fun (v', r) => (s.setResult h r).setInvocation n v'

/-- The handler of `run_task`; it looks its result up again. -/
def schedulerFails (error : String) : Subagents :=
  match s.background.get? v.toolCallId with
  | none => s.setInvocation n { v with scheduler := .done }
  | some h =>
    (s.setResult h ((s.results h).trySetTerminal ⟨.failed, none, some error, none, rfl⟩)).setInvocation
      n { v with scheduler := .done }

def timeoutEnding : Ending where
  status := .timedOut
  error := some s!"Execution timed out after {v.timeoutSeconds} seconds"
  terminal := rfl

def schedulerMove : SchedulerMove → Option Subagents
  | .begin =>
    match v.scheduler with
    | .queued =>
      match s.background.get? v.toolCallId with
      | none => some (s.setInvocation n { v with scheduler := .done })
      | some h =>
        some ((s.setResult h { s.results h with status := .running }).setInvocation n
          { v with scheduler := .submitting h })
    | _ => none
  | .submit none =>
    match v.scheduler with
    | .submitting h => some (s.setInvocation n { v with scheduler := .waiting h, agent := .building h })
    | _ => none
  | .submit (some error) =>
    match v.scheduler with
    | .submitting _ => some (s.schedulerFails n v error)
    | _ => none
  | .expire =>
    match v.scheduler with
    | .waiting h =>
      some ((s.setResult h (s.results h).cancel).setInvocation n { v with scheduler := .timingOut h })
    | _ => none
  | .timeOut =>
    match v.scheduler with
    | .timingOut h =>
      some ((s.setResult h ((s.results h).trySetTerminal (timeoutEnding v))).setInvocation n
        { v with scheduler := .done, cancelRequested := true })
    | _ => none
  | .join =>
    match v.scheduler, v.agent with
    | .waiting _, .ended none => some (s.setInvocation n { v with scheduler := .done })
    | .waiting _, .ended (some error) => some (s.schedulerFails n v error)
    | _, _ => none

/-- `_report_subagent_usage`, for the result of this holder. -/
def report (h : ℕ) (journal : JournalFate) : Subagents × Invocation :=
  if (s.results h).usageReported || (s.results h).tokenUsageRecords = [] || journal ≠ .accepts then
    (s, v)
  else
    (s.setResult h { s.results h with usageReported := true },
      { v with reports := v.reports ++ [(s.results h).tokenUsageRecords] })

def runningEvents (messages : List SubagentMessage) (sent : ℕ) : List TaskEvent :=
  (messages.zipIdx.drop sent).map fun (m, i) => .running m (i + 1) messages.length

/-- The handler for what is no `CancelledError`. -/
def raiseTool : Subagents :=
  (s.popUsage v.toolCallId).setInvocation n { v with tool := .finished .raised }

def look (writerRaises : Bool) : Option Subagents :=
  match v.tool with
  | .polling count =>
    match s.background.get? v.toolCallId with
    | none =>
      let error := s!"Error: Task {v.toolCallId} disappeared from background tasks"
      some (if writerRaises then s.raiseTool n v
        else (s.cleanup v.toolCallId).setInvocation n
          { v with
            events := v.events ++ [.disappeared "Task disappeared from background tasks"]
            tool := .finished (.returned error) })
    | some h =>
      let messages := (s.results h).aiMessages
      if writerRaises && v.lastMessageCount < messages.length then some (s.raiseTool n v)
      else
        some (s.setInvocation n
          { v with
            events := v.events ++ runningEvents messages v.lastMessageCount
            lastMessageCount := max v.lastMessageCount messages.length
            tool := .looked h (summarizeUsage (s.results h).tokenUsageRecords) count })
  | _ => none

def toolText (r : SubagentResult) : String :=
  match r.status with
  | .completed => "Task Succeeded. Result: " ++ r.result.getD "None"
  | .failed => "Task failed. Error: " ++ r.error.getD "None"
  | .cancelled => "Task cancelled by user."
  | .timedOut => "Task timed out. Error: " ++ r.error.getD "None"
  | .pending | .running => ""

def eventText (r : SubagentResult) : Option String :=
  if r.status = .completed then r.result else r.error

def settle (journal : JournalFate) (writerRaises : Bool) : Option Subagents :=
  match v.tool with
  | .looked h usage count =>
    let r := s.results h
    if r.status.isTerminal then
      let x := (s.cacheUsage v.toolCallId usage v.cacheTokenUsage).report v h journal
      if writerRaises then some (x.1.raiseTool n x.2)
      else
        some ((x.1.cleanup v.toolCallId).setInvocation n
          { x.2 with
            events := x.2.events ++ [.ended r.status (eventText r) usage]
            tool := .finished (.returned (toolText r)) })
    else some (s.setInvocation n { v with tool := .sleeping h count })
  | _ => none

def wake (journal : JournalFate) (writerRaises : Bool) : Option Subagents :=
  match v.tool with
  | .sleeping h count =>
    if v.maxPollCount < count + 1 then
      let x := s.report v h journal
      let usage := summarizeUsage (s.results h).tokenUsageRecords
      let s' := x.1.cacheUsage v.toolCallId usage v.cacheTokenUsage
      let text := s!"Task polling timed out after {v.timeoutSeconds / 60} minutes. This may indicate "
        ++ s!"the background task is stuck. Status: {(s.results h).status.value}"
      if writerRaises then some (s'.raiseTool n x.2)
      else
        some ((s'.requestCancel v.toolCallId).setInvocation n
          { x.2 with
            events := x.2.events ++ [.pollingTimedOut usage]
            deferred := some 0
            tool := .finished (.returned text) })
    else some (s.setInvocation n { v with tool := .polling (count + 1) })
  | _ => none

/-- The end of the handler of a `CancelledError`. -/
def finalize (terminal : Option ℕ) (journal : JournalFate) : Subagents :=
  match terminal.or (s.background.get? v.toolCallId) with
  | none =>
    (s.popUsage v.toolCallId).setInvocation n
      { v with deferred := some 0, tool := .finished .raisedCancelled }
  | some h =>
    let x := s.report v h journal
    if (x.1.results h).isTerminal then
      ((x.1.cleanup v.toolCallId).popUsage v.toolCallId).setInvocation n
        { x.2 with tool := .finished .raisedCancelled }
    else
      (x.1.popUsage v.toolCallId).setInvocation n
        { x.2 with deferred := some 0, tool := .finished .raisedCancelled }

/-- A poll of `_await_subagent_terminal`. -/
def awaitTerminal (journal : JournalFate) : Option Subagents :=
  match v.tool with
  | .awaiting 0 => some (s.finalize n v none journal)
  | .awaiting (polls + 1) =>
    match s.background.get? v.toolCallId with
    | none => some (s.finalize n v none journal)
    | some h =>
      if (s.results h).isTerminal then some (s.finalize n v (some h) journal)
      else some (s.setInvocation n { v with tool := .awaiting polls })
  | _ => none

/-- A poll of `_deferred_cleanup_subagent_task`. -/
def clean : Option Subagents :=
  match v.deferred with
  | none => none
  | some count =>
    match s.background.get? v.toolCallId with
    | none => some (s.setInvocation n { v with deferred := none })
    | some h =>
      if (s.results h).isTerminal then
        some ((s.cleanup v.toolCallId).setInvocation n { v with deferred := none })
      else if v.maxPollCount ≤ count then some (s.setInvocation n { v with deferred := none })
      else some (s.setInvocation n { v with deferred := some (count + 1) })

def toolMove : ToolMove → Option Subagents
  | .look writerRaises => s.look n v writerRaises
  | .settle journal writerRaises => s.settle n v journal writerRaises
  | .wake journal writerRaises => s.wake n v journal writerRaises
  -- a `CancelledError` comes while the tool sleeps
  | .cancel =>
    match v.tool with
    | .sleeping _ _ =>
      some ((s.requestCancel v.toolCallId).setInvocation n { v with tool := .awaiting v.maxPollCount })
    | _ => none
  | .await journal => s.awaitTerminal n v journal
  | .cancelAgain journal =>
    match v.tool with
    | .awaiting _ => some (s.finalize n v none journal)
    | _ => none
  | .clean => s.clean n v
  -- `TokenUsageMiddleware` reads the usage of the tool message
  | .stamp =>
    match v.tool with
    | .finished (.returned _) =>
      some ((s.popUsage v.toolCallId).setInvocation n
        { v with stamped := s.usageCache.get? v.toolCallId })
    | _ => none

end Subagents

inductive SubagentMove where
  | start (toolCallId description subagentName : String) (timeoutSeconds : ℕ)
      (cacheTokenUsage : Bool)
  | agent (m : AgentMove)
  | scheduler (m : SchedulerMove)
  | tool (m : ToolMove)

structure SubagentAct where
  call : ℕ
  move : SubagentMove

def subagents : Machine Subagents SubagentAct where
  step s a :=
    match a.move, s.invocations a.call with
    | .start id description name timeout cache, none =>
      some (s.start a.call id description name timeout cache)
    | .agent m, some v => s.agentMove a.call v m
    | .scheduler m, some v => s.schedulerMove a.call v m
    | .tool m, some v => s.toolMove a.call v m
    | _, _ => none

end DeerFlow

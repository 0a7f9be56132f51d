import DeerFlow.Data.Machine
import DeerFlow.Types

/-!
# The run journal

`RunJournal` in two parts: what its callbacks do to the token accumulators and the message summary,
and how its buffer gets into the event store. `emitted` are the events handed to `_put`. Texts come
as `_message_text(message).strip()` gives them.
-/

namespace DeerFlow

/-- The counts of a usage dict; a missing count and `None` are alike. -/
structure Usage where
  inputTokens : Option Int := none
  outputTokens : Option Int := none
  totalTokens : Option Int := none
  deriving DecidableEq

/-- `errorFallback` are `error_detail` and `error_reason` of a message marked as a fallback,
`modelName` and `model` what its response metadata hold. -/
structure ResponseMessage (J : Type) where
  dump : J
  isAi : Bool := true
  text : String := ""
  usage : Option Usage := none
  errorFallback : Option (Option String × Option String) := none
  modelName : Option String := none
  model : Option String := none

/-- A record of `record_external_llm_usage_records`, its ids as `str` gives them. -/
structure ExternalUsage where
  sourceRunId : String
  caller : String
  modelName : Option String := none
  usage : Usage := {}

/-- An event for the store; the last four are what its metadata can hold. -/
structure JournalEvent (J : Type) where
  eventType : String
  category : String
  content : J
  caller : Option String := none
  usage : Option Usage := none
  latencyMs : Option ℕ := none
  llmCallIndex : Option ℕ := none

structure ModelUsage where
  inputTokens : Int := 0
  outputTokens : Int := 0
  totalTokens : Int := 0

structure RunJournal (J : Type) where
  trackTokens : Bool := true
  totalInputTokens : Int := 0
  totalOutputTokens : Int := 0
  totalTokens : Int := 0
  llmCallCount : ℕ := 0
  leadAgentTokens : Int := 0
  subagentTokens : Int := 0
  middlewareTokens : Int := 0
  tokensByModel : OrdDict String ModelUsage := .empty
  countedLlmRunIds : List String := []
  countedExternalSourceIds : List String := []
  countedMessageLlmRunIds : List String := []
  lastAiMsg : Option String := none
  msgCount : ℕ := 0
  hadLlmErrorFallback : Bool := false
  llmErrorFallbackMessage : Option String := none
  llmStartTimes : OrdDict String ℕ := .empty
  llmCallIndex : ℕ := 0
  seenLlmStarts : List String := []
  emitted : List (JournalEvent J) := []

inductive Bucket where
  | subagent
  | middleware
  | leadAgent
  deriving DecidableEq

def hasPrefix (p s : String) : Bool := p.toList.isPrefixOf s.toList

def Bucket.ofCaller (caller : String) : Bucket :=
  if hasPrefix "subagent:" caller then .subagent
  else if hasPrefix "middleware:" caller then .middleware
  else .leadAgent

/-- `_identify_caller`; a tag that is no string is `none`. -/
def identifyCaller (tags : Option (List (Option String))) : String :=
  (((tags.getD []).filterMap id).find? fun tag =>
    hasPrefix "subagent:" tag || hasPrefix "middleware:" tag || tag = "lead_agent").getD "lead_agent"

/-- `a or b` on optional texts. -/
def orText (a b : Option String) : Option String :=
  match a with
  | some s => if s = "" then b else some s
  | none => b

namespace RunJournal

variable {J : Type}

def recordModelUsage (j : RunJournal J) (modelName : Option String) (input output total : Int) :
    RunJournal J :=
  if total ≤ 0 then j
  else
    let key := (orText modelName none).getD "unknown"
    let bucket := (j.tokensByModel.get? key).getD {}
    { j with
      tokensByModel := j.tokensByModel.set key
        ⟨bucket.inputTokens + input, bucket.outputTokens + output, bucket.totalTokens + total⟩ }

def account (j : RunJournal J) (caller : String) (modelName : Option String)
    (input output total : Int) : RunJournal J :=
  let j := { j with
    totalInputTokens := j.totalInputTokens + input
    totalOutputTokens := j.totalOutputTokens + output
    totalTokens := j.totalTokens + total }
  let j :=
    match Bucket.ofCaller caller with
    | .subagent => { j with subagentTokens := j.subagentTokens + total }
    | .middleware => { j with middlewareTokens := j.middlewareTokens + total }
    | .leadAgent => { j with leadAgentTokens := j.leadAgentTokens + total }
  j.recordModelUsage modelName input output total

def recordMessageSummary (j : RunJournal J) (m : ResponseMessage J) (caller : String) :
    RunJournal J :=
  { j with
    msgCount := j.msgCount + 1
    lastAiMsg := if m.isAi && caller = "lead_agent" && m.text ≠ "" then
      some (m.text.take 2000).toString else j.lastAiMsg }

def noteFallback (j : RunJournal J) (m : ResponseMessage J) : RunJournal J :=
  match m.errorFallback with
  | none => j
  | some (detail, reason) =>
    { j with
      hadLlmErrorFallback := true
      llmErrorFallbackMessage :=
        (orText detail (orText reason (orText (some (m.text.take 2000).toString) none))).or
          j.llmErrorFallbackMessage }

/-- The total of a usage dict, `input + output` where it has none. -/
def totalOf (u : Usage) : Int :=
  let total := u.totalTokens.getD 0
  if total = 0 then u.inputTokens.getD 0 + u.outputTokens.getD 0 else total

/-- What `on_llm_end` does with a message's tokens. -/
def countMessage (j : RunJournal J) (rid caller : String) (m : ResponseMessage J) : RunJournal J :=
  let u := m.usage.getD {}
  if j.trackTokens && 0 < totalOf u && rid ∉ j.countedLlmRunIds then
    let j := { j with
      countedLlmRunIds := j.countedLlmRunIds ++ [rid]
      llmCallCount := j.llmCallCount + 1 }
    j.account caller (orText m.modelName m.model) (u.inputTokens.getD 0) (u.outputTokens.getD 0)
      (totalOf u)
  else j

/-- The body of the loop of `on_llm_end`, at `now` milliseconds. -/
def onLlmEndMessage (j : RunJournal J) (rid : String) (tags : Option (List (Option String)))
    (now : ℕ) (m : ResponseMessage J) : RunJournal J :=
  let caller := identifyCaller tags
  let latency := (j.llmStartTimes.get? rid).bind fun start =>
    if start = 0 then none else some (now - start)
  let j := { j with llmStartTimes := j.llmStartTimes.pop rid }
  let j := j.noteFallback m
  let j : RunJournal J := if rid ∈ j.seenLlmStarts then j else
    { j with llmCallIndex := j.llmCallIndex + 1, seenLlmStarts := j.seenLlmStarts ++ [rid] }
  let event : JournalEvent J :=
    { eventType := "llm.ai.response", category := "message", content := m.dump
      caller := some caller, usage := some (m.usage.getD {}), latencyMs := latency
      llmCallIndex := some j.llmCallIndex }
  let j := { j with emitted := j.emitted ++ [event] }
  let j := if rid ∈ j.countedMessageLlmRunIds then j else j.recordMessageSummary m caller
  j.countMessage rid caller m

def onLlmEnd (j : RunJournal J) (rid : String) (tags : Option (List (Option String))) (now : ℕ)
    (messages : List (ResponseMessage J)) : RunJournal J :=
  let j := messages.foldl (fun j m => j.onLlmEndMessage rid tags now m) j
  if messages.isEmpty then j
  else if rid ∈ j.countedMessageLlmRunIds then j
  else { j with countedMessageLlmRunIds := j.countedMessageLlmRunIds ++ [rid] }

/-- The total of an external record, `input + output` where it has none. -/
def externalTotal (u : Usage) : Int :=
  let total := u.totalTokens.getD 0
  if total ≤ 0 then u.inputTokens.getD 0 + u.outputTokens.getD 0 else total

def recordExternalUsage (j : RunJournal J) (x : ExternalUsage) : RunJournal J :=
  if x.sourceRunId = "" then j
  else if x.sourceRunId ∈ j.countedExternalSourceIds then j
  else if externalTotal x.usage ≤ 0 then j
  else
    let j := { j with countedExternalSourceIds := j.countedExternalSourceIds ++ [x.sourceRunId] }
    j.account x.caller x.modelName (x.usage.inputTokens.getD 0) (x.usage.outputTokens.getD 0)
      (externalTotal x.usage)

def recordExternalLlmUsageRecords (j : RunJournal J) (records : List ExternalUsage) :
    RunJournal J :=
  if !j.trackTokens then j else records.foldl recordExternalUsage j

end RunJournal

/-- What `get_completion_data` reports of tokens. -/
structure CompletionData where
  totalInputTokens : Int
  totalOutputTokens : Int
  totalTokens : Int
  llmCallCount : ℕ
  leadAgentTokens : Int
  subagentTokens : Int
  middlewareTokens : Int
  tokenUsageByModel : List (String × ModelUsage)
  messageCount : ℕ
  lastAiMessage : Option String

def RunJournal.getCompletionData {J : Type} (j : RunJournal J) : CompletionData where
  totalInputTokens := j.totalInputTokens
  totalOutputTokens := j.totalOutputTokens
  totalTokens := j.totalTokens
  llmCallCount := j.llmCallCount
  leadAgentTokens := j.leadAgentTokens
  subagentTokens := j.subagentTokens
  middlewareTokens := j.middlewareTokens
  tokenUsageByModel := j.tokensByModel.entries
  messageCount := j.msgCount
  lastAiMessage := j.lastAiMsg

inductive UsageCall (J : Type) where
  | onLlmEnd (rid : String) (tags : Option (List (Option String))) (now : ℕ)
      (messages : List (ResponseMessage J))
  | recordExternal (records : List ExternalUsage)

def RunJournal.apply {J : Type} (j : RunJournal J) : UsageCall J → RunJournal J
  | .onLlmEnd rid tags now messages => j.onLlmEnd rid tags now messages
  | .recordExternal records => j.recordExternalLlmUsageRecords records

section Flushing

variable {ε : Type}

/-- A `_flush_async`: inside `put_batch`, past it, or over with `_on_flush_done` still to come. -/
inductive FlushTask (ε : Type) where
  | writing (batch : List ε)
  | stored
  | failed (batch : List ε)
  | ended
  deriving DecidableEq

/-- Where `flush()` is. In `waiting` the background task or the progress task it awaits is over. -/
inductive FlushPhase (ε : Type) where
  | idle
  | gathering
  | waiting
  | writing (batch : List ε)
  | stored
  | failed (batch : List ε)
  | returned
  | raised
  deriving DecidableEq

/-- `flush()` when the background task is over. -/
def FlushPhase.wake : FlushPhase ε → FlushPhase ε
  | .gathering => .waiting
  | phase => phase

/-- The write buffer, the tasks that empty it and the run's events in the store. `puts` are the
events `_put` was given. -/
structure JournalBuffer (ε : Type) where
  buffer : List ε := []
  pending : Option (FlushTask ε) := none
  flush : FlushPhase ε := .idle
  store : List ε := []
  puts : List ε := []
  deriving DecidableEq

namespace JournalBuffer

/-- `_flush_sync`; `loop` is whether an event loop is running. -/
def flushSync (s : JournalBuffer ε) (loop : Bool) : JournalBuffer ε :=
  if s.buffer.isEmpty then s
  else if s.pending.isSome then s
  else if !loop then s
  else { s with buffer := [], pending := some (.writing s.buffer) }

def append (s : JournalBuffer ε) (e : ε) : JournalBuffer ε :=
  { s with buffer := s.buffer ++ [e], puts := s.puts ++ [e] }

def put (flushThreshold : ℕ) (s : JournalBuffer ε) (e : ε) (loop : Bool) : JournalBuffer ε :=
  let s := s.append e
  if flushThreshold ≤ s.buffer.length then s.flushSync loop else s

/-- The head of the loop of `flush()`. -/
def drain (flushThreshold : ℕ) (s : JournalBuffer ε) : JournalBuffer ε :=
  if s.buffer.isEmpty then { s with flush := .returned }
  else { s with
    flush := .writing (s.buffer.take flushThreshold)
    buffer := s.buffer.drop flushThreshold }

/-- The end of the background task; `flush()` may be waiting for it. -/
def taskOver (s : JournalBuffer ε) : JournalBuffer ε :=
  { s with pending := some .ended, flush := s.flush.wake }

end JournalBuffer

/-- A `put_batch` stores its batch or raises; its caller goes on later. `progress` is whether
`flush()` finds a progress task under way. -/
inductive FlushAct (ε : Type) where
  | put (e : ε) (loop : Bool)
  | flushSync (loop : Bool)
  | taskStores (ok : Bool)
  | taskResumes
  | taskCancelled
  | onFlushDone
  | flush (progress : Bool)
  | flushStores (ok : Bool)
  | flushResumes (progress : Bool)
  deriving DecidableEq

/-- The journal's buffer under any interleaving of its callbacks, its task and `flush()`. -/
def journalBuffer (ε : Type) (flushThreshold : ℕ) : Machine (JournalBuffer ε) (FlushAct ε) where
  step s
    | .put e loop => some (s.put flushThreshold e loop)
    | .flushSync loop => some (s.flushSync loop)
    | .taskStores ok =>
      match s.pending with
      | some (.writing batch) =>
        if ok then some { s with pending := some .stored, store := s.store ++ batch }
        else some { s with pending := some (.failed batch) }
      | _ => none
    | .taskResumes =>
      match s.pending with
      | some .stored => some s.taskOver
      | some (.failed batch) => some { s with buffer := batch ++ s.buffer }.taskOver
      | _ => none
    | .taskCancelled =>
      match s.pending with
      | none | some .ended => none
      | some _ => some s.taskOver
    | .onFlushDone =>
      match s.pending with
      | some .ended => some { s with pending := none }
      | _ => none
    | .flush progress =>
      match s.flush with
      | .idle =>
        match s.pending with
        | none => if progress then some { s with flush := .waiting } else some (s.drain flushThreshold)
        | some .ended => some { s with flush := .waiting }
        | some _ => some { s with flush := .gathering }
      | _ => none
    | .flushStores ok =>
      match s.flush with
      | .writing batch =>
        if ok then some { s with flush := .stored, store := s.store ++ batch }
        else some { s with flush := .failed batch }
      | _ => none
    | .flushResumes progress =>
      match s.flush with
      | .waiting => if progress then some s else some (s.drain flushThreshold)
      | .stored => some (s.drain flushThreshold)
      | .failed batch => some { s with flush := .raised, buffer := batch ++ s.buffer }
      | _ => none

end Flushing

end DeerFlow

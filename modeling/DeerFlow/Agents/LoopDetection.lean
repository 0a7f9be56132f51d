import DeerFlow.Data.Machine
import DeerFlow.JsonText

/-!
# Loop detection

`LoopDetectionMiddleware` counts how often the same set of calls stands in a window of the last
responses, and how often each tool was called; each layer first warns and then strips the tool
calls. A warning of the first ends the check before the second has counted.
-/

namespace DeerFlow

/-- `hashlib.md5(..).hexdigest()`, `str(v)`, and `int(v)`, `none` where it raises. -/
structure LoopTexts where
  md5 : List Char → String
  str : Json → String
  int : Json → Option ℤ

/-- A tool call of a response, a dict with or without a name and arguments. -/
structure ToolCall where
  name : Option String := none
  args : Option Json := none

section Hash

/-- `json.dumps(v, sort_keys=True)`. -/
def Json.sortedText (v : Json) : List Char := asciiText v.sortKeys.dumps

/-- `_normalize_tool_call_args`: the arguments as a dict, and a key for what is no dict. -/
def normalizeToolCallArgs : Json → Dict × Option (List Char)
  | .obj kvs => (kvs, none)
  | .null => ([], none)
  | .str s =>
    match Json.loads s.toList with
    | none => ([], some s.toList)
    | some (.obj kvs) => (kvs, none)
    | some v => ([], some v.sortedText)
  | v => ([], some v.sortedText)

def salientFields : List String := ["path", "url", "query", "command", "pattern", "glob", "cmd"]

/-- `args.get(field)`, where `null` counts as absent. -/
def Dict.present? (args : Dict) (field : String) : Option Json :=
  match args.get? field with
  | none | some .null => none
  | some v => some v

variable (τ : LoopTexts)

/-- The first and last line a `read_file` call names, in their order. -/
def readRange (args : Dict) : ℤ × ℤ :=
  let start := ((args.present? "start_line").bind τ.int).getD 1
  let stop := ((args.present? "end_line").bind τ.int).getD start
  (min start stop, max start stop)

/-- The key of a `read_file` call: the path and the buckets of 200 lines it reads. -/
def readFileKey (args : Dict) : List Char :=
  let path := match args.get? "path" with
    | some v => if v.truthy then (τ.str v).toList else []
    | none => []
  let (start, stop) := readRange τ args
  path ++ ':' :: (intText ((max start 1 - 1) / 200) ++ '-' :: intText ((max stop 1 - 1) / 200))

def stableToolKey (name : String) (args : Dict) (fallback : Option (List Char)) : List Char :=
  let stable := salientFields.filterMap fun f => (args.present? f).map fun v => (f, v)
  if name = "read_file" ∧ fallback = none then readFileKey τ args
  else if name = "write_file" ∨ name = "str_replace" then
    fallback.getD (Json.obj args).sortedText
  else if stable ≠ [] then (Json.obj stable).sortedText
  else fallback.getD (Json.obj args).sortedText

def ToolCall.normalized (tc : ToolCall) : String :=
  let (args, fallback) := normalizeToolCallArgs (tc.args.getD (.obj []))
  let name := tc.name.getD ""
  String.ofList (name.toList ++ ':' :: stableToolKey τ name args fallback)

def hashToolCalls (calls : List ToolCall) : String :=
  let normalized := (calls.map (·.normalized τ)).insertionSort (· ≤ ·)
  String.ofList ((τ.md5 (Json.arr (normalized.map .str)).sortedText).toList.take 12)

end Hash

structure ToolFreqOverride where
  warn : ℕ
  hardLimit : ℕ
  warn_pos : 1 ≤ warn
  warn_le : warn ≤ hardLimit

/-- `LoopDetectionConfig`, with what its validators check. -/
structure LoopDetectionConfig where
  warnThreshold : ℕ := 3
  hardLimit : ℕ := 5
  windowSize : ℕ := 20
  maxTrackedThreads : ℕ := 100
  toolFreqWarn : ℕ := 30
  toolFreqHardLimit : ℕ := 50
  toolFreqOverrides : OrdDict String ToolFreqOverride := .empty
  warnThreshold_pos : 1 ≤ warnThreshold := by decide
  warn_le : warnThreshold ≤ hardLimit := by decide
  windowSize_pos : 1 ≤ windowSize := by decide
  maxTrackedThreads_pos : 1 ≤ maxTrackedThreads := by decide
  toolFreqWarn_pos : 1 ≤ toolFreqWarn := by decide
  toolFreq_le : toolFreqWarn ≤ toolFreqHardLimit := by decide

namespace LoopDetectionConfig

variable (cfg : LoopDetectionConfig) (name : String)

def effWarn : ℕ := ((cfg.toolFreqOverrides.get? name).map (·.warn)).getD cfg.toolFreqWarn

def effHard : ℕ := ((cfg.toolFreqOverrides.get? name).map (·.hardLimit)).getD cfg.toolFreqHardLimit

end LoopDetectionConfig

def warningMsg : String :=
  "[LOOP DETECTED] You are repeating the same tool calls. Stop calling tools and produce your "
    ++ "final answer now. If you cannot complete the task, summarize what you accomplished so far."

def toolFreqWarningMsg (name : String) (count : ℕ) : String :=
  s!"[LOOP DETECTED] You have called {name} {count} times without producing a final answer. Stop "
    ++ "calling tools and produce your final answer now. If you cannot complete the task, "
    ++ "summarize what you accomplished so far."

def hardStopMsg : String :=
  "[FORCED STOP] Repeated tool calls exceeded the safety limit. Producing final answer with "
    ++ "results collected so far."

def toolFreqHardStopMsg (name : String) (count : ℕ) : String :=
  s!"[FORCED STOP] Tool {name} called {count} times — exceeded the per-tool safety limit. "
    ++ "Producing final answer with results collected so far."

/-- What is kept for a thread; the code has a dict of threads for each field. -/
structure ThreadTrack where
  history : List String := []
  warned : List String := []
  toolFreq : OrdDict String ℕ := .empty
  toolFreqWarned : List String := []

abbrev Verdict := Option String × Bool

namespace ThreadTrack

variable (cfg : LoopDetectionConfig)

def freq (t : ThreadTrack) (name : String) : ℕ := (t.toolFreq.get? name).getD 0

def counted (t : ThreadTrack) (name : String) : ThreadTrack :=
  { t with toolFreq := t.toolFreq.set name (t.freq name + 1) }

/-- The second layer: the calls are counted up to the first that gives a warning or a stop. -/
def countCalls : List ToolCall → ThreadTrack → ThreadTrack × Verdict
  | [], t => (t, none, false)
  | tc :: rest, t =>
    let name := tc.name.getD ""
    if name = "" then countCalls rest t
    else
      let t := t.counted name
      if cfg.effHard name ≤ t.freq name then
        (t, some (toolFreqHardStopMsg name (t.freq name)), true)
      else if cfg.effWarn name ≤ t.freq name ∧ name ∉ t.toolFreqWarned then
        ({ t with toolFreqWarned := t.toolFreqWarned ++ [name] },
          some (toolFreqWarningMsg name (t.freq name)), false)
      else countCalls rest t

def remember (t : ThreadTrack) (callHash : String) : ThreadTrack :=
  let history := t.history ++ [callHash]
  let history := history.drop (history.length - cfg.windowSize)
  { t with history, warned := t.warned.filter (· ∈ history) }

/-- `_track_and_check`, on the thread of the response. -/
def check (τ : LoopTexts) (t : ThreadTrack) (calls : List ToolCall) : ThreadTrack × Verdict :=
  let callHash := hashToolCalls τ calls
  let t := t.remember cfg callHash
  let count := t.history.count callHash
  if cfg.hardLimit ≤ count then (t, some hardStopMsg, true)
  else if cfg.warnThreshold ≤ count ∧ callHash ∉ t.warned then
    ({ t with warned := t.warned ++ [callHash] }, some warningMsg, false)
  else countCalls cfg calls t

end ThreadTrack

inductive MessageContent where
  | none
  | text (s : String)
  | blocks (bs : List Json)

structure AiMessage where
  toolCalls : List ToolCall := []
  content : MessageContent := .none
  additionalKwargs : Dict := []
  responseMetadata : Dict := []

/-- A message of the conversation; of those that are not of the model nothing is read. -/
inductive Message where
  | ai (m : AiMessage)
  /-- The `HumanMessage` with the name `loop_warning`. -/
  | loopWarning (content : String)
  | other

/-- `_append_text`. -/
def MessageContent.append (text : String) : MessageContent → MessageContent
  | .none => .text text
  | .text s => .text (s ++ "\n\n" ++ text)
  | .blocks bs => .blocks (bs ++ [.obj [("type", .str "text"), ("text", .str ("\n\n" ++ text))]])

/-- The message without its tool calls, `_build_hard_stop_update` applied. -/
def AiMessage.stripped (m : AiMessage) (warning : String) : AiMessage where
  toolCalls := []
  content := m.content.append warning
  additionalKwargs := m.additionalKwargs.filter fun kv => kv.1 ≠ "tool_calls" ∧ kv.1 ≠ "function_call"
  responseMetadata :=
    match m.responseMetadata.get? "finish_reason" with
    | some (.str s) =>
      if s = "tool_calls" then m.responseMetadata.set "finish_reason" (.str "stop")
      else m.responseMetadata
    | _ => m.responseMetadata

structure LoopRuntime where
  threadId : Option String := none
  runId : Option String := none

/-- `_pending_key`. -/
def LoopRuntime.key (rt : LoopRuntime) : String × String :=
  let orDefault : Option String → String := fun x => (x.filter (· ≠ "")).getD "default"
  (orDefault rt.threadId, orDefault rt.runId)

/-- Its threads, the least recently used first, and the warnings for the next model call of a
run. -/
structure LoopDetection where
  tracks : OrdDict String ThreadTrack := .empty
  pendingWarnings : OrdDict (String × String) (List String) := .empty
  touchOrder : List (String × String) := []

inductive LoopAct where
  | beforeAgent (rt : LoopRuntime)
  | wrapModelCall (rt : LoopRuntime) (messages : List Message)
  | afterModel (rt : LoopRuntime) (messages : List Message)
  | afterAgent (rt : LoopRuntime)
  | reset (threadId : Option String)

namespace LoopDetection

variable (cfg : LoopDetectionConfig) (τ : LoopTexts) (s : LoopDetection)

/-- `_drop_pending_warning_key_locked`, for every key that `p` holds of. -/
def dropPending (p : String × String → Bool) : LoopDetection :=
  { s with
    pendingWarnings := s.pendingWarnings.filter fun k _ => !p k
    touchOrder := s.touchOrder.filter fun k => !p k }

def evictIfNeeded : LoopDetection :=
  let evicted := s.tracks.keys.take (s.tracks.keys.length - cfg.maxTrackedThreads)
  { s.dropPending (fun k => evicted.contains k.1) with
    tracks := s.tracks.filter fun k _ => !evicted.contains k }

def touch (thread : String) : LoopDetection :=
  match s.tracks.get? thread with
  | some t => { s with tracks := (s.tracks.pop thread).set thread t }
  | none => { s with tracks := s.tracks.set thread {} }.evictIfNeeded cfg

def queuePendingWarning (key : String × String) (warning : String) : LoopDetection :=
  let warnings := (s.pendingWarnings.get? key).getD []
  let warnings := if warning ∈ warnings then warnings else warnings ++ [warning]
  let touched := s.touchOrder.filter (· ≠ key) ++ [key]
  let s : LoopDetection :=
    { s with
      pendingWarnings := s.pendingWarnings.set key (warnings.drop (warnings.length - 4))
      touchOrder := touched }
  let overflow := (touched.filter (· ≠ key)).take (touched.length - max 1 (cfg.maxTrackedThreads * 2))
  s.dropPending overflow.contains

def trackAndCheck (thread : String) (calls : List ToolCall) : LoopDetection × Verdict :=
  let s := s.touch cfg thread
  let (t, verdict) := ((s.tracks.get? thread).getD {}).check cfg τ calls
  ({ s with tracks := s.tracks.set thread t }, verdict)

/-- `after_model`: the middleware, and the message that takes the place of the last one. -/
def afterModel (rt : LoopRuntime) (messages : List Message) : LoopDetection × Option AiMessage :=
  match messages.getLast? with
  | some (.ai m) =>
    if m.toolCalls = [] then (s, none)
    else
      match s.trackAndCheck cfg τ rt.key.1 m.toolCalls with
      | (s, warning, true) => (s, some (m.stripped (warning.getD hardStopMsg)))
      | (s, some warning, false) => (s.queuePendingWarning cfg rt.key warning, none)
      | (s, none, false) => (s, none)
  | _ => (s, none)

def drainPendingWarnings (rt : LoopRuntime) : LoopDetection × List String :=
  (s.dropPending (· = rt.key), (s.pendingWarnings.get? rt.key).getD [])

def formatWarningMessage (warnings : List String) : String := "\n\n".intercalate warnings.eraseDups

/-- `_augment_request`: the middleware, and the messages that go to the model. -/
def augmentRequest (rt : LoopRuntime) (messages : List Message) : LoopDetection × List Message :=
  let (s, warnings) := s.drainPendingWarnings rt
  (s, if warnings = [] then messages
    else messages ++ [.loopWarning (formatWarningMessage warnings)])

def reset : Option String → LoopDetection
  | none | some "" => {}
  | some thread =>
    { s.dropPending (fun k => k.1 = thread) with tracks := s.tracks.pop thread }

def act : LoopAct → LoopDetection
  | .beforeAgent rt => s.dropPending fun k => k.1 = rt.key.1 ∧ k.2 ≠ rt.key.2
  | .wrapModelCall rt messages => (s.augmentRequest rt messages).1
  | .afterAgent rt => s.dropPending (· = rt.key)
  | .afterModel rt messages => (s.afterModel cfg τ rt messages).1
  | .reset threadId => s.reset threadId

def response (rt : LoopRuntime) (messages : List Message) : Option Message :=
  match (s.afterModel cfg τ rt messages).2 with
  | some m => some (.ai m)
  | none => messages.getLast?

end LoopDetection

def loopDetection (cfg : LoopDetectionConfig) (τ : LoopTexts) : Machine LoopDetection LoopAct where
  step s a := some (s.act cfg τ a)

/-- `_track_and_check` of an `after_model`, with the warning that is to be queued. -/
def LoopDetection.detect (cfg : LoopDetectionConfig) (τ : LoopTexts) (s : LoopDetection)
    (rt : LoopRuntime) (messages : List Message) : LoopDetection × Option String :=
  match messages.getLast? with
  | some (.ai m) =>
    if m.toolCalls = [] then (s, none)
    else
      match s.trackAndCheck cfg τ rt.key.1 m.toolCalls with
      | (s, _, true) => (s, none)
      | (s, warning, false) => (s, warning)
  | _ => (s, none)

/-- A model call: what was `queued` for its run since the last drain, and the messages it was given
and has sent. -/
structure LoopRequest where
  queued : List String
  given : List Message
  sent : List Message

/-- The lock is free between `_track_and_check` and `_queue_pending_warning`. `since` is what was
queued for a run since its last drain, `requests` are the model calls of all runs. -/
structure LoopHooks where
  middleware : LoopDetection := {}
  queueing : List ((String × String) × String) := []
  since : String × String → List String := fun _ => []
  requests : List LoopRequest := []

inductive LoopHookAct where
  | hook (a : LoopAct)
  | queue (i : ℕ)

def loopHooks (cfg : LoopDetectionConfig) (τ : LoopTexts) : Machine LoopHooks LoopHookAct where
  step s
    | .hook (.afterModel rt messages) =>
      let (d, warning) := s.middleware.detect cfg τ rt messages
      some { s with
        middleware := d
        queueing := s.queueing ++ (warning.map fun w => (rt.key, w)).toList }
    | .hook (.wrapModelCall rt messages) =>
      let (d, sent) := s.middleware.augmentRequest rt messages
      some { s with
        middleware := d
        since := Function.update s.since rt.key []
        requests := s.requests ++ [⟨s.since rt.key, messages, sent⟩] }
    | .hook a => some { s with middleware := s.middleware.act cfg τ a }
    | .queue i => s.queueing[i]?.map fun (key, warning) => { s with
        middleware := s.middleware.queuePendingWarning cfg key warning
        queueing := s.queueing.eraseIdx i
        since := Function.update s.since key (s.since key ++ [warning]) }

end DeerFlow

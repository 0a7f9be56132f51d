import DeerFlow.Worker

/-!
# Starting a run

`start_run` of the gateway and what it makes of the request body: the graph input and the run
config. What the message library and Python's texts do is a parameter of the request.
-/

namespace DeerFlow

open Coop Coro Dict

/-- The messages of an input, converted one by one; a dict that is no message raises with its
index. -/
def convertMessages (convert : Json → Except Exc (List Json)) :
    ℕ → List Json → Except Exc (List Json)
  | _, [] => .ok []
  | i, .obj kvs :: ms =>
    match convert (.obj kvs) with
    | .error e =>
      if e.name ∈ ["ValueError", "TypeError", "NotImplementedError"] then
        .error (.http 400 s!"Invalid message at input.messages[{i}]: {e.msg}")
      else .error e
    | .ok xs => (convertMessages convert (i + 1) ms).map fun ys => xs ++ ys
  | i, m :: ms => (convertMessages convert (i + 1) ms).map fun ys => m :: ys

def normalizeInput (convert : Json → Except Exc (List Json)) : Option Dict → Except Exc Dict
  | none => .ok []
  | some raw =>
    match raw.get? "messages" with
    | some (.arr (m :: ms)) =>
      (convertMessages convert 0 (m :: ms)).map fun ys => raw.set "messages" (.arr ys)
    | _ => .ok raw

/-- One element of a sequence `dict.update` is given: the key and value it adds, where the key is
a text. -/
def updatePair (i : ℕ) : Json → Except Exc Dict
  | .arr [.str k, v] => .ok [(k, v)]
  | .arr [.arr _, _] => .error (.other "TypeError" "unhashable type: 'list'")
  | .arr [.obj _, _] => .error (.other "TypeError" "unhashable type: 'dict'")
  | .arr [_, _] => .ok []
  | .arr xs => .error (badLength xs.length)
  | .obj [(k, _), (v, _)] => .ok [(k, .str v)]
  | .obj kvs => .error (badLength kvs.length)
  | .str s =>
    match s.toList with
    | [k, v] => .ok [(k.toString, .str v.toString)]
    | cs => .error (badLength cs.length)
  | _ => .error (.other "TypeError"
      s!"cannot convert dictionary update sequence element #{i} to a sequence")
where
  badLength (n : ℕ) : Exc :=
    .value s!"dictionary update sequence element #{i} has length {n}; 2 is required"

def updatePairs : ℕ → List Json → Except Exc Dict
  | _, [] => .ok []
  | i, x :: xs =>
    match updatePair i x with
    | .error e => .error e
    | .ok kvs => (updatePairs (i + 1) xs).map fun kvs' => kvs ++ kvs'

/-- What `dict.update` adds for its argument. -/
def updateArg : Json → Except Exc Dict
  | .obj kvs => .ok kvs
  | .arr xs => updatePairs 0 xs
  | .str s => updatePairs 0 (s.toList.map fun c => .str c.toString)
  | v => .error (.other "TypeError" s!"'{v.typeName}' object is not iterable")

/-- `v.update` or another attribute of a dict, on what is none. -/
def attributeError (v : Json) (name : String) : Exc :=
  .other "AttributeError" s!"'{v.typeName}' object has no attribute '{name}'"

/-- The `configurable` or `context` a request config asks for, with the thread. -/
def runtimeOptions (t : ThreadId) (request : Dict) : Except Exc (String × Dict) :=
  let configurable := (request.get? "configurable").getD (.obj [])
  match request.get? "context" with
  | some context =>
    match configurable, context with
    | .obj _, .null => .ok ("context", [("thread_id", .str t)])
    | .obj _, .obj kvs => .ok ("context", set kvs "thread_id" (.str t))
    | .obj _, _ => .error (.value "request config 'context' must be a mapping or null.")
    | v, _ => .error (attributeError v "keys")
  | none =>
    (updateArg configurable).map fun kvs =>
      ("configurable", update [("thread_id", .str t)] kvs)

def recursionLimit : Dict := [("recursion_limit", .num 100)]

def baseConfig (t : ThreadId) : Option Dict → Except Exc Dict
  | some (kv :: kvs) =>
    (runtimeOptions t (kv :: kvs)).map fun o =>
      update (set recursionLimit o.1 (.obj o.2))
        (update [] ((kv :: kvs).filter fun e => e.1 ≠ "configurable" ∧ e.1 ≠ "context"))
  | _ => .ok (set recursionLimit "configurable" (.obj [("thread_id", .str t)]))

/-- The text under `key` of a dict under `name` of the config. -/
def textIn (config : Dict) (name key : String) : Option String :=
  match (config.get? name).bind (·.get? key) with
  | some (.str s) => some s
  | _ => none

/-- Change a dict under `name` of the config, where it is one. -/
def onDict (config : Dict) (name : String) (f : Dict → Dict) : Dict :=
  match config.get? name with
  | some (.obj kvs) => config.set name (.obj (f kvs))
  | _ => config

def resolveRootRunName (text : TextOps) (config : Dict) (assistant : String) : String :=
  match ["context", "configurable"].filterMap fun name =>
      (textIn config name "agent_name").filter fun s => text.strip s ≠ "" with
  | s :: _ => s
  | [] => if assistant = "" then "lead_agent" else assistant

def defaultAssistantId : String := "lead_agent"

def normalizeAssistantId (text : TextOps) (assistant : String) : String :=
  (text.lower (text.strip assistant)).map fun c => if c = '_' then '-' else c

/-- `[a-z0-9-]+`. -/
def validAgentName (s : String) : Bool :=
  s ≠ "" && s.toList.all fun c => ('a' ≤ c && c ≤ 'z') || ('0' ≤ c && c ≤ '9') || c = '-'

/-- Forward a custom assistant as `agent_name`. -/
def injectAgentName (text : TextOps) (config : Dict) (assistant : String) : Except Exc Dict :=
  let normalized := normalizeAssistantId text assistant
  if !validAgentName normalized then
    .error (.value (s!"Invalid assistant_id '{assistant}': must contain only letters, digits, "
      ++ "and hyphens after normalization."))
  else
    let config := (config.setDefault "configurable" (.obj [])).setDefault "context" (.obj [])
    let explicit := (textIn config "configurable" "agent_name").or
      (textIn config "context" "agent_name")
    let name := if explicit = some "" then normalized else explicit.getD normalized
    let config := onDict (onDict config "configurable" fun d => d.set "agent_name" (.str name))
      "context" fun d => d.set "agent_name" (.str name)
    .ok (config.setDefault "run_name" (.str (resolveRootRunName text config normalized)))

def addMetadata (config : Dict) : Option Dict → Except Exc Dict
  | some (kv :: kvs) =>
    match (config.get? "metadata").getD (.obj []) with
    | .obj d => .ok (config.set "metadata" (.obj (update d (kv :: kvs))))
    | v => .error (attributeError v "update")
  | _ => .ok config

def buildRunConfig (text : TextOps) (t : ThreadId) (request metadata : Option Dict)
    (assistant : Option String) : Except Exc Dict := do
  let config ← baseConfig t request
  let config ←
    match assistant with
    | none => .ok config
    | some a => if a = "" || a = defaultAssistantId then .ok config else injectAgentName text config a
  addMetadata config metadata

def contextConfigurableKeys : List String :=
  ["model_name", "mode", "thinking_enabled", "reasoning_effort", "is_plan_mode",
    "subagent_enabled", "max_concurrent_subagents", "agent_name", "is_bootstrap"]

def mergeRunContextOverrides (config : Dict) : Option Dict → Dict
  | some (kv :: kvs) =>
    let context : Dict := kv :: kvs
    let config := (config.setDefault "configurable" (.obj [])).setDefault "context" (.obj [])
    let take (keys : List String) (d : Dict) : Dict :=
      keys.foldl (fun d k => ((context.get? k).map fun v => d.setDefault k v).getD d) d
    onDict (onDict config "configurable" (take contextConfigurableKeys)) "context"
      (take (contextConfigurableKeys ++ ["user_id"]))
  | _ => config

def injectAuthenticatedUserContext (config : Dict) : Option RequestUser → Dict
  | some u =>
    if u.internal then config
    else onDict (config.setDefault "context" (.obj [])) "context" fun d =>
      d.set "user_id" (.str u.id)
  | none => config

def StartRequest.modelName (q : StartRequest) : Option String :=
  match (q.body.context.getD []).get? "model_name" with
  | none => none
  | some .null => none
  | some (.str s) => some s
  | some v => some (q.text.str v)

def StartRequest.createArgs (q : StartRequest) : CreateArgs where
  runId := q.runId
  threadId := q.threadId
  assistantId := q.body.assistantId
  onDisconnect := q.body.onDisconnect
  multitaskStrategy := q.body.multitaskStrategy
  modelName := q.modelName
  orgId := q.exec.ctx.tenantOrg

def StartRequest.graphInput (q : StartRequest) : Except Exc Dict :=
  match (q.body.command.getD []).get? "resume" with
  | none | some .null => normalizeInput q.convertToMessages q.body.input
  | some v => .ok [("resume", v)]

def StartRequest.runConfig (q : StartRequest) : Except Exc Dict :=
  (buildRunConfig q.text q.threadId q.body.config q.body.metadata q.body.assistantId).map fun c =>
    injectAuthenticatedUserContext (mergeRunContextOverrides c q.body.context) q.user

/-- `owner_user_id`, where it is not empty. -/
def StartRequest.owner (q : StartRequest) : Option String := q.ownerUserId.filter (· ≠ "")

def checkModel (q : StartRequest) : Co Unit :=
  match q.modelName with
  | some m =>
    if m ≠ "" && !q.modelAllowed m then
      throw (.http 400 s!"Model '{m}' is not in the configured model allowlist")
    else pure ()
  | none => pure ()

def checkThreadAccess (q : StartRequest) : Co Unit :=
  match q.user with
  | none => pure ()
  | some u => do
    let allowed ← awaitOp (.checkAccess q.threadId u.id)
    let allowed ←
      match q.owner with
      | some o => if !allowed && u.internal then awaitOp (.checkAccess q.threadId o) else pure allowed
      | none => pure allowed
    if allowed then pure () else throw (.http 404 s!"Thread {q.threadId} not found")

def upsertThread (q : StartRequest) : Co Unit := do
  let existing ← awaitOp (.threadGet q.threadId true)
  let existing ←
    match existing, q.owner with
    | none, some o => do
      let unscoped ← awaitOp (.threadGet q.threadId false)
      match unscoped with
      | none => pure none
      | some u => do
        if u ≠ o then awaitOp (.threadWrite q.threadId "update_owner")
        awaitOp (.threadGet q.threadId true)
    | e, _ => pure e
  match existing with
  | none => awaitOp (.threadWrite q.threadId "create")
  | some _ => awaitOp (.threadWrite q.threadId "update_status")

/-- Schedule `run_agent` and keep its task in the record. -/
def dispatch (ρ : ReplicaId) (r : RunId) (x : ExecRequest) : Co Unit := do
  fork (.runAgent ρ r x)
  modify fun w => w.updateRecord ρ r fun y => { y with task := some {} }

/-- `create_or_reject` as the gateway calls it. -/
def createRun (ρ : ReplicaId) (q : StartRequest) : Co RunId :=
  tryExcept (createOrReject ρ q.createArgs) fun e =>
    match e with
    | .conflict m => throw (.http 409 m)
    | .unsupportedStrategy m => throw (.http 501 m)
    | e => throw e

def startRun (ρ : ReplicaId) (q : StartRequest) : Co RunId := do
  checkModel q
  checkThreadAccess q
  if q.releaseEnforce then
    awaitOp (.resolveRelease ((q.body.assistantId.filter (· ≠ "")).getD defaultAssistantId))
  let r ← createRun ρ q
  orReturn (upsertThread q) ()
  let _ ← ofExcept q.graphInput
  let _ ← ofExcept q.runConfig
  dispatch ρ r q.exec
  pure r

end DeerFlow

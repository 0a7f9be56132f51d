import DeerFlow.Events.Record
import DeerFlow.PyText

/-!
# The JSONL event store

One file per run, a JSON text per line. `read_text().strip().splitlines()` cuts at every line
boundary Python knows, also at those a JSON text holds unescaped.
-/

namespace DeerFlow

/-- The boundaries of `str.splitlines`. -/
def isLineBreak (c : Char) : Bool :=
  let n := c.toNat
  (10 ≤ n && n ≤ 13) || (28 ≤ n && n ≤ 30) || n = 0x85 || n = 0x2028 || n = 0x2029

/-- The lines from here on, `line` read so far. -/
def splitFrom (line : List Char) : List Char → List (List Char)
  | [] => if line.isEmpty then [] else [line]
  | '\r' :: '\n' :: cs => line :: splitFrom [] cs
  | c :: cs => if isLineBreak c then line :: splitFrom [] cs else splitFrom (line ++ [c]) cs

def splitlines (cs : List Char) : List (List Char) := splitFrom [] cs

/-- `_SAFE_ID_PATTERN.match`: `$` also matches before a line feed at the end. -/
def isSafeId (id : String) : Bool :=
  let safe := fun c : Char => c.isAlphanum || c = '_' || c = '-'
  let cs := id.toList
  let body := if cs.getLast? = some '\n' then cs.dropLast else cs
  !body.isEmpty && body.all safe

variable {J : Type}

/-- How the write of a line ends: it goes through, or it raises with so many characters written. -/
inductive WriteEnd where
  | ok
  | fails (written : ℕ)

/-- The files by thread and run, and the counters of this process. -/
structure JsonlEventStore where
  files : OrdDict (String × String) (List Char) := .empty
  seqCounters : OrdDict String Int := .empty

/-- `d.get(key)` on the fields of a dict. -/
def fieldOf (key : String) (fs : List (String × J)) : Option J :=
  (fs.find? fun f => f.1 = key).map Prod.snd

variable (V : JsonValues J)

def EventRecord.fields (r : EventRecord J) : List (String × J) :=
  [("thread_id", V.str r.threadId), ("run_id", V.str r.runId), ("event_type", V.str r.eventType),
    ("category", V.str r.category), ("content", r.content), ("metadata", V.dict r.metadata),
    ("seq", V.num r.seq), ("created_at", V.str r.createdAt)]

/-- `e.get("seq", 0)`; no comparison of the store takes anything but a number. -/
def seqOf (fs : List (String × J)) : Except EventStoreError Int :=
  match fieldOf "seq" fs with
  | none => .ok 0
  | some v => match V.num? v with
    | some n => .ok n
    | none => .error .badLine

/-- `e.get(key) == text`. -/
def hasText (key text : String) (fs : List (String × J)) : Bool :=
  (fieldOf key fs).bind V.str? = some text

namespace JsonlEventStore

def validateId (value label : String) : Except EventStoreError Unit :=
  if isSafeId value then .ok () else .error (.invalidId label value)

/-- The values of a file's lines; a line that does not parse is skipped. -/
def parsedLines (text : List Char) : List J := (splitlines (strip text)).filterMap V.loads

/-- A dict with its number; `.get` raises on anything else. -/
def numberedValue (v : J) : Except EventStoreError (Int × List (String × J)) :=
  match V.dict? v with
  | some fs => (seqOf V fs).map fun n => (n, fs)
  | none => .error .badLine

def numbered (values : List J) : Except EventStoreError (List (Int × List (String × J))) :=
  values.mapM (numberedValue V)

/-- `events.sort(key=lambda e: e.get("seq", 0))`. -/
def sortBySeq (values : List J) : Except EventStoreError (List (List (String × J))) := do
  let events ← numbered V values
  return (events.mergeSort fun a b => a.1 ≤ b.1).map Prod.snd

def threadFiles (s : JsonlEventStore) (threadId : String) : List (String × List Char) :=
  s.files.entries.filterMap fun f => if f.1.1 = threadId then some (f.1.2, f.2) else none

def computeMaxSeq (s : JsonlEventStore) (threadId : String) : Except EventStoreError Int := do
  validateId threadId "thread_id"
  let events ← numbered V ((s.threadFiles threadId).flatMap fun f => parsedLines V f.2)
  return (events.map Prod.fst).foldl max 0

def ensureSeqLoaded (s : JsonlEventStore) (threadId : String) :
    Except EventStoreError JsonlEventStore :=
  match s.seqCounters.get? threadId with
  | some _ => .ok s
  | none => do
    let maxSeq ← s.computeMaxSeq V threadId
    return { s with seqCounters := s.seqCounters.set threadId maxSeq }

def nextSeq (s : JsonlEventStore) (threadId : String) : JsonlEventStore × Int :=
  let next := (s.seqCounters.get? threadId).getD 0 + 1
  ({ s with seqCounters := s.seqCounters.set threadId next }, next)

def line (r : EventRecord J) : List Char := V.dumps (V.dict (r.fields V)) ++ ['\n']

/-- `text` at the end of a run's file. -/
def appendText (s : JsonlEventStore) (threadId runId : String) (text : List Char) : JsonlEventStore :=
  { s with
    files := s.files.set (threadId, runId) ((s.files.get? (threadId, runId)).getD [] ++ text) }

def writeRecord (s : JsonlEventStore) (r : EventRecord J) (written : WriteEnd) :
    JsonlEventStore × Except EventStoreError Unit :=
  match validateId r.runId "run_id", validateId r.threadId "thread_id" with
  | .error x, _ | .ok _, .error x => (s, .error x)
  | .ok _, .ok _ =>
    match written with
    | .ok => (s.appendText r.threadId r.runId (line V r), .ok ())
    | .fails 0 => (s, .error .io)
    | .fails (n + 1) => (s.appendText r.threadId r.runId ((line V r).take (n + 1)), .error .io)

def put (s : JsonlEventStore) (e : EventArgs J) (written : WriteEnd) :
    JsonlEventStore × Except EventStoreError (EventRecord J) :=
  match s.ensureSeqLoaded V e.threadId with
  | .error x => (s, .error x)
  | .ok s =>
    let (s, seq) := s.nextSeq e.threadId
    let record := e.record seq
    match s.writeRecord V record written with
    | (s, .error x) => (s, .error x)
    | (s, .ok _) => (s, .ok record)

/-- `put_batch`: one `put` after another, up to the first that raises. -/
def putBatch (s : JsonlEventStore) : List (EventArgs J × WriteEnd) →
    JsonlEventStore × Except EventStoreError (List (EventRecord J))
  | [] => (s, .ok [])
  | (e, written) :: es =>
    match s.put V e written with
    | (s, .error x) => (s, .error x)
    | (s, .ok record) =>
      match s.putBatch es with
      | (s, .error x) => (s, .error x)
      | (s, .ok records) => (s, .ok (record :: records))

/-- A new `JsonlRunEventStore` on the same directory. -/
def restart (s : JsonlEventStore) : JsonlEventStore := { s with seqCounters := .empty }

def readThreadEvents (s : JsonlEventStore) (threadId : String) :
    Except EventStoreError (List (List (String × J))) := do
  validateId threadId "thread_id"
  let files := (s.threadFiles threadId).mergeSort fun a b => a.1 ++ ".jsonl" ≤ b.1 ++ ".jsonl"
  sortBySeq V (files.flatMap fun f => parsedLines V f.2)

def readRunEvents (s : JsonlEventStore) (threadId runId : String) :
    Except EventStoreError (List (List (String × J))) := do
  validateId runId "run_id"
  validateId threadId "thread_id"
  match s.files.get? (threadId, runId) with
  | none => .ok []
  | some text => sortBySeq V (parsedLines V text)

/-- `e["seq"]`, for which a dict without the field raises. -/
def seqAt (fs : List (String × J)) : Except EventStoreError Int :=
  if (fieldOf "seq" fs).isSome then seqOf V fs else .error .badLine

/-- `[e for e in events if e["seq"] < before]` and the like. -/
def filterSeq (number : List (String × J) → Except EventStoreError Int) (p : Int → Bool)
    (events : List (List (String × J))) : Except EventStoreError (List (List (String × J))) := do
  let ns ← events.mapM number
  return ((ns.zip events).filter fun e => p e.1).map Prod.snd

def listMessages (s : JsonlEventStore) (threadId : String) (limit : ℕ)
    (beforeSeq afterSeq : Option Int) : Except EventStoreError (List (List (String × J))) := do
  let events ← s.readThreadEvents V threadId
  let messages := events.filter (hasText V "category" "message")
  match beforeSeq, afterSeq with
  | some before, _ => return lastN limit (← filterSeq (seqAt V) (fun n => n < before) messages)
  | none, some after => return (← filterSeq (seqAt V) (fun n => after < n) messages).take limit
  | none, none => return lastN limit messages

def listEvents (s : JsonlEventStore) (threadId runId : String)
    (eventTypes : Option (List String)) (limit : ℕ) :
    Except EventStoreError (List (List (String × J))) := do
  let events ← s.readRunEvents V threadId runId
  let events := match eventTypes with
    | some types => events.filter fun fs => types.any fun t => hasText V "event_type" t fs
    | none => events
  return events.take limit

def filterBefore (beforeSeq : Option Int) (events : List (List (String × J))) :
    Except EventStoreError (List (List (String × J))) :=
  match beforeSeq with
  | some before => filterSeq (seqOf V) (fun n => n < before) events
  | none => .ok events

def pageAfter (limit : ℕ) (afterSeq : Option Int) (events : List (List (String × J))) :
    Except EventStoreError (List (List (String × J))) :=
  match afterSeq with
  | some after => return (← filterSeq (seqOf V) (fun n => after < n) events).take limit
  | none => .ok (if limit < events.length then lastN limit events else events)

def listMessagesByRun (s : JsonlEventStore) (threadId runId : String) (limit : ℕ)
    (beforeSeq afterSeq : Option Int) : Except EventStoreError (List (List (String × J))) := do
  let events ← s.readRunEvents V threadId runId
  let filtered ← filterBefore V beforeSeq (events.filter (hasText V "category" "message"))
  pageAfter V limit afterSeq filtered

end JsonlEventStore

end DeerFlow

import DeerFlow.Events.Jsonl

/-!
# The database event store

The rows of `run_events` and `DbRunEventStore`. A session block is a transaction: it raises and the
table is as before, or all its rows are in.
-/

namespace DeerFlow

variable {J : Type}

/-- A row; content other than a string is stored as its JSON text. -/
structure DbEventRow (J : Type) where
  threadId : String
  runId : String
  orgId : Option String
  eventType : String
  category : String
  content : String
  metadata : List (String × J)
  seq : Int
  createdAt : String

/-- The store's settings, `datetime.fromisoformat`, and the rows the table lets in. -/
structure DbEngine (J : Type) where
  maxTraceContent : ℕ := 10240
  fromIso : String → Option String
  accepts : DbEventRow J → Bool

inductive DbEnd where
  | commits
  | fails
  deriving DecidableEq

/-- The longest beginning of a text with at most `n` bytes in UTF-8. -/
def takeBytes : ℕ → List Char → List Char
  | _, [] => []
  | n, c :: cs => if c.utf8Size ≤ n then c :: takeBytes (n - c.utf8Size) cs else []

def byteLength (cs : List Char) : ℕ := (cs.map Char.utf8Size).sum

structure DbEventStore (J : Type) where
  rows : List (DbEventRow J) := []

variable (V : JsonValues J) (E : DbEngine J)

/-- A value as text: a string itself, another value by `json.dumps`. -/
def JsonValues.text (v : J) : String := (V.str? v).getD (String.ofList (V.dumps v))

namespace DbEventStore

def truncateTrace (category : String) (content : J) (metadata : List (String × J)) :
    J × List (String × J) :=
  let text := (V.text content).toList
  if category = "trace" ∧ E.maxTraceContent < byteLength text then
    (V.str (String.ofList (takeBytes E.maxTraceContent text)),
      OrdDict.write "original_byte_length" (V.num (byteLength text))
        (OrdDict.write "content_truncated" (V.bool true) metadata))
  else (content, metadata)

def contentToDb (content : J) (metadata : List (String × J)) : String × List (String × J) :=
  match V.str? content with
  | some s => (s, metadata)
  | none =>
    let metadata := OrdDict.write "content_is_json" (V.bool true) metadata
    (V.text content, if (V.dict? content).isSome then
      OrdDict.write "content_is_dict" (V.bool true) metadata else metadata)

/-- `metadata.get(key)` is truthy. -/
def flagged (key : String) (metadata : List (String × J)) : Bool :=
  ((fieldOf key metadata).map V.truthy).getD false

def rowToDict (r : DbEventRow J) : EventRecord J where
  threadId := r.threadId
  runId := r.runId
  eventType := r.eventType
  category := r.category
  content :=
    if flagged V "content_is_json" r.metadata || flagged V "content_is_dict" r.metadata then
      (V.loads r.content.toList).getD (V.str r.content)
    else V.str r.content
  metadata := r.metadata
  seq := r.seq
  createdAt := r.createdAt

/-- The row of an event, unless its `created_at` is no time. -/
def rowOf (org : Option String) (e : EventArgs J) (seq : Int) :
    Except EventStoreError (DbEventRow J) :=
  let (content, metadata) := truncateTrace V E e.category e.content (e.metadata.getD [])
  let (content, metadata) := contentToDb V content metadata
  let row := fun createdAt =>
    { threadId := e.threadId, runId := e.runId, orgId := org, eventType := e.eventType
      category := e.category, content := content, metadata := metadata, seq := seq
      createdAt := createdAt }
  match orText e.createdAt none with
  | none => .ok (row e.now)
  | some text => match E.fromIso text with
    | some time => .ok (row time)
    | none => .error .badTime

def maxSeq (s : DbEventStore J) (threadId : String) : Int :=
  ((s.rows.filter fun r => r.threadId = threadId).map DbEventRow.seq).max?.getD 0

/-- The end of a session block that adds `rows`. -/
def commit (s : DbEventStore J) (rows : List (DbEventRow J)) (fate : DbEnd) :
    DbEventStore J × Except EventStoreError (List (EventRecord J)) :=
  if fate = .commits ∧ rows.all E.accepts then (⟨s.rows ++ rows⟩, .ok (rows.map (rowToDict V)))
  else (s, .error .database)

def put (s : DbEventStore J) (org : Option String) (e : EventArgs J) (fate : DbEnd) :
    DbEventStore J × Except EventStoreError (List (EventRecord J)) :=
  match rowOf V E org e (s.maxSeq e.threadId + 1) with
  | .error x => (s, .error x)
  | .ok row => s.commit V E [row] fate

/-- The rows of a batch, numbered from `seq` on. -/
def rowsOf (org : Option String) : List (EventArgs J) → Int → Except EventStoreError (List (DbEventRow J))
  | [], _ => .ok []
  | e :: es, seq => do
    let row ← rowOf V E org e (seq + 1)
    let rows ← rowsOf org es (seq + 1)
    return row :: rows

def putBatch (s : DbEventStore J) (org : Option String) (es : List (EventArgs J)) (fate : DbEnd) :
    DbEventStore J × Except EventStoreError (List (EventRecord J)) :=
  match es with
  | [] => (s, .ok [])
  | e :: rest =>
    if rest.any fun e' => e'.threadId ≠ e.threadId then (s, .error .mixedThreads)
    else match rowsOf V E org es (s.maxSeq e.threadId) with
      | .error x => (s, .error x)
      | .ok rows => s.commit V E rows fate

/-- `order_by(seq.asc()).limit(limit)`. -/
def firstRows (rows : List (DbEventRow J)) (limit : ℕ) : List (DbEventRow J) :=
  (rows.mergeSort fun a b => a.seq ≤ b.seq).take limit

/-- `reversed(order_by(seq.desc()).limit(limit))`. -/
def lastRows (rows : List (DbEventRow J)) (limit : ℕ) : List (DbEventRow J) :=
  ((rows.mergeSort fun a b => b.seq ≤ a.seq).take limit).reverse

/-- The rows of a thread an organisation sees; all of them where `org` is none. -/
def threadRows (s : DbEventStore J) (org : Option String) (threadId : String) :
    List (DbEventRow J) :=
  s.rows.filter fun r => r.threadId = threadId ∧ (org = none ∨ r.orgId = org)

def page (rows : List (DbEventRow J)) (limit : ℕ) (beforeSeq afterSeq : Option Int) :
    List (DbEventRow J) :=
  let rows := match beforeSeq with
    | some before => rows.filter fun r => r.seq < before
    | none => rows
  match afterSeq with
  | some after => firstRows (rows.filter fun r => after < r.seq) limit
  | none => lastRows rows limit

def listMessages (s : DbEventStore J) (org : Option String) (threadId : String) (limit : ℕ)
    (beforeSeq afterSeq : Option Int) : List (EventRecord J) :=
  (page ((s.threadRows org threadId).filter fun r => r.category = "message") limit beforeSeq
    afterSeq).map (rowToDict V)

def listEvents (s : DbEventStore J) (org : Option String) (threadId runId : String)
    (eventTypes : Option (List String)) (limit : ℕ) : List (EventRecord J) :=
  let rows := (s.threadRows org threadId).filter fun r => r.runId = runId
  let rows : List (DbEventRow J) := match eventTypes with
    | none | some [] => rows
    | some types => rows.filter fun r => r.eventType ∈ types
  (firstRows rows limit).map (rowToDict V)

def listMessagesByRun (s : DbEventStore J) (org : Option String) (threadId runId : String)
    (limit : ℕ) (beforeSeq afterSeq : Option Int) : List (EventRecord J) :=
  (page ((s.threadRows org threadId).filter fun r => r.runId = runId ∧ r.category = "message") limit
    beforeSeq afterSeq).map (rowToDict V)

end DbEventStore

end DeerFlow

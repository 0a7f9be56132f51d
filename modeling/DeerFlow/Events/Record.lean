import DeerFlow.Data.Sorted
import DeerFlow.Journal

/-!
# Run events and the store in memory

The arguments of `put`, the record a store makes of them, and `MemoryRunEventStore`.
-/

namespace DeerFlow

/-- The values of the json module: what the stores ask of them and what a text of one looks like. -/
structure JsonValues (J : Type) where
  str : String → J
  num : Int → J
  bool : Bool → J
  dict : List (String × J) → J
  str? : J → Option String
  num? : J → Option Int
  dict? : J → Option (List (String × J))
  truthy : J → Bool
  dumps : J → List Char
  loads : List Char → Option J
  str?_str : ∀ s, str? (str s) = some s
  str_of_str? : ∀ v s, str? v = some s → v = str s
  num?_num : ∀ n, num? (num n) = some n
  dict?_dict : ∀ fs, dict? (dict fs) = some fs
  truthy_bool : ∀ b, truthy (bool b) = b
  loads_dumps : ∀ v, loads (dumps v) = some v
  dumps_printable : ∀ v, ∀ c ∈ dumps v, 32 ≤ c.toNat
  dumps_dict : ∀ fs, ∃ body, dumps (dict fs) = '{' :: (body ++ ['}'])

/-- The arguments of `put`, with the clock at the time for a `created_at` that is missing. -/
structure EventArgs (J : Type) where
  threadId : String
  runId : String
  eventType : String
  category : String
  content : J
  metadata : Option (List (String × J)) := none
  createdAt : Option String := none
  now : String := ""

structure EventRecord (J : Type) where
  threadId : String
  runId : String
  eventType : String
  category : String
  content : J
  metadata : List (String × J)
  seq : Int
  createdAt : String

inductive EventStoreError where
  | invalidId (label value : String)
  | mixedThreads
  | io
  | database
  | badTime
  | badLine
  deriving DecidableEq

section

variable {J : Type}

def EventArgs.record (e : EventArgs J) (seq : Int) : EventRecord J where
  threadId := e.threadId
  runId := e.runId
  eventType := e.eventType
  category := e.category
  content := e.content
  metadata := e.metadata.getD []
  seq := seq
  createdAt := (orText e.createdAt none).getD e.now

/-- `xs[-limit:]`. -/
def lastN {α : Type} (limit : ℕ) (xs : List α) : List α :=
  if limit = 0 then xs else xs.drop (xs.length - limit)

structure MemoryEventStore (J : Type) where
  events : OrdDict String (List (EventRecord J)) := .empty
  messages : OrdDict String (List (EventRecord J)) := .empty
  seqCounters : OrdDict String Int := .empty

namespace MemoryEventStore

def nextSeq (s : MemoryEventStore J) (threadId : String) : MemoryEventStore J × Int :=
  let next := (s.seqCounters.get? threadId).getD 0 + 1
  ({ s with seqCounters := s.seqCounters.set threadId next }, next)

def putOne (s : MemoryEventStore J) (e : EventArgs J) : MemoryEventStore J × EventRecord J :=
  let (s, seq) := s.nextSeq e.threadId
  let record := e.record seq
  let events := s.events.set e.threadId ((s.events.get? e.threadId).getD [] ++ [record])
  let messages :=
    if e.category = "message" then
      s.messages.set e.threadId ((s.messages.get? e.threadId).getD [] ++ [record])
    else s.messages
  ({ s with events := events, messages := messages }, record)

def put (s : MemoryEventStore J) (e : EventArgs J) :
    MemoryEventStore J × Except EventStoreError (EventRecord J) :=
  let (s, record) := s.putOne e
  (s, .ok record)

/-- The loop of `put_batch`; nothing in it can fail. -/
def putEach (s : MemoryEventStore J) : List (EventArgs J) → MemoryEventStore J × List (EventRecord J)
  | [] => (s, [])
  | e :: es =>
    let (s, record) := s.putOne e
    let (s, records) := s.putEach es
    (s, record :: records)

def putBatch (s : MemoryEventStore J) (es : List (EventArgs J)) :
    MemoryEventStore J × Except EventStoreError (List (EventRecord J)) :=
  let (s, records) := s.putEach es
  (s, .ok records)

def listMessages (s : MemoryEventStore J) (threadId : String) (limit : ℕ)
    (beforeSeq afterSeq : Option Int) : List (EventRecord J) :=
  let messages := (s.messages.get? threadId).getD []
  match beforeSeq, afterSeq with
  | some before, _ =>
    let hi := bisect (fun r => decide (r.seq < before)) messages
    (messages.take hi).drop (hi - limit)
  | none, some after =>
    let lo := bisect (fun r => decide (r.seq ≤ after)) messages
    (messages.drop lo).take limit
  | none, none => lastN limit messages

def listEvents (s : MemoryEventStore J) (threadId runId : String)
    (eventTypes : Option (List String)) (limit : ℕ) : List (EventRecord J) :=
  let filtered := ((s.events.get? threadId).getD []).filter fun r => r.runId = runId
  let filtered : List (EventRecord J) := match eventTypes with
    | some types => filtered.filter fun r => r.eventType ∈ types
    | none => filtered
  filtered.take limit

/-- The cursors and the limit of `list_messages_by_run`, on the messages of the run. -/
def pageByRun {α : Type} (seq : α → Int) (limit : ℕ) (beforeSeq afterSeq : Option Int)
    (filtered : List α) : List α :=
  let filtered := match beforeSeq with
    | some before => filtered.filter fun r => seq r < before
    | none => filtered
  match afterSeq with
  | some after => (filtered.filter fun r => after < seq r).take limit
  | none => if limit < filtered.length then lastN limit filtered else filtered

def listMessagesByRun (s : MemoryEventStore J) (threadId runId : String) (limit : ℕ)
    (beforeSeq afterSeq : Option Int) : List (EventRecord J) :=
  pageByRun EventRecord.seq limit beforeSeq afterSeq
    (((s.events.get? threadId).getD []).filter fun r => r.runId = runId ∧ r.category = "message")

def deleteByThread (s : MemoryEventStore J) (threadId : String) : MemoryEventStore J × ℕ :=
  (⟨s.events.pop threadId, s.messages.pop threadId, s.seqCounters.pop threadId⟩,
    ((s.events.get? threadId).getD []).length)

def deleteByRun (s : MemoryEventStore J) (threadId runId : String) : MemoryEventStore J × ℕ :=
  let allEvents := (s.events.get? threadId).getD []
  if allEvents = [] then (s, 0)
  else
    let remaining := allEvents.filter fun r => r.runId ≠ runId
    ({ s with
      events := s.events.set threadId remaining
      messages := s.messages.set threadId (remaining.filter fun r => r.category = "message") },
      allEvents.length - remaining.length)

end MemoryEventStore

inductive MemoryStoreAct (J : Type) where
  | put (e : EventArgs J)
  | putBatch (es : List (EventArgs J))
  | deleteByRun (threadId runId : String)
  | deleteByThread (threadId : String)

def memoryEventStore : Machine (MemoryEventStore J) (MemoryStoreAct J) where
  step s
    | .put e => some (s.put e).1
    | .putBatch es => some (s.putBatch es).1
    | .deleteByRun threadId runId => some (s.deleteByRun threadId runId).1
    | .deleteByThread threadId => some (s.deleteByThread threadId).1

end

end DeerFlow

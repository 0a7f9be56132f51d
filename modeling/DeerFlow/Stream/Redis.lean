import DeerFlow.JsonText
import DeerFlow.Stream.Memory

/-!
# The Redis stream bridge

One run's stream on the server, the producer's `publish` and `publish_end`, and one subscriber's
loop, command by command. A command goes through, or raises with its effect done or not. The server
may trim the head of a stream (`MAXLEN ~`) and drops a key whose TTL is over.
-/

namespace DeerFlow

/-- A payload of `publish`: a string, or another object the json module takes. -/
inductive Payload (J : Type) where
  | text (s : String)
  | json (v : J)

structure PayloadCodec (J : Type) where
  dumps : J → String
  loads : String → Option (Payload J)
  loads_dumps : ∀ v, loads (dumps v) = some (.json v)
  dumps_ne_empty : ∀ v, dumps v ≠ ""

namespace PayloadCodec

variable {J : Type} (C : PayloadCodec J)

def encodeData : Payload J → String
  | .text s => s
  | .json v => C.dumps v

def decodeData (raw : String) : Payload J :=
  if raw = "" then .text ""
  else (C.loads raw).getD (.text raw)

/-- A payload that is no string `json.loads` would take for something else. -/
def plain : Payload J → Bool
  | .text s => s = "" || (C.loads s).isNone
  | .json _ => true

end PayloadCodec

structure EntryId where
  ms : ℕ
  seq : ℕ
  deriving DecidableEq

namespace EntryId

def before (a b : EntryId) : Bool := a.ms < b.ms || (a.ms = b.ms && a.seq < b.seq)

/-- The id `XADD key *` gives after `last`. -/
def next (last : EntryId) (now : ℕ) : EntryId :=
  if last.ms < now then ⟨now, 0⟩ else ⟨last.ms, last.seq + 1⟩

end EntryId

/-- A stream entry: its id and the fields `event` and `data`. -/
structure StreamEntry where
  id : EntryId
  event : String
  data : String
  deriving DecidableEq

structure RedisRun where
  entries : List StreamEntry := []
  lastId : EntryId := ⟨0, 0⟩
  ended : Bool := false

namespace RedisRun

/-- `XADD key MAXLEN ~ n * event .. data ..`, with so many entries trimmed. -/
def xadd (q : RedisRun) (event data : String) (now trimmed : ℕ) : RedisRun :=
  let id := q.lastId.next now
  { q with entries := (q.entries ++ [(⟨id, event, data⟩ : StreamEntry)]).drop trimmed, lastId := id }

/-- `XREAD COUNT 100 STREAMS key cursor`. -/
def xread (q : RedisRun) (cursor : EntryId) : List StreamEntry :=
  (q.entries.filter fun e => cursor.before e.id).take 100

end RedisRun

inductive CommandEnd where
  | ok
  | lost
  | unacknowledged
  deriving DecidableEq

def CommandEnd.applied : CommandEnd → Bool
  | lost => false
  | _ => true

inductive ProducerPhase where
  | idle
  | publishing
  | ending
  | finished
  deriving DecidableEq

/-- About to read, with entries left to hand out, past an empty read, in its sleep, or past its
end. -/
inductive ReaderPhase where
  | reading
  | delivering (rest : List StreamEntry)
  | checking
  | sleeping
  | done
  deriving DecidableEq

inductive RedisYield (J : Type) where
  | event (id : EntryId) (event : String) (data : Payload J)
  | heartbeat
  | stop

def RedisYield.event? {J : Type} : RedisYield J → Option (String × Payload J)
  | .event _ name data => some (name, data)
  | _ => none

/-- One run's stream with its producer and a subscriber; `published` and `yielded` are what the two
did so far. -/
structure RedisStreams (J : Type) where
  server : RedisRun := {}
  producer : ProducerPhase := .idle
  cursor : EntryId := ⟨0, 0⟩
  reader : ReaderPhase := .reading
  published : List (String × Payload J) := []
  yielded : List (RedisYield J) := []

inductive RedisAct (J : Type) where
  | xadd (event : String) (data : Payload J) (now trimmed : ℕ) (e : CommandEnd)
  | expire
  | setEnded (e : CommandEnd)
  | expireEnded
  | xread (raises : Bool)
  | deliver
  | existsEnded (raises : Bool)
  | wakeUp
  | streamExpired
  | endedExpired

namespace RedisStreams

variable {J : Type} (C : PayloadCodec J) (maxlen : ℕ)

def received (s : RedisStreams J) : List (String × Payload J) :=
  s.yielded.filterMap RedisYield.event?

/-- A trim leaves `maxlen` entries at least. -/
def trimOk (q : RedisRun) (trimmed : ℕ) : Bool :=
  trimmed = 0 || maxlen + trimmed ≤ q.entries.length + 1

def step (s : RedisStreams J) : RedisAct J → Option (RedisStreams J)
  -- `publish`: a failed `XADD` is logged and the call returns, else the TTL is set next
  | .xadd event data now trimmed e =>
    if s.producer = .idle && trimOk maxlen s.server trimmed then
      some { s with
        server := if e.applied then s.server.xadd event (C.encodeData data) now trimmed else s.server
        producer := if e = .ok then .publishing else .idle
        published := s.published ++ [(event, data)] }
    else none
  | .expire => if s.producer = .publishing then some { s with producer := .idle } else none
  | .setEnded e =>
    if s.producer = .idle then
      some { s with
        server := { s.server with ended := s.server.ended || e.applied }
        producer := if e = .ok then .ending else .finished }
    else none
  | .expireEnded => if s.producer = .ending then some { s with producer := .finished } else none
  | .xread raises =>
    match s.reader with
    | .reading =>
      if raises then some { s with reader := .sleeping, yielded := s.yielded ++ [.heartbeat] }
      else
        match s.server.xread s.cursor with
        | [] => some { s with reader := .checking }
        | es => some { s with reader := .delivering es }
    | _ => none
  | .deliver =>
    match s.reader with
    | .delivering (e :: es) =>
      some { s with
        cursor := e.id
        reader := if es.isEmpty then .reading else .delivering es
        yielded := s.yielded ++ [.event e.id e.event (C.decodeData e.data)] }
    | _ => none
  | .existsEnded raises =>
    match s.reader with
    | .checking =>
      if s.server.ended && !raises then
        some { s with reader := .done, yielded := s.yielded ++ [.stop] }
      else some { s with reader := .sleeping, yielded := s.yielded ++ [.heartbeat] }
    | _ => none
  | .wakeUp =>
    match s.reader with
    | .sleeping => some { s with reader := .reading }
    | _ => none
  | .streamExpired => some { s with server := { s.server with entries := [], lastId := ⟨0, 0⟩ } }
  | .endedExpired => some { s with server := { s.server with ended := false } }

end RedisStreams

/-- The bridge of one run, retaining about `maxlen` entries. -/
def redisStreams {J : Type} (C : PayloadCodec J) (maxlen : ℕ) :
    Machine (RedisStreams J) (RedisAct J) := ⟨RedisStreams.step C maxlen⟩

abbrev JsonObject := { v : Json // v.typeName ≠ "str" }

/-- What `json.loads` gives as a payload. -/
def Json.toPayload (v : Json) : Payload JsonObject :=
  if h : v.typeName ≠ "str" then .json ⟨v, h⟩
  else
    match v with
    | .str s => .text s
    | _ => .text ""

end DeerFlow

import DeerFlow.Data.Machine
import DeerFlow.Types

/-!
# The in-process stream bridge

`MemoryStreamBridge` with its producers and subscribers. A section under a stream's condition is one
step. A subscriber keeps the stream object it was started on, also after `cleanup`.
-/

namespace DeerFlow

variable {δ : Type}

/-- `StreamEvent`, with the payloads left open. -/
structure StreamEvent (δ : Type) where
  id : String
  event : String
  data : δ

/-- `_RunStream`. `published` is its history, which the code does not keep: every event appended,
with the offset it got. -/
structure RunStream (δ : Type) where
  events : List (StreamEvent δ) := []
  ended : Bool := false
  startOffset : ℕ := 0
  published : List (StreamEvent δ × ℕ) := []

namespace RunStream

def window (st : RunStream δ) : List (StreamEvent δ × ℕ) := st.events.zipIdx st.startOffset

def tip (st : RunStream δ) : ℕ := st.startOffset + st.events.length

def resolveStartOffset (st : RunStream δ) : Option String → ℕ
  | none => st.startOffset
  | some lastEventId =>
    match st.events.findIdx? fun e => e.id = lastEventId with
    | some index => st.startOffset + index + 1
    | none => st.startOffset

/-- What `publish` does under the condition: append and trim. -/
def append (maxsize : Int) (st : RunStream δ) (e : StreamEvent δ) : RunStream δ :=
  let events := st.events ++ [e]
  let published := st.published ++ [(e, st.tip)]
  if maxsize < events.length then
    let overflow := (events.length - maxsize).toNat
    { st with
      events := events.drop overflow, startOffset := st.startOffset + overflow
      published := published }
  else { st with events := events, published := published }

end RunStream

/-- `MemoryStreamBridge`; `heap` holds the stream objects, `streams` which of them is a run's. -/
structure MemoryStreamBridge (δ : Type) where
  maxsize : Int := 256
  heap : List (RunStream δ) := []
  streams : OrdDict RunId ℕ := .empty
  counters : OrdDict RunId ℕ := .empty

namespace MemoryStreamBridge

/-- `_get_or_create_stream`: the bridge and the stream object of the run. -/
def getOrCreateStream (b : MemoryStreamBridge δ) (r : RunId) : MemoryStreamBridge δ × ℕ :=
  match b.streams.get? r with
  | some i => (b, i)
  | none =>
    ({ b with
      heap := b.heap ++ [{}], streams := b.streams.set r b.heap.length
      counters := b.counters.set r 0 }, b.heap.length)

def eventId (ts seq : ℕ) : String := toString ts ++ "-" ++ toString seq

/-- `_next_id`, at `ts` milliseconds. -/
def nextId (b : MemoryStreamBridge δ) (r : RunId) (ts : ℕ) : MemoryStreamBridge δ × String :=
  let seq := (b.counters.get? r).getD 0
  ({ b with counters := b.counters.set r (seq + 1) }, eventId ts seq)

def updateStream (b : MemoryStreamBridge δ) (i : ℕ) (f : RunStream δ → RunStream δ) :
    MemoryStreamBridge δ :=
  { b with heap := b.heap.modify i f }

/-- `publish`, with the stream object it notifies. -/
def publish (b : MemoryStreamBridge δ) (r : RunId) (event : String) (data : δ) (ts : ℕ) :
    MemoryStreamBridge δ × ℕ :=
  let (b, i) := b.getOrCreateStream r
  let (b, id) := b.nextId r ts
  (b.updateStream i fun st => st.append b.maxsize ⟨id, event, data⟩, i)

def publishEnd (b : MemoryStreamBridge δ) (r : RunId) : MemoryStreamBridge δ × ℕ :=
  let (b, i) := b.getOrCreateStream r
  (b.updateStream i fun st => { st with ended := true }, i)

/-- `cleanup`, once its delay is over. -/
def cleanup (b : MemoryStreamBridge δ) (r : RunId) : MemoryStreamBridge δ :=
  { b with streams := b.streams.pop r, counters := b.counters.pop r }

def close (b : MemoryStreamBridge δ) : MemoryStreamBridge δ :=
  { b with streams := .empty, counters := .empty }

end MemoryStreamBridge

/-- What a subscriber hands out; an event with the offset it was read at. -/
inductive Yield (δ : Type) where
  | event (e : StreamEvent δ) (offset : ℕ)
  | heartbeat
  | stop

/-- Where a subscriber stands: about to take the condition, in `condition.wait()` (notified or
not), or past its end. -/
inductive SubscriberPhase where
  | polling
  | waiting (notified : Bool)
  | done
  deriving DecidableEq

/-- A subscriber; `start` and `yielded` are its history. -/
structure Subscriber (δ : Type) where
  stream : ℕ
  start : ℕ
  nextOffset : ℕ
  phase : SubscriberPhase := .polling
  yielded : List (Yield δ) := []

namespace Subscriber

def received (u : Subscriber δ) : List (StreamEvent δ × ℕ) :=
  u.yielded.filterMap fun
    | .event e o => some (e, o)
    | _ => none

/-- One pass through the loop of `subscribe`, up to its `yield` or its `wait`. -/
def turn (u : Subscriber δ) (st : RunStream δ) : Subscriber δ :=
  let next := if u.nextOffset < st.startOffset then st.startOffset else u.nextOffset
  match st.events[next - st.startOffset]? with
  | some e => { u with nextOffset := next + 1, yielded := u.yielded ++ [.event e next] }
  | none =>
    if st.ended then { u with nextOffset := next, phase := .done, yielded := u.yielded ++ [.stop] }
    else { u with nextOffset := next, phase := .waiting false }

/-- `condition.notify_all()` of a stream. -/
def notify (i : ℕ) (u : Subscriber δ) : Subscriber δ :=
  match u.phase with
  | .waiting _ => if u.stream = i then { u with phase := .waiting true } else u
  | _ => u

end Subscriber

structure MemoryStreams (δ : Type) where
  bridge : MemoryStreamBridge δ := {}
  subs : List (Subscriber δ) := []

inductive MemoryAct (δ : Type) where
  | publish (r : RunId) (event : String) (data : δ) (ts : ℕ)
  | publishEnd (r : RunId)
  | subscribe (r : RunId) (lastEventId : Option String)
  | turn (k : ℕ)
  | wake (k : ℕ)
  | timeout (k : ℕ)
  | cleanup (r : RunId)
  | close

namespace MemoryStreams

def stepSub (s : MemoryStreams δ) (k : ℕ) (f : Subscriber δ → Option (Subscriber δ)) :
    Option (MemoryStreams δ) :=
  (s.subs[k]?).bind fun u => (f u).map fun u' => { s with subs := s.subs.set k u' }

def step (s : MemoryStreams δ) : MemoryAct δ → Option (MemoryStreams δ)
  | .publish r event data ts =>
    let (b, i) := s.bridge.publish r event data ts
    some { bridge := b, subs := s.subs.map (·.notify i) }
  | .publishEnd r =>
    let (b, i) := s.bridge.publishEnd r
    some { bridge := b, subs := s.subs.map (·.notify i) }
  | .subscribe r lastEventId =>
    let (b, i) := s.bridge.getOrCreateStream r
    (b.heap[i]?).map fun st =>
      let start := st.resolveStartOffset lastEventId
      { bridge := b, subs := s.subs ++ [⟨i, start, start, .polling, []⟩] }
  | .turn k => s.stepSub k fun u =>
    if u.phase = .polling then (s.bridge.heap[u.stream]?).map u.turn else none
  | .wake k => s.stepSub k fun u =>
    if u.phase = .waiting true then some { u with phase := .polling } else none
  | .timeout k => s.stepSub k fun u =>
    match u.phase with
    | .waiting _ => some { u with phase := .polling, yielded := u.yielded ++ [.heartbeat] }
    | _ => none
  | .cleanup r => some { s with bridge := s.bridge.cleanup r }
  | .close => some { s with bridge := s.bridge.close }

end MemoryStreams

def memoryStreams (δ : Type) : Machine (MemoryStreams δ) (MemoryAct δ) := ⟨MemoryStreams.step⟩

/-- A fresh bridge that retains `maxsize` events of a run. -/
def MemoryStreams.fresh (δ : Type) (maxsize : Int) : MemoryStreams δ :=
  { bridge := { maxsize := maxsize } }

end DeerFlow

import DeerFlow.Data.Machine
import Mathlib.Data.Nat.Notation

/-!
# The memory update queue

Conversations wait in the queue until a debounce timer or a flush runs a pass, which hands all of
them to the updater one by one. A timer is a thread that waits and then runs a pass, unless it was
cancelled while it waited.
-/

namespace DeerFlow

/-- What `add` and `add_nowait` are called with. -/
structure Conversation (μ : Type) where
  threadId : String
  messages : List μ
  agentName : Option String := none
  userId : Option String := none
  correctionDetected : Bool := false
  reinforcementDetected : Bool := false
  deriving DecidableEq

def Conversation.queueKey {μ : Type} (c : Conversation μ) : String × Option String × Option String :=
  (c.threadId, c.userId, c.agentName)

/-- A queued conversation. `seq` is its place among the accepted ones; the code keeps no such
number. -/
structure ConversationContext (μ : Type) extends Conversation μ where
  seq : ℕ
  deriving DecidableEq

structure MemoryConfig where
  enabled : Bool := true
  debounceSeconds : ℕ := 30

/-- A timer that waits, a thread before the lock of a pass, or one with contexts still to be handed
on. -/
inductive PassPhase (μ : Type) where
  | armed (delaySeconds : ℕ)
  | entering
  | updating (contexts : List (ConversationContext μ))
  | done
  deriving DecidableEq

/-- `MemoryUpdateQueue` with its threads. `accepted` and `passed` record the accepted conversations
and the contexts `update_memory` was called with. -/
structure MemoryQueue (μ : Type) where
  queue : List (ConversationContext μ) := []
  timer : Option ℕ := none
  processing : Bool := false
  threads : List (PassPhase μ) := []
  accepted : List (Conversation μ) := []
  passed : List (ConversationContext μ) := []
  deriving DecidableEq

namespace MemoryQueue

variable {μ : Type} (s : MemoryQueue μ)

/-- The context that is queued for the key of `c`. -/
def existing (c : Conversation μ) : Option (ConversationContext μ) :=
  s.queue.find? fun x => x.queueKey = c.queueKey

/-- The context for `c`, with the flags of the one it replaces. -/
def merged (c : Conversation μ) : ConversationContext μ where
  threadId := c.threadId
  messages := c.messages
  agentName := c.agentName
  userId := c.userId
  correctionDetected :=
    c.correctionDetected || ((s.existing c).map (·.correctionDetected)).getD false
  reinforcementDetected :=
    c.reinforcementDetected || ((s.existing c).map (·.reinforcementDetected)).getD false
  seq := s.accepted.length

def enqueueLocked (c : Conversation μ) : MemoryQueue μ :=
  { s with
    queue := s.queue.filter (fun x => x.queueKey ≠ c.queueKey) ++ [s.merged c]
    accepted := s.accepted ++ [c] }

def setThread (i : ℕ) (phase : PassPhase μ) : MemoryQueue μ :=
  { s with threads := s.threads.set i phase }

/-- `Timer.cancel`: a timer that still waits will not run. -/
def cancelTimer (i : ℕ) : MemoryQueue μ :=
  match s.threads[i]? with
  | some (.armed _) => s.setThread i .done
  | _ => s

def cancelCurrent : MemoryQueue μ := s.timer.elim s s.cancelTimer

def spawn (phase : PassPhase μ) : MemoryQueue μ := { s with threads := s.threads ++ [phase] }

def scheduleTimer (delaySeconds : ℕ) : MemoryQueue μ :=
  { s.cancelCurrent.spawn (.armed delaySeconds) with timer := some s.threads.length }

def add (config : MemoryConfig) (c : Conversation μ) : MemoryQueue μ :=
  if config.enabled then (s.enqueueLocked c).scheduleTimer config.debounceSeconds else s

def addNowait (config : MemoryConfig) (c : Conversation μ) : MemoryQueue μ :=
  if config.enabled then (s.enqueueLocked c).scheduleTimer 0 else s

/-- `flush`, up to its call of `_process_queue`. -/
def flush : MemoryQueue μ := { s.cancelCurrent with timer := none }.spawn .entering

def flushNowait : MemoryQueue μ := s.scheduleTimer 0

/-- The first section of `_process_queue`, by thread `i`. -/
def enter (i : ℕ) : MemoryQueue μ :=
  if s.processing then (s.scheduleTimer 0).setThread i .done
  else if s.queue = [] then s.setThread i .done
  else
    { s.setThread i (.updating s.queue) with queue := [], timer := none, processing := true }

/-- `update_memory` is called with the next context; whatever it returns or raises, the pass goes
on. -/
def pass (i : ℕ) (c : ConversationContext μ) (rest : List (ConversationContext μ)) : MemoryQueue μ :=
  { s.setThread i (.updating rest) with passed := s.passed ++ [c] }

/-- The `finally` clause of a pass. -/
def leave (i : ℕ) : MemoryQueue μ := { s.setThread i .done with processing := false }

/-- The next step of thread `i`; for a timer that waits, that its time is over. -/
def stepThread (i : ℕ) : PassPhase μ → Option (MemoryQueue μ)
  | .armed _ => some (s.setThread i .entering)
  | .entering => some (s.enter i)
  | .updating (c :: rest) => some (s.pass i c rest)
  | .updating [] => some (s.leave i)
  | .done => none

end MemoryQueue

inductive QueueAct (μ : Type) where
  | add (config : MemoryConfig) (c : Conversation μ)
  | addNowait (config : MemoryConfig) (c : Conversation μ)
  | flush
  | flushNowait
  | thread (i : ℕ)

/-- Callers of the queue, its timers and its passes, one lock section or updater call at a time. -/
def memoryQueue (μ : Type) : Machine (MemoryQueue μ) (QueueAct μ) where
  step s
    | .add config c => some (s.add config c)
    | .addNowait config c => some (s.addNowait config c)
    | .flush => some s.flush
    | .flushNowait => some s.flushNowait
    | .thread i => s.threads[i]?.bind (s.stepThread i)

end DeerFlow

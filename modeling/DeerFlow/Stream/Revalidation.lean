import DeerFlow.Iam.Desk
import DeerFlow.PyText
import DeerFlow.Services
import DeerFlow.Stream.Memory

/-!
# Re-validation of a stream

`sse_consumer` on the record `start_run` returned, next to the authorize calls and IAM requests of
the process. Before a business event, and before a heartbeat if a minute has passed, it has the
caller authorized again, if the record says who the caller is.
-/

namespace DeerFlow

/-- `get_trusted_internal_owner_user_id`, with the header of the request. -/
def getTrustedInternalOwnerUserId (user : Option RequestUser) (header : Option String) :
    Option String :=
  if user.any RequestUser.internal then
    match header with
    | none => none
    | some h => if h = "" then none else if stripText h = "" then none else some (stripText h)
  else none

/-- A record with the `user_id` that `create_or_reject` was called with. -/
structure StampedRecord where
  record : RunRecord
  userId : Option String

/-- The record of a run that `start_run` creates for the request. -/
def StartRequest.stamped (q : StartRequest) (now : ℕ) : StampedRecord where
  record := q.createArgs.record now
  userId := q.ownerUserId

/-- What `_sse_revalidate` asks for a user in an organisation. -/
def runReadArgs (userId orgId : String) (h : userId ≠ "") : AuthorizeArgs where
  principal := ⟨.user, userId, some userId, none, h, fun h => absurd rfl h⟩
  orgId := orgId
  permission := "runtime:run:read"
  forceRefresh := true

def buildSseRevalidationContext (x : StampedRecord) : Option AuthorizeArgs :=
  match x.userId, x.record.orgId with
  | some userId, some orgId =>
    if h : userId = "" then none else if orgId = "" then none else some (runReadArgs userId orgId h)
  | _, _ => none

/-- The answer of `_sse_revalidate`, once the authorize call has ended; any other exception keeps
the stream open. -/
def sseRevalidate : AuthorizePhase → Option Bool
  | .done (.ok _) => some true
  | .done (.error _) => some false
  | .lost => some true
  | _ => none

/-- What the bridge yields; the sentinel of the end has an id that may be empty. -/
inductive SseItem where
  | heartbeat
  | event (e : StreamEvent Json)
  | finish (id : String)

/-- A comment, or the arguments of `format_sse`. -/
inductive SseFrame where
  | heartbeat
  | message (event : String) (data : Json) (eventId : Option String)

def revokedFrame : SseFrame :=
  .message "revoked" (.obj [("reason", .str "authorization_revoked")]) none

def sseRevalidateInterval : ℕ := 60

/-- A stream in a process with authorize calls and IAM requests. `checking` is the call it waits
for, with its item. -/
structure SseDesk where
  iam : IamDesk
  record : StampedRecord
  lastRevalidate : Option ℕ
  checking : Option (ℕ × SseItem) := none
  closed : Bool := false
  frames : List SseFrame := []

namespace SseDesk

def start (iam : IamDesk) (x : StampedRecord) : SseDesk where
  iam := iam
  record := x
  lastRevalidate := (buildSseRevalidationContext x).map fun _ => iam.mono

variable (s : SseDesk)

/-- `entry.id or None`. -/
def eventId (id : String) : Option String := if id = "" then none else some id

def deliver : SseItem → SseDesk
  | .heartbeat => { s with frames := s.frames ++ [.heartbeat] }
  | .event e => { s with frames := s.frames ++ [.message e.event e.data (eventId e.id)] }
  | .finish id =>
    { s with frames := s.frames ++ [.message "end" .null (eventId id)], closed := true }

def due : Bool :=
  match s.lastRevalidate with
  | none => true
  | some last => sseRevalidateInterval ≤ s.iam.mono - last

def rechecks : SseItem → Bool
  | .heartbeat => s.due
  | .event _ => true
  | .finish _ => false

def receive (item : SseItem) (disconnected : Bool) : SseDesk :=
  if disconnected then { s with closed := true }
  else
    match buildSseRevalidationContext s.record with
    | none => s.deliver item
    | some args =>
      if s.rechecks item then
        { s with
          iam := { s.iam with calls := s.iam.calls ++ [.authorize args .called] }
          checking := some (s.iam.calls.length, item) }
      else s.deliver item

def settle (item : SseItem) : Bool → SseDesk
  | true => { s with checking := none, lastRevalidate := some s.iam.mono }.deliver item
  | false => { s with checking := none, closed := true, frames := s.frames ++ [revokedFrame] }

def checked (i : ℕ) : Option Bool :=
  match s.iam.calls[i]? with
  | some (.authorize _ phase) => sseRevalidate phase
  | _ => none

end SseDesk

/-- A step of the process, an item of the bridge, the answer of a re-validation, or the end of the
generator while it waits. -/
inductive SseAct where
  | iam (a : IamAct)
  | receive (item : SseItem) (disconnected : Bool)
  | settle
  | close

def sse (ttlSeconds : ℤ) : Machine SseDesk SseAct where
  step s
    | .iam a => ((iam ttlSeconds).step s.iam a).map fun t => { s with iam := t }
    | .receive item disconnected =>
      if s.closed || s.checking.isSome then none else some (s.receive item disconnected)
    | .settle => s.checking.bind fun x => (s.checked x.1).map (s.settle x.2)
    | .close => some { s with closed := true, checking := none }

end DeerFlow

import DeerFlow.World

/-!
# Run ownership

The lease stores: `NullLeaseStore`, whose claim always succeeds, and `RedisLeaseStore`, over a key
per run that expires. A lease token is a number no other claim has drawn.
-/

namespace DeerFlow

open Coop Coro

def leaseTtlSeconds : ℕ := 30

def ownershipKeyPrefix : String := "deerflow:run:ownership"

/-- `ownership_key`, or what it raises. -/
def ownershipKey (org : String) (r : RunId) : Except Exc String :=
  if org = "" then .error (.value "org_id is required for the ownership key")
  else if r = "" then .error (.value "run_id is required for the ownership key")
  else .ok s!"{ownershipKeyPrefix}:{org}:{r}"

/-- `is_expired` at a time. -/
def ClaimRecord.isExpired (c : ClaimRecord) (now : ℕ) : Bool := c.leaseExpiresAt ≤ now

def ClaimResult.acquired (c : ClaimResult) : Bool := c.record.isSome

def ofExcept {α : Type} : Except Exc α → Co α
  | .ok a => pure a
  | .error e => throw e

def newLeaseToken : Co ℕ := do
  let w ← get
  modify fun w => { w with tokens := w.tokens + 1 }
  pure w.tokens

def newClaimRecord (r : RunId) (workerId workerVersion : String) (ttl : ℕ) : Co ClaimRecord := do
  let w ← get
  let token ← newLeaseToken
  pure
    { runId := r, workerId := workerId, leaseToken := token
      leaseExpiresAt := w.now + seconds ttl, workerVersion := workerVersion, claimedAt := w.now }

namespace NullLeaseStore

def claim (r : RunId) (workerId workerVersion : String) (ttl : ℕ) : Co ClaimResult := do
  let c ← newClaimRecord r workerId workerVersion ttl
  pure { record := some c }

end NullLeaseStore

namespace RedisLeaseStore

def getHolder (org : String) (r : RunId) : Co (Option ClaimRecord) := do
  let key ← ofExcept (ownershipKey org r)
  awaitOp (.redisGet key)

def claim (org : String) (r : RunId) (workerId workerVersion : String) (ttl : ℕ) :
    Co ClaimResult := do
  let c ← newClaimRecord r workerId workerVersion ttl
  let key ← ofExcept (ownershipKey org r)
  let acquired ← awaitOp (.redisSetNx key c ttl)
  if acquired then pure { record := some c }
  else do
    let holder ← getHolder org r
    pure { record := none, currentHolder := holder }

def renew (org : String) (c : ClaimRecord) (ttl : ℕ) : Co Bool := do
  let key ← ofExcept (ownershipKey org c.runId)
  let w ← get
  awaitOp (.redisRenew key c.leaseToken ttl (w.now + seconds ttl))

def release (org : String) (c : ClaimRecord) : Co Bool := do
  let key ← ofExcept (ownershipKey org c.runId)
  awaitOp (.redisRelease key c.leaseToken)

end RedisLeaseStore

namespace LeaseBackend

def claim (b : LeaseBackend) (org : String) (r : RunId) (workerId workerVersion : String) :
    Co ClaimResult :=
  match b with
  | null => NullLeaseStore.claim r workerId workerVersion leaseTtlSeconds
  | redis => RedisLeaseStore.claim org r workerId workerVersion leaseTtlSeconds

def release (b : LeaseBackend) (org : String) (c : ClaimRecord) : Co Bool :=
  match b with
  | null => pure true
  | redis => RedisLeaseStore.release org c

end LeaseBackend

end DeerFlow

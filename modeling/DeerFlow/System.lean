import DeerFlow.Services

/-!
# The system

The coroutines of the run subsystem as one pool: any number of calls, on any replica, over the
shared store, the lease keys, the stream bridge and the checkpoints.
-/

namespace DeerFlow

open Coop Coro

def replying {α : Type} (p : Co α) (f : α → Reply) : Co Reply := p.bind fun a => .ret (.ok (f a))

def prog : Call → Co Reply
  | .createOrReject ρ a => replying (createOrReject ρ a) .run
  | .setStatus ρ r s e => replying (setStatus ρ r s e) fun _ => .unit
  | .cancel ρ r a => replying (cancel ρ r a) .bool
  | .updateRunCompletion ρ r s c e v => replying (updateRunCompletion ρ r s c e v) fun _ => .unit
  | .reconcile ρ e b l ev => replying (reconcileOrphanedInflightRuns ρ e b l ev) .runs
  | .shutdown ρ t => replying (shutdown ρ t) fun _ => .unit
  | .persistInterrupted ρ r => replying (persistInterrupted ρ r) fun _ => .unit
  | .cleanup ρ r d => replying (cleanup ρ r d) fun _ => .unit
  | .claim o r w v t => replying (RedisLeaseStore.claim o r w v t) .claim
  | .renew o c t => replying (RedisLeaseStore.renew o c t) .bool
  | .release o c => replying (RedisLeaseStore.release o c) .bool
  | .getHolder o r => replying (RedisLeaseStore.getHolder o r) .holder
  | .startRun ρ q => replying (startRun ρ q) .run
  | .runAgent ρ r x => replying (runAgentTask ρ r x) fun _ => .unit
  | .heartbeat ρ r o c n => replying (runLeaseHeartbeat ρ r o c n) fun _ => .unit

def runSystem : System World runSig Reply where
  Out := Outcome
  Env := EnvEvent
  prog := prog
  exec := execOp
  deliver := deliverOp
  env e w := some (e.apply w)

abbrev RunPool := Pool World runSig Reply

abbrev RunAction := Action runSystem

/-- A run of the subsystem whose actions all meet `cond`. -/
abbrev Runs (cond : RunPool → RunAction → Prop) : RunPool → RunPool → Prop :=
  Pool.Steps runSystem cond

def World.pool (w : World) : RunPool := ⟨w, []⟩

/-- The operation task `i` waits for goes through, and the task goes on. -/
def passes (i : ℕ) (a : Answer := .unit) : List RunAction :=
  [.perform i (.ok a), .resume i false]

def plainRequest : StartRequest where
  runId := "a"
  threadId := "t"
  body := {}
  modelAllowed _ := true
  convertToMessages m := .ok [m]
  text := ⟨fun _ => "", id, id⟩
  exec :=
    { ctx :=
        { eventStore := false, threadStore := false, tenantOrg := some "o", leaseStore := .redis }
      agent := {} }

/-- `start_run` of the plain request, up to the dispatch of the run. -/
def plainStart : List RunAction :=
  [.call (.startRun 0 plainRequest), .start 0] ++ passes 0 ++ passes 0 ++ passes 0 (.found none)
    ++ passes 0

end DeerFlow

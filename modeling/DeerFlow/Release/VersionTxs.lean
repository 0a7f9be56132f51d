import DeerFlow.Data.TxCell
import DeerFlow.Release.Repository

/-!
# Concurrent transactions on a version

`update_agent_version` and `set_version_status` load the row, check it in memory and assign to it;
the flush sends an `UPDATE` of the assigned columns for its id. Transactions run under READ
COMMITTED and may be rolled back at any point.
-/

namespace DeerFlow

inductive VersionCall where
  | update (a : UpdateArgs)
  | setStatus (status : VersionStatus) (now : ℕ)

/-- How far a transaction is. `assigned` has an upload before it, `staged` its flush. -/
inductive VersionTxPhase where
  | called
  | loaded (row : VersionRow)
  | assigned (loaded row : VersionRow)
  | staged (loaded row : VersionRow)
  | flushed
  | committed
  | failed (e : ReleaseError)
  deriving DecidableEq

structure VersionTx where
  call : VersionCall
  orgId : String
  phase : VersionTxPhase := .called

/-- One version with the object store and the transactions on the version. -/
structure VersionDesk where
  row : TxCell ℕ VersionRow
  store : ObjectStore
  txs : List VersionTx := []

/-- What a transaction does next; `rollback` is also its connection being lost, or its process. -/
inductive TxStatement where
  | read
  | check
  | upload
  | flush
  | commit
  | rollback
  deriving DecidableEq

inductive VersionTxAct where
  | begin (call : VersionCall) (orgId : String)
  | act (i : ℕ) (a : TxStatement)

/-- The checks on the loaded row and the assignments that follow them. -/
def VersionCall.assign (sha256 : String → String) (id : VersionId) (orgId : String)
    (row : VersionRow) : VersionCall → VersionTxPhase
  | .update a =>
    if row.orgId ≠ orgId then .failed (.versionNotFound id orgId)
    else if row.status.frozen then .failed (.immutable id row.status)
    else .assigned row (row.updated sha256 orgId id a)
  | .setStatus status now =>
    if row.orgId ≠ orgId then .failed (.versionNotFound id orgId)
    else if status ∉ row.status.legalTransitions then
      .failed (.illegalTransition row.status status)
    else .staged row (row.withStatus status now)

def VersionCall.upload (id : VersionId) (orgId : String) (st : ObjectStore) :
    VersionCall → ObjectStore
  | .update a => a.upload orgId id st
  | .setStatus _ _ => st

namespace VersionDesk

variable (s : VersionDesk) (i : ℕ) (tx : VersionTx)

def setPhase (phase : VersionTxPhase) : VersionDesk :=
  { s with txs := s.txs.set i { tx with phase := phase } }

/-- Without an assigned column there is no statement; the `UPDATE` waits for the holder of the row,
and content in two places fails the CHECK. -/
def flushTx (loaded row : VersionRow) : Option VersionDesk :=
  if row = loaded then some (s.setPhase i tx .flushed)
  else
    match s.row.write i (loaded.flush row (s.row.visible i)) with
    | none => none
    | some c =>
      if (loaded.flush row (s.row.visible i)).contentExclusive then
        some { s.setPhase i tx .flushed with row := c }
      else some (s.setPhase i tx (.failed .integrity))

/-- One statement of transaction `i`; `none` where it is not its turn or has to wait. -/
def txStep (sha256 : String → String) (id : VersionId) (a : TxStatement) : Option VersionDesk :=
  match a, tx.phase with
  | .read, .called => some (s.setPhase i tx (.loaded (s.row.visible i)))
  | .check, .loaded row => some (s.setPhase i tx (tx.call.assign sha256 id tx.orgId row))
  | .upload, .assigned loaded row =>
    some { s.setPhase i tx (.staged loaded row) with store := tx.call.upload id tx.orgId s.store }
  | .flush, .staged loaded row => s.flushTx i tx loaded row
  | .commit, .flushed => some { s.setPhase i tx .committed with row := s.row.commit i }
  | .rollback, .committed => none
  | .rollback, .failed _ => none
  | .rollback, _ => some { s.setPhase i tx (.failed .integrity) with row := s.row.rollback i }
  | _, _ => none

end VersionDesk

/-- The transactions on the version `id`. -/
def versionTxs (sha256 : String → String) (id : VersionId) : Machine VersionDesk VersionTxAct where
  step s
    | .begin call orgId => some { s with txs := s.txs ++ [⟨call, orgId, .called⟩] }
    | .act i a => s.txs[i]?.bind fun tx => s.txStep i tx sha256 id a

end DeerFlow

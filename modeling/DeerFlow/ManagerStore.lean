import DeerFlow.RunStores
import Mathlib.Data.List.Sort

/-!
# The run manager over its store

`RunManager.list_by_thread`, which merges the runs it holds with rows of the store, and the status
and completion writes of one run whose row the store may lose.
-/

namespace DeerFlow

section Listing

/-- A run as `list_by_thread` answers it. -/
structure ListedRun (τ : Type) where
  runId : String
  createdAt : τ
  storeOnly : Bool

/-- The runs of a thread: the records in memory, and the rows of the store, newest first. -/
structure ThreadRuns (τ : Type) [LinearOrder τ] where
  memory : List (ListedRun τ)
  store : List (ListedRun τ)
  memoryIds : (memory.map ListedRun.runId).Nodup
  storeIds : (store.map ListedRun.runId).Nodup
  named : ∀ r ∈ store, r.runId ≠ ""
  storeSorted : store.Pairwise fun a b => b.createdAt ≤ a.createdAt

variable {τ : Type} [LinearOrder τ]

/-- `sorted(.., key=created_at, reverse=True)`, which keeps the order of equal times. -/
def newestFirst (rs : List (ListedRun τ)) : List (ListedRun τ) :=
  rs.insertionSort fun a b => b.createdAt ≤ a.createdAt

def addRows : List (ListedRun τ) → List (ListedRun τ) → List (ListedRun τ)
  | records, [] => records
  | records, row :: rows =>
    if row.runId ≠ "" ∧ row.runId ∉ records.map ListedRun.runId then addRows (records ++ [row]) rows
    else addRows records rows

/-- `list_by_thread`; `hydrated` is false where there is no store or its query raises. -/
def ThreadRuns.listByThread (t : ThreadRuns τ) (hydrated : Bool) (limit : ℕ) : List (ListedRun τ) :=
  if !hydrated then (newestFirst t.memory).take limit
  else
    let storeLimit := limit - t.memory.length
    (newestFirst (addRows t.memory (t.store.take storeLimit))).take limit

end Listing

/-- A run as the manager holds it: what `_store_put_payload` makes of it, and its version. -/
structure HeldRun where
  payload : PutArgs
  rowVersion : Int := 1

/-- A run and its row. `recreatedAt` is the record's version when its row was made anew, `landed`
counts the completions since. -/
structure KeptRun where
  record : HeldRun
  rows : RunTable
  recreatedAt : Option Int := none
  landed : ℕ := 0

namespace KeptRun

variable (E : RunDbEngine) (runId : String)

/-- `_persist_status` with the version of the record. -/
def persistStatus (s : KeptRun) (status : RunStatus) (error : Option String) (now : String) :
    KeptRun :=
  match RunRepository.updateStatus s.rows runId status error (some s.record.rowVersion) now with
  | (rows, true) =>
    { s with rows := rows, record := { s.record with rowVersion := s.record.rowVersion + 1 } }
  | (_, false) =>
    if (RunRepository.get E s.rows runId .omitted).isSome then s
    else match RunRepository.put E s.rows runId { s.record.payload with now := now } with
      | none => s
      | some rows =>
        if (s.rows.get? runId).isSome then { s with rows := rows }
        else { s with rows := rows, recreatedAt := some s.record.rowVersion, landed := 0 }

/-- `set_status`; an illegal transition raises. -/
def setStatus (s : KeptRun) (status : RunStatus) (error : Option String) (now : String) : KeptRun :=
  if RunStatus.Legal s.record.payload.status status then
    persistStatus E runId
      { s with record.payload := { s.record.payload with
          status := status, error := error.or s.record.payload.error } }
      status error now
  else s

/-- `update_run_completion(.., expected_row_version=record.row_version)`. -/
def updateRunCompletion (s : KeptRun) (status : RunStatus) (r : RunReport) : KeptRun :=
  let s' := { s with record.payload.error := r.error.or s.record.payload.error }
  match RunRepository.updateRunCompletion s.rows runId status r (some s.record.rowVersion) with
  | (rows, true) => { s' with rows := rows, landed := s.landed + 1 }
  | (_, false) => s'

end KeptRun

inductive KeptRunAct where
  | setStatus (status : RunStatus) (error : Option String) (now : String)
  | updateRunCompletion (status : RunStatus) (r : RunReport)
  | rowLost

/-- The calls on one run, one after the other, and the store losing its row between them. -/
def keptRun (E : RunDbEngine) (runId : String) : Machine KeptRun KeptRunAct where
  step s
    | .setStatus status error now => some (s.setStatus E runId status error now)
    | .updateRunCompletion status r => some (s.updateRunCompletion runId status r)
    | .rowLost => some { s with rows := s.rows.pop runId, recreatedAt := none }

end DeerFlow

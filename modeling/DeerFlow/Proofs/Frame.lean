import DeerFlow.System

/-!
# What an operation leaves alone

The reads of an updated world, and the inversion of `execOp` and `deliverOp`: an operation goes
through, raises or is cancelled, and touches one part of the world only.
-/

namespace DeerFlow

open Coop Option Call Op

def World.memStatus (w : World) (ρ : ReplicaId) (r : RunId) : Option RunStatus :=
  (w.record? ρ r).map RunRecord.status

def World.memVersion (w : World) (ρ : ReplicaId) (r : RunId) : Option ℕ :=
  (w.record? ρ r).map RunRecord.rowVersion

def World.rowStatus (w : World) (r : RunId) : Option RunStatus := (w.row? r).map RunRow.status

def World.storedVersion (w : World) (r : RunId) : Option ℕ := (w.row? r).map RunRow.rowVersion

def Outcome.isOk : Outcome → Bool
  | .ok _ => true
  | _ => false

def Outcome.isRaised : Outcome → Bool
  | .raised .. => true
  | _ => false

def Outcome.isCancelled : Outcome → Bool
  | .cancelled => true
  | _ => false

namespace World

variable (w : World) (ρ ρ' : ReplicaId) (r r' : RunId)

@[simp] theorem setManager_self (m : RunManager) : (w.setManager ρ m).managers ρ = m := by
  simp [setManager]

theorem setManager_of_ne (m : RunManager) (h : ρ' ≠ ρ) :
    (w.setManager ρ m).managers ρ' = w.managers ρ' := by
  simp [setManager, h]

@[simp] theorem setManager_rows (m : RunManager) : (w.setManager ρ m).rows = w.rows := rfl

@[simp] theorem setManager_now (m : RunManager) : (w.setManager ρ m).now = w.now := rfl

@[simp] theorem setManager_redis (m : RunManager) : (w.setManager ρ m).redis = w.redis := rfl

@[simp] theorem updateRecord_now (f : RunRecord → RunRecord) :
    (w.updateRecord ρ r f).now = w.now := rfl

theorem updateRecord_managers (f : RunRecord → RunRecord) :
    (w.updateRecord ρ r f).managers ρ = { w.managers ρ with
      heap := fun r' => if r' = r then ((w.managers ρ).heap r).map f
        else (w.managers ρ).heap r' } := by
  simp [updateRecord]

theorem updateRecord_of_ne (f : RunRecord → RunRecord) (h : ρ' ≠ ρ) :
    (w.updateRecord ρ r f).managers ρ' = w.managers ρ' :=
  w.setManager_of_ne ρ ρ' _ h

@[simp] theorem updateRecord_self (f : RunRecord → RunRecord) :
    (w.updateRecord ρ r f).record? ρ r = (w.record? ρ r).map f := by
  simp [record?, updateRecord_managers]

theorem updateRecord_record_of_ne (f : RunRecord → RunRecord) (h : ρ' ≠ ρ ∨ r' ≠ r) :
    (w.updateRecord ρ r f).record? ρ' r' = w.record? ρ' r' := by
  by_cases hρ : ρ' = ρ
  · subst hρ
    have hr : r' ≠ r := h.resolve_left (fun h => h rfl)
    simp [record?, updateRecord_managers, hr]
  · simp [record?, updateRecord_of_ne, hρ]

@[simp] theorem updateRecord_lock (f : RunRecord → RunRecord) :
    ((w.updateRecord ρ r f).managers ρ').lock = (w.managers ρ').lock := by
  by_cases hρ : ρ' = ρ
  · subst hρ
    simp [updateRecord_managers]
  · simp [updateRecord_of_ne, hρ]

@[simp] theorem updateRecord_runs (f : RunRecord → RunRecord) :
    ((w.updateRecord ρ r f).managers ρ').runs = (w.managers ρ').runs := by
  by_cases hρ : ρ' = ρ
  · subst hρ
    simp [updateRecord_managers]
  · simp [updateRecord_of_ne, hρ]

@[simp] theorem updateRecord_hasStore (f : RunRecord → RunRecord) :
    ((w.updateRecord ρ r f).managers ρ').hasStore = (w.managers ρ').hasStore := by
  by_cases hρ : ρ' = ρ
  · subst hρ
    simp [updateRecord_managers]
  · simp [updateRecord_of_ne, hρ]

@[simp] theorem unlock_rows : (w.unlock ρ).rows = w.rows := rfl

@[simp] theorem unlock_now : (w.unlock ρ).now = w.now := rfl

@[simp] theorem unlock_redis : (w.unlock ρ).redis = w.redis := rfl

@[simp] theorem unlock_self : (w.unlock ρ).managers ρ = { w.managers ρ with lock := none } := by
  simp [unlock]

theorem unlock_of_ne (h : ρ' ≠ ρ) : (w.unlock ρ).managers ρ' = w.managers ρ' :=
  w.setManager_of_ne ρ ρ' _ h

@[simp] theorem unlock_record : (w.unlock ρ).record? ρ' r = w.record? ρ' r := by
  by_cases hρ : ρ' = ρ
  · subst hρ
    simp [record?]
  · simp [record?, unlock_of_ne, hρ]

@[simp] theorem unlock_runs : ((w.unlock ρ).managers ρ').runs = (w.managers ρ').runs := by
  by_cases hρ : ρ' = ρ
  · subst hρ
    simp
  · simp [unlock_of_ne, hρ]

@[simp] theorem setRow_self (x : RunRow) : (w.setRow r x).row? r = some x := by
  simp [row?, setRow]

theorem setRow_of_ne (x : RunRow) (h : r' ≠ r) : (w.setRow r x).row? r' = w.row? r' := by
  have h' : ¬ r = r' := fun e => h e.symm
  simp [row?, setRow, h']

theorem matchRow_some {v : ℕ} {x : RunRow} :
    w.matchRow r (some v) = some x ↔ w.row? r = some x ∧ x.rowVersion = v := by
  unfold matchRow
  cases w.row? r with
  | none => simp
  | some y =>
    simp only [some.injEq]
    constructor
    · intro h
      split_ifs at h with hv
      cases h
      exact ⟨rfl, hv⟩
    · rintro ⟨rfl, hv⟩
      rw [if_pos hv]

theorem matchRow_none {x : RunRow} : w.matchRow r none = some x ↔ w.row? r = some x := by
  unfold matchRow
  cases w.row? r <;> simp

end World

def RunManager.mapHeap (m : RunManager) (f : RunId → RunRecord → RunRecord) : RunManager :=
  { m with heap := fun r => (m.heap r).map (f r) }

theorem updateRecord_eq (w : World) (ρ : ReplicaId) (r : RunId) (f : RunRecord → RunRecord) :
    w.updateRecord ρ r f
      = w.setManager ρ ((w.managers ρ).mapHeap fun r' => if r' = r then f else id) := by
  have hheap : (fun r' => if r' = r then ((w.managers ρ).heap r).map f else (w.managers ρ).heap r')
      = fun r' => ((w.managers ρ).heap r').map (if r' = r then f else id) := by
    funext r'
    by_cases h : r' = r
    · simp [h]
    · simp [h]
  rw [World.updateRecord, hheap]
  rfl

theorem updateRecords_eq (m : RunManager) (rs : List RunId) (f : RunRecord → RunRecord) :
    m.updateRecords rs f = m.mapHeap fun r => if r ∈ rs then f else id := by
  have hheap : (fun r => if r ∈ rs then (m.heap r).map f else m.heap r)
      = fun r => (m.heap r).map (if r ∈ rs then f else id) := by
    funext r
    by_cases h : r ∈ rs
    · simp [h]
    · simp [h]
  rw [RunManager.updateRecords, hheap]
  rfl

section Effects

variable {i : ℕ} {l : Call} {op : Op} {o : Outcome} {a : Answer} {w w' : World}
  {x : Except Exc op.Res} {c : Bool}

/-- The operations that write a row of the `runs` table. -/
def Op.writesRow : Op → Bool
  | .put .. | .updateStatus .. | .updateRunCompletion .. | .requestCancel .. => true
  | _ => false

def Op.writesLease : Op → Bool
  | .redisSetNx .. | .redisRenew .. | .redisRelease .. => true
  | _ => false

def Op.writesCheckpoint : Op → Bool
  | .aput .. | .aputWrites .. | .adeleteThread _ | .anext .. => true
  | _ => false

def Op.isAcquire : Op → Bool
  | .acquire _ => true
  | _ => false

def Op.isClaim : Op → Bool
  | .redisSetNx .. | .redisGet _ => true
  | _ => false

def Op.isStart : Op → Bool
  | .start => true
  | _ => false

def Op.isEntry (op : Op) : Bool := op.isStart || op.isClaim

/-- What the calls wait for beside a claim and beside what only `run_agent` waits for. -/
def Op.isPlain : Op → Bool
  | .start | .redisSetNx .. | .redisGet _ | .publish .. => false
  | op => !op.writesCheckpoint

theorem Op.writesCheckpoint_of_plain {op : Op} (h : op.isPlain) : op.writesCheckpoint = false := by
  cases op <;> first | rfl | cases h

structure Op.Leaves (op : Op) (w w' : World) : Prop where
  managers : op.isAcquire = false → w'.managers = w.managers
  rows : op.writesRow = false → w'.rows = w.rows
  redis : op.writesLease = false → w'.redis = w.redis
  checkpoints : op.writesCheckpoint = false → w'.checkpoints = w.checkpoints
  now : w'.now = w.now
  frames : w'.frames = w.frames
  leaseStop : w'.leaseStop = w.leaseStop
  ended : w'.ended = w.ended
  log : w'.log = w.log
  tokens : w'.tokens = w.tokens

theorem Op.Leaves.refl {w : World} : op.Leaves w w :=
  ⟨fun _ => rfl, fun _ => rfl, fun _ => rfl, fun _ => rfl, rfl, rfl, rfl, rfl, rfl, rfl⟩

theorem Op.Leaves.of_row {x : RunRow} {r : RunId} (h : op.writesRow) : op.Leaves w (w.setRow r x) :=
  ⟨fun _ => rfl, fun h' => (by simp [h] at h'), fun _ => rfl, fun _ => rfl,
    rfl, rfl, rfl, rfl, rfl, rfl⟩

theorem Op.Leaves.of_lease {k : String} {v : Option (ClaimRecord × ℕ)} (h : op.writesLease) :
    op.Leaves w (w.setLease k v) :=
  ⟨fun _ => rfl, fun _ => rfl, fun h' => (by simp [h] at h'), fun _ => rfl,
    rfl, rfl, rfl, rfl, rfl, rfl⟩

theorem Op.Leaves.of_checkpoints {t : ThreadId} {cs : List StoredCheckpoint}
    (h : op.writesCheckpoint) : op.Leaves w (w.setCheckpoints t cs) :=
  ⟨fun _ => rfl, fun _ => rfl, fun _ => rfl, fun h' => (by simp [h] at h'),
    rfl, rfl, rfl, rfl, rfl, rfl⟩

theorem Op.effect_leaves {x : op.Res} (h : op.effect i a w = some (w', x)) : op.Leaves w w' := by
  cases op <;> cases a <;> simp only [effect, some.injEq, Prod.mk.injEq, reduceCtorEq] at h
  case acquire.unit ρ =>
    split at h
    · cases h
      exact ⟨fun h => (by simp [isAcquire] at h), fun _ => rfl, fun _ => rfl, fun _ => rfl,
        rfl, rfl, rfl, rfl, rfl, rfl⟩
    · cases h
  case put.unit r p =>
    rw [← h.1]
    unfold World.put
    split <;> exact .of_row rfl
  case updateStatus.unit r st e v =>
    unfold World.updateStatus at h
    split at h <;> cases h
    · exact .refl
    · exact .of_row rfl
  case updateRunCompletion.unit r st c e v =>
    unfold World.updateRunCompletion at h
    split at h <;> cases h
    · exact .refl
    · exact .of_row rfl
  case requestCancel.unit r act =>
    unfold World.requestCancel at h
    split at h
    · cases h
      exact .refl
    · split at h <;> cases h
      · exact .of_row rfl
      · exact .refl
  case redisSetNx.unit k v ttl =>
    unfold World.redisSetNx at h
    split at h <;> cases h
    · exact .refl
    · exact .of_lease rfl
  case redisRenew.unit k tok ttl ex =>
    unfold World.redisRenew at h
    split at h
    · cases h
      exact .refl
    · split at h <;> cases h
      · exact .of_lease rfl
      · exact .refl
  case redisRelease.unit k tok =>
    unfold World.redisRelease at h
    split at h
    · cases h
      exact .refl
    · split at h <;> cases h
      · exact .of_lease rfl
      · exact .refl
  all_goals
    obtain ⟨rfl, -⟩ := h
    first
      | exact .refl
      | exact .of_checkpoints rfl
      | exact ⟨fun _ => rfl, fun _ => rfl, fun _ => rfl, fun _ => rfl, rfl, rfl, rfl, rfl, rfl, rfl⟩

theorem Op.effect_record {x : op.Res} (h : op.effect i a w = some (w', x)) (ρ : ReplicaId)
    (r : RunId) : w'.record? ρ r = w.record? ρ r := by
  cases ho : op.isAcquire with
  | false => rw [World.record?, (effect_leaves h).managers ho]; rfl
  | true =>
    cases op <;> simp [isAcquire] at ho
    rename_i ρ'
    cases a <;> simp only [effect, reduceCtorEq] at h
    split_ifs at h
    cases h
    by_cases hρ : ρ = ρ'
    · subst hρ
      simp [World.record?]
    · simp [World.record?, World.setManager_of_ne _ _ _ _ hρ]

theorem Op.effect_stored {x : op.Res} (h : op.effect i a w = some (w', x)) {r : RunId}
    (hr : (w.row? r).isSome) : (w'.row? r).isSome := by
  have hset : ∀ r' y, ((w.setRow r' y).row? r).isSome := by
    intro r' y
    by_cases hr' : r = r'
    · simp [hr']
    · rw [w.setRow_of_ne r' r y hr']
      exact hr
  cases ho : op.writesRow with
  | false =>
    rw [World.row?, (effect_leaves h).rows ho]
    exact hr
  | true =>
    cases op <;> cases ho <;> cases a <;>
      simp only [effect, some.injEq, Prod.mk.injEq, reduceCtorEq] at h
    case true.put.refl.unit r' p =>
      rw [← h.1]
      unfold World.put
      split <;> exact hset _ _
    case true.updateStatus.refl.unit r' st e v =>
      unfold World.updateStatus at h
      split at h <;> cases h
      · exact hr
      · exact hset _ _
    case true.updateRunCompletion.refl.unit r' st c e v =>
      unfold World.updateRunCompletion at h
      split at h <;> cases h
      · exact hr
      · exact hset _ _
    case true.requestCancel.refl.unit r' act =>
      unfold World.requestCancel at h
      split at h
      · cases h
        exact hr
      · split at h <;> cases h
        · exact hset _ _
        · exact hr

theorem execOp_cases (h : execOp i l op o w = some (w', x)) :
    (∃ a y, o = .ok a ∧ op.effect i a w = some (w', y) ∧ x = .ok y)
      ∨ (∃ e ap, o = .raised e ap ∧ e.isException ∧ op.canRaise ∧ x = .error e
          ∧ (w' = w ∨ ∃ a y, op.effect i a w = some (w', y)))
      ∨ (o = .cancelled ∧ l.mustCancel w ∧ w' = l.clearCancel w
          ∧ x = .error .cancelled) := by
  rcases o with a | ⟨e, _ | a⟩ | _
  · obtain ⟨q, hq, he⟩ := map_eq_some_iff.1 h
    cases he
    exact .inl ⟨a, q.2, rfl, hq, rfl⟩
  · simp only [execOp] at h
    split_ifs at h with hc
    cases h
    simp only [Bool.and_eq_true] at hc
    exact .inr (.inl ⟨e, none, rfl, hc.2, hc.1, rfl, .inl rfl⟩)
  · simp only [execOp] at h
    split_ifs at h with hc
    simp only [Bool.and_eq_true] at hc
    obtain ⟨q, hq, he⟩ := map_eq_some_iff.1 h
    cases he
    exact .inr (.inl ⟨e, some a, rfl, hc.2, hc.1, rfl, .inr ⟨a, q.2, hq⟩⟩)
  · simp only [execOp] at h
    split_ifs at h with hc
    cases h
    exact .inr (.inr ⟨rfl, hc, rfl, rfl⟩)

def Call.isTask : Call → Bool
  | .runAgent .. => true
  | _ => false

theorem Call.clearCancel_of_not_task (h : l.isTask = false) : l.clearCancel w = w := by
  cases l <;> simp_all [isTask, clearCancel]

theorem execOp_effect (hlab : l.isTask = false)
    (h : execOp i l op o w = some (w', x)) : w' = w ∨ ∃ a y, op.effect i a w = some (w', y) := by
  rcases execOp_cases h with ⟨a, y, -, h, -⟩ | ⟨e, ap, -, -, -, -, h⟩ | ⟨-, -, rfl, -⟩
  · exact .inr ⟨a, y, h⟩
  · exact h
  · exact .inl (clearCancel_of_not_task hlab)

theorem execOp_leaves (hlab : l.isTask = false)
    (h : execOp i l op o w = some (w', x)) : op.Leaves w w' := by
  rcases execOp_effect hlab h with rfl | ⟨a, y, h⟩
  · exact .refl
  · exact effect_leaves h

theorem deliverOp_of_not_acquire (h : op.isAcquire = false) :
    deliverOp l op x c w = l.interrupt c w := by
  cases op <;> first | rfl | simp [isAcquire] at h

theorem Call.interrupt_of_not_task (hlab : l.isTask = false)
    (h : l.interrupt c w = some w') : w' = w := by
  cases l <;> cases c <;>
    simp_all [isTask, interrupt, mustCancel, clearCancel]

theorem Call.interrupt_cases (h : l.interrupt c w = some w') :
    (c = false ∧ w' = w ∧ (l.isTask → l.mustCancel w = false))
      ∨ (c ∧ l.mustCancel w ∧ w' = l.clearCancel w) := by
  cases c with
  | true =>
    have h : (if l.mustCancel w then some (l.clearCancel w) else none) = some w' := by
      cases l <;> exact h
    split_ifs at h with hm
    cases h
    exact .inr ⟨rfl, hm, rfl⟩
  | false =>
    left
    cases l
    case runAgent ρ r x =>
      change (if mustCancel w (.runAgent ρ r x) then none else some w) = some w' at h
      split_ifs at h with hm
      cases h
      exact ⟨rfl, rfl, fun _ => by simpa using hm⟩
    all_goals
      cases h
      exact ⟨rfl, rfl, nofun⟩

theorem deliverOp_inv (h : deliverOp l op x c w = some w') :
    (c = false ∧ w' = w ∧ (l.isTask → l.mustCancel w = false))
      ∨ (c ∧ l.mustCancel w
        ∧ (w' = l.clearCancel w ∨ ∃ ρ, op = .acquire ρ ∧ w' = (l.clearCancel w).unlock ρ)) := by
  have hplain (h : l.interrupt c w = some w') :
      (c = false ∧ w' = w ∧ (l.isTask → l.mustCancel w = false))
        ∨ (c ∧ l.mustCancel w
          ∧ (w' = l.clearCancel w ∨ ∃ ρ, op = .acquire ρ ∧ w' = (l.clearCancel w).unlock ρ)) := by
    rcases interrupt_cases h with h | ⟨hc, hm, hw⟩
    · exact .inl h
    · exact .inr ⟨hc, hm, .inl hw⟩
  cases ho : op.isAcquire with
  | false =>
    rw [deliverOp_of_not_acquire ho] at h
    exact hplain h
  | true =>
    cases op <;> simp only [isAcquire, Bool.false_eq_true] at ho
    rename_i ρ
    rcases x with e | u
    · exact hplain h
    · cases c with
      | false => exact hplain h
      | true =>
        obtain ⟨v, hv, rfl⟩ := map_eq_some_iff.1 h
        obtain ⟨hc, -⟩ | ⟨-, hm, rfl⟩ := interrupt_cases hv
        · cases hc
        · exact .inr ⟨rfl, hm, .inr ⟨ρ, rfl, rfl⟩⟩

theorem deliverOp_cases (hlab : l.isTask = false)
    (h : deliverOp l op x c w = some w') :
    w' = w ∧ (op.isAcquire → c → ∀ y, x ≠ .ok y)
      ∨ ∃ ρ, op = .acquire ρ ∧ c ∧ w' = w.unlock ρ := by
  cases ho : op.isAcquire with
  | false =>
    rw [deliverOp_of_not_acquire ho] at h
    exact .inl ⟨interrupt_of_not_task hlab h, fun h => by simp at h⟩
  | true =>
    cases op <;> simp [isAcquire] at ho
    rename_i ρ
    rcases x with e | u
    · exact .inl ⟨interrupt_of_not_task hlab h, fun _ _ y => by simp⟩
    · cases c with
      | false => exact .inl ⟨interrupt_of_not_task hlab h, fun _ h => by simp at h⟩
      | true =>
        obtain ⟨v, hv, rfl⟩ := map_eq_some_iff.1 h
        rw [interrupt_of_not_task hlab hv]
        exact .inr ⟨ρ, rfl, rfl, rfl⟩

end Effects

end DeerFlow

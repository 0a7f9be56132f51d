import DeerFlow.Coop.Footprint
import DeerFlow.Proofs.Frame

/-!
# What the calls touch

Between two waits a call changes the records of the runs it acts for, and notes the version of any
row. Some calls also cancel other runs, and one that makes a run registers it, takes it out again
and gives it a task. `Allows` and its extensions ask a footprint for all of that, so that each call
is gone through once.
-/

namespace DeerFlow

open Coop Coro

inductive RunRecord.Disturbed (x : RunRecord) : RunRecord → Prop
  | same : x.Disturbed x
  | interrupt (action : String) (now : ℕ) : x.Disturbed (x.interruptBy action now)
  | abort (action : String) : x.Disturbed (x.abort action)
  | mark (now : ℕ) : x.status.inflight = true →
      x.Disturbed { x with status := .interrupted, updatedAt := now }
  | version (v : ℕ) : x.Disturbed { x with rowVersion := v }

structure RunRecord.Managed (x x' : RunRecord) : Prop where
  runId : x'.runId = x.runId
  threadId : x'.threadId = x.threadId
  task : x'.task = x.task
  abortEvent : x'.abortEvent = x.abortEvent
  abortAction : x'.abortAction = x.abortAction

def RunRecord.Noted (x x' : RunRecord) : Prop := ∃ v, x' = { x with rowVersion := v }

def Call.ActsFor (r : RunId) : Call → Prop
  | .createOrReject _ a => a.runId = r
  | .setStatus _ r' _ _ | .updateRunCompletion _ r' _ _ _ _ | .cleanup _ r' _ => r' = r
  | .startRun _ q => q.runId = r
  | .runAgent _ r' _ => r' = r
  | _ => False

/-- The footprint lets a call act for the runs `T`. -/
structure Allows (F : Footprint World runSig) (T : RunId → Prop) : Prop where
  lock : ∀ w ρ l, F.change w (w.setManager ρ { w.managers ρ with lock := l })
  heap : ∀ w ρ f, (∀ r (x : RunRecord), x.Managed (f r x) ∧ (T r ∨ x.Noted (f r x))) →
    F.change w (w.setManager ρ ((w.managers ρ).mapHeap f))
  tokens : ∀ w n, F.change w { w with tokens := n }
  op : ∀ op, op.isPlain = true → F.op op
  start : ∀ l, (∀ r, l.ActsFor r → T r) → F.start l
  raises : ∀ e, e.isException = true → F.raises e

structure AllowsClaim (F : Footprint World runSig) (T : RunId → Prop) : Prop
    extends Allows F T where
  claim : ∀ op, op.isClaim = true → F.op op

/-- The footprint also lets a call cancel any run and make and drop the runs `T`. -/
structure AllowsCall (F : Footprint World runSig) (T : RunId → Prop) : Prop
    extends AllowsClaim F T where
  disturb : ∀ w ρ f, (∀ r (x : RunRecord), x.Disturbed (f r x)) →
    F.change w (w.setManager ρ ((w.managers ρ).mapHeap f))
  register : ∀ w ρ x, T x.runId → F.change w (w.setManager ρ ((w.managers ρ).register x))
  retire : ∀ w ρ r t, T r →
    F.change w (w.setManager ρ (((w.managers ρ).popRun r).unindexRunLocked r t))
  attach : ∀ w ρ r, T r → F.change w (w.updateRecord ρ r fun y => { y with task := some {} })

def World.Beside (w w' : World) : Prop := ∃ ms n, w' = { w with managers := ms, tokens := n }

def aside (R : Exc → Prop) : Footprint World runSig where
  change := World.Beside
  refl w := ⟨w.managers, w.tokens, rfl⟩
  op op := op.writesCheckpoint = false
  start _ := True
  raises e := e.isException = true ∨ R e

theorem aside_allows (R : Exc → Prop) : AllowsCall (aside R) fun _ => True where
  lock w _ _ := ⟨_, w.tokens, rfl⟩
  heap w _ _ _ := ⟨_, w.tokens, rfl⟩
  tokens w _ := ⟨w.managers, _, rfl⟩
  op _ h := Op.writesCheckpoint_of_plain h
  claim op h := by cases op <;> first | rfl | cases h
  start _ _ := trivial
  raises _ h := .inl h
  disturb w _ _ _ := ⟨_, w.tokens, rfl⟩
  register w _ _ _ := ⟨_, w.tokens, rfl⟩
  retire w _ _ _ _ := ⟨_, w.tokens, rfl⟩
  attach w _ _ _ := ⟨_, w.tokens, rfl⟩

section Rules

variable {F : Footprint World runSig} {α : Type} {ρ : ReplicaId}

theorem within_orReturn {p : Co α} {a : α} (hp : p.Within F) : (orReturn p a).Within F := by
  refine within_tryExcept hp fun e he => ?_
  split_ifs
  · exact within_pure a
  · exact within_throw he

theorem within_storeCall {op : Op} (ho : F.op op) (hz : F.op .sleep) : (storeCall op).Within F := by
  have hretry : ∀ n, (callStoreWithRetry op n).Within F := by
    intro n
    induction n with
    | zero => exact within_perform ho
    | succ n ih =>
      refine within_tryExcept (within_perform ho) fun e he => ?_
      split_ifs
      · exact within_bind (within_perform hz) fun _ => ih
      · exact within_throw he
  exact hretry maxAttempts

theorem within_ofExcept {x : Except Exc α} (h : F.Ends x) : (ofExcept x).Within F := by
  cases x with
  | error e => exact within_throw (h e rfl)
  | ok a => exact within_pure a

theorem within_getManager : (getManager ρ).Within F := within_bind within_get fun _ => within_pure _

end Rules

section Managers

variable {F : Footprint World runSig} {T : RunId → Prop} {α : Type} {ρ : ReplicaId} {r : RunId}
  {st : RunStatus} {e : Option String} {v : Option ℕ} {action : String}

theorem within_manage (hF : Allows F T) {f : World → RunRecord → RunRecord}
    (hf : ∀ w (x : RunRecord), x.Managed (f w x) ∧ (T r ∨ x.Noted (f w x))) :
    (modify fun w => w.updateRecord ρ r (f w) : Co Unit).Within F := by
  refine within_modify fun w => ?_
  rw [updateRecord_eq]
  refine hF.heap w ρ _ fun r' x => ?_
  split_ifs with hr
  · exact hr ▸ hf w x
  · exact ⟨⟨rfl, rfl, rfl, rfl, rfl⟩, .inr ⟨x.rowVersion, rfl⟩⟩

theorem within_disturb (hF : AllowsCall F T) {f : World → RunRecord → RunRecord}
    (hf : ∀ w (x : RunRecord), x.Disturbed (f w x)) :
    (modify fun w => w.updateRecord ρ r (f w) : Co Unit).Within F := by
  refine within_modify fun w => ?_
  rw [updateRecord_eq]
  refine hF.disturb w ρ _ fun r' x => ?_
  split_ifs
  · exact hf w x
  · exact .same

theorem within_updateRecords (hF : AllowsCall F T) {rs : List RunId} {f : RunRecord → RunRecord}
    (hf : ∀ x : RunRecord, x.Disturbed (f x)) :
    (modifyManager ρ fun m => m.updateRecords rs f).Within F := by
  refine within_modify fun w => ?_
  dsimp only
  rw [updateRecords_eq]
  refine hF.disturb w ρ _ fun r' x => ?_
  split_ifs
  · exact hf x
  · exact .same

theorem within_retire (hF : AllowsCall F T) (hr : T r) {t : ThreadId} :
    (modifyManager ρ fun m => (m.popRun r).unindexRunLocked r t).Within F :=
  within_modify fun w => hF.retire w ρ r t hr

theorem within_withLock (hF : Allows F T) {p : Co α} (hp : p.Within F) : (withLock ρ p).Within F :=
  within_bind (within_perform (hF.op _ rfl)) fun _ =>
    within_tryFinally hp (within_modify fun w => hF.lock w ρ none)

theorem within_persistSnapshotToStore (hF : Allows F T) {p : PutPayload} :
    (persistSnapshotToStore ρ r p).Within F := by
  refine within_bind within_getManager fun m => ?_
  split_ifs
  · exact within_pure _
  · exact within_orReturn (within_bind (within_storeCall (hF.op _ rfl) (hF.op _ rfl))
      fun _ => within_pure _)

theorem within_persistStatus (hF : Allows F T) {pl : PutPayload} {mirror : ℕ → Co Unit}
    (hm : ∀ v, (mirror v).Within F) :
    (persistStatus ρ r pl st e v mirror).Within F := by
  refine within_bind within_getManager fun m => ?_
  split_ifs
  · exact within_pure _
  · refine within_orReturn (within_bind (within_storeCall (hF.op _ rfl) (hF.op _ rfl))
      fun updated => ?_)
    split_ifs
    · cases v with
      | none => exact within_persistSnapshotToStore hF
      | some v =>
        refine within_bind (within_perform (hF.op _ rfl)) fun existing => ?_
        cases existing with
        | none => exact within_persistSnapshotToStore hF
        | some _ => exact within_pure _
    · cases v with
      | none => exact within_pure _
      | some v => exact within_bind (hm (v + 1)) fun _ => within_pure _

theorem within_persistRecordStatus (hF : Allows F T) :
    (persistRecordStatus ρ r st e v).Within F := by
  refine within_bind within_get fun w => ?_
  split
  · exact within_pure _
  · exact within_persistStatus hF fun v =>
      within_manage hF fun _ _ => ⟨⟨rfl, rfl, rfl, rfl, rfl⟩, .inr ⟨v, rfl⟩⟩

theorem within_persistInterrupted (hF : Allows F T) : (persistInterrupted ρ r).Within F :=
  within_bind (within_persistRecordStatus hF) fun _ => within_pure _

theorem within_setStatus (hF : Allows F T) (hr : T r) : (setStatus ρ r st e).Within F := by
  refine within_bind (within_withLock hF (within_bind within_get fun w => ?_)) fun expected => ?_
  · split
    · exact within_pure _
    · split
      · exact within_throw (hF.raises _ rfl)
      · exact within_bind (within_manage hF fun _ _ => ⟨⟨rfl, rfl, rfl, rfl, rfl⟩, .inl hr⟩)
          fun _ => within_pure _
  · cases expected with
    | none => exact within_pure _
    | some v =>
      exact within_bind (within_persistRecordStatus hF) fun _ =>
        within_withLock hF (within_pure _)

theorem within_publishCancelNotify (hF : Allows F T) : (publishCancelNotify ρ r action).Within F := by
  refine within_bind within_getManager fun m => ?_
  split_ifs
  · exact within_pure _
  · exact within_orReturn (within_perform (hF.op _ rfl))

theorem within_cancelLocked (hN : AllowsCall F T) : (cancelLocked ρ r action).Within F := by
  have hF := hN.toAllows
  refine within_bind within_get fun w => ?_
  split
  · split_ifs
    · exact within_pure _
    · refine within_bind (within_perform (hF.op _ rfl)) fun persisted => ?_
      split_ifs
      · exact within_bind (within_publishCancelNotify hF) fun _ => within_pure _
      · refine within_bind (within_perform (hF.op _ rfl)) fun existing => ?_
        split <;> exact within_pure _
  · split_ifs
    · exact within_pure _
    · exact within_pure _
    · split
      · exact within_throw (hF.raises _ rfl)
      · exact within_bind
          (within_disturb hN fun w _ => .interrupt action w.now)
          fun _ => within_pure _

theorem within_cancel (hN : AllowsCall F T) : (cancel ρ r action).Within F := by
  have hF := hN.toAllows
  refine within_bind (within_withLock hF (within_cancelLocked hN)) fun a => ?_
  rcases a with b | v
  · exact within_pure _
  · have hend : (publishCancelNotify ρ r action >>= fun _ => pure true).Within F :=
      within_bind (within_publishCancelNotify hF) fun _ => within_pure _
    refine within_bind (within_persistRecordStatus hF) fun _ =>
      within_bind within_getManager fun m => ?_
    split_ifs
    · exact within_bind (within_orReturn (within_bind (within_perform (hF.op _ rfl))
        fun _ => within_pure _)) fun _ => hend
    · exact hend

theorem within_createOrReject (hN : AllowsCall F T) {a : CreateArgs} (ha : T a.runId) :
    (createOrReject ρ a).Within F := by
  have hF := hN.toAllows
  refine within_bind within_get fun w => within_bind (within_withLock hF ?_) fun rs =>
    within_bind (within_forEach (fun _ => within_persistInterrupted hF) rs) fun _ => within_pure _
  unfold createOrRejectLocked
  split_ifs
  · refine within_bind within_getManager fun m => ?_
    dsimp only
    split_ifs
    · exact within_throw (hF.raises _ rfl)
    · refine within_bind (within_modify fun w => hN.register w ρ _ ha) fun _ =>
        within_bind (within_tryExcept ?_ ?_) ?_
      · refine within_bind within_getManager fun m => ?_
        split_ifs
        · exact within_pure _
        · exact within_storeCall (hF.op _ rfl) (hF.op _ rfl)
      · exact fun e he => within_bind (within_retire hN ha) fun _ => within_throw he
      · exact fun _ => within_bind (within_updateRecords hN fun _ => .interrupt _ _)
          fun _ => within_pure _
  · exact within_throw (hF.raises _ rfl)

theorem within_updateRunCompletion (hF : Allows F T) (hr : T r) {c : Completion} :
    (updateRunCompletion ρ r st c e v).Within F := by
  refine within_bind (within_withLock hF (within_bind within_get fun w => ?_)) fun payload =>
    within_bind within_getManager fun m => ?_
  · split
    · exact within_pure _
    · exact within_bind (within_manage hF fun _ _ => ⟨⟨rfl, rfl, rfl, rfl, rfl⟩, .inl hr⟩) fun _ =>
        within_bind within_get fun _ => within_pure _
  · split_ifs
    · exact within_pure _
    · refine within_orReturn (within_bind (within_storeCall (hF.op _ rfl) (hF.op _ rfl))
        fun updated => ?_)
      split_ifs
      · exact within_pure _
      · cases payload with
        | none => exact within_pure _
        | some p =>
          refine within_bind (within_persistSnapshotToStore hF) fun b => ?_
          split_ifs
          · exact within_bind (within_storeCall (hF.op _ rfl) (hF.op _ rfl)) fun _ => within_pure _
          · exact within_pure _

theorem within_cleanup (hN : AllowsCall F T) (hr : T r) {delay : ℕ} :
    (cleanup ρ r delay).Within F := by
  have hlocked : (withLock ρ (cleanupLocked ρ r)).Within F := by
    refine within_withLock hN.toAllows (within_bind within_getManager fun m => ?_)
    split
    · exact within_pure _
    · exact within_retire hN hr
  unfold cleanup
  split_ifs
  · exact within_bind (within_perform (hN.op _ rfl)) fun _ => hlocked
  · exact hlocked

theorem within_updateModelName (hF : Allows F T) (hr : T r) {name : Option String} :
    (updateModelName ρ r name).Within F := by
  refine within_bind (within_withLock hF (within_bind within_get fun w => ?_)) fun known =>
    within_bind within_getManager fun m => ?_
  · split
    · exact within_pure _
    · exact within_bind (within_manage hF fun _ _ => ⟨⟨rfl, rfl, rfl, rfl, rfl⟩, .inl hr⟩)
          fun _ => within_pure _
  · split_ifs
    · exact within_orReturn (within_storeCall (hF.op _ rfl) (hF.op _ rfl))
    · exact within_pure _

end Managers

section Leases

variable {F : Footprint World runSig} {T : RunId → Prop} {r : RunId}
  {org workerId workerVersion : String} {ttl : ℕ}
  {c : ClaimRecord}

theorem within_newClaimRecord (hF : Allows F T) :
    (newClaimRecord r workerId workerVersion ttl).Within F :=
  within_bind within_get fun _ => within_bind
    (within_bind within_get fun _ => within_bind (within_modify fun w => hF.tokens w _)
      fun _ => within_pure _) fun _ => within_pure _

theorem within_ownershipKey (hF : Allows F T) : (ofExcept (ownershipKey org r)).Within F := by
  refine within_ofExcept fun e he => hF.raises e ?_
  unfold ownershipKey at he
  split_ifs at he <;> cases he <;> rfl

theorem within_getHolder (hC : AllowsClaim F T) : (RedisLeaseStore.getHolder org r).Within F :=
  within_bind (within_ownershipKey hC.toAllows) fun _ => within_perform (hC.claim _ rfl)

theorem within_redisClaim (hC : AllowsClaim F T) :
    (RedisLeaseStore.claim org r workerId workerVersion ttl).Within F := by
  refine within_bind (within_newClaimRecord hC.toAllows) fun c =>
    within_bind (within_ownershipKey hC.toAllows) fun key =>
    within_bind (within_perform (hC.claim _ rfl)) fun acquired => ?_
  split_ifs
  · exact within_pure _
  · exact within_bind (within_getHolder hC) fun _ => within_pure _

theorem within_renew (hF : Allows F T) : (RedisLeaseStore.renew org c ttl).Within F :=
  within_bind (within_ownershipKey hF) fun _ => within_bind within_get fun _ =>
    within_perform (hF.op _ rfl)

theorem within_redisRelease (hF : Allows F T) : (RedisLeaseStore.release org c).Within F :=
  within_bind (within_ownershipKey hF) fun _ => within_perform (hF.op _ rfl)

theorem within_leaseRelease (hF : Allows F T) {b : LeaseBackend} : (b.release org c).Within F := by
  cases b with
  | null => exact within_pure _
  | redis => exact within_redisRelease hF

end Leases

section Sweeps

variable {F : Footprint World runSig} {T : RunId → Prop} {ρ : ReplicaId} {e : String}
  {events : Bool} {lease : LeaseBackend}

theorem within_leaseOutcome (hC : AllowsClaim F T) {x : RunRecord} :
    (leaseOutcome lease x).Within F := by
  cases lease with
  | null => exact within_pure _
  | redis =>
    refine within_orReturn (within_bind (within_getHolder hC) fun holder => within_bind within_get
      fun w => ?_)
    cases holder with
    | none => exact within_pure _
    | some c => dsimp only; split_ifs <;> exact within_pure _

theorem within_reclaim (hF : Allows F T) {x : RunRecord} {label : String} :
    (reclaim ρ e events x label).Within F := by
  refine within_bind (within_withLock hF (within_bind within_getManager fun _ => within_pure _))
    fun live => ?_
  by_cases hl : live
  · rw [if_pos hl]
    exact within_pure _
  · rw [if_neg hl]
    refine within_bind (within_persistStatus hF fun _ => within_pure _) fun persisted => ?_
    split_ifs
    · exact within_pure _
    · exact within_bind (within_orReturn (within_perform (hF.op _ rfl))) fun _ => within_pure _
    · exact within_pure _

theorem within_reconcileRow (hC : AllowsClaim F T) {row : RunRow} :
    (reconcileRow ρ e lease events row).Within F := by
  unfold reconcileRow
  dsimp only
  split_ifs
  · exact within_pure _
  · refine within_bind (within_leaseOutcome hC) fun outcome => ?_
    cases outcome with
    | none => exact within_pure _
    | some label => exact within_reclaim hC.toAllows

theorem within_reconcileRows (hC : AllowsClaim F T) :
    ∀ (rows : List RunRow) (recovered : List RunId), (reconcileRows ρ e lease events rows recovered).Within F
  | [], _ => within_pure _
  | _ :: rows, _ => within_bind (within_reconcileRow hC) fun _ => within_reconcileRows hC rows _

theorem within_reconcile (hC : AllowsClaim F T) {before : Option ℕ} :
    (reconcileOrphanedInflightRuns ρ e before lease events).Within F := by
  refine within_bind within_getManager fun m => ?_
  split_ifs
  · exact within_pure _
  · exact within_bind (within_orReturn (within_storeCall (hC.op _ rfl) (hC.op _ rfl))) fun rows =>
      within_reconcileRows hC rows []

theorem within_shutdown (hN : AllowsCall F T) {timeout : ℕ} : (shutdown ρ timeout).Within F := by
  have hF := hN.toAllows
  refine within_bind within_get fun w => within_bind (within_withLock hF ?_) fun inflight => ?_
  · exact within_bind within_getManager fun _ =>
      within_bind (within_updateRecords hN fun _ => .abort "interrupt") fun _ => within_pure _
  · split_ifs
    · exact within_pure _
    · refine within_bind (within_perform (hF.op _ rfl)) fun waiting =>
        within_bind (within_withLock hF ?_) fun toPersist => within_bind within_get fun w => ?_
      · refine within_bind within_get fun _ => within_bind (within_updateRecords hN fun x => ?_)
          fun _ => within_pure _
        split_ifs with hx
        · exact .mark _ hx
        · exact .same
      · split_ifs
        · exact within_pure _
        · refine within_bind (within_forEach
            (fun r => within_fork (hF.start (.persistInterrupted ρ r) fun _ h => False.elim h))
            toPersist) fun _ => ?_
          refine within_tryExcept (within_perform (hF.op _ rfl)) fun e he => ?_
          split_ifs
          · exact within_pure _
          · exact within_throw he

end Sweeps

section Runs

variable {F : Footprint World runSig} {T : RunId → Prop} {ρ : ReplicaId} {r : RunId}
  {q : StartRequest}

theorem within_pollCancelIntent (hN : AllowsCall F T) : (pollCancelIntent ρ r).Within F := by
  have hF := hN.toAllows
  refine within_bind within_get fun w => ?_
  dsimp only
  split_ifs
  · exact within_pure _
  · refine within_bind (within_orReturn (within_perform (hF.op _ rfl))) fun intent => ?_
    split
    · exact within_bind (within_disturb hN fun _ _ => .abort _) fun _ => within_pure _
    · exact within_pure _

theorem within_heartbeat (hN : AllowsCall F T) {org : String} {c : ClaimRecord} :
    ∀ n, (runLeaseHeartbeat ρ r org c n).Within F
  | 0 => within_pure _
  | n + 1 => by
    refine within_bind within_get fun w => ?_
    split_ifs
    · exact within_pure _
    · refine within_bind (within_perform (hN.op _ rfl)) fun _ => within_bind within_get fun w => ?_
      split_ifs
      · exact within_pure _
      · refine within_bind (within_orReturn (within_renew hN.toAllows)) fun renewed => ?_
        split_ifs
        · exact within_pure _
        · refine within_bind (within_pollCancelIntent hN) fun found => ?_
          split_ifs
          · exact within_pure _
          · exact within_heartbeat hN n

theorem within_checkModel (hF : Allows F T) : (checkModel q).Within F := by
  unfold checkModel
  split
  · split_ifs
    · exact within_throw (hF.raises _ rfl)
    · exact within_pure _
  · exact within_pure _

theorem within_checkThreadAccess (hF : Allows F T) : (checkThreadAccess q).Within F := by
  have hend : ∀ b : Bool, ((if b then pure () else throw (.http 404 s!"Thread {q.threadId} not found"))
      : Co Unit).Within F := by
    intro b
    split_ifs
    · exact within_pure _
    · exact within_throw (hF.raises _ rfl)
  unfold checkThreadAccess
  split
  · exact within_pure _
  · refine within_bind (within_perform (hF.op _ rfl)) fun allowed => ?_
    split
    · split_ifs
      · exact within_bind (within_perform (hF.op _ rfl)) hend
      · exact hend allowed
    · exact hend allowed

theorem within_upsertThread (hF : Allows F T) : (upsertThread q).Within F := by
  have hget : (awaitOp (.threadGet q.threadId true)).Within F := within_perform (hF.op _ rfl)
  refine within_bind hget fun existing => ?_
  split
  · refine within_bind (within_perform (hF.op _ rfl)) fun unscoped => ?_
    split
    · exact within_perform (hF.op _ rfl)
    · split_ifs
      · refine within_bind (within_perform (hF.op _ rfl)) fun _ => within_bind hget fun existing => ?_
        cases existing <;> exact within_perform (hF.op _ rfl)
      · refine within_bind hget fun existing => ?_
        cases existing <;> exact within_perform (hF.op _ rfl)
  · next existing _ _ _ => cases existing <;> exact within_perform (hF.op _ rfl)

theorem within_createRun (hF : AllowsCall F T) (hq : T q.runId) : (createRun ρ q).Within F := by
  refine within_tryExcept (within_createOrReject hF hq) fun e he => ?_
  split
  · exact within_throw (hF.raises _ rfl)
  · exact within_throw (hF.raises _ rfl)
  · exact within_throw he

theorem gives_createRun : (createRun ρ q).Gives (· = q.runId) := by
  refine gives_tryExcept (fun e => ?_) ?_
  · split <;> trivial
  · refine gives_bind (fun w => gives_bind (fun rs => gives_bind (fun _ => ?_) _) _) _
    exact rfl

theorem within_startRun (hN : AllowsCall F T) (hq : T q.runId)
    (hR : ∀ e, F.raises e) : (startRun ρ q).Within F := by
  have hF := hN.toAllows
  have hdispatch : ∀ r, r = q.runId → (dispatch ρ r q.exec).Within F := by
    rintro r rfl
    exact within_bind (within_fork (hF.start _ fun _ h => h ▸ hq)) fun _ =>
      within_modify fun w => hN.attach w ρ _ hq
  have hend : (createRun ρ q >>= fun r => orReturn (upsertThread q) () >>= fun _ =>
      ofExcept q.graphInput >>= fun _ => ofExcept q.runConfig >>= fun _ =>
      dispatch ρ r q.exec >>= fun _ => pure r).Within F :=
    within_bind_of_gives (within_createRun hN hq) gives_createRun fun r hr =>
      within_bind (within_orReturn (within_upsertThread hF)) fun _ =>
      within_bind (within_ofExcept fun _ _ => hR _) fun _ =>
      within_bind (within_ofExcept fun _ _ => hR _) fun _ =>
      within_bind (hdispatch r hr) fun _ => within_pure _
  refine within_bind (within_checkModel hF) fun _ => within_bind (within_checkThreadAccess hF)
    fun _ => ?_
  split_ifs
  · exact within_bind (within_perform (hF.op _ rfl)) fun _ => hend
  · exact hend

theorem within_persistCompletion (hF : Allows F T) (hr : T r) {x : ExecRequest} :
    (persistCompletion ρ r x).Within F := by
  refine within_bind within_get fun w => ?_
  split
  · exact within_pure _
  · exact within_updateRunCompletion hF hr

theorem within_syncTitle (hF : Allows F T) {t : ThreadId} : (syncTitle t).Within F := by
  refine within_bind (within_perform (hF.op _ rfl)) fun c => ?_
  split
  · split_ifs
    · exact within_perform (hF.op _ rfl)
    · exact within_pure _
  · exact within_pure _

theorem within_reply {α : Type} {p : Co α} {f : α → Reply} (hp : p.Within F) :
    (replying p f).Within F := within_bind hp fun _ => within_pure _

theorem within_prog (hN : AllowsCall F T) {l : Call} (hlab : l.isTask = false)
    (hT : ∀ r, l.ActsFor r → T r) (hR : ∀ e, F.raises e) : (prog l).Within F := by
  have hF := hN.toAllows
  cases l with
  | createOrReject ρ a => exact within_reply (within_createOrReject hN (hT _ rfl))
  | setStatus ρ r st e => exact within_reply (within_setStatus hF (hT _ rfl))
  | cancel ρ r a => exact within_reply (within_cancel hN)
  | updateRunCompletion ρ r st c e v =>
    exact within_reply (within_updateRunCompletion hF (hT _ rfl))
  | reconcile ρ e b l ev => exact within_reply (within_reconcile hN.toAllowsClaim)
  | shutdown ρ t => exact within_reply (within_shutdown hN)
  | persistInterrupted ρ r => exact within_reply (within_persistInterrupted hF)
  | cleanup ρ r d => exact within_reply (within_cleanup hN (hT _ rfl))
  | claim o r w v t => exact within_reply (within_redisClaim hN.toAllowsClaim)
  | renew o c t => exact within_reply (within_renew hF)
  | release o c => exact within_reply (within_redisRelease hF)
  | getHolder o r => exact within_reply (within_getHolder hN.toAllowsClaim)
  | startRun ρ q => exact within_reply (within_startRun hN (hT _ rfl) hR)
  | runAgent ρ r x => cases hlab
  | heartbeat ρ r o c n => exact within_reply (within_heartbeat hN n)

end Runs

section Body

variable {F : Footprint World runSig} {T : RunId → Prop} {ρ : ReplicaId} {r : RunId}
  {x : ExecRequest} {t : ThreadId}

/-- The tasks of the runs `T` may also write their locals and the log, wait for anything and
raise. -/
structure AllowsTask (F : Footprint World runSig) (T : RunId → Prop) : Prop
    extends Allows F T where
  frame : ∀ w r f, T r → F.change w { w with frames := Function.update w.frames r f }
  line : ∀ w r l, T r → F.change w (w.addLog r l)
  anyOp : ∀ op, F.op op
  anyExc : ∀ e, F.raises e

def alongside : Footprint World runSig where
  change w w' := ∃ ms n fr lg, w' = { w with managers := ms, tokens := n, frames := fr, log := lg }
  refl w := ⟨w.managers, w.tokens, w.frames, w.log, rfl⟩
  op _ := True
  start _ := True
  raises _ := True

theorem alongside_allows : AllowsTask alongside fun _ => True where
  lock w _ _ := ⟨_, w.tokens, w.frames, w.log, rfl⟩
  heap w _ _ _ := ⟨_, w.tokens, w.frames, w.log, rfl⟩
  tokens w _ := ⟨w.managers, _, w.frames, w.log, rfl⟩
  op _ _ := trivial
  start _ _ := trivial
  raises _ _ := trivial
  frame w _ _ _ := ⟨w.managers, w.tokens, _, w.log, rfl⟩
  line w _ _ _ := ⟨w.managers, w.tokens, w.frames, _, rfl⟩
  anyOp _ := trivial
  anyExc _ := trivial

theorem within_setFrame (hF : AllowsTask F T) (hr : T r) {f : Frame → Frame} :
    (setFrame r f).Within F := within_modify fun w => hF.frame w r _ hr

theorem within_logLine (hF : AllowsTask F T) (hr : T r) {l : LogLine} : (logLine r l).Within F :=
  within_modify fun w => hF.line w r l hr

theorem within_captureSnapshot (hF : AllowsTask F T) (hr : T r) :
    (captureSnapshot r x t).Within F := by
  unfold captureSnapshot
  split_ifs
  · exact within_pure _
  · refine within_tryExcept (within_bind (within_perform (hF.anyOp _)) fun c => ?_) fun e he => ?_
    · cases c with
      | none => exact within_pure _
      | some c => exact within_setFrame hF hr
    · split_ifs
      · exact within_setFrame hF hr
      · exact within_throw he

theorem within_syncModelName (hF : AllowsTask F T) (hr : T r) : (syncModelName ρ r x).Within F := by
  refine within_bind within_get fun w => ?_
  split
  · split_ifs
    · exact within_pure _
    · exact within_updateModelName hF.toAllows hr
  · exact within_pure _

theorem within_streamLoop (hF : AllowsTask F T) : ∀ (n : ℕ) (fallback : Option String),
    (streamLoop ρ r t n fallback).Within F
  | 0, _ => within_pure _
  | n + 1, fallback => by
    refine within_bind (within_perform (hF.anyOp _)) fun item => ?_
    cases item with
    | none => exact within_pure _
    | some i =>
      refine within_bind within_get fun w => ?_
      split_ifs
      · exact within_pure _
      · cases i.mode with
        | none => exact within_streamLoop hF n fallback
        | some mode =>
          exact within_bind (within_perform (hF.anyOp _)) fun _ => within_streamLoop hF n _

theorem within_restoreSnapshot (hF : AllowsTask F T) (hr : T r) {f : Frame} {s : Snapshot} :
    (restoreSnapshot r t f s).Within F := by
  unfold restoreSnapshot
  split
  · exact within_logLine hF hr
  · split
    · exact within_logLine hF hr
    · exact within_bind within_get fun w => within_bind (within_perform (hF.anyOp _)) fun id =>
        within_bind (within_ofExcept fun _ _ => hF.anyExc _) fun ws =>
        within_forEach (fun _ => within_perform (hF.anyOp _)) ws.entries

theorem within_rollback (hF : AllowsTask F T) (hr : T r) :
    (rollbackToPreRunCheckpoint x r t).Within F := by
  refine within_bind within_get fun w => ?_
  dsimp only
  split_ifs
  · exact within_logLine hF hr
  · exact within_logLine hF hr
  · split
    · exact within_bind (within_perform (hF.anyOp _)) fun _ => within_logLine hF hr
    · exact within_restoreSnapshot hF hr

theorem within_finishAborted (hF : AllowsTask F T) (hr : T r) :
    (finishAborted ρ r x t).Within F := by
  refine within_bind within_get fun w => ?_
  split_ifs
  · refine within_bind (within_setStatus hF.toAllows hr) fun _ => within_tryExcept
      (within_bind (within_rollback hF hr) fun _ => within_logLine hF hr) fun e he => ?_
    split_ifs
    · exact within_logLine hF hr
    · exact within_throw he
  · exact within_setStatus hF.toAllows hr

theorem within_finalStatus (hF : AllowsTask F T) (hr : T r) {fallback : Option String} :
    (finalStatus ρ r x t fallback).Within F := by
  refine within_bind within_get fun w => ?_
  dsimp only
  generalize (if x.ctx.eventStore then x.agent.journalFallback else none) = journal
  split_ifs
  · exact within_finishAborted hF hr
  · exact within_setStatus hF.toAllows hr
  · exact within_setStatus hF.toAllows hr

theorem within_agentBody (hF : AllowsTask F T) (hr : T r) : (agentBody ρ r x t).Within F :=
  within_bind (within_setStatus hF.toAllows hr) fun _ => within_bind (within_captureSnapshot hF hr)
    fun _ => within_bind (within_perform (hF.anyOp _)) fun _ =>
    within_bind (within_ofExcept fun _ _ => hF.anyExc _) fun _ =>
    within_bind (within_syncModelName hF hr)
    fun _ => within_bind (within_streamLoop hF x.agent.items none) fun _ => within_finalStatus hF hr

theorem within_agentHandler (hF : AllowsTask F T) (hr : T r) (e : Exc) :
    (agentHandler ρ r x t e).Within F := by
  unfold agentHandler
  split_ifs
  · exact within_bind (within_setStatus hF.toAllows hr) fun _ => within_perform (hF.anyOp _)
  · exact within_finishAborted hF hr

end Body

end DeerFlow

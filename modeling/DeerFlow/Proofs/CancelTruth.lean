import DeerFlow.Coop.Alone
import DeerFlow.Proofs.Lockstep

/-!
# What `cancel` answers

A manager that knows the run answers from its record, one that does not from the cancel intent in
the row. The answer is the one the stored status calls for exactly when these agree with it
(`CancelTruthful`).
-/

namespace DeerFlow

open Coop Coop.Coro RunStatus Op

/-- What an operation of task `i` does when nothing fails. -/
def Op.goThrough (i : ℕ) (op : Op) (w : World) : Option (World × op.Res) := op.effect i .unit w

def World.cancelReply (w : World) (i : ℕ) (ρ : ReplicaId) (r : RunId) (action : String) :
    Option Bool :=
  ((cancel ρ r action).alone (goThrough i) w).bind fun q => q.2.toOption

/-- The run is unknown to the manager and to the store, or its stored status is settled. -/
def World.uncancellable (w : World) (ρ : ReplicaId) (r : RunId) : Bool :=
  match w.row? r with
  | none => ((w.managers ρ).get? r).isNone
  | some y => y.status.settled

def SpeaksFor : Option RunRecord → Option RunRow → Prop
  | some x, some y => x.status.settled = y.status.settled
  | some x, none => x.status.settled = false
  | none, some y => (y.status = .interrupted → y.cancelRequested = true)
      ∧ (y.status.settled = true → y.cancelRequested = false)
  | none, none => True

instance (x y) : Decidable (SpeaksFor x y) := by
  unfold SpeaksFor
  split <;> infer_instance

def CancelTruthful (w : World) (ρ : ReplicaId) (r : RunId) : Prop :=
  SpeaksFor ((w.managers ρ).get? r) (w.row? r)

instance (w : World) (ρ : ReplicaId) (r : RunId) : Decidable (CancelTruthful w ρ r) :=
  inferInstanceAs (Decidable (SpeaksFor _ _))

section Alone

variable {α : Type} {i : ℕ} {w : World} {ρ : ReplicaId} {r : RunId} {action : String}

theorem ends_orReturn {p : Co α} {a : α} (hp : Ends (goThrough i) p) :
    Ends (goThrough i) (orReturn p a) := returns_tryExcept hp

theorem ends_storeCall {op : Op} (h : ∀ w, (op.goThrough i w).isSome) :
    Ends (goThrough i) (storeCall op) := returns_tryExcept (ends_perform h)

theorem returns_getManager_bind {f : RunManager → Co α} {P : α → Prop}
    (h : ∀ m, Returns (goThrough i) P (f m)) :
    Returns (goThrough i) P (getManager ρ >>= f) := fun w => h (w.managers ρ) w

theorem ends_persistSnapshotToStore (p : PutPayload) :
    Ends (goThrough i) (persistSnapshotToStore ρ r p) := by
  refine returns_getManager_bind fun m => ?_
  split_ifs
  · exact returns_pure trivial
  · exact ends_orReturn (returns_bind (ends_storeCall fun _ => rfl) fun _ => returns_pure trivial)

theorem ends_persistRecordStatus (st : RunStatus) (e : Option String) (v : ℕ) :
    Ends (goThrough i) (persistRecordStatus ρ r st e (some v)) := by
  refine returns_get_bind fun w => ?_
  split
  · exact returns_pure trivial
  · refine returns_getManager_bind fun m => ?_
    split_ifs
    · exact returns_pure trivial
    · refine ends_orReturn (returns_bind (ends_storeCall fun _ => rfl) fun updated => ?_)
      split_ifs
      · refine returns_bind (ends_perform fun _ => rfl) fun existing => ?_
        cases existing with
        | none => exact ends_persistSnapshotToStore _
        | some _ => exact returns_pure trivial
      · exact returns_bind (ends_modify _) fun _ => returns_pure trivial

theorem ends_publishCancelNotify : Ends (goThrough i) (publishCancelNotify ρ r action) := by
  refine returns_getManager_bind fun m => ?_
  split_ifs
  · exact returns_pure trivial
  · exact ends_orReturn (ends_perform fun _ => rfl)

theorem alone_withLock {p : Co α} (hl : (w.managers ρ).lock = none) :
    (withLock ρ p).alone (goThrough i) w
      = (p.alone (goThrough i) (w.lockBy ρ i)).map fun q => (q.1.unlock ρ, q.2) := by
  have ha : (awaitOp (.acquire ρ)).alone (goThrough i) w = some (w.lockBy ρ i, .ok ()) := by
    simp only [awaitOp, perform, alone, goThrough, effect, hl, if_true, Option.bind_some]
    rfl
  rw [withLock, bind_eq, alone_bind_ok ha, alone_tryFinally, Option.map_eq_bind]
  congr 1

theorem alone_cancelLocked_local {x : RunRecord} (hx : (w.managers ρ).get? r = some x) :
    ∃ w' a, (cancelLocked ρ r action).alone (goThrough i) w = some (w', .ok a)
      ∧ (x.status.settled → a = .inl false)
      ∧ (x.status.settled = false → a = .inl true ∨ ∃ v, a = .inr v) := by
  have hlegal : x.status.inflight →
      assertRunTransition x.status .interrupted = .ok () := fun h =>
    assertRunTransition_ok.2 (legal_interrupted h)
  simp only [cancelLocked, bind_eq, alone_get_bind, hx]
  by_cases h1 : x.status = .interrupted
  · exact ⟨w, .inl true, by rw [if_pos h1]; rfl, by simp [h1, settled], fun _ => .inl rfl⟩
  · rw [if_neg h1]
    cases h2 : x.status.inflight with
    | false =>
      refine ⟨w, .inl false, rfl, fun _ => rfl, fun h => ?_⟩
      cases hs : x.status <;> simp_all [inflight, settled]
    | true =>
      rw [hlegal h2]
      refine ⟨_, .inr x.rowVersion, rfl, fun h => ?_, fun _ => .inr ⟨_, rfl⟩⟩
      cases hs : x.status <;> simp_all [inflight, settled]

theorem alone_cancelLocked_remote (hx : (w.managers ρ).get? r = none)
    (hs : (w.managers ρ).hasStore = true) :
    ∃ w', (cancelLocked ρ r action).alone (goThrough i) w = some (w', .ok (.inl
      (match w.row? r with
      | none => false
      | some y => y.status.inflight || y.cancelRequested))) := by
  have hreq : ∀ {k : Bool → Co (Bool ⊕ ℕ)}, ((awaitOp (.requestCancel r action)).bind k).alone
      (goThrough i) w
        = (k (w.requestCancel r action).2).alone (goThrough i) (w.requestCancel r action).1 :=
    alone_bind_ok rfl
  simp only [cancelLocked, bind_eq, alone_get_bind, hx, hs,
    Bool.not_true, Bool.false_eq_true, if_false, hreq]
  have hmiss : (w.requestCancel r action).2 = false → (w.requestCancel r action).1 = w := by
    unfold World.requestCancel
    split
    · exact fun _ => rfl
    · split_ifs
      · exact nofun
      · exact fun _ => rfl
  cases hc : (w.requestCancel r action).2 with
  | true =>
    have hrow : (match w.row? r with
        | none => false
        | some y => y.status.inflight || y.cancelRequested) = true := by
      unfold World.requestCancel at hc
      split at hc
      · cases hc
      · rename_i y hy
        split_ifs at hc with h
        simp_all
    obtain ⟨w', u, h, -⟩ := @ends_publishCancelNotify i ρ r action (w.requestCancel r action).1
    exact ⟨w', by rw [hrow, if_pos rfl, alone_bind_ok h]; rfl⟩
  | false =>
    refine ⟨w, ?_⟩
    rw [hmiss hc]
    unfold World.requestCancel at hc
    rw [if_neg (by simp)]
    have hget : ∀ {k : Option (Bool × Option String) → Co (Bool ⊕ ℕ)},
        ((awaitOp (.getCancelIntent r)).bind k).alone (goThrough i) w
          = (k ((w.row? r).map fun x => (x.cancelRequested, x.cancelAction))).alone
              (goThrough i) w := alone_bind_ok rfl
    rw [hget]
    split at hc
    · rename_i hy
      rw [hy]
      rfl
    · rename_i y hy
      rw [hy]
      split_ifs at hc with h
      cases hq : y.cancelRequested <;> simp_all

theorem cancelReply_local {x : RunRecord} (hl : (w.managers ρ).lock = none)
    (hx : (w.managers ρ).get? r = some x) :
    w.cancelReply i ρ r action = some (!x.status.settled) := by
  have hx' : ((w.lockBy ρ i).managers ρ).get? r = some x := by
    simpa [World.lockBy, RunManager.get?] using hx
  obtain ⟨w', a, ha, hset, hopen⟩ := @alone_cancelLocked_local i _ ρ r action _ hx'
  have hsec : (withLock ρ (cancelLocked ρ r action)).alone (goThrough i) w
      = some (w'.unlock ρ, .ok a) := by
    rw [alone_withLock hl, ha]
    rfl
  rw [World.cancelReply, cancel, bind_eq, alone_bind_ok hsec]
  cases hs : x.status.settled with
  | true =>
    rw [hset hs]
    rfl
  | false =>
    rcases hopen hs with rfl | ⟨v, rfl⟩
    · rfl
    · have htail : ∀ {p : Co Bool} {w : World}, Returns (goThrough i) (· = true) p →
          (p.alone (goThrough i) w).bind (fun q => q.2.toOption) = some true := by
        intro p w hp
        obtain ⟨w', b, h, rfl⟩ := hp w
        rw [h]
        rfl
      refine htail (returns_bind (ends_persistRecordStatus _ _ v) fun _ =>
        returns_getManager_bind fun m => ?_)
      have hnotify : Returns (goThrough i) (· = true)
          (publishCancelNotify ρ r action >>= fun _ => (pure true : Co Bool)) :=
        returns_bind ends_publishCancelNotify fun _ => returns_pure rfl
      split_ifs
      · exact returns_bind (ends_orReturn (returns_bind (ends_perform fun _ => rfl)
          fun _ => returns_pure trivial)) fun _ => hnotify
      · exact hnotify

theorem cancelReply_remote (hl : (w.managers ρ).lock = none)
    (hs : (w.managers ρ).hasStore) (hx : (w.managers ρ).get? r = none) :
    w.cancelReply i ρ r action = some (match w.row? r with
      | none => false
      | some y => y.status.inflight || y.cancelRequested) := by
  have hx' : ((w.lockBy ρ i).managers ρ).get? r = none := by
    simpa [World.lockBy, RunManager.get?] using hx
  obtain ⟨w', ha⟩ := @alone_cancelLocked_remote i _ ρ r action hx'
    (by simpa [World.lockBy] using hs)
  have hsec : (withLock ρ (cancelLocked ρ r action)).alone (goThrough i) w
      = some (w'.unlock ρ, .ok (.inl (match w.row? r with
      | none => false
      | some y => y.status.inflight || y.cancelRequested))) := by
    rw [alone_withLock hl, ha]
    rfl
  rw [World.cancelReply, cancel, bind_eq, alone_bind_ok hsec]
  rfl

end Alone

/-- The answer of `cancel` is the one the stored status calls for exactly when the record, or the
cancel intent, agrees with that status. -/
theorem cancel_truthful_iff {p : RunPool} {ρ : ReplicaId} {r : RunId} {action : String}
    (hl : (p.shared.managers ρ).lock = none) (hs : (p.shared.managers ρ).hasStore = true) :
    ∃ b, p.shared.cancelReply p.tasks.length ρ r action = some b
      ∧ ((b = false ↔ p.shared.uncancellable ρ r = true) ↔ CancelTruthful p.shared ρ r) := by
  cases hx : (p.shared.managers ρ).get? r with
  | some x =>
    refine ⟨_, cancelReply_local hl hx, ?_⟩
    cases hy : p.shared.row? r with
    | none => cases h : x.status.settled <;> simp [World.uncancellable, CancelTruthful, SpeaksFor, hx, hy, h]
    | some y =>
      cases h : x.status.settled <;> cases h' : y.status.settled <;>
        simp [World.uncancellable, CancelTruthful, SpeaksFor, hx, hy, h, h']
  | none =>
    refine ⟨_, cancelReply_remote hl hs hx, ?_⟩
    cases hy : p.shared.row? r with
    | none => simp [World.uncancellable, CancelTruthful, SpeaksFor, hx, hy]
    | some y =>
      cases h : y.status <;> cases h' : y.cancelRequested <;>
        simp [World.uncancellable, CancelTruthful, SpeaksFor, hx, hy, h, h', settled,
          inflight]

theorem cancel_truthful_at_created : CancelTruthful createdWorld 1 "a"
    ∧ ∃ b, createdWorld.pool.shared.cancelReply 0 1 "a" "interrupt" = some b
      ∧ ((b = false ↔ createdWorld.uncancellable 1 "a" = true) ↔ CancelTruthful createdWorld 1 "a") :=
  ⟨by decide, cancel_truthful_iff (p := createdWorld.pool) (by decide) (by decide)⟩

def Smooth : RunAction → Prop
  | .perform _ o => o.isOk = true
  | .resume _ c => c = false
  | _ => True

instance (a) : Decidable (Smooth a) := by
  rcases a with ⟨⟩ <;> dsimp only [Smooth] <;> infer_instance

def cancelThenCleanup : List RunAction :=
  [.call (.createOrReject 0 { runId := "a", threadId := "t" }),
    .call (.cancel 0 "a" "interrupt"), .call (.cleanup 0 "a" 0),
    .start 0, .perform 0 .ok, .resume 0 false, .perform 0 .ok, .resume 0 false,
    .start 1, .perform 1 .ok, .resume 1 false, .perform 1 .ok, .resume 1 false,
    .perform 1 .ok, .resume 1 false,
    .start 2, .perform 2 .ok, .resume 2 false]

/-- A `cancel` has returned `True` and the run is stored as interrupted; a second `cancel` returns
`False`, on another replica and on the same one once the record is dropped. -/
theorem second_cancel_returns_false : ∃ p, Runs (fun _ => Smooth) ({} : World).pool p
      ∧ (p.tasks[1]?.any fun t => t.state matches .done (.ok (.bool true)))
      ∧ p.shared.rowStatus "a" = some .interrupted
      ∧ p.shared.cancelReply p.tasks.length 1 "a" "interrupt" = some false
      ∧ p.shared.cancelReply p.tasks.length 0 "a" "interrupt" = some false :=
  ⟨({} : World).pool.final runSystem cancelThenCleanup,
    Pool.steps_final (by decide) (by decide), by decide, by decide, by decide, by decide⟩

end DeerFlow

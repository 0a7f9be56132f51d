import DeerFlow.Coop.Quiet
import DeerFlow.Proofs.Frame

/-!
# Quiet stretches of the manager

What the persistence helpers of the manager keep, under any contract: an assertion that each of
their operations keeps.
-/

namespace DeerFlow

open Coop Coop.Contract

variable {C : Contract runSystem} {i : ℕ} {l : Call} {K : Sect World runSig → World → Prop}
  {α : Type} {ρ : ReplicaId} {r : RunId}

section Rules

variable {Q : Except Exc α → Sect World runSig → World → Prop} {b : Sect World runSig} {w : World}

theorem wp_orReturn {p : Co α} {a : α}
    (h : C.wp i l p (fun x b w => ∀ y, (x = y ∨ (∃ e, x = .error e ∧ e.isException)
      ∧ y = .ok a) → Q y b w) b w) : C.wp i l (orReturn p a) Q b w := by
  rw [orReturn, wp_tryExcept]
  refine wp_mono (fun x b w h => ?_) _ _ _ h
  rcases x with e | y
  · by_cases he : e.isException
    · simp only [he, if_true]
      exact h _ (.inr ⟨⟨e, rfl, he⟩, rfl⟩)
    · simp only [he]
      exact h _ (.inl rfl)
  · exact h _ (.inl rfl)

theorem wp_storeCall {op : Op} {Q : Except Exc op.Res → Sect World runSig → World → Prop}
    (h : C.wp i l (awaitOp op)
      (fun x b w => Q x b w ∧ ∀ e, x = .error e → e.isException = false) b w) :
    C.wp i l (storeCall op) Q b w := by
  change C.wp i l (callStoreWithRetry op (4 + 1)) Q b w
  rw [callStoreWithRetry, wp_tryExcept]
  refine wp_mono (fun x b w h => ?_) _ _ _ h
  rcases x with e | y
  · have he : e.isException = false := h.2 e rfl
    simp only [he, Bool.false_and]
    exact h.1
  · exact h.1

theorem wp_reply {p : Co α} {f : α → Reply} (hp : C.wp i l p (fun _ => K) b w)
    (hK : ∀ x b w, K b w → C.Finish i l x b w) :
    C.wp i l (replying p f) (C.Finish i l) b w := by
  rw [replying, wp_bind]
  refine wp_mono (fun x b w h => ?_) _ _ _ hp
  rcases x with e | a <;> exact hK _ b w h

end Rules

section Guards

variable {N : Exc → Sect World runSig → World → Prop}

/-- `K` where an exception is raised, `N` where something else is. -/
def Soft (K : Sect World runSig → World → Prop) (N : Exc → Sect World runSig → World → Prop)
    (e : Exc) (b : Sect World runSig) (w : World) : Prop :=
  if e.isException then K b w else N e b w

theorem soft_self (e : Exc) : Soft K (fun _ => K) e = K := by
  funext b w
  exact ite_self _

theorem guards_orReturn {p : Co α} {a : α} (hp : C.Guards i l K (Soft K N) p) :
    C.Guards i l K (fun e b w => e.isException = false ∧ N e b w) (orReturn p a) := by
  refine guards_tryExcept hp fun e b w hN => ?_
  unfold Soft at hN
  split_ifs at hN ⊢ with he
  · exact hN
  · exact ⟨by simpa using he, hN⟩

theorem guards_storeCall {op : Op} (ho : C.Guards i l K (Soft K N) (awaitOp op))
    (hz : C.Guards i l K (Soft K N) (awaitOp .sleep)) :
    C.Guards i l K (Soft K N) (storeCall op) := by
  have hretry : ∀ n, C.Guards i l K (Soft K N) (callStoreWithRetry op n) := by
    intro n
    induction n with
    | zero => exact ho
    | succ n ih =>
      refine guards_tryExcept ho fun e b w hN => ?_
      split_ifs with he
      · have hk : K b w := by
          simp only [Bool.and_eq_true] at he
          simpa [Soft, he.1.1] using hN
        exact guards_bind hz (fun _ => ih) b w hk
      · exact hN
  exact hretry maxAttempts

theorem guards_getManager_bind {f : RunManager → Co α} (h : ∀ m, C.Guards i l K N (f m)) :
    C.Guards i l K N (getManager ρ >>= f) := fun b w hk => h (w.managers ρ) b w hk

theorem soft_of_quiet {p : Co α}
    (h : C.Guards i l K (fun e b w => e.isException = false ∧ N e b w) p) :
    C.Guards i l K (Soft K N) p :=
  h.mono fun e b w h => by simpa [Soft, h.1] using h.2

theorem guards_persistSnapshotToStore {p : PutPayload}
    (hz : C.Guards i l K (Soft K N) (awaitOp .sleep))
    (hp : C.Guards i l K (Soft K N) (awaitOp (.put r p))) :
    C.Guards i l K (fun e b w => e.isException = false ∧ N e b w)
      (persistSnapshotToStore ρ r p) := by
  refine guards_getManager_bind fun m => ?_
  split_ifs
  · exact guards_pure _
  · exact guards_orReturn (guards_bind (guards_storeCall hp hz) fun _ => guards_pure _)

theorem guards_persistStatus {pl : PutPayload} {st : RunStatus} {e : Option String}
    {v : Option ℕ} {mirror : ℕ → Co Unit} (hz : C.Guards i l K (Soft K N) (awaitOp .sleep))
    (hu : C.Guards i l K (Soft K N) (awaitOp (.updateStatus r st e v)))
    (hg : C.Guards i l K (Soft K N) (awaitOp (.get r)))
    (hp : C.Guards i l K (Soft K N) (awaitOp (.put r pl)))
    (hm : ∀ v, C.Guards i l K (Soft K N) (mirror v)) :
    C.Guards i l K (fun e b w => e.isException = false ∧ N e b w)
      (persistStatus ρ r pl st e v mirror) := by
  have hsnap : C.Guards i l K (Soft K N) (persistSnapshotToStore ρ r pl) :=
    soft_of_quiet (guards_persistSnapshotToStore hz hp)
  refine guards_getManager_bind fun m => ?_
  split_ifs
  · exact guards_pure _
  · refine guards_orReturn (guards_bind (guards_storeCall hu hz) fun updated => ?_)
    split_ifs
    · cases v with
      | none => exact hsnap
      | some v =>
        refine guards_bind hg fun existing => ?_
        cases existing with
        | none => exact hsnap
        | some _ => exact guards_pure _
    · cases v with
      | none => exact guards_pure _
      | some v => exact guards_bind (hm (v + 1)) fun _ => guards_pure _

theorem guards_persistRecordStatus {st : RunStatus} {e : Option String} {v : Option ℕ}
    (hz : C.Guards i l K (Soft K N) (awaitOp .sleep))
    (hu : C.Guards i l K (Soft K N) (awaitOp (.updateStatus r st e v)))
    (hg : C.Guards i l K (Soft K N) (awaitOp (.get r)))
    (hp : ∀ p, C.Guards i l K (Soft K N) (awaitOp (.put r p)))
    (hm : ∀ v, C.Guards i l K (Soft K N) (mirrorRowVersion ρ r v)) :
    C.Guards i l K (fun e b w => e.isException = false ∧ N e b w)
      (persistRecordStatus ρ r st e v) := by
  refine guards_get_bind fun b w hk => ?_
  split
  · exact hk
  · exact guards_persistStatus hz hu hg (hp _) hm b w hk

end Guards

section Keeps

variable {p : Co α}

theorem soft_of_keeps (h : C.Keeps i l K p) : C.Guards i l K (Soft K fun _ => K) p :=
  h.guards.mono fun e b w h => by rwa [soft_self]

theorem keeps_of_soft (h : C.Guards i l K (Soft K fun _ => K) p) : C.Keeps i l K p := by
  have hk : C.Guards i l K (fun _ => K) p := h.mono fun e b w h => by rwa [soft_self] at h
  exact hk.keeps

theorem keeps_of_quiet
    (h : C.Guards i l K (fun e b w => e.isException = false ∧ K b w) p) : C.Keeps i l K p :=
  keeps_of_soft (soft_of_quiet h)

theorem soft_of_safe {op : Op} (h : C.Safe i l K op) :
    C.Guards i l K (Soft K fun _ => K) (awaitOp op) := soft_of_keeps (keeps_perform h)

theorem keeps_orReturn {a : α} (hp : C.Keeps i l K p) :
    C.Keeps i l K (orReturn p a) := keeps_of_quiet (guards_orReturn (soft_of_keeps hp))

theorem keeps_storeCall {op : Op} (ho : C.Safe i l K op) (hz : C.Safe i l K .sleep) :
    C.Keeps i l K (storeCall op) := keeps_of_soft (guards_storeCall (soft_of_safe ho) (soft_of_safe hz))

theorem keeps_getManager_bind {f : RunManager → Co α} (h : ∀ m, C.Keeps i l K (f m)) :
    C.Keeps i l K (getManager ρ >>= f) := fun b s hk => h (s.managers ρ) b s hk

theorem keeps_persistNewRunToStore {x : RunRecord} (hz : C.Safe i l K .sleep)
    (hp : C.Safe i l K (.put x.runId (x.storePutPayload none))) :
    C.Keeps i l K (persistNewRunToStore ρ x) := by
  refine keeps_getManager_bind fun m => ?_
  split_ifs
  · exact keeps_pure _
  · exact keeps_storeCall hp hz

theorem keeps_persistRecordStatus {st : RunStatus} {e : Option String} {v : Option ℕ}
    (hz : C.Safe i l K .sleep) (hu : C.Safe i l K (.updateStatus r st e v))
    (hg : C.Safe i l K (.get r)) (hp : ∀ p, C.Safe i l K (.put r p))
    (hm : ∀ v, C.Keeps i l K (mirrorRowVersion ρ r v)) :
    C.Keeps i l K (persistRecordStatus ρ r st e v) :=
  keeps_of_quiet (guards_persistRecordStatus (soft_of_safe hz) (soft_of_safe hu)
    (soft_of_safe hg) (fun p => soft_of_safe (hp p)) fun v => soft_of_keeps (hm v))

theorem keeps_publishCancelNotify {action : String} (hn : C.Safe i l K (.notify r action)) :
    C.Keeps i l K (publishCancelNotify ρ r action) := by
  refine keeps_getManager_bind fun m => ?_
  split_ifs
  · exact keeps_pure _
  · exact keeps_orReturn (keeps_perform hn)

theorem keeps_ofExcept (x : Except Exc α) : C.Keeps i l K (ofExcept x) := by
  cases x
  · exact keeps_throw _
  · exact keeps_pure _

end Keeps

end DeerFlow

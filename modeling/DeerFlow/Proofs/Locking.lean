import DeerFlow.Proofs.Frame

/-!
# Sections under the manager's lock

The rule for `async with self._lock`, under any contract: `A` is what the task knows while it waits
for the lock, `I` what it knows while it holds it. A task cancelled as it waits is back in `A`.
-/

namespace DeerFlow

open Coop Coop.Contract

/-- The lock of a replica goes to task `i`. -/
def World.lockBy (w : World) (ρ : ReplicaId) (i : ℕ) : World :=
  w.setManager ρ { w.managers ρ with lock := some i }

section

variable {C : Contract runSystem} {i : ℕ} {l : Call} {ρ : ReplicaId} {α : Type}

theorem exec_acquire {o : Outcome} {w w' : World} {x : Except Exc (Op.acquire ρ).Res}
    (hlab : l.isTask = false) (h : execOp i l (.acquire ρ) o w = some (w', x)) :
    (x = .ok () ∧ (w.managers ρ).lock = none ∧ w' = w.lockBy ρ i)
      ∨ (x = .error .cancelled ∧ w' = w) := by
  rcases execOp_cases h with ⟨a, y, -, h, rfl⟩ | ⟨e, ap, -, -, hc, -, -⟩ | ⟨-, -, rfl, rfl⟩
  · cases a <;> simp only [Op.effect, reduceCtorEq] at h
    split_ifs at h with hl
    cases h
    exact .inl ⟨rfl, hl, rfl⟩
  · simp [Op.canRaise] at hc
  · exact .inr ⟨rfl, Call.clearCancel_of_not_task hlab⟩

variable {b : Sect World runSig} {s : World} (A I : World → Prop) (hlab : l.isTask = false)
  (hy : C.Yields i l b s (some (.acquire ρ))) (hh : C.hold i l (.acquire ρ) s) (hA : A s)
  (sA : ∀ s s', C.rely i s s' → C.inv s' → A s → A s')
  (take : ∀ s, C.inv s → A s → C.hold i l (.acquire ρ) s → (s.managers ρ).lock = none →
    C.inv (s.lockBy ρ i) ∧ (∀ j, j ≠ i → C.rely j s (s.lockBy ρ i))
      ∧ C.held i l (.acquire ρ) (.ok ()) (s.lockBy ρ i) ∧ I (s.lockBy ρ i))
  (hk : ∀ s, C.held i l (.acquire ρ) (.error .cancelled) s)
  (sI : ∀ s s', C.rely i s s' → C.inv s' → I s → I s')

include hlab hy hh hA sA take hk sI

theorem wp_acquire {Q : Except Exc Unit → Sect World runSig → World → Prop}
    (hok : ∀ s, C.inv s → I s → C.held i l (.acquire ρ) (.ok ()) s → Q (.ok ()) ⟨s, []⟩ s)
    (hno : ∀ s, C.inv s → A s → Q (.error .cancelled) ⟨s, []⟩ s)
    (hback : ∀ s, C.inv s → I s → Q (.error .cancelled) ⟨s, []⟩ (s.unlock ρ)) :
    C.wp i l (awaitOp (.acquire ρ)) Q b s := by
  refine wp_perform A (fun r s => (r = .ok () ∧ I s) ∨ (r = .error .cancelled ∧ A s)) hy hh hA sA
    ?_ ?_ ?_
  · intro s1 o s2 r hi ha hho _ hx
    rcases exec_acquire hlab hx with ⟨rfl, hl, rfl⟩ | ⟨rfl, rfl⟩
    · obtain ⟨h1, h2, h3, h4⟩ := take s1 hi ha hho hl
      exact ⟨h1, h2, h3, .inl ⟨rfl, h4⟩⟩
    · exact ⟨hi, fun j _ => C.refl j _, hk _, .inr ⟨rfl, ha⟩⟩
  · rintro r s s' hr hi (⟨rfl, h⟩ | ⟨rfl, h⟩)
    · exact .inl ⟨rfl, sI s s' hr hi h⟩
    · exact .inr ⟨rfl, sA s s' hr hi h⟩
  · rintro r s3 c s4 hi hB hheld _ hd
    rcases hB with ⟨rfl, h⟩ | ⟨rfl, h⟩
    · cases c with
      | false =>
        rw [Call.interrupt_of_not_task hlab hd]
        exact hok s3 hi h hheld
      | true =>
        obtain ⟨v, hv, rfl⟩ := Option.map_eq_some_iff.1 hd
        rw [Call.interrupt_of_not_task hlab hv]
        exact hback s3 hi h
    · rw [Call.interrupt_of_not_task hlab hd]
      cases c <;> exact hno s3 hi h

theorem wp_withLock {p : Co α} {Q : Except Exc α → Sect World runSig → World → Prop}
    (hok : ∀ s, C.inv s → I s → C.held i l (.acquire ρ) (.ok ()) s →
      C.wp i l p (fun r b s => Q r b (s.unlock ρ)) ⟨s, []⟩ s)
    (hno : ∀ s, C.inv s → A s → Q (.error .cancelled) ⟨s, []⟩ s)
    (hback : ∀ s, C.inv s → I s → Q (.error .cancelled) ⟨s, []⟩ (s.unlock ρ)) :
    C.wp i l (withLock ρ p) Q b s := by
  unfold withLock
  rw [Coro.bind_eq, wp_bind]
  refine wp_acquire A I hlab hy hh hA sA take hk sI (fun s hi h hheld => ?_) hno hback
  rw [andThen_ok, wp_tryFinally]
  refine wp_mono ?_ _ _ _ (hok s hi h hheld)
  intro r b s h
  exact h

end

end DeerFlow

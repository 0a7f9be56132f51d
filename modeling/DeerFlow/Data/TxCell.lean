import Mathlib.Data.Option.Basic
import Mathlib.Tactic.SplitIfs

/-!
# Rows under READ COMMITTED

A row has a committed value and the value of a transaction that wrote it and has not ended. That
transaction holds the row: the writes of others wait, and their statements read what is committed.
-/

structure TxCell (τ α : Type) where
  committed : α
  pending : Option (τ × α) := none

namespace TxCell

variable {τ α : Type} [DecidableEq τ] (c : TxCell τ α) (t : τ)

/-- What a statement of `t` reads. -/
def visible : α :=
  match c.pending with
  | some (u, a) => if u = t then a else c.committed
  | none => c.committed

/-- A write of `t` has to wait. -/
def HeldByOther : Prop := ∃ u a, c.pending = some (u, a) ∧ u ≠ t

instance decidableHeldByOther : Decidable (c.HeldByOther t) :=
  match h : c.pending with
  | none => isFalse fun ⟨_, _, h', _⟩ => by rw [h] at h'; cases h'
  | some (u, a) => decidable_of_iff (u ≠ t)
      ⟨fun hu => ⟨u, a, h, hu⟩, fun ⟨_, _, h', hu⟩ => by rw [h] at h'; cases h'; exact hu⟩

/-- `t` writes the row; `none` where it has to wait. -/
def write (a : α) : Option (TxCell τ α) :=
  if c.HeldByOther t then none else some { c with pending := some (t, a) }

/-- The end of `t` for this row. -/
def commit : TxCell τ α :=
  match c.pending with
  | some (u, a) => if u = t then ⟨a, none⟩ else c
  | none => c

def rollback : TxCell τ α :=
  match c.pending with
  | some (u, _) => if u = t then { c with pending := none } else c
  | none => c

variable {c t} {a : α} {c' : TxCell τ α}

theorem write_eq_some (h : c.write t a = some c') :
    ¬ c.HeldByOther t ∧ c' = { c with pending := some (t, a) } := by
  unfold write at h
  split_ifs at h with hheld
  exact ⟨hheld, (Option.some.inj h).symm⟩

theorem visible_of_pending (h : c.pending = some (t, a)) : c.visible t = a := by
  simp [visible, h]

theorem visible_eq_committed (h : ∀ b, c.pending ≠ some (t, b)) : c.visible t = c.committed := by
  unfold visible
  cases hp : c.pending with
  | none => rfl
  | some p =>
    obtain ⟨u, b⟩ := p
    have hu : u ≠ t := by
      rintro rfl
      exact h b hp
    simp [hu]

theorem commit_of_pending (h : c.pending = some (t, a)) : c.commit t = ⟨a, none⟩ := by
  simp [commit, h]

theorem commit_eq_self (h : ∀ b, c.pending ≠ some (t, b)) : c.commit t = c := by
  unfold commit
  cases hp : c.pending with
  | none => rfl
  | some p =>
    obtain ⟨u, b⟩ := p
    have hu : u ≠ t := by
      rintro rfl
      exact h b hp
    simp [hu]

@[simp] theorem rollback_committed : (c.rollback t).committed = c.committed := by
  unfold rollback
  split
  · split <;> rfl
  · rfl

theorem rollback_pending {u : τ} :
    (c.rollback t).pending = some (u, a) ↔ c.pending = some (u, a) ∧ u ≠ t := by
  unfold rollback
  split
  · next v b hp =>
    split_ifs with hv
    · subst hv
      simp only [hp, Option.some.injEq, Prod.mk.injEq, false_iff]
      rintro ⟨⟨rfl, -⟩, hne⟩
      exact hne rfl
    · rw [hp]
      simp only [Option.some.injEq, Prod.mk.injEq]
      constructor
      · rintro ⟨rfl, rfl⟩
        exact ⟨⟨rfl, rfl⟩, hv⟩
      · exact And.left
  · next hp => simp [hp]

theorem write_pending_other {u : τ} {b : α} (h : c.write t a = some c') (hu : u ≠ t) :
    c'.pending = some (u, b) ↔ c.pending = some (u, b) := by
  obtain ⟨hheld, rfl⟩ := write_eq_some h
  refine iff_of_false (fun hp => ?_) fun hp => hheld ⟨u, b, hp, hu⟩
  cases hp
  exact hu rfl

theorem write_committed (h : c.write t a = some c') : c'.committed = c.committed := by
  obtain ⟨-, rfl⟩ := write_eq_some h
  rfl

end TxCell

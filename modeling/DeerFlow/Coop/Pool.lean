import DeerFlow.Coop.Coro
import Mathlib.Data.Nat.Notation
import Mathlib.Logic.Relation

/-!
# Pools of coroutines

A pool is the shared state with the tasks of the loop. One action performs a pending operation, or
resumes a task whose operation was performed; other tasks may run in between. `Steps` is a run in
which each action meets a condition on the pool it is taken in.
-/

namespace Coop

open List Option

variable {σ : Type} {S : Sig} {ρ : Type}

/-- The programs of the tasks and the world around them: `exec` performs an operation, `deliver`
resumes a task with its result (`false`) or a cancellation (`true`) and `env` is anything else. -/
structure System (σ : Type) (S : Sig) (ρ : Type) where
  Out : Type
  Env : Type
  prog : S.Label → Coro σ S ρ
  exec : ℕ → S.Label → (op : S.Op) → Out → σ → Option (σ × Except S.Exc (S.Res op))
  deliver : S.Label → (op : S.Op) → Except S.Exc (S.Res op) → Bool → σ → Option σ
  env : Env → σ → Option σ

inductive TaskState (σ : Type) (S : Sig) (ρ : Type) where
  | fresh
  | pending (op : S.Op) (k : Except S.Exc (S.Res op) → Coro σ S ρ)
  | ready (op : S.Op) (k : Except S.Exc (S.Res op) → Coro σ S ρ) (r : Except S.Exc (S.Res op))
  | done (r : Except S.Exc ρ)

def TaskState.op? : TaskState σ S ρ → Option S.Op
  | pending op _ => some op
  | _ => none

def TaskState.ready? : TaskState σ S ρ → Option S.Op
  | ready op _ _ => some op
  | _ => none

def TaskState.isDone : TaskState σ S ρ → Bool
  | done _ => true
  | _ => false

structure Task (σ : Type) (S : Sig) (ρ : Type) where
  label : S.Label
  state : TaskState σ S ρ

structure Pool (σ : Type) (S : Sig) (ρ : Type) where
  shared : σ
  tasks : List (Task σ S ρ)

namespace Coro

/-- Run a coroutine up to its next `await` or its end: the state, the tasks started and where it
stands. -/
def settle : Coro σ S ρ → σ → List S.Label → σ × List S.Label × TaskState σ S ρ
  | ret r, s, ls => (s, ls, .done r)
  | sync f k, s, ls => (k s).settle (f s) ls
  | spawn l k, s, ls => k.settle s (ls ++ [l])
  | await op k, s, ls => (s, ls, .pending op k)

end Coro

inductive Action (Y : System σ S ρ) where
  | call (l : S.Label)
  | start (i : ℕ)
  | perform (i : ℕ) (o : Y.Out)
  | resume (i : ℕ) (c : Bool)
  | env (e : Y.Env)

namespace Action

variable {Y : System σ S ρ}

def actor : Action Y → Option ℕ
  | call _ => none
  | start i | perform i _ | resume i _ => some i
  | env _ => none

end Action

namespace Pool

/-- Task `i` has run a section: it stands at `st` and has started `ls`. -/
def put (p : Pool σ S ρ) (i : ℕ) (l : S.Label) (q : σ × List S.Label × TaskState σ S ρ) :
    Pool σ S ρ :=
  ⟨q.1, p.tasks.set i ⟨l, q.2.2⟩ ++ q.2.1.map fun l' => ⟨l', .fresh⟩⟩

variable (Y : System σ S ρ)

def step (p : Pool σ S ρ) : Action Y → Option (Pool σ S ρ)
  | .call l => some ⟨p.shared, p.tasks ++ [⟨l, .fresh⟩]⟩
  | .start i =>
    match p.tasks[i]? with
    | some ⟨l, .fresh⟩ => some (p.put i l ((Y.prog l).settle p.shared []))
    | _ => none
  | .perform i o =>
    match p.tasks[i]? with
    | some ⟨l, .pending op k⟩ =>
      (Y.exec i l op o p.shared).map fun q => p.put i l (q.1, [], .ready op k q.2)
    | _ => none
  | .resume i c =>
    match p.tasks[i]? with
    | some ⟨l, .ready op k r⟩ =>
      (Y.deliver l op r c p.shared).map fun s =>
        p.put i l ((k (if c then .error S.cancelled else r)).settle s [])
    | _ => none
  | .env e => (Y.env e p.shared).map fun s => ⟨s, p.tasks⟩

def run : Pool σ S ρ → List (Action Y) → Option (Pool σ S ρ)
  | p, [] => some p
  | p, a :: as => (p.step Y a).bind fun p' => p'.run as

/-- The pool a run by a list of actions ends in, if each of them can be taken. -/
def final (p : Pool σ S ρ) (as : List (Action Y)) : Pool σ S ρ := (p.run Y as).getD p

/-- Every action of a list meets `cond` where it is taken. -/
def Meets (cond : Pool σ S ρ → Action Y → Prop) : Pool σ S ρ → List (Action Y) → Prop
  | _, [] => True
  | p, a :: as => cond p a ∧ ∀ p', p.step Y a = some p' → Meets cond p' as

instance decidableMeets (cond : Pool σ S ρ → Action Y → Prop) [∀ p a, Decidable (cond p a)] :
    ∀ (p : Pool σ S ρ) (as : List (Action Y)), Decidable (p.Meets Y cond as)
  | _, [] => .isTrue trivial
  | p, a :: as =>
    match hs : p.step Y a with
    | none => decidable_of_iff (cond p a) ⟨fun h => ⟨h, fun p' hp => by simp [hs] at hp⟩, And.left⟩
    | some q =>
      have := decidableMeets cond q as
      decidable_of_iff (cond p a ∧ q.Meets Y cond as)
        ⟨fun h => ⟨h.1, fun p' hp => (by rw [hs] at hp; cases hp; exact h.2)⟩,
          fun h => ⟨h.1, h.2 q hs⟩⟩

/-- `p'` is reached from `p` by a run whose actions all meet `cond` where they are taken. -/
def Steps (cond : Pool σ S ρ → Action Y → Prop) : Pool σ S ρ → Pool σ S ρ → Prop :=
  Relation.ReflTransGen fun p p' => ∃ a, cond p a ∧ p.step Y a = some p'

variable {Y} {cond : Pool σ S ρ → Action Y → Prop}

theorem Steps.invariant {P : Pool σ S ρ → Prop} {p p' : Pool σ S ρ} (h : Steps Y cond p p')
    (h0 : P p) (hs : ∀ q a q', P q → cond q a → q.step Y a = some q' → P q') : P p' := by
  induction h with
  | refl => exact h0
  | tail _ hstep ih =>
    obtain ⟨a, hc, ha⟩ := hstep
    exact hs _ a _ ih hc ha

theorem steps_of_run : ∀ {as : List (Action Y)} {p p' : Pool σ S ρ}, p.Meets Y cond as →
    p.run Y as = some p' → Steps Y cond p p'
  | [], p, p', _, h => by
    cases h
    exact .refl
  | a :: as, p, p', hm, h => by
    obtain ⟨q, hq, h⟩ := bind_eq_some_iff.1 h
    exact (Relation.ReflTransGen.single ⟨a, hm.1, hq⟩).trans (steps_of_run (hm.2 q hq) h)

variable {p : Pool σ S ρ}

theorem steps_final {as : List (Action Y)} (hm : p.Meets Y cond as)
    (h : (p.run Y as).isSome) : Steps Y cond p (p.final Y as) := by
  obtain ⟨q, hq⟩ := isSome_iff_exists.1 h
  rw [final, hq]
  exact steps_of_run hm hq

theorem step_final {a : Action Y} (h : (p.step Y a).isSome) :
    p.step Y a = some (p.final Y [a]) := by
  obtain ⟨q, hq⟩ := isSome_iff_exists.1 h
  simp [final, run, hq]

theorem put_cases {i j : ℕ} {l : S.Label}
    {q : σ × List S.Label × TaskState σ S ρ} {t : Task σ S ρ}
    (h : (p.put i l q).tasks[j]? = some t) :
    (j ≠ i ∧ p.tasks[j]? = some t) ∨ (j = i ∧ i < p.tasks.length ∧ t = ⟨l, q.2.2⟩)
      ∨ (p.tasks.length ≤ j ∧ ∃ l' ∈ q.2.1, t = ⟨l', .fresh⟩) := by
  simp only [put, getElem?_append, length_set, getElem?_set, getElem?_map] at h
  by_cases h1 : j < p.tasks.length
  · rw [if_pos h1] at h
    by_cases h2 : i = j
    · rw [if_pos h2, if_pos (h2 ▸ h1)] at h
      exact .inr (.inl ⟨h2.symm, h2 ▸ h1, (some.inj h).symm⟩)
    · rw [if_neg h2] at h
      exact .inl ⟨fun h => h2 h.symm, h⟩
  · rw [if_neg h1] at h
    obtain ⟨l', hl, rfl⟩ := map_eq_some_iff.1 h
    exact .inr (.inr ⟨Nat.not_lt.1 h1, l', mem_of_getElem? hl, rfl⟩)

theorem put_label {i j : ℕ} {q : σ × List S.Label × TaskState σ S ρ}
    {t u : Task σ S ρ} (hi : p.tasks[i]? = some u) (ht : p.tasks[j]? = some t) :
    ∃ t', (p.put i u.label q).tasks[j]? = some t' ∧ t'.label = t.label := by
  have hj : j < p.tasks.length := (List.getElem?_eq_some_iff.1 ht).1
  simp only [put, getElem?_append, length_set, hj, if_true, getElem?_set]
  by_cases h : i = j
  · subst h
    rw [hi] at ht
    cases ht
    rw [if_pos rfl, if_pos hj]
    exact ⟨_, rfl, rfl⟩
  · exact ⟨t, by rw [if_neg h]; exact ht, rfl⟩

theorem label_kept {p p' : Pool σ S ρ} {a : Action Y} (hs : p.step Y a = some p') {j : ℕ}
    {t : Task σ S ρ} (ht : p.tasks[j]? = some t) :
    ∃ t', p'.tasks[j]? = some t' ∧ t'.label = t.label := by
  have hj : j < p.tasks.length := (List.getElem?_eq_some_iff.1 ht).1
  cases a with
  | call l =>
    cases hs
    exact ⟨t, by rw [getElem?_append_left hj]; exact ht, rfl⟩
  | env e =>
    obtain ⟨s, -, rfl⟩ := map_eq_some_iff.1 hs
    exact ⟨t, ht, rfl⟩
  | start i =>
    simp only [step] at hs
    split at hs
    · rename_i hi
      cases hs
      exact put_label hi ht
    · cases hs
  | perform i o | resume i c =>
    simp only [step] at hs
    split at hs
    · rename_i hi
      obtain ⟨q, -, rfl⟩ := map_eq_some_iff.1 hs
      exact put_label hi ht
    · cases hs

end Pool

end Coop

import DeerFlow.Coop.Pool
import Mathlib.Tactic.SplitIfs

/-!
# Rely and guarantee for coroutines

A contract says what holds between any two steps (`inv`), what the other tasks may do to the state a
task has seen (`rely`), which tasks it starts (`starts`), what is kept true for it when it starts
(`init`), while it waits (`hold`), until it is resumed (`held`) and when it is done (`post`), and
what its sections may do (`sect`). Where every program meets `wp` under the contract, every pool a
run reaches meets it (`Sound.steps`).
-/

namespace Coop

open List Option

variable {σ : Type} {S : Sig} {ρ : Type}

def Pool.Distinct {κ : Type} (key : S.Label → Option κ) (p : Pool σ S ρ) : Prop :=
  ∀ (i j : ℕ) (t t' : Task σ S ρ) k, p.tasks[i]? = some t → p.tasks[j]? = some t' →
    key t.label = some k → key t'.label = some k → i = j

structure Contract (Y : System σ S ρ) where
  inv : σ → Prop
  rely : ℕ → σ → σ → Prop
  refl : ∀ i s, rely i s s
  trans : ∀ {i s t u}, rely i s t → rely i t u → rely i s u
  starts : S.Label → S.Label → Prop
  init : S.Label → σ → Prop
  hold : ℕ → S.Label → S.Op → σ → Prop
  held : ℕ → S.Label → (op : S.Op) → Except S.Exc (S.Res op) → σ → Prop
  post : ℕ → S.Label → Except S.Exc ρ → σ → Prop
  sect : ℕ → S.Label → σ → σ → Option S.Op → Prop
  may : ℕ → S.Label → (op : S.Op) → Y.Out → σ → Prop
  mayResume : ℕ → S.Label → (op : S.Op) → Except S.Exc (S.Res op) → Bool → σ → Prop

/-- A section under way: the state it began in and the tasks it has started. -/
structure Sect (σ : Type) (S : Sig) where
  start : σ
  spawned : List S.Label

namespace Contract

variable {Y : System σ S ρ} (C : Contract Y) (i : ℕ) (l : S.Label) {α β : Type}

structure Yields (b : Sect σ S) (s : σ) (o : Option S.Op) : Prop where
  inv : C.inv s
  rely : ∀ j, j ≠ i → C.rely j b.start s
  init : ∀ l' ∈ b.spawned, C.starts l l' ∧ C.init l' s
  sect : C.sect i l b.start s o

/-- From `s`, in which its operation ended with `r`, the task goes on as `P` says. -/
def Resumes (op : S.Op) (P : Except S.Exc (S.Res op) → Sect σ S → σ → Prop)
    (r : Except S.Exc (S.Res op)) (s : σ) : Prop :=
  ∀ s3 c s4, C.rely i s s3 → C.inv s3 → C.held i l op r s3 → C.mayResume i l op r c s3 →
    Y.deliver l op r c s3 = some s4 → P (if c then .error S.cancelled else r) ⟨s3, []⟩ s4

/-- From `s`, in which the task waits for `op`, it goes on as `P` says. -/
def Waits (op : S.Op) (P : Except S.Exc (S.Res op) → Sect σ S → σ → Prop) (s : σ) : Prop :=
  ∀ s1 o s2 r, C.rely i s s1 → C.inv s1 → C.hold i l op s1 → C.may i l op o s1 →
    Y.exec i l op o s1 = some (s2, r) →
      C.inv s2 ∧ (∀ j, j ≠ i → C.rely j s1 s2) ∧ C.held i l op r s2 ∧ C.Resumes i l op P r s2

/-- The weakest precondition of a coroutine run by task `i`, called `l`. -/
def wp : Coro σ S α → (Except S.Exc α → Sect σ S → σ → Prop) → Sect σ S → σ → Prop
  | .ret r, Q, b, s => Q r b s
  | .sync f k, Q, b, s => wp (k s) Q b (f s)
  | .spawn l' k, Q, b, s => wp k Q ⟨b.start, b.spawned ++ [l']⟩ s
  | .await op k, Q, b, s =>
    C.Yields i l b s (some op) ∧ C.hold i l op s ∧ C.Waits i l op (fun r b s => wp (k r) Q b s) s

def Finish (r : Except S.Exc ρ) (b : Sect σ S) (s : σ) : Prop :=
  C.Yields i l b s none ∧ C.post i l r s

variable {C i l}
  {op : S.Op} {s : σ}

theorem Resumes.mono {P P' : Except S.Exc (S.Res op) → Sect σ S → σ → Prop}
    {r : Except S.Exc (S.Res op)} (h : C.Resumes i l op P r s)
    (hP : ∀ r b s, P r b s → P' r b s) : C.Resumes i l op P' r s :=
  fun s3 c s4 h1 h2 h3 h4 h5 => hP _ _ _ (h s3 c s4 h1 h2 h3 h4 h5)

theorem Waits.mono {P P' : Except S.Exc (S.Res op) → Sect σ S → σ → Prop}
    (h : C.Waits i l op P s) (hP : ∀ r b s, P r b s → P' r b s) : C.Waits i l op P' s := by
  intro s1 o s2 r h1 h2 h3 h4 h5
  obtain ⟨hi, hr, hh, hk⟩ := h s1 o s2 r h1 h2 h3 h4 h5
  exact ⟨hi, hr, hh, hk.mono hP⟩

theorem wp_mono {Q Q' : Except S.Exc α → Sect σ S → σ → Prop} (hQ : ∀ r b s, Q r b s → Q' r b s) :
    ∀ (p : Coro σ S α) (b : Sect σ S) (s : σ), C.wp i l p Q b s → C.wp i l p Q' b s
  | .ret r, b, s, h => hQ r b s h
  | .sync f k, b, s, h => wp_mono hQ (k s) b (f s) h
  | .spawn l' k, b, s, h => wp_mono hQ k ⟨b.start, b.spawned ++ [l']⟩ s h
  | .await _ k, _, _, h => ⟨h.1, h.2.1, h.2.2.mono fun r b s => wp_mono hQ (k r) b s⟩

@[simp] theorem wp_ret (r : Except S.Exc α) (Q : Except S.Exc α → Sect σ S → σ → Prop)
    (b : Sect σ S) (s : σ) : C.wp i l (.ret r) Q b s = Q r b s := rfl

/-- The postcondition under which a coroutine is followed by `f`. -/
def andThen (C : Contract Y) (i : ℕ) (l : S.Label) (f : α → Coro σ S β)
    (Q : Except S.Exc β → Sect σ S → σ → Prop) (r : Except S.Exc α) (b : Sect σ S) (s : σ) : Prop :=
  match r with
  | .ok a => C.wp i l (f a) Q b s
  | .error e => Q (.error e) b s

@[simp] theorem andThen_ok (f : α → Coro σ S β) (Q : Except S.Exc β → Sect σ S → σ → Prop) (a : α)
    (b : Sect σ S) (s : σ) : C.andThen i l f Q (.ok a) b s = C.wp i l (f a) Q b s := rfl

@[simp] theorem andThen_error (f : α → Coro σ S β) (Q : Except S.Exc β → Sect σ S → σ → Prop)
    (e : S.Exc) (b : Sect σ S) (s : σ) : C.andThen i l f Q (.error e) b s = Q (.error e) b s := rfl

@[simp] theorem wp_bind (f : α → Coro σ S β) (Q : Except S.Exc β → Sect σ S → σ → Prop) :
    ∀ (p : Coro σ S α) (b : Sect σ S) (s : σ),
      C.wp i l (p.bind f) Q b s = C.wp i l p (C.andThen i l f Q) b s
  | .ret (.ok _), _, _ => rfl
  | .ret (.error _), _, _ => rfl
  | .sync g k, b, s => wp_bind f Q (k s) b (g s)
  | .spawn l' k, b, s => wp_bind f Q k ⟨b.start, b.spawned ++ [l']⟩ s
  | .await _ k, _, _ => by
    simp only [Coro.bind, wp, fun r b s => wp_bind f Q (k r) b s]

@[simp] theorem wp_attempt (Q : Except S.Exc (Except S.Exc α) → Sect σ S → σ → Prop) :
    ∀ (p : Coro σ S α) (b : Sect σ S) (s : σ),
      C.wp i l p.attempt Q b s = C.wp i l p (fun r => Q (.ok r)) b s
  | .ret _, _, _ => rfl
  | .sync g k, b, s => wp_attempt Q (k s) b (g s)
  | .spawn l' k, b, s => wp_attempt Q k ⟨b.start, b.spawned ++ [l']⟩ s
  | .await _ k, _, _ => by
    simp only [Coro.attempt, wp, fun r b s => wp_attempt Q (k r) b s]

@[simp] theorem wp_throw (e : S.Exc) (Q : Except S.Exc α → Sect σ S → σ → Prop) (b : Sect σ S)
    (s : σ) : C.wp i l (Coro.throw e) Q b s = Q (.error e) b s := rfl

@[simp] theorem wp_get (Q : Except S.Exc σ → Sect σ S → σ → Prop) (b : Sect σ S) (s : σ) :
    C.wp i l Coro.get Q b s = Q (.ok s) b s := rfl

@[simp] theorem wp_modify (f : σ → σ) (Q : Except S.Exc Unit → Sect σ S → σ → Prop)
    (b : Sect σ S) (s : σ) : C.wp i l (Coro.modify f) Q b s = Q (.ok ()) b (f s) := rfl

@[simp] theorem wp_fork (l' : S.Label) (Q : Except S.Exc Unit → Sect σ S → σ → Prop)
    (b : Sect σ S) (s : σ) :
    C.wp i l (Coro.fork l') Q b s = Q (.ok ()) ⟨b.start, b.spawned ++ [l']⟩ s := rfl

theorem wp_tryExcept (p : Coro σ S α) (h : S.Exc → Coro σ S α)
    (Q : Except S.Exc α → Sect σ S → σ → Prop) (b : Sect σ S) (s : σ) :
    C.wp i l (p.tryExcept h) Q b s
      = C.wp i l p (fun | .ok a => Q (.ok a) | .error e => C.wp i l (h e) Q) b s := by
  simp only [Coro.tryExcept, wp_bind, wp_attempt]
  congr 1
  funext r b s
  rcases r with e | a <;> rfl

theorem wp_tryFinally (p : Coro σ S α) (q : Coro σ S Unit)
    (Q : Except S.Exc α → Sect σ S → σ → Prop) (b : Sect σ S) (s : σ) :
    C.wp i l (p.tryFinally q) Q b s
      = C.wp i l p (fun r => C.wp i l q (C.andThen i l (fun _ => .ret r) Q)) b s := by
  simp only [Coro.tryFinally, wp_bind, wp_attempt]
  congr 1
  funext r b s
  rw [andThen_ok, wp_bind]

/-- `A` is kept by the others while the operation is pending, `B` until the task is resumed. -/
theorem wp_perform {Q : Except S.Exc (S.Res op) → Sect σ S → σ → Prop} {b : Sect σ S}
    (A : σ → Prop) (B : Except S.Exc (S.Res op) → σ → Prop)
    (hy : C.Yields i l b s (some op)) (hh : C.hold i l op s) (hA : A s)
    (sA : ∀ s s', C.rely i s s' → C.inv s' → A s → A s')
    (hp : ∀ s1 o s2 r, C.inv s1 → A s1 → C.hold i l op s1 → C.may i l op o s1 →
      Y.exec i l op o s1 = some (s2, r) →
      C.inv s2 ∧ (∀ j, j ≠ i → C.rely j s1 s2) ∧ C.held i l op r s2 ∧ B r s2)
    (sB : ∀ r s s', C.rely i s s' → C.inv s' → B r s → B r s')
    (hr : ∀ r s3 c s4, C.inv s3 → B r s3 → C.held i l op r s3 → C.mayResume i l op r c s3 →
      Y.deliver l op r c s3 = some s4 → Q (if c then .error S.cancelled else r) ⟨s3, []⟩ s4) :
    C.wp i l (Coro.perform op) Q b s := by
  refine ⟨hy, hh, fun s1 o s2 r h1 h2 h3 h4 h5 => ?_⟩
  obtain ⟨hi, hg, hk, hB⟩ := hp s1 o s2 r h2 (sA s s1 h1 h2 hA) h3 h4 h5
  refine ⟨hi, hg, hk, fun s3 c s4 g1 g2 g3 g4 g5 => ?_⟩
  exact hr r s3 c s4 g2 (sB r s2 s3 g1 g2 hB) g3 g4 g5

end Contract

section Soundness

variable {Y : System σ S ρ} (C : Contract Y)

namespace Contract

def Asserts (i : ℕ) (t : Task σ S ρ) (s : σ) : Prop :=
  match t.state with
  | .fresh => C.init t.label s
  | .pending op _ => C.hold i t.label op s
  | .ready op _ r => C.held i t.label op r s
  | .done r => C.post i t.label r s

def Answers (i : ℕ) (t : Task σ S ρ) (s : σ) : Prop :=
  match t.state with
  | .fresh => True
  | .pending op k =>
    C.Waits i t.label op (fun r b s => C.wp i t.label (k r) (C.Finish i t.label) b s) s
  | .ready op k r =>
    C.Resumes i t.label op (fun r b s => C.wp i t.label (k r) (C.Finish i t.label) b s) r s
  | .done _ => True

structure Ok (p : Pool σ S ρ) : Prop where
  inv : C.inv p.shared
  asserts : ∀ i t, p.tasks[i]? = some t → C.Asserts i t p.shared
  answers : ∀ i t, p.tasks[i]? = some t → C.Answers i t p.shared

end Contract

/-- Every program meets its precondition, and a run meeting `cond` keeps to the contract. -/
structure Verified (cond : Pool σ S ρ → Action Y → Prop) : Prop where
  verified : ∀ i l s, C.inv s → C.init l s → C.wp i l (Y.prog l) (C.Finish i l) ⟨s, []⟩ s
  may : ∀ p i o l op k, cond p (.perform i o) → p.tasks[i]? = some ⟨l, .pending op k⟩ →
    C.may i l op o p.shared
  mayResume : ∀ p i c l op k r, cond p (.resume i c) → p.tasks[i]? = some ⟨l, .ready op k r⟩ →
    C.mayResume i l op r c p.shared

/-- What the runs meeting `cond` do beside the tasks keeps to the contract, too; `X` is what else
is known of their pools. -/
structure Sound (cond : Pool σ S ρ → Action Y → Prop) (X : Pool σ S ρ → Prop) : Prop
    extends Verified C cond where
  call : ∀ p l, C.Ok p → X p → cond p (.call l) → C.init l p.shared
  env : ∀ p e s, C.Ok p → X p → cond p (.env e) → Y.env e p.shared = some s →
    C.inv s ∧ ∀ j, C.rely j p.shared s
  stable : ∀ p a p' j t, C.Ok p → X p → cond p a → p.step Y a = some p' → p.tasks[j]? = some t →
    a.actor ≠ some j → C.rely j p.shared p'.shared → C.inv p'.shared → C.Asserts j t p.shared →
      C.Asserts j t p'.shared
  extra : ∀ p a p', C.Ok p → X p → cond p a → p.step Y a = some p' → X p'

namespace Contract

variable {C}

theorem Answers.rely {i : ℕ} {t : Task σ S ρ} {s s' : σ} (h : C.Answers i t s)
    (hr : C.rely i s s') : C.Answers i t s' := by
  obtain ⟨l, st⟩ := t
  rcases st with _ | ⟨op, k⟩ | ⟨op, k, r⟩ | r
  · trivial
  · exact fun s1 o s2 r h1 => h s1 o s2 r (C.trans hr h1)
  · exact fun s3 c s4 h1 => h s3 c s4 (C.trans hr h1)
  · trivial

theorem wp_settle {i : ℕ} {l : S.Label} : ∀ (p : Coro σ S ρ) (b : Sect σ S) (s : σ),
    C.wp i l p (C.Finish i l) b s →
      C.Yields i l ⟨b.start, (p.settle s b.spawned).2.1⟩ (p.settle s b.spawned).1
          (p.settle s b.spawned).2.2.op?
        ∧ C.Asserts i ⟨l, (p.settle s b.spawned).2.2⟩ (p.settle s b.spawned).1
        ∧ C.Answers i ⟨l, (p.settle s b.spawned).2.2⟩ (p.settle s b.spawned).1
  | .ret _, _, _, h => ⟨h.1, h.2, trivial⟩
  | .sync f k, b, s, h => wp_settle (k s) b (f s) h
  | .spawn l' k, b, s, h => wp_settle k ⟨b.start, b.spawned ++ [l']⟩ s h
  | .await _ _, _, _, h => h

theorem ok_put {p : Pool σ S ρ} {i : ℕ} {l : S.Label} {q : σ × List S.Label × TaskState σ S ρ}
    (hok : C.Ok p) (hinv : C.inv q.1) (hrely : ∀ j, j ≠ i → C.rely j p.shared q.1)
    (hinit : ∀ l' ∈ q.2.1, C.init l' q.1)
    (hothers : ∀ j t, j ≠ i → p.tasks[j]? = some t → C.Asserts j t q.1)
    (hself : C.Asserts i ⟨l, q.2.2⟩ q.1 ∧ C.Answers i ⟨l, q.2.2⟩ q.1) : C.Ok (p.put i l q) := by
  refine ⟨hinv, fun j t ht => ?_, fun j t ht => ?_⟩
  · rcases Pool.put_cases ht with ⟨hj, ht⟩ | ⟨rfl, -, rfl⟩ | ⟨-, l', hl, rfl⟩
    · exact hothers j t hj ht
    · exact hself.1
    · exact hinit l' hl
  · rcases Pool.put_cases ht with ⟨hj, ht⟩ | ⟨rfl, -, rfl⟩ | ⟨-, l', hl, rfl⟩
    · exact (hok.answers j t ht).rely (hrely j hj)
    · exact hself.2
    · trivial

end Contract

namespace Verified

variable {C} {cond : Pool σ S ρ → Action Y → Prop}
  {p p' : Pool σ S ρ} {a : Action Y}

theorem section_of_start (h : Verified C cond) {i : ℕ} (hok : C.Ok p)
    (hs : p.step Y (.start i) = some p') :
    ∃ l q, p' = p.put i l q ∧ (∃ t, p.tasks[i]? = some t ∧ t.label = l ∧ t.state.op? = none)
      ∧ C.Yields i l ⟨p.shared, q.2.1⟩ q.1 q.2.2.op?
      ∧ C.Asserts i ⟨l, q.2.2⟩ q.1 ∧ C.Answers i ⟨l, q.2.2⟩ q.1 := by
  simp only [Pool.step] at hs
  split at hs
  · rename_i l ht
    cases hs
    have hw := h.verified i l p.shared hok.inv (hok.asserts i _ ht)
    exact ⟨l, _, rfl, ⟨_, ht, rfl, rfl⟩, Contract.wp_settle _ ⟨p.shared, []⟩ _ hw⟩
  · cases hs

theorem section_of_resume (h : Verified C cond) {i : ℕ} {c : Bool}
    (hok : C.Ok p) (hc : cond p (.resume i c)) (hs : p.step Y (.resume i c) = some p') :
    ∃ l q, p' = p.put i l q ∧ (∃ t, p.tasks[i]? = some t ∧ t.label = l ∧ t.state.op? = none)
      ∧ C.Yields i l ⟨p.shared, q.2.1⟩ q.1 q.2.2.op?
      ∧ C.Asserts i ⟨l, q.2.2⟩ q.1 ∧ C.Answers i ⟨l, q.2.2⟩ q.1 := by
  simp only [Pool.step] at hs
  split at hs
  · rename_i l op k r ht
    obtain ⟨s, hd, rfl⟩ := map_eq_some_iff.1 hs
    have hw := hok.answers i _ ht p.shared c s (C.refl i _) hok.inv (hok.asserts i _ ht)
      (h.mayResume p i c l op k r hc ht) hd
    exact ⟨l, _, rfl, ⟨_, ht, rfl, rfl⟩, Contract.wp_settle _ ⟨p.shared, []⟩ _ hw⟩
  · cases hs

theorem effect_of_perform (h : Verified C cond) {i : ℕ} {o : Y.Out}
    (hok : C.Ok p) (hc : cond p (.perform i o)) (hs : p.step Y (.perform i o) = some p') :
    ∃ l op k s r, p.tasks[i]? = some ⟨l, .pending op k⟩ ∧ Y.exec i l op o p.shared = some (s, r)
      ∧ p' = p.put i l (s, [], .ready op k r) ∧ C.inv s ∧ (∀ j, j ≠ i → C.rely j p.shared s)
      ∧ C.held i l op r s ∧ C.Answers i ⟨l, .ready op k r⟩ s := by
  simp only [Pool.step] at hs
  split at hs
  · rename_i l op k ht
    obtain ⟨⟨s, r⟩, he, rfl⟩ := map_eq_some_iff.1 hs
    obtain ⟨hi, hr, hh, hk⟩ := hok.answers i _ ht p.shared o s r (C.refl i _) hok.inv
      (hok.asserts i _ ht) (h.may p i o l op k hc ht) he
    exact ⟨l, op, k, s, r, ht, he, rfl, hi, hr, hh, hk⟩
  · cases hs

theorem sect_of_done (h : Verified C cond) (hok : C.Ok p)
    (hc : cond p a) (hs : p.step Y a = some p') {i : ℕ} {t t' : Task σ S ρ}
    (ht : p.tasks[i]? = some t) (hd : t.state.isDone = false) (ht' : p'.tasks[i]? = some t')
    (hd' : t'.state.isDone) : C.sect i t'.label p.shared p'.shared none := by
  have hsame : p'.tasks[i]? ≠ p.tasks[i]? := by
    intro he
    rw [ht', ht] at he
    cases he
    rw [hd] at hd'
    cases hd'
  have hlt : i < p.tasks.length := (List.getElem?_eq_some_iff.1 ht).1
  have hput : ∀ j l q, p' = p.put j l q → j = i ∧ t' = ⟨l, q.2.2⟩ := by
    rintro j l q rfl
    rcases Pool.put_cases ht' with ⟨-, he⟩ | ⟨rfl, -, rfl⟩ | ⟨hle, -⟩
    · exact absurd (ht'.trans he.symm) hsame
    · exact ⟨rfl, rfl⟩
    · exact absurd hlt (Nat.not_lt.2 hle)
  have hend : ∀ j l q, p' = p.put j l q → C.sect j l p.shared q.1 q.2.2.op? →
      C.sect i t'.label p.shared p'.shared none := by
    intro j l q hp hsec
    obtain ⟨rfl, rfl⟩ := hput j l q hp
    obtain ⟨q1, q2, _ | _ | _ | r⟩ := q <;> cases hd'
    rw [hp]
    exact hsec
  cases a with
  | call l =>
    cases hs
    exact absurd (getElem?_append_left hlt) hsame
  | env e =>
    obtain ⟨s, -, rfl⟩ := map_eq_some_iff.1 hs
    exact absurd rfl hsame
  | start j =>
    obtain ⟨l, q, hp, -, hy, -⟩ := h.section_of_start hok hs
    exact hend j l q hp hy.sect
  | resume j c =>
    obtain ⟨l, q, hp, -, hy, -⟩ := h.section_of_resume hok hc hs
    exact hend j l q hp hy.sect
  | perform j o =>
    obtain ⟨l, op, k, s, r, -, -, hp, -⟩ := h.effect_of_perform hok hc hs
    obtain ⟨rfl, rfl⟩ := hput j l _ hp
    cases hd'

theorem label_of_step (h : Verified C cond) (hok : C.Ok p)
    (hc : cond p a) (hs : p.step Y a = some p') {j : ℕ} {t' : Task σ S ρ}
    (ht' : p'.tasks[j]? = some t') :
    (∃ t, p.tasks[j]? = some t ∧ t.label = t'.label)
      ∨ (p.tasks.length ≤ j ∧ t'.state = .fresh
        ∧ (a = .call t'.label ∨ ∃ t ∈ p.tasks, C.starts t.label t'.label)) := by
  have hput : ∀ (i : ℕ) (t : Task σ S ρ) l q, p.tasks[i]? = some t → t.label = l →
      p' = p.put i l q → (∀ l' ∈ q.2.1, C.starts l l') →
      (∃ t, p.tasks[j]? = some t ∧ t.label = t'.label)
        ∨ (p.tasks.length ≤ j ∧ t'.state = .fresh
          ∧ (a = .call t'.label ∨ ∃ t ∈ p.tasks, C.starts t.label t'.label)) := by
    rintro i t l q hi rfl rfl hst
    rcases Pool.put_cases ht' with ⟨-, ht'⟩ | ⟨rfl, -, rfl⟩ | ⟨hj, l', hl, rfl⟩
    · exact .inl ⟨t', ht', rfl⟩
    · exact .inl ⟨t, hi, rfl⟩
    · exact .inr ⟨hj, rfl, .inr ⟨t, mem_of_getElem? hi, hst l' hl⟩⟩
  cases a with
  | call l =>
    cases hs
    rw [getElem?_append] at ht'
    split_ifs at ht' with h1
    · exact .inl ⟨t', ht', rfl⟩
    · rw [mem_singleton.1 (mem_of_getElem? ht')]
      exact .inr ⟨Nat.not_lt.1 h1, rfl, .inl rfl⟩
  | env e =>
    obtain ⟨s, he, rfl⟩ := map_eq_some_iff.1 hs
    exact .inl ⟨t', ht', rfl⟩
  | start i =>
    obtain ⟨l, q, hp, ⟨t, hi, hl, -⟩, hy, -⟩ := h.section_of_start hok hs
    exact hput i t l q hi hl hp fun l' hl => (hy.init l' hl).1
  | resume i c =>
    obtain ⟨l, q, hp, ⟨t, hi, hl, -⟩, hy, -⟩ := h.section_of_resume hok hc hs
    exact hput i t l q hi hl hp fun l' hl => (hy.init l' hl).1
  | perform i o =>
    obtain ⟨l, op, k, s, r, hi, -, hp, -⟩ := h.effect_of_perform hok hc hs
    exact hput i _ l _ hi rfl hp (by simp)

/-- The tasks keep to keys of their own if every call brings a new one and no task starts another
that has one. -/
theorem distinct_of_step {κ : Type} {key : S.Label → Option κ} (h : Verified C cond)
    (hok : C.Ok p) (hc : cond p a)
    (hs : p.step Y a = some p') (hst : ∀ l l', C.starts l l' → key l' = none)
    (hcall : ∀ l k, a = .call l → key l = some k → ∀ t ∈ p.tasks, key t.label ≠ some k)
    (hd : p.Distinct key) : p'.Distinct key := by
  have hnew : ∀ (j : ℕ) (t' : Task σ S ρ) k, p'.tasks[j]? = some t' → key t'.label = some k →
      (∃ t, p.tasks[j]? = some t ∧ t.label = t'.label)
        ∨ (a = .call t'.label ∧ j = p.tasks.length) := by
    intro j t' k ht' hk
    rcases h.label_of_step hok hc hs ht' with h | ⟨hj, -, ha | ⟨t, -, h⟩⟩
    · exact .inl h
    · subst ha
      cases hs
      refine .inr ⟨rfl, Nat.le_antisymm ?_ hj⟩
      have := (List.getElem?_eq_some_iff.1 ht').1
      simp only [length_append, length_singleton] at this
      exact Nat.le_of_lt_succ this
    · rw [hst _ _ h] at hk
      cases hk
  intro i j t t' k hi hj hk hk'
  rcases hnew i t k hi hk with ⟨u, hu, hl⟩ | ⟨ha, hi'⟩
  · rcases hnew j t' k hj hk' with ⟨u', hu', hl'⟩ | ⟨ha, -⟩
    · exact hd i j u u' k hu hu' (hl ▸ hk) (hl' ▸ hk')
    · exact absurd (hl ▸ hk) (hcall _ k ha hk' u (mem_of_getElem? hu))
  · rcases hnew j t' k hj hk' with ⟨u', hu', hl'⟩ | ⟨-, hj'⟩
    · exact absurd (hl' ▸ hk') (hcall _ k ha hk u' (mem_of_getElem? hu'))
    · rw [hi', hj']

end Verified

namespace Sound

variable {C} {cond : Pool σ S ρ → Action Y → Prop} {X : Pool σ S ρ → Prop}

theorem step (h : Sound C cond X) {p p' : Pool σ S ρ} {a : Action Y} (hok : C.Ok p) (hx : X p)
    (hc : cond p a) (hs : p.step Y a = some p') :
    C.Ok p' ∧ ∀ j, a.actor ≠ some j → C.rely j p.shared p'.shared := by
  have hst := fun j t => h.stable p a p' j t hok hx hc hs
  cases a with
  | call l =>
    cases hs
    have hnew : ∀ (j : ℕ) (t : Task σ S ρ), (p.tasks ++ [⟨l, .fresh⟩])[j]? = some t →
        p.tasks[j]? = some t ∨ t = ⟨l, .fresh⟩ := by
      intro j t ht
      rw [getElem?_append] at ht
      split_ifs at ht
      · exact .inl ht
      · exact .inr (mem_singleton.1 (mem_of_getElem? ht))
    refine ⟨⟨hok.inv, fun j t ht => ?_, fun j t ht => ?_⟩, fun j _ => C.refl j _⟩
    · rcases hnew j t ht with ht | rfl
      · exact hok.asserts j t ht
      · exact h.call p l hok hx hc
    · rcases hnew j t ht with ht | rfl
      · exact hok.answers j t ht
      · trivial
  | env e =>
    obtain ⟨s, he, rfl⟩ := map_eq_some_iff.1 hs
    obtain ⟨hi, hr⟩ := h.env p e s hok hx hc he
    refine ⟨⟨hi, fun j t ht => ?_, fun j t ht => (hok.answers j t ht).rely (hr j)⟩, fun j _ => hr j⟩
    exact hst j t ht (by simp [Action.actor]) (hr j) hi (hok.asserts j t ht)
  | start i =>
    obtain ⟨l, q, rfl, -, hy, hself⟩ := h.toVerified.section_of_start hok hs
    refine ⟨Contract.ok_put hok hy.inv hy.rely (fun l' h => (hy.init l' h).2) (fun j t hj ht => ?_) hself,
      fun j hj => hy.rely j fun e => hj (by rw [e]; rfl)⟩
    exact hst j t ht (fun e => hj (some.inj e).symm) (hy.rely j hj) hy.inv
      (hok.asserts j t ht)
  | resume i c =>
    obtain ⟨l, q, rfl, -, hy, hself⟩ := h.toVerified.section_of_resume hok hc hs
    refine ⟨Contract.ok_put hok hy.inv hy.rely (fun l' h => (hy.init l' h).2) (fun j t hj ht => ?_) hself,
      fun j hj => hy.rely j fun e => hj (by rw [e]; rfl)⟩
    exact hst j t ht (fun e => hj (some.inj e).symm) (hy.rely j hj) hy.inv
      (hok.asserts j t ht)
  | perform i o =>
    obtain ⟨l, op, k, s, r, -, -, rfl, hi, hr, hself⟩ := h.toVerified.effect_of_perform hok hc hs
    refine ⟨Contract.ok_put hok hi hr (by simp) (fun j t hj ht => ?_) hself,
      fun j hj => hr j fun e => hj (by rw [e]; rfl)⟩
    exact hst j t ht (fun e => hj (some.inj e).symm) (hr j hj) hi (hok.asserts j t ht)

theorem steps (h : Sound C cond X) {p p' : Pool σ S ρ} (hok : C.Ok p) (hx : X p)
    (hs : Pool.Steps Y cond p p') : C.Ok p' ∧ X p' :=
  hs.invariant (P := fun p => C.Ok p ∧ X p) ⟨hok, hx⟩ fun q a q' hq hc ha =>
    ⟨(h.step hq.1 hq.2 hc ha).1, h.extra q a q' hq.1 hq.2 hc ha⟩

end Sound

end Soundness

end Coop

import DeerFlow.Coop.Pool

/-!
# A coroutine alone

What a coroutine does when no other task runs until it ends and `f` says what each operation does:
the state it ends in and its result.
-/

namespace Coop

open Option

variable {σ : Type} {S : Sig}  {α β : Type}

namespace Coro

/-- Run a coroutine to its end, alone; `none` if an operation blocks. -/
def alone (f : (op : S.Op) → σ → Option (σ × S.Res op)) :
    Coro σ S α → σ → Option (σ × Except S.Exc α)
  | ret r, s => some (s, r)
  | sync g k, s => (k s).alone f (g s)
  | spawn _ k, s => k.alone f s
  | await op k, s => (f op s).bind fun q => (k (.ok q.2)).alone f q.1

variable {f : (op : S.Op) → σ → Option (σ × S.Res op)} {s s' : σ}

@[simp] theorem alone_ret (r : Except S.Exc α) : (ret r : Coro σ S α).alone f s = some (s, r) := rfl

@[simp] theorem alone_get_bind (k : σ → Coro σ S α) :
    (get.bind k).alone f s = (k s).alone f s := rfl

theorem alone_bind (k : α → Coro σ S β) : ∀ (p : Coro σ S α) (s : σ),
    (p.bind k).alone f s = (p.alone f s).bind fun q =>
      match q.2 with
      | .ok a => (k a).alone f q.1
      | .error e => some (q.1, .error e)
  | ret (.ok _), _ => rfl
  | ret (.error _), _ => rfl
  | sync g c, s => alone_bind k (c s) (g s)
  | spawn _ c, s => alone_bind k c s
  | await op c, s => by
    simp only [bind, alone, bind_assoc]
    congr 1
    funext q
    exact alone_bind k (c (.ok q.2)) q.1

theorem alone_attempt : ∀ (p : Coro σ S α) (s : σ),
    p.attempt.alone f s = (p.alone f s).map fun q => (q.1, .ok q.2)
  | ret _, _ => rfl
  | sync g c, s => alone_attempt (c s) (g s)
  | spawn _ c, s => alone_attempt c s
  | await op c, s => by
    simp only [attempt, alone, map_bind]
    congr 1
    funext q
    exact alone_attempt (c (.ok q.2)) q.1

variable {p : Coro σ S α}

theorem alone_bind_ok {k : α → Coro σ S β} {a : α}
    (h : p.alone f s = some (s', .ok a)) : (p.bind k).alone f s = (k a).alone f s' := by
  rw [alone_bind, h]
  rfl

theorem alone_tryFinally (p : Coro σ S α) (q : Coro σ S Unit) :
    (p.tryFinally q).alone f s = (p.alone f s).bind fun x =>
      (q.alone f x.1).map fun y => (y.1, match y.2 with | .ok _ => x.2 | .error e => .error e) := by
  rw [tryFinally, alone_bind, alone_attempt, bind_map]
  congr 1
  funext x
  refine (alone_bind _ q x.1).trans ?_
  rw [map_eq_bind]
  congr 1
  funext y
  rcases y with ⟨s, e | u⟩ <;> rfl

/-- Alone, the coroutine returns a `P`, from whatever state. -/
def Returns (f : (op : S.Op) → σ → Option (σ × S.Res op)) (P : α → Prop) (p : Coro σ S α) : Prop :=
  ∀ s, ∃ s' a, p.alone f s = some (s', .ok a) ∧ P a

abbrev Ends (f : (op : S.Op) → σ → Option (σ × S.Res op)) (p : Coro σ S α) : Prop :=
  Returns f (fun _ => True) p

variable {P : α → Prop} {Q : β → Prop}

theorem returns_pure {a : α} (h : P a) : Returns f P (pure a : Coro σ S α) := fun s => ⟨s, a, rfl, h⟩

theorem ends_modify (g : σ → σ) : Ends f (modify g : Coro σ S Unit) :=
  fun s => ⟨g s, (), rfl, trivial⟩

theorem ends_perform {op : S.Op} (h : ∀ s, (f op s).isSome) : Ends f (perform op : Coro σ S _) := by
  intro s
  obtain ⟨q, hq⟩ := isSome_iff_exists.1 (h s)
  exact ⟨q.1, q.2, by rw [perform, alone, hq]; rfl, trivial⟩

theorem returns_bind {k : α → Coro σ S β} (hp : Ends f p)
    (hk : ∀ a, Returns f Q (k a)) : Returns f Q (p >>= k) := by
  intro s
  obtain ⟨s', a, h, -⟩ := hp s
  obtain ⟨s'', b, h', hb⟩ := hk a s'
  exact ⟨s'', b, (alone_bind_ok h).trans h', hb⟩

theorem returns_get_bind {k : σ → Coro σ S β} (hk : ∀ s, Returns f Q (k s)) :
    Returns f Q (get >>= k) := fun s => hk s s

theorem returns_tryExcept {h : S.Exc → Coro σ S α} (hp : Returns f P p) :
    Returns f P (p.tryExcept h) := by
  intro s
  obtain ⟨s', a, h, ha⟩ := hp s
  refine ⟨s', a, ?_, ha⟩
  rw [tryExcept, alone_bind, alone_attempt, h]
  rfl

end Coro

end Coop

import DeerFlow.Coop.Quiet

/-!
# Footprints

What a coroutine can do, whatever its operations return: how it changes the state, what it waits
for, which tasks it starts and what it raises. Any contract that allows all of it is kept
(`wp_of_within`).
-/

namespace Coop

structure Footprint (σ : Type) (S : Sig) where
  change : σ → σ → Prop
  refl : ∀ s, change s s
  op : S.Op → Prop
  start : S.Label → Prop
  raises : S.Exc → Prop

variable {σ : Type} {S : Sig} {α β : Type}

def Footprint.Ends (F : Footprint σ S) (r : Except S.Exc α) : Prop := ∀ e, r = .error e → F.raises e

namespace Coro

/-- The coroutine stays within the footprint as long as its operations do. -/
def Within (F : Footprint σ S) : Coro σ S α → Prop
  | ret r => F.Ends r
  | sync f k => ∀ s, F.change s (f s) ∧ (k s).Within F
  | spawn l k => F.start l ∧ k.Within F
  | await op k => F.op op ∧ ∀ r, F.Ends r → (k r).Within F

variable {F : Footprint σ S} {f : α → Coro σ S β}

theorem within_bind : ∀ {p : Coro σ S α}, p.Within F →
    (∀ a, (f a).Within F) → (p.bind f).Within F
  | ret (.ok a), _, hf => hf a
  | ret (.error _), h, _ => fun _ he => by cases he; exact h _ rfl
  | sync _ _, h, hf => fun s => ⟨(h s).1, within_bind (h s).2 hf⟩
  | spawn _ _, h, hf => ⟨h.1, within_bind h.2 hf⟩
  | await _ _, h, hf => ⟨h.1, fun r hr => within_bind (h.2 r hr) hf⟩

theorem within_attempt_bind {f : Except S.Exc α → Coro σ S β} : ∀ {p : Coro σ S α}, p.Within F →
    (∀ r, F.Ends r → (f r).Within F) → (p.attempt.bind f).Within F
  | ret r, h, hf => hf r h
  | sync _ _, h, hf => fun s => ⟨(h s).1, within_attempt_bind (h s).2 hf⟩
  | spawn _ _, h, hf => ⟨h.1, within_attempt_bind h.2 hf⟩
  | await _ _, h, hf => ⟨h.1, fun r hr => within_attempt_bind (h.2 r hr) hf⟩

/-- Whatever the coroutine returns is a `P`. -/
def Gives (P : α → Prop) : Coro σ S α → Prop
  | ret (.ok a) => P a
  | ret (.error _) => True
  | sync _ k => ∀ s, (k s).Gives P
  | spawn _ k => k.Gives P
  | await _ k => ∀ r, (k r).Gives P

theorem gives_bind {P : β → Prop} (hf : ∀ a, (f a).Gives P) :
    ∀ p : Coro σ S α, (p.bind f).Gives P
  | ret (.ok a) => hf a
  | ret (.error _) => trivial
  | sync _ k => fun s => gives_bind hf (k s)
  | spawn _ k => gives_bind hf k
  | await _ k => fun r => gives_bind hf (k r)

theorem gives_tryExcept {P : α → Prop} {h : S.Exc → Coro σ S α} (hh : ∀ e, (h e).Gives P) :
    ∀ {p : Coro σ S α}, p.Gives P → (p.tryExcept h).Gives P
  | ret (.ok _), hp => hp
  | ret (.error e), _ => hh e
  | sync _ _, hp => fun s => gives_tryExcept hh (hp s)
  | spawn _ k, hp => gives_tryExcept (p := k) hh hp
  | await _ _, hp => fun r => gives_tryExcept hh (hp r)

theorem within_bind_of_gives {P : α → Prop} : ∀ {p : Coro σ S α},
    p.Within F → p.Gives P → (∀ a, P a → (f a).Within F) → (p.bind f).Within F
  | ret (.ok a), _, hp, hf => hf a hp
  | ret (.error _), h, _, _ => fun _ he => by cases he; exact h _ rfl
  | sync _ _, h, hp, hf => fun s => ⟨(h s).1, within_bind_of_gives (h s).2 (hp s) hf⟩
  | spawn _ k, h, hp, hf => ⟨h.1, within_bind_of_gives (p := k) h.2 hp hf⟩
  | await _ _, h, hp, hf => ⟨h.1, fun r hr => within_bind_of_gives (h.2 r hr) (hp r) hf⟩

theorem within_pure (a : α) : (pure a : Coro σ S α).Within F := nofun

theorem within_throw {e : S.Exc} (h : F.raises e) : (throw e : Coro σ S α).Within F :=
  fun _ he => by cases he; exact h

theorem within_get : (get : Coro σ S σ).Within F := fun s => ⟨F.refl s, within_pure s⟩

theorem within_modify {f : σ → σ} (h : ∀ s, F.change s (f s)) :
    (modify f : Coro σ S Unit).Within F := fun s => ⟨h s, within_pure ()⟩

theorem within_fork {l : S.Label} (h : F.start l) : (fork l : Coro σ S Unit).Within F :=
  ⟨h, within_pure ()⟩

theorem within_perform {op : S.Op} (h : F.op op) : (perform op : Coro σ S _).Within F :=
  ⟨h, fun _ hr => hr⟩

theorem within_tryExcept {p : Coro σ S α} {h : S.Exc → Coro σ S α} (hp : p.Within F)
    (hh : ∀ e, F.raises e → (h e).Within F) : (p.tryExcept h).Within F := by
  refine within_attempt_bind hp fun r hr => ?_
  rcases r with e | a
  · exact hh e (hr e rfl)
  · exact within_pure a

theorem within_tryFinally {p : Coro σ S α} {q : Coro σ S Unit} (hp : p.Within F)
    (hq : q.Within F) : (p.tryFinally q).Within F :=
  within_attempt_bind hp fun r hr => within_bind (f := fun _ => ret r) hq fun _ => hr

theorem within_forEach {f : α → Coro σ S Unit} (hf : ∀ a, (f a).Within F) :
    ∀ as : List α, (forEach f as).Within F
  | [] => within_pure ()
  | a :: as => within_bind (hf a) fun _ => within_forEach hf as

end Coro

namespace Contract

variable {ρ : Type} {Y : System σ S ρ} {C : Contract Y} {i : ℕ} {l : S.Label}
  {K : Sect σ S → σ → Prop} {F : Footprint σ S}

/-- An assertion that a footprint leaves alone is kept by the coroutines within it, which raise no
more than it says. -/
theorem wp_of_within (hc : ∀ b s s', F.change s s' → K b s → K b s')
    (ho : ∀ op, F.op op → ∀ b s, K b s → C.wp i l (Coro.perform op)
      (fun r b s => K b s ∧ F.Ends r) b s)
    (hs : ∀ l', F.start l' → ∀ b s, K b s → K ⟨b.start, b.spawned ++ [l']⟩ s) :
    ∀ {p : Coro σ S α} (b : Sect σ S) (s : σ), p.Within F → K b s →
      C.wp i l p (fun r b s => K b s ∧ F.Ends r) b s
  | .ret _, _, _, h, hk => ⟨hk, h⟩
  | .sync f k, b, s, h, hk =>
    wp_of_within (p := k s) hc ho hs b (f s) (h s).2 (hc b s _ (h s).1 hk)
  | .spawn l' k, b, s, h, hk =>
    wp_of_within (p := k) hc ho hs ⟨b.start, b.spawned ++ [l']⟩ s h.2 (hs l' h.1 b s hk)
  | .await op _, b, s, h, hk => by
    obtain ⟨hy, hh, hw⟩ := ho op h.1 b s hk
    exact ⟨hy, hh, hw.mono fun r b s hk => wp_of_within hc ho hs b s (h.2 r hk.2) hk.1⟩

end Contract

end Coop

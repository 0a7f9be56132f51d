import DeerFlow.Coop.Rely

/-!
# Stretches that keep an assertion

`Keeps K p` says that `p`, started where `K` holds of the section under way and the state, ends
where `K` holds, whatever its operations return. `Guards K N p` says `K` of where `p` returns and
`N` of where it raises. `At A` is the `K` most stretches need: the section is allowed, and `A`
holds.
-/

namespace Coop

namespace Contract

variable {σ : Type} {S : Sig} {ρ : Type} {Y : System σ S ρ} (C : Contract Y) (i : ℕ) (l : S.Label)
  {α β : Type}

/-- A coroutine that keeps `K`. -/
def Keeps (K : Sect σ S → σ → Prop) (p : Coro σ S α) : Prop :=
  ∀ b s, K b s → C.wp i l p (fun _ => K) b s

/-- An operation that can be awaited wherever `K` holds and leaves `K` true. -/
def Safe (K : Sect σ S → σ → Prop) (op : S.Op) : Prop :=
  ∀ b s, K b s → C.Yields i l b s (some op) ∧ C.hold i l op s ∧ C.Waits i l op (fun _ => K) s

variable {C i l} {K : Sect σ S → σ → Prop}
  {p : Coro σ S α}

theorem wp_of_keeps {Q : Except S.Exc α → Sect σ S → σ → Prop} {b : Sect σ S}
    {s : σ} (hp : C.Keeps i l K p) (hk : K b s) (hQ : ∀ r b s, K b s → Q r b s) :
    C.wp i l p Q b s := wp_mono hQ p b s (hp b s hk)

theorem keeps_bind {f : α → Coro σ S β} (hp : C.Keeps i l K p)
    (hf : ∀ a, C.Keeps i l K (f a)) : C.Keeps i l K (p.bind f) := by
  intro b s hk
  rw [wp_bind]
  refine wp_of_keeps hp hk fun r b s hk => ?_
  rcases r with e | a
  · exact hk
  · exact hf a b s hk

theorem keeps_tryExcept {h : S.Exc → Coro σ S α} (hp : C.Keeps i l K p)
    (hh : ∀ e, C.Keeps i l K (h e)) : C.Keeps i l K (p.tryExcept h) := by
  intro b s hk
  rw [wp_tryExcept]
  refine wp_of_keeps hp hk fun r b s hk => ?_
  rcases r with e | a
  · exact hh e b s hk
  · exact hk

theorem keeps_perform {op : S.Op} (h : C.Safe i l K op) :
    C.Keeps i l K (Coro.perform op : Coro σ S _) := h

theorem keeps_throw (e : S.Exc) : C.Keeps i l K (Coro.throw e : Coro σ S α) := fun _ _ hk => hk

theorem keeps_pure (a : α) : C.Keeps i l K (pure a : Coro σ S α) := fun _ _ hk => hk

theorem keeps_modify {f : σ → σ} (h : ∀ b s, K b s → K b (f s)) :
    C.Keeps i l K (Coro.modify f : Coro σ S Unit) := h

theorem keeps_fork {l' : S.Label} (h : ∀ b s, K b s → K ⟨b.start, b.spawned ++ [l']⟩ s) :
    C.Keeps i l K (Coro.fork l' : Coro σ S Unit) := h

theorem keeps_get_bind {f : σ → Coro σ S α}
    (h : ∀ b s, K b s → C.wp i l (f s) (fun _ => K) b s) :
    C.Keeps i l K (Coro.get.bind f) := h

theorem keeps_forEach {f : α → Coro σ S Unit} :
    ∀ as : List α, (∀ a ∈ as, C.Keeps i l K (f a)) → C.Keeps i l K (Coro.forEach f as)
  | [], _ => fun _ _ hk => hk
  | a :: as, h => keeps_bind (h a (by simp)) fun _ =>
      keeps_forEach as fun a' ha' => h a' (List.mem_cons_of_mem a ha')

section Guards

/-- A coroutine that keeps `K` where it returns, with `N e` true wherever it raises `e`. -/
def Guards (C : Contract Y) (i : ℕ) (l : S.Label) (K : Sect σ S → σ → Prop)
    (N : S.Exc → Sect σ S → σ → Prop) (p : Coro σ S α) : Prop :=
  ∀ b s, K b s → C.wp i l p (fun r b s => match r with
    | .ok _ => K b s
    | .error e => N e b s) b s

variable {N N' : S.Exc → Sect σ S → σ → Prop}
  {p : Coro σ S α}

theorem Guards.mono (h : C.Guards i l K N p)
    (hN : ∀ e b s, N e b s → N' e b s) : C.Guards i l K N' p := by
  intro b s hk
  refine wp_mono (fun r b s h => ?_) p b s (h b s hk)
  rcases r with e | a
  · exact hN e b s h
  · exact h

theorem Guards.keeps (h : C.Guards i l K (fun _ => K) p) : C.Keeps i l K p := by
  intro b s hk
  refine wp_mono (fun r b s h => ?_) p b s (h b s hk)
  rcases r with e | a <;> exact h

theorem Keeps.guards (h : C.Keeps i l K p) : C.Guards i l K (fun _ => K) p := by
  intro b s hk
  refine wp_mono (fun r b s h => ?_) p b s (h b s hk)
  rcases r with e | a <;> exact h

theorem guards_pure (a : α) : C.Guards i l K N (pure a : Coro σ S α) := fun _ _ hk => hk

theorem guards_modify {f : σ → σ} (h : ∀ b s, K b s → K b (f s)) :
    C.Guards i l K N (Coro.modify f : Coro σ S Unit) := h

theorem guards_bind {f : α → Coro σ S β} (hp : C.Guards i l K N p)
    (hf : ∀ a, C.Guards i l K N (f a)) : C.Guards i l K N (p.bind f) := by
  intro b s hk
  rw [wp_bind]
  refine wp_mono (fun r b s h => ?_) p b s (hp b s hk)
  rcases r with e | a
  · exact h
  · exact hf a b s h

theorem guards_get_bind {f : σ → Coro σ S α}
    (h : ∀ b s, K b s → C.wp i l (f s) (fun r b s => match r with
      | .ok _ => K b s
      | .error e => N e b s) b s) :
    C.Guards i l K N (Coro.get.bind f) := h

theorem guards_tryExcept {h : S.Exc → Coro σ S α} (hp : C.Guards i l K N p)
    (hh : ∀ e b s, N e b s → C.wp i l (h e) (fun r b s => match r with
      | .ok _ => K b s
      | .error e => N' e b s) b s) :
    C.Guards i l K N' (p.tryExcept h) := by
  intro b s hk
  rw [wp_tryExcept]
  refine wp_mono (fun r b s h => ?_) p b s (hp b s hk)
  rcases r with e | a
  · exact hh e b s h
  · exact h

theorem guards_forEach {f : α → Coro σ S Unit} :
    ∀ as : List α, (∀ a ∈ as, C.Guards i l K N (f a)) → C.Guards i l K N (Coro.forEach f as)
  | [], _ => guards_pure ()
  | a :: as, h => guards_bind (h a (by simp)) fun _ =>
      guards_forEach as fun a' ha' => h a' (List.mem_cons_of_mem a ha')

end Guards

/-- The section under way has done nothing the contract forbids, and `A` holds. -/
def At (C : Contract Y) (i : ℕ) (l : S.Label) (A : σ → Prop) (b : Sect σ S) (s : σ) : Prop :=
  C.inv s ∧ (∀ j, j ≠ i → C.rely j b.start s) ∧ (∀ l' ∈ b.spawned, C.starts l l' ∧ C.init l' s)
    ∧ (∀ o, C.sect i l b.start s o) ∧ A s

variable {A A' : σ → Prop} {b : Sect σ S} {s s' : σ}

theorem At.inv (h : C.At i l A b s) : C.inv s := h.1

theorem At.holds (h : C.At i l A b s) : A s := h.2.2.2.2

theorem At.yields (h : C.At i l A b s) (o : Option S.Op) : C.Yields i l b s o :=
  ⟨h.1, h.2.1, h.2.2.1, h.2.2.2.1 o⟩

theorem At.mono (h : C.At i l A b s) (hA : A s → A' s) : C.At i l A' b s :=
  ⟨h.1, h.2.1, h.2.2.1, h.2.2.2.1, hA h.2.2.2.2⟩

theorem At.step (h : C.At i l A b s) (hinv : C.inv s') (hr : ∀ j, j ≠ i → C.rely j s s')
    (hi : ∀ l' ∈ b.spawned, C.init l' s → C.init l' s')
    (hs : ∀ s0 o, C.sect i l s0 s o → C.sect i l s0 s' o) (hA : A' s') : C.At i l A' b s' :=
  ⟨hinv, fun j hj => C.trans (h.2.1 j hj) (hr j hj),
    fun l' hl => ⟨(h.2.2.1 l' hl).1, hi l' hl (h.2.2.1 l' hl).2⟩,
    fun o => hs _ o (h.2.2.2.1 o), hA⟩

theorem At.fork {l' : S.Label} (h : C.At i l A b s) (hs : C.starts l l') (hi : C.init l' s) :
    C.At i l A ⟨b.start, b.spawned ++ [l']⟩ s := by
  exact ⟨h.1, h.2.1, List.forall_mem_append.2 ⟨h.2.2.1, List.forall_mem_singleton.2 ⟨hs, hi⟩⟩,
    h.2.2.2⟩

theorem at_start (hinv : C.inv s) (hs : ∀ o, C.sect i l s s o) (hA : A s) :
    C.At i l A ⟨s, []⟩ s := ⟨hinv, fun j _ => C.refl j s, by simp, hs, hA⟩

theorem safe_at {op : S.Op} (hsect : ∀ s o, C.sect i l s s o)
    (hh : ∀ s, C.inv s → A s → C.hold i l op s)
    (sA : ∀ s s', C.rely i s s' → C.inv s' → A s → A s')
    (hx : ∀ s o s' r, C.inv s → A s → C.may i l op o s → Y.exec i l op o s = some (s', r) →
      C.inv s' ∧ (∀ j, j ≠ i → C.rely j s s') ∧ A s')
    (hk : ∀ s r, C.inv s → A s → C.held i l op r s)
    (hd : ∀ s r c s', Y.deliver l op r c s = some s' → s' = s) : C.Safe i l (C.At i l A) op := by
  intro b s h
  refine ⟨h.yields _, hh s h.inv h.holds, fun s1 o s2 r h1 h2 _ h4 h5 => ?_⟩
  obtain ⟨hi, hr, hA⟩ := hx s1 o s2 r h2 (sA s s1 h1 h2 h.holds) h4 h5
  refine ⟨hi, hr, hk s2 r hi hA, fun s3 c s4 g1 g2 _ _ g5 => ?_⟩
  rw [hd s3 r c s4 g5]
  exact at_start g2 (hsect s3) (sA s2 s3 g1 g2 hA)

end Contract

end Coop

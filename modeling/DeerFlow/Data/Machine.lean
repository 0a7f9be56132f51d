import Mathlib.Data.List.Induction

/-!
# Machines

A machine takes a step for an action where the action is possible, and a run is a list of actions.
`Along` says that every step of a run meets a condition; by `run_inv` an invariant proved for each
step holds at the end of a run.
-/

/-- What an action does to a state; `none` where it is not possible. -/
structure Machine (σ α : Type) where
  step : σ → α → Option σ

namespace Machine

open List Option

variable {σ α : Type} (M : Machine σ α)

def run : List α → σ → Option σ
  | [], s => some s
  | a :: as, s => (M.step s a).bind (run as)

/-- Every step of the run meets `ok`. -/
def Along (ok : σ → α → Prop) : List α → σ → Prop
  | [], _ => True
  | a :: as, s => ok s a ∧ ∀ s', M.step s a = some s' → Along ok as s'

instance decidableAlong (ok : σ → α → Prop) [∀ s a, Decidable (ok s a)] :
    ∀ (as : List α) (s : σ), Decidable (M.Along ok as s)
  | [], _ => isTrue trivial
  | a :: as, s =>
    match h : M.step s a with
    | none => decidable_of_iff (ok s a) ⟨fun ha => ⟨ha, fun s' hs => by rw [h] at hs; cases hs⟩,
        fun ha => ha.1⟩
    | some t =>
      have : Decidable (M.Along ok as t) := decidableAlong ok as t
      decidable_of_iff (ok s a ∧ M.Along ok as t)
        ⟨fun ha => ⟨ha.1, fun s' hs => by rw [h] at hs; cases hs; exact ha.2⟩,
          fun ha => ⟨ha.1, ha.2 t h⟩⟩

variable {M} {ok : σ → α → Prop}

@[simp] theorem run_nil (s : σ) : M.run [] s = some s := rfl

theorem run_cons (a : α) (as : List α) (s : σ) :
    M.run (a :: as) s = (M.step s a).bind (M.run as) := rfl

theorem run_append : ∀ (as bs : List α) (s : σ), M.run (as ++ bs) s = (M.run as s).bind (M.run bs)
  | [], _, _ => rfl
  | a :: as, bs, s => by
    rw [cons_append, run_cons, run_cons]
    cases M.step s a with
    | none => rfl
    | some t => exact run_append as bs t

theorem run_append_eq_some {as bs : List α} {s s' : σ} (h : M.run (as ++ bs) s = some s') :
    ∃ t, M.run as s = some t ∧ M.run bs t = some s' := by
  rw [run_append] at h
  exact bind_eq_some_iff.1 h

theorem run_concat {as : List α} {a : α} {s s' : σ} (h : M.run (as ++ [a]) s = some s') :
    ∃ t, M.run as s = some t ∧ M.step t a = some s' := by
  obtain ⟨t, ht, hs⟩ := run_append_eq_some h
  obtain ⟨t', ht', hs'⟩ := bind_eq_some_iff.1 hs
  cases hs'
  exact ⟨t, ht, ht'⟩

theorem run_trans {as bs : List α} {s t s' : σ} (h : M.run as s = some t)
    (h' : M.run bs t = some s') : M.run (as ++ bs) s = some s' := by
  rw [run_append, h]
  exact h'

theorem run_single {a : α} {s s' : σ} (h : M.step s a = some s') : M.run [a] s = some s' := by
  rw [run_cons, h]
  rfl

theorem exists_of_run_any {P : σ → Prop} [DecidablePred P] {as : List α} {s : σ}
    (h : (M.run as s).any (fun t => decide (P t))) : ∃ t, M.run as s = some t ∧ P t := by
  cases ht : M.run as s with
  | none =>
    rw [ht] at h
    cases h
  | some t =>
    rw [ht] at h
    exact ⟨t, rfl, of_decide_eq_true h⟩

theorem Along.append : ∀ {as bs : List α} {s t : σ}, M.Along ok (as ++ bs) s →
    M.run as s = some t → M.Along ok as s ∧ M.Along ok bs t
  | [], _, _, _, h, ht => by
    cases ht
    exact ⟨trivial, h⟩
  | a :: as, bs, s, t, h, ht => by
    obtain ⟨u, hu, hut⟩ := bind_eq_some_iff.1 ht
    have ih := Along.append (h.2 u hu) hut
    refine ⟨⟨h.1, fun u' hu' => ?_⟩, ih.2⟩
    rw [hu] at hu'
    cases hu'
    exact ih.1

theorem along_append : ∀ {as bs : List α} {s : σ}, M.Along ok as s →
    (∀ t, M.run as s = some t → M.Along ok bs t) → M.Along ok (as ++ bs) s
  | [], _, s, _, h' => h' s rfl
  | _ :: _, _, _, h, h' => ⟨h.1, fun t ht => along_append (h.2 t ht) fun u hu => h' u (by
      rw [run_cons, ht]
      exact hu)⟩

theorem Along.mono {ok' : σ → α → Prop} (hok : ∀ s a, ok s a → ok' s a) :
    ∀ {as : List α} {s : σ}, M.Along ok as s → M.Along ok' as s
  | [], _, _ => trivial
  | _ :: _, _, h => ⟨hok _ _ h.1, fun s' hs => (h.2 s' hs).mono hok⟩

theorem Along.and {ok' : σ → α → Prop} : ∀ {as : List α} {s : σ}, M.Along ok as s →
    M.Along ok' as s → M.Along (fun s a => ok s a ∧ ok' s a) as s
  | [], _, _, _ => trivial
  | _ :: _, _, h, h' => ⟨⟨h.1, h'.1⟩, fun s' hs => (h.2 s' hs).and (h'.2 s' hs)⟩

theorem along_true : ∀ (as : List α) (s : σ), M.Along (fun _ _ => True) as s
  | [], _ => trivial
  | _ :: as, _ => ⟨trivial, fun s' _ => along_true as s'⟩

theorem along_of_forall {P : α → Prop} : ∀ {as : List α}, (∀ a ∈ as, P a) →
    ∀ s : σ, M.Along (fun _ a => P a) as s
  | [], _, _ => trivial
  | _ :: _, h, _ => ⟨h _ mem_cons_self, fun s' _ =>
      along_of_forall (fun b hb => h b (mem_cons_of_mem _ hb)) s'⟩

theorem run_inv {I : σ → Prop}
    (hstep : ∀ s a s', I s → ok s a → M.step s a = some s' → I s') :
    ∀ {as : List α} {s s' : σ}, I s → M.Along ok as s → M.run as s = some s' → I s'
  | [], s, s', hI, _, h => by
    cases h
    exact hI
  | a :: as, s, s', hI, hok, h => by
    obtain ⟨t, ht, hts⟩ := bind_eq_some_iff.1 h
    exact run_inv hstep (hstep s a t hI hok.1 ht) (hok.2 t ht) hts

theorem run_trace_inv {I : List α → σ → Prop} {s0 : σ}
    (hstep : ∀ as s a s', M.run as s0 = some s → I as s → ok s a → M.step s a = some s' →
      I (as ++ [a]) s')
    (h0 : I [] s0) {as : List α} {s : σ} (hok : M.Along ok as s0) (h : M.run as s0 = some s) :
    I as s := by
  induction as using reverseRecOn generalizing s with
  | nil =>
    cases h
    exact h0
  | append_singleton as a ih =>
    obtain ⟨t, ht, hs⟩ := run_concat h
    obtain ⟨hok1, hok2⟩ := hok.append ht
    exact hstep as t a s ht (ih hok1 ht) hok2.1 hs

/-- The runs along a condition are those that stay in `P`, where each step stays exactly if it meets
it. -/
theorem along_iff_prefixes {I P : σ → Prop} (hI : ∀ s a s', I s → M.step s a = some s' → I s')
    (hP : ∀ s a s', I s → P s → M.step s a = some s' → (P s' ↔ ok s a)) :
    ∀ {as : List α} {s s' : σ}, I s → P s → M.run as s = some s' →
      (M.Along ok as s ↔ ∀ bs t, bs <+: as → M.run bs s = some t → P t)
  | [], s, s', _, hPs, _ => by
    refine iff_of_true trivial fun bs t hbs ht => ?_
    rw [prefix_nil.1 hbs] at ht
    cases ht
    exact hPs
  | a :: as, s, s', hIs, hPs, h => by
    obtain ⟨u, hu, hus⟩ := bind_eq_some_iff.1 h
    have hstep := hP s a u hIs hPs hu
    constructor
    · rintro ⟨hok, hrest⟩ bs t hbs ht
      cases bs with
      | nil =>
        cases ht
        exact hPs
      | cons b bs =>
        obtain ⟨rfl, hbs'⟩ := cons_prefix_cons.1 hbs
        rw [run_cons, hu] at ht
        exact (along_iff_prefixes hI hP (hI s b u hIs hu) (hstep.2 hok) hus).1 (hrest u hu) bs t
          hbs' ht
    · intro hall
      have hPu : P u := hall [a] u (by simp) (run_single hu)
      refine ⟨hstep.1 hPu, fun u' hu' => ?_⟩
      rw [hu] at hu'
      cases hu'
      refine (along_iff_prefixes hI hP (hI s a u hIs hu) hPu hus).2 fun bs t hbs ht => ?_
      refine hall (a :: bs) t (cons_prefix_cons.2 ⟨rfl, hbs⟩) ?_
      rw [run_cons, hu]
      exact ht

end Machine

import DeerFlow.Proofs.RowMoves

/-!
# Writing a status

What the tasks that move runs promise one another, kept by `set_status`, `cancel` and
`update_run_completion`: each captures a version against which its status fits the row, and still
does when the write lands.
-/

namespace DeerFlow

open Coop Coop.Contract RunStatus Option World Coro RunRecord

namespace Finality

variable {w w' : World} {ρ : ReplicaId} {r : RunId} {x x' : RunRecord} {y y' : RunRow}
  {st : RunStatus} {v : ℕ}

/-- What the others do to the state a task has seen: no record of a replica whose lock it holds
changes its status. -/
structure Relies (i : ℕ) (w w' : World) : Prop where
  moves : Moves w w'
  lock : ∀ ρ, (w.managers ρ).lock = some i → (w'.managers ρ).lock = some i
    ∧ (w'.managers ρ).runs = (w.managers ρ).runs
    ∧ ∀ r, (w'.record? ρ r).map status = (w.record? ρ r).map status

def Init (w : World) : Call → Prop
  | .createOrReject _ a => w.Unborn a.runId
  | .updateRunCompletion _ r st _ _ v => ∃ v', v = some v' ∧ Completes r st v' w
  | .persistInterrupted ρ r => w.Stored r ∧ ∃ x, w.record? ρ r = some x
  | .setStatus .. | .cancel .. | .reconcile .. | .shutdown .. => True
  | _ => False

def contract : Contract runSystem where
  inv := Inv
  rely := Relies
  refl _ w := ⟨.refl w, fun _ hl => ⟨hl, rfl, fun _ => rfl⟩⟩
  trans h h' := ⟨h.moves.trans h'.moves, fun ρ hl =>
    ⟨(h'.lock ρ (h.lock ρ hl).1).1, (h'.lock ρ (h.lock ρ hl).1).2.1.trans (h.lock ρ hl).2.1,
      fun r => ((h'.lock ρ (h.lock ρ hl).1).2.2 r).trans ((h.lock ρ hl).2.2 r)⟩⟩
  starts _ l' := ∃ ρ r, l' = .persistInterrupted ρ r
  init l w := Init w l
  hold _ l op w := Hold l w op
  held _ l op x w := op.isAcquire = true → (∃ z, x = .ok z) → ∀ r ∈ l.created, w.Unborn r
  post _ _ _ _ := True
  sect _ l w w' _ := w'.rows = w.rows
    ∧ ∀ ρ r, w.record? ρ r = none → w'.record? ρ r = none ∨ l.created = some r
  may _ l op o w := (op.isStore = true → Outcome.isRaised o = false)
    ∧ ∀ r ∈ op.overwrites?, MayOverwrite w l r
  mayResume _ _ _ _ _ _ := True

section Rules

variable {i : ℕ} {l : Call}  {b : Sect World runSig}

abbrev K (i : ℕ) (l : Call) (A : World → Prop) := contract.At i l A

theorem sect_refl (w : World) (o : Option Op) : contract.sect i l w w o :=
  ⟨rfl, fun _ _ h => .inl h⟩

theorem relies_of_managers (hm : Moves w w') (h : w'.managers = w.managers) (j : ℕ) :
    Relies j w w' := by
  refine ⟨hm, fun ρ hl => ⟨by rw [h]; exact hl, by rw [h], fun r => ?_⟩⟩
  rw [record_of_managers h]

theorem exec_not_exception {op : Op} {o : Outcome} {e : Exc} {w w' : World}
    (h : execOp i l op o w = some (w', .error e)) (ho : o.isRaised = false) :
    e.isException = false := by
  rcases execOp_cases h with ⟨a, y, -, -, hx⟩ | ⟨e', ap, rfl, -⟩ | ⟨-, -, -, hx⟩
  · cases hx
  · cases ho
  · cases hx
    rfl

theorem wp_await {op : Op} {Q : Except Exc op.Res → Sect World runSig → World → Prop}
    (A : World → Prop) (B : op.Res → World → Prop) (hlab : l.isTask = false)
    (ho : op.isAcquire = false) (h : K i l A b w) (hh : Hold l w op)
    (sA : ∀ w w', Relies i w w' → A w → A w')
    (hB : ∀ w w' a z, Inv w → A w → Hold l w op → op.effect i a w = some (w', z) → B z w')
    (sB : ∀ z w w', Relies i w w' → B z w → B z w')
    (hQ : ∀ z b w, K i l (fun w => A w ∧ B z w) b w → Q (.ok z) b w)
    (hE : ∀ e b w, (op.isStore → e.isException = false) → K i l A b w → Q (.error e) b w) :
    contract.wp i l (awaitOp op) Q b w := by
  refine wp_perform A (fun x w => A w ∧ match x with
    | .ok z => B z w
    | .error e => op.isStore → e.isException = false) (h.yields _) hh h.holds
    (fun w w' hr _ => sA w w' hr) ?_ ?_ ?_
  · intro w1 o w2 x hi hA hh ⟨hm, hov⟩ hx
    have hman := (execOp_leaves hlab hx).managers ho
    have hnot : ∀ e, x = .error e → op.isStore → e.isException = false := by
      rintro e rfl hs
      exact exec_not_exception hx (hm hs)
    have hkeep : Inv w2 ∧ Moves w1 w2 := by
      rcases execOp_effect hlab hx with rfl | ⟨a, y, h⟩
      · exact ⟨hi, .refl _⟩
      · exact effect_keeps hi ho hh hov h
    refine ⟨hkeep.1, fun j _ => relies_of_managers hkeep.2 hman j, fun h => by simp [ho] at h,
      sA w1 w2 (relies_of_managers hkeep.2 hman i) hA, ?_⟩
    rcases x with e | z
    · exact hnot e rfl
    · rcases execOp_cases hx with ⟨a, y, -, h, hy⟩ | ⟨e, ap, -, -, -, hy, -⟩ | ⟨-, -, -, hy⟩
      · cases hy
        exact hB w1 w2 a z hi hA hh h
      · cases hy
      · cases hy
  · rintro (e | z) w w' hr _ ⟨hA, hB⟩
    · exact ⟨sA w w' hr hA, hB⟩
    · exact ⟨sA w w' hr hA, sB z w w' hr hB⟩
  · rintro x w3 c w4 hi ⟨hA, hB⟩ _ _ hd
    change deliverOp l op x c w3 = some w4 at hd
    rw [deliverOp_of_not_acquire ho] at hd
    rw [Call.interrupt_of_not_task hlab hd]
    have hstart : K i l A ⟨w3, []⟩ w3 := at_start hi (sect_refl w3) hA
    cases c with
    | true => exact hE _ _ _ (fun _ => rfl) hstart
    | false =>
      rcases x with e | z
      · exact hE e _ _ hB hstart
      · exact hQ z _ _ (hstart.mono fun hA => ⟨hA, hB⟩)

theorem safe {A : World → Prop} {op : Op} (hlab : l.isTask = false) (ho : op.isAcquire = false)
    (hh : ∀ w, Inv w → A w → Hold l w op) (sA : ∀ w w', Relies i w w' → A w → A w') :
    contract.Safe i l (K i l A) op := fun _ _ h =>
  wp_await A (fun _ _ => True) hlab ho h (hh _ h.inv h.holds) sA (fun _ _ _ _ _ _ _ _ => trivial)
    (fun _ _ _ _ h => h) (fun _ _ _ h => h.mono And.left) fun _ _ _ _ h => h

end Rules

section Sections

variable {i : ℕ} {l : Call} {α : Type} {b : Sect World runSig} {A A' : World → Prop}
  {m : RunManager}

def Held (i : ℕ) (ρ : ReplicaId) (w : World) : Prop :=
  (w.managers ρ).lock = some i ∧ ∀ r ∈ (w.managers ρ).runs, w.Stored r

theorem Held.stable (h : Held i ρ w) (hr : Relies i w w') : Held i ρ w' := by
  obtain ⟨hl, hruns, -⟩ := hr.lock ρ h.1
  exact ⟨hl, fun r hr' => hr.moves.stored (h.2 r (hruns ▸ hr'))⟩

theorem init_started {l' : Call} (hs : contract.starts l l') (hm : Moves w w') (h : Init w l') :
    Init w' l' := by
  obtain ⟨ρ, r, rfl⟩ := hs
  obtain ⟨hst, x, hx⟩ := h
  obtain ⟨x', hx', -⟩ := hm.records ρ r x hx
  exact ⟨hm.stored hst, x', hx'⟩

theorem at_move (h : K i l A b w) (hk : Inv w' ∧ Moves w w') (hrows : w'.rows = w.rows)
    (hborn : ∀ ρ r, w.record? ρ r = none → w'.record? ρ r = none ∨ l.created = some r)
    (hlock : ∀ j, j ≠ i → ∀ ρ, (w.managers ρ).lock = some j → (w'.managers ρ).lock = some j
      ∧ (w'.managers ρ).runs = (w.managers ρ).runs
      ∧ ∀ r, (w'.record? ρ r).map status = (w.record? ρ r).map status)
    (hA : A' w') : K i l A' b w' := by
  refine ⟨hk.1, fun j hj => contract.trans (h.2.1 j hj) ⟨hk.2, hlock j hj⟩,
    fun l' hl => ⟨(h.2.2.1 l' hl).1, init_started (h.2.2.1 l' hl).1 hk.2 (h.2.2.1 l' hl).2⟩,
    fun o => ⟨hrows.trans (h.2.2.2.1 o).1, fun ρ r hr => ?_⟩, hA⟩
  rcases (h.2.2.2.1 o).2 ρ r hr with hr | hr
  · exact hborn ρ r hr
  · exact .inr hr

theorem at_setManager (h : K i l A b w) (hl : (w.managers ρ).lock = some i)
    (hk : Inv (w.setManager ρ m) ∧ Moves w (w.setManager ρ m))
    (hborn : ∀ r, w.record? ρ r = none → m.heap r = none ∨ l.created = some r)
    (hA : A' (w.setManager ρ m)) : K i l A' b (w.setManager ρ m) := by
  refine at_move h hk rfl (fun ρ' r hr => ?_) (fun j hj ρ' hl' => ?_) hA
  · rw [record_setManager]
    split_ifs with hρ
    · exact hborn r (hρ ▸ hr)
    · exact .inl hr
  · have hρ : ρ' ≠ ρ := by
      rintro rfl
      rw [hl] at hl'
      exact hj (some.inj hl').symm
    refine ⟨by rw [setManager_of_ne _ _ _ _ hρ]; exact hl',
      by rw [setManager_of_ne _ _ _ _ hρ], fun r => ?_⟩
    rw [record_setManager, if_neg hρ]

theorem at_unlock (h : K i l A b w) (hh : Held i ρ w) (hA : A' (w.unlock ρ)) :
    K i l A' b (w.unlock ρ) :=
  at_setManager h hh.1 (keeps_setManager h.inv rfl rfl fun _ => hh.2) (fun _ hr => .inl hr) hA

theorem moves_unlock : Moves w (w.unlock ρ) := moves_setManager fun _ x hx => ⟨x, hx, .refl _⟩

theorem wp_locked {p : Co α} {Q : Except Exc α → Sect World runSig → World → Prop}
    (A : World → Prop) (R : Except Exc α → World → Prop) (hlab : l.isTask = false)
    (h : K i l A b w) (hu : ∀ r ∈ l.created, w.Unborn r)
    (sA : ∀ w w', Relies i w w' → A w → A w') (uA : ∀ w, A w → A (w.unlock ρ))
    (hp : ∀ w, K i l (fun w => Held i ρ w ∧ A w) ⟨w, []⟩ w → (∀ r ∈ l.created, w.Unborn r) →
      contract.wp i l p (fun x => K i l fun w => Held i ρ w ∧ R x (w.unlock ρ)) ⟨w, []⟩ w)
    (hQ : ∀ x b w, K i l (R x) b w → Q x b w)
    (hc : ∀ b w, K i l A b w → Q (.error .cancelled) b w) :
    contract.wp i l (withLock ρ p) Q b w := by
  refine wp_withLock A (fun w => Held i ρ w ∧ A w) hlab (h.yields _) hu h.holds
    (fun w w' hr _ => sA w w' hr) ?_ (fun _ _ h => by obtain ⟨z, hz⟩ := h; cases hz)
    (fun w w' hr _ h => ⟨h.1.stable hr, sA w w' hr h.2⟩) ?_ ?_ ?_
  · intro w hi hA hu hl
    have hk : Inv (w.lockBy ρ i) ∧ Moves w (w.lockBy ρ i) := keeps_setManager hi rfl rfl nofun
    have hrel : ∀ j, Relies j w (w.lockBy ρ i) := by
      refine fun j => ⟨hk.2, fun ρ' hl' => ?_⟩
      have hρ : ρ' ≠ ρ := by
        rintro rfl
        rw [hl] at hl'
        cases hl'
      refine ⟨?_, ?_, fun r => ?_⟩
      · rw [lockBy, setManager_of_ne _ _ _ _ hρ]
        exact hl'
      · rw [lockBy, setManager_of_ne _ _ _ _ hρ]
      · rw [lockBy, record_setManager, if_neg hρ]
    refine ⟨hk.1, fun j _ => hrel j, fun _ _ r hr => ?_, ⟨?_, fun r hr => ?_⟩, sA w _ (hrel i) hA⟩
    · refine ⟨(hu r hr).1, fun ρ' => ?_⟩
      rw [lockBy, record_setManager]
      split_ifs with hρ
      · exact hρ ▸ (hu r hr).2 ρ'
      · exact (hu r hr).2 ρ'
    · simp [lockBy]
    · rw [lockBy, setManager_self] at hr
      exact hi.stored ρ hl r hr
  · intro w hi hI hun
    refine wp_mono ?_ _ _ _ (hp w (at_start hi (sect_refl w) hI) (hun rfl ⟨_, rfl⟩))
    intro x b w h
    exact hQ x b _ (at_unlock h h.holds.1 h.holds.2)
  · exact fun w hi hA => hc _ _ (at_start hi (sect_refl w) hA)
  · exact fun w hi hI => hc _ _ (at_unlock (A := fun _ => True) (at_start hi (sect_refl w) trivial)
      hI.1 (uA w hI.2))

theorem relies_mapHeap {f : RunId → RunRecord → RunRecord}
    (hm : Moves w (w.setManager ρ ((w.managers ρ).mapHeap f)))
    (hs : ∀ r x, w.record? ρ r = some x → (f r x).status = x.status) (j : ℕ) :
    Relies j w (w.setManager ρ ((w.managers ρ).mapHeap f)) := by
  refine ⟨hm, fun ρ' hl => ?_⟩
  by_cases hρ : ρ' = ρ
  · subst hρ
    refine ⟨by rw [setManager_self]; exact hl, by rw [setManager_self]; rfl, fun r => ?_⟩
    rw [record_setManager, if_pos rfl]
    change Option.map _ (Option.map _ (w.record? ρ' r)) = _
    cases hx : w.record? ρ' r with
    | none => rfl
    | some x => exact congrArg some (hs r x hx)
  · refine ⟨by rw [setManager_of_ne _ _ _ _ hρ]; exact hl,
      by rw [setManager_of_ne _ _ _ _ hρ], fun r => ?_⟩
    rw [record_setManager, if_neg hρ]

theorem at_mapHeap {f : RunId → RunRecord → RunRecord} (h : K i l A b w)
    (hl : (w.managers ρ).lock = some i ∨ ∀ r x, w.record? ρ r = some x → (f r x).status = x.status)
    (hk : Inv (w.setManager ρ ((w.managers ρ).mapHeap f))
      ∧ Moves w (w.setManager ρ ((w.managers ρ).mapHeap f)))
    (hA : A' (w.setManager ρ ((w.managers ρ).mapHeap f))) :
    K i l A' b (w.setManager ρ ((w.managers ρ).mapHeap f)) := by
  have hborn : ∀ r, w.record? ρ r = none → ((w.managers ρ).mapHeap f).heap r = none :=
    fun r hr => map_eq_none_iff.2 hr
  rcases hl with hl | hs
  · exact at_setManager h hl hk (fun r hr => .inl (hborn r hr)) hA
  · refine at_move h hk rfl (fun ρ' r hr => .inl ?_)
      (fun j _ => (relies_mapHeap hk.2 hs j).lock) hA
    rw [record_setManager]
    split_ifs with hρ
    · exact hborn r (hρ ▸ hr)
    · exact hr

end Sections

section Persistence

variable {i : ℕ} {l : Call} {b : Sect World runSig} {A : World → Prop} {e : Option String}

theorem cas_lands {a : Answer} {z : Bool}
    (he : (Op.updateStatus r st e (some v)).effect i a w = some (w', z)) (hz : z) :
    (∀ ρ r, w'.record? ρ r = w.record? ρ r)
      ∧ ∃ y, w'.row? r = some y ∧ y.status = st ∧ y.rowVersion = v + 1 := by
  refine ⟨fun ρ r => Op.effect_record he ρ r, ?_⟩
  cases a <;> simp only [Op.effect, some.injEq, reduceCtorEq] at he
  rw [updateStatus] at he
  split at he
  · cases he
    cases hz
  · rename_i y hy
    cases he
    obtain ⟨-, rfl⟩ := (w.matchRow_some r).1 hy
    exact ⟨_, setRow_self _ _ _, rfl, rfl⟩

theorem wp_persistCas {pl : PutPayload} {mirror : ℕ → Co Unit} (L : World → Prop)
    (hlab : l.isTask = false) (h : K i l A b w) (hh : ∃ y, w.row? r = some y ∧ y.Fits st v)
    (sA : ∀ w w', Relies i w w' → A w → A w') (hA : ∀ w, A w → w.Stored r)
    (hL : ∀ w w', Inv w → A w → (∀ ρ r, w'.record? ρ r = w.record? ρ r) →
      (∃ y, w'.row? r = some y ∧ y.status = st ∧ y.rowVersion = v + 1) → L w')
    (sL : ∀ w w', Relies i w w' → L w → L w')
    (hm : ∀ b w, K i l (fun w => A w ∧ L w) b w →
      contract.wp i l (mirror (v + 1)) (fun _ => K i l A) b w) :
    contract.wp i l (persistStatus ρ r pl st e (some v) mirror) (fun _ => K i l A) b w := by
  simp only [persistStatus, getManager, bind_eq, wp_bind, wp_get, wp_ret, andThen, pure_eq,
    h.inv.hasStore ρ, Bool.not_true, Bool.false_eq_true, if_false]
  refine wp_orReturn ?_
  rw [wp_bind]
  refine wp_storeCall (wp_await A (fun z w => z → L w) hlab rfl h hh sA ?_ ?_ ?_ ?_)
  · intro w1 w2 a z hi hA1 _ he hz
    obtain ⟨hrec, hrow⟩ := cas_lands he hz
    exact hL w1 w2 hi hA1 hrec hrow
  · exact fun z w w' hr h hz => sL w w' hr (h hz)
  · intro z b w h
    refine ⟨?_, by rintro _ ⟨⟩⟩
    dsimp only [andThen]
    cases z with
    | false =>
      refine wp_await A (fun z _ => z ≠ none) hlab rfl (h.mono And.left) trivial sA ?_
        (fun _ _ _ _ h => h) ?_ ?_
      · intro w1 w2 a z _ hA1 _ he
        cases a <;> simp only [Op.effect, some.injEq, reduceCtorEq] at he
        cases he
        obtain ⟨y, hy⟩ := hA w1 hA1
        simp [hy]
      · rintro (_ | z) b w h
        · exact absurd rfl h.holds.2
        · exact fun y hy => h.mono And.left
      · exact fun e b w _ h y hy => h
    | true =>
      simp only [Bool.not_true, Bool.false_eq_true, if_false]
      rw [wp_bind]
      refine wp_mono (fun x b w h => ?_) _ _ _ (hm b w (h.mono fun h => ⟨h.1, h.2 rfl⟩))
      rcases x with e | u <;> exact fun y hy => h
  · exact fun e b w he h => ⟨fun y hy => h, fun e' he' => by cases he'; exact he rfl⟩

def Past (ρ : ReplicaId) (r : RunId) (st : RunStatus) (w : World) : Prop :=
  w.Stored r ∧ ∃ x, w.record? ρ r = some x ∧ Legal st x.status

theorem Past.stable (h : Past ρ r st w) (hm : Moves w w') : Past ρ r st w' := by
  obtain ⟨hs, x, hx, hl⟩ := h
  obtain ⟨x', hx', hl'⟩ := hm.records ρ r x hx
  exact ⟨hm.stored hs, x', hx', hl.trans hl'⟩

theorem wp_persistRecordCas (hlab : l.isTask = false) (h : K i l (Past ρ r st) b w)
    (hh : ∃ y, w.row? r = some y ∧ y.Fits st v) :
    contract.wp i l (persistRecordStatus ρ r st e (some v)) (fun _ => K i l fun _ => True) b w := by
  obtain ⟨-, x, hx, -⟩ := h.holds
  simp only [persistRecordStatus, bind_eq, wp_bind, wp_get, andThen, hx]
  refine wp_mono (fun _ _ _ h => h.mono fun _ => trivial) _ _ _ (wp_persistCas
    (fun w => ∃ x y, w.record? ρ r = some x ∧ w.row? r = some y ∧ y.Fits x.status (v + 1)) hlab h hh
    (fun w w' hr h => h.stable hr.moves) (fun w h => h.1) ?_ ?_ ?_)
  · rintro w1 w2 hi ⟨-, x, hx, hl⟩ hrec ⟨y, hy, hs, hv⟩
    exact ⟨x, y, (hrec ρ r).trans hx, hy, hv.ge, fun _ _ => hs ▸ hl⟩
  · rintro w1 w2 hr ⟨x, y, hx, hy, hf⟩
    obtain ⟨x', hx', -⟩ := hr.moves.records ρ r x hx
    obtain ⟨y', hy', -⟩ := hr.moves.rows r y hy
    exact ⟨x', y', hx', hy', hr.moves.fits_record hy hy' hx hx' hf⟩
  · intro b w h
    obtain ⟨hpast, x, y, hx, hy, hf⟩ := h.holds
    rw [mirrorRowVersion, wp_modify]
    have hk := keeps_mirror (ρ := ρ) (v := v + 1) h.inv ⟨y, hy⟩ fun x' y' hx' hy' => (by
      rw [hx] at hx'
      rw [hy] at hy'
      cases hx'
      cases hy'
      exact hf)
    have hpast' := hpast.stable hk.2
    rw [updateRecord_eq] at hk hpast' ⊢
    refine at_mapHeap h (.inr fun r' z _ => ?_) hk hpast'
    split_ifs <;> rfl

theorem wp_persistInterrupted (hlab : l.isTask = false) (hρ : l.replica? = some ρ) (h : K i l A b w)
    (sA : ∀ w w', Relies i w w' → A w → A w')
    (hA : ∀ w, A w → w.Stored r ∧ ∃ x, w.record? ρ r = some x) :
    contract.wp i l (persistInterrupted ρ r) (fun _ => K i l A) b w := by
  obtain ⟨-, x, hx⟩ := hA w h.holds
  simp only [persistInterrupted, persistRecordStatus, persistStatus, getManager, bind_eq,
    wp_bind, wp_get, wp_ret, andThen, pure_eq, hx, h.inv.hasStore ρ, Bool.not_true,
    Bool.false_eq_true, if_false]
  refine wp_orReturn ?_
  rw [wp_bind]
  have hhold : ∀ w, A w → Hold l w (.updateStatus r .interrupted none none) := by
    intro w h
    obtain ⟨hs, x, hx⟩ := hA w h
    exact ⟨rfl, hs, ρ, x, hρ, hx⟩
  refine wp_storeCall (wp_await A (fun z _ => z) hlab rfl h (hhold w h.holds) sA ?_
    (fun _ _ _ _ h => h) ?_ ?_)
  · intro w1 w2 a z _ hA1 _ he
    cases a <;> simp only [Op.effect, some.injEq, reduceCtorEq] at he
    obtain ⟨⟨y, hy⟩, -⟩ := hA w1 hA1
    rw [updateStatus, (w1.matchRow_none r).2 hy] at he
    cases he
    rfl
  · intro z b w h
    refine ⟨?_, by rintro _ ⟨⟩⟩
    have hz : z := h.holds.2
    subst hz
    rintro y (rfl | ⟨⟨e, he, -⟩, -⟩)
    · exact h.mono And.left
    · cases he
  · rintro e b w he h
    refine ⟨?_, fun e' he' => by cases he'; exact he rfl⟩
    rintro (e' | y) (hy | ⟨-, hy⟩)
    · exact h
    · cases hy
    · cases hy
    · exact h

end Persistence

section Calls

variable {i : ℕ} {l : Call} {b : Sect World runSig} {A : World → Prop} {e : Option String}

abbrev Free (i : ℕ) (l : Call) := K i l fun _ => True

theorem free_of (h : K i l A b w) : Free i l b w := At.mono h fun _ => trivial

theorem free_start (hi : Inv w) : Free i l ⟨w, []⟩ w := at_start hi (sect_refl w) trivial

def Due (ρ : ReplicaId) (r : RunId) (st : RunStatus) (v : ℕ) (w : World) : Prop :=
  Past ρ r st w ∧ ∃ y, w.row? r = some y ∧ y.Fits st v

theorem held_mapHeap {f : RunId → RunRecord → RunRecord} (h : Held i ρ w) :
    Held i ρ (w.setManager ρ ((w.managers ρ).mapHeap f)) := by
  refine ⟨?_, fun r hr => ?_⟩
  · rw [setManager_self]
    exact h.1
  · rw [setManager_self] at hr
    exact h.2 r hr

theorem at_status {f : RunRecord → RunRecord} (h : K i l A b w) (hh : Held i ρ w)
    (hx : (w.managers ρ).get? r = some x) (hid : ∀ x, (f x).runId = x.runId)
    (hv : ∀ x, (f x).rowVersion = x.rowVersion) (hs : (f x).status = st) (hl : Legal x.status st) :
    K i l (fun w => Held i ρ w ∧ Due ρ r st x.rowVersion (w.unlock ρ)) b
      (w.updateRecord ρ r f) := by
  subst hs
  have hx' : w.record? ρ r = some x := RunManager.heap_of_get hx
  have hr : r ∈ (w.managers ρ).runs := by
    unfold RunManager.get? at hx
    split_ifs at hx with hr
    exact hr
  obtain ⟨y, hy⟩ := hh.2 r hr
  have hf := h.inv.fits ρ r x y hx' hy
  have hk := keeps_updateStatus h.inv hx' ⟨y, hy⟩ hid hv hl
  have hdue : Due ρ r (f x).status x.rowVersion ((w.updateRecord ρ r f).unlock ρ) := by
    refine ⟨⟨⟨y, hy⟩, f x, by simp [hx'], .refl _⟩, y, hy, hf.1, fun he ht => (hf.2 he ht).trans hl⟩
  rw [updateRecord_eq] at hk hdue ⊢
  exact at_mapHeap h (.inl hh.1) hk ⟨held_mapHeap hh, hdue⟩

theorem wp_setStatusLocked (h : K i l (fun w => Held i ρ w ∧ True) b w) :
    contract.wp i l (setStatusLocked ρ r st e) (fun x => K i l fun w =>
      Held i ρ w ∧ ∀ v, x = .ok (some v) → Due ρ r st v (w.unlock ρ)) b w := by
  have hno : ∀ x : Except Exc (Option ℕ), (∀ v, x ≠ .ok (some v)) → K i l (fun w =>
      Held i ρ w ∧ ∀ v, x = .ok (some v) → Due ρ r st v (w.unlock ρ)) b w := fun x hx =>
    h.mono fun h => ⟨h.1, fun v hv => absurd hv (hx v)⟩
  simp only [setStatusLocked, bind_eq, wp_bind, wp_get, andThen]
  split
  · exact hno (.ok none) (by simp)
  · rename_i x hx
    split
    · exact hno (.error _) (by simp)
    · rename_i hok
      simp only [wp_bind, wp_modify, andThen, pure_eq, wp_ret]
      refine At.mono (A := fun w => Held i ρ w ∧ Due ρ r st x.rowVersion (w.unlock ρ)) ?_ ?_
      · exact at_status h h.holds.1 hx (fun _ => rfl) (fun _ => rfl) rfl
          (assertRunTransition_ok.1 hok)
      · rintro ⟨hh, hdue⟩
        refine ⟨hh, ?_⟩
        rintro v ⟨⟩
        exact hdue

theorem wp_setStatus (hlab : l.isTask = false) (hc : l.created = none) (h : Free i l b w) :
    contract.wp i l (setStatus ρ r st e) (fun _ => Free i l) b w := by
  rw [setStatus, bind_eq, wp_bind]
  refine wp_locked (fun _ => True) (fun x w => ∀ v, x = .ok (some v) → Due ρ r st v w) hlab h
    (by simp [hc]) (fun _ _ _ h => h) (fun _ h => h) (fun w h _ => wp_setStatusLocked h) ?_
    fun b w h => h
  rintro (e | _ | v) b w h
  · exact free_of h
  · exact free_of h
  · dsimp only [andThen]
    rw [bind_eq, wp_bind]
    refine wp_mono ?_ _ _ _ (wp_persistRecordCas hlab (At.mono h fun h => (h v rfl).1)
      (h.holds v rfl).2)
    rintro (e | u) b w h
    · exact h
    · exact wp_locked (fun _ => True) (fun _ _ => True) hlab h (by simp [hc]) (fun _ _ _ h => h)
        (fun _ h => h) (fun w h _ => h) (fun _ _ _ h => h) fun _ _ h => h

theorem safe_free {op : Op} (hlab : l.isTask = false) (ho : op.isAcquire = false)
    (hh : ∀ w, Hold l w op) : contract.Safe i l (Free i l) op :=
  safe hlab ho (fun w _ _ => hh w) fun _ _ _ h => h

theorem wp_cancelLocked {action : String} (hlab : l.isTask = false)
    (h : K i l (fun w => Held i ρ w ∧ True) b w) :
    contract.wp i l (cancelLocked ρ r action) (fun x => K i l fun w =>
      Held i ρ w ∧ ∀ v, x = .ok (.inr v) → Due ρ r .interrupted v (w.unlock ρ)) b w := by
  have hno : ∀ (x : Except Exc (Bool ⊕ ℕ)) b w, (∀ v, x ≠ .ok (.inr v)) →
      K i l (fun w => Held i ρ w ∧ True) b w → K i l (fun w =>
        Held i ρ w ∧ ∀ v, x = .ok (.inr v) → Due ρ r .interrupted v (w.unlock ρ)) b w :=
    fun x b w hx h => h.mono fun h => ⟨h.1, fun v hv => absurd hv (hx v)⟩
  have hsafe : ∀ op : Op, op.isAcquire = false → (∀ w, Hold l w op) →
      contract.Safe i l (K i l fun w => Held i ρ w ∧ True) op := fun op ho hh =>
    safe hlab ho (fun w _ _ => hh w) fun _ _ hr h => ⟨h.1.stable hr, trivial⟩
  simp only [cancelLocked, bind_eq, wp_bind, wp_get, andThen]
  split
  · split_ifs
    · exact hno (.ok (.inl false)) b w (by simp) h
    · rw [wp_bind]
      refine wp_of_keeps (keeps_perform (hsafe _ rfl fun _ => trivial)) h ?_
      rintro (e | persisted) b w h
      · exact hno (.error e) b w (by simp) h
      · dsimp only [andThen]
        split_ifs
        · rw [wp_bind]
          refine wp_of_keeps (keeps_publishCancelNotify (hsafe _ rfl fun _ => trivial)) h ?_
          rintro (e | u) b w h
          · exact hno (.error e) b w (by simp) h
          · exact hno (.ok (.inl true)) b w (by simp) h
        · rw [wp_bind]
          refine wp_of_keeps (keeps_perform (hsafe _ rfl fun _ => trivial)) h ?_
          rintro (e | intent) b w h
          · exact hno (.error e) b w (by simp) h
          · dsimp only [andThen]
            split <;> exact hno (.ok (.inl _)) b w (by simp) h
  · rename_i x hx
    split_ifs with h1 h2
    · exact hno (.ok (.inl true)) b w (by simp) h
    · exact hno (.ok (.inl false)) b w (by simp) h
    · split
      · exact hno (.error _) b w (by simp) h
      · rename_i hok
        simp only [wp_bind, wp_modify, andThen, pure_eq, wp_ret]
        refine At.mono (A := fun w => Held i ρ w ∧ Due ρ r .interrupted x.rowVersion (w.unlock ρ)) ?_ ?_
        · exact at_status h h.holds.1 hx (fun _ => rfl) (fun _ => rfl) rfl
            (assertRunTransition_ok.1 hok)
        · rintro ⟨hh, hdue⟩
          refine ⟨hh, ?_⟩
          rintro v ⟨⟩
          exact hdue

theorem wp_cancel {action : String} (hlab : l.isTask = false) (hc : l.created = none)
    (h : Free i l b w) :
    contract.wp i l (cancel ρ r action) (fun _ => Free i l) b w := by
  rw [cancel, bind_eq, wp_bind]
  refine wp_locked (fun _ => True) (fun x w => ∀ v, x = .ok (.inr v) → Due ρ r .interrupted v w) hlab h
    (by simp [hc]) (fun _ _ _ h => h) (fun _ h => h) (fun w h _ => wp_cancelLocked hlab h) ?_
    fun b w h => h
  rintro (e | a | v) b w h
  · exact free_of h
  · exact free_of h
  · dsimp only [andThen]
    rw [bind_eq, wp_bind]
    refine wp_mono ?_ _ _ _ (wp_persistRecordCas hlab (At.mono h fun h => (h v rfl).1)
      (h.holds v rfl).2)
    rintro (e | u) b w h
    · exact h
    · have hnotify : contract.Keeps i l (Free i l)
          (publishCancelNotify ρ r action >>= fun _ => (pure true : Co Bool)) :=
        keeps_bind (keeps_publishCancelNotify (safe_free hlab rfl fun _ => trivial)) fun _ =>
          keeps_pure _
      refine keeps_getManager_bind (fun m => ?_) b w h
      split_ifs
      · exact keeps_bind (keeps_orReturn (keeps_bind (keeps_perform
          (safe_free hlab rfl fun _ => trivial)) fun _ => keeps_pure _)) fun _ => hnotify
      · exact hnotify

theorem at_sameStatus {f : RunRecord → RunRecord} (h : K i l A b w) (hh : Held i ρ w)
    (hid : ∀ x, (f x).runId = x.runId) (hs : ∀ x, (f x).status = x.status)
    (hv : ∀ x, (f x).rowVersion = x.rowVersion) (hA : ∀ w', Moves w w' → A w') :
    K i l (fun w => Held i ρ w ∧ A w) b (w.updateRecord ρ r f) := by
  have hk := keeps_sameStatus (ρ := ρ) (r := r) h.inv hid hs hv
  rw [updateRecord_eq] at hk ⊢
  exact at_mapHeap h (.inl hh.1) hk ⟨held_mapHeap hh, hA _ hk.2⟩

theorem wp_updateRunCompletion {c : Completion} (hlab : l.isTask = false) (hc : l.created = none)
    (h : K i l (Completes r st v) b w) :
    contract.wp i l (updateRunCompletion ρ r st c e (some v)) (fun _ => Free i l) b w := by
  rw [updateRunCompletion, bind_eq, wp_bind]
  refine wp_locked (Completes r st v) (fun _ => Completes r st v) hlab h (by simp [hc])
    (fun _ _ hr h => h.stable hr.moves) (fun _ h => h.stable moves_unlock) ?_ ?_ ?_
  · intro w h _
    have hend : ∀ w, Held i ρ w ∧ Completes r st v w →
        Held i ρ w ∧ Completes r st v (w.unlock ρ) := fun w h => ⟨h.1, h.2.stable moves_unlock⟩
    simp only [bind_eq, wp_bind, wp_get, andThen]
    split
    · simp only [pure_eq, wp_ret]
      exact h.mono (hend w)
    · simp only [wp_bind, wp_modify, wp_get, andThen, pure_eq, wp_ret]
      have hcomp := h.holds.2
      refine At.mono (A := fun w => Held i ρ w ∧ Completes r st v w) ?_ (hend _)
      exact at_sameStatus (h.mono And.right) h.holds.1 (fun _ => rfl) (fun _ => rfl) (fun _ => rfl)
        fun w' hm => hcomp.stable hm
  · rintro (e' | payload) b w h
    · exact free_of h
    · simp only [getManager, bind_eq, wp_bind, wp_get, wp_ret, andThen, pure_eq,
        h.inv.hasStore ρ, Bool.not_true, Bool.false_eq_true, if_false]
      refine wp_orReturn ?_
      rw [wp_bind]
      refine wp_storeCall (wp_await (Completes r st v) (fun _ _ => True) hlab rfl h
        ⟨v, rfl, h.holds⟩ (fun _ _ hr h => h.stable hr.moves) (fun _ _ _ _ _ _ _ _ => trivial)
        (fun _ _ _ _ h => h) ?_ ?_)
      · intro z b w h
        refine ⟨?_, by rintro _ ⟨⟩⟩
        simp only [isSome_some, Bool.or_true, if_true]
        intro y hy
        exact h.mono fun _ => trivial
      · exact fun e b w he h =>
          ⟨fun y hy => h.mono fun _ => trivial, fun e' he' => by cases he'; exact he rfl⟩
  · exact fun _ _ => free_of

end Calls

end Finality

end DeerFlow

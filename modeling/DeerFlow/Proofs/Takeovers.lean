import DeerFlow.Proofs.StatusWrites

/-!
# Taking runs over

`reconcile_orphaned_inflight_runs`, `shutdown` and `create_or_reject` end runs they did not start:
the first with a compare-and-set, the others by an overwrite.
-/

namespace DeerFlow

open List Option Coop Coop.Contract RunStatus RunManager Coro World

namespace Finality

variable {w w' : World} {ρ : ReplicaId} {r : RunId} {x x' : RunRecord} {y y' : RunRow}
  {st : RunStatus} {v : ℕ}

section Calls

variable {i : ℕ} {l : Call} {b : Sect World runSig} {A : World → Prop} {e : Option String}
  {rs : List RunId}

def Reclaimable (x : RunRow) (w : World) : Prop :=
  ∃ y, w.row? x.runId = some y ∧ y.Fits .error x.rowVersion

theorem Reclaimable.stable {x : RunRow} (h : Reclaimable x w) (hm : Moves w w') :
    Reclaimable x w' := by
  obtain ⟨y, hy, hf⟩ := h
  obtain ⟨y', hy', -⟩ := hm.rows _ y hy
  exact ⟨y', hy', hm.fits hy hy' hf fun _ _ _ _ => by decide⟩

theorem reclaimable_of_listed {x : RunRow} {before : Option ℕ} (hi : Inv w)
    (h : x ∈ w.listInflight before) : Reclaimable x w := by
  unfold listInflight at h
  rw [mem_insertionSort, mem_filter] at h
  obtain ⟨hv, hs⟩ := h
  obtain ⟨r, hr⟩ := OrdDict.mem_values_iff.1 hv
  have hr : w.row? r = some x := hr
  refine ⟨x, by rw [hi.keyed r x hr]; exact hr, le_rfl, fun _ ht => ?_⟩
  rw [isTerminal_iff] at ht
  simp [ht] at hs

def AllReclaimable (rows : List RunRow) (w : World) : Prop := ∀ x ∈ rows, Reclaimable x w

theorem AllReclaimable.stable {rows : List RunRow} (h : AllReclaimable rows w) (hm : Moves w w') :
    AllReclaimable rows w' := fun x hx => (h x hx).stable hm

section Sweep

variable {rows : List RunRow} {error : String} {events : Bool} {lease : LeaseBackend}

abbrev Sweeping (i : ℕ) (l : Call) (rows : List RunRow) := K i l (AllReclaimable rows)

theorem safe_sweeping {op : Op} (hlab : l.isTask = false) (ho : op.isAcquire = false)
    (hh : ∀ w, Hold l w op) : contract.Safe i l (Sweeping i l rows) op :=
  safe hlab ho (fun w _ _ => hh w) fun _ _ hr h => h.stable hr.moves

theorem keeps_leaseOutcome (hlab : l.isTask = false) :
    contract.Keeps i l (Sweeping i l rows) (leaseOutcome lease x) := by
  cases lease with
  | null => exact keeps_pure _
  | redis =>
    refine keeps_orReturn (keeps_bind (keeps_bind (keeps_ofExcept _) fun key =>
      keeps_perform (safe_sweeping hlab rfl fun _ => trivial)) fun holder => ?_)
    refine keeps_get_bind fun b w h => ?_
    cases holder with
    | none => exact h
    | some c =>
      dsimp only
      split_ifs <;> exact h

theorem keeps_reclaim {row : RunRow} {label : String} (hlab : l.isTask = false)
    (hc : l.created = none) (hrow : row ∈ rows) :
    contract.Keeps i l (Sweeping i l rows) (reclaim ρ error events row.recordFromStore label) := by
  intro b w h
  rw [reclaim, bind_eq, wp_bind]
  refine wp_locked (AllReclaimable rows) (fun _ => AllReclaimable rows) hlab h (by simp [hc])
    (fun _ _ hr h => h.stable hr.moves) (fun _ h => h.stable moves_unlock) ?_ ?_ fun _ _ h => h
  · intro w h _
    simp only [getManager, bind_eq, wp_bind, wp_get, wp_ret, andThen, pure_eq]
    exact h.mono fun h => ⟨h.1, h.2.stable moves_unlock⟩
  · rintro (e | live) b w h
    · exact h
    · dsimp only [andThen]
      cases live with
      | true => exact h
      | false =>
        simp only [Bool.false_eq_true, if_false]
        rw [bind_eq, wp_bind]
        refine wp_mono ?_ _ _ _ (wp_persistCas (fun _ => True) hlab h (h.holds row hrow)
          (fun _ _ hr h => h.stable hr.moves) (fun w h => ?_) (fun _ _ _ _ _ _ => trivial)
          (fun _ _ _ h => h) fun _ _ h => h.mono And.left)
        · rintro (e | persisted) b w h
          · exact h
          · dsimp only [andThen]
            cases persisted with
            | false => exact h
            | true =>
              simp only [Bool.not_true, Bool.false_eq_true, if_false]
              have hevent : contract.Safe i l (Sweeping i l rows) (.putEvent row.runId label error) :=
                safe_sweeping hlab rfl fun _ => trivial
              split_ifs
              · exact keeps_bind (keeps_orReturn (keeps_perform hevent)) (fun _ => keeps_pure _) b w h
              · exact h
        · obtain ⟨y, hy, -⟩ := h row hrow
          exact ⟨y, hy⟩

theorem keeps_reconcileRows (hlab : l.isTask = false) (hc : l.created = none) :
    ∀ (rest : List RunRow) (done : List RunId), rest ⊆ rows →
      contract.Keeps i l (Sweeping i l rows) (reconcileRows ρ error lease events rest done)
  | [], _, _ => keeps_pure _
  | row :: rest, done, hsub => by
    refine keeps_bind ?_ fun _ =>
      keeps_reconcileRows hlab hc rest _ fun x hx => hsub (mem_cons_of_mem row hx)
    unfold reconcileRow
    dsimp only
    split_ifs
    · exact keeps_pure _
    · refine keeps_bind (keeps_leaseOutcome hlab) fun outcome => ?_
      cases outcome with
      | none => exact keeps_pure _
      | some label => exact keeps_reclaim hlab hc (hsub mem_cons_self)

theorem wp_reconcile {before : Option ℕ} (hlab : l.isTask = false) (hc : l.created = none)
    (h : Free i l b w) :
    contract.wp i l (reconcileOrphanedInflightRuns ρ error before lease events)
      (fun _ => Free i l) b w := by
  simp only [reconcileOrphanedInflightRuns, getManager, bind_eq, wp_bind, wp_get, wp_ret,
    andThen, pure_eq, h.inv.hasStore ρ, Bool.not_true, Bool.false_eq_true, if_false]
  have hrows : ∀ rows b w, Sweeping i l rows b w →
      contract.wp i l (reconcileRows ρ error lease events rows []) (fun _ => Free i l) b w :=
    fun rows b w h => wp_of_keeps (keeps_reconcileRows hlab hc rows [] fun _ h => h) h
      fun _ _ _ h => h.mono fun _ => trivial
  refine wp_orReturn (wp_storeCall (wp_await (fun _ => True) (fun z => AllReclaimable z) hlab rfl h
    trivial (fun _ _ _ h => h) ?_ (fun _ _ _ hr h => h.stable hr.moves) ?_ ?_))
  · intro w1 w2 a z hi _ _ he
    cases a <;> simp only [Op.effect, some.injEq, reduceCtorEq] at he
    cases he
    exact fun x hx => reclaimable_of_listed hi hx
  · intro z b w h
    refine ⟨?_, by rintro _ ⟨⟩⟩
    rintro y (rfl | ⟨⟨e, he, -⟩, -⟩)
    · exact hrows z b w (h.mono And.right)
    · cases he
  · intro e b w he h
    refine ⟨?_, fun e' he' => by cases he'; exact he rfl⟩
    rintro y (rfl | ⟨-, rfl⟩)
    · exact h
    · exact hrows [] b w (h.mono fun _ x hx => by simp at hx)

end Sweep

def Known (ρ : ReplicaId) (rs : List RunId) (w : World) : Prop :=
  ∀ r ∈ rs, w.Stored r ∧ ∃ x, w.record? ρ r = some x

theorem Known.stable (h : Known ρ rs w) (hm : Moves w w') : Known ρ rs w' := by
  intro r hr
  obtain ⟨hs, x, hx⟩ := h r hr
  obtain ⟨x', hx', -⟩ := hm.records ρ r x hx
  exact ⟨hm.stored hs, x', hx'⟩

theorem known_of_get (hi : Inv w) (hh : Held i ρ w) (hx : (w.managers ρ).get? r = some x) :
    w.Stored x.runId ∧ w.record? ρ x.runId = some x := by
  have hx' : w.record? ρ r = some x := heap_of_get hx
  have hid := hi.named ρ r x hx'
  unfold get? at hx
  split_ifs at hx with hr
  exact ⟨hid ▸ hh.2 r hr, hid ▸ hx'⟩

theorem keeps_updateRecords {f : RunRecord → RunRecord} (hi : Inv w)
    (hk : Known ρ rs w) (hid : ∀ x, (f x).runId = x.runId)
    (hv : ∀ x, (f x).rowVersion = x.rowVersion)
    (hl : ∀ r ∈ rs, ∀ x, w.record? ρ r = some x → Legal x.status (f x).status) :
    Inv (w.setManager ρ ((w.managers ρ).updateRecords rs f))
      ∧ Moves w (w.setManager ρ ((w.managers ρ).updateRecords rs f)) := by
  rw [updateRecords_eq]
  refine keeps_mapHeap hi fun r' x hx => ?_
  split_ifs with hr
  · exact ⟨hl r' hr x hx, (hi.fine hx).restatus (hk r' hr).1 hid hv (hl r' hr x hx)⟩
  · exact ⟨.refl _, hi.fine hx⟩

theorem at_updateRecords {f : RunRecord → RunRecord} (h : K i l A b w)
    (hh : Held i ρ w) (hk : Known ρ rs w) (hid : ∀ x, (f x).runId = x.runId)
    (hv : ∀ x, (f x).rowVersion = x.rowVersion)
    (hl : ∀ r ∈ rs, ∀ x, w.record? ρ r = some x → Legal x.status (f x).status) :
    K i l (fun w => Held i ρ w ∧ Known ρ rs w) b
      (w.setManager ρ ((w.managers ρ).updateRecords rs f)) := by
  have hkeep := keeps_updateRecords h.inv hk hid hv hl
  have hk' := hk.stable hkeep.2
  rw [updateRecords_eq] at hkeep hk' ⊢
  exact at_mapHeap h (.inl hh.1) hkeep ⟨held_mapHeap hh, hk'⟩

abbrev Naming (i : ℕ) (l : Call) (ρ : ReplicaId) (x : Except Exc (List RunId)) :=
  K i l fun w => Held i ρ w ∧ ∀ rs, x = .ok rs → Known ρ rs (w.unlock ρ)

theorem at_naming (h : K i l (fun w => Held i ρ w ∧ Known ρ rs w) b w) :
    Naming i l ρ (.ok rs) b w := by
  refine h.mono fun h => ⟨h.1, ?_⟩
  rintro rs' ⟨⟩
  exact h.2.stable moves_unlock

theorem wp_shutdownCancelLocked (h : K i l A b w) (hh : Held i ρ w) :
    contract.wp i l (shutdownCancelLocked ρ) (Naming i l ρ) b w := by
  simp only [shutdownCancelLocked, getManager, modifyManager, bind_eq, wp_bind, wp_get,
    wp_ret, wp_modify, andThen, pure_eq]
  refine at_naming (at_updateRecords h hh (fun r hr => ?_) (fun _ => rfl) (fun _ => rfl)
    fun _ _ _ _ => .refl _)
  obtain ⟨x, hx, rfl⟩ := mem_map.1 hr
  obtain ⟨r', -, hg⟩ := mem_filterMap.1 (mem_filter.1 hx).1
  obtain ⟨hs, hx⟩ := known_of_get h.inv hh hg
  exact ⟨hs, x, hx⟩

theorem wp_shutdownMarkLocked {rs ws : List RunId} (h : K i l A b w) (hh : Held i ρ w)
    (hk : Known ρ rs w) :
    contract.wp i l (shutdownMarkLocked ρ rs ws) (Naming i l ρ) b w := by
  simp only [shutdownMarkLocked, modifyManager, bind_eq, wp_bind, wp_get, wp_ret, wp_modify,
    andThen, pure_eq]
  refine at_naming (at_updateRecords h hh (fun r hr => hk r (mem_filter.1 hr).1) (fun x => ?_)
    (fun x => ?_) fun _ _ x _ => ?_) <;> split_ifs with hx
  · rfl
  · rfl
  · rfl
  · rfl
  · exact legal_interrupted hx
  · exact .refl _

theorem wp_shutdown {t : ℕ} (hlab : l.isTask = false) (hc : l.created = none) (h : Free i l b w) :
    contract.wp i l (shutdown ρ t) (fun _ => Free i l) b w := by
  simp only [shutdown, bind_eq, wp_bind, wp_get, andThen]
  refine wp_locked (fun _ => True) (fun x w => ∀ rs, x = .ok rs → Known ρ rs w) hlab h (by simp [hc])
    (fun _ _ _ h => h) (fun _ h => h) (fun w h _ => wp_shutdownCancelLocked h h.holds.1) ?_
    fun b w h => h
  rintro (e | rs) b w h
  · exact free_of h
  · have hk : K i l (Known ρ rs) b w := At.mono h fun h => h rs rfl
    dsimp only [andThen]
    split_ifs
    · exact free_of h
    · rw [wp_bind]
      have hsafe : ∀ (rs : List RunId) (op : Op), op.isAcquire = false → (∀ w, Hold l w op) →
          contract.Safe i l (K i l (Known ρ rs)) op := fun rs op ho hh =>
        safe hlab ho (fun w _ _ => hh w) fun _ _ hr h => h.stable hr.moves
      refine wp_of_keeps (keeps_perform (hsafe rs _ rfl fun _ => trivial)) hk ?_
      rintro (e | ws) b w h
      · exact free_of h
      · dsimp only [andThen]
        rw [wp_bind]
        refine wp_locked (Known ρ rs) (fun x w => ∀ rs, x = .ok rs → Known ρ rs w) hlab h
          (by simp [hc]) (fun _ _ hr h => h.stable hr.moves) (fun _ h => h.stable moves_unlock)
          (fun w h _ => wp_shutdownMarkLocked h h.holds.1 h.holds.2) ?_
          fun b w h => free_of h
        rintro (e | ps) b w h
        · exact free_of h
        · have hk : K i l (Known ρ ps) b w := At.mono h fun h => h ps rfl
          simp only [andThen, wp_bind, wp_get]
          split_ifs
          · exact free_of h
          · rw [wp_bind]
            refine wp_of_keeps (keeps_forEach ps fun r hr => keeps_fork fun b w h => ?_) hk ?_
            · exact h.fork ⟨ρ, r, rfl⟩ (h.holds r hr)
            · rintro (e | u) b w h
              · exact free_of h
              · refine wp_of_keeps (K := K i l (Known ρ ps)) (keeps_tryExcept
                  (keeps_perform (hsafe ps _ rfl fun _ => trivial)) fun e => ?_) h
                  fun _ b w h => free_of h
                split_ifs
                · exact keeps_pure _
                · exact keeps_throw _

/-- A run is being registered under the lock, and its row is not there yet; the runs `rs` it will
interrupt are in flight. -/
structure Creating (i : ℕ) (ρ : ReplicaId) (r : RunId) (rs : List RunId) (w : World) : Prop where
  lock : (w.managers ρ).lock = some i
  stored : ∀ r' ∈ (w.managers ρ).runs, r' ≠ r → w.Stored r'
  inflight : ∀ r' ∈ rs, w.Stored r' ∧ ∃ x, w.record? ρ r' = some x ∧ x.status.inflight = true

theorem Creating.stable (h : Creating i ρ r rs w) (hr : Relies i w w') : Creating i ρ r rs w' := by
  obtain ⟨hl, hruns, hst⟩ := hr.lock ρ h.lock
  refine ⟨hl, fun r' hr' hne => hr.moves.stored (h.stored r' (hruns ▸ hr') hne), fun r' hr' => ?_⟩
  obtain ⟨hs, x, hx, hf⟩ := h.inflight r' hr'
  have := hst r'
  rw [hx] at this
  obtain ⟨x', hx', hs'⟩ := map_eq_some_iff.1 this
  exact ⟨hr.moves.stored hs, x', hx', by rw [hs']; exact hf⟩

theorem wp_createLocked {a : CreateArgs} {now : ℕ}
    (h : K i (.createOrReject ρ a) A b w) (hh : Held i ρ w) (hu : w.Unborn a.runId)
    (hrs : ∀ r ∈ rs, ∃ x, (w.managers ρ).get? r = some x ∧ x.status.inflight) :
    contract.wp i (.createOrReject ρ a) (createLocked ρ a now rs)
      (Naming i (.createOrReject ρ a) ρ) b w := by
  have hlock : (w.managers ρ).lock ≠ none := by simp [hh.1]
  have hreg : K i (.createOrReject ρ a) (Creating i ρ a.runId rs) b
      (w.setManager ρ ((w.managers ρ).register (a.record now))) := by
    have hk := keeps_register (x := a.record now) h.inv hlock hu rfl rfl
    refine at_setManager h hh.1 hk (fun r hr => ?_) ⟨?_, fun r hr hne => ?_, fun r hr => ?_⟩
    · rw [register_heap]
      split_ifs with hr'
      · exact .inr (by rw [hr']; rfl)
      · exact .inl hr
    · rw [setManager_self]
      exact hh.1
    · rw [setManager_self] at hr
      exact hh.2 r (mem_of_register hr hne)
    · obtain ⟨x, hg, hf⟩ := hrs r hr
      have hx : w.record? ρ r = some x := heap_of_get hg
      have hne : r ≠ (a.record now).runId := by
        rintro rfl
        have hno := hu.2 ρ
        rw [show w.record? ρ a.runId = some x from hx] at hno
        cases hno
      have hst := (known_of_get h.inv hh hg).1
      rw [h.inv.named ρ r x hx] at hst
      refine ⟨hst, x, ?_, hf⟩
      rw [record_setManager, if_pos rfl, register_heap, if_neg hne]
      exact hx
  have hrow : (w.setManager ρ ((w.managers ρ).register (a.record now))).row? a.runId = none := hu.1
  simp only [createLocked, modifyManager, persistNewRunToStore, getManager, bind_eq, wp_bind,
    wp_get, wp_ret, wp_modify, andThen, pure_eq, wp_tryExcept, hreg.inv.hasStore ρ,
    Bool.not_true, Bool.false_eq_true, if_false]
  refine wp_storeCall (wp_await (Creating i ρ a.runId rs) (fun _ w => w.Stored a.runId) rfl rfl hreg
    ⟨rfl, hrow, rfl⟩ (fun _ _ hr h => h.stable hr) ?_ (fun _ _ _ hr h => hr.moves.stored h) ?_ ?_)
  · rintro w1 w2 y z - - ⟨-, hno, -⟩ he
    cases y <;> simp only [Op.effect, some.injEq, reduceCtorEq] at he
    cases he
    have hno : w1.row? a.runId = none := hno
    change ((w1.put a.runId _).Stored a.runId)
    rw [put, hno]
    exact ⟨_, setRow_self _ _ _⟩
  · -- the run is stored, and takes over from the others
    rintro u b w h
    refine ⟨?_, by rintro _ ⟨⟩⟩
    obtain ⟨hc, hs⟩ := h.holds
    have hh : Held i ρ w := by
      refine ⟨hc.lock, fun r hr => ?_⟩
      by_cases hr' : r = a.runId
      · rw [hr']
        exact hs
      · exact hc.stored r hr hr'
    have hk : Known ρ rs w := by
      intro r hr
      obtain ⟨hs, x, hx, -⟩ := hc.inflight r hr
      exact ⟨hs, x, hx⟩
    simp only [wp_bind, wp_modify, andThen, wp_ret]
    refine at_naming (at_updateRecords h hh hk (fun _ => rfl) (fun _ => rfl) fun r hr x hx => ?_)
    obtain ⟨-, x', hx', hf⟩ := hc.inflight r hr
    rw [hx] at hx'
    cases hx'
    exact legal_interrupted hf
  · -- the run could not be stored, and is taken out again
    intro e b w he h
    refine ⟨?_, fun e' he' => by cases he'; exact he rfl⟩
    simp only [wp_bind, wp_modify, andThen, wp_throw]
    have hc := h.holds
    have hruns : ∀ r ∈ (((w.managers ρ).popRun a.runId).unindexRunLocked a.runId a.threadId).runs,
        w.Stored r := by
      intro r hr
      rw [unindexRunLocked_runs] at hr
      obtain ⟨hr, hne⟩ := mem_filter.1 hr
      exact hc.stored r hr (by simpa using hne)
    refine at_setManager h hc.lock (keeps_setManager h.inv ?_ ?_ fun _ => hruns) (fun r hr => .inl ?_)
      ⟨⟨?_, ?_⟩, by simp⟩
    · rw [unindexRunLocked_heap]
      rfl
    · rw [unindexRunLocked_hasStore]
      rfl
    · rw [unindexRunLocked_heap]
      exact hr
    · rw [setManager_self, unindexRunLocked_lock]
      exact hc.lock
    · rw [setManager_self]
      exact hruns

theorem wp_createOrReject {a : CreateArgs} (hi : Inv w) (hu : w.Unborn a.runId) :
    contract.wp i (.createOrReject ρ a) (createOrReject ρ a)
      (fun _ => Free i (.createOrReject ρ a)) ⟨w, []⟩ w := by
  simp only [createOrReject, bind_eq, wp_bind, wp_get, andThen]
  refine wp_locked (fun _ => True) (fun x w => ∀ rs, x = .ok rs → Known ρ rs w) rfl (free_start hi)
    ?_ (fun _ _ _ h => h) (fun _ h => h) ?_ ?_ fun b w h => h
  · rintro r ⟨⟩
    exact hu
  · intro w h hu
    have hthrow (e : Exc) : K i (.createOrReject ρ a) (fun w => Held i ρ w ∧ ∀ rs : List RunId,
        (.error e : Except Exc _) = .ok rs → Known ρ rs (w.unlock ρ)) ⟨w, []⟩ w :=
      At.mono h fun h => ⟨h.1, by rintro _ ⟨⟩⟩
    unfold createOrRejectLocked
    split_ifs
    · simp only [bind_eq, getManager, wp_bind, wp_get, wp_ret, andThen, pure_eq]
      split_ifs
      · exact hthrow _
      · refine wp_createLocked h h.holds.1 (hu a.runId rfl) fun r hr => ?_
        obtain ⟨x, hx, rfl⟩ := mem_map.1 hr
        obtain ⟨hx, hf⟩ := mem_filter.1 hx
        obtain ⟨r', -, hg⟩ := mem_filterMap.1 hx
        refine ⟨x, ?_, hf⟩
        rw [h.inv.named ρ r' x (heap_of_get hg)]
        exact hg
    · exact hthrow _
  · rintro (e | rs) b w h
    · exact free_of h
    · have hk : K i (.createOrReject ρ a) (Known ρ rs) b w := At.mono h fun h => h rs rfl
      dsimp only [andThen]
      rw [wp_bind]
      refine wp_of_keeps (keeps_forEach rs fun r hr b w h => ?_) hk ?_
      · exact wp_persistInterrupted rfl rfl h (fun _ _ hr h => h.stable hr.moves) fun w h => h r hr
      · rintro (e | u) b w h <;> exact free_of h

theorem free_finish (x : Except Exc Reply) (b : Sect World runSig) (w : World)
    (h : Free i l b w) : contract.Finish i l x b w := ⟨h.yields none, trivial⟩

theorem verified (i : ℕ) (l : Call) (w : World) (hi : Inv w) (h : Init w l) :
    contract.wp i l (prog l) (contract.Finish i l) ⟨w, []⟩ w := by
  have hfree : Free i l ⟨w, []⟩ w := free_start hi
  cases l
  case createOrReject ρ a => exact wp_reply (wp_createOrReject hi h) free_finish
  case setStatus ρ r st e => exact wp_reply (wp_setStatus rfl rfl hfree) free_finish
  case cancel ρ r a => exact wp_reply (wp_cancel rfl rfl hfree) free_finish
  case updateRunCompletion ρ r st c e v =>
    obtain ⟨v, rfl, hc⟩ := h
    exact wp_reply (wp_updateRunCompletion rfl rfl (at_start hi (sect_refl w) hc)) free_finish
  case reconcile ρ e before lease events => exact wp_reply (wp_reconcile rfl rfl hfree) free_finish
  case shutdown ρ t => exact wp_reply (wp_shutdown rfl rfl hfree) free_finish
  case persistInterrupted ρ r =>
    refine wp_reply (wp_mono (fun _ b w h => free_of h) _ _ _
      (wp_persistInterrupted (A := fun w => w.Stored r ∧ ∃ x, w.record? ρ r = some x) rfl rfl
        (at_start hi (sect_refl w) h) (fun _ _ hr h => ?_) fun _ h => h)) free_finish
    obtain ⟨hs, x, hx⟩ := h
    obtain ⟨x', hx', -⟩ := hr.moves.records ρ r x hx
    exact ⟨hr.moves.stored hs, x', hx'⟩
  all_goals exact h.elim

end Calls

end Finality

end DeerFlow

import DeerFlow.Proofs.Locking
import DeerFlow.Proofs.Stretch
import DeerFlow.Proofs.ThreadIndex

/-!
# One run in flight per thread

In every pool that calls of `create_or_reject`, `set_status`, `cancel`, `cleanup` and `shutdown`
reach from an empty manager, a free lock means that the thread index lists the runs and that no
thread has two in flight.
-/

namespace DeerFlow

open List Option Coop Coop.Contract World RunStatus Coro

/-- The calls a manager is used by here; `persistInterrupted` is what `shutdown` starts. -/
def Call.manages : Call → Bool
  | .createOrReject .. | .setStatus .. | .cancel .. | .cleanup .. | .shutdown .. => true
  | .persistInterrupted .. => true
  | _ => false

def Call.Unregistered (l : Call) (w : World) : Prop :=
  ∀ ρ a, l = .createOrReject ρ a → a.runId ∉ (w.managers ρ).runs

def indexContract : Contract runSystem where
  inv w := ∀ ρ, (w.managers ρ).lock = none → (w.managers ρ).Listed ∧ (w.managers ρ).Single
  rely i w w' := ∀ ρ, (w.managers ρ).lock = some i →
    (w'.managers ρ).lock = some i ∧ (w.managers ρ).SameIndex (w'.managers ρ)
  refl _ _ _ h := ⟨h, .refl _⟩
  trans h h' ρ hl :=
    ⟨(h' ρ (h ρ hl).1).1, (h ρ hl).2.trans (h' ρ (h ρ hl).1).2⟩
  starts _ l' := ∃ ρ r, l' = .persistInterrupted ρ r
  init l w := l.manages = true ∧ l.Unregistered w
  hold _ l op w := op.isAcquire = true → l.Unregistered w
  held _ _ _ _ _ := True
  post _ _ _ _ := True
  sect _ l w w' _ := ∀ ρ r, r ∈ (w'.managers ρ).runs →
    r ∈ (w.managers ρ).runs ∨ ∃ a, l = .createOrReject ρ a ∧ a.runId = r
  may _ _ _ _ _ := True
  mayResume _ _ _ _ _ _ := True

namespace Index

variable {i : ℕ} {l : Call} {ρ : ReplicaId} {α : Type}
  {w : World} {b : Sect World runSig} {A : World → Prop}

def Held (i : ℕ) (ρ : ReplicaId) (m : RunManager) (w : World) : Prop :=
  (w.managers ρ).lock = some i ∧ m.SameIndex (w.managers ρ)

variable {w w' : World}

theorem Held.stable {m : RunManager} (h : Held i ρ m w)
    (hr : indexContract.rely i w w') : Held i ρ m w' :=
  ⟨(hr ρ h.1).1, h.2.trans (hr ρ h.1).2⟩

abbrev K (i : ℕ) (l : Call) (A : World → Prop) := indexContract.At i l A

theorem sect_refl (w : World) (o : Option Op) : indexContract.sect i l w w o :=
  fun _ _ hr => .inl hr

theorem inv_of_managers (h : w'.managers = w.managers) (hi : indexContract.inv w) :
    indexContract.inv w' := by
  intro ρ hl
  rw [h] at hl ⊢
  exact hi ρ hl

theorem rely_of_managers (h : w'.managers = w.managers) (j : ℕ) :
    indexContract.rely j w w' := by
  intro ρ hl
  rw [h]
  exact ⟨hl, .refl _⟩

theorem safe {op : Op} (hlab : l.isTask = false) (ho : op.isAcquire = false)
    (sA : ∀ w w', indexContract.rely i w w' → A w → A w') :
    indexContract.Safe i l (K i l A) op := by
  refine safe_at sect_refl (fun _ _ _ h => by simp [ho] at h) (fun w w' hr _ => sA w w' hr) ?_
    (fun _ _ _ _ => trivial) ?_
  · intro w o w' x hi hA _ hx
    have hm := (execOp_leaves hlab hx).managers ho
    exact ⟨inv_of_managers hm hi, fun j _ => rely_of_managers hm j,
      sA w w' (rely_of_managers hm i) hA⟩
  · intro w x c w' hd
    change deliverOp l op x c w = some w' at hd
    rw [deliverOp_of_not_acquire ho] at hd
    exact Call.interrupt_of_not_task hlab hd

def Whole (i : ℕ) (ρ : ReplicaId) (w : World) : Prop :=
  (w.managers ρ).lock = some i ∧ (w.managers ρ).Listed ∧ (w.managers ρ).Single

theorem rely_setLock {l : Option ℕ} (h : ∀ j, j ≠ i → (w.managers ρ).lock ≠ some j) :
    ∀ j, j ≠ i → indexContract.rely j w (w.setManager ρ { w.managers ρ with lock := l }) := by
  intro j hj ρ' hl
  by_cases hρ : ρ' = ρ
  · subst hρ
    exact absurd hl (h j hj)
  · rw [w.setManager_of_ne ρ ρ' _ hρ]
    exact ⟨hl, .refl _⟩

theorem inv_setLock {l : Option ℕ} (hi : indexContract.inv w)
    (h : l = none → (w.managers ρ).Listed ∧ (w.managers ρ).Single) :
    indexContract.inv (w.setManager ρ { w.managers ρ with lock := l }) := by
  intro ρ' hl
  by_cases hρ : ρ' = ρ
  · subst hρ
    rw [setManager_self] at hl ⊢
    obtain ⟨h1, h2⟩ := h hl
    exact ⟨⟨h1.nodup, h1.known, h1.bucket, h1.full⟩, h2⟩
  · rw [w.setManager_of_ne ρ ρ' _ hρ] at hl ⊢
    exact hi ρ' hl

theorem init_of_runs (h : ∀ ρ, (w'.managers ρ).runs ⊆ (w.managers ρ).runs)
    (hi : indexContract.init l w) : indexContract.init l w' :=
  ⟨hi.1, fun ρ a he hr => hi.2 ρ a he (h ρ hr)⟩

theorem at_unlock (h : K i l (Whole i ρ) b w) : K i l (fun _ => True) b (w.unlock ρ) := by
  obtain ⟨hl, hw⟩ := h.holds
  refine h.step (inv_setLock h.inv fun _ => hw) (rely_setLock fun j hj => ?_) ?_ ?_ trivial
  · rw [hl]
    exact fun h => hj (some.inj h).symm
  · exact fun l' _ => init_of_runs fun ρ' => by rw [unlock_runs]; exact fun _ h => h
  · intro w0 o hs ρ' r hr
    rw [unlock_runs] at hr
    exact hs ρ' r hr

theorem at_mirror {r : RunId} {v : ℕ}
    (sA : ∀ w w', indexContract.rely i w w' → A w → A w') (h : K i l A b w) :
    K i l A b (w.updateRecord ρ r fun x => { x with rowVersion := v }) := by
  have hsame : ∀ ρ', (w.managers ρ').SameIndex
      ((w.updateRecord ρ r fun x => { x with rowVersion := v }).managers ρ') := by
    intro ρ'
    by_cases hρ : ρ' = ρ
    · subst hρ
      rw [updateRecord_managers]
      refine ⟨rfl, rfl, fun r' => ?_⟩
      dsimp only
      split_ifs with hr
      · subst hr
        simp [Option.map_map, Function.comp_def]
      · rfl
    · rw [updateRecord_of_ne _ _ _ _ _ hρ]
      exact .refl _
  have hrely : ∀ j, indexContract.rely j w
      (w.updateRecord ρ r fun x => { x with rowVersion := v }) :=
    fun j ρ' hl => ⟨by rw [updateRecord_lock]; exact hl, hsame ρ'⟩
  refine h.step (fun ρ' hl => ?_) (fun j _ => hrely j)
    (fun l' _ => init_of_runs fun ρ' => by rw [updateRecord_runs]; exact fun _ h => h) ?_
    (sA _ _ (hrely i) h.holds)
  · rw [updateRecord_lock] at hl
    exact ⟨(hsame ρ').settles.listed (h.inv ρ' hl).1, (hsame ρ').settles.single (h.inv ρ' hl).2⟩
  · intro w0 o hs ρ' r' hr
    rw [updateRecord_runs] at hr
    exact hs ρ' r' hr

theorem at_setManager {A A' : World → Prop} {m' : RunManager}
    (h : K i l A b w) (hl : (w.managers ρ).lock = some i) (hl' : m'.lock = some i)
    (hr : ∀ r ∈ m'.runs, r ∈ (w.managers ρ).runs ∨ ∃ a, l = .createOrReject ρ a ∧ a.runId = r)
    (hb : b.spawned = [] ∨ m'.runs ⊆ (w.managers ρ).runs) (hA : A' (w.setManager ρ m')) :
    K i l A' b (w.setManager ρ m') := by
  refine h.step (fun ρ' hn => ?_) (fun j hj ρ' hn => ?_) (fun l' hlab' hi => ?_)
    (fun w0 o hs ρ' r hr' => ?_) hA
  · by_cases hρ : ρ' = ρ
    · subst hρ
      simp [hl'] at hn
    · rw [w.setManager_of_ne ρ ρ' _ hρ] at hn ⊢
      exact h.inv ρ' hn
  · by_cases hρ : ρ' = ρ
    · subst hρ
      rw [hl] at hn
      exact absurd (some.inj hn).symm hj
    · rw [w.setManager_of_ne ρ ρ' _ hρ]
      exact ⟨hn, .refl _⟩
  · rcases hb with hb | hb
    · simp [hb] at hlab'
    · refine init_of_runs (fun ρ' => ?_) hi
      by_cases hρ : ρ' = ρ
      · subst hρ
        rw [setManager_self]
        exact hb
      · rw [w.setManager_of_ne ρ ρ' _ hρ]
        exact fun _ h => h
  · by_cases hρ : ρ' = ρ
    · subst hρ
      rw [setManager_self] at hr'
      rcases hr r hr' with hr' | hr'
      · exact hs ρ' r hr'
      · exact .inr hr'
    · rw [w.setManager_of_ne ρ ρ' _ hρ] at hr'
      exact hs ρ' r hr'

theorem at_settles {m m' : RunManager}
    (h : K i l A b w) (hh : Held i ρ m w) (hm : m.Listed) (hs : m.Single)
    (hl' : m'.lock = (w.managers ρ).lock) (hm' : (w.managers ρ).Settles m') :
    K i l (Whole i ρ) b (w.setManager ρ m') := by
  refine at_setManager h hh.1 (hl'.trans hh.1) (fun r hr => .inl (hm'.runs ▸ hr))
    (.inr (hm'.runs ▸ fun _ h => h)) ⟨?_, ?_, ?_⟩
  · simp [hl', hh.1]
  · rw [setManager_self]
    exact hm'.listed (hh.2.settles.listed hm)
  · rw [setManager_self]
    exact hm'.single (hh.2.settles.single hs)

theorem at_whole {m : RunManager}
    (h : K i l A b w) (hh : Held i ρ m w) (hm : m.Listed) (hs : m.Single) :
    K i l (Whole i ρ) b w :=
  h.mono fun _ => ⟨hh.1, hh.2.settles.listed hm, hh.2.settles.single hs⟩

theorem wp_locked {p : Co α} {Q : Except Exc α → Sect World runSig → World → Prop}
    (R : Except Exc α → Prop) (hlab : l.isTask = false)
    (h : K i l (fun _ => True) b w) (hu : l.Unregistered w)
    (hp : ∀ w m, K i l (Held i ρ m) ⟨w, []⟩ w → m.Listed → m.Single →
      (∀ a, l = .createOrReject ρ a → a.runId ∉ m.runs) →
      indexContract.wp i l p (fun r b w => K i l (Whole i ρ) b w ∧ R r) ⟨w, []⟩ w)
    (hQ : ∀ r b w, R r → K i l (fun _ => True) b w → Q r b w)
    (hc : ∀ b w, K i l (fun _ => True) b w → Q (.error .cancelled) b w) :
    indexContract.wp i l (withLock ρ p) Q b w := by
  refine wp_withLock (fun _ => True)
    (fun w => ∃ m, Held i ρ m w ∧ m.Listed ∧ m.Single
      ∧ ∀ a, l = .createOrReject ρ a → a.runId ∉ m.runs)
    hlab (h.yields _) (fun _ => hu) trivial (fun _ _ _ _ _ => trivial) ?_ (fun _ => trivial) ?_ ?_ ?_ ?_
  · intro w hi _ hu hl
    obtain ⟨h1, h2⟩ := hi ρ hl
    refine ⟨inv_setLock hi (by simp), rely_setLock (by simp [hl]), trivial, w.managers ρ, ?_, h1, h2,
      ?_⟩
    · refine ⟨by simp [lockBy], ?_⟩
      simp only [lockBy, setManager_self]
      exact ⟨rfl, rfl, fun _ => rfl⟩
    · exact fun a ha => hu rfl ρ a ha
  · rintro w w' hr _ ⟨m, hm, h⟩
    exact ⟨m, hm.stable hr, h⟩
  · rintro w hi ⟨m, hm, h1, h2, h3⟩ -
    refine wp_mono ?_ _ _ _ (hp w m (at_start hi (sect_refl w) hm) h1 h2 h3)
    rintro r b w ⟨hw, hr⟩
    exact hQ r b _ hr (at_unlock hw)
  · exact fun w hi _ => hc _ _ (at_start hi (sect_refl w) trivial)
  · rintro w hi ⟨m, hm, h1, h2, -⟩
    exact hc _ _ (at_unlock (at_whole (at_start hi (sect_refl w) hm) hm h1 h2))

section Sections

variable {b : Sect World runSig} {w : World} {m : RunManager}
  {r : RunId}

theorem wp_setStatusLocked {st : RunStatus} {e : Option String}
    (h : K i l (Held i ρ m) b w) (hm : m.Listed) (hs : m.Single) :
    indexContract.wp i l (setStatusLocked ρ r st e) (fun _ b w => K i l (Whole i ρ) b w ∧ True)
      b w := by
  simp only [setStatusLocked, bind_eq, wp_bind, wp_get, andThen]
  split
  · exact ⟨at_whole h h.holds hm hs, trivial⟩
  · rename_i x hx
    split
    · exact ⟨at_whole h h.holds hm hs, trivial⟩
    · rename_i hok
      have hlegal := assertRunTransition_ok.1 hok
      refine ⟨at_settles h h.holds hm hs rfl (RunManager.settles_updateRecord fun y hy => ?_),
        trivial⟩
      rw [RunManager.heap_of_get hx] at hy
      cases hy
      exact ⟨rfl, rfl, inflight_of_legal hlegal⟩

theorem held_stable {w w' : World} (hr : indexContract.rely i w w') (h : Held i ρ m w) :
    Held i ρ m w' := h.stable hr

theorem wp_cancelLocked {action : String} (hlab : l.isTask = false)
    (h : K i l (Held i ρ m) b w) (hm : m.Listed) (hs : m.Single) :
    indexContract.wp i l (cancelLocked ρ r action) (fun _ b w => K i l (Whole i ρ) b w ∧ True)
      b w := by
  have hsafe : ∀ op : Op, op.isAcquire = false → indexContract.Safe i l (K i l (Held i ρ m)) op :=
    fun op ho => safe hlab ho fun _ _ => held_stable
  have hend : ∀ (x : Except Exc (Bool ⊕ ℕ)) (b : Sect World runSig) (w : World),
      K i l (Held i ρ m) b w → K i l (Whole i ρ) b w ∧ True :=
    fun _ b w h => ⟨at_whole h h.holds hm hs, trivial⟩
  simp only [cancelLocked, bind_eq, wp_bind, wp_get, andThen]
  split
  · split_ifs
    · exact ⟨at_whole h h.holds hm hs, trivial⟩
    · refine wp_of_keeps ?_ h hend
      refine keeps_bind (keeps_perform (hsafe _ rfl)) fun persisted => ?_
      split_ifs
      · exact keeps_bind (keeps_publishCancelNotify (hsafe _ rfl)) fun _ => keeps_pure _
      · refine keeps_bind (keeps_perform (hsafe _ rfl)) fun intent => ?_
        split <;> exact keeps_pure _
  · split_ifs with h1 h2
    · exact ⟨at_whole h h.holds hm hs, trivial⟩
    · exact ⟨at_whole h h.holds hm hs, trivial⟩
    · split
      · exact ⟨at_whole h h.holds hm hs, trivial⟩
      · refine ⟨at_settles h h.holds hm hs rfl (RunManager.settles_updateRecord fun y hy => ?_),
          trivial⟩
        exact ⟨rfl, rfl, fun h => by simp [inflight] at h⟩

theorem keeps_mirrorRowVersion {A : World → Prop} {v : ℕ}
    (sA : ∀ w w', indexContract.rely i w w' → A w → A w') :
    indexContract.Keeps i l (K i l A) (mirrorRowVersion ρ r v) :=
  keeps_modify fun _ _ h => at_mirror sA h

theorem keeps_persistRecord {st : RunStatus} {e : Option String} {v : Option ℕ}
    (hlab : l.isTask = false) :
    indexContract.Keeps i l (K i l fun _ => True) (persistRecordStatus ρ r st e v) :=
  keeps_persistRecordStatus (safe hlab rfl fun _ _ _ h => h) (safe hlab rfl fun _ _ _ h => h)
    (safe hlab rfl fun _ _ _ h => h) (fun _ => safe hlab rfl fun _ _ _ h => h)
    fun _ => keeps_mirrorRowVersion fun _ _ _ h => h

theorem wp_createLocked {a : CreateArgs} {now : ℕ} {rs : List RunId}
    (h : K i (.createOrReject ρ a) (Held i ρ m) b w) (hb : b.spawned = []) (hm : m.Listed)
    (hs : m.Single) (hf : a.runId ∉ m.runs)
    (hrs : ∀ y ∈ (w.managers ρ).threadRecordsLocked a.threadId, y.status.inflight → y.runId ∈ rs) :
    indexContract.wp i (.createOrReject ρ a) (createLocked ρ a now rs)
      (fun _ b w => K i (.createOrReject ρ a) (Whole i ρ) b w ∧ True) b w := by
  have hm0 : (w.managers ρ).Listed := h.holds.2.settles.listed hm
  have hs0 : (w.managers ρ).Single := h.holds.2.settles.single hs
  have hf0 : (a.record now).runId ∉ (w.managers ρ).runs := by
    rw [h.holds.2.runs]
    exact hf
  have hreg : K i (.createOrReject ρ a) (Held i ρ ((w.managers ρ).register (a.record now))) b
      (w.setManager ρ ((w.managers ρ).register (a.record now))) := by
    refine at_setManager h h.holds.1 h.holds.1 (fun r hr => ?_) (.inl hb) ⟨?_, ?_⟩
    · by_cases hr' : r = a.runId
      · exact .inr ⟨a, rfl, hr'.symm⟩
      · exact .inl (RunManager.mem_of_register hr hr')
    · rw [setManager_self]
      exact h.holds.1
    · rw [setManager_self]
      exact .refl _
  have hsafe : ∀ op : Op, op.isAcquire = false → indexContract.Safe i (.createOrReject ρ a)
      (K i (.createOrReject ρ a) (Held i ρ ((w.managers ρ).register (a.record now)))) op :=
    fun op ho => safe rfl ho fun _ _ => held_stable
  simp only [createLocked, modifyManager, bind_eq, wp_bind, wp_modify, andThen, wp_tryExcept]
  refine wp_of_keeps (keeps_persistNewRunToStore (hsafe _ rfl) (hsafe _ rfl)) hreg ?_
  intro x b w' h'
  have hl' : ((w.managers ρ).register (a.record now)).Listed := RunManager.listed_register hm0 hf0
  have hl : (w'.managers ρ).Listed := h'.holds.2.settles.listed hl'
  rcases x with e | u
  · -- the run could not be persisted
    refine ⟨at_setManager h' h'.holds.1 ?_ (fun r hr => .inl ?_) (.inr fun r hr => ?_)
      ⟨?_, ?_, ?_⟩, trivial⟩
    · rw [RunManager.unindexRunLocked_lock]
      exact h'.holds.1
    · rw [RunManager.unindexRunLocked_runs] at hr
      exact (mem_filter.1 hr).1
    · rw [RunManager.unindexRunLocked_runs] at hr
      exact (mem_filter.1 hr).1
    · rw [setManager_self, RunManager.unindexRunLocked_lock]
      exact h'.holds.1
    · rw [setManager_self]
      refine RunManager.listed_drop hl ?_
      rw [h'.holds.2.threadOf_register]
      exact if_pos rfl
    · rw [setManager_self]
      exact RunManager.single_drop hs0 h'.holds.2
  · have hset : (w'.managers ρ).Settles ((w'.managers ρ).updateRecords rs
        (·.interruptBy a.multitaskStrategy now)) :=
      RunManager.settles_updateRecords fun y =>
        ⟨rfl, rfl, fun h => by simp [RunRecord.interruptBy, inflight] at h⟩
    refine ⟨at_setManager h' h'.holds.1 h'.holds.1 (fun r hr => .inl hr) (.inr fun r hr => hr)
      ⟨?_, ?_, ?_⟩, trivial⟩
    · rw [setManager_self]
      exact h'.holds.1
    · rw [setManager_self]
      exact hset.listed hl
    · rw [setManager_self]
      exact RunManager.single_create hm0 hs0 h'.holds.2 hrs

theorem wp_createOrRejectLocked {a : CreateArgs} {now : ℕ}
    (h : K i (.createOrReject ρ a) (Held i ρ m) b w) (hb : b.spawned = []) (hm : m.Listed)
    (hs : m.Single) (hf : a.runId ∉ m.runs) :
    indexContract.wp i (.createOrReject ρ a) (createOrRejectLocked ρ a now)
      (fun _ b w => K i (.createOrReject ρ a) (Whole i ρ) b w ∧ True) b w := by
  unfold createOrRejectLocked
  split_ifs
  · simp only [bind_eq, getManager, wp_bind, wp_get, wp_ret, andThen, pure_eq]
    split_ifs
    · exact ⟨at_whole h h.holds hm hs, trivial⟩
    · refine wp_createLocked h hb hm hs hf fun y hy hfl => ?_
      exact mem_map_of_mem (mem_filter.2 ⟨hy, hfl⟩)
  · exact ⟨at_whole h h.holds hm hs, trivial⟩

theorem wp_cleanupLocked (h : K i l (Held i ρ m) b w) (hm : m.Listed)
    (hs : m.Single) :
    indexContract.wp i l (cleanupLocked ρ r) (fun _ b w => K i l (Whole i ρ) b w ∧ True) b w := by
  simp only [cleanupLocked, getManager, bind_eq, wp_bind, wp_get, wp_ret, andThen, pure_eq]
  split
  · exact ⟨at_whole h h.holds hm hs, trivial⟩
  · rename_i x hx
    have hthread : (w.managers ρ).threadOf r = some x.threadId := by
      simp [RunManager.threadOf, RunManager.heap_of_get hx]
    have hl := RunManager.listed_drop (h.holds.2.settles.listed hm) hthread
    have hsub : (((w.managers ρ).popRun r).unindexRunLocked r x.threadId).runs
        ⊆ (w.managers ρ).runs := by
      intro r' hr'
      rw [RunManager.unindexRunLocked_runs] at hr'
      exact (mem_filter.1 hr').1
    have hone : (((w.managers ρ).popRun r).unindexRunLocked r x.threadId).Single := by
      intro r1 h1 r2 h2 ht ha1 ha2
      unfold RunManager.Active at ha1 ha2
      simp only [RunManager.threadOf, RunManager.unindexRunLocked_heap] at ht ha1 ha2
      exact h.holds.2.settles.single hs r1 (hsub h1) r2 (hsub h2) ht ha1 ha2
    refine ⟨at_setManager h h.holds.1 ?_ (fun r' hr' => .inl (hsub hr')) (.inr hsub) ⟨?_, ?_, ?_⟩,
      trivial⟩
    · rw [RunManager.unindexRunLocked_lock]
      exact h.holds.1
    · rw [setManager_self, RunManager.unindexRunLocked_lock]
      exact h.holds.1
    · rw [setManager_self]
      exact hl
    · rw [setManager_self]
      exact hone

theorem wp_shutdownCancelLocked (h : K i l (Held i ρ m) b w) (hm : m.Listed) (hs : m.Single) :
    indexContract.wp i l (shutdownCancelLocked ρ) (fun _ b w => K i l (Whole i ρ) b w ∧ True)
      b w := by
  exact ⟨at_settles h h.holds hm hs rfl
    (RunManager.settles_updateRecords fun y => ⟨rfl, rfl, fun h => h⟩), trivial⟩

theorem wp_shutdownMarkLocked {rs ws : List RunId} (h : K i l (Held i ρ m) b w) (hm : m.Listed)
    (hs : m.Single) :
    indexContract.wp i l (shutdownMarkLocked ρ rs ws) (fun _ b w => K i l (Whole i ρ) b w ∧ True)
      b w := by
  refine ⟨at_settles h h.holds hm hs rfl (RunManager.settles_updateRecords fun y => ?_), trivial⟩
  split_ifs with hy
  · exact ⟨rfl, rfl, fun h => by simp [inflight] at h⟩
  · exact ⟨rfl, rfl, fun h => h⟩

end Sections

section Calls

variable {b : Sect World runSig} {w : World} {m : RunManager}
  {r : RunId}

abbrev Free (i : ℕ) (l : Call) := K i l fun _ => True

theorem safe_free {op : Op} (hlab : l.isTask = false) (ho : op.isAcquire = false) :
    indexContract.Safe i l (Free i l) op := safe hlab ho fun _ _ _ h => h

theorem keeps_locked {p : Co α} (hlab : l.isTask = false) (hn : ∀ w, l.Unregistered w)
    (hp : ∀ b w m, K i l (Held i ρ m) b w → m.Listed → m.Single →
      indexContract.wp i l p (fun _ b w => K i l (Whole i ρ) b w ∧ True) b w) :
    indexContract.Keeps i l (Free i l) (withLock ρ p) := fun _ w h =>
  wp_locked (fun _ => True) hlab h (hn w) (fun w m h hm hs _ => hp ⟨w, []⟩ w m h hm hs)
    (fun _ _ _ _ h => h) (fun _ _ h => h)

theorem keeps_setStatus {st : RunStatus} {e : Option String} (hlab : l.isTask = false)
    (hn : ∀ w, l.Unregistered w) :
    indexContract.Keeps i l (Free i l) (setStatus ρ r st e) := by
  refine keeps_bind (keeps_locked hlab hn fun b w m h => wp_setStatusLocked h) fun v => ?_
  cases v with
  | none => exact keeps_pure _
  | some v =>
    refine keeps_bind (keeps_persistRecord hlab) fun _ => keeps_locked hlab hn fun b w m h hm hs => ?_
    exact ⟨at_whole h h.holds hm hs, trivial⟩

theorem keeps_cancel {action : String} (hlab : l.isTask = false)
    (hn : ∀ w, l.Unregistered w) :
    indexContract.Keeps i l (Free i l) (cancel ρ r action) := by
  refine keeps_bind (keeps_locked hlab hn fun b w m h => wp_cancelLocked hlab h) fun x => ?_
  cases x with
  | inl b => exact keeps_pure _
  | inr v =>
    refine keeps_bind (keeps_persistRecord hlab) fun _ => keeps_getManager_bind fun m => ?_
    split_ifs
    · exact keeps_bind (keeps_orReturn (keeps_bind (keeps_perform (safe_free hlab rfl))
        fun _ => keeps_pure _)) fun _ =>
        keeps_bind (keeps_publishCancelNotify (safe_free hlab rfl)) fun _ => keeps_pure _
    · exact keeps_bind (keeps_publishCancelNotify (safe_free hlab rfl)) fun _ => keeps_pure _

theorem keeps_cleanup {d : ℕ} (hlab : l.isTask = false) (hn : ∀ w, l.Unregistered w) :
    indexContract.Keeps i l (Free i l) (cleanup ρ r d) := by
  have hlock : indexContract.Keeps i l (Free i l) (withLock ρ (cleanupLocked ρ r)) :=
    keeps_locked hlab hn fun b w m h => wp_cleanupLocked h
  unfold cleanup
  split_ifs
  · exact keeps_bind (keeps_perform (safe_free hlab rfl)) fun _ => hlock
  · exact hlock

theorem keeps_interrupted (hlab : l.isTask = false) :
    indexContract.Keeps i l (Free i l) (persistInterrupted ρ r) :=
  keeps_bind (keeps_persistRecord hlab) fun _ => keeps_pure _

theorem keeps_shutdown {t : ℕ} (hlab : l.isTask = false) (hn : ∀ w, l.Unregistered w) :
    indexContract.Keeps i l (Free i l) (shutdown ρ t) := by
  refine keeps_get_bind fun b w h => ?_
  refine keeps_bind (keeps_locked hlab hn fun b w m h => wp_shutdownCancelLocked h) (fun rs => ?_) b w h
  split_ifs
  · exact keeps_pure _
  · refine keeps_bind (keeps_perform (safe_free hlab rfl)) fun ws => ?_
    refine keeps_bind (keeps_locked hlab hn fun b w m h => wp_shutdownMarkLocked h) fun ps => ?_
    refine keeps_get_bind fun b w' h => ?_
    split_ifs
    · exact h
    · refine keeps_bind (keeps_forEach ps fun r _ => keeps_fork fun b w h => ?_) (fun _ => ?_) b w' h
      · exact h.fork ⟨ρ, r, rfl⟩ ⟨rfl, fun ρ a he => by cases he⟩
      · refine keeps_tryExcept (keeps_perform (safe_free hlab rfl)) fun e => ?_
        split_ifs
        · exact keeps_pure _
        · exact keeps_throw _

theorem wp_createOrReject {a : CreateArgs} (hi : indexContract.inv w)
    (hu : (Call.createOrReject ρ a).Unregistered w) :
    indexContract.wp i (.createOrReject ρ a) (createOrReject ρ a)
      (fun _ => Free i (.createOrReject ρ a)) ⟨w, []⟩ w := by
  simp only [createOrReject, bind_eq, wp_bind, wp_get, andThen]
  refine wp_locked (fun _ => True) rfl (at_start hi (sect_refl w) trivial) hu ?_ ?_ ?_
  · intro w m h hm hs hf
    exact wp_createOrRejectLocked h rfl hm hs (hf a rfl)
  · rintro (e | rs) b w - h
    · exact h
    · exact keeps_bind (keeps_forEach rs fun r _ => keeps_interrupted rfl) (fun _ => keeps_pure _)
        b w h
  · exact fun b w h => h

theorem free_finish (x : Except Exc Reply) (b : Sect World runSig) (w : World)
    (h : Free i l b w) : indexContract.Finish i l x b w := ⟨h.yields none, trivial⟩

theorem verified (i : ℕ) (l : Call) (w : World) (hi : indexContract.inv w)
    (h : indexContract.init l w) :
    indexContract.wp i l (prog l) (indexContract.Finish i l) ⟨w, []⟩ w := by
  have hstart : Free i l ⟨w, []⟩ w := at_start hi (sect_refl w) trivial
  cases l
  case createOrReject ρ a => exact wp_reply (wp_createOrReject hi h.2) free_finish
  case setStatus ρ r st e =>
    exact wp_reply (keeps_setStatus rfl (fun _ _ _ he => by cases he) _ _ hstart) free_finish
  case cancel ρ r a =>
    exact wp_reply (keeps_cancel rfl (fun _ _ _ he => by cases he) _ _ hstart) free_finish
  case shutdown ρ t =>
    exact wp_reply (keeps_shutdown rfl (fun _ _ _ he => by cases he) _ _ hstart) free_finish
  case persistInterrupted ρ r => exact wp_reply (keeps_interrupted rfl _ _ hstart) free_finish
  case cleanup ρ r d =>
    exact wp_reply (keeps_cleanup rfl (fun _ _ _ he => by cases he) _ _ hstart) free_finish
  all_goals exact absurd h.1 (by simp [Call.manages])

end Calls

end Index

def Call.created : Call → Option RunId
  | .createOrReject _ a => some a.runId
  | _ => none

def FreshCalls (p : RunPool) : RunAction → Prop
  | .call l => l.manages = true
      ∧ ∀ t ∈ p.tasks, l.created.isSome = true → t.label.created ≠ l.created
  | _ => True

instance (p : RunPool) (a) : Decidable (FreshCalls p a) := by
  rcases a with ⟨⟩ <;> dsimp only [FreshCalls] <;> infer_instance

theorem FreshCalls.fresh {p : RunPool} {l : Call} {t : Task World runSig Reply} {r : RunId}
    (h : FreshCalls p (.call l)) (ht : t ∈ p.tasks) (hr : l.created = some r) :
    t.label.created ≠ some r := hr ▸ h.2 t ht (by rw [hr]; rfl)

namespace Index

/-- What is known of the tasks: each creates a run of its own, and they created every run. -/
structure Catalog (p : RunPool) : Prop where
  manages : ∀ t ∈ p.tasks, t.label.manages = true
  inj : p.Distinct Call.created
  known : ∀ ρ r, r ∈ (p.shared.managers ρ).runs → ∃ t ∈ p.tasks, t.label.created = some r

theorem not_task_of_manages {l : Call} (h : l.manages) : l.isTask = false := by
  cases l <;> first | rfl | simp [Call.manages] at h

theorem env_sameIndex (e : EnvEvent) (w : World) (ρ : ReplicaId) :
    ((e.apply w).managers ρ).lock = (w.managers ρ).lock
      ∧ (w.managers ρ).SameIndex ((e.apply w).managers ρ) := by
  have hrec : ∀ ρ' r (f : RunRecord → RunRecord),
      (∀ x, (f x).runId = x.runId ∧ (f x).threadId = x.threadId ∧ (f x).status = x.status) →
      ((w.updateRecord ρ' r f).managers ρ).lock = (w.managers ρ).lock
        ∧ (w.managers ρ).SameIndex ((w.updateRecord ρ' r f).managers ρ) := by
    intro ρ' r f hf
    refine ⟨w.updateRecord_lock ρ' ρ r f, ?_⟩
    by_cases hρ : ρ = ρ'
    · subst hρ
      rw [updateRecord_managers]
      refine ⟨rfl, rfl, fun r' => ?_⟩
      dsimp only
      split_ifs with hr
      · subst hr
        simp [Option.map_map, Function.comp_def, hf]
      · rfl
    · rw [updateRecord_of_ne _ _ _ _ _ hρ]
      exact .refl _
  cases e with
  | tick d => exact ⟨rfl, .refl _⟩
  | attachTask ρ' r | settleTask ρ' r c => exact hrec ρ' r _ fun x => ⟨rfl, rfl, rfl⟩
  | writeLease k v => exact ⟨rfl, .refl _⟩

theorem isVerified : Verified indexContract FreshCalls where
  verified := verified
  may _ _ _ _ _ _ _ _ := trivial
  mayResume _ _ _ _ _ _ _ _ _ := trivial

theorem runs_of_step {p p' : RunPool} {a : RunAction} (hok : indexContract.Ok p) (hx : Catalog p)
    (hc : FreshCalls p a) (hs : p.step runSystem a = some p') {ρ : ReplicaId} {r : RunId}
    (hr : r ∈ (p'.shared.managers ρ).runs) :
    r ∈ (p.shared.managers ρ).runs
      ∨ ∃ i t, a.actor = some i ∧ p.tasks[i]? = some t ∧ t.label.created = some r := by
  have hsect : ∀ i l q o, p' = p.put i l q →
      (∃ t, p.tasks[i]? = some t ∧ t.label = l ∧ t.state.op? = none) →
      a.actor = some i → indexContract.sect i l p.shared q.1 o →
      r ∈ (p.shared.managers ρ).runs
        ∨ ∃ i t, a.actor = some i ∧ p.tasks[i]? = some t ∧ t.label.created = some r := by
    rintro i l q o rfl ⟨t, ht, rfl, -⟩ ha hsec
    rcases hsec ρ r hr with hr | ⟨b, hl, rfl⟩
    · exact .inl hr
    · exact .inr ⟨i, t, ha, ht, by rw [hl]; rfl⟩
  cases a with
  | call l =>
    cases hs
    exact .inl hr
  | env e =>
    cases hs
    exact .inl ((env_sameIndex e p.shared ρ).2.runs ▸ hr)
  | start i =>
    obtain ⟨l, q, hp, ht, hy, -⟩ := isVerified.section_of_start hok hs
    exact hsect i l q _ hp ht rfl hy.sect
  | resume i c =>
    obtain ⟨l, q, hp, ht, hy, -⟩ := isVerified.section_of_resume hok hc hs
    exact hsect i l q _ hp ht rfl hy.sect
  | perform i o =>
    obtain ⟨l, op, k, s, x, ht, hx', rfl, -⟩ := isVerified.effect_of_perform hok hc hs
    have hlab := not_task_of_manages (hx.manages _ (mem_of_getElem? ht))
    left
    cases hop : op.isAcquire with
    | false =>
      have hm := (execOp_leaves hlab hx').managers hop
      change r ∈ (s.managers ρ).runs at hr
      rwa [hm] at hr
    | true =>
      cases op <;> simp [Op.isAcquire] at hop
      rename_i ρ'
      rcases exec_acquire hlab hx' with ⟨-, -, rfl⟩ | ⟨-, rfl⟩
      · change r ∈ ((p.shared.lockBy ρ' i).managers ρ).runs at hr
        by_cases hρ : ρ = ρ'
        · subst hρ
          simpa [lockBy] using hr
        · rwa [lockBy, setManager_of_ne _ _ _ _ hρ] at hr
      · exact hr

theorem sound : Sound indexContract FreshCalls Catalog where
  toVerified := isVerified
  call := by
    intro p l _ hx hc
    refine ⟨hc.1, ?_⟩
    rintro ρ a rfl hr
    obtain ⟨t, ht, hcr⟩ := hx.known ρ _ hr
    exact hc.fresh ht rfl hcr
  env := by
    rintro p e s hok - - he
    cases he
    refine ⟨fun ρ hl => ?_, fun j ρ hl => ?_⟩
    · obtain ⟨h1, h2⟩ := env_sameIndex e p.shared ρ
      rw [h1] at hl
      exact ⟨h2.settles.listed (hok.inv ρ hl).1, h2.settles.single (hok.inv ρ hl).2⟩
    · obtain ⟨h1, h2⟩ := env_sameIndex e p.shared ρ
      exact ⟨h1.trans hl, h2⟩
  stable := by
    intro p a p' j t hok hx hc hs ht hne _ _ has
    have hun : t.label.Unregistered p.shared → t.label.Unregistered p'.shared := by
      intro hu ρ b hl hr
      rcases runs_of_step hok hx hc hs hr with hr | ⟨i, t', hi, ht', hcr⟩
      · exact hu ρ b hl hr
      · have : i = j := hx.inj i j t' t b.runId ht' ht hcr (by rw [hl]; rfl)
        exact hne (this ▸ hi)
    obtain ⟨l, st⟩ := t
    rcases st with _ | ⟨op, k⟩ | ⟨op, k, x⟩ | x
    · exact ⟨has.1, hun has.2⟩
    · exact fun ho => hun (has ho)
    · trivial
    · trivial
  extra := by
    intro p a p' hok hx hc hs
    refine ⟨fun t' ht' => ?_, ?_, fun ρ r hr => ?_⟩
    · obtain ⟨j, hj⟩ := mem_iff_getElem?.1 ht'
      rcases isVerified.label_of_step hok hc hs hj with ⟨t, ht, hl⟩ | ⟨-, -, rfl | ⟨t, -, ρ, r, hl⟩⟩
      · exact hl ▸ hx.manages t (mem_of_getElem? ht)
      · exact hc.1
      · rw [hl]
        rfl
    · refine isVerified.distinct_of_step hok hc hs ?_ ?_ hx.inj
      · rintro l l' ⟨ρ, r, rfl⟩
        rfl
      · rintro l r rfl hr t ht
        exact hc.fresh ht hr
    · rcases runs_of_step hok hx hc hs hr with hr | ⟨i, t, -, ht, hcr⟩
      · obtain ⟨t, ht, hcr⟩ := hx.known ρ r hr
        obtain ⟨j, hj⟩ := mem_iff_getElem?.1 ht
        obtain ⟨t', ht', hl⟩ := Pool.label_kept hs hj
        exact ⟨t', mem_of_getElem? ht', hl ▸ hcr⟩
      · obtain ⟨t', ht', hl⟩ := Pool.label_kept hs ht
        exact ⟨t', mem_of_getElem? ht', hl ▸ hcr⟩

end Index

def World.Empty (w : World) : Prop := ∀ ρ, (w.managers ρ).lock = none
  ∧ (w.managers ρ).runs = [] ∧ (w.managers ρ).runsByThread = .empty

theorem Index.listed_single_of_runs {w : World} {p : RunPool} (hw : w.Empty)
    (h : Runs FreshCalls w.pool p) {ρ : ReplicaId} (hl : (p.shared.managers ρ).lock = none) :
    (p.shared.managers ρ).Listed ∧ (p.shared.managers ρ).Single := by
  have hinv : indexContract.inv w := by
    intro ρ' _
    obtain ⟨-, h1, h2⟩ := hw ρ'
    refine ⟨⟨by rw [h1]; exact nodup_nil, by simp [h1], ?_, ?_⟩, ?_⟩
    · simp [h1, h2, OrdDict.get?_empty]
    · intro t b hb
      simp [h2, OrdDict.get?_empty] at hb
    · intro r hr
      simp [h1] at hr
  have hok : indexContract.Ok w.pool := ⟨hinv, fun i t ht => by simp [pool] at ht,
    fun i t ht => by simp [pool] at ht⟩
  have hcat : Index.Catalog w.pool := by
    refine ⟨fun t ht => by simp [pool] at ht, fun i j t t' r hi => by simp [pool] at hi,
      fun ρ' r hr => ?_⟩
    rw [pool, (hw ρ').2.1] at hr
    simp at hr
  exact (Index.sound.steps hok hcat h).1.inv ρ hl

/-- In every state the manager's calls reach from empty managers, a free lock means that the index
of each thread lists its records in `_runs`, in their order, that no bucket is empty and that at
most one of the records is pending or running. -/
theorem thread_index_exact_single_inflight {w : World} {p : RunPool} (hw : w.Empty)
    (h : Runs FreshCalls w.pool p) (ρ : ReplicaId) (hl : (p.shared.managers ρ).lock = none)
    (t : ThreadId) :
    (p.shared.managers ρ).threadRecordsLocked t
        = ((p.shared.managers ρ).records.filter fun x => x.threadId = t)
      ∧ (∀ b ∈ (p.shared.managers ρ).runsByThread.values, b ≠ [])
      ∧ ((((p.shared.managers ρ).records.filter fun x => x.threadId = t).filter
          fun x => x.status.inflight)).length ≤ 1 := by
  obtain ⟨hm, hs⟩ := Index.listed_single_of_runs hw h hl
  refine ⟨RunManager.threadRecordsLocked_eq hm t, fun b hb => ?_, RunManager.inflight_le_one hm hs t⟩
  obtain ⟨t', ht'⟩ := OrdDict.mem_values_iff.1 hb
  exact hm.full t' b ht'

def interruptedRun : List RunAction :=
  [.call (.createOrReject 0 { runId := "a", threadId := "t" }),
    .call (.createOrReject 0 { runId := "b", threadId := "t", multitaskStrategy := "interrupt" }),
    .start 0, .perform 0 .ok, .resume 0 false, .perform 0 .ok, .resume 0 false,
    .start 1, .perform 1 .ok, .resume 1 false, .perform 1 .ok, .resume 1 false]

theorem thread_index_after_interrupt :
    ∃ p, Runs FreshCalls ({} : World).pool p ∧ (p.shared.managers 0).lock = none
      ∧ (p.shared.managers 0).records.length = 2
      ∧ (p.shared.managers 0).threadRecordsLocked "t"
        = ((p.shared.managers 0).records.filter fun x => x.threadId = "t")
      ∧ (∀ b ∈ (p.shared.managers 0).runsByThread.values, b ≠ [])
      ∧ ((((p.shared.managers 0).records.filter fun x => x.threadId = "t").filter
          fun x => x.status.inflight)).length ≤ 1 := by
  have hrun : Runs FreshCalls ({} : World).pool
      (({} : World).pool.final runSystem interruptedRun) :=
    Pool.steps_final (by decide) (by decide)
  exact ⟨_, hrun, by decide, by decide,
    thread_index_exact_single_inflight (fun _ => ⟨rfl, rfl, rfl⟩) hrun 0 (by decide) "t"⟩

end DeerFlow

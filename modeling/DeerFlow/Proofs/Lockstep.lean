import DeerFlow.Proofs.Locking
import DeerFlow.Proofs.Stretch

/-!
# Memory and store in lockstep

`set_status` and `cancel` change the record under the lock, capture its `row_version` there and
write the status after an `await`, if the row still has that version. With no other writer, the
stored status is the record's whenever no such write is on its way.
-/

namespace DeerFlow

open List Option Coop Coop.Contract World Coro

structure World.Holds (w : World) (ρ : ReplicaId) (r : RunId) : Prop where
  hasStore : (w.managers ρ).hasStore = true
  mem : r ∈ (w.managers ρ).runs
  record : ∃ x, w.record? ρ r = some x
  row : ∃ y, w.row? r = some y

def Call.moves (ρ : ReplicaId) (r : RunId) : Call → Bool
  | .setStatus ρ' r' _ _ => ρ' = ρ && r' = r
  | .cancel ρ' r' _ => ρ' = ρ && r' = r
  | _ => false

namespace Lockstep

def Writes (r : RunId) (op : Op) : Prop :=
  op.writesRow = true → (∃ st e v, op = .updateStatus r st e (some v)) ∨ ∃ a, op = .requestCancel r a

def contract (ρ : ReplicaId) (r : RunId) : Contract runSystem where
  inv w := w.Holds ρ r
  rely _ _ _ := True
  refl _ _ := trivial
  trans _ _ := trivial
  starts _ _ := False
  init l _ := l.moves ρ r = true
  hold _ _ op _ := Writes r op
  held _ _ _ _ _ := True
  post _ _ _ _ := True
  sect _ _ w w' o := w'.rows = w.rows ∧ (w'.memStatus ρ r = w.memStatus ρ r
    ∨ ∃ x st e, w.record? ρ r = some x ∧ w'.memStatus ρ r = some st
      ∧ o = some (.updateStatus r st e (some x.rowVersion)))
  may _ _ _ o _ := Outcome.isOk o = true
  mayResume _ _ _ _ c _ := c = false

variable {ρ : ReplicaId} {r : RunId} {i : ℕ} {l : Call} {α : Type} {b : Sect World runSig}
  {w w' : World}
  {st : RunStatus} {op : Op} {e : Option String}

theorem holds_of_effect {a : Answer} {x : op.Res} (hw : Writes r op)
    (h : op.effect i a w = some (w', x)) (hi : w.Holds ρ r) : w'.Holds ρ r := by
  have hl := Op.effect_leaves h
  have hrow : ∃ y, w'.row? r = some y := by
    cases hwr : op.writesRow with
    | false => rw [row?, hl.rows hwr]; exact hi.row
    | true =>
      obtain ⟨y, hy⟩ := hi.row
      rcases hw hwr with ⟨st, e, v, rfl⟩ | ⟨act, rfl⟩
      · cases a <;> simp only [Op.effect, reduceCtorEq] at h
        simp only [updateStatus, some.injEq] at h
        split at h <;> cases h
        · exact ⟨y, hy⟩
        · simp [row?, setRow]
      · cases a <;> simp only [Op.effect, reduceCtorEq] at h
        simp only [requestCancel, hy, some.injEq] at h
        split_ifs at h <;> cases h
        · simp [row?, setRow]
        · exact ⟨y, hy⟩
  cases ho : op.isAcquire with
  | false =>
    have hm := hl.managers ho
    exact ⟨by rw [hm]; exact hi.hasStore, by rw [hm]; exact hi.mem,
      by rw [record?, hm]; exact hi.record, hrow⟩
  | true =>
    cases op <;> simp [Op.isAcquire] at ho
    rename_i ρ'
    cases a <;> simp only [Op.effect, reduceCtorEq] at h
    split_ifs at h
    cases h
    by_cases hρ : ρ = ρ'
    · subst hρ
      exact ⟨by simpa using hi.hasStore, by simpa using hi.mem,
        by simpa [record?] using hi.record, hrow⟩
    · refine ⟨?_, ?_, ?_, hrow⟩
      · rw [setManager_of_ne _ _ _ _ hρ]
        exact hi.hasStore
      · rw [setManager_of_ne _ _ _ _ hρ]
        exact hi.mem
      · rw [record?, setManager_of_ne _ _ _ _ hρ]
        exact hi.record

theorem wp_await {Q : Except Exc op.Res → Sect World runSig → World → Prop}
    (hlab : l.isTask = false) (P : op.Res → Prop)
    (hP : ∀ w w' a x, w.Holds ρ r → op.effect i a w = some (w', x) → P x)
    (hy : (contract ρ r).Yields i l b w (some op)) (hh : Writes r op)
    (hQ : ∀ w x, w.Holds ρ r → P x → Q (.ok x) ⟨w, []⟩ w) :
    (contract ρ r).wp i l (awaitOp op) Q b w := by
  refine wp_perform (fun _ => True) (fun x _ => ∃ y, x = .ok y ∧ P y) hy hh trivial
    (fun _ _ _ _ h => h) ?_ (fun _ _ _ _ _ h => h) ?_
  · rintro w o w' x hi - - ho hx
    rcases execOp_cases hx with ⟨a, y, -, he, rfl⟩ | ⟨e, ap, rfl, -⟩ | ⟨rfl, -⟩
    · exact ⟨holds_of_effect hh he hi, fun _ _ => trivial, trivial, y, rfl, hP w w' a y hi he⟩
    · cases ho
    · cases ho
  · rintro x w c w' hi ⟨y, rfl, hy⟩ - rfl hd
    rcases deliverOp_cases hlab hd with ⟨rfl, -⟩ | ⟨ρ', -, h, -⟩
    · exact hQ w' y hi hy
    · cases h

abbrev Calm (ρ : ReplicaId) (r : RunId) (i : ℕ) (l : Call) := (contract ρ r).At i l fun _ => True

theorem sect_refl (w : World) (o : Option Op) : (contract ρ r).sect i l w w o := ⟨rfl, .inl rfl⟩

theorem calm_start (hi : w.Holds ρ r) : Calm ρ r i l ⟨w, []⟩ w := at_start hi (sect_refl w) trivial

theorem safe (hlab : l.isTask = false) (hw : Writes r op) :
    (contract ρ r).Safe i l (Calm ρ r i l) op := fun _ _ h =>
  wp_await hlab (fun _ => True) (fun _ _ _ _ _ _ => trivial) (h.yields _) hw
    (fun _ _ hi _ => calm_start hi)

theorem keeps_mirrorRowVersion (v : ℕ) :
    (contract ρ r).Keeps i l (Calm ρ r i l) (mirrorRowVersion ρ r v) := by
  refine keeps_modify fun b w h => ?_
  obtain ⟨x, hx⟩ := h.inv.record
  refine h.step ⟨by simpa using h.inv.hasStore, by simpa using h.inv.mem, ⟨_, by simp [hx]; rfl⟩,
    h.inv.row⟩ (fun _ _ => trivial) (fun _ _ hi => hi) ?_ trivial
  rintro w0 o ⟨hr, hs⟩
  have hsame : (w.updateRecord ρ r fun x => { x with rowVersion := v }).memStatus ρ r
      = w.memStatus ρ r := by simp [memStatus, hx]
  exact ⟨hr, by rw [hsame]; exact hs⟩

/-- The record has just got `st`, and the section ends at the write of it. -/
def Due (ρ : ReplicaId) (r : RunId) (st : RunStatus) (v : ℕ) (b : Sect World runSig) (w : World) :
    Prop :=
  w.Holds ρ r ∧ b.spawned = [] ∧ w.rows = b.start.rows ∧ w.memStatus ρ r = some st
    ∧ b.start.memVersion ρ r = some v

theorem Due.yields {v : ℕ} (h : Due ρ r st v b w) :
    (contract ρ r).Yields i l b w (some (.updateStatus r st e (some v))) := by
  obtain ⟨hi, hb, hr, hs, hv⟩ := h
  obtain ⟨x, hx, rfl⟩ := map_eq_some_iff.1 hv
  exact ⟨hi, fun _ _ => trivial, by simp [hb], hr, .inr ⟨x, st, e, hx, hs, rfl⟩⟩

theorem wp_persistRecordStatus {v : ℕ}
    (hlab : l.isTask = false) (h : Due ρ r st v b w) :
    (contract ρ r).wp i l (persistRecordStatus ρ r st e (some v)) (fun _ => Calm ρ r i l) b w := by
  obtain ⟨x, hx⟩ := h.1.record
  simp only [persistRecordStatus, persistStatus, getManager, bind_eq, wp_bind, wp_get, wp_ret,
    andThen, pure_eq, hx, h.1.hasStore, Bool.not_true, Bool.false_eq_true, if_false]
  refine wp_orReturn ?_
  rw [wp_bind]
  refine wp_storeCall (wp_await hlab (fun _ => True) (fun _ _ _ _ _ _ => trivial) h.yields
    (fun _ => .inl ⟨st, e, v, rfl⟩) fun w updated hi _ => ⟨?_, nofun⟩)
  have hcalm : Calm ρ r i l ⟨w, []⟩ w := calm_start hi
  dsimp only [andThen]
  refine wp_of_keeps (K := Calm ρ r i l) ?_ hcalm fun x b w h y hy => h
  split_ifs
  · -- the row is there, so a write that misses stays one
    intro b w h
    rw [wp_bind]
    refine wp_await hlab (fun x => ∃ y, x = some y) ?_ (h.yields _) nofun ?_
    · rintro w w' a x hi he
      cases a <;> simp only [Op.effect, reduceCtorEq] at he
      cases he
      exact hi.row
    · rintro w x hi ⟨y, rfl⟩
      exact calm_start hi
  · exact keeps_bind (keeps_mirrorRowVersion _) fun _ => keeps_pure _

theorem wp_lock {p : Co α} {Q : Except Exc α → Sect World runSig → World → Prop}
    (hlab : l.isTask = false) (hy : (contract ρ r).Yields i l b w (some (.acquire ρ)))
    (hp : ∀ w, w.Holds ρ r → (contract ρ r).wp i l p (fun x b w => Q x b (w.unlock ρ)) ⟨w, []⟩ w) :
    (contract ρ r).wp i l (withLock ρ p) Q b w := by
  unfold withLock
  rw [bind_eq, wp_bind]
  refine wp_await hlab (fun _ => True) (fun _ _ _ _ _ _ => trivial) hy nofun ?_
  rintro w - hi -
  dsimp only [andThen]
  rw [wp_tryFinally]
  exact hp w hi

theorem holds_unlock (h : w.Holds ρ r) : (w.unlock ρ).Holds ρ r :=
  ⟨by simpa using h.hasStore, by simpa using h.mem, by simpa using h.record, h.row⟩

theorem calm_unlock (h : Calm ρ r i l b w) : Calm ρ r i l b (w.unlock ρ) := by
  refine h.step (holds_unlock h.inv) (fun _ _ => trivial) (fun _ _ h => h) ?_ trivial
  rintro w0 o hs
  simpa [contract, memStatus] using hs

theorem get_of_holds (h : w.Holds ρ r) : ∃ x, (w.managers ρ).get? r = some x
    ∧ w.record? ρ r = some x := by
  obtain ⟨x, hx⟩ := h.record
  exact ⟨x, by rw [RunManager.get?, if_pos h.mem]; exact hx, hx⟩

theorem due_update {x : RunRecord} {f : RunRecord → RunRecord}
    (h : w.Holds ρ r) (hx : w.record? ρ r = some x) (hf : (f x).status = st) :
    Due ρ r st x.rowVersion ⟨w, []⟩ ((w.updateRecord ρ r f).unlock ρ) := by
  refine ⟨holds_unlock ⟨by simpa using h.hasStore, by simpa using h.mem, ?_, h.row⟩, rfl, rfl,
    ?_, ?_⟩
  · exact ⟨f x, by simp [hx]⟩
  · simp [memStatus, hx, hf]
  · simp [memVersion, hx]

theorem wp_setStatus (hlab : l.isTask = false)
    (h : Calm ρ r i l b w) :
    (contract ρ r).wp i l (setStatus ρ r st e) (fun _ => Calm ρ r i l) b w := by
  rw [setStatus, bind_eq, wp_bind]
  refine wp_lock hlab (h.yields _) fun w hi => ?_
  obtain ⟨x, hg, hx⟩ := get_of_holds hi
  simp only [setStatusLocked, bind_eq, wp_bind, wp_get, andThen, hg]
  split
  · exact calm_unlock (calm_start hi)
  · simp only [wp_bind, wp_modify, andThen, pure_eq, wp_ret]
    refine wp_mono ?_ _ _ _ (wp_persistRecordStatus hlab (due_update hi hx rfl))
    rintro (e | y) b w h
    · exact h
    · exact wp_lock hlab (h.yields _) fun w hi => calm_unlock (calm_start hi)

theorem wp_cancel {action : String} (hlab : l.isTask = false) (h : Calm ρ r i l b w) :
    (contract ρ r).wp i l (cancel ρ r action) (fun _ => Calm ρ r i l) b w := by
  rw [cancel, bind_eq, wp_bind]
  refine wp_lock hlab (h.yields _) fun w hi => ?_
  obtain ⟨x, hg, hx⟩ := get_of_holds hi
  simp only [cancelLocked, bind_eq, wp_bind, wp_get, andThen, hg]
  split_ifs
  · exact calm_unlock (calm_start hi)
  · exact calm_unlock (calm_start hi)
  · split
    · exact calm_unlock (calm_start hi)
    · simp only [wp_bind, wp_modify, andThen, pure_eq, wp_ret]
      refine wp_mono ?_ _ _ _ (wp_persistRecordStatus hlab (due_update hi hx rfl))
      rintro (e | y) b w h
      · exact h
      · have hnotify : (contract ρ r).Keeps i l (Calm ρ r i l)
            (publishCancelNotify ρ r action >>= fun _ => (pure true : Co Bool)) :=
          keeps_bind (keeps_publishCancelNotify (safe hlab nofun)) fun _ =>
            keeps_pure _
        refine keeps_getManager_bind (fun m => ?_) b w h
        split_ifs
        · exact keeps_bind (keeps_orReturn (keeps_bind (keeps_perform
            (safe hlab fun _ => .inr ⟨action, rfl⟩)) fun _ => keeps_pure _)) fun _ => hnotify
        · exact hnotify

theorem calm_finish (x : Except Exc Reply) (b : Sect World runSig) (w : World)
    (h : Calm ρ r i l b w) : (contract ρ r).Finish i l x b w := ⟨h.yields none, trivial⟩

theorem verified (i : ℕ) (l : Call) (w : World) (hi : w.Holds ρ r)
    (h : (contract ρ r).init l w) :
    (contract ρ r).wp i l (prog l) ((contract ρ r).Finish i l) ⟨w, []⟩ w := by
  cases l <;> simp only [contract, Call.moves, Bool.and_eq_true, decide_eq_true_eq,
    Bool.false_eq_true] at h
  · obtain ⟨rfl, rfl⟩ := h
    exact wp_reply (wp_setStatus rfl (calm_start hi)) calm_finish
  · obtain ⟨rfl, rfl⟩ := h
    exact wp_reply (wp_cancel rfl (calm_start hi)) calm_finish

end Lockstep

def Op.cas? : Op → Option (RunId × RunStatus × ℕ)
  | .updateStatus r st _ (some v) => some (r, st, v)
  | _ => none

/-- Only `set_status` and `cancel` of the run are called; their operations go through, and no caller
is cancelled. -/
def StatusCalls (ρ : ReplicaId) (r : RunId) : RunAction → Prop
  | .call l => l.moves ρ r = true
  | .perform _ o => o.isOk = true
  | .resume _ c => c = false
  | _ => True

/-- A step that changes the record's status finds the row version it captures in the row. -/
def Captures (ρ : ReplicaId) (r : RunId) (p : RunPool) (a : RunAction) : Prop :=
  ∀ p' ∈ p.step runSystem a, p'.shared.memStatus ρ r ≠ p.shared.memStatus ρ r →
    p.shared.memVersion ρ r = p.shared.storedVersion r

def Lands (ρ : ReplicaId) (r : RunId) (p : RunPool) : RunAction → Prop
  | .perform i _ => ∀ t ∈ p.tasks[i]?, ∀ c ∈ t.state.op?.bind Op.cas?, c.1 = r →
      p.shared.storedVersion r = some c.2.2 → p.shared.memStatus ρ r = some c.2.1
  | _ => True

def LockstepRun (ρ : ReplicaId) (r : RunId) (p : RunPool) (a : RunAction) : Prop :=
  StatusCalls ρ r a ∧ Captures ρ r p a ∧ Lands ρ r p a

instance (ρ : ReplicaId) (r : RunId) (a) : Decidable (StatusCalls ρ r a) := by
  rcases a with ⟨⟩ <;> dsimp only [StatusCalls] <;> infer_instance

instance (ρ : ReplicaId) (r : RunId) (p : RunPool) (a) : Decidable (Lands ρ r p a) := by
  rcases a with ⟨⟩ <;> dsimp only [Lands] <;> infer_instance

instance (ρ : ReplicaId) (r : RunId) (p : RunPool) (a : RunAction) :
    Decidable (Captures ρ r p a) := inferInstanceAs (Decidable (∀ p' ∈ p.step runSystem a, _))

instance (ρ : ReplicaId) (r : RunId) (p : RunPool) (a : RunAction) :
    Decidable (LockstepRun ρ r p a) := inferInstanceAs (Decidable (_ ∧ _ ∧ _))

namespace Lockstep

variable {ρ : ReplicaId} {r : RunId}
  {l : Call}

/-- A compare-and-set of the record's status, with the version of the row, is on its way. -/
def OnItsWay (ρ : ReplicaId) (r : RunId) (p : RunPool) : Prop :=
  ∃ (i : ℕ) (t : Task World runSig Reply) (st : RunStatus) (v : ℕ), p.tasks[i]? = some t
    ∧ t.state.op?.bind Op.cas? = some (r, st, v) ∧ p.shared.memStatus ρ r = some st
    ∧ p.shared.storedVersion r = some v

def Agree (ρ : ReplicaId) (r : RunId) (p : RunPool) : Prop :=
  (∀ t ∈ p.tasks, t.label.moves ρ r = true)
    ∧ (p.shared.rowStatus r = p.shared.memStatus ρ r ∨ OnItsWay ρ r p)

theorem isVerified : Verified (contract ρ r) (LockstepRun ρ r) where
  verified := verified
  may _ _ _ _ _ _ hc _ := hc.1
  mayResume _ _ _ _ _ _ _ hc _ := hc.1

theorem env_frame (e : EnvEvent) (w : World) : (e.apply w).rows = w.rows
    ∧ (e.apply w).memStatus ρ r = w.memStatus ρ r ∧ (w.Holds ρ r → (e.apply w).Holds ρ r) := by
  have hrec : ∀ ρ' r' (f : RunRecord → RunRecord), (∀ x, (f x).status = x.status) →
      (w.updateRecord ρ' r' f).memStatus ρ r = w.memStatus ρ r
        ∧ (w.Holds ρ r → (w.updateRecord ρ' r' f).Holds ρ r) := by
    intro ρ' r' f hf
    by_cases h : ρ = ρ' ∧ r = r'
    · obtain ⟨rfl, rfl⟩ := h
      refine ⟨?_, fun hw => ⟨by simpa using hw.hasStore, by simpa using hw.mem, ?_, hw.row⟩⟩
      · simp [memStatus, Option.map_map, Function.comp_def, hf]
      · obtain ⟨x, hx⟩ := hw.record
        exact ⟨f x, by simp [hx]⟩
    · have h' : ρ ≠ ρ' ∨ r ≠ r' := by tauto
      refine ⟨?_, fun hw => ⟨by simpa using hw.hasStore, by simpa using hw.mem, ?_, hw.row⟩⟩
      · simp [memStatus, updateRecord_record_of_ne _ _ _ _ _ _ h']
      · rw [updateRecord_record_of_ne _ _ _ _ _ _ h']
        exact hw.record
  cases e with
  | tick d => exact ⟨rfl, rfl, fun h => ⟨h.hasStore, h.mem, h.record, h.row⟩⟩
  | attachTask ρ' r' | settleTask ρ' r' c => exact ⟨rfl, hrec ρ' r' _ fun _ => rfl⟩
  | writeLease k v => exact ⟨rfl, rfl, fun h => ⟨h.hasStore, h.mem, h.record, h.row⟩⟩

theorem onItsWay_put {p : RunPool} {i : ℕ}
    {q : World × List Call × TaskState World runSig Reply} (h : OnItsWay ρ r p)
    (hi : ∀ t st v, p.tasks[i]? = some t → p.shared.memStatus ρ r = some st →
      p.shared.storedVersion r = some v → t.state.op?.bind Op.cas? ≠ some (r, st, v))
    (hs : q.1.memStatus ρ r = p.shared.memStatus ρ r)
    (hv : q.1.storedVersion r = p.shared.storedVersion r) : OnItsWay ρ r (p.put i l q) := by
  obtain ⟨j, t, st, v, hj, hc, hm, hst⟩ := h
  have hne : i ≠ j := by
    rintro rfl
    exact hi t st v hj hm hst hc
  have hlt : j < p.tasks.length := (List.getElem?_eq_some_iff.1 hj).1
  refine ⟨j, t, st, v, ?_, hc, hs.trans hm, hv.trans hst⟩
  simp only [Pool.put, getElem?_append, length_set, hlt, if_true, getElem?_set, if_neg hne]
  exact hj

theorem agree_section {p p' : RunPool} {a : RunAction} {i : ℕ}
    {q : World × List Call × TaskState World runSig Reply} (hx : Agree ρ r p)
    (hc : Captures ρ r p a) (hs : p.step runSystem a = some p') (hp : p' = p.put i l q)
    (ht : ∃ t, p.tasks[i]? = some t ∧ t.label = l ∧ t.state.op? = none)
    (hsect : (contract ρ r).sect i l p.shared q.1 q.2.2.op?) :
    p'.shared.rowStatus r = p'.shared.memStatus ρ r ∨ OnItsWay ρ r p' := by
  have hcap : q.1.memStatus ρ r ≠ p.shared.memStatus ρ r →
      p.shared.memVersion ρ r = p.shared.storedVersion r := by
    intro hne
    exact hc p' hs (by rw [hp]; exact hne)
  subst hp
  obtain ⟨t, hi, -, hop⟩ := ht
  obtain ⟨hrows, hst⟩ := hsect
  have hrow : q.1.rowStatus r = p.shared.rowStatus r := by rw [rowStatus, row?, hrows]; rfl
  have hver : q.1.storedVersion r = p.shared.storedVersion r := by
    rw [storedVersion, row?, hrows]
    rfl
  by_cases hsame : q.1.memStatus ρ r = p.shared.memStatus ρ r
  · rcases hx.2 with h | h
    · exact .inl (hrow.trans (h.trans hsame.symm))
    · refine .inr (onItsWay_put h (fun t' st v ht' _ _ => ?_) hsame hver)
      rw [hi] at ht'
      cases ht'
      simp [hop]
  · obtain ⟨x, st, e, hx', hm, ho⟩ := hst.resolve_left hsame
    have hv := hcap hsame
    rw [memVersion, hx'] at hv
    have hlt : i < p.tasks.length := (List.getElem?_eq_some_iff.1 hi).1
    refine .inr ⟨i, ⟨l, q.2.2⟩, st, x.rowVersion, ?_, ?_, hm, hver.trans hv.symm⟩
    · simp [Pool.put, getElem?_append, hlt]
    · rw [ho]
      rfl

theorem agree_perform {p : RunPool} {i : ℕ} {op : Op} {o : Outcome}
    {k : Except Exc op.Res → Co Reply} {w' : World} {x : Except Exc op.Res} (hx : Agree ρ r p)
    (hl : Lands ρ r p (.perform i o)) (ht : p.tasks[i]? = some ⟨l, .pending op k⟩)
    (hw : Writes r op) (hok : o.isOk) (he : execOp i l op o p.shared = some (w', x)) :
    w'.rowStatus r = w'.memStatus ρ r
      ∨ OnItsWay ρ r (p.put i l (w', [], .ready op k x)) := by
  obtain ⟨a, y, he⟩ : ∃ a y, op.effect i a p.shared = some (w', y) := by
    rcases execOp_cases he with ⟨a, y, -, he, -⟩ | ⟨e, ap, rfl, -⟩ | ⟨rfl, -⟩
    · exact ⟨a, y, he⟩
    · cases hok
    · cases hok
  have hmem : w'.memStatus ρ r = p.shared.memStatus ρ r := by
    rw [memStatus, Op.effect_record he]
    rfl
  have hkeep : op.cas? = none → w'.rowStatus r = p.shared.rowStatus r →
      w'.storedVersion r = p.shared.storedVersion r →
      w'.rowStatus r = w'.memStatus ρ r ∨ OnItsWay ρ r (p.put i l (w', [], .ready op k x)) := by
    intro hn hr hv
    rcases hx.2 with h | h
    · exact .inl (hr.trans (h.trans hmem.symm))
    · refine .inr (onItsWay_put h (fun t st v hi _ _ => ?_) hmem hv)
      rw [ht] at hi
      cases hi
      simp [TaskState.op?, hn]
  cases hwr : op.writesRow with
  | false =>
    have hr := (Op.effect_leaves he).rows hwr
    refine hkeep ?_ ?_ ?_
    · cases op <;> first | rfl | simp [Op.writesRow] at hwr
    · rw [rowStatus, row?, hr]
      rfl
    · rw [storedVersion, row?, hr]
      rfl
  | true =>
    rcases hw hwr with ⟨st, e, v, rfl⟩ | ⟨act, rfl⟩
    · cases a <;> simp only [Op.effect, reduceCtorEq] at he
      simp only [updateStatus, some.injEq] at he
      split at he
      · -- the write misses, so it was not the one the store waits for
        rename_i hmiss
        cases he
        rcases hx.2 with h | h
        · exact .inl h
        · refine .inr (onItsWay_put h (fun t st' v' hi _ hv hcas => ?_) rfl rfl)
          rw [ht] at hi
          cases hi
          cases hcas
          obtain ⟨z, hz, rfl⟩ := map_eq_some_iff.1 hv
          simp [matchRow, hz] at hmiss
      · rename_i z hz
        cases he
        left
        have hz' := (p.shared.matchRow_some r).1 hz
        have hver : p.shared.storedVersion r = some v := by
          rw [storedVersion, hz'.1, map_some, hz'.2]
        rw [hmem, hl _ ht _ rfl rfl hver]
        simp [rowStatus]
    · cases a <;> simp only [Op.effect, reduceCtorEq] at he
      simp only [requestCancel, some.injEq] at he
      split at he
      · cases he
        exact hkeep rfl rfl rfl
      · rename_i z hz
        split_ifs at he <;> cases he
        · refine hkeep rfl ?_ ?_
          · rw [rowStatus, rowStatus, setRow_self, hz]
            rfl
          · rw [storedVersion, storedVersion, setRow_self, hz]
            rfl
        · exact hkeep rfl rfl rfl

theorem sound : Sound (contract ρ r) (LockstepRun ρ r) (Agree ρ r) where
  toVerified := isVerified
  call _ _ _ _ hc := hc.1
  env := by
    rintro p e s hok - - he
    cases he
    exact ⟨(env_frame e p.shared).2.2 hok.inv, fun _ => trivial⟩
  stable := by
    rintro p a p' j ⟨l, _ | ⟨op, k⟩ | ⟨op, k, x⟩ | x⟩ - - - - - - - - has
    · exact has
    · exact has
    · trivial
    · trivial
  extra := by
    intro p a p' hok hx hc hs
    refine ⟨fun t' ht' => ?_, ?_⟩
    · obtain ⟨j, hj⟩ := mem_iff_getElem?.1 ht'
      rcases isVerified.label_of_step hok hc hs hj with ⟨t, ht, hl⟩ | ⟨-, -, rfl | ⟨t, -, h⟩⟩
      · exact hl ▸ hx.1 t (mem_of_getElem? ht)
      · exact hc.1
      · exact h.elim
    · cases a with
      | call l =>
        cases hs
        refine hx.2.imp id fun ⟨j, t, st, v, hj, h⟩ => ⟨j, t, st, v, ?_, h⟩
        rw [getElem?_append_left (List.getElem?_eq_some_iff.1 hj).1]
        exact hj
      | env e =>
        cases hs
        obtain ⟨h1, h2, -⟩ := env_frame (ρ := ρ) (r := r) e p.shared
        simp only [OnItsWay, rowStatus, storedVersion, row?, h1, h2] at hx ⊢
        exact hx.2
      | start i =>
        obtain ⟨l, q, hp, ht, hy, -⟩ := isVerified.section_of_start hok hs
        exact agree_section hx hc.2.1 hs hp ht hy.sect
      | resume i c =>
        obtain ⟨l, q, hp, ht, hy, -⟩ := isVerified.section_of_resume hok hc hs
        exact agree_section hx hc.2.1 hs hp ht hy.sect
      | perform i o =>
        obtain ⟨l, op, k, s, x, ht, he, rfl, -⟩ := isVerified.effect_of_perform hok hc hs
        exact agree_perform hx hc.2.2 ht (hok.asserts i _ ht) hc.1 he

end Lockstep

/-- If each change of the record captures the row's version and each write that takes effect carries
the record's status, the stored status is the record's whenever every call has returned. -/
theorem stored_status_eq_memory_at_quiescence {ρ : ReplicaId} {r : RunId} {w : World} {p : RunPool}
    (hw : w.Holds ρ r) (hs : w.rowStatus r = w.memStatus ρ r)
    (h : Runs (LockstepRun ρ r) w.pool p) (hd : ∀ t ∈ p.tasks, t.state.isDone = true) :
    p.shared.rowStatus r = p.shared.memStatus ρ r := by
  have hok : (Lockstep.contract ρ r).Ok w.pool :=
    ⟨hw, fun i t ht => by simp [pool] at ht, fun i t ht => by simp [pool] at ht⟩
  have hag : Lockstep.Agree ρ r w.pool := ⟨fun t ht => by simp [pool] at ht, .inl hs⟩
  rcases (Lockstep.sound.steps hok hag h).2.2 with h | ⟨i, t, st, v, ht, hc, -⟩
  · exact h
  · have hdone := hd t (mem_of_getElem? ht)
    cases hst : t.state <;> simp [hst, TaskState.isDone, TaskState.op?] at hdone hc

def createdWorld : World :=
  (({} : World).pool.final runSystem
    [.call (.createOrReject 0 { runId := "a", threadId := "t" }),
      .start 0, .perform 0 .ok, .resume 0 false, .perform 0 .ok, .resume 0 false]).shared

theorem createdWorld_holds : createdWorld.Holds 0 "a" := ⟨by decide, by decide, ⟨_, rfl⟩, ⟨_, rfl⟩⟩

def startThenCancel : List RunAction :=
  [.call (.setStatus 0 "a" .running none), .call (.cancel 0 "a" "interrupt"),
    .start 0, .perform 0 .ok, .resume 0 false,
    .perform 0 .ok, .resume 0 false, .perform 0 .ok, .resume 0 false,
    .start 1, .perform 1 .ok, .resume 1 false, .perform 1 .ok, .resume 1 false,
    .perform 1 .ok, .resume 1 false]

theorem stored_status_after_start_then_cancel :
    ∃ p, Runs (LockstepRun 0 "a") createdWorld.pool p ∧ p.tasks.length = 2
      ∧ p.shared.memStatus 0 "a" = some .interrupted
      ∧ p.shared.rowStatus "a" = p.shared.memStatus 0 "a" := by
  have hrun : Runs (LockstepRun 0 "a") createdWorld.pool
      (createdWorld.pool.final runSystem startThenCancel) :=
    Pool.steps_final (by decide) (by decide)
  exact ⟨_, hrun, by decide, by decide,
    stored_status_eq_memory_at_quiescence createdWorld_holds (by decide) hrun (by decide)⟩

def cancelOvertaken : List RunAction :=
  [.call (.setStatus 0 "a" .running none), .call (.cancel 0 "a" "interrupt"),
    .start 0, .perform 0 .ok, .resume 0 false,
    .start 1, .perform 1 .ok, .resume 1 false,
    .perform 0 .ok, .perform 1 .ok, .resume 0 false, .resume 1 false,
    .perform 0 .ok, .resume 0 false, .perform 1 .ok, .resume 1 false,
    .perform 1 .ok, .resume 1 false]

/-- Both calls have returned, and the store has `running` for a run the manager has interrupted. -/
theorem stored_running_memory_interrupted :
    ∃ p, Runs (fun _ => StatusCalls 0 "a") createdWorld.pool p
      ∧ (∀ t ∈ p.tasks, t.state.isDone = true) ∧ p.shared.rowStatus "a" = some .running
      ∧ p.shared.memStatus 0 "a" = some .interrupted :=
  ⟨createdWorld.pool.final runSystem cancelOvertaken,
    Pool.steps_final (by decide) (by decide), by decide, by decide, by decide⟩

end DeerFlow

import DeerFlow.Proofs.Takeovers

/-!
# Terminal statuses in the store

A terminal status is final as long as an overwrite with `interrupted` meets neither a settled row,
nor a record that is not interrupted, nor a compare-and-set that can still land, and completion data
carries the status and version of its record.
-/

namespace DeerFlow

open List Option Coop Coop.Contract RunStatus Finality

structure World.Booted (w : World) : Prop where
  hasStore : ∀ ρ, (w.managers ρ).hasStore = true
  lock : ∀ ρ, (w.managers ρ).lock = none
  runs : ∀ ρ, (w.managers ρ).runs = []
  heap : ∀ ρ r, (w.managers ρ).heap r = none
  keyed : ∀ r y, w.row? r = some y → y.runId = r

/-- The calls that move runs, each created one with an id of its own, over a store that never
fails. -/
def MovingCalls (p : RunPool) : RunAction → Prop
  | .call (.createOrReject _ a) => p.shared.row? a.runId = none
      ∧ ∀ t ∈ p.tasks, t.label.created ≠ some a.runId
  | .call (.setStatus ..) | .call (.cancel ..) | .call (.updateRunCompletion ..) => True
  | .call (.reconcile ..) | .call (.shutdown ..) => True
  | .call _ => False
  | .perform i o => ∀ t ∈ p.tasks[i]?, ∀ op ∈ t.state.op?, op.isStore = true → o.isRaised = false
  | _ => True

def OwnCompletion (p : RunPool) : RunAction → Prop
  | .call (.updateRunCompletion ρ r st _ _ v) =>
      ∃ x ∈ p.shared.record? ρ r, st = x.status ∧ st.isTerminal = true ∧ v = some x.rowVersion
  | _ => True

/-- An overwrite finds a row that is not settled, an interrupted record, and no compare-and-set that
would move the row on. -/
def SparesTerminal (p : RunPool) : RunAction → Prop
  | .perform i _ => ∀ t ∈ p.tasks[i]?, ∀ r ∈ t.state.op?.bind Op.overwrites?,
      Finality.MayOverwrite p.shared t.label r
        ∧ ∀ t' ∈ p.tasks, ∀ c ∈ t'.state.op?.bind Op.cas?, c.1 = r →
          p.shared.storedVersion r = some c.2.2 → Legal .interrupted c.2.1
  | _ => True

def FinalRun (p : RunPool) (a : RunAction) : Prop :=
  MovingCalls p a ∧ OwnCompletion p a ∧ SparesTerminal p a

instance (w : World) (l : Call) (r : RunId) : Decidable (Finality.MayOverwrite w l r) :=
  inferInstanceAs (Decidable (_ ∧ _))

instance (p : RunPool) (a : RunAction) : Decidable (MovingCalls p a) := by
  rcases a with ⟨⟨⟩⟩ | _ | _ | _ | _ <;> dsimp only [MovingCalls] <;> infer_instance

instance (p : RunPool) (a : RunAction) : Decidable (OwnCompletion p a) := by
  unfold OwnCompletion
  split <;> infer_instance

instance (p : RunPool) (a : RunAction) : Decidable (SparesTerminal p a) := by
  rcases a with ⟨⟩ <;> dsimp only [SparesTerminal] <;> infer_instance

instance (p : RunPool) (a : RunAction) : Decidable (FinalRun p a) :=
  inferInstanceAs (Decidable (_ ∧ _ ∧ _))

namespace Finality

variable {w w' : World} {ρ : ReplicaId} {r : RunId}

/-- An operation inserts the row its call creates, moves it to another version, overwrites it, or
leaves its status alone. -/
structure RowStep (l : Call) (op : Op) (r : RunId) (w w' : World) : Prop where
  born : w.row? r = none → w'.row? r = none ∨ l.created = some r
  status : ∀ y y', w.row? r = some y → w'.row? r = some y' → y'.rowVersion = y.rowVersion →
    y'.status = y.status ∨ op.overwrites? = some r

theorem effect_row {i : ℕ} {l : Call} {op : Op} {a : Answer} {z : op.Res} (hh : Hold l w op)
    (he : op.effect i a w = some (w', z)) (r : RunId) : RowStep l op r w w' := by
  have hsame : w'.row? r = w.row? r → RowStep l op r w w' := by
    intro h
    refine ⟨fun hr => .inl (h.trans hr), fun y y' hy hy' _ => .inl ?_⟩
    rw [h, hy] at hy'
    cases hy'
    rfl
  have hset : ∀ r' (y0 y1 : RunRow), w.row? r' = some y0 → w' = w.setRow r' y1 →
      (y1.rowVersion = y0.rowVersion + 1 ∨ y1.status = y0.status ∨ op.overwrites? = some r') →
      RowStep l op r w w' := by
    rintro r' y0 y1 hy0 rfl h
    by_cases hr : r = r'
    · subst hr
      refine ⟨fun hr => (by rw [hy0] at hr; cases hr), fun y y' hy hy' hv => ?_⟩
      rw [hy0] at hy
      rw [World.setRow_self] at hy'
      cases hy
      cases hy'
      rcases h with h | h
      · omega
      · exact h
    · exact hsame (World.setRow_of_ne _ _ _ _ hr)
  cases hw : op.writesRow with
  | false => exact hsame (row_of_rows ((Op.effect_leaves he).rows hw) r)
  | true =>
    cases op <;> simp only [Op.writesRow, Bool.false_eq_true] at hw <;> cases a <;>
      simp only [Op.effect, some.injEq, reduceCtorEq] at he
    case put.unit r' pl =>
      obtain ⟨hcr, hno, -⟩ := hh
      by_cases hr : r = r'
      · subst hr
        exact ⟨fun _ => .inr hcr, fun y y' hy => by rw [hno] at hy; cases hy⟩
      · cases he
        refine hsame ?_
        rw [World.put, hno]
        exact World.setRow_of_ne _ _ _ _ hr
    case updateStatus.unit r' st e v =>
      rw [World.updateStatus] at he
      split at he
      · cases he
        exact hsame rfl
      · rename_i y hy
        cases he
        cases v with
        | some v => exact hset r' y _ ((w.matchRow_some r').1 hy).1 rfl (.inl rfl)
        | none => exact hset r' y _ ((w.matchRow_none r').1 hy) rfl (.inr (.inr rfl))
    case updateRunCompletion.unit r' st c e v =>
      rw [World.updateRunCompletion] at he
      split at he
      · cases he
        exact hsame rfl
      · rename_i y hy
        cases he
        cases v with
        | some v => exact hset r' y _ ((w.matchRow_some r').1 hy).1 rfl (.inl rfl)
        | none => exact hset r' y _ ((w.matchRow_none r').1 hy) rfl (.inr (.inr rfl))
    case requestCancel.unit r' act =>
      rw [World.requestCancel] at he
      split at he
      · cases he
        exact hsame rfl
      · rename_i y hy
        split_ifs at he <;> cases he
        · exact hset r' y _ hy rfl (.inr (.inl rfl))
        · exact hsame rfl

theorem env_keeps (hi : Inv w) (e : EnvEvent) : Inv (e.apply w) ∧ (∀ j, Relies j w (e.apply w))
    ∧ (e.apply w).rows = w.rows ∧ ∀ ρ r, w.record? ρ r = none → (e.apply w).record? ρ r = none := by
  have hrec : ∀ ρ r (f : RunRecord → RunRecord), (∀ x, (f x).runId = x.runId) →
      (∀ x, (f x).status = x.status) → (∀ x, (f x).rowVersion = x.rowVersion) →
      Inv (w.updateRecord ρ r f) ∧ (∀ j, Relies j w (w.updateRecord ρ r f))
        ∧ (w.updateRecord ρ r f).rows = w.rows
        ∧ ∀ ρ' r', w.record? ρ' r' = none → (w.updateRecord ρ r f).record? ρ' r' = none := by
    intro ρ r f hid hs hv
    have hk := keeps_sameStatus (ρ := ρ) (r := r) hi hid hs hv
    refine ⟨hk.1, fun j => ?_, rfl, fun ρ' r' hr => ?_⟩
    · rw [updateRecord_eq] at hk ⊢
      refine relies_mapHeap hk.2 (fun r' x _ => ?_) j
      split_ifs
      · exact hs x
      · rfl
    · rw [updateRecord_eq, record_setManager]
      split_ifs with hρ
      · exact map_eq_none_iff.2 (hρ ▸ hr)
      · exact hr
  have hsame : ∀ w', w'.rows = w.rows → w'.managers = w.managers → Inv w' ∧ (∀ j, Relies j w w')
      ∧ w'.rows = w.rows ∧ ∀ ρ r, w.record? ρ r = none → w'.record? ρ r = none := by
    intro w' hr hm
    have hk := keeps_of_same hi hr hm
    exact ⟨hk.1, relies_of_managers hk.2 hm, hr, fun ρ r h => (record_of_managers hm ρ r).trans h⟩
  cases e with
  | tick d => exact hsame _ rfl rfl
  | attachTask ρ r | settleTask ρ r c => exact hrec ρ r _ (fun _ => rfl) (fun _ => rfl) fun _ => rfl
  | writeLease k v => exact hsame _ rfl rfl

theorem isVerified : Verified contract FinalRun where
  verified := verified
  may _ _ _ _ op _ hc ht := ⟨hc.1 _ ht op rfl, fun r hr => (hc.2.2 _ ht r hr).1⟩
  mayResume _ _ _ _ _ _ _ _ _ := trivial

/-- What is known of the tasks: each creates a run of its own, and they created every record. -/
structure Roster (p : RunPool) : Prop where
  calls : ∀ t ∈ p.tasks, t.label.isTask = false
  distinct : p.Distinct Call.created
  known : ∀ ρ r, p.shared.record? ρ r ≠ none → ∃ t ∈ p.tasks, t.label.created = some r

def CreatorActs (p : RunPool) (a : RunAction) (r : RunId) : Prop :=
  ∃ i t, a.actor = some i ∧ p.tasks[i]? = some t ∧ t.label.created = some r

section Steps

variable {p p' : RunPool} {a : RunAction}

theorem rows_cases_of_step (hok : contract.Ok p) (hx : Roster p) (hc : FinalRun p a)
    (hs : p.step runSystem a = some p') :
    (p'.shared.rows = p.shared.rows ∧ ∀ r, CreatorActs p a r ∨
        ∀ ρ, p.shared.record? ρ r = none → p'.shared.record? ρ r = none) ∨
      ∃ i o t op, a = .perform i o ∧ p.tasks[i]? = some t ∧ t.state.op? = some op ∧
        (∀ r, RowStep t.label op r p.shared p'.shared) ∧
        ∀ ρ r, p'.shared.record? ρ r = p.shared.record? ρ r := by
  have hsect : ∀ i l q o, p' = p.put i l q →
      (∃ t, p.tasks[i]? = some t ∧ t.label = l ∧ t.state.op? = none) →
      a.actor = some i → contract.sect i l p.shared q.1 o →
      p'.shared.rows = p.shared.rows ∧ ∀ r, CreatorActs p a r ∨
        ∀ ρ, p.shared.record? ρ r = none → p'.shared.record? ρ r = none := by
    rintro i l q o rfl ⟨t, ht, rfl, -⟩ ha ⟨hrows, hrec⟩
    refine ⟨hrows, fun r => ?_⟩
    by_cases hcr : t.label.created = some r
    · exact .inl ⟨i, t, ha, ht, hcr⟩
    · exact .inr fun ρ h => (hrec ρ r h).resolve_right hcr
  cases a with
  | call l =>
    cases hs
    exact .inl ⟨rfl, fun _ => .inr fun _ => id⟩
  | env e =>
    cases hs
    obtain ⟨-, -, hrows, hrec⟩ := env_keeps hok.inv e
    exact .inl ⟨hrows, fun r => .inr fun ρ => hrec ρ r⟩
  | start i =>
    obtain ⟨l, q, hp, ht, hy, -⟩ := isVerified.section_of_start hok hs
    exact .inl (hsect i l q _ hp ht rfl hy.sect)
  | resume i c =>
    obtain ⟨l, q, hp, ht, hy, -⟩ := isVerified.section_of_resume hok hc hs
    exact .inl (hsect i l q _ hp ht rfl hy.sect)
  | perform i o =>
    obtain ⟨l, op, k, s, x, ht, he, rfl, -⟩ := isVerified.effect_of_perform hok hc hs
    rcases execOp_effect (hx.calls _ (mem_of_getElem? ht)) he with rfl | ⟨a, y, he⟩
    · exact .inl ⟨rfl, fun _ => .inr fun _ => id⟩
    · exact .inr ⟨i, o, _, op, rfl, ht, rfl, effect_row (hok.asserts i _ ht) he, Op.effect_record he⟩

theorem unborn_of_step (hok : contract.Ok p) (hx : Roster p) (hc : FinalRun p a)
    (hs : p.step runSystem a = some p') (r : RunId) :
    CreatorActs p a r ∨ (p.shared.row? r = none → p'.shared.row? r = none)
      ∧ ∀ ρ, p.shared.record? ρ r = none → p'.shared.record? ρ r = none := by
  rcases rows_cases_of_step hok hx hc hs with ⟨hrows, hrec⟩ | ⟨i, o, t, op, rfl, ht, -, hrow, hrec⟩
  · exact (hrec r).imp_right fun h => ⟨(row_of_rows hrows r).trans, h⟩
  · by_cases hcr : t.label.created = some r
    · exact .inl ⟨i, t, rfl, ht, hcr⟩
    · exact .inr ⟨fun h => ((hrow r).born h).resolve_right hcr, fun ρ => (hrec ρ r).trans⟩

theorem overwrite_of_step (hok : contract.Ok p) (hx : Roster p) (hc : FinalRun p a)
    (hs : p.step runSystem a = some p') {y y' : RunRow} (hy : p.shared.row? r = some y)
    (hy' : p'.shared.row? r = some y') (hv : y'.rowVersion = y.rowVersion)
    (hne : y'.status ≠ y.status) :
    ∃ i o t, a = .perform i o ∧ p.tasks[i]? = some t
      ∧ t.state.op?.bind Op.overwrites? = some r := by
  rcases rows_cases_of_step hok hx hc hs with ⟨hrows, -⟩ | ⟨i, o, t, op, rfl, ht, hop, hrow, -⟩
  · rw [row_of_rows hrows, hy] at hy'
    cases hy'
    exact absurd rfl hne
  · refine ⟨i, o, t, rfl, ht, ?_⟩
    rw [hop]
    exact ((hrow r).status y y' hy hy' hv).resolve_left hne

theorem unborn_stable (hok : contract.Ok p) (hx : Roster p) (hc : FinalRun p a)
    (hs : p.step runSystem a = some p') {j : ℕ} {t : Task World runSig Reply}
    (ht : p.tasks[j]? = some t) (hne : a.actor ≠ some j)
    (hu : ∀ r ∈ t.label.created, p.shared.Unborn r) : ∀ r ∈ t.label.created, p'.shared.Unborn r := by
  intro r hr
  rcases unborn_of_step hok hx hc hs r with ⟨i, t', hi, ht', hcr⟩ | ⟨hrow, hrec⟩
  · exact absurd (hx.distinct i j t' t r ht' ht hcr hr ▸ hi) hne
  · exact ⟨hrow (hu r hr).1, fun ρ => hrec ρ ((hu r hr).2 ρ)⟩

theorem hold_stable (hok : contract.Ok p) (hx : Roster p) (hc : FinalRun p a)
    (hs : p.step runSystem a = some p') {j : ℕ} {l : Call} {op : Op}
    {k : Except Exc op.Res → Co Reply} (ht : p.tasks[j]? = some ⟨l, .pending op k⟩)
    (hne : a.actor ≠ some j) (hm : Moves p.shared p'.shared) (hh : Hold l p.shared op) :
    Hold l p'.shared op := by
  cases op with
  | acquire ρ => exact unborn_stable hok hx hc hs ht hne hh
  | put r pl =>
    obtain ⟨hcr, hrow, hp⟩ := hh
    refine ⟨hcr, ?_, hp⟩
    rcases unborn_of_step hok hx hc hs r with ⟨i, t', hi, ht', hcr'⟩ | ⟨hkeep, -⟩
    · exact absurd (hx.distinct i j t' _ r ht' ht hcr' hcr ▸ hi) hne
    · exact hkeep hrow
  | updateStatus r st e v =>
    cases v with
    | some v =>
      obtain ⟨y, hy, hf⟩ := hh
      obtain ⟨y', hy', -⟩ := hm.rows r y hy
      refine ⟨y', hy', hm.fits hy hy' hf fun hv hv' _ hs' => ?_⟩
      obtain ⟨i, o, t, rfl, hi, ho⟩ := overwrite_of_step hok hx hc hs hy hy' hv' hs'
      exact (hc.2.2 t hi r ho).2 _ (mem_of_getElem? ht) (r, st, v) rfl rfl
        (by rw [World.storedVersion, hy, map_some, hv])
    | none =>
      obtain ⟨rfl, hst, ρ, x, hρ, hx'⟩ := hh
      obtain ⟨x', hx', -⟩ := hm.records ρ r x hx'
      exact ⟨rfl, hm.stored hst, ρ, x', hρ, hx'⟩
  | updateRunCompletion r st c e v =>
    obtain ⟨v, rfl, h⟩ := hh
    exact ⟨v, rfl, h.stable hm⟩
  | _ => trivial

end Steps

theorem sound : Sound contract FinalRun Roster where
  toVerified := isVerified
  call := by
    rintro p l hok hx ⟨hm, ho, -⟩
    cases l with
    | createOrReject ρ a =>
      refine ⟨hm.1, fun ρ' => ?_⟩
      by_contra hne
      obtain ⟨t, ht, hcr⟩ := hx.known ρ' _ hne
      exact hm.2 t ht hcr
    | updateRunCompletion ρ r st c e v =>
      obtain ⟨x, hxr, rfl, hterm, rfl⟩ := ho
      have hxr : p.shared.record? ρ r = some x := hxr
      cases hy : p.shared.row? r with
      | none =>
        rw [(hok.inv.unstored ρ r x hxr hy).2] at hterm
        cases hterm
      | some y => exact ⟨_, rfl, hterm, ρ, x, y, hxr, .refl _, hy, hok.inv.fits ρ r x y hxr hy⟩
    | setStatus | cancel | reconcile | shutdown => trivial
    | _ => exact hm.elim
  env := by
    rintro p e s hok - - he
    cases he
    obtain ⟨hi, hr, -⟩ := env_keeps hok.inv e
    exact ⟨hi, hr⟩
  stable := by
    intro p a p' j t hok hx hc hs ht hne hr hi has
    obtain ⟨l, st⟩ := t
    rcases st with _ | ⟨op, k⟩ | ⟨op, k, x⟩ | x
    · change Init p'.shared l
      have has : Init p.shared l := has
      cases l with
      | createOrReject ρ a =>
        refine unborn_stable hok hx hc hs ht hne (fun r hr => ?_) a.runId rfl
        cases hr
        exact has
      | updateRunCompletion ρ r st c e v =>
        obtain ⟨v, rfl, h⟩ := has
        exact ⟨v, rfl, h.stable hr.moves⟩
      | persistInterrupted ρ r => exact init_started (l := .shutdown ρ 0) ⟨ρ, r, rfl⟩ hr.moves has
      | setStatus | cancel | reconcile | shutdown => trivial
      | _ => exact has.elim
    · exact hold_stable hok hx hc hs ht hne hr.moves has
    · exact fun ho hz => unborn_stable hok hx hc hs ht hne (has ho hz)
    · trivial
  extra := by
    intro p a p' hok hx hc hs
    refine ⟨fun t' ht' => ?_, ?_, fun ρ r hr => ?_⟩
    · obtain ⟨j, hj⟩ := mem_iff_getElem?.1 ht'
      rcases isVerified.label_of_step hok hc hs hj with ⟨t, ht, hl⟩ | ⟨-, -, rfl | ⟨t, -, ρ, r, hl⟩⟩
      · exact hl ▸ hx.calls t (mem_of_getElem? ht)
      · have hm := hc.1
        cases hlab : t'.label <;> rw [hlab] at hm <;> first | rfl | exact hm.elim
      · rw [hl]
        rfl
    · refine isVerified.distinct_of_step hok hc hs ?_ ?_ hx.distinct
      · rintro l l' ⟨ρ, r, rfl⟩
        rfl
      · rintro l r rfl hr t ht
        have hm := hc.1
        cases l <;> cases hr
        exact hm.2 t ht
    · have hcr : ∃ (i : ℕ) (t : Task World runSig Reply), p.tasks[i]? = some t
          ∧ t.label.created = some r := by
        rcases unborn_of_step hok hx hc hs r with ⟨i, t, -, ht, hcr⟩ | ⟨-, hkeep⟩
        · exact ⟨i, t, ht, hcr⟩
        · obtain ⟨t, ht, hcr⟩ := hx.known ρ r fun h => hr (hkeep ρ h)
          obtain ⟨i, hi⟩ := mem_iff_getElem?.1 ht
          exact ⟨i, t, hi, hcr⟩
      obtain ⟨i, t, ht, hcr⟩ := hcr
      obtain ⟨t', ht', hl⟩ := Pool.label_kept hs ht
      exact ⟨t', mem_of_getElem? ht', hl ▸ hcr⟩

theorem ok_of_booted (hw : w.Booted) : contract.Ok w.pool ∧ Roster w.pool := by
  have hrec : ∀ ρ r, w.record? ρ r = none := hw.heap
  refine ⟨⟨⟨hw.hasStore, fun ρ _ r hr => ?_, hw.keyed, fun ρ r x hx => ?_, fun ρ r x y hx => ?_,
    fun ρ r x hx => ?_, fun ρ ρ' r x x' hx => ?_⟩, fun i t ht => ?_, fun i t ht => ?_⟩,
    fun t ht => ?_, fun i j t t' k hi => ?_, fun ρ r hr => absurd (hrec ρ r) hr⟩
  · rw [World.pool, hw.runs ρ] at hr
    cases hr
  all_goals first | simp [World.pool, hrec] at hx | simp [World.pool] at ht | simp [World.pool] at hi

theorem rows_of_step {p p' : RunPool} {a : RunAction} (hok : contract.Ok p) (hx : Roster p)
    (hc : FinalRun p a) (hs : p.step runSystem a = some p') : Moves p.shared p'.shared := by
  have hj : ∃ j, a.actor ≠ some j := by
    cases a.actor with
    | none => exact ⟨0, by simp⟩
    | some i => exact ⟨i + 1, by simp⟩
  obtain ⟨j, hj⟩ := hj
  exact ((sound.step hok hx hc hs).2 j hj).moves

end Finality

/-- In every run that spares terminal rows, a stored terminal status stays, except that
`interrupted` may become `error`. -/
theorem terminal_status_final {w : World} {p p' : RunPool} (hw : w.Booted)
    (h : Runs FinalRun w.pool p) (h' : Runs FinalRun p p') {r : RunId} {st : RunStatus}
    (hst : p.shared.rowStatus r = some st) (ht : st.isTerminal = true) :
    p'.shared.rowStatus r = some st
      ∨ st = .interrupted ∧ p'.shared.rowStatus r = some .error := by
  obtain ⟨hok, hx⟩ := sound.steps (ok_of_booted hw).1 (ok_of_booted hw).2 h
  obtain ⟨y, hy, rfl⟩ := map_eq_some_iff.1 hst
  -- along the run the row is there, and its status is one `y` may have moved to
  have hrun : (contract.Ok p' ∧ Finality.Roster p') ∧ Finality.Moves p.shared p'.shared := by
    refine h'.invariant (P := fun q => (contract.Ok q ∧ Finality.Roster q)
      ∧ Finality.Moves p.shared q.shared) ⟨⟨hok, hx⟩, .refl _⟩ ?_
    rintro q a q' ⟨⟨hq, hqx⟩, hm⟩ hc hs
    exact ⟨⟨(sound.step hq hqx hc hs).1, sound.extra q a q' hq hqx hc hs⟩,
      hm.trans (rows_of_step hq hqx hc hs)⟩
  obtain ⟨y', hy', -, hl⟩ := hrun.2.rows r y hy
  rw [World.rowStatus, hy', map_some]
  rcases (hl ht).of_terminal ht with he | ⟨hi, he⟩
  · exact .inl (congrArg some he)
  · exact .inr ⟨hi, congrArg some he⟩

def interruptedByNext : List RunAction :=
  [.call (.createOrReject 0 { runId := "a", threadId := "t" }),
    .start 0, .perform 0 .ok, .resume 0 false, .perform 0 .ok, .resume 0 false,
    .call (.createOrReject 0 { runId := "b", threadId := "t", multitaskStrategy := "interrupt" }),
    .start 1, .perform 1 .ok, .resume 1 false, .perform 1 .ok, .resume 1 false,
    .perform 1 .ok, .resume 1 false]

def thenFails : List RunAction :=
  [.call (.setStatus 0 "a" .error (some "boom")), .start 2, .perform 2 .ok, .resume 2 false,
    .perform 2 .ok, .resume 2 false]

theorem interrupted_run_moves_to_error_only :
    ∃ p p', Runs FinalRun ({} : World).pool p ∧ Runs FinalRun p p'
      ∧ p.shared.rowStatus "a" = some .interrupted ∧ p'.shared.storedVersion "a" = some 2
      ∧ (p'.shared.rowStatus "a" = some .interrupted
        ∨ RunStatus.interrupted = .interrupted ∧ p'.shared.rowStatus "a" = some .error) := by
  have hp : Runs FinalRun ({} : World).pool
      (({} : World).pool.final runSystem interruptedByNext) :=
    Pool.steps_final (by decide) (by decide)
  have hp' : Runs FinalRun (({} : World).pool.final runSystem interruptedByNext)
      ((({} : World).pool.final runSystem interruptedByNext).final runSystem thenFails) :=
    Pool.steps_final (by decide) (by decide)
  have hw : ({} : World).Booted := ⟨fun _ => rfl, fun _ => rfl, fun _ => rfl, fun _ _ => rfl,
    fun r y hy => by simp [World.row?, OrdDict.get?_empty] at hy⟩
  exact ⟨_, _, hp, hp', by decide, by decide, terminal_status_final hw hp hp' (by decide) rfl⟩

def failedByReconciler : List RunAction :=
  [.call (.createOrReject 0 { runId := "a", threadId := "t", orgId := some "o" }),
    .start 0, .perform 0 .ok, .resume 0 false, .perform 0 .ok, .resume 0 false,
    .call (.reconcile 1 "orphaned" none .redis false),
    .start 1, .perform 1 .ok, .resume 1 false, .perform 1 .ok, .resume 1 false,
    .perform 1 .ok, .resume 1 false, .perform 1 .ok, .resume 1 false]

def thenInterrupted : List RunAction :=
  [.call (.createOrReject 0 { runId := "b", threadId := "t", multitaskStrategy := "interrupt" }),
    .start 2, .perform 2 .ok, .resume 2 false, .perform 2 .ok, .resume 2 false,
    .perform 2 .ok, .resume 2 false]

theorem stored_error_overwritten_by_interrupted :
    ∃ p p', Runs MovingCalls ({} : World).pool p ∧ Runs MovingCalls p p'
      ∧ p.shared.rowStatus "a" = some .error ∧ p'.shared.rowStatus "a" = some .interrupted :=
  ⟨({} : World).pool.final runSystem failedByReconciler,
    (({} : World).pool.final runSystem failedByReconciler).final runSystem thenInterrupted,
    Pool.steps_final (by decide) (by decide), Pool.steps_final (by decide) (by decide),
    by decide, by decide⟩

/-- In every such run the record of a run is on one replica only, never ahead of its row, and
pending before there is one. -/
theorem record_not_ahead_of_row {w : World} {p : RunPool} (hw : w.Booted)
    (h : Runs FinalRun w.pool p) {ρ : ReplicaId} {r : RunId} {x : RunRecord}
    (hx : p.shared.record? ρ r = some x) :
    (∀ ρ' x', p.shared.record? ρ' r = some x' → ρ' = ρ)
      ∧ (∀ y, p.shared.row? r = some y → x.rowVersion ≤ y.rowVersion
        ∧ (x.rowVersion = y.rowVersion → y.status.isTerminal = true → RunStatus.Legal y.status x.status))
      ∧ (p.shared.row? r = none → x.status = .pending ∧ x.rowVersion ≤ 1) := by
  obtain ⟨hok, -⟩ := sound.steps (ok_of_booted hw).1 (ok_of_booted hw).2 h
  refine ⟨fun ρ' x' hx' => hok.inv.sole ρ' ρ r x' x hx' hx, fun y hy => hok.inv.fits ρ r x y hx hy,
    fun hn => ?_⟩
  exact (hok.inv.unstored ρ r x hx hn).symm

theorem interrupted_record_not_ahead : ∃ p x y, Runs FinalRun ({} : World).pool p
    ∧ p.shared.record? 0 "a" = some x ∧ p.shared.row? "a" = some y ∧ x.rowVersion ≤ y.rowVersion := by
  have hp : Runs FinalRun ({} : World).pool
      (({} : World).pool.final runSystem interruptedByNext) :=
    Pool.steps_final (by decide) (by decide)
  obtain ⟨x, hx⟩ : ∃ x, (({} : World).pool.final runSystem interruptedByNext).shared.record? 0 "a"
    = some x := isSome_iff_exists.1 (by decide)
  obtain ⟨y, hy⟩ : ∃ y, (({} : World).pool.final runSystem interruptedByNext).shared.row? "a"
    = some y := isSome_iff_exists.1 (by decide)
  have hw : ({} : World).Booted := ⟨fun _ => rfl, fun _ => rfl, fun _ => rfl, fun _ _ => rfl,
    fun r y hy => by simp [World.row?, OrdDict.get?_empty] at hy⟩
  exact ⟨_, x, y, hp, hx, hy, ((record_not_ahead_of_row hw hp hx).2.1 y hy).1⟩

end DeerFlow

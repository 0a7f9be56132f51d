import DeerFlow.Proofs.Lockstep
import DeerFlow.Proofs.SingleInflight

/-!
# How rows and records move

Most writes of a status are compare-and-sets against the `row_version` their caller captured;
`create_or_reject` and `shutdown` also overwrite the row with `interrupted`. A terminal row moves as
`assert_run_transition` allows, and at an unchanged version only to `interrupted`.
-/

namespace DeerFlow

open Coop RunStatus

def RunRow.Fits (y : RunRow) (st : RunStatus) (v : ℕ) : Prop :=
  v ≤ y.rowVersion ∧ (v = y.rowVersion → y.status.isTerminal = true → Legal y.status st)

def World.Stored (w : World) (r : RunId) : Prop := ∃ y, w.row? r = some y

def World.Unborn (w : World) (r : RunId) : Prop :=
  w.row? r = none ∧ ∀ ρ, w.record? ρ r = none

def Op.isStore : Op → Bool
  | .put .. | .get _ | .updateStatus .. | .updateRunCompletion .. => true
  | .requestCancel .. | .getCancelIntent _ | .listInflight _ | .updateModelName .. => true
  | _ => false

def Op.overwrites? : Op → Option RunId
  | .updateStatus r _ _ none | .updateRunCompletion r _ _ _ none => some r
  | _ => none

def Call.replica? : Call → Option ReplicaId
  | .createOrReject ρ _ | .setStatus ρ _ _ _ | .cancel ρ _ _ => some ρ
  | .updateRunCompletion ρ _ _ _ _ _ | .reconcile ρ _ _ _ _ => some ρ
  | .shutdown ρ _ | .persistInterrupted ρ _ | .cleanup ρ _ _ => some ρ
  | _ => none

namespace Finality

structure Moves (w w' : World) : Prop where
  rows : ∀ r y, w.row? r = some y → ∃ y', w'.row? r = some y' ∧ y.rowVersion ≤ y'.rowVersion
    ∧ (y.status.isTerminal = true → Legal y.status y'.status)
  records : ∀ ρ r x, w.record? ρ r = some x →
    ∃ x', w'.record? ρ r = some x' ∧ Legal x.status x'.status
  overwrite : ∀ r y y', w.row? r = some y → w'.row? r = some y' → y'.rowVersion = y.rowVersion →
    y'.status = y.status ∨ (y'.status = .interrupted ∧ ∀ ρ x x', w.record? ρ r = some x →
      w'.record? ρ r = some x' → Legal .interrupted x'.status)

variable {w w' w'' : World} {ρ : ReplicaId} {r : RunId} {x x' : RunRecord} {y y' : RunRow}
  {st : RunStatus} {v : ℕ}

theorem Moves.refl (w : World) : Moves w w :=
  ⟨fun _ y hy => ⟨y, hy, le_rfl, fun _ => .refl _⟩, fun _ _ x hx => ⟨x, hx, .refl _⟩,
    fun _ _ _ hy hy' _ => .inl (by rw [hy] at hy'; cases hy'; rfl)⟩

theorem Moves.trans (h : Moves w w') (h' : Moves w' w'') : Moves w w'' := by
  refine ⟨fun r y hy => ?_, fun ρ r x hx => ?_, fun r y y'' hy hy'' hv => ?_⟩
  · obtain ⟨y', hy', hv, hl⟩ := h.rows r y hy
    obtain ⟨y'', hy'', hv', hl'⟩ := h'.rows r y' hy'
    refine ⟨y'', hy'', hv.trans hv', fun ht => ?_⟩
    have hleg := hl ht
    refine hleg.trans (hl' ?_)
    rcases hleg.of_terminal ht with he | ⟨-, he⟩
    · rw [he]
      exact ht
    · rw [he]
      rfl
  · obtain ⟨x', hx', hl⟩ := h.records ρ r x hx
    obtain ⟨x'', hx'', hl'⟩ := h'.records ρ r x' hx'
    exact ⟨x'', hx'', hl.trans hl'⟩
  · obtain ⟨y', hy', hv1, -⟩ := h.rows r y hy
    obtain ⟨z, hz, hv2, -⟩ := h'.rows r y' hy'
    rw [hy''] at hz
    cases hz
    rcases h'.overwrite r y' y'' hy' hy'' (by omega) with he' | ⟨he', hm'⟩
    · rcases h.overwrite r y y' hy hy' (by omega) with he | ⟨he, hm⟩
      · exact .inl (he'.trans he)
      · refine .inr ⟨he'.trans he, fun ρ x x'' hx hx'' => ?_⟩
        obtain ⟨x', hx', -⟩ := h.records ρ r x hx
        obtain ⟨z, hz, hl⟩ := h'.records ρ r x' hx'
        rw [hx''] at hz
        cases hz
        exact (hm ρ x x' hx hx').trans hl
    · refine .inr ⟨he', fun ρ x x'' hx hx'' => ?_⟩
      obtain ⟨x', hx', -⟩ := h.records ρ r x hx
      exact hm' ρ x' x'' hx' hx''

theorem Moves.fits (h : Moves w w') (hy : w.row? r = some y) (hy' : w'.row? r = some y')
    (hf : y.Fits st v)
    (ho : v = y.rowVersion → y'.rowVersion = y.rowVersion → y'.status = .interrupted →
      y'.status ≠ y.status → Legal .interrupted st) : y'.Fits st v := by
  obtain ⟨z, hz, hv, -⟩ := h.rows r y hy
  rw [hy'] at hz
  cases hz
  refine ⟨hf.1.trans hv, fun he ht => ?_⟩
  have hv' : y'.rowVersion = y.rowVersion := by
    have := hf.1
    omega
  by_cases hs : y'.status = y.status
  · rw [hs] at ht ⊢
    exact hf.2 (he.trans hv') ht
  · obtain ⟨hi, -⟩ := (h.overwrite r y y' hy hy' hv').resolve_left hs
    rw [hi]
    exact ho (he.trans hv') hv' hi hs

theorem Moves.fits_record (h : Moves w w') (hy : w.row? r = some y) (hy' : w'.row? r = some y')
    (hx : w.record? ρ r = some x) (hx' : w'.record? ρ r = some x') (hf : y.Fits x.status v) :
    y'.Fits x'.status v := by
  obtain ⟨z, hz, hl⟩ := h.records ρ r x hx
  rw [hx'] at hz
  cases hz
  have hf' : y.Fits x'.status v := ⟨hf.1, fun he ht => (hf.2 he ht).trans hl⟩
  refine h.fits hy hy' hf' fun _ hv _ hs => ?_
  exact ((h.overwrite r y y' hy hy' hv).resolve_left hs).2 ρ x x' hx hx'

theorem Moves.stored (h : Moves w w') (hr : w.Stored r) : w'.Stored r := by
  obtain ⟨y, hy⟩ := hr
  obtain ⟨y', hy', -⟩ := h.rows r y hy
  exact ⟨y', hy'⟩

/-- A terminal status the record has moved on from, and that fits the row: the write of a run's
completion data. -/
def Completes (r : RunId) (st : RunStatus) (v : ℕ) (w : World) : Prop :=
  st.isTerminal = true ∧ ∃ ρ x y, w.record? ρ r = some x ∧ Legal st x.status
    ∧ w.row? r = some y ∧ y.Fits st v

theorem Completes.stable (h : Completes r st v w) (hm : Moves w w') : Completes r st v w' := by
  obtain ⟨ht, ρ, x, y, hx, hl, hy, hf⟩ := h
  obtain ⟨x', hx', hl'⟩ := hm.records ρ r x hx
  obtain ⟨y', hy', -⟩ := hm.rows r y hy
  refine ⟨ht, ρ, x', y', hx', hl.trans hl', hy', hm.fits hy hy' hf fun _ hv hi hs => ?_⟩
  -- the overwrite found the record interrupted, so the status was
  have hsink := ((hm.overwrite r y y' hy hy' hv).resolve_left hs).2 ρ x x' hx hx'
  rcases (hl.trans hl').of_terminal ht with he | ⟨he, -⟩
  · rw [← he]
    exact hsink
  · rw [he]
    exact .refl _

structure Inv (w : World) : Prop where
  hasStore : ∀ ρ, (w.managers ρ).hasStore = true
  stored : ∀ ρ, (w.managers ρ).lock = none → ∀ r ∈ (w.managers ρ).runs, w.Stored r
  keyed : ∀ r y, w.row? r = some y → y.runId = r
  named : ∀ ρ r x, w.record? ρ r = some x → x.runId = r
  fits : ∀ ρ r x y, w.record? ρ r = some x → w.row? r = some y → y.Fits x.status x.rowVersion
  unstored : ∀ ρ r x, w.record? ρ r = some x → w.row? r = none →
    x.rowVersion ≤ 1 ∧ x.status = .pending
  sole : ∀ ρ ρ' r x x', w.record? ρ r = some x → w.record? ρ' r = some x' → ρ = ρ'

theorem row_of_rows (h : w'.rows = w.rows) (r : RunId) : w'.row? r = w.row? r := by
  rw [World.row?, h]
  rfl

theorem record_of_managers (h : w'.managers = w.managers) (ρ : ReplicaId) (r : RunId) :
    w'.record? ρ r = w.record? ρ r := by
  rw [World.record?, h]
  rfl

theorem keeps_of_same (hi : Inv w) (hr : w'.rows = w.rows) (hm : w'.managers = w.managers) :
    Inv w' ∧ Moves w w' := by
  have hrow := row_of_rows hr
  have hrec := record_of_managers hm
  refine ⟨⟨?_, ?_, ?_, ?_, ?_, ?_, ?_⟩, ?_, ?_, ?_⟩
  · rw [hm]
    exact hi.hasStore
  · intro ρ hl r hr
    rw [hm] at hl hr
    obtain ⟨y, hy⟩ := hi.stored ρ hl r hr
    exact ⟨y, (hrow r).trans hy⟩
  · exact fun r y hy => hi.keyed r y ((hrow r).symm.trans hy)
  · exact fun ρ r x hx => hi.named ρ r x ((hrec ρ r).symm.trans hx)
  · exact fun ρ r x y hx hy => hi.fits ρ r x y ((hrec ρ r).symm.trans hx) ((hrow r).symm.trans hy)
  · exact fun ρ r x hx hy => hi.unstored ρ r x ((hrec ρ r).symm.trans hx) ((hrow r).symm.trans hy)
  · exact fun ρ ρ' r x x' hx hx' =>
      hi.sole ρ ρ' r x x' ((hrec ρ r).symm.trans hx) ((hrec ρ' r).symm.trans hx')
  · exact fun r y hy => ⟨y, (hrow r).trans hy, le_rfl, fun _ => .refl _⟩
  · exact fun ρ r x hx => ⟨x, (hrec ρ r).trans hx, .refl _⟩
  · intro r y y' hy hy' _
    rw [hrow r, hy] at hy'
    cases hy'
    exact .inl rfl

/-- The row `y` of a run is replaced by `y'`: by a compare-and-set, by an overwrite, or with the
status it had. -/
structure Succeeds (w : World) (r : RunId) (y y' : RunRow) : Prop where
  runId : y'.runId = y.runId
  legal : y.status.isTerminal = true → Legal y.status y'.status
  version : y'.rowVersion = y.rowVersion + 1 ∨ y'.rowVersion = y.rowVersion
    ∧ (y'.status = y.status ∨ y'.status = .interrupted
      ∧ ∀ ρ x, w.record? ρ r = some x → Legal .interrupted x.status)

theorem row_setRow (r' : RunId) :
    (w.setRow r y).row? r' = if r' = r then some y else w.row? r' := by
  split_ifs with hr
  · rw [hr, World.setRow_self]
  · exact World.setRow_of_ne _ _ _ _ hr

theorem inv_setRow (hi : Inv w) (hid : y.runId = r)
    (hf : ∀ ρ x, w.record? ρ r = some x → y.Fits x.status x.rowVersion) : Inv (w.setRow r y) := by
  refine ⟨hi.hasStore, fun ρ hl r' hr' => ?_, fun r' z hz => ?_, hi.named, fun ρ r' x z hx hz => ?_,
    fun ρ r' x hx hz => ?_, hi.sole⟩
  · rw [World.Stored, row_setRow]
    split_ifs
    · exact ⟨y, rfl⟩
    · exact hi.stored ρ hl r' hr'
  all_goals
    rw [row_setRow] at hz
    split_ifs at hz with hr
  · cases hz
    exact hid.trans hr.symm
  · exact hi.keyed r' z hz
  · cases hz
    subst hr
    exact hf ρ x hx
  · exact hi.fits ρ r' x z hx hz
  · exact hi.unstored ρ r' x hx hz

theorem keeps_setRow (hi : Inv w) (hy : w.row? r = some y) (h : Succeeds w r y y') :
    Inv (w.setRow r y') ∧ Moves w (w.setRow r y') := by
  have hle : y.rowVersion ≤ y'.rowVersion := by
    rcases h.version with h | ⟨h, -⟩ <;> omega
  refine ⟨inv_setRow hi (h.runId.trans (hi.keyed r y hy)) fun ρ x hx => ?_, fun r' z hz => ?_,
    fun ρ r' x hx => ⟨x, hx, .refl _⟩, fun r' z z' hz hz' hv => ?_⟩
  · have hf := hi.fits ρ r x y hx hy
    refine ⟨hf.1.trans hle, fun he ht => ?_⟩
    rcases h.version with hv | ⟨hv, hs | ⟨hs, hx'⟩⟩
    · have := hf.1
      omega
    · rw [hs] at ht ⊢
      exact hf.2 (he.trans hv) ht
    · rw [hs]
      exact hx' ρ x hx
  · rw [row_setRow]
    split_ifs with hr
    · subst hr
      cases hy.symm.trans hz
      exact ⟨y', rfl, hle, h.legal⟩
    · exact ⟨z, hz, le_rfl, fun _ => .refl _⟩
  · rw [row_setRow] at hz'
    split_ifs at hz' with hr
    · subst hr
      cases hy.symm.trans hz
      cases hz'
      rcases h.version with hv' | ⟨-, hs | ⟨hs, hx⟩⟩
      · omega
      · exact .inl hs
      · exact .inr ⟨hs, fun ρ _ x' _ hx' => hx ρ x' hx'⟩
    · cases hz.symm.trans hz'
      exact .inl rfl

theorem keeps_insert (hi : Inv w) (hr : w.row? r = none) (hid : y.runId = r)
    (hs : y.status = .pending) (hv : y.rowVersion = 1) :
    Inv (w.setRow r y) ∧ Moves w (w.setRow r y) := by
  have hkeep : ∀ r' z, w.row? r' = some z → (w.setRow r y).row? r' = some z := by
    intro r' z hz
    refine (World.setRow_of_ne _ _ _ _ ?_).trans hz
    rintro rfl
    cases hr.symm.trans hz
  refine ⟨inv_setRow hi hid fun ρ x hx => ?_, fun r' z hz => ⟨z, hkeep r' z hz, le_rfl, fun _ => .refl _⟩,
    fun ρ r' x hx => ⟨x, hx, .refl _⟩, fun r' z z' hz hz' _ => ?_⟩
  · refine ⟨hv ▸ (hi.unstored ρ _ x hx hr).1, fun _ ht => ?_⟩
    rw [hs] at ht
    cases ht
  · cases (hkeep r' z hz).symm.trans hz'
    exact .inl rfl

def MayOverwrite (w : World) (l : Call) (r : RunId) : Prop :=
  (∀ y ∈ w.row? r, y.status.settled = false)
    ∧ ∀ ρ ∈ l.replica?, ∀ x ∈ w.record? ρ r, Legal .interrupted x.status

def Hold (l : Call) (w : World) : Op → Prop
  | .acquire _ => ∀ r ∈ l.created, w.Unborn r
  | .put r p => l.created = some r ∧ w.row? r = none ∧ p.status = .pending
  | .updateStatus r st _ (some v) => ∃ y, w.row? r = some y ∧ y.Fits st v
  | .updateStatus r st _ none => st = .interrupted ∧ w.Stored r
      ∧ ∃ ρ x, l.replica? = some ρ ∧ w.record? ρ r = some x
  | .updateRunCompletion r st _ _ v => ∃ v', v = some v' ∧ Completes r st v' w
  | _ => True

section Effects

variable {i : ℕ} {l : Call} {op : Op} {a : Answer}

theorem effect_keeps {z : op.Res} (hi : Inv w) (ho : op.isAcquire = false) (hh : Hold l w op)
    (hm : ∀ r ∈ op.overwrites?, MayOverwrite w l r) (he : op.effect i a w = some (w', z)) :
    Inv w' ∧ Moves w w' := by
  have hman := (Op.effect_leaves he).managers ho
  cases hw : op.writesRow with
  | false => exact keeps_of_same hi ((Op.effect_leaves he).rows hw) hman
  | true =>
    cases op <;> simp only [Op.writesRow, Bool.false_eq_true] at hw <;> cases a <;>
      simp only [Op.effect, Option.some.injEq, reduceCtorEq] at he
    case put.unit r p =>
      obtain ⟨-, hr, hp⟩ := hh
      cases he
      rw [World.put, hr]
      exact keeps_insert hi hr rfl hp rfl
    case updateStatus.unit r st e v =>
      rw [World.updateStatus] at he
      split at he
      · cases he
        exact ⟨hi, .refl w⟩
      · rename_i y hy
        cases he
        cases v with
        | some v =>
          obtain ⟨hrow, rfl⟩ := (w.matchRow_some r).1 hy
          obtain ⟨z, hz, hf⟩ := hh
          rw [hrow] at hz
          cases hz
          exact keeps_setRow hi hrow ⟨rfl, fun ht => hf.2 rfl ht, .inl rfl⟩
        | none =>
          have hy := (w.matchRow_none r).1 hy
          obtain ⟨rfl, -, ρ, x, hρ, hx⟩ := hh
          obtain ⟨hset, hsink⟩ := hm r rfl
          refine keeps_setRow hi hy ⟨rfl, fun _ => legal_interrupted_of_not_settled (hset y hy),
            .inr ⟨rfl, .inr ⟨rfl, fun ρ' x' hx' => ?_⟩⟩⟩
          cases hi.sole ρ ρ' r x x' hx hx'
          exact hsink ρ hρ x' hx'
    case updateRunCompletion.unit r st c e v =>
      rw [World.updateRunCompletion] at he
      split at he
      · cases he
        exact ⟨hi, .refl w⟩
      · rename_i y hy
        cases he
        obtain ⟨v, rfl, -, ρ, x, z, -, -, hz, hf⟩ := hh
        obtain ⟨hrow, rfl⟩ := (w.matchRow_some r).1 hy
        rw [hrow] at hz
        cases hz
        exact keeps_setRow hi hrow ⟨rfl, fun ht => hf.2 rfl ht, .inl rfl⟩
    case requestCancel.unit r act =>
      rw [World.requestCancel] at he
      split at he
      · cases he
        exact ⟨hi, .refl w⟩
      · rename_i y hy
        split_ifs at he <;> cases he
        · exact keeps_setRow hi hy ⟨rfl, fun _ => .refl _, .inr ⟨rfl, .inl rfl⟩⟩
        · exact ⟨hi, .refl w⟩

end Effects

section Managers

variable {m : RunManager} {f : RunId → RunRecord → RunRecord}

theorem record_setManager (ρ' : ReplicaId) (r : RunId) : (w.setManager ρ m).record? ρ' r
    = if ρ' = ρ then m.heap r else w.record? ρ' r := by
  by_cases h : ρ' = ρ
  · subst h
    simp [World.record?]
  · simp [World.record?, World.setManager_of_ne _ _ _ _ h, h]

structure Fine (w : World) (ρ : ReplicaId) (r : RunId) (x : RunRecord) : Prop where
  named : x.runId = r
  fits : ∀ y, w.row? r = some y → y.Fits x.status x.rowVersion
  unstored : w.row? r = none → x.rowVersion ≤ 1 ∧ x.status = .pending
  sole : ∀ ρ', ρ' ≠ ρ → w.record? ρ' r = none

theorem Inv.fine (hi : Inv w) (hx : w.record? ρ r = some x) : Fine w ρ r x := by
  refine ⟨hi.named ρ r x hx, fun y => hi.fits ρ r x y hx, hi.unstored ρ r x hx, fun ρ' hρ => ?_⟩
  cases h : w.record? ρ' r with
  | none => rfl
  | some x' => exact absurd (hi.sole ρ' ρ r x' x h hx) hρ

theorem inv_setManager (hi : Inv w) (hs : m.hasStore = (w.managers ρ).hasStore)
    (hl : m.lock = none → ∀ r ∈ m.runs, w.Stored r) (hm : ∀ r x, m.heap r = some x → Fine w ρ r x) :
    Inv (w.setManager ρ m) := by
  have hrec : ∀ ρ' r x, (w.setManager ρ m).record? ρ' r = some x → Fine w ρ' r x := by
    intro ρ' r x hx
    rw [record_setManager] at hx
    split_ifs at hx with hρ
    · exact hρ ▸ hm r x hx
    · exact hi.fine hx
  have hman : ∀ ρ', (w.setManager ρ m).managers ρ' = if ρ' = ρ then m else w.managers ρ' := by
    intro ρ'
    split_ifs with hρ
    · rw [hρ, World.setManager_self]
    · rw [World.setManager_of_ne _ _ _ _ hρ]
  refine ⟨fun ρ' => ?_, fun ρ' hl' r hr => ?_, hi.keyed, fun ρ' r x hx => (hrec ρ' r x hx).named,
    fun ρ' r x y hx => (hrec ρ' r x hx).fits y, fun ρ' r x hx => (hrec ρ' r x hx).unstored,
    fun ρ1 ρ2 r x x' hx hx' => ?_⟩
  · rw [hman]
    split_ifs with hρ
    · rw [hs]
      exact hi.hasStore ρ
    · exact hi.hasStore ρ'
  · rw [hman] at hl' hr
    split_ifs at hl' hr
    · exact hl hl' r hr
    · exact hi.stored ρ' hl' r hr
  · by_contra hne
    have h1 := (hrec ρ2 r x' hx').sole ρ1 hne
    have h2 := (hrec ρ1 r x hx).sole ρ2 fun h => hne h.symm
    rw [record_setManager] at hx hx'
    split_ifs at hx hx' with hρ1 hρ2 hρ2
    · exact hne (hρ1.trans hρ2.symm)
    · rw [h2] at hx'
      cases hx'
    · rw [h1] at hx
      cases hx
    · rw [h1] at hx
      cases hx

theorem moves_setManager (hm : ∀ r x, w.record? ρ r = some x →
    ∃ x', m.heap r = some x' ∧ Legal x.status x'.status) : Moves w (w.setManager ρ m) := by
  refine ⟨fun r y hy => ⟨y, hy, le_rfl, fun _ => .refl _⟩, fun ρ' r x hx => ?_,
    fun r y y' hy hy' _ => .inl ?_⟩
  · rw [record_setManager]
    split_ifs with hρ
    · exact hm r x (hρ ▸ hx)
    · exact ⟨x, hx, .refl _⟩
  · rw [show w.row? r = some y' from hy'] at hy
    cases hy
    rfl

theorem keeps_setManager (hi : Inv w) (hh : m.heap = (w.managers ρ).heap)
    (hs : m.hasStore = (w.managers ρ).hasStore)
    (hl : m.lock = none → ∀ r ∈ m.runs, w.Stored r) :
    Inv (w.setManager ρ m) ∧ Moves w (w.setManager ρ m) :=
  ⟨inv_setManager hi hs hl fun r x hx => hi.fine (by rw [hh] at hx; exact hx),
    moves_setManager fun r x hx => ⟨x, by rw [hh]; exact hx, .refl _⟩⟩

theorem keeps_mapHeap (hi : Inv w) (hf : ∀ r x, w.record? ρ r = some x →
      Legal x.status (f r x).status ∧ Fine w ρ r (f r x)) :
    Inv (w.setManager ρ ((w.managers ρ).mapHeap f))
      ∧ Moves w (w.setManager ρ ((w.managers ρ).mapHeap f)) := by
  refine ⟨inv_setManager hi rfl (hi.stored ρ) fun r x' hx' => ?_, moves_setManager fun r x hx =>
    ⟨f r x, congrArg (Option.map (f r)) hx, (hf r x hx).1⟩⟩
  obtain ⟨x, hx, rfl⟩ := Option.map_eq_some_iff.1 hx'
  exact (hf r x hx).2

variable {f : RunRecord → RunRecord}

theorem keeps_updateRecord (hi : Inv w) (hf : ∀ x,
      w.record? ρ r = some x → Legal x.status (f x).status ∧ Fine w ρ r (f x)) :
    Inv (w.updateRecord ρ r f) ∧ Moves w (w.updateRecord ρ r f) := by
  rw [updateRecord_eq]
  refine keeps_mapHeap hi fun r' x hx => ?_
  split_ifs with hr
  · subst hr
    exact hf x hx
  · exact ⟨.refl _, hi.fine hx⟩

theorem Fine.restatus (h : Fine w ρ r x) (hs : w.Stored r)
    (hid : ∀ x, (f x).runId = x.runId) (hv : ∀ x, (f x).rowVersion = x.rowVersion)
    (hl : Legal x.status (f x).status) : Fine w ρ r (f x) := by
  refine ⟨(hid x).trans h.named, fun y hy => ?_, fun hn => ?_, h.sole⟩
  · rw [hv]
    exact ⟨(h.fits y hy).1, fun he ht => ((h.fits y hy).2 he ht).trans hl⟩
  · obtain ⟨y, hy⟩ := hs
    cases hn.symm.trans hy

theorem keeps_register (hi : Inv w) (hlock : (w.managers ρ).lock ≠ none) (hb : w.Unborn x.runId)
    (hs : x.status = .pending) (hv : x.rowVersion = 1) :
    Inv (w.setManager ρ ((w.managers ρ).register x))
      ∧ Moves w (w.setManager ρ ((w.managers ρ).register x)) := by
  refine ⟨inv_setManager hi rfl (fun hl => absurd hl hlock) fun r x' hx' => ?_,
    moves_setManager fun r x' hx' => ⟨x', ?_, .refl _⟩⟩
  · rw [RunManager.register_heap] at hx'
    split_ifs at hx' with hr
    · cases hx'
      subst hr
      refine ⟨rfl, fun y hy => ?_, fun _ => ⟨hv.le, hs⟩, fun ρ' _ => hb.2 ρ'⟩
      have hno := hb.1
      rw [hy] at hno
      cases hno
    · exact hi.fine hx'
  · have hr : r ≠ x.runId := by
      rintro rfl
      rw [hb.2 ρ] at hx'
      cases hx'
    rw [RunManager.register_heap, if_neg hr]
    exact hx'

theorem keeps_updateStatus (hi : Inv w) (hx : w.record? ρ r = some x)
    (hs : w.Stored r) (hid : ∀ x, (f x).runId = x.runId) (hv : ∀ x, (f x).rowVersion = x.rowVersion)
    (hl : Legal x.status (f x).status) :
    Inv (w.updateRecord ρ r f) ∧ Moves w (w.updateRecord ρ r f) := by
  refine keeps_updateRecord hi fun z hz => ?_
  cases hx.symm.trans hz
  exact ⟨hl, (hi.fine hx).restatus hs hid hv hl⟩

theorem keeps_mirror (hi : Inv w) (hs : w.Stored r)
    (hf : ∀ x y, w.record? ρ r = some x → w.row? r = some y → y.Fits x.status v) :
    Inv (w.updateRecord ρ r fun x => { x with rowVersion := v })
      ∧ Moves w (w.updateRecord ρ r fun x => { x with rowVersion := v }) := by
  refine keeps_updateRecord hi fun x hx => ⟨.refl _, (hi.fine hx).named, fun y => hf x y hx,
    fun hn => ?_, (hi.fine hx).sole⟩
  obtain ⟨y, hy⟩ := hs
  cases hn.symm.trans hy

theorem keeps_sameStatus (hi : Inv w)
    (hid : ∀ x, (f x).runId = x.runId) (hs : ∀ x, (f x).status = x.status)
    (hv : ∀ x, (f x).rowVersion = x.rowVersion) :
    Inv (w.updateRecord ρ r f) ∧ Moves w (w.updateRecord ρ r f) := by
  refine keeps_updateRecord hi fun x hx => ?_
  obtain ⟨hn, hf, hu, ho⟩ := hi.fine hx
  refine ⟨by rw [hs]; exact .refl _, (hid x).trans hn, ?_, ?_, ho⟩ <;> rw [hs, hv]
  · exact hf
  · exact hu

end Managers

end Finality

end DeerFlow

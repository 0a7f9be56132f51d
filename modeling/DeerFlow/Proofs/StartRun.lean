import DeerFlow.Proofs.Footprints
import DeerFlow.Proofs.Stretch

/-!
# A run that could not be started

`start_run` persists the run before it reads the graph input and the config out of the body. Where
no cancellation reaches it once the run is made, it raises while there is nothing of the run, or
takes it out again, unless one of the two raises: then the run stays.
-/

namespace DeerFlow

open Coop Coop.Contract Coro List RunManager Coro

def Op.puts (r : RunId) : Op → Bool
  | .put r' _ => r' = r
  | _ => false

def Outcome.commits : Outcome → Bool
  | .raised _ (some _) => true
  | _ => false

def World.Unmade (w : World) (ρ : ReplicaId) (r : RunId) : Prop :=
  r ∉ (w.managers ρ).runs ∨ ((w.managers ρ).hasStore = true ∧ w.row? r = none)

structure World.NoTrace (w : World) (ρ : ReplicaId) (r : RunId) : Prop where
  row : w.row? r = none
  runs : r ∉ (w.managers ρ).runs

def SoleCall (p : RunPool) : RunAction → Prop
  | .call _ => False
  | .start i | .perform i _ | .resume i _ => i = 0 ∧ ∀ t ∈ p.tasks[i]?, t.label.isTask = false
  | .env _ => True

/-- It is cancelled only while the run is not made, and a `put` of the run that raises has not
committed. -/
def CleanStart (ρ : ReplicaId) (r : RunId) (p : RunPool) : RunAction → Prop
  | .perform i o => (o.isCancelled = true → p.shared.Unmade ρ r)
      ∧ ∀ t ∈ p.tasks[i]?, ∀ op ∈ t.state.op?, op.puts r = true → o.commits = false
  | .resume _ c => c = true → p.shared.Unmade ρ r
  | _ => True

def CleanStartRun (ρ : ReplicaId) (r : RunId) (p : RunPool) (a : RunAction) : Prop :=
  SoleCall p a ∧ CleanStart ρ r p a

instance (w : World) (ρ : ReplicaId) (r : RunId) : Decidable (w.Unmade ρ r) :=
  inferInstanceAs (Decidable (_ ∨ _ ∧ _))

instance (p : RunPool) (a) : Decidable (SoleCall p a) := by
  rcases a with ⟨⟩ <;> dsimp only [SoleCall] <;> infer_instance

instance (ρ : ReplicaId) (r : RunId) (p : RunPool) (a) : Decidable (CleanStart ρ r p a) := by
  rcases a with ⟨⟩ <;> dsimp only [CleanStart] <;> infer_instance

instance (ρ : ReplicaId) (r : RunId) (p : RunPool) (a : RunAction) :
    Decidable (CleanStartRun ρ r p a) :=
  inferInstanceAs (Decidable (_ ∧ _))

/-- Neither `normalize_input` nor `build_run_config` raises on the body. -/
def StartRequest.Fine (q : StartRequest) : Prop :=
  (∃ d, q.graphInput = .ok d) ∧ ∃ d, q.runConfig = .ok d

namespace StartRun

structure Calm (ρ : ReplicaId) (w w' : World) : Prop where
  rows : w'.rows = w.rows
  runs : (w'.managers ρ).runs = (w.managers ρ).runs
  hasStore : (w'.managers ρ).hasStore = (w.managers ρ).hasStore

structure Mid (ρ : ReplicaId) (r : RunId) (w : World) : Prop where
  row : w.row? r = none
  runs : r ∈ (w.managers ρ).runs
  hasStore : (w.managers ρ).hasStore = true

structure Made (ρ : ReplicaId) (r : RunId) (w : World) : Prop where
  runs : r ∈ (w.managers ρ).runs
  row : (w.managers ρ).hasStore = true → (w.row? r).isSome = true

section Calm

variable {ρ ρ' : ReplicaId} {r : RunId} {w w' w'' : World}

theorem Calm.refl (ρ : ReplicaId) (w : World) : Calm ρ w w := ⟨rfl, rfl, rfl⟩

theorem Calm.trans (h : Calm ρ w w') (h' : Calm ρ w' w'') : Calm ρ w w'' :=
  ⟨h'.rows.trans h.rows, h'.runs.trans h.runs, h'.hasStore.trans h.hasStore⟩

theorem Calm.row (h : Calm ρ w w') (r : RunId) : w'.row? r = w.row? r := by
  rw [World.row?, h.rows]
  rfl

theorem Calm.noTrace (h : Calm ρ w w') (hw : w.NoTrace ρ r) : w'.NoTrace ρ r :=
  ⟨(h.row r).trans hw.row, h.runs ▸ hw.runs⟩

theorem Calm.mid (h : Calm ρ w w') (hw : Mid ρ r w) : Mid ρ r w' :=
  ⟨(h.row r).trans hw.row, h.runs ▸ hw.runs, h.hasStore.trans hw.hasStore⟩

theorem Calm.made (h : Calm ρ w w') (hw : Made ρ r w) : Made ρ r w' :=
  ⟨h.runs ▸ hw.runs, fun hs => by rw [h.row]; exact hw.row (h.hasStore ▸ hs)⟩

theorem Calm.unmade (hc : Calm ρ w w') (h : w.Unmade ρ r) : w'.Unmade ρ r :=
  h.imp (fun h => hc.runs ▸ h) fun h => ⟨hc.hasStore.trans h.1, (hc.row r).trans h.2⟩

theorem made_iff : Made ρ r w ↔ ¬ w.Unmade ρ r := by
  constructor
  · rintro h (hr | ⟨hs, hr⟩)
    · exact hr h.runs
    · simpa [hr] using h.row hs
  · intro h
    rw [World.Unmade, not_or, not_not] at h
    exact ⟨h.1, fun hs => Option.isSome_iff_ne_none.2 fun hr => h.2 ⟨hs, hr⟩⟩

theorem Made.not_unmade (h : Made ρ r w) : ¬ w.Unmade ρ r := made_iff.1 h

theorem calm_setManager {m : RunManager} (hr : m.runs = (w.managers ρ').runs)
    (hs : m.hasStore = (w.managers ρ').hasStore) : Calm ρ w (w.setManager ρ' m) := by
  by_cases hρ : ρ = ρ'
  · subst hρ
    exact ⟨rfl, by simpa using hr, by simpa using hs⟩
  · exact ⟨rfl, by rw [w.setManager_of_ne _ _ m hρ], by rw [w.setManager_of_ne _ _ m hρ]⟩

theorem calm_updateRecord (f : RunRecord → RunRecord) : Calm ρ w (w.updateRecord ρ' r f) :=
  calm_setManager rfl rfl

theorem calm_unlock : Calm ρ w (w.unlock ρ') := calm_setManager rfl rfl

theorem calm_managers (hm : w'.managers = w.managers) (hr : w'.rows = w.rows) : Calm ρ w w' :=
  ⟨hr, by rw [hm], by rw [hm]⟩

theorem calm_env (e : EnvEvent) : Calm ρ w (e.apply w) := by
  cases e with
  | tick d => exact calm_managers rfl rfl
  | attachTask ρ' r | settleTask ρ' r c => exact calm_updateRecord _
  | writeLease k v => exact calm_managers rfl rfl

variable {i : ℕ} {l : Call} {op : Op} {o : Outcome}

theorem effect_managers {a : Answer} {x : op.Res} (h : op.effect i a w = some (w', x)) :
    (w'.managers ρ).runs = (w.managers ρ).runs
      ∧ (w'.managers ρ).hasStore = (w.managers ρ).hasStore := by
  cases ho : op.isAcquire with
  | false =>
    rw [(Op.effect_leaves h).managers ho]
    exact ⟨rfl, rfl⟩
  | true =>
    cases op <;> cases ho
    rename_i ρ'
    cases a <;> simp only [Op.effect, reduceCtorEq] at h
    split_ifs at h
    cases h
    have hc : Calm ρ w (w.setManager ρ' { w.managers ρ' with lock := some i }) :=
      calm_setManager rfl rfl
    exact ⟨hc.runs, hc.hasStore⟩

variable {x : Except Exc op.Res}

theorem exec_calm (hlab : l.isTask = false) (ho : op.writesRow = false)
    (h : execOp i l op o w = some (w', x)) : Calm ρ w w' := by
  rcases execOp_effect hlab h with rfl | ⟨a, y, h⟩
  · exact .refl ρ _
  · exact ⟨(Op.effect_leaves h).rows ho, (effect_managers h).1, (effect_managers h).2⟩

theorem exec_made (hlab : l.isTask = false)
    (h : execOp i l op o w = some (w', x)) (hw : Made ρ r w) : Made ρ r w' := by
  rcases execOp_effect hlab h with rfl | ⟨a, y, h⟩
  · exact hw
  · obtain ⟨hr, hs⟩ := effect_managers (ρ := ρ) h
    exact ⟨hr ▸ hw.runs, fun hs' => Op.effect_stored h (hw.row (hs ▸ hs'))⟩

theorem deliver_calm {c : Bool} (hlab : l.isTask = false)
    (h : deliverOp l op x c w = some w') : Calm ρ w w' := by
  rcases deliverOp_cases hlab h with ⟨rfl, -⟩ | ⟨ρ', -, -, rfl⟩
  · exact .refl ρ _
  · exact calm_unlock

end Calm

/-- How the call has ended: with an error while there is nothing of the run, or with one because of
the body, and then the run is made. -/
def Ended {α : Type} (ρ : ReplicaId) (q : StartRequest) (y : Except Exc α) (w : World) : Prop :=
  match y with
  | .ok _ => q.Fine
  | .error _ => w.NoTrace ρ q.runId ∨ ¬ q.Fine ∧ Made ρ q.runId w

theorem Ended.calm {α : Type} {ρ : ReplicaId} {q : StartRequest} {y : Except Exc α} {w w' : World}
    (h : Ended ρ q y w) (hc : Calm ρ w w') : Ended ρ q y w' := by
  rcases y with e | u
  · exact h.imp hc.noTrace fun h => ⟨h.1, hc.made h.2⟩
  · exact h

def contract (ρ : ReplicaId) (q : StartRequest) : Contract runSystem where
  inv _ := True
  rely j w w' := (j = 0 → Calm ρ w w') ∧ (j ≠ 0 → Made ρ q.runId w → Made ρ q.runId w')
  refl _ w := ⟨fun _ => .refl ρ w, fun _ => id⟩
  trans h h' := ⟨fun hj => (h.1 hj).trans (h'.1 hj), fun hj hw => h'.2 hj (h.2 hj hw)⟩
  starts _ l := l.isTask = true
  init l w := (l = .startRun ρ q ∧ w.NoTrace ρ q.runId) ∨ l.isTask = true
  hold _ _ _ _ := True
  held _ _ _ _ _ := True
  post _ l x w := l = .startRun ρ q → Ended ρ q x w
  sect _ _ _ _ _ := True
  may i l op o w := i = 0 ∧ l.isTask = false ∧ (o.isCancelled = true → w.Unmade ρ q.runId)
    ∧ (op.puts q.runId = true → o.commits = false)
  mayResume i _ _ _ c w := i = 0 ∧ (c = true → w.Unmade ρ q.runId)

section Steps

variable {ρ : ReplicaId} {q : StartRequest} {i : ℕ} {b : Sect World runSig} {w w' : World}
  {A : World → Prop} {α : Type}
  {r : RunId} {p : PutPayload}

/-- Only task 0 has changed anything in the section, and a run that was made still is. -/
structure First (ρ : ReplicaId) (q : StartRequest) (i : ℕ) (b : Sect World runSig) (w : World) :
    Prop where
  first : i = 0 ∨ b.start = w
  made : Made ρ q.runId b.start → Made ρ q.runId w

/-- Besides, the section has started no task and `A` holds. -/
structure K (ρ : ReplicaId) (q : StartRequest) (i : ℕ) (A : World → Prop) (b : Sect World runSig)
    (w : World) : Prop extends First ρ q i b w where
  spawned : b.spawned = []
  holds : A w

theorem K.mono {A' : World → Prop} (h : K ρ q i A b w) (hA : A w → A' w) : K ρ q i A' b w :=
  ⟨h.toFirst, h.spawned, hA h.holds⟩

theorem K.step {A' : World → Prop} (h : K ρ q i A b w) (hi : i = 0)
    (hmade : Made ρ q.runId w → Made ρ q.runId w') (hA : A' w') : K ρ q i A' b w' :=
  ⟨⟨.inl hi, fun hb => hmade (h.made hb)⟩, h.spawned, hA⟩

theorem First.yields {l : Call} {o : Option Op} (h : First ρ q i b w)
    (hb : ∀ l' ∈ b.spawned, l'.isTask) : (contract ρ q).Yields i l b w o := by
  refine ⟨trivial, fun j hj => ⟨fun hj0 => ?_, fun _ => h.made⟩,
    fun l' hl => ⟨hb l' hl, .inr (hb l' hl)⟩, trivial⟩
  rcases h.first with rfl | hw
  · exact absurd hj0 hj
  · rw [hw]
    exact .refl ρ w

theorem wp_op {op : Op} {Q : Except Exc op.Res → Sect World runSig → World → Prop}
    (B : Except Exc op.Res → World → Prop) (h : K ρ q i A b w)
    (sA : ∀ w w', Calm ρ w w' → A w → A w') (sB : ∀ y w w', Calm ρ w w' → B y w → B y w')
    (hx : ∀ w o w' y, A w → (o.isCancelled = true → w.Unmade ρ q.runId) →
      (op.puts q.runId = true → o.commits = false) →
      execOp i (.startRun ρ q) op o w = some (w', y) → B y w')
    (hQ : ∀ y c b w, i = 0 → (c = true → w.Unmade ρ q.runId) → K ρ q i (B y) b w →
      Q (if c then .error .cancelled else y) b w) :
    (contract ρ q).wp i (.startRun ρ q) (awaitOp op) Q b w := by
  refine wp_perform (fun w => i = 0 → A w) (fun y w => i = 0 → B y w)
    (h.yields (by simp [h.spawned])) trivial
    (fun _ => h.holds) (fun w w' hr _ hA hi => sA w w' (hr.1 hi) (hA hi)) ?_
    (fun y w w' hr _ hB hi => sB y w w' (hr.1 hi) (hB hi)) ?_
  · rintro w1 o w2 y - hA - ⟨hi, -, hc, hp⟩ he
    exact ⟨trivial, fun j hj => ⟨fun hj0 => absurd (hj0.trans hi.symm) hj,
      fun _ => exec_made rfl he⟩, trivial, fun _ => hx w1 o w2 y (hA hi) hc hp he⟩
  · rintro y w3 c w4 - hB - ⟨hi, hc⟩ hd
    have hcalm : Calm ρ w3 w4 := deliver_calm rfl hd
    have hc' : c = true → w4.Unmade ρ q.runId := fun h => hcalm.unmade (hc h)
    exact hQ y c ⟨w3, []⟩ w4 hi hc' ⟨⟨.inl hi, hcalm.made⟩, rfl, sB y w3 w4 hcalm (hB hi)⟩

theorem safe_early {op : Op} (ho : op.writesRow = false) :
    (contract ρ q).Safe i (.startRun ρ q) (K ρ q i (World.NoTrace · ρ q.runId)) op := fun _ _ h =>
  wp_op (fun _ w => w.NoTrace ρ q.runId) h (fun _ _ hc hw => hc.noTrace hw)
    (fun _ _ _ hc hw => hc.noTrace hw) (fun _ _ _ _ hw _ _ hx => (exec_calm rfl ho hx).noTrace hw)
    fun _ _ _ _ _ _ hk => hk

theorem keeps_checkModel : (contract ρ q).Keeps i (.startRun ρ q)
    (K ρ q i (World.NoTrace · ρ q.runId)) (checkModel q) := by
  unfold checkModel
  split
  · split_ifs
    · exact keeps_throw _
    · exact keeps_pure _
  · exact keeps_pure _

theorem keeps_checkThreadAccess : (contract ρ q).Keeps i (.startRun ρ q)
    (K ρ q i (World.NoTrace · ρ q.runId)) (checkThreadAccess q) := by
  have hend : ∀ allowed : Bool, (contract ρ q).Keeps i (.startRun ρ q)
      (K ρ q i (World.NoTrace · ρ q.runId))
      (if allowed then pure () else throw (.http 404 s!"Thread {q.threadId} not found")) := by
    intro allowed
    split_ifs
    · exact keeps_pure _
    · exact keeps_throw _
  unfold checkThreadAccess
  split
  · exact keeps_pure _
  · refine keeps_bind (keeps_perform (safe_early rfl)) fun allowed => ?_
    split
    · split_ifs
      · exact keeps_bind (keeps_perform (safe_early rfl)) hend
      · exact hend allowed
    · exact hend allowed

theorem guards_late (op : Op) : (contract ρ q).Guards i (.startRun ρ q) (K ρ q i (Made ρ q.runId))
    (Soft (K ρ q i (Made ρ q.runId)) fun _ _ _ => False) (awaitOp op) := by
  intro b w h
  refine wp_op (fun y w => Made ρ q.runId w ∧ ∀ e, y = .error e → e.isException) h
    (fun _ _ hc hw => hc.made hw) (fun _ _ _ hc hw => ⟨hc.made hw.1, hw.2⟩) ?_ ?_
  · intro w o w' y hw hc _ hx
    refine ⟨exec_made rfl hx hw, ?_⟩
    rintro e rfl
    rcases execOp_cases hx with ⟨a, z, -, -, hy⟩ | ⟨e', ap, -, he, -, hy, -⟩ | ⟨rfl, -⟩
    · cases hy
    · cases hy
      exact he
    · exact absurd (hc rfl) hw.not_unmade
  · intro y c b w _ hc hk
    cases c with
    | true => exact absurd (hc rfl) hk.holds.1.not_unmade
    | false =>
      rcases y with e | u
      · simpa [Soft, hk.holds.2 e rfl] using hk.mono And.left
      · exact hk.mono And.left

def Sorted (ρ : ReplicaId) (q : StartRequest) (i : ℕ) (y : Except Exc α) (b : Sect World runSig)
    (w : World) : Prop :=
  match y with
  | .ok _ => i = 0 ∧ K ρ q i (Made ρ q.runId) b w
  | .error _ => K ρ q i (World.NoTrace · ρ q.runId) b w

def Put (ρ : ReplicaId) (r : RunId) (y : Except Exc α) (w : World) : Prop :=
  match y with
  | .ok _ => Made ρ r w
  | .error _ => Mid ρ r w

theorem Put.calm {y : Except Exc α} (h : Put ρ r y w) (hc : Calm ρ w w') : Put ρ r y w' := by
  rcases y with e | u
  · exact hc.mid h
  · exact hc.made h

theorem made_put (h : Mid ρ r w) : Made ρ r (w.put r p) := by
  unfold World.put
  split <;> exact ⟨h.runs, fun _ => by simp⟩

theorem wp_put (h : K ρ q i (Mid ρ q.runId) b w) :
    (contract ρ q).wp i (.startRun ρ q) (awaitOp (.put q.runId p))
      (fun y => K ρ q i (Put ρ q.runId y)) b w := by
  refine wp_op (Put ρ q.runId) h (fun _ _ hc hw => hc.mid hw) (fun _ _ _ hc hw => hw.calm hc) ?_ ?_
  · intro w o w' y hw _ hp hx
    rcases o with a | ⟨e, _ | a⟩ | _
    · obtain ⟨z, hz, he⟩ := Option.map_eq_some_iff.1 hx
      cases he
      cases a <;> cases hz
      exact made_put hw
    · simp only [execOp] at hx
      split_ifs at hx
      cases hx
      exact hw
    · cases hp (by simp [Op.puts])
    · cases hx
      exact hw
  · intro y c b w _ hc hk
    cases c with
    | false => exact hk
    | true =>
      rcases y with e | u
      · exact hk
      · exact absurd (hc rfl) hk.holds.not_unmade

theorem wp_storeCall_put (h : K ρ q i (Mid ρ q.runId) b w) :
    (contract ρ q).wp i (.startRun ρ q) (storeCall (.put q.runId p))
      (fun y => K ρ q i (Put ρ q.runId y)) b w := by
  have hsleep : ∀ b w, K ρ q i (Mid ρ q.runId) b w → (contract ρ q).wp i (.startRun ρ q)
      (awaitOp .sleep) (fun _ => K ρ q i (Mid ρ q.runId)) b w := fun b w h =>
    wp_op (fun _ => Mid ρ q.runId) h (fun _ _ hc hw => hc.mid hw) (fun _ _ _ hc hw => hc.mid hw)
      (fun _ _ _ _ hw _ _ hx => (exec_calm rfl rfl hx).mid hw) fun _ _ _ _ _ _ hk => hk
  have hretry : ∀ n b w, K ρ q i (Mid ρ q.runId) b w → (contract ρ q).wp i (.startRun ρ q)
      (callStoreWithRetry (.put q.runId p) n) (fun y => K ρ q i (Put ρ q.runId y)) b w := by
    intro n
    induction n with
    | zero => exact fun b w h => wp_put h
    | succ n ih =>
      intro b w h
      rw [callStoreWithRetry, wp_tryExcept]
      refine wp_mono (fun y b w hk => ?_) _ _ _ (wp_put h)
      rcases y with e | u
      · dsimp only
        split_ifs
        · rw [bind_eq, wp_bind]
          refine wp_mono (fun y b w hk => ?_) _ _ _ (hsleep b w hk)
          rcases y with e | u
          · exact hk
          · exact ih b w hk
        · exact hk
      · exact hk
  exact hretry maxAttempts b w h

theorem noTrace_retire {t : ThreadId} (h : Mid ρ r w) :
    (w.setManager ρ (((w.managers ρ).popRun r).unindexRunLocked r t)).NoTrace ρ r := by
  refine ⟨h.row, ?_⟩
  unfold unindexRunLocked popRun
  split
  · simp
  · dsimp only
    split <;> simp

theorem wp_createLocked {now : ℕ} {inflight : List RunId} (hi : i = 0)
    (h : K ρ q i (World.NoTrace · ρ q.runId) b w) :
    (contract ρ q).wp i (.startRun ρ q) (createLocked ρ q.createArgs now inflight)
      (Sorted ρ q i) b w := by
  have hstep : ∀ {A : World → Prop}, A (w.setManager ρ ((w.managers ρ).register
      (q.createArgs.record now))) → K ρ q i A b _ := fun hA =>
    h.step hi (fun hm => absurd hm.runs h.holds.runs) hA
  have hruns : q.runId ∈ ((w.setManager ρ ((w.managers ρ).register
      (q.createArgs.record now))).managers ρ).runs := by
    rw [World.setManager_self]
    unfold register insertKey indexRunLocked
    split
    · assumption
    · simp [CreateArgs.record, StartRequest.createArgs]
  have hpersist : (contract ρ q).wp i (.startRun ρ q)
      (persistNewRunToStore ρ (q.createArgs.record now)) (fun y => K ρ q i (Put ρ q.runId y)) b
      (w.setManager ρ ((w.managers ρ).register (q.createArgs.record now))) := by
    change (contract ρ q).wp i _ (if _ then _ else _) _ _ _
    split_ifs with hs
    · exact hstep (A := Made ρ q.runId) ⟨hruns, fun hs' => by rw [hs'] at hs; cases hs⟩
    · exact wp_storeCall_put (hstep ⟨h.holds.row, hruns, by simpa using hs⟩)
  simp only [createLocked, modifyManager, bind_eq, wp_bind, wp_modify, andThen, wp_tryExcept]
  refine wp_mono (fun y b w hk => ?_) _ _ _ hpersist
  rcases y with e | u
  · exact hk.step hi (fun hm => absurd (.inr ⟨hk.holds.hasStore, hk.holds.row⟩) hm.not_unmade)
      (noTrace_retire hk.holds)
  · have hcalm : Calm ρ w (w.setManager ρ ((w.managers ρ).updateRecords inflight
        (·.interruptBy q.createArgs.multitaskStrategy now))) := calm_setManager rfl rfl
    exact ⟨hi, hk.step hi hcalm.made (hcalm.made hk.holds)⟩

theorem Sorted.unlock {y : Except Exc α} (hi : i = 0) (h : Sorted ρ q i y b w) :
    Sorted ρ q i y b (w.unlock ρ) := by
  rcases y with e | a
  · exact h.step hi calm_unlock.made (calm_unlock.noTrace h.holds)
  · exact ⟨hi, h.2.step hi calm_unlock.made (calm_unlock.made h.2.holds)⟩

theorem wp_createOrRejectLocked {now : ℕ} (hi : i = 0)
    (h : K ρ q i (World.NoTrace · ρ q.runId) b w) :
    (contract ρ q).wp i (.startRun ρ q) (createOrRejectLocked ρ q.createArgs now)
      (Sorted ρ q i) b w := by
  unfold createOrRejectLocked
  split_ifs
  · change (contract ρ q).wp i _ (if _ then _ else _) _ _ _
    split_ifs
    · exact h
    · exact wp_createLocked hi h
  · exact h

theorem guards_persistInterrupted (hi : i = 0) : (contract ρ q).Guards i (.startRun ρ q)
    (K ρ q i (Made ρ q.runId)) (fun _ _ _ => False) (persistInterrupted ρ r) := by
  refine guards_bind ((guards_persistRecordStatus (guards_late _) (guards_late _) (guards_late _)
    (fun _ => guards_late _) fun v => guards_modify fun b w h => ?_).mono fun _ _ _ h => h.2)
    fun _ => guards_pure _
  exact h.step hi (calm_updateRecord _).made ((calm_updateRecord _).made h.holds)

theorem wp_makingLock {p : Co α} (hp : ∀ b w, i = 0 → K ρ q i (World.NoTrace · ρ q.runId) b w →
      (contract ρ q).wp i (.startRun ρ q) p (Sorted ρ q i) b w)
    (h : K ρ q i (World.NoTrace · ρ q.runId) b w) :
    (contract ρ q).wp i (.startRun ρ q) (withLock ρ p) (Sorted ρ q i) b w := by
  refine wp_op (fun _ w => w.NoTrace ρ q.runId) h (fun _ _ hc hw => hc.noTrace hw)
    (fun _ _ _ hc hw => hc.noTrace hw) (fun _ _ _ _ hw _ _ hx => (exec_calm rfl rfl hx).noTrace hw)
    fun y c b w hi _ hk => ?_
  have hsection : (contract ρ q).wp i (.startRun ρ q) (tryFinally p (release ρ))
      (Sorted ρ q i) b w := by
    rw [wp_tryFinally]
    exact wp_mono (fun y b w h => h.unlock hi) _ _ _ (hp b w hi hk)
  cases c with
  | true => exact hk
  | false =>
    rcases y with e | u
    · exact hk
    · exact hsection

theorem wp_createOrReject (h : K ρ q i (World.NoTrace · ρ q.runId) b w) :
    (contract ρ q).wp i (.startRun ρ q) (createOrReject ρ q.createArgs) (Sorted ρ q i) b w := by
  change (contract ρ q).wp i _ (withLock ρ (createOrRejectLocked ρ q.createArgs w.now) >>= _) _ b w
  rw [bind_eq, wp_bind]
  refine wp_mono (fun y b w hk => ?_) _ _ _
    (wp_makingLock (fun _ _ hi hk => wp_createOrRejectLocked hi hk) h)
  rcases y with e | rs
  · exact hk
  · rw [andThen_ok, bind_eq, wp_bind]
    refine wp_mono (fun y b w h => ?_) _ _ _
      (guards_forEach rs (fun r _ => guards_persistInterrupted hk.1) b w hk.2)
    rcases y with e | u
    · exact h.elim
    · exact ⟨hk.1, h⟩

theorem wp_createRun (h : K ρ q i (World.NoTrace · ρ q.runId) b w) :
    (contract ρ q).wp i (.startRun ρ q) (createRun ρ q) (Sorted ρ q i) b w := by
  rw [createRun, wp_tryExcept]
  refine wp_mono (fun y b w hk => ?_) _ _ _ (wp_createOrReject h)
  rcases y with e | r
  · dsimp only
    split <;> exact hk
  · exact hk

theorem guards_upsertThread : (contract ρ q).Guards i (.startRun ρ q) (K ρ q i (Made ρ q.runId))
    (fun _ _ _ => False) (orReturn (upsertThread q) ()) := by
  refine (guards_orReturn (guards_bind (guards_late _) fun existing => ?_)).mono fun _ _ _ h => h.2
  split
  · refine guards_bind (guards_late _) fun unscoped => ?_
    split
    · exact guards_late _
    · split_ifs
      · refine guards_bind (guards_late _) fun _ => guards_bind (guards_late _) fun existing => ?_
        cases existing <;> exact guards_late _
      · refine guards_bind (guards_late _) fun existing => ?_
        cases existing <;> exact guards_late _
  · next existing _ _ _ => cases existing <;> exact guards_late _

/-- The postcondition of the call. -/
def Ends (ρ : ReplicaId) (q : StartRequest) (i : ℕ) (y : Except Exc RunId) (b : Sect World runSig)
    (w : World) : Prop :=
  First ρ q i b w ∧ (∀ l ∈ b.spawned, l.isTask) ∧ Ended ρ q y w

theorem K.ends {y : Except Exc RunId} (h : K ρ q i A b w) (he : Ended ρ q y w) : Ends ρ q i y b w :=
  ⟨h.toFirst, by simp [h.spawned], he⟩

theorem wp_startMade (hi : i = 0) (h : K ρ q i (Made ρ q.runId) b w) :
    (contract ρ q).wp i (.startRun ρ q) (do
      orReturn (upsertThread q) ()
      let _ ← ofExcept q.graphInput
      let _ ← ofExcept q.runConfig
      dispatch ρ r q.exec
      pure r) (Ends ρ q i) b w := by
  rw [bind_eq, wp_bind]
  refine wp_mono (fun y b w h => ?_) _ _ _ (guards_upsertThread b w h)
  rcases y with e | u
  · exact h.elim
  · have hbad : ∀ e, ¬ q.Fine → Ends ρ q i (.error e) b w := fun e hfine =>
      h.ends (.inr ⟨hfine, h.holds⟩)
    cases hin : q.graphInput with
    | error e => exact hbad e fun hfine => by simpa [hin] using hfine.1
    | ok d =>
      cases hcfg : q.runConfig with
      | error e => exact hbad e fun hfine => by simpa [hcfg] using hfine.2
      | ok d' =>
        refine ⟨⟨.inl hi, fun hb => (calm_updateRecord _).made (h.made hb)⟩, fun l hl => ?_,
          ⟨d, hin⟩, d', hcfg⟩
        have hl' : l ∈ b.spawned ++ [.runAgent ρ r q.exec] := hl
        rw [h.spawned, nil_append, mem_singleton] at hl'
        rw [hl']
        rfl

theorem wp_startRun (h : K ρ q i (World.NoTrace · ρ q.runId) b w) :
    (contract ρ q).wp i (.startRun ρ q) (startRun ρ q) (Ends ρ q i) b w := by
  have hearly : ∀ {b w} (e : Exc), K ρ q i (World.NoTrace · ρ q.runId) b w →
      Ends ρ q i (.error e) b w := fun e h => h.ends (.inl h.holds)
  have hmake : ∀ b w, K ρ q i (World.NoTrace · ρ q.runId) b w →
      (contract ρ q).wp i (.startRun ρ q) (createRun ρ q >>= fun r => do
        orReturn (upsertThread q) ()
        let _ ← ofExcept q.graphInput
        let _ ← ofExcept q.runConfig
        dispatch ρ r q.exec
        pure r) (Ends ρ q i) b w := by
    intro b w h
    rw [bind_eq, wp_bind]
    refine wp_mono (fun y b w hk => ?_) _ _ _ (wp_createRun h)
    rcases y with e | r
    · exact hearly e hk
    · exact wp_startMade hk.1 hk.2
  rw [startRun, bind_eq, wp_bind]
  refine wp_of_keeps keeps_checkModel h fun y b w hk => ?_
  rcases y with e | u
  · exact hearly e hk
  · rw [andThen_ok, bind_eq, wp_bind]
    refine wp_of_keeps keeps_checkThreadAccess hk fun y b w hk => ?_
    rcases y with e | u
    · exact hearly e hk
    · rw [andThen_ok]
      split_ifs
      · rw [bind_eq, wp_bind]
        refine wp_of_keeps (keeps_perform (safe_early rfl)) hk fun y b w hk => ?_
        rcases y with e | u
        · exact hearly e hk
        · exact hmake b w hk
      · exact hmake b w hk

end Steps

section Pools

variable {ρ : ReplicaId} {q : StartRequest}

theorem verified : Verified (contract ρ q) (CleanStartRun ρ q.runId) where
  verified := by
    rintro i l w - (⟨rfl, hw⟩ | hlab)
    · change (contract ρ q).wp i _ (replying (startRun ρ q) .run) _ _ _
      rw [replying, wp_bind]
      refine wp_mono (fun y b w h => ?_) _ _ _ (wp_startRun ⟨⟨.inr rfl, id⟩, rfl, hw⟩)
      obtain ⟨hfirst, hl, he⟩ := h
      rcases y with e | r
      · exact ⟨hfirst.yields hl, fun _ => he⟩
      · exact ⟨hfirst.yields hl, fun _ => he⟩
    · cases l <;> cases hlab
      refine ⟨First.yields ⟨.inr rfl, id⟩ (by simp), trivial, fun _ _ _ _ _ _ _ hm _ => ?_⟩
      cases hm.2.1
  may p i o l op k hc ht := ⟨hc.1.1, hc.1.2 _ ht, hc.2.1, hc.2.2 _ ht op rfl⟩
  mayResume p i c l op k r hc ht := ⟨hc.1.1, hc.2⟩

def OneCall (p : RunPool) : Prop :=
  ∀ (j : ℕ) (u : Task World runSig Reply), p.tasks[j]? = some u → j = 0 ∨ u.label.isTask = true

theorem sound : Sound (contract ρ q) (CleanStartRun ρ q.runId) OneCall where
  toVerified := verified
  call p l _ _ hc := hc.1.elim
  env := by
    rintro p e s - - - he
    cases he
    exact ⟨trivial, fun _ => ⟨fun _ => calm_env e, fun _ => (calm_env e).made⟩⟩
  stable := by
    rintro p a p' j ⟨l, st⟩ - hx - - ht - hr - hA
    have hzero : l = .startRun ρ q → Calm ρ p.shared p'.shared := by
      rintro rfl
      exact hr.1 ((hx j _ ht).resolve_right nofun)
    rcases st with _ | ⟨op, k⟩ | ⟨op, k, y⟩ | y
    · rcases hA with ⟨rfl, hw⟩ | hlab
      · exact .inl ⟨rfl, (hzero rfl).noTrace hw⟩
      · exact .inr hlab
    · trivial
    · trivial
    · exact fun hlab => (hA hlab).calm (hzero hlab)
  extra := by
    intro p a p' hok hx hc hs j u hu
    rcases verified.label_of_step hok hc hs hu with ⟨t, ht, hl⟩ | ⟨-, -, rfl | ⟨t, -, hlab⟩⟩
    · exact hl ▸ hx j t ht
    · exact hc.1.elim
    · exact .inr hlab

/-- A run that is made stays, whatever the call does. -/
theorem made_of_runs {p p' : RunPool} (hok : (contract ρ q).Ok p) (hx : OneCall p)
    (h : Runs (CleanStartRun ρ q.runId) p p') (hmade : Made ρ q.runId p.shared) :
    Made ρ q.runId p'.shared := by
  refine (h.invariant (P := fun p => ((contract ρ q).Ok p ∧ OneCall p) ∧ Made ρ q.runId p.shared)
    ⟨⟨hok, hx⟩, hmade⟩ fun p a p' ⟨⟨hok, hx⟩, hmade⟩ hc hs => ?_).2
  obtain ⟨hok', hrely⟩ := sound.step hok hx hc hs
  refine ⟨⟨hok', sound.extra p a p' hok hx hc hs⟩, (hrely 1 fun hact => ?_).2 one_ne_zero hmade⟩
  -- The only task that acts is the first.
  cases a <;> cases hact <;> exact one_ne_zero hc.1.1

end Pools

end StartRun

def World.calling (w : World) (l : Call) : RunPool := ⟨w, [⟨l, .fresh⟩]⟩

theorem StartRun.ok_calling {ρ : ReplicaId} {q : StartRequest} {w : World}
    (hw : w.NoTrace ρ q.runId) : (contract ρ q).Ok (w.calling (.startRun ρ q)) ∧
      OneCall (w.calling (.startRun ρ q)) := by
  have hone : ∀ (i : ℕ) (t : Task World runSig Reply),
      (w.calling (.startRun ρ q)).tasks[i]? = some t → t = ⟨.startRun ρ q, .fresh⟩ :=
    fun i t ht => mem_singleton.1 (mem_of_getElem? ht)
  refine ⟨⟨trivial, fun i t ht => ?_, fun i t ht => ?_⟩, fun j u hu => ?_⟩
  · rw [hone i t ht]
    exact .inl ⟨rfl, hw⟩
  · rw [hone i t ht]
    trivial
  · exact .inl (Nat.lt_one_iff.1 (List.getElem?_eq_some_iff.1 hu).1)

/-- There is no row of the run, the manager does not have it, and finds other runs only. -/
def RunPool.LeavesNothing (p : RunPool) (ρ : ReplicaId) (r : RunId) : Prop :=
  p.shared.NoTrace ρ r ∧
    ∀ t, (p.shared.managers ρ).threadRecordsLocked t
      = ((((p.shared.managers ρ).runsByThread.get? t).getD []).filter
        (· ≠ r)).filterMap (p.shared.managers ρ).get?

theorem World.NoTrace.leaves {p : RunPool} {ρ : ReplicaId} {r : RunId}
    (h : p.shared.NoTrace ρ r) : p.LeavesNothing ρ r := by
  have hget : (p.shared.managers ρ).get? r = none := if_neg h.runs
  refine ⟨h, fun t => ?_⟩
  rw [threadRecordsLocked, filterMap_filter]
  congr 1
  funext r'
  by_cases hr : r' = r
  · simp [hr, hget]
  · simp [hr]

/-- A call that is cancelled only while its run is not made, and for which a `put` of the run that
raises has not committed, leaves nothing of the run when it raises, exactly if it never came so far
that the run was made, or the input and the config of its body are fine. -/
theorem failed_start_leaves_nothing (ρ : ReplicaId) (q : StartRequest) (w : World) (p : RunPool)
    (y : Except Exc Reply) (hw : w.NoTrace ρ q.runId)
    (h : Runs (CleanStartRun ρ q.runId) (w.calling (.startRun ρ q)) p)
    (ht : p.tasks[0]? = some ⟨.startRun ρ q, .done y⟩) :
    ((∃ e, y = .error e) → p.LeavesNothing ρ q.runId) ↔
      (∀ p1, Runs (CleanStartRun ρ q.runId) (w.calling (.startRun ρ q)) p1 →
        Runs (CleanStartRun ρ q.runId) p1 p → p1.shared.Unmade ρ q.runId) ∨ q.Fine := by
  obtain ⟨hok, hx⟩ := StartRun.ok_calling hw
  have hend : StartRun.Ended ρ q y p.shared := (StartRun.sound.steps hok hx h).1.asserts 0 _ ht rfl
  constructor
  · intro hleaves
    by_cases hfine : q.Fine
    · exact .inr hfine
    refine .inl fun p1 h1 h2 => ?_
    by_contra hmade
    obtain ⟨hok1, hx1⟩ := StartRun.sound.steps hok hx h1
    have hmade' := StartRun.made_of_runs hok1 hx1 h2 (StartRun.made_iff.2 hmade)
    rcases y with e | x
    · exact absurd hmade'.runs (hleaves ⟨e, rfl⟩).1.runs
    · exact hfine hend
  · rintro hcond ⟨e, rfl⟩
    rcases hend with hnone | ⟨hfine, hmade⟩
    · exact hnone.leaves
    · rcases hcond with hun | hfine'
      · exact absurd (hun p h .refl) (StartRun.made_iff.1 hmade)
      · exact absurd hfine' hfine

/-- The first `put` of the run raises. -/
def storeDown : List RunAction :=
  [.start 0] ++ passes 0 ++ [.perform 0 (.raised (.store false "down")), .resume 0 false]

theorem store_down_leaves_nothing :
    ∃ p, Runs (CleanStartRun 0 "a") (({} : World).calling (.startRun 0 plainRequest)) p
      ∧ p.tasks[0]? = some ⟨.startRun 0 plainRequest, .done (.error (.store false "down"))⟩
      ∧ p.LeavesNothing 0 "a" := by
  have hrun : Runs (CleanStartRun 0 "a") (({} : World).calling (.startRun 0 plainRequest))
      ((({} : World).calling (.startRun 0 plainRequest)).final runSystem storeDown) :=
    Pool.steps_final (by decide) (by decide)
  exact ⟨_, hrun, rfl, (failed_start_leaves_nothing 0 plainRequest {} _ _ ⟨rfl, nofun⟩ hrun rfl).2
    (.inr ⟨⟨_, rfl⟩, _, rfl⟩) ⟨_, rfl⟩⟩

def malformedRequest : StartRequest :=
  { plainRequest with body := { config := some [("configurable", .num 5)] } }

def malformedStart : List RunAction :=
  [.start 0] ++ passes 0 ++ passes 0 ++ passes 0 (.found none) ++ passes 0

/-- It raises and leaves a pending run behind, because of which the next one is refused. -/
theorem malformed_config_leaves_run :
    ∃ p e p', Runs (CleanStartRun 0 "a") (({} : World).calling (.startRun 0 malformedRequest)) p
      ∧ p.tasks[0]? = some ⟨.startRun 0 malformedRequest, .done (.error e)⟩
      ∧ p.shared.memStatus 0 "a" = some .pending ∧ p.shared.rowStatus "a" = some .pending
      ∧ p.run runSystem
        ([.call (.createOrReject 0 ⟨"b", "t", none, .cancel, "reject", none, none⟩), .start 1]
          ++ passes 1) = some p'
      ∧ (p'.tasks[1]?.map Task.state)
        = some (.done (.error (Exc.conflict "Thread t already has an active run"))) :=
  ⟨(({} : World).calling (.startRun 0 malformedRequest)).final runSystem malformedStart, _, _,
    Pool.steps_final (by decide) (by decide), rfl, by decide, by decide, rfl, rfl⟩

end DeerFlow

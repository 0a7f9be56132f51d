import DeerFlow.Proofs.Footprints
import DeerFlow.Proofs.Stretch

/-!
# The end of a run's stream

`publish_end` is called at the end of the `finally` of `run_agent`, so a run closes its stream if
its claim does not raise and no cancellation reaches it before its `try` or in that block. A claim
that is lost leaves the stream to the other worker.
-/

namespace DeerFlow

open Coop Coop.Contract Coro Coro

def World.heldElsewhere (w : World) (r : RunId) (x : ExecRequest) : Bool :=
  match ownershipKey (x.ctx.tenantOrg.getD "") r with
  | .ok key => (w.lease? key).any fun c => c.workerId ≠ workerId x
  | .error _ => false

def ExecRequest.claimable (x : ExecRequest) (r : RunId) : Bool :=
  x.ctx.leaseStore = .null || (ownershipKey (x.ctx.tenantOrg.getD "") r).toBool

def Op.isLookup : Op → Bool
  | .redisGet _ => true
  | _ => false

/-- A task of a run may be cancelled between the claim and the `finally`, whose beginning sets the
run's `lease_stop`. -/
def Interruptible (op : Op) (r : RunId) (w : World) : Prop :=
  op.isEntry = false ∧ w.leaseStop r = false

def Call.run? : Call → Option (RunId × ExecRequest)
  | .runAgent _ r x => some (r, x)
  | _ => none

/-- How an operation of `run_agent` may end. -/
def ClosingEnd (w : World) (op : Op) (o : Outcome) (l : Call) : Prop :=
  ∀ q ∈ l.run?, (o.isCancelled = true → Interruptible op q.1 w)
    ∧ (op.isClaim = true → o.isRaised = false)

/-- Resumed from before its `try`, `run_agent` begins once for a run, and a lost claim finds another
worker with the lease. -/
def Entered (w : World) (r : RunId) (x : ExecRequest) (op : Op) : Prop :=
  (op.isStart = true → w.leaseStop r = false ∧ x.claimable r = true)
    ∧ (op.isLookup = true → w.heldElsewhere r x = true)

def ClosingResume (w : World) (op : Op) (c : Bool) (l : Call) : Prop :=
  ∀ q ∈ l.run?, (c = true → Interruptible op q.1 w) ∧ Entered w q.1 q.2 op

def ClosingRun (p : RunPool) : RunAction → Prop
  | .perform i o => ∀ t ∈ p.tasks[i]?, ∀ op ∈ t.state.op?, ClosingEnd p.shared op o t.label
  | .resume i c => ∀ t ∈ p.tasks[i]?, ∀ op ∈ t.state.ready?, ClosingResume p.shared op c t.label
  | _ => True

instance (op : Op) (r : RunId) (w : World) : Decidable (Interruptible op r w) :=
  inferInstanceAs (Decidable (_ ∧ _))

instance (w : World) (r : RunId) (x : ExecRequest) (op : Op) : Decidable (Entered w r x op) :=
  inferInstanceAs (Decidable ((_ → _) ∧ (_ → _)))

instance decidableClosingEnd (w : World) (op : Op) (o : Outcome) (l : Call) :
    Decidable (ClosingEnd w op o l) := inferInstanceAs (Decidable (∀ q ∈ l.run?, _))

instance (w : World) (op : Op) (c : Bool) (l : Call) : Decidable (ClosingResume w op c l) :=
  inferInstanceAs (Decidable (∀ q ∈ l.run?, _))

instance (p : RunPool) : ∀ a, Decidable (ClosingRun p a)
  | .perform i o =>
    have (l : Call) (op : Op) : Decidable (ClosingEnd p.shared op o l) := decidableClosingEnd _ _ _ _
    inferInstanceAs (Decidable (∀ t ∈ p.tasks[i]?, ∀ op ∈ t.state.op?,
      ClosingEnd p.shared op o t.label))
  | .resume _ _ => inferInstanceAs (Decidable (∀ t ∈ p.tasks[_]?, _))
  | .call _ | .start _ | .env _ => .isTrue trivial

namespace StreamEnd

variable {op : Op}

def Grows (w w' : World) : Prop :=
  (∀ r ∈ w.ended, r ∈ w'.ended) ∧ ∀ r, w.leaseStop r = true → w'.leaseStop r = true

theorem Grows.refl (w : World) : Grows w w := ⟨fun _ h => h, fun _ h => h⟩

theorem Grows.trans {w w' w'' : World} (h : Grows w w') (h' : Grows w' w'') : Grows w w'' :=
  ⟨fun r hr => h'.1 r (h.1 r hr), fun r hr => h'.2 r (h.2 r hr)⟩

theorem Grows.of_same {w w' : World} (he : w'.ended = w.ended) (hl : w'.leaseStop = w.leaseStop) :
    Grows w w' := ⟨fun _ h => he ▸ h, fun _ h => hl ▸ h⟩

def contract : Contract runSystem where
  inv _ := True
  rely _ := Grows
  refl _ := .refl
  trans h h' := h.trans h'
  starts _ _ := True
  init _ _ := True
  hold _ _ _ _ := True
  held _ _ _ _ _ := True
  post _ _ _ _ := True
  sect _ l _ w' o := o = none → ∀ ρ r x, l = .runAgent ρ r x →
    r ∈ w'.ended ∨ w'.heldElsewhere r x = true
  may _ l op o w := ClosingEnd w op o l
  mayResume _ l op _ c w := ClosingResume w op c l

variable {i : ℕ} {l : Call} {ρ : ReplicaId} {r : RunId} {x : ExecRequest} {α : Type}
  {b : Sect World runSig} {w w' : World} {A : World → Prop}

theorem clearCancel_same (w : World) (l : Call) : (l.clearCancel w).ended = w.ended
    ∧ (l.clearCancel w).leaseStop = w.leaseStop ∧ (l.clearCancel w).redis = w.redis
    ∧ (l.clearCancel w).now = w.now := by
  cases l <;> exact ⟨rfl, rfl, rfl, rfl⟩

theorem exec_grows {o : Outcome} {y : Except Exc op.Res}
    (h : execOp i l op o w = some (w', y)) : Grows w w' := by
  rcases execOp_cases h with ⟨a, z, -, h, -⟩ | ⟨e, ap, -, -, -, -, rfl | ⟨a, z, h⟩⟩ | ⟨-, -, rfl, -⟩
  · exact .of_same (Op.effect_leaves h).ended (Op.effect_leaves h).leaseStop
  · exact .refl _
  · exact .of_same (Op.effect_leaves h).ended (Op.effect_leaves h).leaseStop
  · exact .of_same (clearCancel_same w l).1 (clearCancel_same w l).2.1

theorem deliver_grows {y : Except Exc op.Res} {c : Bool}
    (h : deliverOp l op y c w = some w') : Grows w w' := by
  rcases deliverOp_inv h with ⟨-, rfl, -⟩ | ⟨-, -, rfl | ⟨ρ, -, rfl⟩⟩
  · exact .refl _
  · exact .of_same (clearCancel_same w l).1 (clearCancel_same w l).2.1
  · exact .of_same (clearCancel_same w l).1 (clearCancel_same w l).2.1

/-- The section under way has taken back no end and no stop, and `A` holds. -/
def K (A : World → Prop) (b : Sect World runSig) (w : World) : Prop := Grows b.start w ∧ A w

theorem yields_of_grows (h : Grows b.start w) : contract.Yields i l b w (some op) :=
  ⟨trivial, fun _ _ => h, fun _ _ => ⟨trivial, trivial⟩, nofun⟩

theorem wp_op {Q : Except Exc op.Res → Sect World runSig → World → Prop}
    (E : Except Exc op.Res → Prop) (h : K A b w) (sA : ∀ w w', Grows w w' → A w → A w')
    (hE : ∀ w o w' y, A w → ClosingEnd w op o l → execOp i l op o w = some (w', y) → E y)
    (hQ : ∀ y w c w', A w → E y → ClosingResume w op c l → deliverOp l op y c w = some w' →
      K A ⟨w, []⟩ w' → Q (if c then .error .cancelled else y) ⟨w, []⟩ w') :
    contract.wp i l (awaitOp op) Q b w := by
  refine wp_perform A (fun y w => A w ∧ E y) (yields_of_grows h.1) trivial h.2
    (fun w w' hr _ => sA w w' hr) ?_ (fun y w w' hr _ h => ⟨sA w w' hr h.1, h.2⟩) ?_
  · intro w1 o w2 y _ hA _ hm hx
    have hg := exec_grows hx
    exact ⟨trivial, fun _ _ => hg, trivial, sA w1 w2 hg hA, hE w1 o w2 y hA hm hx⟩
  · intro y w3 c w4 _ ⟨hA, hy⟩ _ hm hd
    have hg := deliver_grows hd
    exact hQ y w3 c w4 hA hy hm hd ⟨hg, sA w3 w4 hg hA⟩

theorem safe_any (op : Op) (sA : ∀ w w', Grows w w' → A w → A w') :
    contract.Safe i l (K A) op := fun _ _ h =>
  wp_op (fun _ => True) h sA (fun _ _ _ _ _ _ _ => trivial) fun _ _ _ _ _ _ _ _ h => h

theorem calm_any (op : Op) (hA : ∀ w, A w → w.leaseStop r)
    (sA : ∀ w w', Grows w w' → A w → A w') (h : K A b w) :
    contract.wp i (.runAgent ρ r x) (awaitOp op)
      (fun y b w => K A b w ∧ ∀ e, y = .error e → e.isException) b w := by
  refine wp_op (fun y => ∀ e, y = .error e → e.isException) h sA ?_ ?_
  · rintro w o w' y hw hm hx e rfl
    obtain ⟨hc, -⟩ := hm (r, x) rfl
    rcases execOp_cases hx with ⟨a, z, -, -, hy⟩ | ⟨e', ap, -, he, -, hy, -⟩ | ⟨rfl, -⟩
    · cases hy
    · cases hy
      exact he
    · have := (hc rfl).2
      rw [hA w hw] at this
      cases this
  · intro y w c w' hw hy hm _ hk
    cases c with
    | false => exact ⟨hk, hy⟩
    | true =>
      have := ((hm (r, x) rfl).1 rfl).2
      rw [hA w hw] at this
      cases this

theorem wp_entry {Q : Except Exc op.Res → Sect World runSig → World → Prop}
    (ho : op.isEntry) (hr : op.canRaise → op.isClaim)
    (h : K (fun _ => True) b w)
    (hQ : ∀ z w, Entered w r x op → Q (.ok z) ⟨w, []⟩ w) :
    contract.wp i (.runAgent ρ r x) (awaitOp op) Q b w := by
  refine wp_op (fun y => ∃ z, y = .ok z) h (fun _ _ _ h => h) ?_ ?_
  · intro w o w' y _ hm hx
    obtain ⟨hc, hcl⟩ := hm (r, x) rfl
    rcases execOp_cases hx with ⟨a, z, -, -, hy⟩ | ⟨e', ap, rfl, -, he, -⟩ | ⟨rfl, -⟩
    · exact ⟨z, hy⟩
    · cases hcl (hr he)
    · have := (hc rfl).1
      rw [ho] at this
      cases this
  · rintro _ w c w' - ⟨z, rfl⟩ hm hd hk
    cases c with
    | false =>
      obtain ⟨-, rfl, -⟩ | ⟨hc, -⟩ := deliverOp_inv hd
      · exact hQ z w' (hm (r, x) rfl).2
      · cases hc
    | true =>
      have := ((hm (r, x) rfl).1 rfl).1
      rw [ho] at this
      cases this

section RunAgent

variable {Q : Except Exc Unit → Sect World runSig → World → Prop}

theorem K.mono {A' : World → Prop} (h : K A b w) (hA : A w → A' w) : K A' b w := ⟨h.1, hA h.2⟩

def Stopped (r : RunId) (w : World) : Prop := w.leaseStop r = true

theorem Stopped.stable (h : Stopped r w) (hg : Grows w w') : Stopped r w' := hg.2 r h

/-- In the `finally`, a coroutine that returns. -/
def Shielded (i : ℕ) (ρ : ReplicaId) (r : RunId) (x : ExecRequest) (p : Co α) : Prop :=
  ∀ Q : Except Exc α → Sect World runSig → World → Prop, ∀ b w, K (Stopped r) b w →
    (∀ z b w, K (Stopped r) b w → Q (.ok z) b w) → contract.wp i (.runAgent ρ r x) p Q b w

theorem shielded_orReturn {p : Co α} {a : α} (hp : p.Within (aside fun _ => False)) :
    Shielded i ρ r x (orReturn p a) := by
  intro Q b w h hQ
  rw [orReturn, wp_tryExcept]
  refine wp_mono ?_ _ _ _ (wp_of_within (K := K (Stopped r)) ?_ ?_ (fun _ _ _ _ h => h) b w hp h)
  · rintro (e | z) b w ⟨hk, he⟩
    · dsimp only
      rw [if_pos ((he e rfl).resolve_right id)]
      exact hQ a b w hk
    · exact hQ z b w hk
  · rintro b w w' ⟨ms, n, rfl⟩ h
    exact h
  · intro op _ b w h
    refine wp_mono (fun y b w h => ⟨h.1, fun e he => .inl (h.2 e he)⟩) _ _ _
      (calm_any op (fun _ h => h) (fun _ _ hg h => Stopped.stable h hg) h)

theorem shielded_await (op : Op) (ho : op.writesCheckpoint = false) {a : op.Res} :
    Shielded i ρ r x (orReturn (awaitOp op) a) := shielded_orReturn (within_perform ho)

theorem Shielded.bind {β : Type} {p : Co α} {f : α → Co β}
    {Q : Except Exc β → Sect World runSig → World → Prop} (hp : Shielded i ρ r x p)
    (hf : ∀ a b w, K (Stopped r) b w → contract.wp i (.runAgent ρ r x) (f a) Q b w)
    (h : K (Stopped r) b w) : contract.wp i (.runAgent ρ r x) (p >>= f) Q b w := by
  rw [bind_eq, wp_bind]
  exact hp _ b w h hf

theorem Shielded.ite {c : Prop} [Decidable c] {p rest : Co Unit}
    (hp : Shielded i ρ r x p)
    (hrest : ∀ b w, K (Stopped r) b w → contract.wp i (.runAgent ρ r x) rest Q b w)
    (h : K (Stopped r) b w) :
    contract.wp i (.runAgent ρ r x) (if c then p >>= fun _ => rest else rest) Q b w := by
  split_ifs
  · exact hp.bind (fun _ => hrest) h
  · exact hrest b w h

theorem shielded_closeJournal : Shielded i ρ r x (closeJournal ρ r x) := fun _ _ _ h hQ =>
  (shielded_await (.flushJournal r) rfl).bind
    (fun _ b w h => shielded_orReturn (within_persistCompletion (aside_allows _).toAllows trivial) _ b w h hQ) h

theorem wp_publishEnd
    (h : K (Stopped r) b w) (hQ : ∀ y b w, K (fun w => r ∈ w.ended) b w → Q y b w) :
    contract.wp i l (publishEnd r) Q b w := by
  simp only [publishEnd, bind_eq, wp_bind, wp_modify, andThen]
  refine wp_of_keeps (K := K fun w => r ∈ w.ended)
    (safe_any _ fun w w' hg h => hg.1 r h) ⟨?_, by simp⟩ hQ
  exact h.1.trans ⟨fun r' hr => List.mem_append_left _ hr, fun _ hs => hs⟩

theorem wp_agentFinally {org : String} {t : ThreadId} {lease : ClaimRecord}
    (h : Grows b.start w)
    (hQ : ∀ y b w, K (fun w => r ∈ w.ended) b w → Q y b w) :
    contract.wp i (.runAgent ρ r x) (agentFinally ρ r x org t lease) Q b w := by
  simp only [agentFinally, setLeaseStop, bind_eq, wp_bind, wp_modify, andThen]
  refine (shielded_await (.joinHeartbeat r) rfl).ite (fun b w h => ?_) ?_
  · refine (shielded_orReturn (within_leaseRelease (aside_allows _).toAllows)).bind (fun _ b w h => ?_) h
    refine shielded_closeJournal.ite (fun b w h => ?_) h
    refine (shielded_orReturn (within_syncTitle (aside_allows _).toAllows)).ite (fun b w h => ?_) h
    exact (shielded_await (.threadWrite t "update_status") rfl).ite
      (fun b w h => wp_publishEnd h hQ) h
  · refine ⟨h.trans ⟨fun _ hr => hr, fun r' hr => ?_⟩, by simp [Stopped]⟩
    by_cases hr' : r' = r
    · simp [hr']
    · simpa [hr'] using hr

def Closed (r : RunId) (x : ExecRequest) (w : World) : Prop :=
  r ∈ w.ended ∨ w.heldElsewhere r x = true

theorem wp_claimed {org : String} {t : ThreadId} {lease : ClaimRecord} (h : Grows b.start w) :
    contract.wp i (.runAgent ρ r x)
      (tryFinally (tryExcept (agentBody ρ r x t) (agentHandler ρ r x t))
        (agentFinally ρ r x org t lease)) (fun _ => K (Closed r x)) b w := by
  rw [wp_tryFinally]
  have hbody : (tryExcept (agentBody ρ r x t) (agentHandler ρ r x t)).Within alongside :=
    within_tryExcept (within_agentBody alongside_allows trivial) fun e _ =>
      within_agentHandler alongside_allows trivial e
  refine wp_mono (fun y b w h => ?_) _ _ _
    (wp_of_within (K := K fun _ => True) ?_ ?_ (fun _ _ _ _ h => h) b w hbody ⟨h, trivial⟩)
  · refine wp_agentFinally h.1.1 fun z b w h => ?_
    rcases z with e | u <;> exact h.mono .inl
  · rintro b w w' ⟨ms, n, fr, lg, rfl⟩ h
    exact h
  · intro op _ b w h
    exact wp_mono (fun _ b w h => ⟨h, fun _ _ => trivial⟩) _ _ _
      (safe_any op (fun _ _ _ h => h) b w h)

theorem wp_claim {workerId' workerVersion : String}
    {Q : Except Exc ClaimResult → Sect World runSig → World → Prop} (h : Grows b.start w)
    (hcl : x.claimable r)
    (hQ : ∀ c b w, Grows b.start w → (c.record = none → w.heldElsewhere r x) → Q (.ok c) b w) :
    contract.wp i (.runAgent ρ r x)
      (x.ctx.leaseStore.claim (x.ctx.tenantOrg.getD "") r workerId' workerVersion) Q b w := by
  cases hls : x.ctx.leaseStore with
  | null => exact hQ _ _ _ h nofun
  | redis =>
    obtain ⟨key, hkey⟩ : ∃ key, ownershipKey (x.ctx.tenantOrg.getD "") r = .ok key := by
      cases hk : ownershipKey (x.ctx.tenantOrg.getD "") r with
      | ok key => exact ⟨key, rfl⟩
      | error e => simp [ExecRequest.claimable, hls, hk, Except.toBool] at hcl
    simp only [LeaseBackend.claim, RedisLeaseStore.claim, newClaimRecord, newLeaseToken,
      bind_eq, wp_bind, wp_get, wp_modify, andThen, pure_eq, wp_ret, hkey, ofExcept]
    refine wp_entry rfl (fun _ => rfl) ⟨h, trivial⟩ fun acquired w _ => ?_
    cases acquired with
    | true => exact hQ _ _ _ (.refl w) nofun
    | false =>
      simp only [Bool.false_eq_true, if_false, RedisLeaseStore.getHolder, bind_eq, wp_bind,
        hkey, ofExcept, pure_eq, wp_ret, andThen]
      exact wp_entry rfl (fun _ => rfl) ⟨.refl w, trivial⟩ fun z w hm =>
        hQ _ _ _ (.refl w) fun _ => hm.2 rfl

theorem wp_runAgent (h : Grows b.start w) (hs : w.leaseStop r = false)
    (hcl : x.claimable r) :
    contract.wp i (.runAgent ρ r x) (runAgent ρ r x) (fun _ => K (Closed r x)) b w := by
  simp only [runAgent, setFrame, setLeaseStop, threadOf, bind_eq, wp_bind, wp_modify, wp_get,
    andThen, pure_eq, wp_ret]
  have hsame : Function.update w.leaseStop r false = w.leaseStop :=
    Function.update_eq_self_iff.2 hs.symm
  refine wp_claim (h.trans (.of_same rfl hsame)) hcl fun c b w hg hc => ?_
  dsimp only [andThen]
  cases hrec : c.record with
  | none => exact ⟨hg, .inr (hc hrec)⟩
  | some lease =>
    split_ifs
    · exact wp_claimed (b := ⟨b.start, b.spawned ++ [.heartbeat ρ r _ lease x.beats]⟩) hg
    · exact wp_claimed hg

theorem wp_runAgentTask : contract.wp i (.runAgent ρ r x) (runAgentTask ρ r x)
    (fun _ => K (Closed r x)) ⟨w, []⟩ w := by
  rw [runAgentTask, wp_bind, wp_attempt, bind_eq, wp_bind]
  refine wp_entry rfl nofun ⟨.refl w, trivial⟩ fun z w hm => ?_
  exact wp_mono (fun res b w h => h) _ ⟨w, []⟩ w (wp_runAgent (.refl w) (hm.1 rfl).1 (hm.1 rfl).2)

end RunAgent

theorem verified (i : ℕ) (l : Call) (w : World) :
    contract.wp i l (prog l) (contract.Finish i l) ⟨w, []⟩ w := by
  cases hlab : l.isTask with
  | false =>
    refine wp_mono ?_ _ _ _ (wp_of_within (K := K fun _ => True) ?_ ?_ (fun _ _ _ _ h => h) _ _
      (within_prog (aside_allows fun _ => True) hlab (fun _ _ => trivial) fun _ => .inr trivial)
      ⟨.refl w, trivial⟩)
    · rintro y b w ⟨h, -⟩
      refine ⟨⟨trivial, fun _ _ => h.1, fun _ _ => ⟨trivial, trivial⟩, ?_⟩, trivial⟩
      rintro - ρ r x rfl
      cases hlab
    · rintro b w w' ⟨ms, n, rfl⟩ h
      exact h
    · intro op _ b w h
      exact wp_mono (fun _ b w h => ⟨h, fun _ _ => .inr trivial⟩) _ _ _
        (safe_any op (fun _ _ _ h => h) b w h)
  | true =>
    cases l <;> cases hlab
    refine wp_reply wp_runAgentTask fun y b w h => ?_
    refine ⟨⟨trivial, fun _ _ => h.1, fun _ _ => ⟨trivial, trivial⟩, ?_⟩, trivial⟩
    rintro - ρ' r' x' ⟨⟩
    exact h.2

theorem sound : Sound contract ClosingRun fun _ => True where
  verified i l w _ _ := verified i l w
  may _ _ _ _ op _ hc ht := hc _ ht op rfl
  mayResume _ _ _ _ op _ _ hc ht := hc _ ht op rfl
  call _ _ _ _ _ := trivial
  env := by
    rintro p e s - - - he
    cases he
    refine ⟨trivial, fun _ => ?_⟩
    cases e <;> exact .of_same rfl rfl
  stable := by
    rintro p a p' j ⟨l, _ | ⟨op, k⟩ | ⟨op, k, y⟩ | y⟩ - - - - - - - - - <;> trivial
  extra _ _ _ _ _ _ _ := trivial

end StreamEnd

/-- Where claims do not raise, no run is cancelled before its `try` or in its `finally`, and a lost
claim finds another worker with the lease: when a run's task ends, `publish_end` was called for the
run or another worker has its lease. -/
theorem finished_run_closes_stream {w : World} {p p' : RunPool} {a : RunAction}
    (h : Runs ClosingRun w.pool p) (hc : ClosingRun p a) (hs : p.step runSystem a = some p')
    {i : ℕ} {ρ : ReplicaId} {r : RunId} {x : ExecRequest} {st : TaskState World runSig Reply}
    {res : Except Exc Reply} (ht : p.tasks[i]? = some ⟨.runAgent ρ r x, st⟩)
    (hst : st.isDone = false) (ht' : p'.tasks[i]? = some ⟨.runAgent ρ r x, .done res⟩) :
    r ∈ p'.shared.ended ∨ p'.shared.heldElsewhere r x = true := by
  have hok : StreamEnd.contract.Ok w.pool :=
    ⟨trivial, fun i t ht => by simp [World.pool] at ht, fun i t ht => by simp [World.pool] at ht⟩
  have hok := (StreamEnd.sound.steps hok trivial h).1
  exact StreamEnd.sound.toVerified.sect_of_done hok hc hs ht hst ht' rfl rfl ρ r x rfl

def plainRun : List RunAction :=
  plainStart ++ [.start 1] ++ (List.replicate 12 (passes 1)).flatten ++ [.perform 1 .ok]

theorem plain_run_closes_stream :
    ∃ p p' st, Runs ClosingRun ({} : World).pool p ∧ ClosingRun p (.resume 1 false)
      ∧ p.step runSystem (.resume 1 false) = some p'
      ∧ p.tasks[1]? = some ⟨.runAgent 0 "a" plainRequest.exec, st⟩ ∧ st.isDone = false
      ∧ p'.tasks[1]? = some ⟨.runAgent 0 "a" plainRequest.exec, .done (.ok .unit)⟩
      ∧ ("a" ∈ p'.shared.ended ∨ p'.shared.heldElsewhere "a" plainRequest.exec = true) := by
  have hrun : Runs ClosingRun ({} : World).pool (({} : World).pool.final runSystem plainRun) :=
    Pool.steps_final (by decide) (by decide)
  have hc : ClosingRun (({} : World).pool.final runSystem plainRun) (.resume 1 false) := by decide
  have hs := Pool.step_final (Y := runSystem) (a := .resume 1 false)
    (p := ({} : World).pool.final runSystem plainRun) (by decide)
  exact ⟨_, _, _, hrun, hc, hs, rfl, rfl, rfl, finished_run_closes_stream (i := 1) (ρ := 0) (r := "a")
    (x := plainRequest.exec) hrun hc hs rfl rfl rfl⟩

def cancelledAtStart : List RunAction :=
  plainStart ++ [.call (.cancel 0 "a" "interrupt"), .start 2] ++ passes 2
    ++ [.start 1, .perform 1 .cancelled, .resume 1 false]

/-- Its task has ended, and nobody will close its stream. -/
theorem cancelled_at_start_leaves_stream_open : ∃ p res, Runs (fun _ _ => True) ({} : World).pool p
      ∧ p.tasks[1]? = some ⟨.runAgent 0 "a" plainRequest.exec, .done res⟩
      ∧ "a" ∉ p.shared.ended ∧ p.shared.heldElsewhere "a" plainRequest.exec = false :=
  ⟨({} : World).pool.final runSystem cancelledAtStart, _,
    Pool.steps_final (by decide) (by decide), rfl, by decide, by decide⟩

end DeerFlow

import DeerFlow.Data.Slots
import DeerFlow.Proofs.Stretch

/-!
# The lease keys

Any number of workers claim, renew and release leases while time passes and keys expire. The
`Ledger` remembers the token of the last claim that took a key and when each task sent its request.
Only that token renews or releases the key, and the stored `lease_expires_at` runs out before the
key.
-/

namespace DeerFlow

open Option Coop Coop.Contract World

def Call.isLease : Call → Bool
  | .claim .. | .renew .. | .release .. | .getHolder .. => true
  | _ => false

def Op.isLease : Op → Bool
  | .redisSetNx .. | .redisGet _ | .redisRenew .. | .redisRelease .. => true
  | _ => false

def Outcome.applies : Outcome → Bool
  | .ok _ => true
  | .raised _ a => a.isSome
  | .cancelled => false

def LeaseCalls : RunAction → Prop
  | .call l => l.isLease = true
  | .env (.writeLease _ _) => False
  | _ => True

instance (a) : Decidable (LeaseCalls a) := by
  unfold LeaseCalls
  split <;> infer_instance

/-- The token of the last claim that took a key, and when each task sent the request it waits
for. -/
structure Ledger where
  owner : Option ℕ := none
  sent : ℕ → ℕ := fun _ => 0

namespace Ledger

def taken (key : String) (p : RunPool) : RunAction → Option ℕ
  | .perform i o =>
    match (p.tasks[i]?).bind fun t => t.state.op? with
    | some (.redisSetNx k v _) =>
      if k = key ∧ o.applies = true ∧ p.shared.lease? key = none then some v.leaseToken else none
    | _ => none
  | _ => none

def next (key : String) (p : RunPool) (g : Ledger) (a : RunAction) : Ledger where
  owner := (taken key p a).or g.owner
  sent :=
    match a with
    | .start i | .resume i _ => Function.update g.sent i p.shared.now
    | _ => g.sent

theorem next_owner (key : String) (p : RunPool) (g : Ledger) (a : RunAction) :
    (g.next key p a).owner = (taken key p a).or g.owner := rfl

def along (key : String) : RunPool → Ledger → List RunAction → Ledger
  | _, g, [] => g
  | p, g, a :: as =>
    match p.step runSystem a with
    | some p' => along key p' (g.next key p a) as
    | none => g

end Ledger

/-- The request carries an expiry counted from `n`. -/
def Op.Stamped (n : ℕ) : Op → Prop
  | .redisSetNx _ v ttl => v.leaseExpiresAt = n + seconds ttl
  | .redisRenew _ _ ttl ex => ex = n + seconds ttl
  | _ => True

namespace Lease

def contract : Contract runSystem where
  inv _ := True
  rely _ _ _ := True
  refl _ _ := trivial
  trans _ _ := trivial
  starts _ _ := False
  init l _ := l.isLease = true
  hold _ l op _ := l.isLease = true ∧ op.isLease = true
  held _ _ _ _ _ := True
  post _ _ _ _ := True
  sect _ _ w w' o := w'.redis = w.redis ∧ w'.now = w.now ∧ ∀ op, o = some op → op.Stamped w'.now
  may _ _ _ _ _ := True
  mayResume _ _ _ _ _ _ := True

variable {i : ℕ} {l : Call} {b : Sect World runSig} {w w' : World}

def Idle (b : Sect World runSig) (w : World) : Prop :=
  b.spawned = [] ∧ w.redis = b.start.redis ∧ w.now = b.start.now

theorem idle_start (w : World) : Idle ⟨w, []⟩ w := ⟨rfl, rfl, rfl⟩

theorem Idle.yields {o : Option Op} (h : Idle b w) (ho : ∀ op, o = some op → op.Stamped w.now) :
    contract.Yields i l b w o :=
  ⟨trivial, fun _ _ => trivial, by simp [h.1], h.2.1, h.2.2, ho⟩

theorem not_task_of_lease (h : l.isLease) : l.isTask = false := by
  cases l <;> first | rfl | simp [Call.isLease] at h

theorem wp_await {op : Op} {Q : Except Exc op.Res → Sect World runSig → World → Prop}
    (hlab : l.isLease) (h : Idle b w) (hop : op.isLease) (hst : op.Stamped w.now)
    (hQ : ∀ x b w, Idle b w → Q x b w) : contract.wp i l (awaitOp op) Q b w := by
  have hnt := not_task_of_lease hlab
  have hna : op.isAcquire = false := by cases op <;> first | rfl | simp [Op.isLease] at hop
  refine wp_perform (fun _ => True) (fun _ _ => True) (h.yields ?_) ⟨hlab, hop⟩ trivial
    (fun _ _ _ _ h => h) (fun _ _ _ _ _ _ _ _ _ => ⟨trivial, fun _ _ => trivial, trivial, trivial⟩)
    (fun _ _ _ _ _ h => h) ?_
  · rintro op' ⟨⟩
    exact hst
  · intro x w3 c w4 _ _ _ _ hd
    change deliverOp l op x c w3 = some w4 at hd
    rw [deliverOp_of_not_acquire hna] at hd
    rw [Call.interrupt_of_not_task hnt hd]
    exact hQ _ _ _ (idle_start w3)

theorem wp_getHolder {org : String} {r : RunId}
    {Q : Except Exc (Option ClaimRecord) → Sect World runSig → World → Prop}
    (hlab : l.isLease) (h : Idle b w) (hQ : ∀ x b w, Idle b w → Q x b w) :
    contract.wp i l (RedisLeaseStore.getHolder org r) Q b w := by
  rw [RedisLeaseStore.getHolder, Coro.bind_eq, wp_bind]
  cases ownershipKey org r with
  | error e => exact hQ _ b w h
  | ok key => exact wp_await hlab h rfl trivial hQ

theorem wp_claim {org wid ver : String} {r : RunId} {ttl : ℕ}
    {Q : Except Exc ClaimResult → Sect World runSig → World → Prop}
    (hlab : l.isLease) (h : Idle b w) (hQ : ∀ x b w, Idle b w → Q x b w) :
    contract.wp i l (RedisLeaseStore.claim org r wid ver ttl) Q b w := by
  simp only [RedisLeaseStore.claim, newClaimRecord, newLeaseToken, Coro.bind_eq, wp_bind, wp_get,
    wp_modify, wp_ret, andThen, Coro.pure_eq]
  have h' : Idle b { w with tokens := w.tokens + 1 } := h
  cases ownershipKey org r with
  | error e => exact hQ _ b _ h'
  | ok key =>
    refine wp_await hlab h' rfl rfl fun x b w h => ?_
    rcases x with e | acquired
    · exact hQ _ b w h
    · change contract.wp i l (if acquired then _ else _) Q b w
      split_ifs
      · exact hQ _ b w h
      · rw [wp_bind]
        refine wp_getHolder hlab h fun x b w h => ?_
        rcases x with e | holder <;> exact hQ _ b w h

theorem idle_finish (x : Except Exc Reply) (b : Sect World runSig) (w : World) (h : Idle b w) :
    contract.Finish i l x b w := ⟨h.yields (by simp), trivial⟩

theorem verified (i : ℕ) (l : Call) (w : World) (hlab : l.isLease) :
    contract.wp i l (prog l) (contract.Finish i l) ⟨w, []⟩ w := by
  have h := idle_start w
  cases l <;> simp only [Call.isLease, Bool.false_eq_true] at hlab <;>
    refine wp_reply ?_ idle_finish
  case claim => exact wp_claim rfl h fun _ _ _ h => h
  case getHolder => exact wp_getHolder rfl h fun _ _ _ h => h
  case renew org c ttl =>
    rw [RedisLeaseStore.renew, Coro.bind_eq, wp_bind]
    cases ownershipKey org c.runId with
    | error e => exact h
    | ok key => exact wp_await rfl h rfl rfl fun _ _ _ h => h
  case release org c =>
    rw [RedisLeaseStore.release, Coro.bind_eq, wp_bind]
    cases ownershipKey org c.runId with
    | error e => exact h
    | ok key => exact wp_await rfl h rfl trivial fun _ _ _ h => h

theorem sound : Sound contract (fun _ => LeaseCalls) fun _ => True where
  verified i l w _ h := verified i l w h
  may _ _ _ _ _ _ _ _ := trivial
  mayResume _ _ _ _ _ _ _ _ _ := trivial
  call _ _ _ _ hc := hc
  env _ _ _ _ _ _ _ := ⟨trivial, fun _ => trivial⟩
  stable := by
    rintro p a p' j ⟨l, _ | ⟨op, k⟩ | ⟨op, k, x⟩ | x⟩ - - - - - - - - has
    · exact has
    · exact has
    · trivial
    · trivial
  extra _ _ _ _ _ _ _ := trivial

theorem exec_applies {op : Op} {o : Outcome} {x : Except Exc op.Res} (hlab : l.isTask = false)
    (h : execOp i l op o w = some (w', x)) :
    (o.applies ∧ ∃ a y, op.effect i a w = some (w', y) ∧ ∀ z, x = .ok z → z = y)
      ∨ (o.applies = false ∧ w' = w ∧ ∀ z, x ≠ .ok z) := by
  rcases o with a | ⟨e, _ | a⟩ | _
  · obtain ⟨q, hq, he⟩ := map_eq_some_iff.1 h
    cases he
    exact .inl ⟨rfl, a, q.2, hq, fun z hz => by cases hz; rfl⟩
  · simp only [execOp] at h
    split_ifs at h
    cases h
    exact .inr ⟨rfl, rfl, by rintro _ ⟨⟩⟩
  · simp only [execOp] at h
    split_ifs at h
    obtain ⟨q, hq, he⟩ := map_eq_some_iff.1 h
    cases he
    exact .inl ⟨rfl, a, q.2, hq, by rintro _ ⟨⟩⟩
  · simp only [execOp] at h
    split_ifs at h
    cases h
    exact .inr ⟨rfl, Call.clearCancel_of_not_task hlab, by rintro _ ⟨⟩⟩

section Commands

variable {key k : String}

@[simp] theorem setLease_redis (v : Option (ClaimRecord × ℕ)) :
    (w.setLease k v).redis key = if key = k then v else w.redis key := by
  simp [setLease, Function.update_apply]

theorem lease_some {c : ClaimRecord} (h : w.lease? key = some c) :
    ∃ d, w.redis key = some (c, d) ∧ w.now < d := by
  unfold lease? at h
  split at h
  · split_ifs at h with hd
    cases h
    exact ⟨_, ‹_›, hd⟩
  · cases h

theorem setNx_cases (v : ClaimRecord) (ttl : ℕ) : (w.lease? k = none ∧ (w.redisSetNx k v ttl).2
        ∧ (w.redisSetNx k v ttl).1 = w.setLease k (some (v, w.now + seconds ttl)))
      ∨ (w.lease? k ≠ none ∧ (w.redisSetNx k v ttl).2 = false ∧ (w.redisSetNx k v ttl).1 = w) := by
  unfold redisSetNx
  cases h : w.lease? k with
  | none => exact .inl ⟨rfl, rfl, rfl⟩
  | some c => exact .inr ⟨by simp, rfl, rfl⟩

theorem renew_cases (tok ttl ex : ℕ) :
    (∃ c, w.lease? k = some c ∧ c.leaseToken = tok ∧ (w.redisRenew k tok ttl ex).2
        ∧ (w.redisRenew k tok ttl ex).1
          = w.setLease k (some ({ c with leaseExpiresAt := ex }, w.now + seconds ttl)))
      ∨ ((∀ c, w.lease? k = some c → c.leaseToken ≠ tok) ∧ (w.redisRenew k tok ttl ex).2 = false
        ∧ (w.redisRenew k tok ttl ex).1 = w) := by
  unfold redisRenew
  cases h : w.lease? k with
  | none => exact .inr ⟨by simp, rfl, rfl⟩
  | some c =>
    by_cases ht : c.leaseToken = tok
    · exact .inl ⟨c, rfl, ht, by simp [ht], by simp [ht]⟩
    · exact .inr ⟨by simpa using ht, by simp [ht], by simp [ht]⟩

theorem release_cases (tok : ℕ) : (∃ c, w.lease? k = some c ∧ c.leaseToken = tok
        ∧ (w.redisRelease k tok).1 = w.setLease k none)
      ∨ ((∀ c, w.lease? k = some c → c.leaseToken ≠ tok) ∧ (w.redisRelease k tok).2 = false
        ∧ (w.redisRelease k tok).1 = w) := by
  unfold redisRelease
  cases h : w.lease? k with
  | none => exact .inr ⟨by simp, rfl, rfl⟩
  | some c =>
    by_cases ht : c.leaseToken = tok
    · exact .inl ⟨c, rfl, ht, by simp [ht]⟩
    · exact .inr ⟨by simpa using ht, by simp [ht], by simp [ht]⟩

end Commands

/-- The key holds the owner's token, and every request on its way was stamped when it was sent. -/
structure Fenced (key : String) (p : RunPool) (g : Ledger) : Prop where
  owner : ∀ c d, p.shared.redis key = some (c, d) → g.owner = some c.leaseToken
  stamped : ∀ j t op, p.tasks[j]? = some t → t.state.op? = some op →
    op.Stamped (g.sent j) ∧ g.sent j ≤ p.shared.now

variable {key : String} {p p' : RunPool} {g : Ledger} {a : RunAction}

theorem fenced_call (h : Fenced key p g) : Fenced key ⟨p.shared, p.tasks ++ [⟨l, .fresh⟩]⟩ g := by
  refine ⟨h.owner, fun j t op ht hop => ?_⟩
  rcases Slots.getElem?_concat_cases ht with ht | ⟨-, rfl⟩
  · exact h.stamped j t op ht hop
  · cases hop

theorem fenced_env {e : EnvEvent} (h : Fenced key p g) (hc : LeaseCalls (.env e)) :
    Fenced key ⟨e.apply p.shared, p.tasks⟩ g := by
  cases e with
  | tick d =>
    exact ⟨h.owner, fun j t op ht hop =>
      ⟨(h.stamped j t op ht hop).1, (h.stamped j t op ht hop).2.trans (Nat.le_add_right _ _)⟩⟩
  | attachTask ρ r | settleTask ρ r c => exact ⟨h.owner, h.stamped⟩
  | writeLease k v => exact hc.elim

theorem fenced_section {q : World × List Call × TaskState World runSig Reply}
    (h : Fenced key p g) (hs : contract.sect i l p.shared q.1 q.2.2.op?) :
    Fenced key (p.put i l q) { g with sent := Function.update g.sent i p.shared.now } := by
  obtain ⟨hr, hn, hst⟩ := hs
  refine ⟨fun c d hc => h.owner c d (by rw [← hr]; exact hc), fun j t op ht hop => ?_⟩
  have hnow : (p.put i l q).shared.now = p.shared.now := hn
  rw [hnow]
  rcases Pool.put_cases ht with ⟨hj, ht⟩ | ⟨rfl, -, rfl⟩ | ⟨-, l', -, rfl⟩
  · simpa [Function.update_apply, hj] using h.stamped j t op ht hop
  · have hq := hst op hop
    rw [hn] at hq
    simpa using hq
  · cases hop

theorem taken_perform {o : Outcome} {op : Op} {t : Task World runSig Reply}
    (ht : p.tasks[i]? = some t) (hst : t.state.op? = some op) :
    (∃ v ttl, op = .redisSetNx key v ttl ∧ o.applies ∧ p.shared.lease? key = none
        ∧ Ledger.taken key p (.perform i o) = some v.leaseToken)
      ∨ (Ledger.taken key p (.perform i o) = none ∧ ∀ v ttl, op = .redisSetNx key v ttl →
        o.applies → p.shared.lease? key ≠ none) := by
  simp only [Ledger.taken, ht, bind_some, hst]
  split
  · rename_i k v ttl heq
    cases heq
    split_ifs with hk
    · obtain ⟨rfl, ha, hl⟩ := hk
      exact .inl ⟨v, ttl, rfl, ha, hl, rfl⟩
    · refine .inr ⟨rfl, fun v' ttl' he ha hl => hk ?_⟩
      cases he
      exact ⟨rfl, ha, hl⟩
  · rename_i hne
    exact .inr ⟨rfl, fun v ttl he => absurd (by rw [he]) (hne key v ttl)⟩

theorem effect_key {op : Op} {y : Answer} {z : op.Res} (hop : op.isLease)
    (h : op.effect i y w = some (w', z)) :
    (w'.redis key = w.redis key ∧ ∀ v ttl, op = .redisSetNx key v ttl → w.lease? key ≠ none)
      ∨ (∃ v ttl, op = .redisSetNx key v ttl ∧ w.lease? key = none
        ∧ w'.redis key = some (v, w.now + seconds ttl))
      ∨ (∃ c tok ttl ex, op = .redisRenew key tok ttl ex ∧ w.lease? key = some c
        ∧ c.leaseToken = tok
        ∧ w'.redis key = some ({ c with leaseExpiresAt := ex }, w.now + seconds ttl))
      ∨ w'.redis key = none := by
  cases op <;> simp only [Op.isLease, Bool.false_eq_true] at hop <;> cases y <;>
    simp only [Op.effect, some.injEq, reduceCtorEq] at h
  case redisSetNx.unit k v ttl =>
    rcases setNx_cases (w := w) (k := k) v ttl with ⟨hfree, -, hw⟩ | ⟨hheld, -, hw⟩ <;>
      rw [h] at hw <;> subst hw
    · by_cases hk : key = k
      · subst hk
        exact .inr (.inl ⟨v, ttl, rfl, hfree, by simp⟩)
      · exact .inl ⟨by simp [hk], fun _ _ he => absurd (Op.redisSetNx.inj he).1.symm hk⟩
    · exact .inl ⟨rfl, fun _ _ he => (Op.redisSetNx.inj he).1 ▸ hheld⟩
  case redisGet.unit k =>
    cases h
    exact .inl ⟨rfl, by simp⟩
  case redisRenew.unit k tok ttl ex =>
    rcases renew_cases (w := w) (k := k) tok ttl ex with ⟨c, hl, ht, -, hw⟩ | ⟨-, -, hw⟩ <;>
      rw [h] at hw <;> subst hw
    · by_cases hk : key = k
      · subst hk
        exact .inr (.inr (.inl ⟨c, tok, ttl, ex, rfl, hl, ht, by simp⟩))
      · exact .inl ⟨by simp [hk], by simp⟩
    · exact .inl ⟨rfl, by simp⟩
  case redisRelease.unit k tok =>
    rcases release_cases (w := w) (k := k) tok with ⟨c, -, -, hw⟩ | ⟨-, -, hw⟩ <;> rw [h] at hw <;>
      subst hw
    · by_cases hk : key = k
      · exact .inr (.inr (.inr (by simp [hk])))
      · exact .inl ⟨by simp [hk], by simp⟩
    · exact .inl ⟨rfl, by simp⟩

theorem fenced_perform {o : Outcome} {op : Op} {k : Except Exc op.Res → Co Reply} {w' : World}
    {x : Except Exc op.Res} (h : Fenced key p g) (hlab : l.isLease)
    (hop : op.isLease) (ht : p.tasks[i]? = some ⟨l, .pending op k⟩)
    (he : execOp i l op o p.shared = some (w', x)) :
    Fenced key (p.put i l (w', [], .ready op k x)) (g.next key p (.perform i o)) := by
  have hnt := not_task_of_lease hlab
  refine ⟨fun c d hc => ?_, fun j t op' ht' hop' => ?_⟩
  · change w'.redis key = some (c, d) at hc
    rw [Ledger.next_owner]
    have htk := @taken_perform _ key _ o _ _ ht rfl
    rcases exec_applies hnt he with ⟨ha, y, z, hz, -⟩ | ⟨ha, rfl, -⟩
    · rcases @effect_key _ _ _ key _ _ _ hop hz with ⟨hr, hheld⟩ | ⟨v, ttl, rfl, hl, hr⟩
        | ⟨c', tok, ttl, ex, rfl, hl, rfl, hr⟩ | hr
      · rw [hr] at hc
        rcases htk with ⟨v, ttl, heq, -, hl, -⟩ | ⟨hn, -⟩
        · exact absurd hl (hheld v ttl heq)
        · rw [hn]
          exact h.owner c d hc
      · rw [hr] at hc
        cases hc
        rcases htk with ⟨v', ttl', heq, -, -, hn⟩ | ⟨-, hn⟩
        · cases heq
          rw [hn]
          rfl
        · exact absurd hl (hn _ ttl rfl ha)
      · rw [hr] at hc
        cases hc
        obtain ⟨d', hd, -⟩ := lease_some hl
        rcases htk with ⟨v, ttl', heq, -⟩ | ⟨hn, -⟩
        · cases heq
        · rw [hn]
          exact h.owner c' d' hd
      · rw [hr] at hc
        cases hc
    · rcases htk with ⟨v, ttl, -, ha', -⟩ | ⟨hn, -⟩
      · rw [ha] at ha'
        cases ha'
      · rw [hn]
        exact h.owner c d hc
  · have hnow : w'.now = p.shared.now := (execOp_leaves hnt he).now
    change op'.Stamped (g.sent j) ∧ g.sent j ≤ w'.now
    rw [hnow]
    rcases Pool.put_cases ht' with ⟨hj, ht'⟩ | ⟨rfl, -, rfl⟩ | ⟨-, l', -, rfl⟩
    · exact h.stamped j t op' ht' hop'
    · cases hop'
    · cases hop'

theorem fenced_step (hok : contract.Ok p) (h : Fenced key p g) (hc : LeaseCalls a)
    (hs : p.step runSystem a = some p') : Fenced key p' (g.next key p a) := by
  have hv := sound.toVerified
  cases a with
  | call l =>
    cases hs
    exact fenced_call h
  | env e =>
    cases hs
    exact fenced_env h hc
  | start i =>
    obtain ⟨l, q, rfl, -, hy, -⟩ := hv.section_of_start hok hs
    exact fenced_section h hy.sect
  | resume i c =>
    obtain ⟨l, q, rfl, -, hy, -⟩ := hv.section_of_resume hok hc hs
    exact fenced_section h hy.sect
  | perform i o =>
    obtain ⟨l, op, k, s, x, ht, he, rfl, -⟩ := hv.effect_of_perform hok hc hs
    obtain ⟨hlab, hop⟩ := hok.asserts i _ ht
    exact fenced_perform h hlab hop ht he

theorem fenced_along : ∀ {as : List RunAction} {p p' : RunPool} {g : Ledger},
    contract.Ok p → Fenced key p g → p.Meets runSystem (fun _ => LeaseCalls) as →
    p.run runSystem as = some p' → contract.Ok p' ∧ Fenced key p' (g.along key p as)
  | [], p, p', g, hok, h, _, hr => by
    cases hr
    exact ⟨hok, h⟩
  | a :: as, p, p', g, hok, h, hm, hr => by
    obtain ⟨p1, hs, hr⟩ := bind_eq_some_iff.1 hr
    have hok1 := (sound.step hok trivial hm.1 hs).1
    rw [Ledger.along, hs]
    exact fenced_along hok1 (fenced_step hok h hm.1 hs) (hm.2 p1 hs) hr

end Lease

/-- The key was written at the request `sent` of `token`: it lives for `ttl` from now, its record
from `sent` on. -/
def World.LeasedFor (w : World) (key : String) (token ttl sent : ℕ) : Prop :=
  ∃ c, w.redis key = some (c, w.now + seconds ttl) ∧ c.leaseToken = token ∧ sent ≤ w.now
    ∧ ∀ t, c.isExpired t = false ↔ t < sent + seconds ttl

/-- A claim, if it is executed now, takes a free key only; the record it stores expires `ttl` after
the claim was sent. -/
def Claims (key : String) (p : RunPool) (g : Ledger) : Prop :=
  ∀ i l v ttl k o p', p.tasks[i]? = some ⟨l, .pending (.redisSetNx key v ttl) k⟩ →
    p.step runSystem (.perform i o) = some p' →
    ∃ x, p'.tasks[i]? = some ⟨l, .ready (.redisSetNx key v ttl) k x⟩
      ∧ (x = .ok true → p.shared.lease? key = none
        ∧ p'.shared.LeasedFor key v.leaseToken ttl (g.sent i))
      ∧ (x = .ok false → p'.shared.redis key = p.shared.redis key)

/-- A renewal, if it is executed now, succeeds for the owner's token only, and does nothing for any
other. -/
def RenewsOwner (key : String) (p : RunPool) (g : Ledger) : Prop :=
  ∀ i l tok ttl ex k o p', p.tasks[i]? = some ⟨l, .pending (.redisRenew key tok ttl ex) k⟩ →
    p.step runSystem (.perform i o) = some p' →
    ∃ x, p'.tasks[i]? = some ⟨l, .ready (.redisRenew key tok ttl ex) k x⟩
      ∧ (x = .ok true → g.owner = some tok ∧ p'.shared.LeasedFor key tok ttl (g.sent i))
      ∧ (g.owner ≠ some tok → x ≠ .ok true ∧ p'.shared.redis key = p.shared.redis key)

def ReleasesOwner (key : String) (p : RunPool) (g : Ledger) : Prop :=
  ∀ i l tok k o p', p.tasks[i]? = some ⟨l, .pending (.redisRelease key tok) k⟩ →
    p.step runSystem (.perform i o) = some p' →
    ∃ x, p'.tasks[i]? = some ⟨l, .ready (.redisRelease key tok) k x⟩
      ∧ (g.owner ≠ some tok → x ≠ .ok true ∧ p'.shared.redis key = p.shared.redis key)

namespace Lease

variable {key : String} {p p' : RunPool} {g : Ledger}

theorem executed {i : ℕ} {l : Call} {op : Op} {k : Except Exc op.Res → Co Reply} {o : Outcome}
    (hok : contract.Ok p) (ht : p.tasks[i]? = some ⟨l, .pending op k⟩)
    (hs : p.step runSystem (.perform i o) = some p') :
    ∃ x, p'.tasks[i]? = some ⟨l, .ready op k x⟩
      ∧ ((∃ a y, op.effect i a p.shared = some (p'.shared, y) ∧ ∀ z, x = .ok z → z = y)
        ∨ (p'.shared = p.shared ∧ ∀ z, x ≠ .ok z)) := by
  have hnt := not_task_of_lease (hok.asserts i _ ht).1
  have hlt : i < p.tasks.length := (List.getElem?_eq_some_iff.1 ht).1
  simp only [Pool.step, ht] at hs
  obtain ⟨⟨w', x⟩, he, rfl⟩ := map_eq_some_iff.1 hs
  refine ⟨x, by simp [Pool.put, hlt], ?_⟩
  rcases exec_applies hnt he with ⟨-, a, y, h⟩ | ⟨-, h⟩
  · exact .inl ⟨a, y, h⟩
  · exact .inr h

theorem leasedFor_setLease {w : World} {c : ClaimRecord} {ttl sent : ℕ}
    (hc : c.leaseExpiresAt = sent + seconds ttl) (hle : sent ≤ w.now) :
    (w.setLease key (some (c, w.now + seconds ttl))).LeasedFor key c.leaseToken ttl sent := by
  refine ⟨c, by simp [setLease], rfl, hle, fun t => ?_⟩
  simp [ClaimRecord.isExpired, hc]

theorem claims (hok : contract.Ok p) (h : Fenced key p g) : Claims key p g := by
  intro i l v ttl k o p' ht hs
  obtain ⟨hst, hle⟩ := h.stamped i _ _ ht rfl
  obtain ⟨x, hx, ⟨a, y, he, hy⟩ | ⟨-, hno⟩⟩ := executed hok ht hs
  · refine ⟨x, hx, ?_⟩
    cases a <;> simp only [Op.effect, some.injEq, reduceCtorEq] at he
    rcases setNx_cases (w := p.shared) (k := key) v ttl with ⟨hfree, hr, hw⟩ | ⟨-, hr, hw⟩ <;>
      rw [he] at hr hw <;> dsimp only at hr hw
    · rw [hw]
      exact ⟨fun _ => ⟨hfree, leasedFor_setLease hst hle⟩, fun hf => by cases (hy _ hf).trans hr⟩
    · rw [hw]
      exact ⟨fun hf => (by cases (hy _ hf).trans hr), fun _ => rfl⟩
  · exact ⟨x, hx, fun h => absurd h (hno _), fun h => absurd h (hno _)⟩

theorem renewsOwner (hok : contract.Ok p) (h : Fenced key p g) : RenewsOwner key p g := by
  intro i l tok ttl ex k o p' ht hs
  obtain ⟨hst, hle⟩ := h.stamped i _ _ ht rfl
  obtain ⟨x, hx, ⟨a, y, he, hy⟩ | ⟨hw, hno⟩⟩ := executed hok ht hs
  · refine ⟨x, hx, ?_⟩
    cases a <;> simp only [Op.effect, some.injEq, reduceCtorEq] at he
    rcases renew_cases (w := p.shared) (k := key) tok ttl ex with ⟨c, hl, rfl, hr, hw⟩ | ⟨-, hr, hw⟩
      <;> rw [he] at hr hw <;> dsimp only at hr hw
    · obtain ⟨d, hd, -⟩ := lease_some hl
      have hown := h.owner c d hd
      rw [hw]
      exact ⟨fun _ => ⟨hown, leasedFor_setLease (c := { c with leaseExpiresAt := ex }) hst hle⟩,
        fun hne => absurd hown hne⟩
    · rw [hw]
      exact ⟨fun hf => (by cases (hy _ hf).trans hr),
        fun _ => ⟨fun hf => (by cases (hy _ hf).trans hr), rfl⟩⟩
  · rw [hw]
    exact ⟨x, hx, fun h => absurd h (hno _), fun _ => ⟨hno _, rfl⟩⟩

theorem releasesOwner (hok : contract.Ok p) (h : Fenced key p g) : ReleasesOwner key p g := by
  intro i l tok k o p' ht hs
  obtain ⟨x, hx, ⟨a, y, he, hy⟩ | ⟨hw, hno⟩⟩ := executed hok ht hs
  · refine ⟨x, hx, fun hne => ?_⟩
    cases a <;> simp only [Op.effect, some.injEq, reduceCtorEq] at he
    rcases release_cases (w := p.shared) (k := key) tok with ⟨c, hl, rfl, -⟩ | ⟨-, hr, hw⟩
    · obtain ⟨d, hd, -⟩ := lease_some hl
      exact absurd (h.owner c d hd) hne
    · rw [he] at hr hw
      dsimp only at hr hw
      rw [hw]
      exact ⟨fun hf => (by cases (hy _ hf).trans hr), rfl⟩
  · rw [hw]
    exact ⟨x, hx, fun _ => ⟨hno _, rfl⟩⟩

end Lease

/-- In every pool that claims, renewals, releases and look-ups reach, the key holds the token of the
last claim that took it, no other token renews or releases it, and the record a claim or a renewal
stores is not expired before `ttl` has passed since it was sent. -/
theorem lease_key_fenced {w : World} {key : String} {as : List RunAction} {p : RunPool}
    (hw : w.redis key = none) (hm : w.pool.Meets runSystem (fun _ => LeaseCalls) as)
    (hr : w.pool.run runSystem as = some p) :
    (∀ c, p.shared.lease? key = some c → (Ledger.along key w.pool {} as).owner = some c.leaseToken)
      ∧ Claims key p (Ledger.along key w.pool {} as)
      ∧ RenewsOwner key p (Ledger.along key w.pool {} as)
      ∧ ReleasesOwner key p (Ledger.along key w.pool {} as) := by
  have hok : Lease.contract.Ok w.pool :=
    ⟨trivial, fun i t ht => by simp [pool] at ht, fun i t ht => by simp [pool] at ht⟩
  have hf : Lease.Fenced key w.pool {} :=
    ⟨fun c d hc => (by simp [pool, hw] at hc), fun j t op ht => (by simp [pool] at ht)⟩
  obtain ⟨hok, h⟩ := Lease.fenced_along hok hf hm hr
  refine ⟨fun c hc => ?_, Lease.claims hok h, Lease.renewsOwner hok h, Lease.releasesOwner hok h⟩
  obtain ⟨d, hd, -⟩ := Lease.lease_some hc
  exact h.owner c d hd

def exampleKey : String := "deerflow:run:ownership:o:r"

def claimTwiceThenRenew : List RunAction :=
  [.call (.claim "o" "r" "a" "1" 30), .call (.claim "o" "r" "b" "1" 30),
    .start 0, .start 1, .perform 0 .ok, .perform 1 .ok, .resume 0 false, .resume 1 false,
    .perform 1 .ok, .resume 1 false, .env (.tick 10000000),
    .call (.renew "o" ⟨"r", "a", 0, 30000000, "1", 0⟩ 30),
    .call (.release "o" ⟨"r", "b", 1, 30000000, "1", 0⟩), .start 2, .start 3]

theorem lease_fenced_after_two_claims :
    ∃ p, ({} : World).pool.run runSystem claimTwiceThenRenew = some p
      ∧ (Ledger.along exampleKey ({} : World).pool {} claimTwiceThenRenew).owner = some 0
      ∧ RenewsOwner exampleKey p (Ledger.along exampleKey ({} : World).pool {} claimTwiceThenRenew)
      ∧ ReleasesOwner exampleKey p
        (Ledger.along exampleKey ({} : World).pool {} claimTwiceThenRenew) := by
  obtain ⟨p, hp⟩ : ∃ p, ({} : World).pool.run runSystem claimTwiceThenRenew = some p :=
    isSome_iff_exists.1 (by decide)
  exact ⟨p, hp, by decide, (lease_key_fenced rfl (by decide) hp).2.2⟩

def slowClaim : List RunAction :=
  [.call (.claim "o" "r" "a" "1" 1), .start 0, .env (.tick 500000), .perform 0 .ok,
    .resume 0 false, .env (.tick 600000)]

/-- The key is alive, its record expired. -/
theorem expired_record_under_live_key : ∃ p c, Runs (fun _ => LeaseCalls) ({} : World).pool p
      ∧ p.shared.lease? exampleKey = some c ∧ c.isExpired p.shared.now = true :=
  ⟨({} : World).pool.final runSystem slowClaim, ⟨"r", "a", 0, 1000000, "1", 0⟩,
    Pool.steps_final (by decide) (by decide), by decide, by decide⟩

end DeerFlow

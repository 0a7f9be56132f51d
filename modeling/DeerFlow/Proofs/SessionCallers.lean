import DeerFlow.Proofs.SessionOneKey

/-!
# Callers that share the creation of a session

A call that is not cancelled is served as long as no cancelled creator takes an owner down that other
calls rely on, and no call joins an owner that was taken down.
-/

namespace DeerFlow

open List Option SessionRegistry SessionPool Slots

variable {r : SessionRegistry} {s s' : SessionPool} {k : ℕ} {o o' : Owner} {loop : ℕ}
  {key : SessionKey}

def PoolPhase.awaited : PoolPhase → Option ℕ
  | .awaiting _ k => some k
  | _ => none

def Ready.isFailed : Ready → Bool
  | .failed _ => true
  | _ => false

theorem Ready.isFailed_iff {ready : Ready} : ready.isFailed ↔ ∃ e, ready = .failed e := by
  cases ready <;> simp [isFailed]

def SessionPool.Served (s : SessionPool) : Prop :=
  ∀ c ∈ s.calls, c.cancelled = false → s.registry.Served c.phase

/-- A cancelled creator does not go on while another call relies on its owner, and no call joins an
owner told to close, unless it has failed. -/
def creationKept (key : SessionKey) (s : SessionPool) : CallerAct → Prop
  | .getSession => ∀ k, s.registry.inflight.get? key = some k →
    (s.registry.ready k).isFailed = false → ∀ o ∈ s.registry.owners[k]?, o.Untold
  | .step i => ∀ c ∈ s.calls[i]?, c.cancelling = true → ∀ k, c.phase.awaited = some k →
    (s.registry.ready k).isFailed = false →
      ∀ c' ∈ s.calls.eraseIdx i, c'.cancelled = false → ¬ c'.phase.Uses k
  | _ => True

namespace OneKey

theorem step {act : CallerAct} (h : OneKey loop key s)
    (hstep : (sessionCallers loop key).step s act = some s') : OneKey loop key s' := by
  cases act with
  | getSession =>
    cases hstep
    rcases h.getSession_cases with ⟨k, hentry, heq⟩ | ⟨k, -, -, heq⟩ | ⟨hentry, hrec, heq⟩
    · rw [heq]
      refine h.add rfl (fun key' => ?_) rfl rfl trivial
      rw [OrdDict.get?_set, OrdDict.get?_pop]
      split_ifs with hkey
      · rw [← hkey, hentry]
      · rfl
    · rw [heq]
      refine h.add rfl (fun _ => rfl) rfl ?_ ?_
      · unfold awaitJoin
        cases s.registry.ready k <;> rfl
      · unfold awaitJoin PoolCall.Plain
        cases s.registry.ready k <;> trivial
    · rw [heq]
      exact h.create hentry hrec
  | step i =>
    obtain ⟨c, hc, hmap⟩ := bind_eq_some_iff.1 hstep
    obtain ⟨p, hp, rfl⟩ := map_eq_some_iff.1 hmap
    exact h.resume hc (h.callerStep (mem_of_getElem? hc) hp)
  | cancel i =>
    obtain ⟨c, hc, hmap⟩ := bind_eq_some_iff.1 hstep
    obtain ⟨q, hq, rfl⟩ := map_eq_some_iff.1 hmap
    exact (h.cancel hc hq).2
  | owner k reply =>
    obtain ⟨o, ho, hmap⟩ := bind_eq_some_iff.1 hstep
    obtain ⟨o', ho', rfl⟩ := map_eq_some_iff.1 hmap
    exact h.move ho (Owner.move_of_step ho')

end OneKey

namespace SessionPool

theorem served_start {p : SessionRegistry × PoolPhase} (h : s.Served)
    (hold : ∀ {phase}, s.registry.Served phase → p.1.Served phase) :
    (s.start loop p).Served ↔ p.1.Served p.2 := by
  constructor
  · intro h'
    exact h' { loop, phase := p.2 } (mem_append_right _ (mem_singleton_self _)) rfl
  · exact fun hp => forall_mem_concat (fun c hc hcan => hold (h c hc hcan)) fun _ => hp

theorem served_set {i : ℕ} {c' : PoolCall} (h : s.Served)
    (ho : r.owners = s.registry.owners)
    (hc' : c'.cancelled = false → r.Served c'.phase) : Served ⟨r, s.calls.set i c'⟩ := by
  exact forall_mem_set (fun d hd hcan => (served_congr ho).2 (h d hd hcan)) hc'

end SessionPool

namespace SessionRegistry

theorem Served.mono {r' : SessionRegistry} {phase : PoolPhase} (h : r.Served phase)
    (hkeep : ∀ {k : ℕ} {o : Owner}, r.owners[k]? = some o → ∃ o', r'.owners[k]? = some o' ∧
      o.Keeps o' ∧ (o.Answers → o'.Answers)) : r'.Served phase := by
  cases phase with
  | returned k =>
    obtain ⟨o, ho, hses, hsig, hcan⟩ := h
    obtain ⟨o', ho', hk, -⟩ := hkeep ho
    exact ⟨o', ho', (hk.ready (by rw [hses]; simp)).trans hses, hk.signalled.trans hsig,
      hk.cancelled.trans hcan⟩
  | raised k error | unwinding _ k error =>
    obtain ⟨o, ho, e, he, herr⟩ := h
    obtain ⟨o', ho', hk, -⟩ := hkeep ho
    exact ⟨o', ho', e, (hk.ready (by rw [he]; simp)).trans he, herr⟩
  | joining k | awaiting _ k =>
    obtain ⟨o, ho, hans⟩ := h
    obtain ⟨o', ho', -, hans'⟩ := hkeep ho
    exact ⟨o', ho', hans' hans⟩
  | shutting | tearing | interrupted | closed => exact h.elim

theorem served_awaitJoin (ho : r.owners[k]? = some o) (hreg : o.Regular) :
    r.Served (r.awaitJoin k) ↔ ((r.ready k).isFailed = false → o.Untold) := by
  have hown : ∀ {P : Owner → Prop}, (∃ o', r.owners[k]? = some o' ∧ P o') ↔ P o := by
    intro P
    constructor
    · rintro ⟨o', ho', hP⟩
      cases ho.symm.trans ho'
      exact hP
    · exact fun hP => ⟨o, ho, hP⟩
  have hready := ready_of_owner ho
  unfold awaitJoin
  cases hr : o.ready with
  | pending =>
    rw [hready, hr]
    refine hown.trans ⟨fun hans _ => ?_, fun hun => hreg.answers (hun rfl).1⟩
    rcases hans with ⟨e, he⟩ | ⟨hun, -⟩
    · rw [hr] at he
      cases he
    · exact hun
  | session =>
    rw [hready, hr]
    exact hown.trans ⟨fun h _ => h.2, fun hun => ⟨hr, hun rfl⟩⟩
  | failed e =>
    rw [hready, hr]
    exact iff_of_true (hown.2 ⟨e, hr, rfl⟩) nofun
  | cancelled =>
    rw [hready, hr]
    refine iff_of_false ?_ fun hun => ?_
    · rintro ⟨_, _, _, _, herr⟩
      cases herr
    · rcases hreg.answers (hun rfl).1 with ⟨e, he⟩ | ⟨-, he | ⟨he, -⟩⟩ <;> simp [hr] at he

end SessionRegistry

namespace OneKey

theorem served_getSession (h : OneKey loop key s) (hs : s.Served) :
    (s.start loop (s.registry.getSession loop key)).Served ↔ creationKept key s .getSession := by
  rcases h.getSession_cases with ⟨k, hentry, heq⟩ | ⟨k, -, hrec, heq⟩ | ⟨-, hrec, heq⟩
  · rw [heq, served_start hs fun hp => (served_congr rfl).2 hp]
    obtain ⟨-, hrec, o, ho, hready, hsig⟩ := h.entry hentry
    have hcan := ((h.owner o (mem_of_getElem? ho)).1 hsig).2.2.1
    refine iff_of_true ⟨o, ho, hready, hsig, hcan⟩ fun k' hk' => ?_
    rw [hrec] at hk'
    cases hk'
  · rw [heq, served_start hs id]
    obtain ⟨o, ho⟩ : ∃ o, s.registry.owners[k]? = some o := ⟨_, getElem?_eq_getElem (h.record hrec)⟩
    rw [served_awaitJoin ho (h.owner o (mem_of_getElem? ho)).1]
    constructor
    · intro hun k' hk' hfail o' ho'
      cases hrec.symm.trans hk'
      cases ho.symm.trans ho'
      exact hun hfail
    · exact fun hkept hfail => hkept k hrec hfail o ho
  · have hold : ∀ {phase}, s.registry.Served phase → (s.registry.create loop key).Served phase := by
      refine fun hp => hp.mono fun {k o} ho => ⟨o, ?_, ⟨rfl, rfl, rfl, fun _ => rfl⟩, id⟩
      rw [SessionRegistry.create, getElem?_append_left (lt_of_getElem? ho)]
      exact ho
    rw [heq, served_start hs hold]
    refine iff_of_true ⟨{ loop }, by simp [SessionRegistry.create], ?_⟩ fun k' hk' => ?_
    · exact .inr ⟨⟨rfl, rfl⟩, .inr ⟨rfl, mem_cons_self⟩⟩
    · rw [hrec] at hk'
      cases hk'

theorem awaitOwner_owners (hrec : r.inflight.get? key = some k) (error : Option ℕ) :
    (r.awaitOwner key k error).1.owners = r.owners := by
  rcases awaitOwner_cases hrec error with heq | heq <;> rw [heq]

theorem served_takeDown {i : ℕ} {c : PoolCall} {r' : SessionRegistry} (hs : s.Served)
    (hc : c.cancelled) (hr : ∀ e, s.registry.ready k ≠ .failed e)
    (ho : r'.owners = (s.registry.shutdown k true).owners) :
    SessionPool.Served ⟨r', s.calls.set i c⟩ ↔
      ∀ d ∈ s.calls.eraseIdx i, d.cancelled = false → ¬ d.phase.Uses k := by
  constructor
  · intro hs' d hd hcan
    obtain ⟨j, hji, hj⟩ := mem_eraseIdx_iff_getElem?.1 hd
    have hserved := hs' d (mem_set_of_ne hji hj) hcan
    rw [served_congr ho] at hserved
    exact (served_shutdown hr (hs d (mem_of_getElem? hj) hcan)).1 hserved
  · intro hall d hd hcan
    obtain ⟨j, hj⟩ := mem_iff_getElem?.1 hd
    rcases getElem?_set_cases hj with ⟨rfl, rfl⟩ | ⟨hji, hj⟩
    · cases hc.symm.trans hcan
    · have hmem : d ∈ s.calls.eraseIdx i := mem_eraseIdx_iff_getElem?.2 ⟨j, hji, hj⟩
      exact (served_congr ho).2
        ((served_shutdown hr (hs d (mem_of_getElem? hj) hcan)).2 (hall d hmem hcan))

theorem served_resume {i : ℕ} {c : PoolCall} {p : SessionRegistry × PoolPhase}
    (h : OneKey loop key s) (hs : s.Served) (hc : s.calls[i]? = some c)
    (hp : CallerStep key s.registry c p) :
    SessionPool.Served ⟨p.1, s.calls.set i { c with phase := p.2, cancelling := false }⟩ ↔
      creationKept key s (.step i) := by
  have hmem := mem_of_getElem? hc
  have hplain := h.plain c hmem
  unfold PoolCall.Plain at hplain
  -- Only a cancelled creator can break the condition.
  have hkept : (∀ k, c.cancelling → c.phase.awaited = some k →
      (s.registry.ready k).isFailed) → creationKept key s (.step i) := by
    intro hfree c' hc' hcan k hk hfail
    cases hc.symm.trans hc'
    rw [hfree k hcan hk] at hfail
    cases hfail
  have hawaited : ∀ {k}, c.phase = .awaiting key k → ∀ k', c.phase.awaited = some k' → k' = k := by
    intro k hph k' hk'
    rw [hph] at hk'
    exact (some.inj hk').symm
  cases hp with
  | unjoin k hph hcan =>
    rw [hph, hcan] at hplain
    refine iff_of_true (served_set hs rfl fun hcan' => ?_) (hkept fun k' _ hk' => ?_)
    · cases hplain.symm.trans hcan'
    · rw [hph] at hk'
      cases hk'
  | join k hph hcan hr =>
    rw [hph, hcan] at hplain
    obtain ⟨o, ho, hans⟩ : s.registry.Served (.joining k) := hph ▸ hs c hmem hplain
    refine iff_of_true (served_set hs rfl fun _ => ?_) (hkept fun k' hcan' _ => ?_)
    · refine (served_awaitJoin ho (h.owner o (mem_of_getElem? ho)).1).2 fun hfail => ?_
      rcases hans with ⟨e, he⟩ | ⟨hun, -⟩
      · rw [ready_of_owner ho, he] at hfail
        cases hfail
      · exact hun
    · rw [hcan] at hcan'
      cases hcan'
  | takeDown k hph hcan hr =>
    rw [hph, hcan] at hplain
    have hrec := (h.creator c hmem (creating_of_awaiting hph)).2
    rw [← (shutdown_records s.registry k true).2] at hrec
    refine (served_takeDown hs ?_ hr (awaitOwner_owners hrec none)).trans ⟨?_, ?_⟩
    · exact hplain
    · intro hall c' hc' _ k' hk' _
      cases hc.symm.trans hc'
      rw [hawaited hph k' hk']
      exact hall
    · refine fun hkept => hkept c hc hcan k (by rw [hph]; rfl) ?_
      refine eq_false_of_ne_true fun hfail => ?_
      obtain ⟨e, he⟩ := Ready.isFailed_iff.1 hfail
      exact hr e he
  | fail k e error hph hr he =>
    have hrec := (h.creator c hmem (creating_of_awaiting hph)).2
    obtain ⟨o, ho, -⟩ := h.awaiting c hmem hph
    have hfailed : c.cancelled = false → s.registry.Served (.raised k error) := by
      intro hcan
      rw [hph] at hplain
      exact ⟨o, ho, e, (ready_of_owner ho).symm.trans hr, he (hplain.symm.trans hcan)⟩
    refine iff_of_true ?_ (hkept fun k' _ hk' => ?_)
    · rcases awaitOwner_cases hrec error with heq | heq
      · rw [heq]
        exact served_set hs rfl hfailed
      · rw [heq]
        exact served_set hs rfl hfailed
    · rw [hawaited hph k' hk', hr]
      rfl
  | promote k hph hcan hr =>
    obtain ⟨o, ho, hsig⟩ := h.awaiting c hmem hph
    have hcan' := ((h.owner o (mem_of_getElem? ho)).1 hsig).2.2.1
    refine iff_of_true (served_set hs rfl fun _ => ?_) (hkept fun k' hcan' _ => ?_)
    · exact ⟨o, ho, (ready_of_owner ho).symm.trans hr, hsig, hcan'⟩
    · rw [hcan] at hcan'
      cases hcan'
  | leave k error hph =>
    have hcr : c.phase.creating = some (key, k) := by
      rw [hph]
      rfl
    rw [leave_eq (h.creator c hmem hcr).2]
    refine iff_of_true (served_set hs rfl fun hcan => ?_) (hkept fun k' _ hk' => ?_)
    · have hserved := hs c hmem hcan
      rw [hph] at hserved
      exact hserved
    · rw [hph] at hk'
      cases hk'

theorem served_step {act : CallerAct} (h : OneKey loop key s) (hs : s.Served)
    (hstep : (sessionCallers loop key).step s act = some s') :
    s'.Served ↔ creationKept key s act := by
  cases act with
  | getSession =>
    cases hstep
    exact h.served_getSession hs
  | step i =>
    obtain ⟨c, hc, hmap⟩ := bind_eq_some_iff.1 hstep
    obtain ⟨p, hp, rfl⟩ := map_eq_some_iff.1 hmap
    exact h.served_resume hs hc (h.callerStep (mem_of_getElem? hc) hp)
  | cancel i =>
    obtain ⟨c, hc, hmap⟩ := bind_eq_some_iff.1 hstep
    obtain ⟨q, hq, rfl⟩ := map_eq_some_iff.1 hmap
    rw [(h.cancel hc hq).1]
    exact iff_of_true (served_set hs rfl nofun) trivial
  | owner k reply =>
    obtain ⟨o, ho, hmap⟩ := bind_eq_some_iff.1 hstep
    obtain ⟨o', ho', rfl⟩ := map_eq_some_iff.1 hmap
    have hmove := Owner.move_of_step ho'
    refine iff_of_true (fun c hc hcan => (hs c hc hcan).mono fun {j oj} hoj => ?_) trivial
    by_cases hjk : j = k
    · subst hjk
      cases ho.symm.trans hoj
      refine ⟨o', by simp [lt_of_getElem? ho], hmove.keeps, fun hans => ?_⟩
      exact hans.move (h.owner o (mem_of_getElem? ho)).1 hmove
    · refine ⟨oj, ?_, ⟨rfl, rfl, rfl, fun _ => rfl⟩, id⟩
      simpa [getElem?_set, Ne.symm hjk] using hoj

theorem init (loop : ℕ) (key : SessionKey) : OneKey loop key {} :=
  ⟨fun _ h => (nomatch h), fun h => (nomatch h), fun h => (nomatch h), fun _ h => (nomatch h),
    fun h => (nomatch h), fun _ h => (nomatch h), fun _ h => (nomatch h)⟩

end OneKey

/-- A run of calls for one key on one loop, with any cancellations, serves the calls that are not
cancelled in every state it reaches exactly if its steps keep the creation. -/
theorem callers_served_iff (loop : ℕ) (key : SessionKey) {acts : List CallerAct}
    (h : (sessionCallers loop key).run acts {} = some s) :
    (∀ bs t, bs <+: acts → (sessionCallers loop key).run bs {} = some t → t.Served) ↔
      (sessionCallers loop key).Along (creationKept key) acts {} := by
  refine (Machine.along_iff_prefixes (I := OneKey loop key) (P := SessionPool.Served)
    (fun _ _ _ h hstep => h.step hstep) (fun _ _ _ h hs hstep => h.served_step hs hstep)
    (.init loop key) (fun _ h => (nomatch h)) h).symm

instance decidableUses (k : ℕ) (phase : PoolPhase) : Decidable (phase.Uses k) := by
  unfold PoolPhase.Uses
  split <;> infer_instance

instance decidableUntold (o : Owner) : Decidable o.Untold :=
  inferInstanceAs (Decidable (o.signalled = false ∧ o.cancelled = false))

instance decidableCreationKept (key : SessionKey) (s : SessionPool) (act) :
    Decidable (creationKept key s act) := by
  unfold creationKept
  split <;> infer_instance

def joinedCreation : List CallerAct :=
  [.getSession, .owner 0 .ok, .getSession, .getSession, .owner 0 .ok, .cancel 1, .step 1,
    .owner 0 .ok, .step 0, .step 2]

theorem joined_calls_are_served : ∃ s, (sessionCallers 0 ("files", "t1")).run joinedCreation {} =
    some s ∧ (s.calls[2]?.map PoolCall.phase) = some (.returned 0) ∧ s.Served := by
  obtain ⟨s, hs, hend⟩ : ∃ s, (sessionCallers 0 ("files", "t1")).run joinedCreation {} = some s ∧
      (s.calls[2]?.map PoolCall.phase) = some (.returned 0) :=
    Machine.exists_of_run_any (by decide +kernel)
  have hserved := (callers_served_iff 0 ("files", "t1") hs).2 (by decide +kernel)
  exact ⟨s, hs, hend, hserved joinedCreation s prefix_rfl hs⟩

/-- The creator is cancelled while it waits for `initialize`, and the call that joined raises
`CancelledError`; or once the session is there, and the call that joined returns a session that is
told to close. -/
theorem joined_call_is_cancelled_with_creator :
    (∃ s, (sessionCallers 0 ("files", "t1")).run [.getSession, .owner 0 .ok, .owner 0 .ok,
        .getSession, .cancel 0, .step 0, .owner 0 .ok, .step 1] {} = some s ∧
      ∃ c, s.calls[1]? = some c ∧ c.cancelled = false ∧ c.phase = .raised 0 none) ∧
    ∃ s, (sessionCallers 0 ("files", "t1")).run [.getSession, .owner 0 .ok, .owner 0 .ok,
        .getSession, .owner 0 .ok, .cancel 0, .step 0, .step 1] {} = some s ∧
      (∃ c, s.calls[1]? = some c ∧ c.cancelled = false ∧ c.phase = .returned 0) ∧
        ∃ o, s.registry.owners[0]? = some o ∧ o.closed = true ∧ o.cancelled = true :=
  ⟨Machine.exists_of_run_any (by decide +kernel), Machine.exists_of_run_any (by decide +kernel)⟩

end DeerFlow

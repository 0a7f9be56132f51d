import DeerFlow.Proofs.SessionHandover

/-!
# One key on one loop

Calls for one key on one loop share the owner that one of them creates. Nothing is evicted
(`OneKey`), so an owner is told to close only by its creator, once that is cancelled.
-/

namespace DeerFlow

open List Option SessionRegistry Slots

variable {r : SessionRegistry} {s : SessionPool} {k : ℕ} {o o' : Owner} {loop : ℕ}
  {key : SessionKey}

namespace Owner

def Untold (o : Owner) : Prop := o.signalled = false ∧ o.cancelled = false

/-- An owner that nobody has told to close has published its session and waits, or has failed, or
will do one of that. -/
def Regular (o : Owner) : Prop :=
  o.signalled = false → o.closed = false ∧ o.cancelling = false ∧ o.cancelled = false ∧
    match o.phase with
    | .created | .entering | .initializing => o.ready = .pending
    | .waiting => o.ready = .session
    | .exiting | .finished => ∃ e, o.ready = .failed e

theorem complete_of_pending (h : o.ready = .pending) (ready : Ready) :
    o.complete ready = { o with ready } := if_pos h

theorem Fails.failed {ready : Ready} (h : o.Fails ready) (hc : o.cancelling = false) :
    ∃ e, ready = .failed e := by
  rcases h with h | ⟨-, hc'⟩
  · exact h
  · rw [hc] at hc'
    cases hc'

theorem Regular.move (hr : o.Regular) (h : Move k o o') : o'.Regular := by
  intro hsig
  rw [h.keeps.signalled] at hsig
  obtain ⟨hclosed, hcalm, hcan, hshape⟩ := hr hsig
  cases h with
  | drop hp hc =>
    rw [hcalm] at hc
    cases hc
  | start hp =>
    rw [hp] at hshape
    exact ⟨hclosed, rfl, hcan, hshape⟩
  | refuse hp ready hfail =>
    rw [hp] at hshape
    rw [complete_of_pending (o := o.calm) hshape]
    exact ⟨hclosed, rfl, hcan, hfail.failed hcalm⟩
  | enter hp =>
    rw [hp] at hshape
    exact ⟨hclosed, rfl, hcan, hshape⟩
  | publish hp =>
    rw [hp] at hshape
    rw [complete_of_pending (o := o.calm) hshape]
    exact ⟨hclosed, rfl, hcan, rfl⟩
  | fail hp ready hfail =>
    rw [hp] at hshape
    rw [complete_of_pending (o := o.calm) hshape]
    refine ⟨hclosed, rfl, hcan, ?_⟩
    rcases hfail with hfail | ⟨-, hc⟩
    · exact hfail.failed hcalm
    · rw [hclosed] at hc
      cases hc
  | close hp hc =>
    rw [hcalm, hclosed] at hc
    simp at hc
  | finish hp =>
    rw [hp] at hshape
    exact ⟨hclosed, rfl, hcan, hshape⟩

/-- The future has the error of the owner, or has its session or will be completed, and nobody has
told the owner to close. -/
def Answers (o : Owner) : Prop :=
  (∃ e, o.ready = .failed e) ∨ o.Untold ∧
    (o.ready = .session ∨ o.ready = .pending ∧ o.phase ∈ [.created, .entering, .initializing])

theorem Regular.answers (h : o.Regular) (hsig : o.signalled = false) : o.Answers := by
  obtain ⟨-, -, hcan, hshape⟩ := h hsig
  cases hp : o.phase <;> rw [hp] at hshape
  · exact .inr ⟨⟨hsig, hcan⟩, .inr ⟨hshape, by rw [hp]; decide⟩⟩
  · exact .inr ⟨⟨hsig, hcan⟩, .inr ⟨hshape, by rw [hp]; decide⟩⟩
  · exact .inr ⟨⟨hsig, hcan⟩, .inr ⟨hshape, by rw [hp]; decide⟩⟩
  · exact .inr ⟨⟨hsig, hcan⟩, .inl hshape⟩
  · exact .inl hshape
  · exact .inl hshape

theorem Answers.move (h : o.Answers) (hr : o.Regular) (hmove : Move k o o') : o'.Answers := by
  rcases h with ⟨e, he⟩ | ⟨⟨hsig, -⟩, -⟩
  · exact .inl ⟨e, (hmove.keeps.ready (by rw [he]; simp)).trans he⟩
  · exact (hr.move hmove).answers (hmove.keeps.signalled.trans hsig)

end Owner

def PoolPhase.Uses (k : ℕ) : PoolPhase → Prop
  | .joining j | .awaiting _ j | .returned j => j = k
  | _ => False

namespace SessionRegistry

/-- A call that nobody cancels returns a session whose owner was not told to close, raises the
owner's error, or waits for one of that. -/
def Served (r : SessionRegistry) : PoolPhase → Prop
  | .returned k => ∃ o, r.owners[k]? = some o ∧ o.ready = .session ∧ o.Untold
  | .raised k error | .unwinding _ k error =>
    ∃ o, r.owners[k]? = some o ∧ ∃ e, o.ready = .failed e ∧ error = some e
  | .joining k | .awaiting _ k => ∃ o, r.owners[k]? = some o ∧ o.Answers
  | _ => False

theorem served_congr {r' : SessionRegistry} (h : r'.owners = r.owners) {phase : PoolPhase} :
    r'.Served phase ↔ r.Served phase := by
  unfold Served
  rw [h]

theorem ready_of_owner (h : r.owners[k]? = some o) : r.ready k = o.ready := by
  rw [ready, h]
  rfl

theorem shutdown_ne {j : ℕ} (h : j ≠ k) : (r.shutdown k true).owners[j]? = r.owners[j]? := by
  simp [shutdown, modifyOwner, Ne.symm h]

theorem shutdown_self (h : (r.shutdown k true).owners[k]? = some o') :
    ∃ o, r.owners[k]? = some o ∧ o'.ready = o.ready ∧ o'.signalled := by
  obtain ⟨o, ho, ht⟩ := (touches_shutdown r k true).2 k o' h
  refine ⟨o, ho, ht.ready, ?_⟩
  by_contra hsig
  simp [shutdown, modifyOwner, ho] at h
  rw [← h] at hsig
  exact hsig ((Owner.touched_cancelTask _).signalled rfl)

theorem served_shutdown (hr : ∀ e, r.ready k ≠ .failed e) {phase : PoolPhase}
    (h : r.Served phase) : (r.shutdown k true).Served phase ↔ ¬ phase.Uses k := by
  have hne : ∀ {P : Owner → Prop} {j : ℕ}, j ≠ k → (∃ o, r.owners[j]? = some o ∧ P o) →
      ∃ o, (r.shutdown k true).owners[j]? = some o ∧ P o := by
    rintro P j hjk ⟨o, ho, hP⟩
    exact ⟨o, (shutdown_ne hjk).trans ho, hP⟩
  have herr : ∀ {j : ℕ} {error : Option ℕ},
      (∃ o, r.owners[j]? = some o ∧ ∃ e, o.ready = .failed e ∧ error = some e) → j ≠ k := by
    rintro j error ⟨o, ho, e, he, -⟩ rfl
    exact hr e ((ready_of_owner ho).trans he)
  have hwait : ∀ {j : ℕ}, (∃ o, r.owners[j]? = some o ∧ o.Answers) →
      ((∃ o, (r.shutdown k true).owners[j]? = some o ∧ o.Answers) ↔ ¬ j = k) := by
    intro j hj
    constructor
    · rintro ⟨o', ho', hans⟩ rfl
      obtain ⟨o, ho, hready, hsig⟩ := shutdown_self ho'
      rcases hans with ⟨e, he⟩ | ⟨⟨hsig', -⟩, -⟩
      · exact hr e ((ready_of_owner ho).trans (hready.symm.trans he))
      · rw [hsig] at hsig'
        cases hsig'
    · exact fun hjk => hne hjk hj
  cases phase with
  | returned j =>
    constructor
    · rintro ⟨o', ho', -, hsig', -⟩ rfl
      obtain ⟨o, -, -, hsig⟩ := shutdown_self ho'
      rw [hsig] at hsig'
      cases hsig'
    · exact fun hjk => hne hjk h
  | raised j error | unwinding _ j error => exact iff_of_true (hne (herr h) h) id
  | joining j | awaiting _ j => exact hwait h
  | shutting | tearing | interrupted | closed => exact h.elim

end SessionRegistry

/-- The phases of a call for the one key; while it waits for a future, its cancellation is thrown
next. -/
def PoolCall.Plain (c : PoolCall) : Prop :=
  match c.phase with
  | .joining _ | .awaiting _ _ => c.cancelled = c.cancelling
  | .unwinding _ _ _ | .returned _ | .raised _ _ => True
  | _ => False

/-- One loop asks for one key: there is one creator at most, with its record, and its owner is not
told to close while it waits. -/
structure OneKey (loop : ℕ) (key : SessionKey) (s : SessionPool) : Prop where
  owner : ∀ o ∈ s.registry.owners, o.Regular ∧ o.loop = loop
  entry : ∀ {key' k}, s.registry.entries.get? key' = some k → key' = key ∧
    s.registry.inflight.get? key = none ∧
      ∃ o, s.registry.owners[k]? = some o ∧ o.ready = .session ∧ o.signalled = false
  record : ∀ {k}, s.registry.inflight.get? key = some k → k < s.registry.owners.length
  creator : ∀ c ∈ s.calls, ∀ {key' k}, c.phase.creating = some (key', k) →
    key' = key ∧ s.registry.inflight.get? key = some k
  unique : ∀ {i j : ℕ} {c c' : PoolCall}, s.calls[i]? = some c → s.calls[j]? = some c' →
    c.phase.creating ≠ none → c'.phase.creating ≠ none → i = j
  awaiting : ∀ c ∈ s.calls, ∀ {key' k}, c.phase = .awaiting key' k →
    ∃ o, s.registry.owners[k]? = some o ∧ o.signalled = false
  plain : ∀ c ∈ s.calls, c.Plain

namespace OneKey

theorem isOn (h : OneKey loop key s) (hk : k < s.registry.owners.length) :
    s.registry.isOn k loop := by
  rw [SessionRegistry.isOn, getElem?_eq_getElem hk]
  exact decide_eq_true (h.owner _ (getElem_mem hk)).2

theorem oldestEntries (h : OneKey loop key s) : oldestEntries s.registry.entries = [] := by
  have hkeys : ∀ a ∈ s.registry.entries.keys, a = key := by
    intro a ha
    obtain ⟨k, hk⟩ := OrdDict.mem_keys_iff.1 ha
    exact (h.entry hk).1
  have hlen : s.registry.entries.entries.length ≤ 1 := by
    have hsub : s.registry.entries.keys ⊆ [key] := fun a ha => mem_singleton.2 (hkeys a ha)
    have := (subperm_of_subset s.registry.entries.nodup hsub).length_le
    simpa [OrdDict.keys] using this
  have hzero : s.registry.entries.entries.length + 1 - maxSessions = 0 := by
    unfold maxSessions
    omega
  rw [DeerFlow.oldestEntries, hzero, take_zero]

theorem evictAndProceed_nil (h : DeerFlow.oldestEntries r.entries = []) (next : ShutNext) :
    r.evictAndProceed loop [] next = r.proceed loop [] next := by
  rw [evictAndProceed, h]
  rfl

theorem getSession_cases (h : OneKey loop key s) :
    (∃ k, s.registry.entries.get? key = some k ∧ s.registry.getSession loop key =
      ({ s.registry with entries := (s.registry.entries.pop key).set key k }, .returned k)) ∨
    (∃ k, s.registry.entries.get? key = none ∧ s.registry.inflight.get? key = some k ∧
      s.registry.getSession loop key = (s.registry, s.registry.awaitJoin k)) ∨
    s.registry.entries.get? key = none ∧ s.registry.inflight.get? key = none ∧
      s.registry.getSession loop key =
        (s.registry.create loop key, .awaiting key s.registry.owners.length) := by
  have hold := h.oldestEntries
  unfold getSession
  cases hentry : s.registry.entries.get? key with
  | some k =>
    obtain ⟨-, -, o, ho, -⟩ := h.entry hentry
    refine .inl ⟨k, rfl, ?_⟩
    dsimp only
    rw [if_pos (h.isOn (lt_of_getElem? ho))]
  | none =>
    refine .inr ?_
    unfold joinOrCreate
    cases hrec : s.registry.inflight.get? key with
    | some k =>
      refine .inl ⟨k, rfl, rfl, ?_⟩
      dsimp only
      rw [if_pos (h.isOn (h.record hrec)), evictAndProceed_nil hold]
      rfl
    | none =>
      refine .inr ⟨rfl, rfl, ?_⟩
      have hready : (s.registry.create loop key).ready s.registry.owners.length = .pending := by
        simp [SessionRegistry.ready, SessionRegistry.create]
      rw [evictAndProceed_nil (r := s.registry.create loop key) hold]
      dsimp only [proceed, shut]
      rw [awaitReady, hready]

end OneKey

inductive CallerStep (key : SessionKey) (r : SessionRegistry) (c : PoolCall) :
    SessionRegistry × PoolPhase → Prop
  | unjoin (k : ℕ) (hp : c.phase = .joining k) (hc : c.cancelling = true) :
    CallerStep key r c (r, .raised k none)
  | join (k : ℕ) (hp : c.phase = .joining k) (hc : c.cancelling = false)
      (hr : r.ready k ≠ .pending) : CallerStep key r c (r, r.awaitJoin k)
  /-- A cancelled creator takes its owner down. -/
  | takeDown (k : ℕ) (hp : c.phase = .awaiting key k) (hc : c.cancelling = true)
      (hr : ∀ e, r.ready k ≠ .failed e) :
    CallerStep key r c ((r.shutdown k true).awaitOwner key k none)
  | fail (k e : ℕ) (error : Option ℕ) (hp : c.phase = .awaiting key k)
      (hr : r.ready k = .failed e) (he : c.cancelling = false → error = some e) :
    CallerStep key r c (r.awaitOwner key k error)
  | promote (k : ℕ) (hp : c.phase = .awaiting key k) (hc : c.cancelling = false)
      (hr : r.ready k = .session) :
    CallerStep key r c
      ({ r with inflight := r.inflight.pop key, entries := r.entries.set key k }, .returned k)
  | leave (k : ℕ) (error : Option ℕ) (hp : c.phase = .unwinding key k error) :
    CallerStep key r c (r.leave key k error)

namespace OneKey

variable {c : PoolCall} {p : SessionRegistry × PoolPhase}

theorem callerStep (h : OneKey loop key s)
    (hc : c ∈ s.calls) (hp : s.registry.resume c = some p) : CallerStep key s.registry c p := by
  have hplain := h.plain c hc
  have hcreator := @h.creator c hc
  unfold resume at hp
  unfold PoolCall.Plain at hplain
  cases hphase : c.phase with
  | joining k =>
    rw [hphase] at hp
    dsimp only at hp
    split_ifs at hp with hcan hr
    · cases hp
      exact .unjoin k hphase hcan
    · cases hp
      exact .join k hphase (eq_false_of_ne_true hcan) hr
  | awaiting key' k =>
    obtain ⟨rfl, hrec⟩ := hcreator (by rw [hphase]; rfl)
    obtain ⟨o, ho, hsig⟩ := h.awaiting c hc hphase
    have hready := ready_of_owner ho
    -- The owner was not told to close, so its future has no `CancelledError`.
    have hne : s.registry.ready k ≠ .cancelled := by
      rw [hready]
      rcases (h.owner o (mem_of_getElem? ho)).1.answers hsig with ⟨e, he⟩ | ⟨-, he | ⟨he, -⟩⟩
      all_goals simp [he]
    rw [hphase] at hp
    dsimp only at hp
    split_ifs at hp with hcan hr
    · cases hp
      unfold unwind
      cases hr : s.registry.ready k with
      | pending | session => exact .takeDown k hphase hcan (by simp [hr])
      | failed e => exact .fail k e none hphase hr fun h => by rw [hcan] at h; cases h
      | cancelled => exact absurd hr hne
    · cases hp
      have hcalm := eq_false_of_ne_true hcan
      unfold awaitReady
      cases hr' : s.registry.ready k with
      | pending => exact absurd hr' hr
      | session =>
        rw [SessionRegistry.promote, if_pos hrec]
        exact .promote k hphase hcalm hr'
      | failed e =>
        dsimp only
        rw [unwind, hr']
        exact .fail k e (some e) hphase hr' fun _ => rfl
      | cancelled => exact absurd hr' hne
  | unwinding key' k error =>
    obtain ⟨rfl, -⟩ := hcreator (by rw [hphase]; rfl)
    rw [hphase] at hp
    obtain ⟨-, heq⟩ := ite_none_right_eq_some.1 hp
    cases heq
    exact .leave k error hphase
  | returned k | raised k error =>
    rw [hphase] at hp
    cases hp
  | shutting | tearing | interrupted | closed =>
    rw [hphase] at hplain
    exact hplain.elim

theorem creating_of_awaiting {phase : PoolPhase} {key' : SessionKey}
    (h : phase = .awaiting key' k) : phase.creating = some (key', k) := by
  rw [h]
  rfl

theorem add (h : OneKey loop key s) (ho : r.owners = s.registry.owners)
    (he : ∀ key', r.entries.get? key' = s.registry.entries.get? key')
    (hi : r.inflight = s.registry.inflight) (hcr : c.phase.creating = none) (hplain : c.Plain) :
    OneKey loop key ⟨r, s.calls ++ [c]⟩ := by
  refine ⟨ho ▸ h.owner, fun hk => ?_, fun hk => ho ▸ h.record (hi ▸ hk),
    forall_mem_concat (hi ▸ h.creator) fun hcr' => ?_, ?_,
    forall_mem_concat (ho ▸ h.awaiting) fun hp => ?_, forall_mem_concat h.plain hplain⟩
  · rw [he] at hk
    rw [ho, hi]
    exact h.entry hk
  · rw [hcr] at hcr'
    cases hcr'
  · intro i j c1 c2 h1 h2 hcr1 hcr2
    rcases getElem?_concat_cases h1 with h1 | ⟨-, rfl⟩
    · rcases getElem?_concat_cases h2 with h2 | ⟨-, rfl⟩
      · exact h.unique h1 h2 hcr1 hcr2
      · exact absurd hcr hcr2
    · exact absurd hcr hcr1
  · rw [creating_of_awaiting hp] at hcr
    cases hcr

theorem create (h : OneKey loop key s) (hentry : s.registry.entries.get? key = none)
    (hrec : s.registry.inflight.get? key = none) :
    OneKey loop key (s.start loop
      (s.registry.create loop key, .awaiting key s.registry.owners.length)) := by
  have hnone : ∀ c ∈ s.calls, c.phase.creating = none := by
    intro c hc
    by_contra hcr
    obtain ⟨⟨key', k⟩, hcr⟩ := ne_none_iff_exists'.1 hcr
    rw [(h.creator c hc hcr).2] at hrec
    cases hrec
  have hlen : (s.registry.create loop key).owners[s.registry.owners.length]? = some { loop } := by
    simp [SessionRegistry.create]
  have hget : (s.registry.create loop key).inflight.get? key = some s.registry.owners.length := by
    simp [SessionRegistry.create]
  refine ⟨forall_mem_concat h.owner ⟨fun _ => ⟨rfl, rfl, rfl, rfl⟩, rfl⟩,
    fun {key'} _ hk => ?_, fun hk => ?_,
    forall_mem_concat (fun c hc _ _ hcr => ?_) fun hcr => ?_, ?_,
    forall_mem_concat (fun c hc _ _ hp => ?_) fun hp => ?_, forall_mem_concat h.plain rfl⟩
  · have hkey := (h.entry hk).1
    subst hkey
    cases hentry.symm.trans hk
  · cases hget.symm.trans hk
    exact lt_of_getElem? hlen
  · rw [hnone c hc] at hcr
    cases hcr
  · cases hcr
    exact ⟨rfl, hget⟩
  · intro i j c1 c2 h1 h2 hcr1 hcr2
    rcases getElem?_concat_cases h1 with h1 | ⟨rfl, -⟩
    · exact absurd (hnone c1 (mem_of_getElem? h1)) hcr1
    · rcases getElem?_concat_cases h2 with h2 | ⟨rfl, -⟩
      · exact absurd (hnone c2 (mem_of_getElem? h2)) hcr2
      · rfl
  · have hcr := hnone c hc
    rw [creating_of_awaiting hp] at hcr
    cases hcr
  · cases hp
    exact ⟨_, hlen, rfl⟩

variable {i : ℕ}

theorem set_same {c c' : PoolCall} (h : OneKey loop key s) (hc : s.calls[i]? = some c)
    (hp : c'.phase = c.phase ∨ c'.phase.creating = none) (hplain : c'.Plain) :
    OneKey loop key { s with calls := s.calls.set i c' } := by
  have hcr : c'.phase.creating ≠ none → c'.phase = c.phase := fun hne => hp.resolve_right hne
  refine ⟨h.owner, h.entry, h.record, forall_mem_set h.creator fun hc' => ?_, ?_,
    forall_mem_set h.awaiting fun hc' => ?_, forall_mem_set h.plain hplain⟩
  · rw [hcr (by rw [hc']; simp)] at hc'
    exact h.creator c (mem_of_getElem? hc) hc'
  · intro j j' d d' hd hd' hdcr hdcr'
    rcases getElem?_set_cases hd with ⟨rfl, rfl⟩ | ⟨-, hd1⟩
    · rw [hcr hdcr] at hdcr
      rcases getElem?_set_cases hd' with ⟨rfl, rfl⟩ | ⟨-, hd1'⟩
      · rfl
      · exact h.unique hc hd1' hdcr hdcr'
    · rcases getElem?_set_cases hd' with ⟨rfl, rfl⟩ | ⟨-, hd1'⟩
      · rw [hcr hdcr'] at hdcr'
        exact h.unique hd1 hc hdcr hdcr'
      · exact h.unique hd1 hd1' hdcr hdcr'
  · rw [hcr (by rw [creating_of_awaiting hc']; simp)] at hc'
    exact h.awaiting c (mem_of_getElem? hc) hc'

theorem set_creator {c c' : PoolCall} (h : OneKey loop key s) (hc : s.calls[i]? = some c)
    (hcr : c.phase.creating ≠ none) (howner : ∀ o ∈ r.owners, o.Regular ∧ o.loop = loop)
    (hentry : ∀ {key' k}, r.entries.get? key' = some k → key' = key ∧ r.inflight.get? key = none ∧
        ∃ o, r.owners[k]? = some o ∧ o.ready = .session ∧ o.signalled = false)
    (hrecord : ∀ {k}, r.inflight.get? key = some k → k < r.owners.length)
    (hcreator : ∀ {key' k}, c'.phase.creating = some (key', k) →
      key' = key ∧ r.inflight.get? key = some k)
    (hphase : ∀ key' k, c'.phase ≠ .awaiting key' k) (hplain : c'.Plain) :
    OneKey loop key ⟨r, s.calls.set i c'⟩ := by
  have hother : ∀ {j d}, j ≠ i → s.calls[j]? = some d → d.phase.creating = none := by
    intro j d hj hd
    by_contra hne
    exact hj (h.unique hd hc hne hcr)
  refine ⟨howner, hentry, hrecord, ?_, ?_, ?_, forall_mem_set h.plain hplain⟩
  · intro d hd key' k hd'
    obtain ⟨j, hj⟩ := mem_iff_getElem?.1 hd
    rcases getElem?_set_cases hj with ⟨rfl, rfl⟩ | ⟨hne, hj⟩
    · exact hcreator hd'
    · rw [hother hne hj] at hd'
      cases hd'
  · intro j j' d d' hd hd' hdcr hdcr'
    rcases getElem?_set_cases hd with ⟨rfl, -⟩ | ⟨hne, hd⟩
    · rcases getElem?_set_cases hd' with ⟨rfl, -⟩ | ⟨hne, hd'⟩
      · rfl
      · exact absurd (hother hne hd') hdcr'
    · exact absurd (hother hne hd) hdcr
  · intro d hd key' k hd'
    obtain ⟨j, hj⟩ := mem_iff_getElem?.1 hd
    rcases getElem?_set_cases hj with ⟨rfl, rfl⟩ | ⟨hne, hj⟩
    · exact absurd hd' (hphase key' k)
    · have hnone := hother hne hj
      rw [creating_of_awaiting hd'] at hnone
      cases hnone

theorem entries_none (h : OneKey loop key s) (hc : s.calls[i]? = some c)
    (hcr : c.phase.creating = some (key, k)) (key' : SessionKey) :
    s.registry.entries.get? key' = none := by
  have hrec := (h.creator c (mem_of_getElem? hc) hcr).2
  cases hentry : s.registry.entries.get? key' with
  | none => rfl
  | some j =>
    rw [(h.entry hentry).2.1] at hrec
    cases hrec

theorem end_creation {error : Option ℕ}
    (h : OneKey loop key s) (hc : s.calls[i]? = some c) (hcr : c.phase.creating = some (key, k))
    (howner : ∀ o ∈ r.owners, o.Regular ∧ o.loop = loop)
    (hlen : r.owners.length = s.registry.owners.length)
    (he : r.entries = s.registry.entries) (hi : r.inflight = s.registry.inflight)
    (hp : p = ({ r with inflight := r.inflight.pop key }, .raised k error) ∨
      p = (r, .unwinding key k error)) :
    OneKey loop key ⟨p.1, s.calls.set i { c with phase := p.2, cancelling := false }⟩ := by
  have hrec := (h.creator c (mem_of_getElem? hc) hcr).2
  have hentry : ∀ key', r.entries.get? key' = none := fun key' => he ▸ h.entries_none hc hcr key'
  have hne : c.phase.creating ≠ none := by
    rw [hcr]
    simp
  rcases hp with rfl | rfl
  · refine h.set_creator hc hne howner (fun {key'} _ hk => ?_) (fun hk => ?_) (fun h => ?_)
      (fun _ _ h => ?_) trivial
    · cases (hentry key').symm.trans hk
    · simp at hk
    · cases h
    · cases h
  · refine h.set_creator hc hne howner (fun {key'} _ hk => ?_) (fun hk => ?_) (fun h => ?_)
      (fun _ _ h => ?_) trivial
    · cases (hentry key').symm.trans hk
    · rw [hlen]
      exact h.record (hi ▸ hk)
    · cases h
      exact ⟨rfl, hi ▸ hrec⟩
    · cases h

theorem leave_eq (hrec : r.inflight.get? key = some k) (error : Option ℕ) :
    r.leave key k error = ({ r with inflight := r.inflight.pop key }, .raised k error) := by
  rw [leave, if_pos hrec]

theorem awaitOwner_cases (hrec : r.inflight.get? key = some k) (error : Option ℕ) :
    r.awaitOwner key k error = ({ r with inflight := r.inflight.pop key }, .raised k error) ∨
      r.awaitOwner key k error = (r, .unwinding key k error) := by
  unfold awaitOwner
  split_ifs
  · exact .inl (leave_eq hrec error)
  · exact .inr rfl

theorem owner_shutdown (h : OneKey loop key s) (k : ℕ) :
    ∀ o ∈ (s.registry.shutdown k true).owners, o.Regular ∧ o.loop = loop := by
  intro o' ho'
  obtain ⟨j, hj⟩ := mem_iff_getElem?.1 ho'
  by_cases hjk : j = k
  · subst hjk
    obtain ⟨o, ho, ht⟩ := (touches_shutdown s.registry j true).2 j o' hj
    obtain ⟨-, -, -, hsig⟩ := shutdown_self hj
    refine ⟨fun hsig' => ?_, ht.loop.trans (h.owner o (mem_of_getElem? ho)).2⟩
    rw [hsig] at hsig'
    cases hsig'
  · rw [shutdown_ne hjk] at hj
    exact h.owner o' (mem_of_getElem? hj)

theorem resume (h : OneKey loop key s)
    (hc : s.calls[i]? = some c) (hp : CallerStep key s.registry c p) :
    OneKey loop key ⟨p.1, s.calls.set i { c with phase := p.2, cancelling := false }⟩ := by
  have hmem := mem_of_getElem? hc
  cases hp with
  | unjoin k hph hcan => exact h.set_same hc (.inr rfl) trivial
  | join k hph hcan hr =>
    refine h.set_same hc (.inr ?_) ?_
    · unfold awaitJoin
      cases s.registry.ready k <;> rfl
    · unfold awaitJoin PoolCall.Plain
      cases hready : s.registry.ready k with
      | pending => exact absurd hready hr
      | session | failed | cancelled => trivial
  | takeDown k hph hcan hr =>
    have hcr := creating_of_awaiting hph
    have hshut := shutdown_records s.registry k true
    have hrec := (h.creator c hmem hcr).2
    exact h.end_creation hc hcr (h.owner_shutdown k) (touches_shutdown s.registry k true).1 hshut.1
      hshut.2 (awaitOwner_cases (hshut.2 ▸ hrec) none)
  | fail k e error hph hr he =>
    have hcr := creating_of_awaiting hph
    exact h.end_creation hc hcr h.owner rfl rfl rfl
      (awaitOwner_cases (h.creator c hmem hcr).2 error)
  | promote k hph hcan hr =>
    have hcr := creating_of_awaiting hph
    obtain ⟨o, ho, hsig⟩ := h.awaiting c hmem hph
    refine h.set_creator hc (by rw [hcr]; simp) h.owner (fun {key'} k' hk => ?_) (fun hk => ?_)
      (fun h => ?_) (fun _ _ h => ?_) trivial
    · rw [OrdDict.get?_set] at hk
      split_ifs at hk with hkey
      · cases hk
        exact ⟨hkey.symm, by simp, o, ho, (ready_of_owner ho).symm.trans hr, hsig⟩
      · rw [h.entries_none hc hcr] at hk
        cases hk
    · simp at hk
    · cases h
    · cases h
  | leave k error hph =>
    have hcr : c.phase.creating = some (key, k) := by
      rw [hph]
      rfl
    exact h.end_creation hc hcr h.owner rfl rfl rfl
      (.inl (leave_eq (h.creator c hmem hcr).2 error))

theorem cancel {q : SessionRegistry × Bool} (h : OneKey loop key s)
    (hc : s.calls[i]? = some c) (hq : s.registry.cancelCall c = some q) :
    q = (s.registry, true) ∧ OneKey loop key ⟨q.1,
      s.calls.set i { c with cancelling := c.cancelling || q.2, cancelled := true }⟩ := by
  have hplain := h.plain c (mem_of_getElem? hc)
  unfold PoolCall.Plain at hplain
  have hq' : q = (s.registry, true) := by
    unfold cancelCall at hq
    split at hq <;> rename_i hph
    iterate 3
      · rw [hph] at hplain
        exact hplain.elim
    iterate 3
      · exact (some.inj hq).symm
    · cases hq
  subst hq'
  refine ⟨rfl, h.set_same hc (.inl rfl) ?_⟩
  unfold PoolCall.Plain
  dsimp only
  split at hplain
  · simp
  · simp
  · trivial
  · trivial
  · trivial
  · exact hplain.elim

theorem move (h : OneKey loop key s) (ho : s.registry.owners[k]? = some o) (hm : o.Move k o') :
    OneKey loop key
      { s with registry := { s.registry with owners := s.registry.owners.set k o' } } := by
  have hkeeps := hm.keeps
  have hex : ∀ {P : Owner → Prop} {j : ℕ}, (P o → P o') →
      (∃ o, s.registry.owners[j]? = some o ∧ P o) →
        ∃ o, (s.registry.owners.set k o')[j]? = some o ∧ P o := by
    rintro P j hP ⟨oj, hoj, hPj⟩
    by_cases hjk : j = k
    · subst hjk
      cases ho.symm.trans hoj
      exact ⟨o', by simp [lt_of_getElem? ho], hP hPj⟩
    · exact ⟨oj, by simpa [getElem?_set, Ne.symm hjk] using hoj, hPj⟩
  refine ⟨?_, fun hk => ?_, fun hk => ?_, h.creator, h.unique, fun c hc _ _ hp => ?_, h.plain⟩
  · intro oj hoj
    rcases mem_or_eq_of_mem_set hoj with hoj | rfl
    · exact h.owner oj hoj
    · have hold := h.owner o (mem_of_getElem? ho)
      exact ⟨hold.1.move hm, hkeeps.loop.trans hold.2⟩
  · obtain ⟨hkey, hrec, hentry⟩ := h.entry hk
    refine ⟨hkey, hrec, hex (fun hready => ?_) hentry⟩
    exact ⟨(hkeeps.ready (by rw [hready.1]; simp)).trans hready.1, hkeeps.signalled.trans hready.2⟩
  · simpa using h.record hk
  · exact hex (fun hsig => hkeeps.signalled.trans hsig) (h.awaiting c hc hp)

end OneKey

end DeerFlow

import DeerFlow.Proofs.SessionHandover

/-!
# Leaks of the session pool

An owner that nobody has told to close is an entry, or its creation is recorded and a call is at it,
or it is on the list of a call that has taken it out (`SessionPool.Covered`). This is lost where a
call is cancelled in its shutdowns, or while it waits for an owner that has failed.
-/

namespace DeerFlow

open List Option Slots Machine

variable {r : SessionRegistry} {s s' : SessionPool} {k : ℕ} {p : SessionRegistry × PoolPhase}

open SessionRegistry

namespace SessionPool

/-- The owner is in `_entries`, or in `_inflight` with a call of `get_session` that is at it. -/
def Recorded (s : SessionPool) (k : ℕ) : Prop :=
  s.registry.IsEntry k ∨
    ∃ key, s.registry.inflight.get? key = some k ∧
      ∃ c ∈ s.calls, c.phase.creating = some (key, k)

def Owed (s : SessionPool) (k : ℕ) : Prop := ∃ c ∈ s.calls, k ∈ c.phase.owed

def Covered (s : SessionPool) (k : ℕ) : Prop := s.Recorded k ∨ s.Owed k

structure Sound (s : SessionPool) : Prop where
  apart : s.registry.Apart
  owner : ∀ {k : ℕ} {o : Owner}, s.registry.owners[k]? = some o → o.Exits k ∧ o.Completes
  firm : ∀ c ∈ s.calls, c.cancelling = true → s.registry.Firm c.phase
  covered : ∀ {k}, s.registry.Loose k → s.Covered k

end SessionPool

/-- No call is cancelled while it waits for a shutdown or for an owner not told to close, and no
owner before it starts. -/
def undisturbedPool (s : SessionPool) : PoolAct → Prop
  | .cancel i => ∀ c ∈ s.calls[i]?, s.registry.Firm c.phase
  | .owner k _ => ∀ o ∈ s.registry.owners[k]?, o.phase = .created → o.cancelling = false
  | _ => True

namespace SessionPool

theorem Covered.same {calls : List PoolCall} (h : s.Covered k)
    (he : r.entries = s.registry.entries) (hi : r.inflight = s.registry.inflight)
    (hcalls : ∀ c ∈ s.calls, ∃ c' ∈ calls, c'.phase = c.phase) : Covered ⟨r, calls⟩ k := by
  rcases h with (⟨key, hentry⟩ | ⟨key, hrec, c, hc, hcr⟩) | ⟨c, hc, howed⟩
  · exact .inl (.inl ⟨key, he ▸ hentry⟩)
  · obtain ⟨c', hc', hph⟩ := hcalls c hc
    exact .inl (.inr ⟨key, hi ▸ hrec, c', hc', hph ▸ hcr⟩)
  · obtain ⟨c', hc', hph⟩ := hcalls c hc
    exact .inr ⟨c', hc', hph ▸ howed⟩

theorem Covered.start (h : s.Covered k) {owed : List ℕ} {creating : Option (SessionKey × ℕ)}
    (ht : s.registry.Takes r owed creating) (hh : Hands r owed creating p) (hl : p.1.Loose k)
    (loop : ℕ) : (s.start loop p).Covered k := by
  have hnew : ∀ {P : PoolCall → Prop}, (∃ c ∈ s.calls, P c) → ∃ c ∈ (s.start loop p).calls, P c :=
    fun ⟨c, hc, hP⟩ => ⟨c, mem_append_left _ hc, hP⟩
  have howes : k ∈ owed → (s.start loop p).Covered k := fun hmem =>
    .inr ⟨_, mem_append_right _ (mem_singleton_self _), hh.owed hmem hl⟩
  rcases h with (hentry | ⟨key, hrec, hc⟩) | hc
  · rcases ht.entry hentry with hentry | hmem
    · exact .inl (.inl (hh.entry hentry))
    · exact howes hmem
  · rcases ht.record hrec with hrec | hmem
    · rcases hh.record hrec hl with hrec | hentry
      · exact .inl (.inr ⟨key, hrec, hnew hc⟩)
      · exact .inl (.inl hentry)
    · exact howes hmem
  · exact .inr (hnew hc)

theorem covered_new {owed : List ℕ} {key : SessionKey} (hh : Hands r owed (some (key, k)) p)
    (hrec : r.inflight.get? key = some k) (hl : p.1.Loose k) (s : SessionPool) (loop : ℕ) :
    (s.start loop p).Covered k := by
  rcases hh.record hrec hl with hrec' | hentry
  · rcases hh.created rfl hrec hl with hcr | hentry
    · exact .inl (.inr ⟨key, hrec', _, mem_append_right _ (mem_singleton_self _), hcr⟩)
    · exact .inl (.inl hentry)
  · exact .inl (.inl hentry)

theorem Sound.start (h : s.Sound) (hs : s.registry.Starts p) (loop : ℕ) :
    (s.start loop p).Sound := by
  obtain ⟨r, owed, creating, ht, hh⟩ := hs
  refine ⟨hh.apart, ?_, ?_, ?_⟩
  · intro k o' ho'
    obtain ⟨o, ho, htouch⟩ := hh.touches.2 k o' ho'
    have hold : o.Exits k ∧ o.Completes := by
      rcases ht.owner ho with ho | ⟨-, ⟨loop, rfl⟩, -⟩
      · exact h.owner ho
      · exact ⟨⟨rfl, rfl⟩, trivial⟩
    exact ⟨hold.1.touched htouch, hold.2.touched htouch⟩
  · refine forall_mem_concat (fun c hc hcan => ?_) nofun
    refine (h.firm c hc hcan).mono (ht.length.trans hh.touches.1.ge) fun k hk hl => ?_
    obtain ⟨o, ho, hrun⟩ := hh.touches.loose hl
    rcases ht.owner ho with ho | ⟨hnew, -⟩
    · exact ⟨o, ho, hrun⟩
    · omega
  · intro k hl
    obtain ⟨o, ho, hrun⟩ := hh.touches.loose hl
    rcases ht.owner ho with ho | ⟨-, -, key, rfl, hrec⟩
    · exact (h.covered ⟨o, ho, hrun⟩).start ht hh hl loop
    · exact covered_new hh hrec hl s loop

theorem Covered.resume {i : ℕ} {c : PoolCall} (h : s.Covered k) (hc : s.calls[i]? = some c)
    (hh : Hands s.registry c.phase.owed c.phase.creating p) (hl : p.1.Loose k) :
    Covered ⟨p.1, s.calls.set i { c with phase := p.2, cancelling := false }⟩ k := by
  rcases h with (hentry | ⟨key, hrec, hcr⟩) | howed
  · exact .inl (.inl (hh.entry hentry))
  · rcases hh.record hrec hl with hrec' | hentry
    · by_cases hthis : c.phase.creating = some (key, k)
      · rcases hh.created hthis hrec hl with hcr' | hentry
        · exact .inl (.inr ⟨key, hrec', _, mem_set hc, hcr'⟩)
        · exact .inl (.inl hentry)
      · exact .inl (.inr ⟨key, hrec', exists_set hc hcr fun h => absurd h hthis⟩)
    · exact .inl (.inl hentry)
  · exact .inr (exists_set hc howed fun hmem => hh.owed hmem hl)

theorem Sound.resume {i : ℕ} {c : PoolCall} (h : s.Sound) (hc : s.calls[i]? = some c)
    (hp : s.registry.resume c = some p) :
    Sound ⟨p.1, s.calls.set i { c with phase := p.2, cancelling := false }⟩ := by
  have hh := hands_resume h.apart (h.firm c (mem_of_getElem? hc)) hp
  refine ⟨hh.apart, ?_, ?_, fun hl => (h.covered (hh.touches.loose hl)).resume hc hh hl⟩
  · intro k o' ho'
    obtain ⟨o, ho, ht⟩ := hh.touches.2 k o' ho'
    exact ⟨(h.owner ho).1.touched ht, (h.owner ho).2.touched ht⟩
  · refine forall_mem_set (fun c' hc' hcan => ?_) nofun
    exact (h.firm c' hc' hcan).mono hh.touches.1.ge fun _ _ hl => hh.touches.loose hl

theorem Sound.tell {calls : List PoolCall} (h : s.Sound) (ht : s.registry.Touches r)
    (he : r.entries = s.registry.entries) (hi : r.inflight = s.registry.inflight)
    (hcalls : ∀ c ∈ s.calls, ∃ c' ∈ calls, c'.phase = c.phase)
    (hfirm : ∀ c ∈ calls, c.cancelling → s.registry.Firm c.phase) : Sound ⟨r, calls⟩ := by
  refine ⟨apart_of_records h.apart he hi, ?_, ?_, ?_⟩
  · intro k o' ho'
    obtain ⟨o, ho, htouch⟩ := ht.2 k o' ho'
    exact ⟨(h.owner ho).1.touched htouch, (h.owner ho).2.touched htouch⟩
  · exact fun c hc hcan => (hfirm c hc hcan).mono ht.1.ge fun _ _ hl => ht.loose hl
  · exact fun hl => (h.covered (ht.loose hl)).same he hi hcalls

theorem Sound.tell_owners (h : s.Sound) (ht : s.registry.Touches r)
    (he : r.entries = s.registry.entries) (hi : r.inflight = s.registry.inflight) :
    Sound { s with registry := r } :=
  h.tell ht he hi (fun c hc => ⟨c, hc, rfl⟩) h.firm

theorem Sound.move {o o' : Owner} (h : s.Sound) (ho : s.registry.owners[k]? = some o)
    (hmove : o.Move k o') (hstart : o.phase = .created → o.cancelling = false) :
    Sound { s with registry := { s.registry with owners := s.registry.owners.set k o' } } := by
  have hkeeps := hmove.keeps
  have hloose : ∀ {j}, Loose { s.registry with owners := s.registry.owners.set k o' } j →
      s.registry.Loose j := by
    rintro j ⟨oj, hoj, hrun, hsig, hcan⟩
    rcases getElem?_set_cases hoj with ⟨rfl, rfl⟩ | ⟨-, hoj⟩
    · exact ⟨o, ho, hmove.running, hkeeps.signalled ▸ hsig, hkeeps.cancelled ▸ hcan⟩
    · exact ⟨oj, hoj, hrun, hsig, hcan⟩
  refine ⟨h.apart, ?_, ?_, ?_⟩
  · intro j oj hoj
    rcases getElem?_set_cases hoj with ⟨rfl, rfl⟩ | ⟨-, hoj⟩
    · exact ⟨(h.owner ho).1.move hmove, (h.owner ho).2.move hmove hstart⟩
    · exact h.owner hoj
  · exact fun c hc hcan => (h.firm c hc hcan).mono (by simp) fun _ _ hl => hloose hl
  · exact fun hl => (h.covered (hloose hl)).same rfl rfl fun c hc => ⟨c, hc, rfl⟩

end SessionPool

namespace SessionRegistry

theorem cancelCall_spec {c : PoolCall} {q : SessionRegistry × Bool} (h : r.cancelCall c = some q) :
    r.Touches q.1 ∧ q.1.entries = r.entries ∧ q.1.inflight = r.inflight := by
  unfold cancelCall at h
  split at h <;> cases h
  · exact ⟨touches_modifyOwner Owner.touched_cancelTask r _, rfl, rfl⟩
  · exact ⟨.refl r, rfl, rfl⟩
  · exact ⟨touches_modifyOwner Owner.touched_cancelTask r _, rfl, rfl⟩
  · exact ⟨.refl r, rfl, rfl⟩
  · exact ⟨.refl r, rfl, rfl⟩
  · exact ⟨.refl r, rfl, rfl⟩

theorem stepJob_spec {r' : SessionRegistry} {j : ℕ} {job : ShutJob} (h : r.stepJob j job = some r') :
    r.Touches r' ∧ r'.entries = r.entries ∧ r'.inflight = r.inflight := by
  unfold stepJob at h
  split at h
  · cases h
    exact ⟨touches_shutdown r _ _, shutdown_records r _ _⟩
  · cases h
    exact ⟨touches_modifyOwner Owner.touched_cancelTask r _, rfl, rfl⟩
  · obtain ⟨-, heq⟩ := ite_none_right_eq_some.1 h
    cases heq
    exact ⟨.refl r, rfl, rfl⟩
  · cases h

end SessionRegistry

theorem SessionPool.Sound.step {act : PoolAct} (h : s.Sound) (hok : undisturbedPool s act)
    (hstep : sessionPool.step s act = some s') : s'.Sound := by
  cases act with
  | getSession loop key =>
    cases hstep
    exact h.start (starts_getSession h.apart loop key) loop
  | closeScope loop scope | closeServer loop server | closeAll loop =>
    cases hstep
    exact h.start (starts_closeKeys h.apart loop _) loop
  | step i =>
    obtain ⟨c, hc, hmap⟩ := bind_eq_some_iff.1 hstep
    obtain ⟨p, hp, rfl⟩ := map_eq_some_iff.1 hmap
    exact h.resume hc hp
  | cancel i =>
    obtain ⟨c, hc, hmap⟩ := bind_eq_some_iff.1 hstep
    obtain ⟨q, hq, rfl⟩ := map_eq_some_iff.1 hmap
    obtain ⟨ht, he, hi⟩ := cancelCall_spec hq
    refine h.tell ht he hi ?_ ?_
    · exact fun c' hc' => exists_set hc ⟨c', hc', rfl⟩ id
    · exact forall_mem_set h.firm fun _ => hok c hc
  | owner k reply =>
    obtain ⟨o, ho, hmap⟩ := bind_eq_some_iff.1 hstep
    obtain ⟨o', ho', rfl⟩ := map_eq_some_iff.1 hmap
    exact h.move ho (Owner.move_of_step ho') (hok o ho)
  | callback k =>
    obtain ⟨o, ho, hif⟩ := bind_eq_some_iff.1 hstep
    obtain ⟨-, heq⟩ := ite_none_right_eq_some.1 hif
    cases heq
    refine h.tell_owners ⟨by simp, fun j oj hoj => ?_⟩ rfl rfl
    rcases getElem?_set_cases hoj with ⟨rfl, rfl⟩ | ⟨-, hoj⟩
    · exact ⟨o, ho, rfl, rfl, rfl, rfl, rfl, id, id⟩
    · exact ⟨oj, hoj, .refl oj⟩
  | job j =>
    obtain ⟨job, -, hmap⟩ := bind_eq_some_iff.1 hstep
    obtain ⟨r, hr, rfl⟩ := map_eq_some_iff.1 hmap
    obtain ⟨ht, he, hi⟩ := stepJob_spec hr
    exact h.tell_owners ht he hi

section Taken

namespace SessionRegistry

/-- How many owners `get_session` takes out of the records for a key without an entry. -/
def replaces (r : SessionRegistry) (loop : ℕ) (key : SessionKey) : ℕ :=
  ((r.inflight.get? key).filter fun k => !r.isOn k loop).toList.length +
    (oldestEntries r.entries).length

/-- How many owners `get_session` takes out of the records. -/
def evicts (r : SessionRegistry) (loop : ℕ) (key : SessionKey) : ℕ :=
  match r.entries.get? key with
  | some k =>
    if r.isOn k loop then 0 else 1 + { r with entries := r.entries.pop key }.replaces loop key
  | none => r.replaces loop key

/-- How many owners a `close_*` takes out of the records. -/
def closes (r : SessionRegistry) (keys : SessionKey → Bool) : ℕ :=
  (r.entries.filter fun key _ => keys key).entries.length +
    (r.inflight.filter fun key _ => keys key).entries.length

theorem owed_awaitOwner (r : SessionRegistry) (key : SessionKey) (k : ℕ) (error : Option ℕ) :
    (r.awaitOwner key k error).2.owed = [] := by
  unfold awaitOwner leave
  split <;> rfl

theorem owed_unwind (r : SessionRegistry) (key : SessionKey) (k : ℕ) (error : Option ℕ) :
    (r.unwind key k error).2.owed = [] := by
  unfold unwind
  split <;> exact owed_awaitOwner _ key k error

theorem owed_awaitReady (r : SessionRegistry) (key : SessionKey) (k : ℕ) :
    (r.awaitReady key k).2.owed = [] := by
  unfold awaitReady promote
  dsimp only
  split
  · rfl
  · split_ifs <;> rfl
  · exact owed_unwind r key k _
  · exact owed_unwind r key k _

theorem owed_awaitJoin (r : SessionRegistry) (k : ℕ) : (r.awaitJoin k).owed = [] := by
  unfold awaitJoin
  split <;> rfl

theorem owed_proceed {todo : List (ℕ × Bool)} (h : todo.length ≤ 1) (r : SessionRegistry) (loop : ℕ)
    (next : ShutNext) : (r.proceed loop todo next).2.owed = [] := by
  have hnone : ∀ r : SessionRegistry, (r.proceed loop [] next).2.owed = [] := by
    intro r
    cases next with
    | join k => exact owed_awaitJoin r k
    | create key k => exact owed_awaitReady r key k
    | closed => rfl
  rcases todo with _ | ⟨⟨k, cancel⟩, _ | ⟨_, _⟩⟩
  · exact hnone r
  · have hshut : (∃ r' wait, shut loop next [(k, cancel)] r = (r', some (wait, []))) ∨
        ∃ r', shut loop next [(k, cancel)] r = shut loop next [] r' := by
      unfold shut
      simp only []
      split_ifs
      · exact .inr ⟨_, rfl⟩
      · exact .inl ⟨_, _, rfl⟩
      · exact .inl ⟨_, _, rfl⟩
      · exact .inr ⟨_, rfl⟩
    rcases hshut with ⟨r', wait, heq⟩ | ⟨r', heq⟩
    · simp [proceed, heq, PoolPhase.owed]
    · rw [proceed, heq]
      exact hnone r'
  · simp at h

theorem owed_joinOrCreate {evicted : List (ℕ × Bool)} {loop : ℕ} {key : SessionKey}
    (h : evicted.length + r.replaces loop key ≤ 1) :
    (r.joinOrCreate loop key evicted).2.owed = [] := by
  have hsum : ∀ owners : List (ℕ × Bool), evicted.length + owners.length +
      (oldestEntries r.entries).length ≤ 1 →
      (evicted ++ owners ++ ownersOf (oldestEntries r.entries) false).length ≤ 1 := by
    intro owners howners
    simpa only [ownersOf, length_append, length_map] using howners
  have hnil : evicted.length + (oldestEntries r.entries).length ≤ 1 →
      (evicted ++ ownersOf (oldestEntries r.entries) false).length ≤ 1 := by
    intro hle
    rw [← append_nil evicted]
    exact hsum [] hle
  unfold joinOrCreate evictAndProceed
  unfold replaces at h
  cases hrec : r.inflight.get? key with
  | none =>
    rw [hrec, Option.filter_none, toList_none, length_nil] at h
    exact owed_proceed (hnil (by omega)) _ _ _
  | some k =>
    rw [hrec, Option.filter_some] at h
    dsimp only
    cases hon : r.isOn k loop with
    | true =>
      simp only [hon, Bool.not_true, Bool.false_eq_true, if_false, toList_none, length_nil] at h
      exact owed_proceed (hnil (by omega)) _ _ _
    | false =>
      simp only [hon, Bool.not_false, if_true, toList_some, length_singleton] at h
      exact owed_proceed (hsum [(k, true)] (by rw [length_singleton]; omega)) _ _ _

theorem owed_getSession {loop : ℕ} {key : SessionKey} (h : r.evicts loop key ≤ 1) :
    (r.getSession loop key).2.owed = [] := by
  unfold getSession
  unfold evicts at h
  cases hentry : r.entries.get? key with
  | none =>
    rw [hentry] at h
    exact owed_joinOrCreate (by rwa [length_nil, Nat.zero_add])
  | some k =>
    rw [hentry] at h
    dsimp only at h ⊢
    split_ifs at h ⊢ with hon
    · rfl
    · exact owed_joinOrCreate h

theorem owed_resume {c : PoolCall} (h : r.resume c = some p) (hc : c.phase.owed = []) :
    p.2.owed = [] := by
  have hshut : ∀ {wait todo next}, c.phase = .shutting wait todo next →
      (r.proceed c.loop todo next).2.owed = [] := by
    intro wait todo next heq
    rw [heq] at hc
    exact owed_proceed (by simp [map_eq_nil_iff.1 hc]) r c.loop next
  unfold resume at h
  split at h <;> (try split_ifs at h) <;> cases h
  all_goals first
    | rfl
    | exact hshut ‹_›
    | exact owed_awaitReady r _ _
    | exact owed_awaitJoin r _
    | exact owed_unwind r _ _ _

end SessionRegistry

/-- No call takes two owners out of the records. -/
def takesOne (s : SessionPool) : PoolAct → Prop
  | .getSession loop key => s.registry.evicts loop key ≤ 1
  | .closeScope _ scope => s.registry.closes (fun key => key.2 = scope) ≤ 1
  | .closeServer _ server => s.registry.closes (fun key => key.1 = server) ≤ 1
  | .closeAll _ => s.registry.closes (fun _ => true) ≤ 1
  | _ => True

theorem owed_closeKeys {keys : SessionKey → Bool} (h : r.closes keys ≤ 1) (loop : ℕ) :
    (r.closeKeys loop keys).2.owed = [] :=
  owed_proceed (by simpa [ownersOf, closes] using h) _ loop .closed

theorem none_owed_step {act : PoolAct} (h : ∀ c ∈ s.calls, c.phase.owed = []) (hok : takesOne s act)
    (hstep : sessionPool.step s act = some s') : ∀ c ∈ s'.calls, c.phase.owed = [] := by
  cases act with
  | getSession loop key =>
    cases hstep
    exact forall_mem_concat h (owed_getSession hok)
  | closeScope loop scope | closeServer loop server | closeAll loop =>
    cases hstep
    exact forall_mem_concat h (owed_closeKeys hok loop)
  | step i =>
    obtain ⟨c, hc, hmap⟩ := bind_eq_some_iff.1 hstep
    obtain ⟨p, hp, rfl⟩ := map_eq_some_iff.1 hmap
    exact forall_mem_set h (owed_resume hp (h c (mem_of_getElem? hc)))
  | cancel i =>
    obtain ⟨c, hc, hmap⟩ := bind_eq_some_iff.1 hstep
    obtain ⟨q, -, rfl⟩ := map_eq_some_iff.1 hmap
    exact forall_mem_set h (h c (mem_of_getElem? hc))
  | owner k reply | job j =>
    obtain ⟨_, -, hmap⟩ := bind_eq_some_iff.1 hstep
    obtain ⟨_, -, rfl⟩ := map_eq_some_iff.1 hmap
    exact h
  | callback k =>
    obtain ⟨_, -, hif⟩ := bind_eq_some_iff.1 hstep
    obtain ⟨-, heq⟩ := ite_none_right_eq_some.1 hif
    cases heq
    exact h

end Taken

instance decidableLoose (r : SessionRegistry) (k : ℕ) : Decidable (r.Loose k) :=
  inferInstanceAs (Decidable (∃ o, r.owners[k]? = some o ∧ _))

instance decidableFirm (r : SessionRegistry) (phase) : Decidable (r.Firm phase) := by
  unfold SessionRegistry.Firm SessionRegistry.Told
  split <;> infer_instance

instance decidableUndisturbedPool (s : SessionPool) (act) : Decidable (undisturbedPool s act) := by
  unfold undisturbedPool
  split <;> infer_instance

instance decidableTakesOne (s : SessionPool) (act) : Decidable (takesOne s act) := by
  unfold takesOne
  split <;> infer_instance

theorem SessionPool.recorded_iff : s.Recorded k ↔ k ∈ s.registry.entries.values ∨
    ∃ c ∈ s.calls, ∃ e, c.phase.creating = some e ∧ e.2 = k ∧
      s.registry.inflight.get? e.1 = some k := by
  rw [OrdDict.mem_values_iff]
  constructor
  · rintro (hentry | ⟨key, hrec, c, hc, hcr⟩)
    · exact .inl hentry
    · exact .inr ⟨c, hc, _, hcr, rfl, hrec⟩
  · rintro (hentry | ⟨c, hc, ⟨key, _⟩, hcr, rfl, hrec⟩)
    · exact .inl hentry
    · exact .inr ⟨key, hrec, c, hc, hcr⟩

instance decidableRecorded (s : SessionPool) (k : ℕ) : Decidable (s.Recorded k) :=
  decidable_of_iff _ SessionPool.recorded_iff.symm

instance decidableOwed (s : SessionPool) (k : ℕ) : Decidable (s.Owed k) :=
  inferInstanceAs (Decidable (∃ c ∈ s.calls, k ∈ c.phase.owed))

theorem sound_of_run {acts : List PoolAct} (hok : sessionPool.Along undisturbedPool acts {})
    (h : sessionPool.run acts {} = some s) : s.Sound := by
  have hinit : SessionPool.Sound {} :=
    ⟨fun _ _ h => (nomatch h), fun h => (nomatch h), fun _ h => (nomatch h),
      fun ⟨_, h, _⟩ => (nomatch h)⟩
  exact run_inv (fun _ _ _ h hok hstep => h.step hok hstep) hinit hok h

/-- In an undisturbed run an owner that is done has completed its future, and the session of an
owner is exited by the owner, once, if it was entered. An owner that runs and was not told to close
is recorded, if no call takes two owners out. -/
theorem undisturbed_pool_keeps_owners {acts : List PoolAct}
    (hok : sessionPool.Along undisturbedPool acts {}) (h : sessionPool.run acts {} = some s)
    {o : Owner} (ho : s.registry.owners[k]? = some o) :
    (o.phase = .finished → o.ready ≠ .pending) ∧
    (sessionPool.Along takesOne acts {} →
      o.phase ≠ .finished → o.signalled = false → o.cancelled = false → s.Recorded k) ∧
    (o.enteredBy = [] ∧ o.exitedBy = [] ∨ o.enteredBy = [k] ∧
      (o.exitedBy = [k] ∨ o.exitedBy = [] ∧ o.phase ≠ .finished)) := by
  have hs := sound_of_run hok h
  obtain ⟨hexits, hcompletes⟩ := hs.owner ho
  refine ⟨fun hfin => ?_, fun hone hrun hsig hcan => ?_, ?_⟩
  · rw [Owner.Completes, hfin] at hcompletes
    exact hcompletes
  · have howed : ∀ c ∈ s.calls, c.phase.owed = [] :=
      run_inv (fun _ _ _ h hok hstep => none_owed_step h hok hstep) (by simp) hone h
    refine (hs.covered ⟨o, ho, hrun, hsig, hcan⟩).resolve_right ?_
    rintro ⟨c, hc, hmem⟩
    rw [howed c hc] at hmem
    cases hmem
  · unfold Owner.Exits at hexits
    cases hp : o.phase <;> rw [hp] at hexits
    · exact .inl hexits
    · exact .inl hexits
    · exact .inr ⟨hexits.1, .inr ⟨hexits.2, by decide⟩⟩
    · exact .inr ⟨hexits.1, .inr ⟨hexits.2, by decide⟩⟩
    · exact .inr ⟨hexits.1, .inl hexits.2⟩
    · exact hexits.imp id fun h => ⟨h.1, .inl h.2⟩

def movedSession : List PoolAct :=
  [.getSession 0 ("files", "t1"), .owner 0 .ok, .owner 0 .ok, .owner 0 .ok, .step 0,
    .getSession 1 ("files", "t1"), .owner 1 .ok, .callback 0, .owner 0 .ok, .owner 0 .ok,
    .owner 1 .ok, .owner 1 .ok, .step 1]

theorem moved_session_is_kept : ∃ s o, sessionPool.run movedSession {} = some s ∧
    s.registry.owners[1]? = some o ∧ o.phase = .waiting ∧ s.Recorded 1 := by
  obtain ⟨s, hs, o, ho, hp, hsig, hcan⟩ : ∃ s, sessionPool.run movedSession {} = some s ∧
      ∃ o, s.registry.owners[1]? = some o ∧ o.phase = .waiting ∧ o.signalled = false ∧
        o.cancelled = false :=
    exists_of_run_any (by decide +kernel)
  have hkept := undisturbed_pool_keeps_owners (by decide +kernel) hs ho
  exact ⟨s, o, hs, ho, hp, hkept.2.1 (by decide +kernel) (by rw [hp]; decide) hsig hcan⟩

/-- The pool is closed before the owner of a creation has started, which leaves the creator waiting
for ever; a call is cancelled while it shuts down what it replaces, which leaves its own owner
without a call. -/
theorem owners_are_stranded_and_leaked :
    (∃ s, sessionPool.run [.getSession 0 ("files", "t1"), .closeAll 0, .owner 0 .ok, .step 1] {} =
        some s ∧
      ∃ o, s.registry.owners[0]? = some o ∧ o.phase = .finished ∧ o.ready = .pending) ∧
    (∃ s, sessionPool.run [.getSession 0 ("files", "t1"), .getSession 1 ("files", "t1"), .cancel 1,
        .step 1, .owner 1 .ok, .owner 1 .ok, .owner 1 .ok] {} = some s ∧
      s.registry.Loose 1 ∧ ¬ s.Recorded 1 ∧ ¬ s.Owed 1) ∧
    ∃ s, sessionPool.run [.getSession 0 ("files", "t1"), .owner 0 .ok, .owner 0 .ok, .owner 0 .ok,
        .step 0, .getSession 0 ("files", "t2"), .owner 1 .ok, .owner 1 .ok, .owner 1 .ok, .step 1,
        .closeAll 0] {} = some s ∧
      s.registry.Loose 1 ∧ ¬ s.Recorded 1 :=
  ⟨exists_of_run_any (by decide +kernel), exists_of_run_any (by decide +kernel),
    exists_of_run_any (by decide +kernel)⟩

end DeerFlow

import DeerFlow.Data.Slots
import DeerFlow.Mcp.SessionPool

/-!
# Handing owners over

A session is exited by the task that entered it, and once (`Owner.Exits`). A call that takes an
owner out of the registry signals it, or has it on the list of owners it still has to signal
(`SessionRegistry.Hands`, `SessionRegistry.Takes`).
-/

namespace DeerFlow

open List Option OrdDict Owner

variable {r r' : SessionRegistry}  {k : ℕ} {o o' : Owner}

namespace Owner

def Exits (k : ℕ) (o : Owner) : Prop :=
  match o.phase with
  | .created | .entering => o.enteredBy = [] ∧ o.exitedBy = []
  | .initializing | .waiting => o.enteredBy = [k] ∧ o.exitedBy = []
  | .exiting => o.enteredBy = [k] ∧ o.exitedBy = [k]
  | .finished => o.enteredBy = [] ∧ o.exitedBy = [] ∨ o.enteredBy = [k] ∧ o.exitedBy = [k]

/-- The future is completed before the owner waits or is done, unless it was cancelled too early. -/
def Completes (o : Owner) : Prop :=
  match o.phase with
  | .created | .entering | .initializing => True
  | .waiting | .exiting | .finished => o.ready ≠ .pending

structure Touched (o o' : Owner) : Prop where
  loop : o'.loop = o.loop
  phase : o'.phase = o.phase
  ready : o'.ready = o.ready
  enteredBy : o'.enteredBy = o.enteredBy
  exitedBy : o'.exitedBy = o.exitedBy
  signalled : o.signalled = true → o'.signalled = true
  cancelled : o.cancelled = true → o'.cancelled = true

theorem Touched.refl (o : Owner) : o.Touched o := ⟨rfl, rfl, rfl, rfl, rfl, id, id⟩

theorem Touched.trans {o'' : Owner} (h : o.Touched o') (h' : o'.Touched o'') : o.Touched o'' :=
  ⟨h'.loop.trans h.loop, h'.phase.trans h.phase, h'.ready.trans h.ready,
    h'.enteredBy.trans h.enteredBy, h'.exitedBy.trans h.exitedBy, h'.signalled ∘ h.signalled,
    h'.cancelled ∘ h.cancelled⟩

theorem touched_closeEvt (o : Owner) : o.Touched o.closeEvt :=
  ⟨rfl, rfl, rfl, rfl, rfl, fun _ => rfl, id⟩

theorem touched_scheduleClose (o : Owner) : o.Touched o.scheduleClose :=
  ⟨rfl, rfl, rfl, rfl, rfl, fun _ => rfl, id⟩

theorem touched_signalled (o : Owner) : o.Touched { o with signalled := true } :=
  ⟨rfl, rfl, rfl, rfl, rfl, fun _ => rfl, id⟩

theorem touched_cancelTask (o : Owner) : o.Touched o.cancelTask := by
  unfold cancelTask
  split_ifs
  · exact Touched.refl o
  · exact ⟨rfl, rfl, rfl, rfl, rfl, id, fun _ => rfl⟩

theorem Exits.touched (h : o.Exits k) (ht : o.Touched o') : o'.Exits k := by
  unfold Exits at h ⊢
  rw [ht.phase, ht.enteredBy, ht.exitedBy]
  exact h

theorem Completes.touched (h : o.Completes) (ht : o.Touched o') : o'.Completes := by
  unfold Completes at h ⊢
  rw [ht.phase, ht.ready]
  exact h

theorem complete_ready (o : Owner) {ready : Ready} (h : ready ≠ .pending) :
    (o.complete ready).ready ≠ .pending := by
  unfold complete
  split_ifs with hp
  · exact h
  · exact hp

/-- What the future is completed with: the error of the reply, or the error of a cancellation. -/
def Fails (o : Owner) (ready : Ready) : Prop :=
  (∃ e, ready = .failed e) ∨ ready = .cancelled ∧ o.cancelling = true

inductive Move (k : ℕ) (o : Owner) : Owner → Prop
  /-- It is cancelled before it starts. -/
  | drop (hp : o.phase = .created) (hc : o.cancelling = true) :
    Move k o { o.calm with phase := .finished }
  | start (hp : o.phase = .created) : Move k o { o.calm with phase := .entering }
  | refuse (hp : o.phase = .entering) (ready : Ready) (hr : o.Fails ready) :
    Move k o { o.calm.complete ready with phase := .finished }
  | enter (hp : o.phase = .entering) :
    Move k o { o.calm with phase := .initializing, enteredBy := o.enteredBy ++ [k] }
  | publish (hp : o.phase = .initializing) :
    Move k o { o.calm.complete .session with phase := .waiting }
  | fail (hp : o.phase = .initializing) (ready : Ready)
      (hr : o.Fails ready ∨ ready = .session ∧ o.closed = true) :
    Move k o ((o.calm.complete ready).exit k)
  | close (hp : o.phase = .waiting) (hc : o.cancelling = true ∨ o.closed = true) :
    Move k o (o.calm.exit k)
  | finish (hp : o.phase = .exiting) : Move k o { o.calm with phase := .finished }

theorem move_of_step {reply : OwnerReply} (h : o.step k reply = some o') : Move k o o' := by
  unfold step at h
  cases hp : o.phase <;> cases hc : o.cancelling <;> simp only [hp, hc] at h
  · cases h
    exact .start hp
  · cases h
    exact .drop hp hc
  · cases reply with
    | ok =>
      cases h
      exact .enter hp
    | error e =>
      cases h
      exact .refuse hp (.failed e) (.inl ⟨e, rfl⟩)
  · cases h
    exact .refuse hp .cancelled (.inr ⟨rfl, hc⟩)
  · cases reply with
    | ok =>
      cases h
      split_ifs with hclosed
      · exact .fail hp .session (.inr ⟨rfl, hclosed⟩)
      · exact .publish hp
    | error e =>
      cases h
      exact .fail hp (.failed e) (.inl (.inl ⟨e, rfl⟩))
  · cases h
    exact .fail hp .cancelled (.inl (.inr ⟨rfl, hc⟩))
  · split_ifs at h with hclosed
    cases h
    exact .close hp (.inr hclosed)
  · cases h
    exact .close hp (.inl hc)
  · cases h
    exact .finish hp
  · cases h
    exact .finish hp
  · cases h
  · cases h

/-- What an owner does not change itself: it is told nothing, and completes its future once. -/
structure Keeps (o o' : Owner) : Prop where
  loop : o'.loop = o.loop
  signalled : o'.signalled = o.signalled
  cancelled : o'.cancelled = o.cancelled
  ready : o.ready ≠ .pending → o'.ready = o.ready

theorem keeps_complete (o : Owner) (ready : Ready) : o.Keeps (o.calm.complete ready) := by
  unfold complete
  split_ifs with hp
  · exact ⟨rfl, rfl, rfl, fun h => absurd hp h⟩
  · exact ⟨rfl, rfl, rfl, fun _ => rfl⟩

theorem complete_sessions (o : Owner) (ready : Ready) :
    (o.complete ready).enteredBy = o.enteredBy ∧ (o.complete ready).exitedBy = o.exitedBy := by
  unfold complete
  split_ifs <;> exact ⟨rfl, rfl⟩

theorem Move.keeps (h : Move k o o') : o.Keeps o' := by
  cases h with
  | drop | start => exact ⟨rfl, rfl, rfl, fun _ => rfl⟩
  | refuse hp ready =>
    have h := keeps_complete o ready
    exact ⟨h.loop, h.signalled, h.cancelled, h.ready⟩
  | enter => exact ⟨rfl, rfl, rfl, fun _ => rfl⟩
  | publish =>
    have h := keeps_complete o .session
    exact ⟨h.loop, h.signalled, h.cancelled, h.ready⟩
  | fail hp ready =>
    have h := keeps_complete o ready
    exact ⟨h.loop, h.signalled, h.cancelled, h.ready⟩
  | close | finish => exact ⟨rfl, rfl, rfl, fun _ => rfl⟩

theorem Move.running (h : Move k o o') : o.phase ≠ .finished := by
  cases h <;> simp [*]

theorem Exits.move (hs : o.Exits k) (h : Move k o o') : o'.Exits k := by
  unfold Exits at hs ⊢
  cases h with
  | drop hp =>
    rw [hp] at hs
    exact .inl hs
  | start hp =>
    rw [hp] at hs
    exact hs
  | refuse hp ready =>
    rw [hp] at hs
    have := complete_sessions o.calm ready
    exact .inl ⟨this.1.trans hs.1, this.2.trans hs.2⟩
  | enter hp =>
    rw [hp] at hs
    exact ⟨by simp [hs.1], hs.2⟩
  | publish hp =>
    rw [hp] at hs
    have := complete_sessions o.calm .session
    exact ⟨this.1.trans hs.1, this.2.trans hs.2⟩
  | fail hp ready =>
    rw [hp] at hs
    have := complete_sessions o.calm ready
    refine ⟨this.1.trans hs.1, ?_⟩
    have hexit : (o.calm.complete ready).exitedBy = [] := this.2.trans hs.2
    rw [exit, hexit]
    rfl
  | close hp =>
    rw [hp] at hs
    exact ⟨hs.1, by simp [exit, calm, hs.2]⟩
  | finish hp =>
    rw [hp] at hs
    exact .inr hs

theorem Fails.ne_pending {ready : Ready} (h : o.Fails ready) : ready ≠ .pending := by
  rcases h with ⟨e, rfl⟩ | ⟨rfl, -⟩ <;> simp

theorem Completes.move (hs : o.Completes) (h : Move k o o')
    (hstart : o.phase = .created → o.cancelling = false) : o'.Completes := by
  unfold Completes at hs ⊢
  cases h with
  | drop hp hc =>
    rw [hstart hp] at hc
    cases hc
  | start hp => trivial
  | refuse hp ready hr => exact complete_ready o.calm hr.ne_pending
  | enter hp => trivial
  | publish hp => exact complete_ready o.calm (by simp)
  | fail hp ready hr =>
    refine complete_ready o.calm ?_
    rcases hr with hr | ⟨rfl, -⟩
    · exact hr.ne_pending
    · simp
  | close hp | finish hp =>
    rw [hp] at hs
    exact hs

end Owner

namespace SessionRegistry

def Touches (r r' : SessionRegistry) : Prop :=
  r'.owners.length = r.owners.length ∧ ∀ (k : ℕ) (o' : Owner), r'.owners[k]? = some o' →
    ∃ o, r.owners[k]? = some o ∧ Owner.Touched o o'

def Loose (r : SessionRegistry) (k : ℕ) : Prop :=
  ∃ o, r.owners[k]? = some o ∧ o.phase ≠ .finished ∧ o.signalled = false ∧ o.cancelled = false

def IsEntry (r : SessionRegistry) (k : ℕ) : Prop := ∃ key, r.entries.get? key = some k

def Apart (r : SessionRegistry) : Prop :=
  ∀ key k, r.entries.get? key = some k → r.inflight.get? key = none

theorem Touches.refl (r : SessionRegistry) : r.Touches r := ⟨rfl, fun _ o h => ⟨o, h, .refl o⟩⟩

theorem Touches.trans {r'' : SessionRegistry} (h : r.Touches r') (h' : r'.Touches r'') :
    r.Touches r'' := by
  refine ⟨h'.1.trans h.1, fun k o'' ho'' => ?_⟩
  obtain ⟨o', ho', ht'⟩ := h'.2 k o'' ho''
  obtain ⟨o, ho, ht⟩ := h.2 k o' ho'
  exact ⟨o, ho, ht.trans ht'⟩

theorem Touches.loose (h : r.Touches r') (hl : r'.Loose k) : r.Loose k := by
  obtain ⟨o', ho', hrun, hsig, hcan⟩ := hl
  obtain ⟨o, ho, ht⟩ := h.2 k o' ho'
  refine ⟨o, ho, ht.phase ▸ hrun, ?_, ?_⟩
  · by_contra hs
    rw [ht.signalled (by simpa using hs)] at hsig
    cases hsig
  · by_contra hs
    rw [ht.cancelled (by simpa using hs)] at hcan
    cases hcan

theorem touches_modifyOwner {f : Owner → Owner} (hf : ∀ o : Owner, o.Touched (f o))
    (r : SessionRegistry) (k : ℕ) : r.Touches (r.modifyOwner k f) := by
  refine ⟨length_modify _ _ _, fun j o' ho' => ?_⟩
  simp only [modifyOwner, getElem?_modify] at ho'
  obtain ⟨o, ho, rfl⟩ := map_eq_some_iff.1 ho'
  refine ⟨o, ho, ?_⟩
  split_ifs
  · exact hf o
  · exact .refl o

theorem not_loose_modifyOwner {f : Owner → Owner}
    (hf : ∀ o, (f o).signalled) (r : SessionRegistry) (k : ℕ) :
    ¬ (r.modifyOwner k f).Loose k := by
  rintro ⟨o', ho', -, hsig, -⟩
  rw [modifyOwner, getElem?_modify_eq] at ho'
  obtain ⟨o, -, rfl⟩ := map_eq_some_iff.1 ho'
  rw [hf] at hsig
  cases hsig

theorem not_loose_of_isFinished (h : r.isFinished k) : ¬ r.Loose k := by
  rintro ⟨o, ho, hrun, -⟩
  rw [isFinished, ho] at h
  exact hrun (of_decide_eq_true h)

theorem touches_shutdown (r : SessionRegistry) (k : ℕ) (cancel : Bool) :
    r.Touches (r.shutdown k cancel) := by
  unfold shutdown
  split_ifs
  · exact (touches_modifyOwner touched_closeEvt r k).trans
      (touches_modifyOwner touched_cancelTask _ k)
  · exact touches_modifyOwner touched_closeEvt r k

theorem shutdown_records (r : SessionRegistry) (k : ℕ) (cancel : Bool) :
    (r.shutdown k cancel).entries = r.entries ∧ (r.shutdown k cancel).inflight = r.inflight := by
  unfold shutdown
  split_ifs <;> exact ⟨rfl, rfl⟩

theorem not_loose_shutdown (r : SessionRegistry) (k : ℕ) (cancel : Bool) :
    ¬ (r.shutdown k cancel).Loose k := by
  have hclose := not_loose_modifyOwner (fun _ : Owner => rfl : ∀ o, o.closeEvt.signalled) r k
  unfold shutdown
  split_ifs
  · exact fun hl => hclose ((touches_modifyOwner touched_cancelTask _ k).loose hl)
  · exact hclose

/-- A shutdown of owners up to an `await`: they are signalled, or left on the list. -/
structure Shuts (r : SessionRegistry) (owed : List ℕ)
    (q : SessionRegistry × Option (ShutWait × List (ℕ × Bool))) : Prop where
  touches : r.Touches q.1
  entries : q.1.entries = r.entries
  inflight : q.1.inflight = r.inflight
  owed : ∀ {k}, k ∈ owed → q.1.Loose k → ∃ wait rest, q.2 = some (wait, rest) ∧ k ∈ rest.map Prod.fst

theorem Shuts.cons {owed : List ℕ} {j : ℕ}
    {q : SessionRegistry × Option (ShutWait × List (ℕ × Bool))} (h : Shuts r' owed q)
    (ht : r.Touches r') (he : r'.entries = r.entries) (hi : r'.inflight = r.inflight)
    (hj : ¬ r'.Loose j) : Shuts r (j :: owed) q := by
  refine ⟨ht.trans h.touches, h.entries.trans he, h.inflight.trans hi, fun hk hl => ?_⟩
  rcases mem_cons.1 hk with rfl | hk
  · exact absurd (h.touches.loose hl) hj
  · exact h.owed hk hl

theorem shuts_wait (r : SessionRegistry) (wait : ShutWait) (todo : List (ℕ × Bool)) :
    Shuts r (todo.map Prod.fst) (r, some (wait, todo)) :=
  ⟨.refl r, rfl, rfl, fun hk _ => ⟨wait, todo, rfl, hk⟩⟩

theorem shuts_shut (loop : ℕ) (next : ShutNext) : ∀ (todo : List (ℕ × Bool)) (r : SessionRegistry),
    Shuts r (todo.map Prod.fst) (shut loop next todo r)
  | [], r => ⟨.refl r, rfl, rfl, fun hk => by cases hk⟩
  | (j, cancel) :: todo, r => by
    have hshut := shutdown_records r j cancel
    rw [shut, map_cons]
    dsimp only
    split_ifs with hloop hfin
    · exact (shuts_shut loop next todo _).cons (touches_shutdown r j cancel) hshut.1 hshut.2
        (not_loose_shutdown r j cancel)
    · exact (shuts_wait _ (.task j) todo).cons (touches_shutdown r j cancel) hshut.1 hshut.2
        (not_loose_shutdown r j cancel)
    · exact (shuts_wait _ (.job r.jobs.length) todo).cons
        (touches_modifyOwner touched_signalled r j) rfl rfl
        (not_loose_modifyOwner (fun _ => rfl) r j)
    · exact (shuts_shut loop next todo _).cons (touches_modifyOwner touched_scheduleClose r j)
        rfl rfl (not_loose_modifyOwner (fun _ => rfl) r j)

end SessionRegistry

def ShutNext.creating : ShutNext → Option (SessionKey × ℕ)
  | .create key k => some (key, k)
  | _ => none

namespace PoolPhase

def creating : PoolPhase → Option (SessionKey × ℕ)
  | .shutting _ _ next => next.creating
  | .awaiting key k | .unwinding key k _ => some (key, k)
  | _ => none

def owed : PoolPhase → List ℕ
  | .shutting _ todo _ => todo.map Prod.fst
  | _ => []

end PoolPhase

namespace SessionRegistry

/-- What a call does up to its next `await`: records stay or become entries, and owners not yet
signalled are left to its next step. -/
structure Hands (r : SessionRegistry) (owed : List ℕ) (creating : Option (SessionKey × ℕ))
    (p : SessionRegistry × PoolPhase) : Prop where
  touches : r.Touches p.1
  apart : p.1.Apart
  entry : ∀ {k}, r.IsEntry k → p.1.IsEntry k
  record : ∀ {key k}, r.inflight.get? key = some k → p.1.Loose k →
    p.1.inflight.get? key = some k ∨ p.1.IsEntry k
  created : ∀ {key k}, creating = some (key, k) → r.inflight.get? key = some k → p.1.Loose k →
    p.2.creating = some (key, k) ∨ p.1.IsEntry k
  owed : ∀ {k}, k ∈ owed → p.1.Loose k → k ∈ p.2.owed

variable {owed : List ℕ} {creating : Option (SessionKey × ℕ)} {p : SessionRegistry × PoolPhase}
  {key : SessionKey}

theorem hands_self (ha : r.Apart) {phase : PoolPhase}
    (hc : ∀ {key k}, creating = some (key, k) → r.Loose k → phase.creating = some (key, k)) :
    Hands r [] creating (r, phase) :=
  ⟨.refl r, ha, id, fun h _ => .inl h, fun h _ hl => .inl (hc h hl), fun hk => by cases hk⟩

theorem Hands.after (h : Hands r' owed creating p) (ht : r.Touches r')
    (he : r'.entries = r.entries) (hi : r'.inflight = r.inflight) : Hands r owed creating p :=
  ⟨ht.trans h.touches, h.apart, fun hk => h.entry (by rwa [IsEntry, he]),
    fun hk => h.record (by rwa [hi]), fun hc hk => h.created hc (by rwa [hi]), h.owed⟩

theorem apart_of_records (ha : r.Apart) (he : r'.entries = r.entries)
    (hi : r'.inflight = r.inflight) : r'.Apart := by
  rw [Apart, he, hi]
  exact ha

theorem hands_leave (ha : r.Apart) (hk : ¬ r.Loose k) (error : Option ℕ) :
    Hands r [] (some (key, k)) (r.leave key k error) := by
  unfold leave
  refine ⟨.refl r, ?_, id, ?_, ?_, fun hk => by cases hk⟩
  · intro key' k' hentry
    have := ha key' k' hentry
    split_ifs
    · simp [this]
    · exact this
  · intro key' k' hrec hl
    refine .inl ?_
    split_ifs with hkey
    · have hne : key ≠ key' := by
        rintro rfl
        rw [hrec] at hkey
        cases hkey
        exact hk hl
      rw [get?_pop, if_neg hne]
      exact hrec
    · exact hrec
  · rintro key' k' heq - hl
    cases heq
    exact absurd hl hk

theorem hands_awaitOwner (ha : r.Apart) (error : Option ℕ) :
    Hands r [] (some (key, k)) (r.awaitOwner key k error) := by
  unfold awaitOwner
  split_ifs with hfin
  · exact hands_leave ha (not_loose_of_isFinished hfin) error
  · exact hands_self ha fun h _ => h

theorem hands_unwind (ha : r.Apart) (error : Option ℕ) :
    Hands r [] (some (key, k)) (r.unwind key k error) := by
  have hshut := shutdown_records r k true
  have htold : Hands r [] (some (key, k)) ((r.shutdown k true).awaitOwner key k error) :=
    (hands_awaitOwner (apart_of_records ha hshut.1 hshut.2) error).after
      (touches_shutdown r k true) hshut.1 hshut.2
  unfold unwind
  cases r.ready k with
  | pending | session => exact htold
  | failed | cancelled => exact hands_awaitOwner ha error

theorem hands_promote (ha : r.Apart) : Hands r [] (some (key, k)) (r.promote key k) := by
  unfold promote
  split_ifs with hours
  · have hnew : ∀ {k' : ℕ}, r.IsEntry k' → ∃ key', (r.entries.set key k).get? key' = some k' := by
      rintro k' ⟨key', hentry⟩
      refine ⟨key', ?_⟩
      have hne : key ≠ key' := by
        rintro rfl
        rw [ha _ _ hentry] at hours
        cases hours
      rw [get?_set, if_neg hne]
      exact hentry
    refine ⟨.refl r, ?_, hnew, ?_, ?_, fun hk => by cases hk⟩
    · intro key' k' hentry
      rw [get?_set] at hentry
      rw [get?_pop]
      split_ifs at hentry ⊢
      · rfl
      · exact ha key' k' hentry
    · intro key' k' hrec _
      rw [get?_pop]
      split_ifs with hkey
      · subst hkey
        rw [hours] at hrec
        cases hrec
        exact .inr ⟨key, by simp⟩
      · exact .inl hrec
    · rintro key' k' heq - -
      cases heq
      exact .inr ⟨key, by simp⟩
  · have hshut := shutdown_records r k false
    have ha' := apart_of_records ha hshut.1 hshut.2
    have hgone : ∀ {key' : SessionKey} {k' : ℕ}, some (key, k) = some (key', k') →
        (r.shutdown k false).Loose k' → False := by
      rintro key' k' heq hl
      cases heq
      exact not_loose_shutdown r k false hl
    dsimp only
    split_ifs
    · exact (hands_self ha' fun h hl => (hgone h hl).elim).after (touches_shutdown r k false)
        hshut.1 hshut.2
    · exact (hands_self ha' fun h hl => (hgone h hl).elim).after (touches_shutdown r k false)
        hshut.1 hshut.2

theorem hands_awaitReady (ha : r.Apart) : Hands r [] (some (key, k)) (r.awaitReady key k) := by
  unfold awaitReady
  cases r.ready k with
  | pending => exact hands_self ha fun h _ => h
  | session => exact hands_promote ha
  | failed e => exact hands_unwind ha (some e)
  | cancelled => exact hands_unwind ha none

theorem hands_proceed (ha : r.Apart) (loop : ℕ) (todo : List (ℕ × Bool)) (next : ShutNext) :
    Hands r (todo.map Prod.fst) next.creating (r.proceed loop todo next) := by
  have hs := shuts_shut loop next todo r
  unfold proceed
  generalize shut loop next todo r = q at hs
  have ha' := apart_of_records ha hs.entries hs.inflight
  obtain ⟨r', w⟩ := q
  cases w with
  | some w =>
    obtain ⟨wait, rest⟩ := w
    have hself : Hands r' [] next.creating (r', .shutting wait rest next) :=
      hands_self ha' fun h _ => h
    have hrest := hself.after hs.touches hs.entries hs.inflight
    refine { hrest with owed := fun hk hl => ?_ }
    obtain ⟨_, _, heq, hmem⟩ := hs.owed hk hl
    cases heq
    exact hmem
  | none =>
    have hdone : ∀ {p}, Hands r' [] next.creating p →
        Hands r (todo.map Prod.fst) next.creating p := by
      intro p hp
      have hp' := hp.after hs.touches hs.entries hs.inflight
      refine { hp' with owed := fun hk hl => ?_ }
      obtain ⟨_, _, heq, -⟩ := hs.owed hk (hp.touches.loose hl)
      cases heq
    cases next with
    | join k => exact hdone (hands_self ha' nofun)
    | create key k => exact hdone (hands_awaitReady ha')
    | closed => exact hdone (hands_self ha' nofun)

def Told (r : SessionRegistry) (k : ℕ) : Prop :=
  ∃ o, r.owners[k]? = some o ∧ (o.phase = .finished ∨ o.signalled = true ∨ o.cancelled = true)

theorem told_iff : r.Told k ↔ k < r.owners.length ∧ ¬ r.Loose k := by
  constructor
  · rintro ⟨o, ho, htold⟩
    refine ⟨Slots.lt_of_getElem? ho, ?_⟩
    rintro ⟨o', ho', hrun, hsig, hcan⟩
    rw [ho] at ho'
    cases ho'
    simp [hrun, hsig, hcan] at htold
  · rintro ⟨hk, hloose⟩
    refine ⟨r.owners[k], getElem?_eq_getElem hk, ?_⟩
    by_contra htold
    push Not at htold
    exact hloose ⟨_, getElem?_eq_getElem hk, htold.1, by simpa using htold.2.1,
      by simpa using htold.2.2⟩

def Firm (r : SessionRegistry) : PoolPhase → Prop
  | .shutting (.job _) _ _ => False
  | .unwinding _ k _ => r.Told k
  | _ => True

theorem Firm.mono {phase : PoolPhase} (h : r.Firm phase)
    (hlen : r.owners.length ≤ r'.owners.length)
    (hl : ∀ k < r.owners.length, r'.Loose k → r.Loose k) : r'.Firm phase := by
  unfold Firm at h ⊢
  split at h
  · exact h
  · obtain ⟨hk, hloose⟩ := told_iff.1 h
    exact told_iff.2 ⟨hk.trans_le hlen, fun hk' => hloose (hl _ hk hk')⟩
  · trivial

theorem hands_resume {c : PoolCall} (ha : r.Apart) (hf : c.cancelling → r.Firm c.phase)
    (h : r.resume c = some p) : Hands r c.phase.owed c.phase.creating p := by
  unfold resume at h
  cases hp : c.phase with
  | shutting wait todo next =>
    rw [hp] at h hf
    cases wait with
    | task k =>
      obtain ⟨-, heq⟩ := ite_none_right_eq_some.1 h
      cases heq
      exact hands_proceed ha c.loop todo next
    | job j =>
      have hcalm : c.cancelling = false := eq_false_of_ne_true hf
      dsimp only at h
      rw [hcalm, if_neg Bool.false_ne_true] at h
      obtain ⟨-, heq⟩ := ite_none_right_eq_some.1 h
      cases heq
      exact hands_proceed ha c.loop todo next
  | joining k =>
    rw [hp] at h
    dsimp only at h
    split_ifs at h <;> cases h <;> exact hands_self ha nofun
  | awaiting key k =>
    rw [hp] at h
    dsimp only at h
    split_ifs at h <;> cases h
    · exact hands_unwind ha none
    · exact hands_awaitReady ha
  | unwinding key k error =>
    rw [hp] at h hf
    obtain ⟨hend, heq⟩ := ite_none_right_eq_some.1 h
    cases heq
    refine hands_leave ha ?_ error
    rcases Bool.or_eq_true_iff.1 hend with hc | hfin
    · exact (told_iff.1 (hf hc)).2
    · exact not_loose_of_isFinished hfin
  | tearing k =>
    rw [hp] at h
    obtain ⟨-, heq⟩ := ite_none_right_eq_some.1 h
    cases heq
    exact hands_self ha nofun
  | returned k | raised k error | interrupted | closed =>
    rw [hp] at h
    cases h

/-- What a call does under the lock: records stay or their owners are to be signalled; a new owner
has its record. -/
structure Takes (r r' : SessionRegistry) (owed : List ℕ) (creating : Option (SessionKey × ℕ)) :
    Prop where
  apart : r'.Apart
  length : r.owners.length ≤ r'.owners.length
  owner : ∀ {k : ℕ} {o : Owner}, r'.owners[k]? = some o → r.owners[k]? = some o ∨
    r.owners.length ≤ k ∧ (∃ loop, o = { loop }) ∧
      ∃ key, creating = some (key, k) ∧ r'.inflight.get? key = some k
  entry : ∀ {k}, r.IsEntry k → r'.IsEntry k ∨ k ∈ owed
  record : ∀ {key k}, r.inflight.get? key = some k → r'.inflight.get? key = some k ∨ k ∈ owed

/-- What a call does up to its first `await`. -/
def Starts (r : SessionRegistry) (p : SessionRegistry × PoolPhase) : Prop :=
  ∃ r' owed creating, r.Takes r' owed creating ∧ Hands r' owed creating p

theorem takes_refl (ha : r.Apart) : r.Takes r [] none := ⟨ha, le_rfl, .inl, .inl, .inl⟩

theorem mem_ownersOf {es : List (SessionKey × ℕ)} {e : SessionKey × ℕ} (h : e ∈ es)
    (cancel : Bool) : e.2 ∈ (ownersOf es cancel).map Prod.fst := by
  rw [ownersOf, List.map_map]
  exact mem_map_of_mem h

theorem Takes.evict (h : r.Takes r' owed creating) :
    r.Takes { r' with entries := r'.entries.popAll ((oldestEntries r'.entries).map Prod.fst) }
      (owed ++ (ownersOf (oldestEntries r'.entries) false).map Prod.fst) creating := by
  refine ⟨fun key k hentry => ?_, h.length, h.owner, fun hk => ?_, fun hk => ?_⟩
  · dsimp only at hentry ⊢
    rw [get?_popAll] at hentry
    split_ifs at hentry
    exact h.apart key k hentry
  · rcases h.entry hk with ⟨key, hentry⟩ | hmem
    · by_cases hold : key ∈ (oldestEntries r'.entries).map Prod.fst
      · obtain ⟨e, he, rfl⟩ := List.mem_map.1 hold
        have hread := mem_entries_iff.1 (mem_of_mem_take he)
        rw [hentry] at hread
        cases hread
        exact .inr (mem_append_right _ (mem_ownersOf he false))
      · exact .inl ⟨key, by simpa [hold] using hentry⟩
    · exact .inr (mem_append_left _ hmem)
  · exact (h.record hk).imp id (mem_append_left _)

theorem Takes.create (h : r.Takes r' owed none) (hkey : r'.entries.get? key = none) (loop : ℕ)
    (hrec : ∀ k, r'.inflight.get? key = some k → k ∈ owed) :
    r.Takes (r'.create loop key) owed (some (key, r'.owners.length)) := by
  refine ⟨fun key' k hentry => ?_, h.length.trans ?_, fun ho => ?_, h.entry,
    fun {key'} {k} hk => ?_⟩
  · have hne : key ≠ key' := by
      rintro rfl
      rw [SessionRegistry.create] at hentry
      rw [hkey] at hentry
      cases hentry
    simpa [SessionRegistry.create, hne] using h.apart key' k hentry
  · simp [SessionRegistry.create]
  · rcases Slots.getElem?_concat_cases ho with ho | ⟨rfl, rfl⟩
    · rcases h.owner ho with ho | ⟨-, -, _, heq, -⟩
      · exact .inl ho
      · cases heq
    · exact .inr ⟨h.length, ⟨loop, rfl⟩, key, rfl, by simp [SessionRegistry.create]⟩
  · rcases h.record hk with hk | hmem
    · by_cases hne : key = key'
      · subst hne
        exact .inr (hrec k hk)
      · exact .inl (by simpa [SessionRegistry.create, hne] using hk)
    · exact .inr hmem

theorem starts_evictAndProceed {evicted : List (ℕ × Bool)} (next : ShutNext)
    (h : r.Takes r' (evicted.map Prod.fst) next.creating) (loop : ℕ) :
    r.Starts (r'.evictAndProceed loop evicted next) := by
  refine ⟨_, _, _, h.evict, ?_⟩
  rw [← map_append]
  exact hands_proceed h.evict.apart loop _ next

theorem starts_joinOrCreate (evicted : List (ℕ × Bool))
    (h : r.Takes r' (evicted.map Prod.fst) none) (hkey : r'.entries.get? key = none)
    (loop : ℕ) : r.Starts (r'.joinOrCreate loop key evicted) := by
  unfold joinOrCreate
  cases hrec : r'.inflight.get? key with
  | none =>
    refine starts_evictAndProceed (.create key _) (h.create hkey loop ?_) loop
    intro k hk
    rw [hrec] at hk
    cases hk
  | some k =>
    dsimp only
    split_ifs
    · exact starts_evictAndProceed (.join k) h loop
    · have hmore : r.Takes r' ((evicted ++ [(k, true)]).map Prod.fst) none := by
        rw [map_append]
        exact ⟨h.apart, h.length, h.owner, fun hk => (h.entry hk).imp id (mem_append_left _),
          fun hk => (h.record hk).imp id (mem_append_left _)⟩
      refine starts_evictAndProceed (.create key _) (hmore.create hkey loop ?_) loop
      intro k' hk'
      rw [hrec] at hk'
      cases hk'
      simp

theorem takes_pop (ha : r.Apart) (hentry : r.entries.get? key = some k) :
    r.Takes { r with entries := r.entries.pop key } [k] none := by
  refine ⟨?_, le_rfl, .inl, ?_, .inl⟩
  · intro key' k' hk'
    rw [get?_pop] at hk'
    split_ifs at hk'
    exact ha key' k' hk'
  · rintro k' ⟨key', hk'⟩
    by_cases hne : key = key'
    · subst hne
      rw [hentry] at hk'
      cases hk'
      exact .inr (by simp)
    · exact .inl ⟨key', by simpa [hne] using hk'⟩

theorem starts_getSession (ha : r.Apart) (loop : ℕ) (key : SessionKey) :
    r.Starts (r.getSession loop key) := by
  unfold getSession
  cases hentry : r.entries.get? key with
  | none => exact starts_joinOrCreate [] (takes_refl ha) hentry loop
  | some k =>
    dsimp only
    split_ifs
    · have hget : ∀ key', ((r.entries.pop key).set key k).get? key' = r.entries.get? key' := by
        intro key'
        rw [get?_set, get?_pop]
        split_ifs with heq
        · rw [← heq, hentry]
        · rfl
      have ha' : Apart { r with entries := (r.entries.pop key).set key k } :=
        fun key' k' hk' => ha key' k' (hget key' ▸ hk')
      refine ⟨_, [], none, ⟨ha', le_rfl, .inl, ?_, .inl⟩, hands_self ha' fun h => by cases h⟩
      rintro k' ⟨key', hk'⟩
      exact .inl ⟨key', (hget key').trans hk'⟩
    · exact starts_joinOrCreate [(k, false)] (takes_pop ha hentry) (by simp) loop

theorem mem_ownersOf_filter {d : SessionRecords} {keys : SessionKey → Bool} {cancel : Bool}
    (hk : d.get? key = some k) (hkey : keys key) :
    k ∈ (ownersOf (d.filter fun key _ => keys key).entries cancel).map Prod.fst := by
  have hmem : (key, k) ∈ (d.filter fun key _ => keys key).entries := by
    rw [mem_entries_iff, get?_filter, hk]
    simp [hkey]
  exact mem_ownersOf hmem cancel

theorem get?_filter_not {d : SessionRecords} {keys : SessionKey → Bool}
    (hk : d.get? key = some k) (hkey : keys key = false) :
    (d.filter fun key _ => !keys key).get? key = some k := by
  rw [get?_filter, hk]
  simp [hkey]

theorem starts_closeKeys (ha : r.Apart) (loop : ℕ) (keys : SessionKey → Bool) :
    r.Starts (r.closeKeys loop keys) := by
  have ha' : Apart { r with
      entries := r.entries.filter fun key _ => !keys key
      inflight := r.inflight.filter fun key _ => !keys key } := by
    intro key k hk
    rw [get?_filter] at hk ⊢
    rw [ha key k (filter_eq_some_iff.1 hk).1]
    rfl
  refine ⟨_, _, none, ⟨ha', le_rfl, .inl, ?_, ?_⟩, hands_proceed ha' loop _ .closed⟩
  · rintro k ⟨key, hk⟩
    rw [map_append]
    cases hkey : keys key with
    | true => exact .inr (mem_append_left _ (mem_ownersOf_filter hk hkey))
    | false => exact .inl ⟨key, get?_filter_not hk hkey⟩
  · intro key k hk
    rw [map_append]
    cases hkey : keys key with
    | true => exact .inr (mem_append_right _ (mem_ownersOf_filter hk hkey))
    | false => exact .inl (get?_filter_not hk hkey)

end SessionRegistry

end DeerFlow

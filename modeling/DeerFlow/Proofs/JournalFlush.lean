import DeerFlow.Journal

/-!
# The journal's buffer reaches the store in order

What was put is the store, then the batch in flight, then the buffer, as long as no background task
starts while `flush()` drains the buffer; where one does, its batch can reach the store before an
older one.
-/

namespace DeerFlow

open List Option FlushAct Machine

variable {ε : Type} {k : ℕ}

namespace FlushTask

def batch : FlushTask ε → List ε
  | .writing batch | .failed batch => batch
  | .stored | .ended => []

end FlushTask

namespace FlushPhase

/-- The events `flush()` has yet to store or to return. -/
def batch : FlushPhase ε → List ε
  | .writing batch | .failed batch => batch
  | .idle | .gathering | .waiting | .stored | .returned | .raised => []

/-- `flush()` is past the background task it found. -/
def Draining : FlushPhase ε → Prop
  | .waiting | .writing _ | .stored | .failed _ | .returned => True
  | .idle | .gathering | .raised => False

instance (phase : FlushPhase ε) : Decidable (Draining phase) := by
  unfold Draining
  split <;> infer_instance

theorem batch_of_not_draining {phase : FlushPhase ε} (h : ¬ phase.Draining) : phase.batch = [] := by
  cases phase <;> simp_all [Draining, batch]

@[simp] theorem batch_wake (phase : FlushPhase ε) : phase.wake.batch = phase.batch := by
  cases phase <;> rfl

theorem wake_ne_gathering (phase : FlushPhase ε) : phase.wake ≠ .gathering := by
  cases phase <;> simp [wake]

theorem wake_eq_returned {phase : FlushPhase ε} (h : phase.wake = .returned) :
    phase = .returned := by
  cases phase <;> simp_all [wake]

end FlushPhase

namespace JournalBuffer

variable {s : JournalBuffer ε} {loop : Bool}

def Starts (s : JournalBuffer ε) (loop : Bool) : Prop :=
  s.buffer ≠ [] ∧ s.pending = none ∧ loop = true

def taskBatch (s : JournalBuffer ε) : List ε := (s.pending.map FlushTask.batch).getD []

def Settled (s : JournalBuffer ε) : Prop := s.pending = none ∨ s.pending = some .ended

theorem Settled.taskBatch_eq_nil (h : s.Settled) : s.taskBatch = [] := by
  rcases h with h | h <;> simp [taskBatch, h, FlushTask.batch]

structure Ordered (s : JournalBuffer ε) : Prop where
  order : s.puts = s.store ++ s.taskBatch ++ s.flush.batch ++ s.buffer
  settled : s.flush.Draining → s.Settled
  gathering : s.flush = .gathering → ¬ s.Settled
  returned : s.flush = .returned → s.buffer = []

theorem flushSync_of_starts (h : s.Starts loop) :
    s.flushSync loop = { s with buffer := [], pending := some (.writing s.buffer) } := by
  obtain ⟨hb, hp, rfl⟩ := h
  simp [flushSync, hb, hp]

theorem flushSync_of_not_starts (h : ¬ s.Starts loop) : s.flushSync loop = s := by
  unfold flushSync
  split_ifs with hb hp hl
  · rfl
  · rfl
  · rfl
  · exact absurd ⟨by simpa using hb, by simpa using hp, by simpa using hl⟩ h

theorem Ordered.flushSync (h : s.Ordered)
    (hs : s.flush.Draining → ¬ s.Starts loop) : (s.flushSync loop).Ordered := by
  by_cases hst : s.Starts loop
  · have hd : ¬ s.flush.Draining := fun hd => hs hd hst
    have hg : s.flush ≠ .gathering := fun hg => h.gathering hg (.inl hst.2.1)
    have hb : s.flush.batch = [] := FlushPhase.batch_of_not_draining hd
    rw [flushSync_of_starts hst]
    refine ⟨?_, fun hd' => absurd hd' hd, fun hg' => absurd hg' hg, fun _ => rfl⟩
    have horder := h.order
    simp only [taskBatch, hst.2.1, hb, map_none, getD_none] at horder
    simp [taskBatch, FlushTask.batch, hb, horder]
  · rw [flushSync_of_not_starts hst]
    exact h

theorem Ordered.append (h : s.Ordered) (e : ε) (hr : s.flush ≠ .returned) :
    (s.append e).Ordered := by
  refine ⟨?_, h.settled, h.gathering, fun hr' => absurd hr' hr⟩
  simp [JournalBuffer.append, h.order, taskBatch, append_assoc]

theorem Ordered.drain (h : s.Ordered) (hb : s.flush.batch = [])
    (hs : s.Settled) : (s.drain k).Ordered := by
  have htask := hs.taskBatch_eq_nil
  have horder := h.order
  rw [htask, hb] at horder
  unfold JournalBuffer.drain
  by_cases hemp : s.buffer.isEmpty
  · rw [if_pos hemp]
    refine ⟨?_, fun _ => hs, fun hg => (by cases hg), fun _ => by simpa using hemp⟩
    change s.puts = s.store ++ s.taskBatch ++ [] ++ s.buffer
    rw [htask, horder]
  · rw [if_neg hemp]
    refine ⟨?_, fun _ => hs, fun hg => (by cases hg), nofun⟩
    change s.puts = s.store ++ s.taskBatch ++ s.buffer.take _ ++ s.buffer.drop _
    rw [htask, append_assoc _ (s.buffer.take _), take_append_drop, horder, append_nil]

theorem Ordered.taskOver {s s' : JournalBuffer ε} (h : s.Ordered) (hs : ¬ s.Settled)
    (hf : s'.flush = s.flush) (hp : s'.puts = s.puts)
    (ho : s'.store ++ s'.buffer = s.store ++ s.taskBatch ++ s.buffer) : s'.taskOver.Ordered := by
  have hd : ¬ s.flush.Draining := fun hd => hs (h.settled hd)
  have hb : s.flush.batch = [] := FlushPhase.batch_of_not_draining hd
  have horder := h.order
  rw [hb, append_nil, ← ho] at horder
  refine ⟨?_, fun _ => .inr rfl, fun hg => absurd hg (FlushPhase.wake_ne_gathering _), fun hr => ?_⟩
  · change s'.puts = s'.store ++ [] ++ s'.flush.wake.batch ++ s'.buffer
    rw [FlushPhase.batch_wake, hf, hb, hp, horder, append_nil, append_nil]
  · have hr' := FlushPhase.wake_eq_returned (show s'.flush.wake = .returned from hr)
    exact absurd (by rw [← hf, hr']; trivial) hd

end JournalBuffer

/-- No background task starts while `flush()` drains the buffer, none is cancelled, and no event is
put once it has returned. -/
def FlushAct.Apart (k : ℕ) (s : JournalBuffer ε) : FlushAct ε → Prop
  | .put e loop => s.flush ≠ .returned ∧
      (s.flush.Draining → k ≤ s.buffer.length + 1 → ¬ (s.append e).Starts loop)
  | .flushSync loop => s.flush.Draining → ¬ s.Starts loop
  | .taskCancelled => False
  | _ => True

instance [DecidableEq ε] (k : ℕ) (s : JournalBuffer ε) : DecidablePred (FlushAct.Apart k s) := by
  intro a
  cases a <;> unfold FlushAct.Apart <;> unfold JournalBuffer.Starts <;> infer_instance

open JournalBuffer in
theorem JournalBuffer.Ordered.step {s s' : JournalBuffer ε} {a : FlushAct ε} (h : s.Ordered)
    (hstep : (journalBuffer ε k).step s a = some s') (ha : a.Apart k s) : s'.Ordered := by
  cases a with
  | put e loop =>
    cases hstep
    obtain ⟨hr, hs⟩ := ha
    have happ := h.append e hr
    unfold JournalBuffer.put
    dsimp only
    split_ifs with hk
    · exact happ.flushSync fun hd => hs hd (by simpa [JournalBuffer.append] using hk)
    · exact happ
  | flushSync loop =>
    cases hstep
    exact h.flushSync ha
  | taskStores ok =>
    simp only [journalBuffer] at hstep
    split at hstep
    · next batch hp =>
      have hn : ¬ s.Settled := by simp [Settled, hp]
      have hd : ¬ s.flush.Draining := fun hd => hn (h.settled hd)
      have hb := FlushPhase.batch_of_not_draining hd
      have horder := h.order
      simp only [taskBatch, hp, map_some, getD_some, FlushTask.batch] at horder
      split_ifs at hstep with hok
      · cases hstep
        refine ⟨?_, fun hd' => absurd hd' hd, fun _ => by simp [Settled], h.returned⟩
        simpa [taskBatch, FlushTask.batch] using horder
      · cases hstep
        refine ⟨?_, fun hd' => absurd hd' hd, fun _ => by simp [Settled], h.returned⟩
        simpa [taskBatch, FlushTask.batch] using horder
    · cases hstep
  | taskResumes =>
    simp only [journalBuffer] at hstep
    split at hstep
    · next hp =>
      cases hstep
      exact h.taskOver (by simp [Settled, hp]) rfl rfl (by simp [taskBatch, hp, FlushTask.batch])
    · next batch hp =>
      cases hstep
      exact h.taskOver (by simp [Settled, hp]) rfl rfl (by simp [taskBatch, hp, FlushTask.batch])
    · cases hstep
  | taskCancelled => exact absurd ha id
  | onFlushDone =>
    simp only [journalBuffer] at hstep
    split at hstep
    · next hp =>
      cases hstep
      have horder := h.order
      refine ⟨?_, fun _ => .inl rfl, fun hg => absurd (.inr hp) (h.gathering hg), h.returned⟩
      simpa [taskBatch, hp, FlushTask.batch] using horder
    · cases hstep
  | flush progress =>
    simp only [journalBuffer] at hstep
    split at hstep
    · next hf =>
      have hb : s.flush.batch = [] := by rw [hf]; rfl
      have hmove : ∀ phase : FlushPhase ε, phase.batch = [] → phase ≠ .returned →
          (phase.Draining → s.Settled) → (phase = .gathering → ¬ s.Settled) →
          ({ s with flush := phase } : JournalBuffer ε).Ordered := by
        intro phase hbatch hr hsd hg
        refine ⟨?_, hsd, hg, fun hr' => absurd hr' hr⟩
        have horder := h.order
        rw [hb] at horder
        rw [hbatch]
        exact horder
      split at hstep
      · next hp =>
        split_ifs at hstep
        · cases hstep
          exact hmove .waiting rfl (by simp) (fun _ => .inl hp) (by simp)
        · cases hstep
          exact h.drain hb (.inl hp)
      · next hp =>
        cases hstep
        exact hmove .waiting rfl (by simp) (fun _ => .inr hp) (by simp)
      · next task hne hp =>
        cases hstep
        refine hmove .gathering rfl (by simp) (by simp [FlushPhase.Draining]) fun _ hs => ?_
        rcases hs with hs | hs
        · rw [hs] at hp
          cases hp
        · exact hne (some.inj (hp.symm.trans hs))
    · cases hstep
  | flushStores ok =>
    simp only [journalBuffer] at hstep
    split at hstep
    · next batch hf =>
      have hs : s.Settled := h.settled (by rw [hf]; trivial)
      have htask := hs.taskBatch_eq_nil
      have horder := h.order
      simp only [htask, hf, FlushPhase.batch, append_nil] at horder
      split_ifs at hstep with hok
      · cases hstep
        refine ⟨?_, fun _ => hs, by simp, by simp⟩
        change s.puts = s.store ++ batch ++ s.taskBatch ++ [] ++ s.buffer
        rw [htask, append_nil, append_nil, horder]
      · cases hstep
        refine ⟨?_, fun _ => hs, by simp, by simp⟩
        change s.puts = s.store ++ s.taskBatch ++ batch ++ s.buffer
        rw [htask, append_nil, horder]
    · cases hstep
  | flushResumes progress =>
    simp only [journalBuffer] at hstep
    split at hstep
    · next hf =>
      have hs : s.Settled := h.settled (by rw [hf]; trivial)
      split_ifs at hstep
      · cases hstep
        exact h
      · cases hstep
        exact h.drain (by rw [hf]; rfl) hs
    · next hf =>
      cases hstep
      exact h.drain (by rw [hf]; rfl) (h.settled (by rw [hf]; trivial))
    · next batch hf =>
      cases hstep
      have hs : s.Settled := h.settled (by rw [hf]; trivial)
      have htask := hs.taskBatch_eq_nil
      have horder := h.order
      simp only [htask, hf, FlushPhase.batch, append_nil] at horder
      refine ⟨?_, by simp [FlushPhase.Draining], by simp, by simp⟩
      change s.puts = s.store ++ s.taskBatch ++ [] ++ (batch ++ s.buffer)
      rw [htask, append_nil, append_nil, ← append_assoc, horder]
    · cases hstep

namespace JournalBuffer

def finishing : List (FlushAct ε) :=
  [.taskStores true, .taskResumes, .flush false, .flushStores true, .flushResumes false]

def Returns (k : ℕ) (s : JournalBuffer ε) (events : List ε) : Prop :=
  ∃ bs s', (∀ b ∈ bs, b ∈ finishing) ∧ (journalBuffer ε k).run bs s = some s'
    ∧ s'.flush = .returned ∧ s'.store = events

theorem Returns.cons {s t : JournalBuffer ε} {a : FlushAct ε} {events : List ε}
    (h : t.Returns k events) (ha : a ∈ finishing) (hstep : (journalBuffer ε k).step s a = some t) :
    s.Returns k events := by
  obtain ⟨bs, s', hbs, hrun, hs'⟩ := h
  refine ⟨a :: bs, s', ?_, ?_, hs'⟩
  · intro b hb
    rcases mem_cons.1 hb with rfl | hb
    · exact ha
    · exact hbs b hb
  · rw [run_cons, hstep]
    exact hrun

theorem drain_returns_nil {s : JournalBuffer ε} (hb : s.buffer = []) :
    (s.drain k).Returns k (s.store ++ s.buffer) :=
  ⟨[], s.drain k, by simp, rfl, by simp [drain, hb], by simp [drain, hb]⟩

theorem drain_returns {n : ℕ} {s : JournalBuffer ε} (hn : s.buffer.length ≤ n)
    (hk : 0 < k) : (s.drain k).Returns k (s.store ++ s.buffer) := by
  induction n generalizing s with
  | zero => exact drain_returns_nil (eq_nil_of_length_eq_zero (by omega))
  | succ n ih =>
    by_cases hb : s.buffer = []
    · exact drain_returns_nil hb
    · have hpos : 0 < s.buffer.length := length_pos_iff.2 hb
      -- one round: the batch is stored and the loop is at its head again
      let t : JournalBuffer ε := { s with
        flush := .stored
        store := s.store ++ s.buffer.take k
        buffer := s.buffer.drop k }
      have ht : t.buffer.length ≤ n := by
        simp only [t, length_drop]
        omega
      have hd : (s.drain k) = { s with
          flush := .writing (s.buffer.take k)
          buffer := s.buffer.drop k } := by
        simp [drain, hb]
      have hall : t.store ++ t.buffer = s.store ++ s.buffer := by
        simp only [t, append_assoc, take_append_drop]
      have hrest := ih ht
      rw [hall] at hrest
      have hloop : t.Returns k (s.store ++ s.buffer) :=
        hrest.cons (a := .flushResumes false) (by simp [finishing]) rfl
      rw [hd]
      exact hloop.cons (a := .flushStores true) (by simp [finishing]) rfl

variable {s : JournalBuffer ε}

theorem Ordered.drain_returns (h : s.Ordered) (hk : 0 < k)
    (hb : s.flush.batch = []) (hs : s.Settled) : (s.drain k).Returns k s.puts := by
  have horder := h.order
  rw [hs.taskBatch_eq_nil, hb, append_nil, append_nil] at horder
  rw [horder]
  exact JournalBuffer.drain_returns (Nat.le_refl _) hk

theorem Ordered.waiting_returns (h : s.Ordered) (hk : 0 < k)
    (hf : s.flush = .waiting) : s.Returns k s.puts := by
  have hd := h.drain_returns hk (by rw [hf]; rfl) (h.settled (by rw [hf]; trivial))
  exact hd.cons (a := .flushResumes false) (by simp [finishing]) (by simp [journalBuffer, hf])

theorem Ordered.gathering_returns (h : s.Ordered) (hk : 0 < k)
    (hf : s.flush = .gathering) : s.Returns k s.puts := by
  -- once the task's `put_batch` is over, the task ends and wakes `flush()`
  have hresume : ∀ {t u : JournalBuffer ε}, t.Ordered → t.flush = .gathering →
      t.puts = s.puts → u.flush = .waiting → u.puts = t.puts →
      (journalBuffer ε k).step t .taskResumes = some u → t.Returns k s.puts := by
    intro t u ht _ htp huf hup hstep
    have hu : u.Ordered := ht.step hstep trivial
    have hw := hu.waiting_returns hk huf
    rw [hup, htp] at hw
    exact hw.cons (by simp [finishing]) hstep
  have hwake : FlushPhase.wake s.flush = .waiting := by rw [hf]; rfl
  have hns := h.gathering hf
  cases hp : s.pending with
  | none => exact absurd (.inl hp) hns
  | some task =>
    cases task with
    | ended => exact absurd (.inr hp) hns
    | stored =>
      exact hresume (u := s.taskOver) h hf rfl hwake rfl (by simp [journalBuffer, hp])
    | failed batch =>
      exact hresume (u := { s with buffer := batch ++ s.buffer }.taskOver) h hf rfl hwake rfl
        (by simp [journalBuffer, hp])
    | writing batch =>
      have hstep : (journalBuffer ε k).step s (.taskStores true)
          = some { s with pending := some .stored, store := s.store ++ batch } := by
        simp [journalBuffer, hp]
      have ht := h.step hstep trivial
      exact (hresume (u := JournalBuffer.taskOver { s with pending := some .stored, store := s.store ++ batch })
        ht hf rfl hwake rfl rfl).cons (by simp [finishing]) hstep

theorem Ordered.flush_returns (h : s.Ordered) (hk : 0 < k)
    (hf : s.flush ≠ .raised) (hf' : ∀ batch, s.flush ≠ .failed batch) : s.Returns k s.puts := by
  cases hphase : s.flush with
  | raised => exact absurd hphase hf
  | failed batch => exact absurd hphase (hf' batch)
  | waiting => exact h.waiting_returns hk hphase
  | gathering => exact h.gathering_returns hk hphase
  | returned =>
    have horder := h.order
    rw [(h.settled (by rw [hphase]; trivial)).taskBatch_eq_nil, h.returned hphase, hphase] at horder
    exact ⟨[], s, by simp, rfl, hphase, by simpa [FlushPhase.batch] using horder.symm⟩
  | stored =>
    have hd := h.drain_returns hk (by rw [hphase]; rfl) (h.settled (by rw [hphase]; trivial))
    exact hd.cons (a := .flushResumes false) (by simp [finishing]) (by simp [journalBuffer, hphase])
  | writing batch =>
    have hstep : (journalBuffer ε k).step s (.flushStores true)
        = some { s with flush := .stored, store := s.store ++ batch } := by
      simp [journalBuffer, hphase]
    have ht := h.step hstep trivial
    have hd := ht.drain_returns hk rfl (ht.settled trivial)
    exact (hd.cons (a := .flushResumes false) (by simp [finishing]) rfl).cons (by simp [finishing])
      hstep
  | idle =>
    cases hp : s.pending with
    | none =>
      have hd := h.drain_returns hk (by rw [hphase]; rfl) (.inl hp)
      exact hd.cons (a := .flush false) (by simp [finishing]) (by simp [journalBuffer, hphase, hp])
    | some task =>
      have hcall : ∀ phase : FlushPhase ε,
          (journalBuffer ε k).step s (.flush false) = some { s with flush := phase } →
          phase = .waiting ∨ phase = .gathering → s.Returns k s.puts := by
        intro phase hstep hphase'
        have ht : ({ s with flush := phase } : JournalBuffer ε).Ordered := h.step hstep trivial
        rcases hphase' with rfl | rfl
        · exact (ht.waiting_returns hk rfl).cons (by simp [finishing]) hstep
        · exact (ht.gathering_returns hk rfl).cons (by simp [finishing]) hstep
      cases task with
      | ended => exact hcall .waiting (by simp [journalBuffer, hphase, hp]) (.inl rfl)
      | stored
      | failed batch
      | writing batch => exact hcall .gathering (by simp [journalBuffer, hphase, hp]) (.inr rfl)

theorem ordered_fresh : ({} : JournalBuffer ε).Ordered :=
  ⟨rfl, fun h => absurd h id, (by simp), by simp⟩

end JournalBuffer

/-- The event a `_put` is given. -/
def FlushAct.event? : FlushAct ε → Option ε
  | .put e _ => some e
  | _ => none

theorem JournalBuffer.flushSync_puts (s : JournalBuffer ε) (loop : Bool) :
    (s.flushSync loop).puts = s.puts := by
  unfold JournalBuffer.flushSync
  split_ifs <;> rfl

theorem JournalBuffer.drain_puts (s : JournalBuffer ε) : (s.drain k).puts = s.puts := by
  unfold JournalBuffer.drain
  split_ifs <;> rfl

theorem step_puts {s s' : JournalBuffer ε} {a : FlushAct ε}
    (hstep : (journalBuffer ε k).step s a = some s') : s'.puts = s.puts ++ a.event?.toList := by
  cases a with
  | put e loop =>
    cases hstep
    unfold JournalBuffer.put
    dsimp only
    split_ifs
    · exact JournalBuffer.flushSync_puts _ loop
    · rfl
  | flushSync loop =>
    cases hstep
    simpa [event?] using s.flushSync_puts loop
  | _ =>
    simp only [journalBuffer] at hstep
    repeat' split at hstep
    all_goals cases hstep
    all_goals simp [event?, JournalBuffer.drain_puts, JournalBuffer.taskOver]

theorem run_puts {as : List (FlushAct ε)} {s : JournalBuffer ε}
    (hrun : (journalBuffer ε k).run as {} = some s) : s.puts = as.filterMap event? := by
  refine run_trace_inv (I := fun as s => s.puts = as.filterMap event?)
    (fun as s a s' _ h _ hstep => ?_) rfl (along_true _ _) hrun
  rw [step_puts hstep, h, filterMap_append]
  cases ha : a.event? <;> simp [ha]

/-- Where no background task starts while `flush()` drains the buffer, the store holds the events
put so far up to some point, and all of them when `flush()` returns, as it does if its `put_batch`
calls succeed. -/
theorem journal_stores_in_put_order {as : List (FlushAct ε)} {s : JournalBuffer ε}
    (hok : (journalBuffer ε k).Along (fun s a => a.Apart k s) as {})
    (hrun : (journalBuffer ε k).run as {} = some s) :
    s.store <+: as.filterMap event?
    ∧ (s.flush = .returned → s.store = as.filterMap event?)
    ∧ (0 < k → s.flush ≠ .raised → (∀ batch, s.flush ≠ .failed batch) →
        s.Returns k (as.filterMap event?)) := by
  have h : s.Ordered := run_inv (fun s a s' h ha hstep => h.step hstep ha)
    JournalBuffer.ordered_fresh hok hrun
  rw [← run_puts hrun]
  refine ⟨?_, fun hr => ?_, fun hk hf hf' => h.flush_returns hk hf hf'⟩
  · rw [h.order, append_assoc, append_assoc]
    exact prefix_append _ _
  · have horder := h.order
    rw [(h.settled (by rw [hr]; trivial)).taskBatch_eq_nil, h.returned hr, hr] at horder
    simpa [FlushPhase.batch] using horder.symm

/-- A task that fails, events that come meanwhile and during `flush()`: all are stored in order. -/
theorem failed_batch_keeps_order :
    let as : List (FlushAct ℕ) :=
      [.put 1 true, .put 2 true, .put 3 true, .taskStores false, .put 4 true, .taskResumes,
        .onFlushDone, .flush false, .flushStores true, .put 5 false, .flushResumes false,
        .flushStores true, .flushResumes false, .flushStores true, .flushResumes false]
    ∃ s, (journalBuffer ℕ 2).run as {} = some s ∧ s.flush = .returned ∧ s.store = [1, 2, 3, 4, 5] := by
  intro as
  let s : JournalBuffer ℕ :=
    { flush := .returned, store := [1, 2, 3, 4, 5], puts := [1, 2, 3, 4, 5] }
  have hrun : (journalBuffer ℕ 2).run as {} = some s := rfl
  exact ⟨s, hrun, rfl, (journal_stores_in_put_order (by decide) hrun).2.1 rfl⟩

/-- The root chain ends while `flush()` writes: the last event overtakes the one before it. -/
theorem late_flush_overtakes :
    let as : List (FlushAct ℕ) :=
      [.put 1 true, .flush false, .put 2 true, .flushSync true, .taskStores true, .flushStores true,
        .flushResumes false]
    ∃ s, (journalBuffer ℕ 20).run as {} = some s ∧ s.flush = .returned ∧ s.store = [2, 1] :=
  ⟨{ pending := some .stored, flush := .returned, store := [2, 1], puts := [1, 2] }, rfl, rfl, rfl⟩

namespace JournalBuffer

/-- The events in the store, on their way to it and in the buffer. -/
def held (s : JournalBuffer ε) : List ε := s.store ++ s.taskBatch ++ s.flush.batch ++ s.buffer

variable {s s' : JournalBuffer ε} {a : FlushAct ε} (p : ε → Bool)

theorem held_drain : (s.drain k).held = s.store ++ s.taskBatch ++ s.buffer := by
  unfold drain
  split_ifs <;> simp [held, taskBatch, FlushPhase.batch]

theorem held_taskOver : s.taskOver.held = s.store ++ s.flush.batch ++ s.buffer := by
  simp [held, taskBatch, taskOver, FlushTask.batch]

theorem countP_held_flushSync (loop : Bool) :
    (s.flushSync loop).held.countP p = s.held.countP p := by
  by_cases h : s.Starts loop
  · rw [flushSync_of_starts h]
    simp only [held, taskBatch, h.2.1, map_some, map_none, getD_some, getD_none, FlushTask.batch,
      countP_append, countP_nil]
    omega
  · rw [flushSync_of_not_starts h]

theorem countP_held_step (ha : a ≠ .taskCancelled)
    (hstep : (journalBuffer ε k).step s a = some s') :
    s'.held.countP p = s.held.countP p + a.event?.toList.countP p := by
  cases a with
  | put e loop =>
    cases hstep
    have happ : (s.append e).held.countP p = s.held.countP p + [e].countP p := by
      simp [JournalBuffer.append, held, taskBatch, Nat.add_assoc]
    unfold JournalBuffer.put
    dsimp only
    split_ifs
    · exact (countP_held_flushSync p loop).trans happ
    · exact happ
  | flushSync loop =>
    cases hstep
    exact countP_held_flushSync p loop
  | taskCancelled => exact absurd rfl ha
  | _ =>
    simp only [journalBuffer] at hstep
    split at hstep <;> (try split at hstep) <;> (try split at hstep) <;> cases hstep
    all_goals
      try rw [held_drain]
      try rw [held_taskOver]
      simp [held, taskBatch, FlushTask.batch, FlushPhase.batch, event?, *]
      try omega

end JournalBuffer

/-- In every interleaving in which no background task is cancelled, each event is as often in the
store, on its way to it or in the buffer as it was put. -/
theorem journal_conserves_events {as : List (FlushAct ε)} {s : JournalBuffer ε}
    (hc : .taskCancelled ∉ as) (hrun : (journalBuffer ε k).run as {} = some s) :
    s.held.Perm (as.filterMap event?) := by
  classical
  have hok : (journalBuffer ε k).Along (fun _ a => a ≠ .taskCancelled) as {} :=
    along_of_forall (fun _ ha => ne_of_mem_of_not_mem ha hc) _
  refine perm_iff_count.2 fun e => ?_
  refine run_trace_inv
    (I := fun as s => s.held.count e = (as.filterMap event?).count e)
    (fun as s a s' _ h ha hstep => ?_) rfl hok hrun
  rw [filterMap_append, count_append, ← h]
  refine (JournalBuffer.countP_held_step _ ha hstep).trans ?_
  cases he : a.event? <;> simp [he, count]

theorem failed_batch_is_kept :
    let as : List (FlushAct ℕ) := [.put 1 true, .put 2 true, .taskStores false, .taskResumes,
      .onFlushDone, .put 3 true, .taskStores true]
    ∃ s, (journalBuffer ℕ 1).run as {} = some s ∧ s.held.Perm [1, 2, 3] := by
  intro as
  have hrun : (journalBuffer ℕ 1).run as {} =
      some { pending := some .stored, store := [1, 2, 3], puts := [1, 2, 3] } := rfl
  exact ⟨_, hrun, journal_conserves_events (by decide) hrun⟩

end DeerFlow

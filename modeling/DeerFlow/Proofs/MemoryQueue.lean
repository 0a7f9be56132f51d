import DeerFlow.Data.Slots
import DeerFlow.Memory.Queue

/-!
# No conversation is lost in the memory queue

The contexts in the queue, those a pass has taken and those handed to the updater stand for every
conversation that was accepted: a step moves contexts among the three or queues a new one in the
place of those it replaces.
-/

namespace DeerFlow

open List Option Slots

variable {μ : Type}

/-- The context is for the thread, user and agent of `a` and has at least its flags. -/
structure ConversationContext.Covers (c : ConversationContext μ) (a : Conversation μ) : Prop where
  key : c.queueKey = a.queueKey
  correction : a.correctionDetected = true → c.correctionDetected = true
  reinforcement : a.reinforcementDetected = true → c.reinforcementDetected = true

namespace PassPhase

def taken : PassPhase μ → List (ConversationContext μ)
  | .updating contexts => contexts
  | .armed _ | .entering | .done => []

def isActive : PassPhase μ → Bool
  | .updating _ => true
  | .armed _ | .entering | .done => false

def wakes : PassPhase μ → Bool
  | .armed _ | .entering => true
  | .updating _ | .done => false

end PassPhase

namespace MemoryQueue

def taken (s : MemoryQueue μ) : List (ConversationContext μ) := s.threads.flatMap PassPhase.taken

def held (s : MemoryQueue μ) : List (ConversationContext μ) := s.queue ++ s.taken ++ s.passed

def activePasses (s : MemoryQueue μ) : ℕ := s.threads.countP PassPhase.isActive

def Woken (s : MemoryQueue μ) : Prop := ∃ x ∈ s.threads, x.wakes = true

def Waits (s : MemoryQueue μ) (n : ℕ) (a : Conversation μ) : Prop :=
  (∃ c ∈ s.queue ++ s.taken, c.seq = n ∧ c.messages = a.messages ∧ c.Covers a)
    ∧ n ∉ s.passed.map (·.seq)

def PassedOnce (s : MemoryQueue μ) (n : ℕ) (a : Conversation μ) : Prop :=
  (∃ c ∈ s.passed, c.seq = n ∧ c.messages = a.messages ∧ c.Covers a)
    ∧ (s.passed.map (·.seq)).count n = 1 ∧ n ∉ (s.queue ++ s.taken).map (·.seq)

def Replaced (s : MemoryQueue μ) (n : ℕ) (a : Conversation μ) : Prop :=
  n ∉ s.held.map (·.seq) ∧ ∃ c ∈ s.held, n < c.seq ∧ c.Covers a

structure Inv (s : MemoryQueue μ) : Prop where
  seqs : (s.held.map (·.seq)).Nodup
  keys : (s.queue.map (·.queueKey)).Nodup
  stands : ∀ c ∈ s.held, ∃ a, s.accepted[c.seq]? = some a ∧ c.messages = a.messages ∧ c.Covers a
  covered : ∀ n a, s.accepted[n]? = some a → ∃ c ∈ s.held, n ≤ c.seq ∧ c.Covers a
  single : s.activePasses = if s.processing then 1 else 0
  woken : s.queue ≠ [] → s.Woken

structure Rearmed (s s' : MemoryQueue μ) : Prop where
  queue : s'.queue = s.queue
  taken : s'.taken = s.taken
  passed : s'.passed = s.passed
  accepted : s'.accepted = s.accepted
  processing : s'.processing = s.processing
  active : s'.activePasses = s.activePasses

variable {s s' : MemoryQueue μ} {i : ℕ}

theorem Rearmed.held (h : s.Rearmed s') : s'.held = s.held := by
  unfold MemoryQueue.held
  rw [h.queue, h.taken, h.passed]

section Threads

variable {x : PassPhase μ}

theorem taken_setThread {x phase : PassPhase μ} (h : s.threads[i]? = some x)
    (ht : phase.taken = x.taken) : (s.setThread i phase).taken = s.taken :=
  flatMap_set h ht

theorem perm_taken_setThread (phase : PassPhase μ) (h : s.threads[i]? = some x) :
    ((s.setThread i phase).taken ++ x.taken).Perm (s.taken ++ phase.taken) :=
  perm_flatMap_set h

theorem active_setThread (phase : PassPhase μ) (h : s.threads[i]? = some x) :
    (s.setThread i phase).activePasses + (if x.isActive then 1 else 0)
      = s.activePasses + if phase.isActive then 1 else 0 :=
  countP_set h

theorem rearmed_cancelTimer (i : ℕ) : s.Rearmed (s.cancelTimer i) := by
  unfold cancelTimer
  split
  · next d h =>
    refine ⟨rfl, taken_setThread h rfl, rfl, rfl, rfl, ?_⟩
    simpa [PassPhase.isActive] using active_setThread .done h
  · exact ⟨rfl, rfl, rfl, rfl, rfl, rfl⟩

theorem length_cancelCurrent : s.cancelCurrent.threads.length = s.threads.length := by
  unfold cancelCurrent
  cases s.timer with
  | none => rfl
  | some i =>
    simp only [Option.elim, cancelTimer]
    split <;> simp [setThread]

theorem getElem?_cancelCurrent (h : s.threads[i]? = some x)
    (hx : ∀ d, x ≠ .armed d) : s.cancelCurrent.threads[i]? = some x := by
  unfold cancelCurrent
  cases s.timer with
  | none => exact h
  | some j =>
    simp only [Option.elim, cancelTimer]
    split
    · next d hj =>
      have hij : j ≠ i := by
        rintro rfl
        rw [h] at hj
        exact hx d (some.inj hj)
      simpa [setThread, getElem?_set, hij] using h
    · exact h

theorem getElem?_scheduleTimer {d : ℕ} (h : s.threads[i]? = some x)
    (hx : ∀ d, x ≠ .armed d) : (s.scheduleTimer d).threads[i]? = some x := by
  have h' := getElem?_cancelCurrent h hx
  exact (getElem?_append_left (lt_of_getElem? h')).trans h'

theorem getElem?_scheduleTimer_length (d : ℕ) :
    (s.scheduleTimer d).threads[s.threads.length]? = some (.armed d) := by
  rw [← length_cancelCurrent]
  simp [scheduleTimer, spawn]

theorem rearmed_cancelCurrent : s.Rearmed s.cancelCurrent := by
  unfold cancelCurrent
  cases s.timer with
  | none => exact ⟨rfl, rfl, rfl, rfl, rfl, rfl⟩
  | some i => exact rearmed_cancelTimer i

theorem Rearmed.spawn (h : s.Rearmed s') (phase : PassPhase μ) (ht : phase.taken = []) (ha : phase.isActive = false) :
    s.Rearmed (s'.spawn phase) where
  queue := h.queue
  taken := by
    rw [← h.taken]
    simp [MemoryQueue.taken, MemoryQueue.spawn, ht]
  passed := h.passed
  accepted := h.accepted
  processing := h.processing
  active := by
    rw [← h.active]
    simp [activePasses, MemoryQueue.spawn, ha]

theorem rearmed_scheduleTimer (d : ℕ) : s.Rearmed (s.scheduleTimer d) := by
  have h := (rearmed_cancelCurrent (s := s)).spawn (.armed d) rfl rfl
  exact ⟨h.queue, h.taken, h.passed, h.accepted, h.processing, h.active⟩

theorem woken_scheduleTimer (d : ℕ) : (s.scheduleTimer d).Woken :=
  ⟨.armed d, mem_append_right _ (mem_singleton.2 rfl), rfl⟩

theorem rearmed_flush : s.Rearmed s.flush := by
  have h := (rearmed_cancelCurrent (s := s)).spawn .entering rfl rfl
  exact ⟨h.queue, h.taken, h.passed, h.accepted, h.processing, h.active⟩

theorem woken_flush : s.flush.Woken := ⟨.entering, mem_append_right _ (mem_singleton.2 rfl), rfl⟩

end Threads

theorem Inv.of_perm (h : s.Inv) (hheld : s'.held.Perm s.held) (hacc : s'.accepted = s.accepted)
    (hkeys : (s'.queue.map (·.queueKey)).Nodup)
    (hsingle : s'.activePasses = if s'.processing then 1 else 0)
    (hwoken : s'.queue ≠ [] → s'.Woken) : s'.Inv where
  seqs := (hheld.map _).nodup_iff.2 h.seqs
  keys := hkeys
  stands := fun c hc => by
    rw [hacc]
    exact h.stands c (hheld.mem_iff.1 hc)
  covered := fun n a hn => by
    rw [hacc] at hn
    obtain ⟨c, hc, hle, hcov⟩ := h.covered n a hn
    exact ⟨c, hheld.mem_iff.2 hc, hle, hcov⟩
  single := hsingle
  woken := hwoken

theorem Inv.rearmed (h : s.Inv) (hr : s.Rearmed s') (hwoken : s'.queue ≠ [] → s'.Woken) : s'.Inv :=
  h.of_perm (hr.held ▸ .refl _) hr.accepted (hr.queue ▸ h.keys)
    (by rw [hr.active, hr.processing, h.single]) hwoken

section Enqueue

variable {x : ConversationContext μ}

theorem key_merged (c : Conversation μ) : (s.merged c).queueKey = c.queueKey := rfl

theorem merged_covers_self (c : Conversation μ) : (s.merged c).Covers c where
  key := rfl
  correction := fun h => by simp [merged, h]
  reinforcement := fun h => by simp [merged, h]

theorem merged_covers (h : s.Inv) {c a : Conversation μ}
    (hx : x ∈ s.queue) (hkey : x.queueKey = c.queueKey) (hcov : x.Covers a) :
    (s.merged c).Covers a := by
  have hex : s.existing c = some x := by
    have hsome : (s.existing c).isSome := by
      rw [existing, find?_isSome]
      exact ⟨x, hx, by simpa using hkey⟩
    obtain ⟨y, hy⟩ := isSome_iff_exists.1 hsome
    have hymem : y ∈ s.queue := mem_of_find?_eq_some hy
    have hykey : y.queueKey = c.queueKey := by simpa using find?_some hy
    rw [hy, inj_on_of_nodup_map h.keys hymem hx (hykey.trans hkey.symm)]
  refine ⟨hkey.symm.trans hcov.key, fun ha => ?_, fun ha => ?_⟩
  · simp [merged, hex, hcov.correction ha]
  · simp [merged, hex, hcov.reinforcement ha]

theorem mem_held : x ∈ s.held ↔ x ∈ s.queue ∨ x ∈ s.taken ∨ x ∈ s.passed := by
  simp [held]

theorem Inv.seq_lt (h : s.Inv) (hx : x ∈ s.held) : x.seq < s.accepted.length := by
  obtain ⟨a, ha, -⟩ := h.stands x hx
  exact lt_of_getElem? ha

theorem held_enqueueLocked (c : Conversation μ) : (s.enqueueLocked c).held.Perm
      (s.merged c :: (s.queue.filter (fun x => x.queueKey ≠ c.queueKey) ++ s.taken ++ s.passed)) := by
  have hheld : (s.enqueueLocked c).held
      = s.queue.filter (fun x => x.queueKey ≠ c.queueKey) ++ s.merged c :: (s.taken ++ s.passed) := by
    simp [held, enqueueLocked, taken]
  rw [hheld, append_assoc]
  exact perm_middle

theorem held_filter_sublist (c : Conversation μ) :
    (s.queue.filter (fun x => x.queueKey ≠ c.queueKey) ++ s.taken ++ s.passed).Sublist s.held :=
  (filter_sublist.append (.refl _)).append (.refl _)

theorem mem_held_enqueueLocked {c : Conversation μ}
    (hx : x ∈ (s.enqueueLocked c).held) : x = s.merged c ∨ x ∈ s.held := by
  rcases mem_cons.1 ((held_enqueueLocked c).mem_iff.1 hx) with h | h
  · exact .inl h
  · exact .inr ((held_filter_sublist c).subset h)

theorem mem_held_of_mem {c : Conversation μ} (hx : x ∈ s.held) :
    x ∈ (s.enqueueLocked c).held ∨ x ∈ s.queue ∧ x.queueKey = c.queueKey := by
  by_cases hkey : x ∈ s.queue ∧ x.queueKey = c.queueKey
  · exact .inr hkey
  · refine .inl ((held_enqueueLocked c).mem_iff.2 (mem_cons_of_mem _ ?_))
    rcases mem_held.1 hx with hq | ht | hp
    · have hne : x.queueKey ≠ c.queueKey := fun hk => hkey ⟨hq, hk⟩
      simp [hq, hne]
    · simp [ht]
    · simp [hp]

theorem Inv.enqueueLocked (h : s.Inv) (c : Conversation μ) (hwoken : s'.Woken)
    (hr : (s.enqueueLocked c).Rearmed s') : s'.Inv := by
  have hacc : s'.accepted = s.accepted ++ [c] := hr.accepted
  refine ⟨?_, ?_, fun x hx => ?_, fun n a hn => ?_, ?_, fun _ => hwoken⟩
  · rw [hr.held, ((held_enqueueLocked c).map _).nodup_iff, map_cons, nodup_cons]
    refine ⟨fun hmem => ?_, ((held_filter_sublist c).map _).nodup h.seqs⟩
    obtain ⟨x, hx, hseq⟩ := mem_map.1 hmem
    have hlt := h.seq_lt ((held_filter_sublist c).subset hx)
    simp only [merged] at hseq
    omega
  · rw [hr.queue]
    simp only [MemoryQueue.enqueueLocked, map_append, map_cons, map_nil]
    refine nodup_append.2 ⟨(filter_sublist.map _).nodup h.keys, by simp, ?_⟩
    rintro k hk _ hk' rfl
    obtain ⟨x, hx, hxk⟩ := mem_map.1 hk
    rw [mem_singleton.1 hk', key_merged] at hxk
    simp [hxk] at hx
  · rw [hr.held] at hx
    rcases mem_held_enqueueLocked hx with rfl | hx
    · refine ⟨c, ?_, rfl, merged_covers_self c⟩
      rw [hacc]
      simp [merged]
    · obtain ⟨a, ha, hm, hcov⟩ := h.stands x hx
      refine ⟨a, ?_, hm, hcov⟩
      rw [hacc, getElem?_append_left (lt_of_getElem? ha)]
      exact ha
  · have hnew : s.merged c ∈ s'.held := by
      rw [hr.held]
      exact (held_enqueueLocked c).mem_iff.2 (mem_cons_self ..)
    rw [hacc] at hn
    rcases getElem?_concat_cases hn with hn | ⟨rfl, heq⟩
    · obtain ⟨x, hx, hle, hcov⟩ := h.covered n a hn
      rcases mem_held_of_mem (c := c) hx with hx' | ⟨hq, hkey⟩
      · exact ⟨x, hr.held ▸ hx', hle, hcov⟩
      · exact ⟨s.merged c, hnew, Nat.le_of_lt (lt_of_getElem? hn),
          merged_covers h hq hkey hcov⟩
    · rw [heq]
      exact ⟨s.merged c, hnew, Nat.le_refl _, merged_covers_self c⟩
  · rw [hr.active, hr.processing]
    exact h.single

end Enqueue

section Passes

variable (h : s.Inv)
include h

theorem Inv.fire {d : ℕ} (hi : s.threads[i]? = some (.armed d)) : (s.setThread i .entering).Inv := by
  have htaken : (s.setThread i .entering).taken = s.taken := taken_setThread hi rfl
  have hheld : (s.setThread i .entering).held = s.held := by
    simp only [held, htaken]
    rfl
  have hcount := active_setThread .entering hi
  exact h.of_perm (hheld ▸ .refl _) rfl h.keys (hcount.trans h.single)
    fun _ => ⟨.entering, mem_set hi, rfl⟩

theorem Inv.finish (hi : s.threads[i]? = some .entering)
    (hwoken : s.queue ≠ [] → (s.setThread i .done).Woken) : (s.setThread i .done).Inv := by
  have htaken : (s.setThread i .done).taken = s.taken := taken_setThread hi rfl
  have hheld : (s.setThread i .done).held = s.held := by
    simp only [held, htaken]
    rfl
  have hcount := active_setThread .done hi
  exact h.of_perm (hheld ▸ .refl _) rfl h.keys (hcount.trans h.single) hwoken

theorem Inv.take (hi : s.threads[i]? = some .entering) (hp : s.processing = false) :
    Inv { s.setThread i (.updating s.queue) with queue := [], timer := none, processing := true } := by
  refine h.of_perm ?_ rfl nodup_nil ?_ fun hq => absurd rfl hq
  · have htaken := perm_taken_setThread (.updating s.queue) hi
    simp only [PassPhase.taken, append_nil] at htaken
    exact (htaken.trans perm_append_comm).append_right _
  · have hcount := active_setThread (.updating s.queue) hi
    rw [h.single, hp] at hcount
    exact hcount

/-- A pass that finds another one active arms a timer; one that finds the queue empty ends; else
it takes the queue. -/
theorem Inv.enter (hi : s.threads[i]? = some .entering) : (s.enter i).Inv := by
  unfold MemoryQueue.enter
  split_ifs with hp hq
  · refine (h.rearmed (rearmed_scheduleTimer 0) fun _ => woken_scheduleTimer 0).finish
      (getElem?_scheduleTimer hi nofun) fun _ => ?_
    have hne : s.threads.length ≠ i := Nat.ne_of_gt (lt_of_getElem? hi)
    exact ⟨.armed 0, mem_set_of_ne hne (getElem?_scheduleTimer_length 0), rfl⟩
  · exact h.finish hi fun hne => absurd hq hne
  · exact h.take hi (by simpa using hp)

theorem Inv.pass {c : ConversationContext μ} {rest : List (ConversationContext μ)}
    (hi : s.threads[i]? = some (.updating (c :: rest))) : (s.pass i c rest).Inv := by
  refine h.of_perm ?_ rfl h.keys ?_ fun hq => exists_set hi (h.woken hq) nofun
  · have htaken : ((s.setThread i (.updating rest)).taken ++ [c]).Perm s.taken := by
      have h' := perm_taken_setThread (.updating rest) hi
      rw [PassPhase.taken, PassPhase.taken, ← singleton_append, ← append_assoc] at h'
      exact (perm_append_right_iff _).1 h'
    calc (s.queue ++ (s.setThread i (.updating rest)).taken ++ (s.passed ++ [c])).Perm
          (s.queue ++ (s.setThread i (.updating rest)).taken ++ ([c] ++ s.passed)) :=
        perm_append_comm.append_left _
      _ = s.queue ++ ((s.setThread i (.updating rest)).taken ++ [c]) ++ s.passed := by simp
      _ |>.Perm (s.queue ++ s.taken ++ s.passed) := (htaken.append_left _).append_right _
  · have hcount := active_setThread (.updating rest) hi
    exact (Nat.add_right_cancel hcount).trans h.single

theorem Inv.leave (hi : s.threads[i]? = some (.updating [])) : (s.leave i).Inv := by
  refine h.of_perm ?_ rfl h.keys ?_ fun hq => exists_set hi (h.woken hq) nofun
  · have htaken : (s.setThread i .done).taken = s.taken := taken_setThread hi rfl
    change (s.queue ++ (s.setThread i .done).taken ++ s.passed).Perm s.held
    rw [htaken]
    exact .refl _
  · have hcount := active_setThread .done hi
    have hle : s.activePasses ≤ 1 := by
      rw [h.single]
      split <;> omega
    simp only [PassPhase.isActive, if_true, Bool.false_eq_true, if_false] at hcount
    change (s.setThread i .done).activePasses = 0
    omega

theorem Inv.stepThread {x : PassPhase μ} (hi : s.threads[i]? = some x)
    (hs : s.stepThread i x = some s') : s'.Inv := by
  cases x with
  | armed d =>
    cases hs
    exact h.fire hi
  | entering =>
    cases hs
    exact h.enter hi
  | updating contexts =>
    cases contexts with
    | nil =>
      cases hs
      exact h.leave hi
    | cons c rest =>
      cases hs
      exact h.pass hi
  | done => cases hs

theorem Inv.step {a : QueueAct μ} (hs : (memoryQueue μ).step s a = some s') : s'.Inv := by
  cases a with
  | add config c =>
    cases hs
    unfold MemoryQueue.add
    split
    · exact h.enqueueLocked c (woken_scheduleTimer _) (rearmed_scheduleTimer _)
    · exact h
  | addNowait config c =>
    cases hs
    unfold MemoryQueue.addNowait
    split
    · exact h.enqueueLocked c (woken_scheduleTimer _) (rearmed_scheduleTimer _)
    · exact h
  | flush =>
    cases hs
    exact h.rearmed rearmed_flush fun _ => woken_flush
  | flushNowait =>
    cases hs
    exact h.rearmed (rearmed_scheduleTimer 0) fun _ => woken_scheduleTimer 0
  | thread i =>
    obtain ⟨x, hi, hx⟩ := bind_eq_some_iff.1 hs
    exact h.stepThread hi hx

end Passes

theorem inv_fresh : ({} : MemoryQueue μ).Inv where
  seqs := nodup_nil
  keys := nodup_nil
  stands := nofun
  covered := nofun
  single := rfl
  woken := fun h => absurd rfl h

theorem inv_of_run {as : List (QueueAct μ)} (h : (memoryQueue μ).run as {} = some s) : s.Inv :=
  Machine.run_inv (fun _ _ _ hI _ hs => hI.step hs) inv_fresh (Machine.along_true as _) h

theorem Inv.fates (h : s.Inv) {n : ℕ} {a : Conversation μ} (ha : s.accepted[n]? = some a) :
    s.Waits n a ∨ s.PassedOnce n a ∨ s.Replaced n a := by
  have hsplit : ((s.queue ++ s.taken).map (·.seq) ++ s.passed.map (·.seq)).Nodup := by
    rw [← map_append]
    exact h.seqs
  obtain ⟨-, hpassed, hdisj⟩ := nodup_append.1 hsplit
  by_cases hn : n ∈ s.held.map (·.seq)
  · obtain ⟨c, hc, hseq⟩ := mem_map.1 hn
    obtain ⟨a', ha', hm, hcov⟩ := h.stands c hc
    rw [hseq, ha] at ha'
    cases ha'
    rcases mem_append.1 hc with hwait | hpass
    · refine .inl ⟨⟨c, hwait, hseq, hm, hcov⟩, fun hmem => ?_⟩
      exact hdisj n (mem_map.2 ⟨c, hwait, hseq⟩) n hmem rfl
    · have hmem : n ∈ s.passed.map (·.seq) := mem_map.2 ⟨c, hpass, hseq⟩
      refine .inr (.inl ⟨⟨c, hpass, hseq, hm, hcov⟩, count_eq_one_of_mem hpassed hmem, ?_⟩)
      exact fun hwait => hdisj n hwait n hmem rfl
  · obtain ⟨c, hc, hle, hcov⟩ := h.covered n a ha
    refine .inr (.inr ⟨hn, c, hc, Nat.lt_of_le_of_ne hle fun hseq => hn ?_, hcov⟩)
    exact mem_map.2 ⟨c, hc, hseq.symm⟩

theorem Inv.not_waits (h : s.Inv) (hdone : ∀ x ∈ s.threads, x = .done) (n : ℕ)
    (a : Conversation μ) : ¬ s.Waits n a := by
  have htaken : s.taken = [] := by
    refine flatMap_eq_nil_iff.2 fun x hx => ?_
    rw [hdone x hx]
    rfl
  have hqueue : s.queue = [] := by
    by_contra hq
    obtain ⟨x, hx, hwakes⟩ := h.woken hq
    rw [hdone x hx] at hwakes
    cases hwakes
  rintro ⟨⟨c, hc, -⟩, -⟩
  rw [htaken, hqueue] at hc
  cases hc

/-- Each conversation that was accepted waits, was handed to the updater exactly once, or was
replaced before it was taken by a later one for the same thread, user and agent with at least its
flags; at most one pass is active; and while the queue is not empty, a timer is armed or a pass is
about to run. -/
theorem queue_never_drops_work {as : List (QueueAct μ)} {s : MemoryQueue μ}
    (h : (memoryQueue μ).run as {} = some s) :
    (∀ n a, s.accepted[n]? = some a → (s.Waits n a ∨ s.PassedOnce n a ∨ s.Replaced n a)
        ∧ ((∀ x ∈ s.threads, x = .done) → s.PassedOnce n a ∨ s.Replaced n a))
      ∧ (∀ (i j : ℕ) cs ds, s.threads[i]? = some (.updating cs) → s.threads[j]? = some (.updating ds) →
          i = j)
      ∧ (s.queue ≠ [] → s.Woken) := by
  have hinv := inv_of_run h
  refine ⟨fun n a ha => ⟨hinv.fates ha, fun hdone => ?_⟩, fun i j cs ds hi hj => ?_, hinv.woken⟩
  · exact (hinv.fates ha).resolve_left (hinv.not_waits hdone n a)
  · have hle : s.activePasses ≤ 1 := by
      rw [hinv.single]
      split <;> omega
    exact eq_of_countP_le_one hle hi hj rfl rfl

def replacingRun : List (QueueAct String) :=
  [.add {} ⟨"t", ["one"], none, some "u", true, false⟩,
    .add {} ⟨"t", ["two"], none, some "u", false, false⟩,
    .thread 1, .thread 1, .thread 1, .thread 1]

theorem replacingRun_passes_second :
    ∃ s : MemoryQueue String, (memoryQueue String).run replacingRun {} = some s
      ∧ s.passed = [⟨⟨"t", ["two"], none, some "u", true, false⟩, 1⟩]
      ∧ ∀ n a, s.accepted[n]? = some a → s.PassedOnce n a ∨ s.Replaced n a := by
  obtain ⟨s, hs, hpassed, hdone⟩ :
      ∃ s : MemoryQueue String, (memoryQueue String).run replacingRun {} = some s
        ∧ s.passed = [⟨⟨"t", ["two"], none, some "u", true, false⟩, 1⟩]
        ∧ ∀ x ∈ s.threads, x = .done := ⟨_, rfl, rfl, by decide⟩
  exact ⟨s, hs, hpassed, fun n a ha => ((queue_never_drops_work hs).1 n a ha).2 hdone⟩

end MemoryQueue

end DeerFlow

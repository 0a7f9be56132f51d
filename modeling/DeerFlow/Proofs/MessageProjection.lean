import DeerFlow.Proofs.EventStores

/-!
# The messages of the store in memory

`list_messages` searches a second list, which holds the messages among the thread's events after any
calls, deletions among them. It is sorted, so the search finds the page the events have.
-/

namespace DeerFlow

open List

variable {J : Type}

namespace MemoryEventStore

def eventsOf (s : MemoryEventStore J) (t : String) : List (EventRecord J) := (s.events.get? t).getD []

def messagesOf (s : MemoryEventStore J) (t : String) : List (EventRecord J) :=
  (s.messages.get? t).getD []

def lastSeq (s : MemoryEventStore J) (t : String) : Int := (s.seqCounters.get? t).getD 0

structure Projects (s : MemoryEventStore J) (t : String) : Prop where
  messages : s.messagesOf t = (s.eventsOf t).filter fun r => r.category = "message"
  sorted : (s.eventsOf t).Pairwise fun a b => a.seq < b.seq
  bounded : ∀ r ∈ s.eventsOf t, r.seq ≤ s.lastSeq t

variable {s s' : MemoryEventStore J} {t : String}

theorem Projects.congr (h : s.Projects t) (hevents : s'.eventsOf t = s.eventsOf t)
    (hmessages : s'.messagesOf t = s.messagesOf t) (hseq : s'.lastSeq t = s.lastSeq t) :
    s'.Projects t := by
  refine ⟨?_, ?_, ?_⟩
  · rw [hmessages, hevents, h.messages]
  · rw [hevents]
    exact h.sorted
  · rw [hevents, hseq]
    exact h.bounded

theorem Projects.putOne (h : s.Projects t) (e : EventArgs J) : (s.putOne e).1.Projects t := by
  by_cases ht : e.threadId = t
  · subst ht
    have hevents : (s.putOne e).1.eventsOf e.threadId
        = s.eventsOf e.threadId ++ [e.record (s.lastSeq e.threadId + 1)] := by
      simp [MemoryEventStore.putOne, nextSeq, eventsOf, lastSeq]
    have hseq : (s.putOne e).1.lastSeq e.threadId = s.lastSeq e.threadId + 1 := by
      simp [MemoryEventStore.putOne, nextSeq, lastSeq]
    have hmessages : (s.putOne e).1.messagesOf e.threadId = s.messagesOf e.threadId
        ++ [e.record (s.lastSeq e.threadId + 1)].filter fun r => r.category = "message" := by
      by_cases hc : e.category = "message"
      · simp [MemoryEventStore.putOne, nextSeq, messagesOf, lastSeq, hc]
      · simp [MemoryEventStore.putOne, nextSeq, messagesOf, hc]
    refine ⟨?_, ?_, ?_⟩
    · rw [hmessages, hevents, h.messages, filter_append]
    · rw [hevents]
      refine Slots.pairwise_concat h.sorted fun r hr => ?_
      have := h.bounded r hr
      rw [EventArgs.record_seq]
      omega
    · rw [hevents, hseq]
      refine Slots.forall_mem_concat (fun r hr => ?_) le_rfl
      have := h.bounded r hr
      omega
  · refine h.congr ?_ ?_ ?_
    · simp [MemoryEventStore.putOne, nextSeq, eventsOf, ht]
    · simp only [MemoryEventStore.putOne, nextSeq, messagesOf]
      split_ifs <;> simp [ht]
    · simp [MemoryEventStore.putOne, nextSeq, lastSeq, ht]

theorem Projects.putEach (es : List (EventArgs J)) :
    ∀ {s : MemoryEventStore J}, s.Projects t → (s.putEach es).1.Projects t := by
  induction es with
  | nil => exact fun h => h
  | cons e es ih => exact fun h => ih (h.putOne e)

theorem Projects.deleteByThread (h : s.Projects t) (threadId : String) :
    (s.deleteByThread threadId).1.Projects t := by
  by_cases ht : threadId = t
  · have hevents : (s.deleteByThread threadId).1.eventsOf t = [] := by
      simp [MemoryEventStore.deleteByThread, eventsOf, ht]
    refine ⟨?_, ?_, ?_⟩
    · simp [MemoryEventStore.deleteByThread, eventsOf, messagesOf, ht]
    · rw [hevents]
      exact List.Pairwise.nil
    · simp [hevents]
  · refine h.congr ?_ ?_ ?_ <;>
      simp [MemoryEventStore.deleteByThread, eventsOf, messagesOf, lastSeq, ht]

theorem Projects.deleteByRun (h : s.Projects t) (threadId runId : String) :
    (s.deleteByRun threadId runId).1.Projects t := by
  unfold MemoryEventStore.deleteByRun
  dsimp only
  split_ifs with hempty
  · exact h
  by_cases ht : threadId = t
  · subst ht
    refine ⟨by simp [eventsOf, messagesOf], ?_, fun r hr => ?_⟩
    · simpa [eventsOf] using h.sorted.filter fun r => !decide (r.runId = runId)
    · simp only [eventsOf, OrdDict.get?_set, if_pos, Option.getD_some, mem_filter] at hr
      exact h.bounded r hr.1
  · refine h.congr ?_ ?_ ?_ <;> simp [eventsOf, messagesOf, lastSeq, ht]

theorem Projects.step (h : s.Projects t) {a : MemoryStoreAct J}
    (hstep : memoryEventStore.step s a = some s') : s'.Projects t := by
  cases a with
  | put e =>
    cases hstep
    exact h.putOne e
  | putBatch es =>
    cases hstep
    exact h.putEach es
  | deleteByRun threadId runId =>
    cases hstep
    exact h.deleteByRun threadId runId
  | deleteByThread threadId =>
    cases hstep
    exact h.deleteByThread threadId

theorem Projects.empty (t : String) : ({} : MemoryEventStore J).Projects t :=
  ⟨rfl, List.Pairwise.nil, by simp [eventsOf]⟩

end MemoryEventStore

/-- After any calls the messages of a thread are those among its events, both in the order of their
numbers, and `list_messages` answers the page they have. -/
theorem message_pages_are_of_the_events {as : List (MemoryStoreAct J)} {s : MemoryEventStore J}
    (hrun : memoryEventStore.run as {} = some s) (t : String) :
    s.messagesOf t = (s.eventsOf t).filter (fun r => r.category = "message")
    ∧ (s.eventsOf t).Pairwise (fun a b => a.seq < b.seq)
    ∧ (s.messagesOf t).Pairwise (fun a b => a.seq < b.seq)
    ∧ ∀ limit, 1 ≤ limit →
      (∀ before, s.listMessages t limit (some before) none = lastN limit
        (((s.eventsOf t).filter fun r => r.category = "message").filter fun r => r.seq < before))
      ∧ (∀ after, s.listMessages t limit none (some after) = List.take limit
        (((s.eventsOf t).filter fun r => r.category = "message").filter fun r => after < r.seq))
      ∧ s.listMessages t limit none none
        = lastN limit ((s.eventsOf t).filter fun r => r.category = "message") := by
  have h : s.Projects t := Machine.run_inv (I := fun s : MemoryEventStore J => s.Projects t)
    (fun _ _ _ h _ hstep => h.step hstep) (.empty t) (Machine.along_true as _) hrun
  have hsorted : (s.messagesOf t).Pairwise fun a b => a.seq < b.seq := by
    rw [h.messages]
    exact h.sorted.filter _
  refine ⟨h.messages, h.sorted, hsorted, fun limit hlimit => ?_⟩
  rw [← h.messages]
  exact ⟨bisect_page hlimit hsorted, bisect_page_after hsorted, rfl⟩

/-- Three puts and a deletion: the second message is on the page before the fourth number. -/
theorem page_after_deletion : ∃ as s, memoryEventStore.run as ({} : MemoryEventStore Unit) = some s
      ∧ (s.listMessages "t" 1 (some 4) none).map EventRecord.seq = [3] := by
  let put (run category : String) : MemoryStoreAct Unit := .put ⟨"t", run, "e", category, (), none, none, ""⟩
  let as := [put "a" "message", put "b" "message", put "a" "message", put "b" "trace",
    .deleteByRun "t" "b"]
  obtain ⟨s, hs⟩ : ∃ s, s = (memoryEventStore.run as {}).getD {} := ⟨_, rfl⟩
  have hrun : memoryEventStore.run as {} = some s := hs ▸ rfl
  refine ⟨as, s, hrun, ?_⟩
  rw [((message_pages_are_of_the_events hrun "t").2.2.2 1 le_rfl).1, hs]
  decide

end DeerFlow

import DeerFlow.Data.Slots
import DeerFlow.Stream.Memory

/-!
# Streams and subscribers of the in-process bridge

A stream's retained events are the last of those published on it, at consecutive offsets that end at
its tip (`RunStream.WF`). A subscriber reads at its own offset, which never passes the tip, and has
handed out every retained event below it (`Subscriber.Tracks`).
-/

namespace DeerFlow

open List Option RunStream OrdDict Slots

variable {δ : Type}

theorem dash_notMem_toDigits (n : ℕ) : '-' ∉ Nat.toDigits 10 n := by
  intro h
  have := Nat.isDigit_of_mem_toDigits (by omega) (by omega) h
  exact absurd this (by decide)

theorem toDigits_injective {m n : ℕ} (h : Nat.toDigits 10 m = Nat.toDigits 10 n) : m = n := by
  rw [← Nat.ofDigitChars_toDigits (b := 10) (n := m) (by omega) (by omega), h,
    Nat.ofDigitChars_toDigits (by omega) (by omega)]

theorem MemoryStreamBridge.eventId_seq {ts ts' m n : ℕ} (h : eventId ts m = eventId ts' n) :
    m = n := by
  have hl := congrArg String.toList h
  simp only [eventId, String.toList_append, Nat.toString_eq_repr, Nat.toList_repr,
    append_assoc] at hl
  have hd : "-".toList = ['-'] := by decide
  rw [hd] at hl
  obtain ⟨-, -, hmn⟩ := append_cons_inj_of_notMem (dash_notMem_toDigits _)
    (dash_notMem_toDigits _) |>.1 hl
  exact toDigits_injective hmn

namespace RunStream

variable {st : RunStream δ}

theorem mem_window {e : StreamEvent δ} {o : ℕ} :
    (e, o) ∈ st.window ↔ st.startOffset ≤ o ∧ st.events[o - st.startOffset]? = some e :=
  mem_zipIdx_iff_le_and_getElem?_sub

variable {x : StreamEvent δ × ℕ}

theorem lt_tip_of_mem_window (h : x ∈ st.window) : x.2 < st.tip := by
  obtain ⟨ho, he⟩ := mem_window.1 h
  have := (List.getElem?_eq_some_iff.1 he).1
  unfold tip
  omega

structure WF (st : RunStream δ) : Prop where
  retains : ∃ old, st.published = old ++ st.window ∧ ∀ x ∈ old, x.2 < st.startOffset
  sorted : st.published.Pairwise fun x y => x.2 < y.2
  ids : (st.published.map fun x => x.1.id).Nodup

theorem wf_empty : ({} : RunStream δ).WF := ⟨⟨[], rfl, by simp⟩, List.Pairwise.nil, nodup_nil⟩

theorem WF.lt_tip (h : st.WF) (hx : x ∈ st.published) : x.2 < st.tip := by
  obtain ⟨old, ho, hlt⟩ := h.retains
  rw [ho, mem_append] at hx
  rcases hx with hx | hx
  · have := hlt x hx
    unfold tip
    omega
  · exact lt_tip_of_mem_window hx

theorem WF.mem_window_iff (h : st.WF) :
    x ∈ st.window ↔ x ∈ st.published ∧ st.startOffset ≤ x.2 := by
  obtain ⟨old, ho, hlt⟩ := h.retains
  constructor
  · intro hx
    exact ⟨ho ▸ mem_append_right _ hx, (mem_window.1 hx).1⟩
  · rintro ⟨hx, hle⟩
    rw [ho, mem_append] at hx
    rcases hx with hx | hx
    · exact absurd (hlt x hx) (by omega)
    · exact hx

theorem WF.eq_of_id (h : st.WF) {x y : StreamEvent δ × ℕ}
    (hx : x ∈ st.published) (hy : y ∈ st.published) (hid : x.1.id = y.1.id) : x = y :=
  inj_on_of_nodup_map h.ids hx hy hid

section Append

variable (maxsize : Int) (st : RunStream δ) (e : StreamEvent δ)

theorem published_append : (st.append maxsize e).published = st.published ++ [(e, st.tip)] := by
  unfold append
  dsimp only
  split_ifs <;> rfl

theorem ended_append : (st.append maxsize e).ended = st.ended := by
  unfold append
  dsimp only
  split_ifs <;> rfl

theorem append_trims : ∃ n, (st.append maxsize e).startOffset = st.startOffset + n
    ∧ (st.append maxsize e).events = (st.events ++ [e]).drop n := by
  unfold append
  dsimp only
  split_ifs
  · exact ⟨_, rfl, rfl⟩
  · exact ⟨0, rfl, rfl⟩

theorem zipIdx_drop_add {α : Type} : ∀ (l : List α) (n k : ℕ),
    (l.drop n).zipIdx (k + n) = (l.zipIdx k).drop n
  | [], n, k => by simp
  | _ :: _, 0, k => rfl
  | _ :: l, n + 1, k => by
    rw [drop_succ_cons, zipIdx_cons, drop_succ_cons, ← zipIdx_drop_add l n (k + 1)]
    congr 1
    omega

theorem window_append : ∃ n, (st.append maxsize e).startOffset = st.startOffset + n
    ∧ (st.append maxsize e).window = (st.window ++ [(e, st.tip)]).drop n := by
  obtain ⟨n, hn, he⟩ := append_trims maxsize st e
  refine ⟨n, hn, ?_⟩
  rw [window, he, hn, zipIdx_drop_add, zipIdx_append]
  rfl

theorem tip_lt_append : st.tip < (st.append maxsize e).tip := by
  obtain ⟨n, hn, he⟩ := append_trims maxsize st e
  simp only [tip, hn, he, length_drop, length_append, length_singleton]
  omega

variable {st e}

theorem WF.append (h : st.WF) (he : ∀ x ∈ st.published, x.1.id ≠ e.id) :
    (st.append maxsize e).WF := by
  obtain ⟨old, ho, hlt⟩ := h.retains
  obtain ⟨n, hn, hw⟩ := window_append maxsize st e
  refine ⟨⟨old ++ (st.window ++ [(e, st.tip)]).take n, ?_, ?_⟩, ?_, ?_⟩
  · rw [published_append, hw, append_assoc, take_append_drop, ho, append_assoc]
  · intro x hx
    rw [hn]
    rcases mem_append.1 hx with hx | hx
    · have := hlt x hx
      omega
    · -- what is cut off the front stands at the first `n` offsets
      have hz : st.window ++ [(e, st.tip)] = (st.events ++ [e]).zipIdx st.startOffset := by
        rw [zipIdx_append]
        rfl
      rw [hz] at hx
      obtain ⟨i, hi, hix⟩ := mem_take_iff_getElem.1 hx
      have hx2 := congrArg Prod.snd hix
      rw [getElem_zipIdx] at hx2
      omega
  · rw [published_append]
    exact pairwise_concat h.sorted fun x hx => h.lt_tip hx
  · rw [published_append, map_append, nodup_append]
    refine ⟨h.ids, by simp, ?_⟩
    rintro a ha b hb rfl
    obtain ⟨x, hx, rfl⟩ := mem_map.1 ha
    simp only [map_cons, map_nil, mem_singleton] at hb
    exact he x hx hb

end Append

structure Grows (st st' : RunStream δ) : Prop where
  tip : st.tip ≤ st'.tip
  keeps : ∀ x ∈ st.published, x ∈ st'.published
  fresh : ∀ x ∈ st'.published, x ∈ st.published ∨ st.tip ≤ x.2
  window : ∀ x ∈ st'.window, x ∈ st.window ∨ st.tip ≤ x.2

theorem Grows.refl (st : RunStream δ) : st.Grows st :=
  ⟨Nat.le_refl _, fun _ h => h, fun _ => Or.inl, fun _ => Or.inl⟩

theorem grows_append (maxsize : Int) (st : RunStream δ) (e : StreamEvent δ) :
    st.Grows (st.append maxsize e) := by
  refine ⟨Nat.le_of_lt (tip_lt_append maxsize st e), fun x hx => ?_, fun x hx => ?_, fun x hx => ?_⟩
  · rw [published_append]
    exact mem_append_left _ hx
  · rw [published_append, mem_append, mem_singleton] at hx
    rcases hx with hx | rfl
    · exact Or.inl hx
    · exact Or.inr (Nat.le_refl _)
  · obtain ⟨n, -, hw⟩ := window_append maxsize st e
    rw [hw] at hx
    have hx := mem_of_mem_drop hx
    rw [mem_append, mem_singleton] at hx
    rcases hx with hx | rfl
    · exact Or.inl hx
    · exact Or.inr (Nat.le_refl _)

end RunStream

namespace MemoryStreamBridge

variable {b : MemoryStreamBridge δ} {st : RunStream δ}

/-- The objects of a bridge are well formed, no two runs share one, and the counter of a run is
past the ids on its stream. -/
structure WF (b : MemoryStreamBridge δ) : Prop where
  heap : ∀ (i : ℕ) (st : RunStream δ), b.heap[i]? = some st → st.WF
  index : ∀ r i, b.streams.get? r = some i → i < b.heap.length
  inj : ∀ r r' i, b.streams.get? r = some i → b.streams.get? r' = some i → r = r'
  counter : ∀ r i (st : RunStream δ), b.streams.get? r = some i → b.heap[i]? = some st →
    ∃ n, b.counters.get? r = some n ∧ ∀ x ∈ st.published, ∃ ts m, x.1.id = eventId ts m ∧ m < n

theorem wf_fresh (maxsize : Int) : ({ maxsize := maxsize } : MemoryStreamBridge δ).WF where
  heap := by simp
  index := by simp
  inj := by simp
  counter := by simp

/-- The objects of `b` stand in `b'` too, each grown; those other than `i` unchanged. -/
def Extends (b b' : MemoryStreamBridge δ) (i : ℕ) : Prop :=
  ∀ (j : ℕ) (st : RunStream δ), b.heap[j]? = some st →
    ∃ st', b'.heap[j]? = some st' ∧ st.Grows st' ∧ (j ≠ i → st' = st)

theorem WF.getOrCreateStream (h : b.WF) (r : RunId) : (b.getOrCreateStream r).1.WF
      ∧ (b.getOrCreateStream r).1.streams.get? r = some (b.getOrCreateStream r).2
      ∧ (b.getOrCreateStream r).1.maxsize = b.maxsize
      ∧ ((b.getOrCreateStream r).1.heap = b.heap
        ∨ (b.getOrCreateStream r).1.heap = b.heap ++ [({} : RunStream δ)]) := by
  unfold MemoryStreamBridge.getOrCreateStream
  cases hr : b.streams.get? r with
  | some i => exact ⟨h, hr, rfl, Or.inl rfl⟩
  | none =>
    refine ⟨⟨fun j st hj => ?_, fun r' i hi => ?_, fun r' r'' i hi hi' => ?_,
      fun r' i st hi hst => ?_⟩, by simp, rfl, Or.inr rfl⟩
    · rcases getElem?_concat_cases hj with hj | ⟨-, rfl⟩
      · exact h.heap j st hj
      · exact wf_empty
    · simp only [get?_set, length_append, length_singleton] at hi ⊢
      split_ifs at hi
      · cases hi
        omega
      · have := h.index r' i hi
        omega
    · simp only [get?_set] at hi hi'
      split_ifs at hi hi' with h1 h2 h2
      · exact h1.symm.trans h2
      · cases hi
        exact absurd (h.index _ _ hi') (by omega)
      · cases hi'
        exact absurd (h.index _ _ hi) (by omega)
      · exact h.inj r' r'' i hi hi'
    · simp only [get?_set] at hi ⊢
      split_ifs at hi ⊢
      · cases hi
        refine ⟨0, rfl, ?_⟩
        rw [getElem?_append_right (Nat.le_refl _), Nat.sub_self] at hst
        cases hst
        simp
      · rw [getElem?_append_left (h.index r' i hi)] at hst
        exact h.counter r' i st hi hst

theorem extends_of_heap {b b' : MemoryStreamBridge δ} (i : ℕ)
    (h : b'.heap = b.heap ∨ b'.heap = b.heap ++ [({} : RunStream δ)]) : b.Extends b' i := by
  intro j st hj
  refine ⟨st, ?_, RunStream.Grows.refl st, fun _ => rfl⟩
  rcases h with h | h
  · rwa [h]
  · rw [h, getElem?_append_left (List.getElem?_eq_some_iff.1 hj).1]
    exact hj

theorem Extends.trans {b b' b'' : MemoryStreamBridge δ} {i : ℕ} (h : b.Extends b' i)
    (h' : b'.Extends b'' i) : b.Extends b'' i := by
  intro j st hj
  obtain ⟨st', hj', hg, hs⟩ := h j st hj
  obtain ⟨st'', hj'', hg', hs'⟩ := h' j st' hj'
  refine ⟨st'', hj'', ⟨Nat.le_trans hg.tip hg'.tip, fun x hx => hg'.keeps x (hg.keeps x hx), ?_, ?_⟩,
    ?_⟩
  · intro x hx
    rcases hg'.fresh x hx with hx | hx
    · exact hg.fresh x hx
    · exact Or.inr (Nat.le_trans hg.tip hx)
  · intro x hx
    rcases hg'.window x hx with hx | hx
    · exact hg.window x hx
    · exact Or.inr (Nat.le_trans hg.tip hx)
  · intro hne
    rw [hs' hne, hs hne]

theorem extends_updateStream (b : MemoryStreamBridge δ) (i : ℕ) {f : RunStream δ → RunStream δ}
    (hf : ∀ st : RunStream δ, st.Grows (f st)) : b.Extends (b.updateStream i f) i := by
  intro j st hj
  unfold updateStream
  rw [getElem?_modify, hj]
  by_cases hji : i = j
  · subst hji
    exact ⟨f st, by simp, hf st, fun h => absurd rfl h⟩
  · exact ⟨st, by simp [hji], RunStream.Grows.refl st, fun _ => rfl⟩

def IdsBelow (st : RunStream δ) (n : ℕ) : Prop :=
  ∀ x ∈ st.published, ∃ ts m, x.1.id = eventId ts m ∧ m < n

theorem WF.changeStream {b b' : MemoryStreamBridge δ} (h : b.WF) {r : RunId} {i : ℕ}
    (hr : b.streams.get? r = some i) {f : RunStream δ → RunStream δ}
    (hheap : b'.heap = b.heap.modify i f) (hstreams : b'.streams = b.streams)
    (hcounters : ∀ r', r' ≠ r → b'.counters.get? r' = b.counters.get? r')
    (hf : ∀ (st : RunStream δ) (n : ℕ), st.WF → b.counters.get? r = some n → IdsBelow st n →
      (f st).WF ∧ ∃ n', b'.counters.get? r = some n' ∧ IdsBelow (f st) n') :
    b'.WF := by
  have hget : ∀ (j : ℕ) (st : RunStream δ), b'.heap[j]? = some st →
      (j ≠ i ∧ b.heap[j]? = some st) ∨ (j = i ∧ ∃ st0, b.heap[i]? = some st0 ∧ st = f st0) := by
    intro j st hj
    rw [hheap, getElem?_modify] at hj
    obtain ⟨st0, h0, rfl⟩ := map_eq_some_iff.1 hj
    by_cases hji : i = j
    · subst hji
      exact Or.inr ⟨rfl, st0, h0, if_pos rfl⟩
    · rw [if_neg hji]
      exact Or.inl ⟨fun h => hji h.symm, h0⟩
  refine ⟨fun j st hj => ?_, fun r' j hj => ?_, by rw [hstreams]; exact h.inj,
    fun r' j st hj hst => ?_⟩
  · rcases hget j st hj with ⟨-, hj⟩ | ⟨rfl, st0, h0, rfl⟩
    · exact h.heap j st hj
    · obtain ⟨n, hn, hids⟩ := h.counter r j st0 hr h0
      exact (hf st0 n (h.heap j st0 h0) hn hids).1
  · rw [hstreams] at hj
    rw [hheap, length_modify]
    exact h.index r' j hj
  · rw [hstreams] at hj
    rcases hget j st hst with ⟨hne, hst⟩ | ⟨rfl, st0, h0, rfl⟩
    · have hrr : r' ≠ r := by
        rintro rfl
        rw [hr] at hj
        exact hne (some.inj hj).symm
      rw [hcounters r' hrr]
      exact h.counter r' j st hj hst
    · cases h.inj r r' j hr hj
      obtain ⟨n, hn, hids⟩ := h.counter r j st0 hr h0
      exact (hf st0 n (h.heap j st0 h0) hn hids).2

theorem WF.publish (h : b.WF) (r : RunId) (event : String) (data : δ)
    (ts : ℕ) : (b.publish r event data ts).1.WF
      ∧ b.Extends (b.publish r event data ts).1 (b.publish r event data ts).2 := by
  obtain ⟨hwf, hr, -, hheap⟩ := h.getOrCreateStream r
  unfold MemoryStreamBridge.publish
  generalize b.getOrCreateStream r = bi at hwf hr hheap
  obtain ⟨b1, i⟩ := bi
  dsimp only at hwf hr hheap ⊢
  refine ⟨hwf.changeStream hr rfl rfl (fun r' hne => ?_) fun st n hst hn hids => ?_, ?_⟩
  · simp [nextId, MemoryStreamBridge.updateStream, hne.symm]
  · have hid : (b1.nextId r ts).2 = eventId ts n := by simp [nextId, hn]
    refine ⟨hst.append _ fun x hx hx' => ?_, n + 1, ?_, ?_⟩
    · obtain ⟨ts', m, hm, hlt⟩ := hids x hx
      rw [hid, hm] at hx'
      exact absurd (eventId_seq hx') (by omega)
    · simp [nextId, MemoryStreamBridge.updateStream, hn]
    · rw [IdsBelow, published_append]
      refine forall_mem_concat (fun x hx => ?_) ⟨ts, n, hid, by omega⟩
      obtain ⟨ts', m, hm, hlt⟩ := hids x hx
      exact ⟨ts', m, hm, by omega⟩
  · refine (extends_of_heap i hheap).trans ?_
    exact extends_updateStream (b1.nextId r ts).1 i fun st => grows_append _ st _

theorem WF.publishEnd (h : b.WF) (r : RunId) :
    (b.publishEnd r).1.WF ∧ b.Extends (b.publishEnd r).1 (b.publishEnd r).2 := by
  obtain ⟨hwf, hr, -, hheap⟩ := h.getOrCreateStream r
  unfold MemoryStreamBridge.publishEnd
  generalize b.getOrCreateStream r = bi at hwf hr hheap
  obtain ⟨b1, i⟩ := bi
  refine ⟨hwf.changeStream hr rfl rfl (fun _ _ => rfl) fun st n hst hn hids =>
    ⟨⟨hst.retains, hst.sorted, hst.ids⟩, n, hn, hids⟩, (extends_of_heap i hheap).trans ?_⟩
  exact extends_updateStream b1 i fun st =>
    ⟨Nat.le_refl _, fun _ h => h, fun _ => Or.inl, fun _ => Or.inl⟩

theorem WF.cleanup (h : b.WF) (r : RunId) : (b.cleanup r).WF := by
  refine ⟨h.heap, fun r' i hi => ?_, fun r' r'' i hi hi' => ?_, fun r' i st hi hst => ?_⟩
  · simp only [MemoryStreamBridge.cleanup, get?_pop] at hi
    split_ifs at hi
    exact h.index r' i hi
  · simp only [MemoryStreamBridge.cleanup, get?_pop] at hi hi'
    split_ifs at hi hi'
    exact h.inj r' r'' i hi hi'
  · simp only [MemoryStreamBridge.cleanup, get?_pop] at hi ⊢
    split_ifs at hi ⊢
    exact h.counter r' i st hi hst

theorem WF.close (h : b.WF) : b.close.WF where
  heap := h.heap
  index := by simp [MemoryStreamBridge.close]
  inj := by simp [MemoryStreamBridge.close]
  counter := by simp [MemoryStreamBridge.close]

theorem ended_getOrCreateStream (b : MemoryStreamBridge δ) (r : RunId) {j : ℕ}
    (hj : (b.getOrCreateStream r).1.heap[j]? = some st) (he : st.ended) :
    b.heap[j]? = some st := by
  unfold getOrCreateStream at hj
  split at hj
  · exact hj
  · rcases getElem?_concat_cases hj with hj | ⟨-, rfl⟩
    · exact hj
    · cases he

theorem ended_publish (b : MemoryStreamBridge δ) (r : RunId) (event : String) (data : δ) (ts : ℕ)
    {j : ℕ} (hj : (b.publish r event data ts).1.heap[j]? = some st)
    (he : st.ended) : ∃ st0, b.heap[j]? = some st0 ∧ st0.ended := by
  unfold publish at hj
  dsimp only [updateStream, nextId] at hj
  rw [getElem?_modify] at hj
  obtain ⟨st0, h0, rfl⟩ := map_eq_some_iff.1 hj
  have he0 : st0.ended := by
    split_ifs at he
    · rwa [ended_append] at he
    · exact he
  exact ⟨st0, b.ended_getOrCreateStream r h0 he0, he0⟩

theorem ended_publishEnd (b : MemoryStreamBridge δ) (r : RunId) {j : ℕ}
    (hj : (b.publishEnd r).1.heap[j]? = some st) (he : st.ended)
    (hne : (b.getOrCreateStream r).2 ≠ j) : b.heap[j]? = some st := by
  unfold publishEnd at hj
  dsimp only [updateStream] at hj
  rw [getElem?_modify] at hj
  obtain ⟨st0, h0, rfl⟩ := map_eq_some_iff.1 hj
  rw [if_neg hne] at he ⊢
  exact b.ended_getOrCreateStream r h0 he

end MemoryStreamBridge

theorem RunStream.WF.eq_of_offset {st : RunStream δ} (h : st.WF) {x y : StreamEvent δ × ℕ}
    (hx : x ∈ st.published) (hy : y ∈ st.published) (hxy : x.2 = y.2) : x = y := by
  have hn : (st.published.map Prod.snd).Nodup :=
    pairwise_map.2 (h.sorted.imp fun hlt => Nat.ne_of_lt hlt)
  exact inj_on_of_nodup_map hn hx hy hxy

namespace Subscriber

variable {u : Subscriber δ}

structure Tracks (u : Subscriber δ) (st : RunStream δ) : Prop where
  start_le : u.start ≤ u.nextOffset
  le_tip : u.nextOffset ≤ st.tip
  received : ∀ x ∈ u.received, x ∈ st.published ∧ u.start ≤ x.2 ∧ x.2 < u.nextOffset
  sorted : u.received.Pairwise fun x y => x.2 < y.2
  retained : ∀ x ∈ st.window, u.start ≤ x.2 → x.2 < u.nextOffset → x ∈ u.received
  waiting : u.phase = .waiting false → st.tip ≤ u.nextOffset ∧ st.ended = false
  stop : Yield.stop ∈ u.yielded → u.phase = .done

theorem Tracks.grow {st st' : RunStream δ} (h : u.Tracks st)
    (hg : st.Grows st') (hw : u.phase ≠ .waiting false) : u.Tracks st' where
  start_le := h.start_le
  le_tip := Nat.le_trans h.le_tip hg.tip
  received := fun x hx => ⟨hg.keeps x (h.received x hx).1, (h.received x hx).2⟩
  sorted := h.sorted
  retained := fun x hx hs hn => by
    rcases hg.window x hx with hx | hx
    · exact h.retained x hx hs hn
    · exact absurd h.le_tip (by omega)
  waiting := fun h' => absurd h' hw
  stop := h.stop

theorem notify_eq (i : ℕ) (u : Subscriber δ) : u.notify i = { u with phase := (u.notify i).phase } := by
  unfold notify
  split
  · split_ifs <;> rfl
  · rfl

theorem notify_phase {i : ℕ} (h : u.stream = i) : (u.notify i).phase ≠ .waiting false := by
  unfold notify
  split
  · rw [if_pos h]
    simp
  · rename_i hw
    exact fun h => hw false h

theorem notify_of_ne {i : ℕ} (h : u.stream ≠ i) : u.notify i = u := by
  unfold notify
  split
  · rw [if_neg h]
  · rfl

/-- One pass of the loop reads at the subscriber's offset or, where that was trimmed, at the
earliest retained one. -/
theorem turn_cases (u : Subscriber δ) (st : RunStream δ) : ∃ o, o = max u.nextOffset st.startOffset
      ∧ ((∃ e, (e, o) ∈ st.window
            ∧ u.turn st = { u with nextOffset := o + 1, yielded := u.yielded ++ [.event e o] })
        ∨ (st.tip ≤ o ∧ st.ended
            ∧ u.turn st = { u with nextOffset := o, phase := .done, yielded := u.yielded ++ [.stop] })
        ∨ (st.tip ≤ o ∧ st.ended = false
            ∧ u.turn st = { u with nextOffset := o, phase := .waiting false })) := by
  refine ⟨if u.nextOffset < st.startOffset then st.startOffset else u.nextOffset, ?_, ?_⟩
  · split_ifs <;> omega
  unfold turn
  dsimp only
  generalize hn : (if u.nextOffset < st.startOffset then st.startOffset else u.nextOffset) = o
  have hso : st.startOffset ≤ o := by
    split_ifs at hn <;> omega
  cases he : st.events[o - st.startOffset]? with
  | some e => exact Or.inl ⟨e, mem_window.2 ⟨hso, he⟩, rfl⟩
  | none =>
    have htip : st.tip ≤ o := by
      have := getElem?_eq_none_iff.1 he
      unfold tip
      omega
    cases hen : st.ended with
    | true => exact Or.inr (Or.inl ⟨htip, rfl, by simp⟩)
    | false => exact Or.inr (Or.inr ⟨htip, rfl, by simp⟩)

theorem received_concat (u : Subscriber δ) (y : Yield δ) (n : ℕ) (ph : SubscriberPhase) :
    ({ u with nextOffset := n, phase := ph, yielded := u.yielded ++ [y] } : Subscriber δ).received
      = u.received ++ (match y with | .event e o => [(e, o)] | _ => []) := by
  unfold received
  rw [filterMap_append]
  cases y <;> rfl

theorem Tracks.turn {st : RunStream δ} (h : u.Tracks st) (hst : st.WF)
    (hp : u.phase = .polling) : (u.turn st).Tracks st := by
  have hle := h.start_le
  have htip := h.le_tip
  have hs : st.startOffset ≤ st.tip := by
    unfold tip
    omega
  obtain ⟨o, ho, hcases⟩ := u.turn_cases st
  -- what is retained below the offset read at was handed out before
  have hret : ∀ x ∈ st.window, u.start ≤ x.2 → x.2 < o → x ∈ u.received := by
    intro x hx hsx hlt
    have := (hst.mem_window_iff.1 hx).2
    exact h.retained x hx hsx (by omega)
  have hrec : ∀ n, o ≤ n → ∀ x ∈ u.received, x ∈ st.published ∧ u.start ≤ x.2 ∧ x.2 < n := by
    intro n hn x hx
    obtain ⟨h1, h2, h3⟩ := h.received x hx
    exact ⟨h1, h2, by omega⟩
  rcases hcases with ⟨e, he, hu⟩ | ⟨ht, -, hu⟩ | ⟨ht, hen, hu⟩
  · have hlt := lt_tip_of_mem_window he
    have hpub := (hst.mem_window_iff.1 he).1
    rw [hu]
    refine ⟨?_, hlt, ?_, ?_, ?_, fun h' => ?_, fun h' => h.stop (by simpa using h')⟩
    · simp only
      omega
    · rw [received_concat]
      refine forall_mem_concat (hrec (o + 1) (by omega)) ⟨hpub, ?_, ?_⟩ <;> simp only <;> omega
    · rw [received_concat]
      refine pairwise_concat h.sorted fun x hx => ?_
      have := (h.received x hx).2.2
      simp only
      omega
    · intro x hx hsx hxo
      rw [received_concat, mem_append, mem_singleton]
      by_cases hxe : x.2 = o
      · exact Or.inr (hst.eq_of_offset (hst.mem_window_iff.1 hx).1 hpub hxe)
      · simp only at hxo
        exact Or.inl (hret x hx hsx (by omega))
    · simp only [hp] at h'
      cases h'
  · rw [hu]
    refine ⟨by simp only; omega, by simp only; omega, ?_, ?_, ?_, fun h' => (by cases h'),
      fun _ => rfl⟩
    · rw [received_concat, append_nil]
      exact hrec o (Nat.le_refl _)
    · rw [received_concat, append_nil]
      exact h.sorted
    · rw [received_concat, append_nil]
      exact hret
  · rw [hu]
    exact ⟨by simp only; omega, by simp only; omega, hrec o (Nat.le_refl _), h.sorted, hret,
      fun _ => ⟨ht, hen⟩, fun h' => absurd (h.stop h') (by rw [hp]; simp)⟩

end Subscriber

end DeerFlow

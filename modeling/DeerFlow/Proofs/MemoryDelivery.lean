import DeerFlow.Proofs.MemoryStream

/-!
# What a subscriber of the in-process bridge gets

A subscriber moves past an event only by handing it out or because it was trimmed before the
subscriber's turn, and stops only when it is through with an ended stream (`Accounted`). A producer
wakes whoever waits, so a subscriber comes to what is retained by its own steps alone (`reaches`).
-/

namespace DeerFlow

open List Option MemoryStreams MemoryStreamBridge

variable {δ : Type}

section Runs

variable {maxsize : Int} {as : List (MemoryAct δ)} {k : ℕ}

def HadTurn (maxsize : Int) (as : List (MemoryAct δ)) (k : ℕ)
    (P : Subscriber δ → RunStream δ → Prop) : Prop :=
  ∃ as1 as2 s u st, as = as1 ++ .turn k :: as2
    ∧ (memoryStreams δ).run as1 (.fresh δ maxsize) = some s
    ∧ s.subs[k]? = some u ∧ s.bridge.heap[u.stream]? = some st ∧ P u st

def EndPublished (maxsize : Int) (as : List (MemoryAct δ)) (i : ℕ) : Prop :=
  ∃ as1 r as2 s, as = as1 ++ .publishEnd r :: as2
    ∧ (memoryStreams δ).run as1 (.fresh δ maxsize) = some s
    ∧ (s.bridge.getOrCreateStream r).2 = i

def TrimmedBefore (x : StreamEvent δ × ℕ) (u : Subscriber δ) (st : RunStream δ) : Prop :=
  x ∈ st.published ∧ x ∉ st.window ∧ u.nextOffset ≤ x.2

def Drained (u : Subscriber δ) (st : RunStream δ) : Prop :=
  st.ended = true ∧ ∀ x ∈ st.window, u.start ≤ x.2 → x ∈ u.received

theorem HadTurn.concat {P : Subscriber δ → RunStream δ → Prop} (h : HadTurn maxsize as k P)
    (a : MemoryAct δ) : HadTurn maxsize (as ++ [a]) k P := by
  obtain ⟨as1, as2, s, u, st, rfl, h⟩ := h
  exact ⟨as1, as2 ++ [a], s, u, st, by simp, h⟩

theorem EndPublished.concat {i : ℕ} (h : EndPublished maxsize as i) (a : MemoryAct δ) :
    EndPublished maxsize (as ++ [a]) i := by
  obtain ⟨as1, r, as2, s, rfl, h⟩ := h
  exact ⟨as1, r, as2 ++ [a], s, by simp, h⟩

/-- Subscriber `k` passed an event only by handing it out or because it was trimmed first, and
stopped only when it was through. -/
structure Accounted (maxsize : Int) (as : List (MemoryAct δ)) (k : ℕ) (u : Subscriber δ)
    (st : RunStream δ) : Prop where
  tracks : u.Tracks st
  passed : ∀ x ∈ st.published, u.start ≤ x.2 → x.2 < u.nextOffset →
    x ∈ u.received ∨ HadTurn maxsize as k (TrimmedBefore x)
  stopped : u.phase = .done →
    HadTurn maxsize as k fun u1 st1 => Drained u1 st1 ∧ EndPublished maxsize as u.stream
      ∧ u.received = u1.received ∧ ∀ x ∈ st1.published, u.start ≤ x.2 → x.2 < u.nextOffset

structure Traced (maxsize : Int) (as : List (MemoryAct δ)) (s : MemoryStreams δ) : Prop where
  bridge : s.bridge.WF
  ended : ∀ (i : ℕ) (st : RunStream δ), s.bridge.heap[i]? = some st → st.ended = true →
    EndPublished maxsize as i
  subs : ∀ (k : ℕ) (u : Subscriber δ), s.subs[k]? = some u →
    ∃ st, s.bridge.heap[u.stream]? = some st ∧ Accounted maxsize as k u st

variable {u : Subscriber δ} {st st' : RunStream δ}

theorem Accounted.concat (h : Accounted maxsize as k u st) (a : MemoryAct δ) :
    Accounted maxsize (as ++ [a]) k u st where
  tracks := h.tracks
  passed := fun x hx hs hn => (h.passed x hx hs hn).imp_right (·.concat a)
  stopped := fun hd => by
    obtain ⟨as1, as2, s, u1, st1, rfl, hrun, hu, hst, hP, hE, hP'⟩ := h.stopped hd
    exact ⟨as1, as2 ++ [a], s, u1, st1, by simp, hrun, hu, hst, hP, hE.concat a, hP'⟩

theorem Accounted.grow (h : Accounted maxsize as k u st) (hg : st.Grows st')
    (hw : u.phase ≠ .waiting false) : Accounted maxsize as k u st' where
  tracks := h.tracks.grow hg hw
  passed := fun x hx hs hn => by
    rcases hg.fresh x hx with hx | hx
    · exact h.passed x hx hs hn
    · exact absurd h.tracks.le_tip (by omega)
  stopped := h.stopped

theorem Accounted.phase (h : Accounted maxsize as k u st) {ph : SubscriberPhase}
    (hw : ph ≠ .waiting false) (hd : ph = .done ↔ u.phase = .done) :
    Accounted maxsize as k { u with phase := ph } st where
  tracks := ⟨h.tracks.start_le, h.tracks.le_tip, h.tracks.received, h.tracks.sorted,
    h.tracks.retained, fun h' => absurd h' hw, fun h' => hd.2 (h.tracks.stop h')⟩
  passed := h.passed
  stopped := fun h' => h.stopped (hd.1 h')

theorem Accounted.notify (h : Accounted maxsize as k u st) (hg : st.Grows st') {i : ℕ}
    (hi : u.stream ≠ i → st' = st) : Accounted maxsize as k (u.notify i) st' := by
  by_cases hui : u.stream = i
  · rw [Subscriber.notify_eq]
    by_cases hw : u.phase = .waiting false
    · refine Accounted.phase (u := { u with phase := .waiting true }) (.grow ?_ hg (by simp)) ?_ ?_
      · exact h.phase (by simp) (by simp [hw])
      · exact Subscriber.notify_phase hui
      · simp [Subscriber.notify, hw, hui]
    · refine (h.grow hg hw).phase (Subscriber.notify_phase hui) ?_
      unfold Subscriber.notify
      split <;> simp_all
  · rw [Subscriber.notify_of_ne hui, hi hui]
    exact h

theorem Accounted.heartbeat (h : Accounted maxsize as k u st) (hp : u.phase ≠ .done) :
    Accounted maxsize as k
      { u with phase := .polling, yielded := u.yielded ++ [.heartbeat] } st := by
  have hr : ({ u with phase := .polling, yielded := u.yielded ++ [.heartbeat] } :
      Subscriber δ).received = u.received := by
    have := u.received_concat .heartbeat u.nextOffset .polling
    rwa [append_nil] at this
  refine ⟨⟨h.tracks.start_le, h.tracks.le_tip, ?_, ?_, ?_, by simp, fun h' => ?_⟩, ?_, by simp⟩
  · rw [hr]
    exact h.tracks.received
  · rw [hr]
    exact h.tracks.sorted
  · rw [hr]
    exact h.tracks.retained
  · exact absurd (h.tracks.stop (by simpa using h')) hp
  · rw [hr]
    exact h.passed

theorem Accounted.turn {s : MemoryStreams δ} (h : Accounted maxsize as k u st) (hst : st.WF)
    (hp : u.phase = .polling) (hrun : (memoryStreams δ).run as (.fresh δ maxsize) = some s)
    (hu : s.subs[k]? = some u) (hheap : s.bridge.heap[u.stream]? = some st)
    (hend : st.ended → EndPublished maxsize as u.stream) :
    Accounted maxsize (as ++ [.turn k]) k (u.turn st) st := by
  have hturn : ∀ P : Subscriber δ → RunStream δ → Prop, P u st →
      HadTurn maxsize (as ++ [.turn k]) k P :=
    fun P hP => ⟨as, [], s, u, st, rfl, hrun, hu, hheap, hP⟩
  have htracks := h.tracks.turn hst hp
  obtain ⟨o, ho, hcases⟩ := u.turn_cases st
  -- an event between the subscriber's offset and where it reads is no longer retained
  have hskip : ∀ x ∈ st.published, u.start ≤ x.2 → x.2 < o →
      x ∈ u.received ∨ HadTurn maxsize (as ++ [.turn k]) k (TrimmedBefore x) := by
    intro x hx hs hlt
    by_cases hn : x.2 < u.nextOffset
    · exact (h.passed x hx hs hn).imp_right (·.concat _)
    · refine Or.inr (hturn _ ⟨hx, fun hw => ?_, by omega⟩)
      have := (hst.mem_window_iff.1 hw).2
      omega
  rcases hcases with ⟨e, he, hut⟩ | ⟨htip, hen, hut⟩ | ⟨htip, hen, hut⟩
  · refine ⟨htracks, fun x hx hs hlt => ?_, fun hd => ?_⟩
    · rw [hut] at hs hlt ⊢
      rw [Subscriber.received_concat]
      by_cases hxo : x.2 = o
      · have hxe : x = (e, o) := hst.eq_of_offset hx (hst.mem_window_iff.1 he).1 hxo
        exact Or.inl (mem_append_right _ (by rw [hxe]; simp))
      · simp only at hlt
        exact (hskip x hx hs (by omega)).imp_left (mem_append_left _)
    · rw [hut] at hd
      simp only [hp] at hd
      cases hd
  · refine ⟨htracks, fun x hx hs hlt => ?_, fun _ => hturn _ ⟨⟨hen, fun x hx hs => ?_⟩, ?_, ?_,
      fun x hx hs => ?_⟩⟩
    · rw [hut] at hs hlt ⊢
      rw [Subscriber.received_concat, append_nil]
      exact hskip x hx hs hlt
    · have hlt := RunStream.lt_tip_of_mem_window hx
      have := (hst.mem_window_iff.1 hx).2
      exact h.tracks.retained x hx hs (by omega)
    · rw [hut]
      exact (hend hen).concat _
    · rw [hut, Subscriber.received_concat, append_nil]
    · rw [hut]
      have := hst.lt_tip hx
      simp only
      omega
  · refine ⟨htracks, fun x hx hs hlt => ?_, fun hd => ?_⟩
    · rw [hut] at hs hlt ⊢
      exact hskip x hx hs hlt
    · rw [hut] at hd
      cases hd

theorem traced_fresh (maxsize : Int) : Traced (δ := δ) maxsize [] (.fresh δ maxsize) where
  bridge := wf_fresh maxsize
  ended := by simp [fresh]
  subs := by simp [fresh]

variable {s s' : MemoryStreams δ}

theorem Traced.notify (h : Traced maxsize as s) {b : MemoryStreamBridge δ} {i : ℕ}
    (hb : b.WF) (hext : s.bridge.Extends b i) (a : MemoryAct δ)
    (hend : ∀ (j : ℕ) (st : RunStream δ), b.heap[j]? = some st → st.ended →
      EndPublished maxsize (as ++ [a]) j) :
    Traced maxsize (as ++ [a]) { bridge := b, subs := s.subs.map (·.notify i) } where
  bridge := hb
  ended := hend
  subs := fun k u' hu => by
    rw [getElem?_map] at hu
    obtain ⟨u, hu0, rfl⟩ := map_eq_some_iff.1 hu
    obtain ⟨st, hst, hacc⟩ := h.subs k u hu0
    obtain ⟨st', hst', hg, hi⟩ := hext u.stream st hst
    refine ⟨st', ?_, (hacc.concat a).notify hg hi⟩
    rwa [Subscriber.notify_eq]

theorem Traced.stepSub (h : Traced maxsize as s) (a : MemoryAct δ) {j : ℕ} {u' : Subscriber δ}
    (hj : ∃ st, s.bridge.heap[u'.stream]? = some st ∧ Accounted maxsize (as ++ [a]) j u' st) :
    Traced maxsize (as ++ [a]) { s with subs := s.subs.set j u' } where
  bridge := h.bridge
  ended := fun i st hi he => (h.ended i st hi he).concat a
  subs := fun k u hu => by
    rcases Slots.getElem?_set_cases hu with ⟨rfl, rfl⟩ | ⟨-, hu⟩
    · exact hj
    · obtain ⟨st, hst, hacc⟩ := h.subs k u hu
      exact ⟨st, hst, hacc.concat a⟩

theorem stepSub_eq_some {k : ℕ} {f : Subscriber δ → Option (Subscriber δ)}
    (h : s.stepSub k f = some s') :
    ∃ u u', s.subs[k]? = some u ∧ f u = some u' ∧ s' = { s with subs := s.subs.set k u' } := by
  obtain ⟨u, hu, h⟩ := bind_eq_some_iff.1 h
  obtain ⟨u', hf, rfl⟩ := map_eq_some_iff.1 h
  exact ⟨u, u', hu, hf, rfl⟩

theorem resolveStartOffset_bounds (st : RunStream δ) (last : Option String) :
    st.startOffset ≤ st.resolveStartOffset last ∧ st.resolveStartOffset last ≤ st.tip := by
  unfold RunStream.resolveStartOffset RunStream.tip
  split
  · omega
  · split
    · rename_i hi
      have := (findIdx?_eq_some_iff_findIdx_eq.1 hi).1
      omega
    · omega

theorem accounted_start (st : RunStream δ) (last : Option String) (i : ℕ) :
    Accounted maxsize as k ⟨i, st.resolveStartOffset last, st.resolveStartOffset last, .polling, []⟩
      st where
  tracks := ⟨Nat.le_refl _, (resolveStartOffset_bounds st last).2, by simp [Subscriber.received],
    by simp [Subscriber.received], fun x hx hs hn => by simp only at hs hn; omega, by simp, by simp⟩
  passed := fun x hx hs hn => by
    simp only at hs hn
    omega
  stopped := by simp

theorem traced_step (hrun : (memoryStreams δ).run as (.fresh δ maxsize) = some s)
    (h : Traced maxsize as s) (a : MemoryAct δ) (hstep : (memoryStreams δ).step s a = some s') :
    Traced maxsize (as ++ [a]) s' := by
  cases a with
  | publish r event data ts =>
    cases hstep
    obtain ⟨hwf, hext⟩ := h.bridge.publish r event data ts
    refine h.notify hwf hext _ fun j st hj he => ?_
    obtain ⟨st0, h0, he0⟩ := s.bridge.ended_publish r event data ts hj he
    exact (h.ended j st0 h0 he0).concat _
  | publishEnd r =>
    cases hstep
    obtain ⟨hwf, hext⟩ := h.bridge.publishEnd r
    refine h.notify hwf hext _ fun j st hj he => ?_
    by_cases hne : (s.bridge.getOrCreateStream r).2 = j
    · exact ⟨as, r, [], s, rfl, hrun, hne⟩
    · exact (h.ended j st (s.bridge.ended_publishEnd r hj he hne) he).concat _
  | subscribe r last =>
    obtain ⟨st, hst, rfl⟩ := map_eq_some_iff.1 hstep
    obtain ⟨hwf, -, -, hheap⟩ := h.bridge.getOrCreateStream r
    refine ⟨hwf, fun j st' hj he => ?_, fun k u hu => ?_⟩
    · exact (h.ended j st' (s.bridge.ended_getOrCreateStream r hj he) he).concat _
    · rcases Slots.getElem?_concat_cases hu with hu | ⟨rfl, rfl⟩
      · obtain ⟨st', hst', hacc⟩ := h.subs k u hu
        obtain ⟨st'', hst'', -, hsame⟩ :=
          extends_of_heap (u.stream + 1) hheap u.stream st' hst'
        rw [hsame (by omega)] at hst''
        exact ⟨st', hst'', hacc.concat _⟩
      · exact ⟨st, hst, accounted_start st last _⟩
  | turn k =>
    obtain ⟨u, u', hu, hf, rfl⟩ := stepSub_eq_some hstep
    split_ifs at hf with hp
    obtain ⟨st, hst, rfl⟩ := map_eq_some_iff.1 hf
    obtain ⟨st', hst', hacc⟩ := h.subs k u hu
    rw [hst] at hst'
    cases hst'
    have hstream : (u.turn st).stream = u.stream := by
      obtain ⟨o, -, ⟨e, -, hut⟩ | ⟨-, -, hut⟩ | ⟨-, -, hut⟩⟩ := u.turn_cases st <;> rw [hut]
    refine h.stepSub _ ⟨st, by rw [hstream]; exact hst, ?_⟩
    exact hacc.turn (h.bridge.heap _ st hst) hp hrun hu hst (h.ended _ st hst)
  | wake k =>
    obtain ⟨u, u', hu, hf, rfl⟩ := stepSub_eq_some hstep
    split_ifs at hf with hp
    cases hf
    obtain ⟨st, hst, hacc⟩ := h.subs k u hu
    exact h.stepSub _ ⟨st, hst, (hacc.concat _).phase (by simp) (by simp [hp])⟩
  | timeout k =>
    obtain ⟨u, u', hu, hf, rfl⟩ := stepSub_eq_some hstep
    split at hf
    · rename_i hp
      cases hf
      obtain ⟨st, hst, hacc⟩ := h.subs k u hu
      exact h.stepSub _ ⟨st, hst, (hacc.concat _).heartbeat (by simp [hp])⟩
    · cases hf
  | cleanup r =>
    cases hstep
    refine ⟨h.bridge.cleanup r, fun i st hi he => (h.ended i st hi he).concat _, fun k u hu => ?_⟩
    obtain ⟨st, hst, hacc⟩ := h.subs k u hu
    exact ⟨st, hst, hacc.concat _⟩
  | close =>
    cases hstep
    refine ⟨h.bridge.close, fun i st hi he => (h.ended i st hi he).concat _, fun k u hu => ?_⟩
    obtain ⟨st, hst, hacc⟩ := h.subs k u hu
    exact ⟨st, hst, hacc.concat _⟩

theorem traced_run (h : (memoryStreams δ).run as (.fresh δ maxsize) = some s) :
    Traced maxsize as s :=
  Machine.run_trace_inv (fun _ _ a _ hrun hI _ hstep => traced_step hrun hI a hstep)
    (traced_fresh maxsize) (Machine.along_true _ _) h

/-- The actions subscriber `k` takes by itself. -/
def ownAction (k : ℕ) : MemoryAct δ → Prop
  | .turn j | .wake j => j = k
  | _ => False

variable {x : StreamEvent δ × ℕ}

theorem reaches_of_polling (n : ℕ) : ∀ (s : MemoryStreams δ)
    (u : Subscriber δ), s.subs[k]? = some u → u.phase = .polling →
      s.bridge.heap[u.stream]? = some st → st.WF → u.Tracks st → x ∈ st.window →
      u.nextOffset ≤ x.2 → x.2 - u.nextOffset < n →
      ∃ bs s' u', (∀ a ∈ bs, ownAction k a) ∧ (memoryStreams δ).run bs s = some s'
        ∧ s'.subs[k]? = some u' ∧ x ∈ u'.received := by
  induction n with
  | zero => omega
  | succ n ih =>
    intro s u hu hp hheap hst htr hx hle hn
    have hstep : (memoryStreams δ).step s (.turn k)
        = some { s with subs := s.subs.set k (u.turn st) } := by
      simp [memoryStreams, step, stepSub, hu, hp, hheap]
    have hset : (s.subs.set k (u.turn st))[k]? = some (u.turn st) := by
      rw [getElem?_set, if_pos rfl, if_pos (List.getElem?_eq_some_iff.1 hu).1]
    have hxs := hst.mem_window_iff.1 hx
    obtain ⟨o, ho, ⟨e, he, hut⟩ | ⟨ht, -, -⟩ | ⟨ht, -, -⟩⟩ := u.turn_cases st
    · by_cases hxo : x.2 = o
      · -- the turn hands out `x` itself
        refine ⟨[.turn k], _, u.turn st, by simp [ownAction], Machine.run_single hstep, hset, ?_⟩
        have hxe : x = (e, o) := hst.eq_of_offset hxs.1 (hst.mem_window_iff.1 he).1 hxo
        rw [hut, Subscriber.received_concat, hxe]
        simp
      · have hn' : (u.turn st).nextOffset = o + 1 := by rw [hut]
        have hstream : (u.turn st).stream = u.stream := by rw [hut]
        obtain ⟨bs, s', u', hbs, hrun, hu', hx'⟩ := ih { s with subs := s.subs.set k (u.turn st) }
          (u.turn st) hset (by rw [hut]; exact hp) (by rw [hstream]; exact hheap) hst
          (htr.turn hst hp) hx (by rw [hn']; omega) (by rw [hn']; omega)
        refine ⟨.turn k :: bs, s', u', ?_, ?_, hu', hx'⟩
        · intro a ha
          rcases mem_cons.1 ha with rfl | ha
          · rfl
          · exact hbs a ha
        · rw [Machine.run_cons, hstep]
          exact hrun
    all_goals
      have := RunStream.lt_tip_of_mem_window hx
      omega

theorem reaches (h : Traced maxsize as s) (hu : s.subs[k]? = some u)
    (hst : s.bridge.heap[u.stream]? = some st) (hd : u.phase ≠ .done) (hx : x ∈ st.window)
    (hle : u.nextOffset ≤ x.2) :
    ∃ bs s' u', (∀ a ∈ bs, ownAction k a) ∧ (memoryStreams δ).run bs s = some s'
      ∧ s'.subs[k]? = some u' ∧ x ∈ u'.received := by
  have hwf := h.bridge.heap _ st hst
  obtain ⟨st', hst', hacc⟩ := h.subs k u hu
  rw [hst] at hst'
  cases hst'
  cases hp : u.phase with
  | polling => exact reaches_of_polling _ s u hu hp hst hwf hacc.tracks hx hle (Nat.lt_succ_self _)
  | done => exact absurd hp hd
  | waiting notified =>
    cases notified with
    | false =>
      have := (hacc.tracks.waiting hp).1
      have := RunStream.lt_tip_of_mem_window hx
      omega
    | true =>
      have hstep : (memoryStreams δ).step s (.wake k)
          = some { s with subs := s.subs.set k { u with phase := .polling } } := by
        simp [memoryStreams, step, stepSub, hu, hp]
      have hset : (s.subs.set k { u with phase := .polling })[k]?
          = some { u with phase := .polling } := by
        rw [getElem?_set, if_pos rfl, if_pos (List.getElem?_eq_some_iff.1 hu).1]
      obtain ⟨bs, s', u', hbs, hrun, hu', hx'⟩ := reaches_of_polling (x := x) _
        { s with subs := s.subs.set k { u with phase := .polling } } { u with phase := .polling }
        hset rfl hst hwf (hacc.phase (by simp) (by simp [hp])).tracks hx hle (Nat.lt_succ_self _)
      refine ⟨.wake k :: bs, s', u', ?_, ?_, hu', hx'⟩
      · intro a ha
        rcases mem_cons.1 ha with rfl | ha
        · rfl
        · exact hbs a ha
      · rw [Machine.run_cons, hstep]
        exact hrun

theorem resolveStartOffset_of_retained (hst : st.WF) (hx : x ∈ st.window) :
    st.resolveStartOffset (some x.1.id) = x.2 + 1 := by
  obtain ⟨hle, he⟩ := RunStream.mem_window.1 hx
  have hfind : st.events.findIdx? (fun e => e.id = x.1.id) = some (x.2 - st.startOffset) := by
    cases hf : st.events.findIdx? fun e => e.id = x.1.id with
    | none =>
      have := findIdx?_eq_none_iff.1 hf x.1 (mem_of_getElem? he)
      simp at this
    | some i =>
      obtain ⟨hi, hid, -⟩ := findIdx?_eq_some_iff_getElem.1 hf
      have hy : (st.events[i], st.startOffset + i) ∈ st.window :=
        RunStream.mem_window.2 ⟨by omega, by simp [hi]⟩
      have := hst.eq_of_id (hst.mem_window_iff.1 hy).1 (hst.mem_window_iff.1 hx).1 (by simpa using hid)
      rw [← this]
      simp
  unfold RunStream.resolveStartOffset
  dsimp only
  rw [hfind]
  simp only
  omega

end Runs

/-- A subscriber gets published events only, from its start on, in order and none twice; it misses
one only if that was trimmed before its turn came to it, and alone it comes to every one that is
retained; it stops only after `publish_end`, with all its stream retained handed out; and one that
resumes at a retained event starts with the next. -/
theorem memory_stream_delivers {maxsize : Int} {as : List (MemoryAct δ)} {s : MemoryStreams δ}
    (h : (memoryStreams δ).run as (.fresh δ maxsize) = some s) :
    (∀ (k : ℕ) (u : Subscriber δ), s.subs[k]? = some u → ∃ st, s.bridge.heap[u.stream]? = some st
        ∧ st.published.Pairwise (fun x y => x.2 < y.2)
        ∧ u.received.Pairwise (fun x y => x.2 < y.2)
        ∧ (∀ x ∈ u.received, x ∈ st.published ∧ u.start ≤ x.2)
        ∧ (∀ x ∈ st.published, u.start ≤ x.2 → x ∈ u.received
            ∨ HadTurn maxsize as k (TrimmedBefore x)
            ∨ u.nextOffset ≤ x.2 ∧ (x ∈ st.window → u.phase ≠ .done →
                ∃ bs s' u', (∀ a ∈ bs, ownAction k a) ∧ (memoryStreams δ).run bs s = some s'
                  ∧ s'.subs[k]? = some u' ∧ x ∈ u'.received))
        ∧ (Yield.stop ∈ u.yielded → HadTurn maxsize as k fun u1 st1 => Drained u1 st1
            ∧ EndPublished maxsize as u.stream ∧ u.received = u1.received
            ∧ ∀ x ∈ st1.published, u.start ≤ x.2 → x.2 < u.nextOffset))
    ∧ ∀ (r : RunId) (i : ℕ) (st : RunStream δ) (x : StreamEvent δ × ℕ),
        s.bridge.streams.get? r = some i → s.bridge.heap[i]? = some st → x ∈ st.window →
        (memoryStreams δ).step s (.subscribe r (some x.1.id))
          = some { s with subs := s.subs ++ [⟨i, x.2 + 1, x.2 + 1, .polling, []⟩] } := by
  have hT := traced_run h
  refine ⟨fun k u hu => ?_, fun r i st x hr hi hx => ?_⟩
  · obtain ⟨st, hst, hacc⟩ := hT.subs k u hu
    refine ⟨st, hst, (hT.bridge.heap _ st hst).sorted, hacc.tracks.sorted, fun x hx => ?_,
      fun x hx hs => ?_, fun hstop => hacc.stopped (hacc.tracks.stop hstop)⟩
    · exact ⟨(hacc.tracks.received x hx).1, (hacc.tracks.received x hx).2.1⟩
    · by_cases hn : x.2 < u.nextOffset
      · exact (hacc.passed x hx hs hn).imp_right Or.inl
      · exact Or.inr (Or.inr ⟨by omega, fun hw hd => reaches hT hu hst hd hw (by omega)⟩)
  · have hres := resolveStartOffset_of_retained (hT.bridge.heap i st hi) hx
    simp [memoryStreams, step, getOrCreateStream, hr, hi, hres]

/-- A reader that comes late to a bridge of two events, and one that resumes after the first of
them. -/
theorem late_reader_gets_last_two :
    ∃ (s : MemoryStreams ℕ) (u : Subscriber ℕ) (st : RunStream ℕ), (memoryStreams ℕ).run
        [.publish "r" "values" 0 5, .publish "r" "values" 1 5, .publish "r" "values" 2 7,
          .subscribe "r" none, .turn 0, .turn 0, .publishEnd "r", .turn 0] (.fresh ℕ 2) = some s
      ∧ s.subs[0]? = some u ∧ s.bridge.heap[u.stream]? = some st
      ∧ u.received.map (·.1.data) = [1, 2] ∧ st.published.map (·.1.data) = [0, 1, 2]
      ∧ (∀ x ∈ u.received, x ∈ st.published ∧ u.start ≤ x.2)
      ∧ (memoryStreams ℕ).step s (.subscribe "r" (some "5-1"))
          = some { s with subs := s.subs ++ [⟨0, 2, 2, .polling, []⟩] } := by
  let e0 : StreamEvent ℕ := ⟨"5-0", "values", 0⟩
  let e1 : StreamEvent ℕ := ⟨"5-1", "values", 1⟩
  let e2 : StreamEvent ℕ := ⟨"7-2", "values", 2⟩
  let st : RunStream ℕ := ⟨[e1, e2], true, 1, [(e0, 0), (e1, 1), (e2, 2)]⟩
  let u : Subscriber ℕ := ⟨0, 1, 3, .done, [.event e1 1, .event e2 2, .stop]⟩
  let s : MemoryStreams ℕ := ⟨⟨2, [st], ⟨[("r", 0)], by decide⟩, ⟨[("r", 3)], by decide⟩⟩, [u]⟩
  have hrun : (memoryStreams ℕ).run
      [.publish "r" "values" 0 5, .publish "r" "values" 1 5, .publish "r" "values" 2 7,
        .subscribe "r" none, .turn 0, .turn 0, .publishEnd "r", .turn 0] (.fresh ℕ 2) = some s := by
    rfl
  have h := memory_stream_delivers hrun
  obtain ⟨st', hst, -, -, hrec, -⟩ := h.1 0 u rfl
  cases hst
  exact ⟨s, u, st, hrun, rfl, rfl, rfl, rfl, hrec, h.2 "r" 0 st (e1, 1) rfl rfl (mem_cons_self ..)⟩

section Retention

variable {maxsize : Int}

/-- As many events as were published, `maxsize` at most. -/
def RunStream.Filled (maxsize : Int) (st : RunStream δ) : Prop :=
  st.window.length = min st.published.length maxsize.toNat

theorem RunStream.Filled.append {st : RunStream δ} (h : st.Filled maxsize) (hm : 0 ≤ maxsize)
    (e : StreamEvent δ) : (st.append maxsize e).Filled maxsize := by
  unfold Filled at h ⊢
  rw [published_append]
  unfold RunStream.append
  simp only [window, length_zipIdx, length_append, length_singleton] at h ⊢
  split_ifs <;> simp <;> omega

theorem filled_step {s s' : MemoryStreams δ} {a : MemoryAct δ} (hm : 0 ≤ maxsize)
    (h : s.bridge.maxsize = maxsize ∧ ∀ st ∈ s.bridge.heap, st.Filled maxsize)
    (hs : (memoryStreams δ).step s a = some s') :
    s'.bridge.maxsize = maxsize ∧ ∀ st ∈ s'.bridge.heap, st.Filled maxsize := by
  have hget : ∀ r, (s.bridge.getOrCreateStream r).1.maxsize = maxsize ∧
      ∀ st ∈ (s.bridge.getOrCreateStream r).1.heap, st.Filled maxsize := by
    intro r
    unfold getOrCreateStream
    split
    · exact h
    · exact ⟨h.1, Slots.forall_mem_concat h.2 (by simp [RunStream.Filled, RunStream.window])⟩
  have hmodify : ∀ {r : RunId} {i : ℕ} {f : RunStream δ → RunStream δ},
      (∀ st, st.Filled maxsize → (f st).Filled maxsize) →
      ∀ st ∈ (s.bridge.getOrCreateStream r).1.heap.modify i f, st.Filled maxsize := by
    intro r i f hf st hst
    obtain ⟨j, hj⟩ := mem_iff_getElem?.1 hst
    rw [getElem?_modify] at hj
    obtain ⟨st0, h0, rfl⟩ := map_eq_some_iff.1 hj
    have := (hget r).2 _ (mem_of_getElem? h0)
    split_ifs
    · exact hf _ this
    · exact this
  cases a with
  | publish r event data ts =>
    cases hs
    exact ⟨(hget r).1, hmodify fun st hst => (hget r).1 ▸ hst.append hm _⟩
  | publishEnd r =>
    cases hs
    exact ⟨(hget r).1, hmodify fun _ hst => hst⟩
  | subscribe r lastEventId =>
    obtain ⟨st, -, rfl⟩ := map_eq_some_iff.1 hs
    exact hget r
  | turn k | wake k | timeout k =>
    obtain ⟨u, u', -, -, rfl⟩ := stepSub_eq_some hs
    exact h
  | cleanup r | close =>
    cases hs
    exact h

/-- Whoever publishes, subscribes and cleans up, a stream retains the last `maxsize` of the events
published on it, at their offsets. -/
theorem streams_keep_the_last {as : List (MemoryAct δ)} {s : MemoryStreams δ} (hm : 0 ≤ maxsize)
    (hrun : (memoryStreams δ).run as (.fresh δ maxsize) = some s) :
    ∀ st ∈ s.bridge.heap, st.window = st.published.drop (st.published.length - maxsize.toNat) := by
  have hfilled := (Machine.run_inv (fun _ _ _ hI _ hs => filled_step hm hI hs)
    ⟨rfl, by simp [fresh]⟩ (Machine.along_true _ _) hrun).2
  intro st hst
  obtain ⟨i, hi⟩ := mem_iff_getElem?.1 hst
  obtain ⟨old, hpub, -⟩ := ((traced_run hrun).bridge.heap i st hi).retains
  have hlen := hfilled st hst
  have hold : st.published.length - maxsize.toNat = old.length := by
    unfold RunStream.Filled at hlen
    rw [hpub, length_append] at hlen ⊢
    omega
  rw [hold, hpub, drop_left]

theorem third_event_pushes_the_first_out :
    let as : List (MemoryAct ℕ) :=
      [.publish "r" "values" 0 5, .publish "r" "values" 1 5, .publish "r" "values" 2 7]
    ∃ s, (memoryStreams ℕ).run as (.fresh ℕ 2) = some s ∧
      ∀ st ∈ s.bridge.heap, st.window = st.published.drop (st.published.length - 2) := by
  intro as
  obtain ⟨s, hrun⟩ : ∃ s, (memoryStreams ℕ).run as (.fresh ℕ 2) = some s := ⟨_, rfl⟩
  exact ⟨s, hrun, streams_keep_the_last (show (0 : Int) ≤ 2 by decide) hrun⟩

/-- No event id comes twice on a stream, the offsets increase, and no two runs share a stream. -/
theorem stream_ids_are_unique {as : List (MemoryAct δ)} {s : MemoryStreams δ}
    (hrun : (memoryStreams δ).run as (.fresh δ maxsize) = some s) :
    (∀ st ∈ s.bridge.heap, (st.published.map fun x => x.1.id).Nodup ∧
        st.published.Pairwise fun x y => x.2 < y.2) ∧
      ∀ r r' i, s.bridge.streams.get? r = some i → s.bridge.streams.get? r' = some i → r = r' := by
  have hwf := (traced_run hrun).bridge
  refine ⟨fun st hst => ?_, hwf.inj⟩
  obtain ⟨i, hi⟩ := mem_iff_getElem?.1 hst
  exact ⟨(hwf.heap i st hi).ids, (hwf.heap i st hi).sorted⟩

theorem recreated_stream_is_another :
    let as : List (MemoryAct ℕ) := [.publish "r" "values" 0 5, .cleanup "r",
      .publish "r" "values" 1 5, .publish "q" "values" 2 5]
    ∃ s, (memoryStreams ℕ).run as (.fresh ℕ 2) = some s ∧
      ∀ st ∈ s.bridge.heap, (st.published.map fun x => x.1.id).Nodup := by
  intro as
  obtain ⟨s, hrun⟩ : ∃ s, (memoryStreams ℕ).run as (.fresh ℕ 2) = some s := ⟨_, rfl⟩
  exact ⟨s, hrun, fun st hst => ((stream_ids_are_unique hrun).1 st hst).1⟩

end Retention

end DeerFlow

import DeerFlow.Data.Slots
import DeerFlow.Proofs.JsonlText

/-!
# What a JSONL store gives back

A store holds a log when every file reads as the records of its run in their order; all its queries
are then the log's. A `put` of an event whose text has no separator keeps that form, and a new store
on the same directory goes on from the same numbers.
-/

namespace DeerFlow

open List Option EventRecord OrdDict

variable {J : Type} {V : JsonValues J}

def inRun (t q : String) (r : EventRecord J) : Bool := r.threadId = t ∧ r.runId = q

structure SeqOrdered (log : List (EventRecord J)) : Prop where
  increasing : log.Pairwise fun a b => a.threadId = b.threadId → a.seq < b.seq
  positive : ∀ r ∈ log, 0 < r.seq

theorem SeqOrdered.sorted {log : List (EventRecord J)} (h : SeqOrdered log) (t : String)
    {p : EventRecord J → Bool} (hp : ∀ r, p r → r.threadId = t) :
    (log.filter p).Pairwise fun a b => a.seq < b.seq := by
  have hpw := h.increasing.filter p
  refine List.Pairwise.imp_of_mem (fun {a b} ha hb hab => ?_) hpw
  exact hab ((hp a (of_mem_filter ha)).trans (hp b (of_mem_filter hb)).symm)

theorem SeqOrdered.concat {log : List (EventRecord J)} (h : SeqOrdered log) {r : EventRecord J}
    (hr : ∀ a ∈ log, a.threadId = r.threadId → a.seq < r.seq) (hpos : 0 < r.seq) :
    SeqOrdered (log ++ [r]) := by
  exact ⟨Slots.pairwise_concat h.increasing hr, Slots.forall_mem_concat h.positive hpos⟩

namespace JsonlEventStore

def readings (V : JsonValues J) (s : JsonlEventStore) (t q : String) : List J :=
  parsedLines V ((s.files.get? (t, q)).getD [])

structure Holds (V : JsonValues J) (s : JsonlEventStore) (log : List (EventRecord J)) : Prop where
  ordered : SeqOrdered log
  readings : ∀ t q, s.readings V t q = (log.filter (inRun t q)).map fun r => V.dict (r.fields V)

theorem sortBySeq_records {qs rs : List (EventRecord J)} (hp : qs.Perm rs)
    (h : rs.Pairwise fun a b => a.seq < b.seq) :
    sortBySeq V (qs.map fun r => V.dict (r.fields V)) = .ok (rs.map (fields V)) := by
  have hs := @mergeSort_of_perm _ _ _ Prod.fst _ _ (hp.map fun r => (r.seq, r.fields V))
    (pairwise_map.2 h)
  unfold sortBySeq
  rw [numbered_records]
  change Except.ok _ = _
  rw [hs, List.map_map]
  rfl

theorem Holds.readRunEvents {s : JsonlEventStore} {log : List (EventRecord J)} (h : s.Holds V log)
    {t q : String} (ht : isSafeId t) (hq : isSafeId q) :
    s.readRunEvents V t q = .ok ((log.filter (inRun t q)).map (fields V)) := by
  have hsorted := h.ordered.sorted t (p := inRun t q) fun r hr => by
    simp only [inRun, decide_eq_true_eq] at hr
    exact hr.1
  have hread := h.readings t q
  unfold JsonlEventStore.readRunEvents validateId
  rw [if_pos hq, if_pos ht]
  cases hf : s.files.get? (t, q) with
  | none =>
    have hnil : (log.filter (inRun t q)).map (fun r => V.dict (r.fields V)) = [] := by
      rw [← hread, JsonlEventStore.readings, hf]
      rfl
    rw [map_eq_nil_iff] at hnil
    rw [hnil]
    rfl
  | some text =>
    have htext : parsedLines V text = (log.filter (inRun t q)).map fun r => V.dict (r.fields V) := by
      rw [← hread, JsonlEventStore.readings, hf]
      rfl
    change sortBySeq V (parsedLines V text) = _
    rw [htext, sortBySeq_records (List.Perm.refl _) hsorted]

def threadRuns (s : JsonlEventStore) (t : String) : List String := (s.threadFiles t).map Prod.fst

theorem mem_threadFiles {s : JsonlEventStore} {t q : String} {text : List Char} :
    (q, text) ∈ s.threadFiles t ↔ s.files.get? (t, q) = some text := by
  rw [← mem_entries_iff]
  unfold threadFiles
  rw [mem_filterMap]
  constructor
  · rintro ⟨⟨⟨t', q'⟩, text'⟩, hm, he⟩
    split_ifs at he with h
    cases he
    exact h ▸ hm
  · intro hm
    exact ⟨_, hm, by simp⟩

theorem threadRuns_nodup (s : JsonlEventStore) (t : String) : (s.threadRuns t).Nodup := by
  unfold threadRuns threadFiles
  have h := s.files.nodup
  generalize s.files.entries = es at h ⊢
  induction es with
  | nil => exact nodup_nil
  | cons e es ih =>
    rw [map_cons, nodup_cons] at h
    have ih' := ih h.2
    by_cases he : e.1.1 = t
    · simp only [filterMap_cons, if_pos he, map_cons, nodup_cons]
      refine ⟨?_, ih'⟩
      intro hm
      obtain ⟨⟨q, text⟩, hf, hq⟩ := mem_map.1 hm
      obtain ⟨e', he', heq⟩ := mem_filterMap.1 hf
      split_ifs at heq with ht
      cases heq
      exact h.1 (mem_map.2 ⟨e', he', Prod.ext (ht.trans he.symm) hq⟩)
    · simp only [filterMap_cons, if_neg he]
      exact ih'

theorem perm_runs {log : List (EventRecord J)} {t : String} : ∀ {qs : List String}, qs.Nodup →
    (qs.flatMap fun q => log.filter (inRun t q)).Perm
      (log.filter fun r => decide (r.threadId = t ∧ r.runId ∈ qs))
  | [], _ => by simp
  | q :: qs, h => by
    obtain ⟨hq, hqs⟩ := nodup_cons.1 h
    have ih := @perm_runs log t _ hqs
    have hsplit := filter_append_perm (fun r => decide (r.runId = q))
      (log.filter fun r => decide (r.threadId = t ∧ r.runId ∈ q :: qs))
    rw [List.filter_filter, List.filter_filter] at hsplit
    rw [flatMap_cons]
    refine List.Perm.trans ?_ hsplit
    have h1 : log.filter (inRun t q) = log.filter fun r =>
        decide (r.runId = q) && decide (r.threadId = t ∧ r.runId ∈ q :: qs) := by
      refine filter_congr fun r _ => ?_
      by_cases hr : r.runId = q <;> simp [inRun, hr]
    have h2 : (log.filter fun r => decide (r.threadId = t ∧ r.runId ∈ qs)) = log.filter fun r =>
        (!decide (r.runId = q)) && decide (r.threadId = t ∧ r.runId ∈ q :: qs) := by
      refine filter_congr fun r _ => ?_
      by_cases hr : r.runId = q
      · simp [hr, hq]
      · simp [hr]
    rw [h1, ← h2]
    exact ih.append_left _

variable {s : JsonlEventStore} {log : List (EventRecord J)}

theorem Holds.mem_threadRuns (h : s.Holds V log) {r : EventRecord J} (hr : r ∈ log) :
    r.runId ∈ s.threadRuns r.threadId := by
  have hread := h.readings r.threadId r.runId
  cases hf : s.files.get? (r.threadId, r.runId) with
  | none =>
    rw [JsonlEventStore.readings, hf] at hread
    have hm : r ∈ log.filter (inRun r.threadId r.runId) := mem_filter.2 ⟨hr, by simp [inRun]⟩
    rw [map_eq_nil_iff.1 hread.symm] at hm
    cases hm
  | some text => exact mem_map.2 ⟨_, mem_threadFiles.2 hf, rfl⟩

theorem Holds.flatMap_files (h : s.Holds V log) {t : String} {fs : List (String × List Char)}
    (hfs : fs.Perm (s.threadFiles t)) :
    (fs.flatMap fun f => parsedLines V f.2)
      = ((fs.map Prod.fst).flatMap fun q => log.filter (inRun t q)).map
          (fun r => V.dict (r.fields V))
    ∧ ((fs.map Prod.fst).flatMap fun q => log.filter (inRun t q)).Perm
        (log.filter fun r => r.threadId = t) := by
  constructor
  · rw [map_flatMap, flatMap_map]
    refine flatMap_congr fun f hf => ?_
    have hget := mem_threadFiles.1 (hfs.mem_iff.1 hf)
    have hread := h.readings t f.1
    rw [JsonlEventStore.readings, hget] at hread
    exact hread
  · have hnodup : (fs.map Prod.fst).Nodup :=
      (hfs.map Prod.fst).nodup_iff.2 (s.threadRuns_nodup t)
    refine (perm_runs hnodup).trans (List.Perm.of_eq (filter_congr fun r hr => ?_))
    rw [decide_eq_decide]
    refine ⟨And.left, fun ht => ⟨ht, ?_⟩⟩
    have hm := h.mem_threadRuns hr
    rw [ht] at hm
    exact (hfs.map Prod.fst).mem_iff.2 hm

theorem Holds.readThreadEvents (h : s.Holds V log) {t : String} (ht : isSafeId t) :
    s.readThreadEvents V t
      = .ok ((log.filter fun r => r.threadId = t).map (fields V)) := by
  have hsorted := h.ordered.sorted t (p := fun r => decide (r.threadId = t)) fun r hr => by
    simpa using hr
  obtain ⟨hvalues, hperm⟩ := h.flatMap_files (mergeSort_perm (s.threadFiles t)
    fun a b => decide (a.1 ++ ".jsonl" ≤ b.1 ++ ".jsonl"))
  unfold JsonlEventStore.readThreadEvents validateId
  rw [if_pos ht]
  change sortBySeq V (((s.threadFiles t).mergeSort
    fun a b => decide (a.1 ++ ".jsonl" ≤ b.1 ++ ".jsonl")).flatMap _) = _
  rw [hvalues, sortBySeq_records hperm hsorted]

/-- The files are whole lines, the records of `log`, and the counters are not behind. -/
structure Filed (V : JsonValues J) (s : JsonlEventStore) (log : List (EventRecord J)) : Prop where
  ordered : SeqOrdered log
  plain : ∀ r ∈ log, r.Plain V
  files : ∀ t q, (s.files.get? (t, q)).getD []
    = joined ((log.filter (inRun t q)).map (text V))
  counters : ∀ t n, s.seqCounters.get? t = some n →
    0 ≤ n ∧ ∀ r ∈ log, r.threadId = t → r.seq ≤ n

theorem Filed.parsedLines_append (h : s.Filed V log) (t q : String) {cs : List Char}
    (hc : ∀ c ∈ cs.head?, isSpace c = false) :
    parsedLines V ((s.files.get? (t, q)).getD [] ++ cs)
      = (log.filter (inRun t q)).map (fun r => V.dict (r.fields V)) ++ parsedLines V cs := by
  rw [h.files t q]
  exact parsedLines_records (fun r hr => h.plain r (mem_of_mem_filter hr)) hc

theorem Filed.holds (h : s.Filed V log) : s.Holds V log := by
  refine ⟨h.ordered, fun t q => ?_⟩
  have hp := @Filed.parsedLines_append _ _ _ _ h t q [] (by simp)
  rw [append_nil, parsedLines_nil, append_nil] at hp
  exact hp

theorem le_foldl_max : ∀ (ns : List Int) (m : Int), m ≤ ns.foldl max m ∧ ∀ n ∈ ns, n ≤ ns.foldl max m
  | [], m => ⟨Int.le_refl m, by simp⟩
  | n :: ns, m => by
    obtain ⟨h1, h2⟩ := le_foldl_max ns (max m n)
    rw [foldl_cons]
    refine ⟨by omega, fun k hk => ?_⟩
    rcases mem_cons.1 hk with rfl | hk
    · omega
    · exact h2 k hk

theorem Holds.computeMaxSeq (h : s.Holds V log) {t : String} (ht : isSafeId t) :
    ∃ n, s.computeMaxSeq V t = .ok n ∧ 0 ≤ n ∧ (∀ r ∈ log, r.threadId = t → r.seq ≤ n)
      ∧ ((∀ r ∈ log, r.threadId ≠ t) → n = 0) := by
  obtain ⟨hvalues, hperm⟩ := h.flatMap_files (List.Perm.refl (s.threadFiles t))
  generalize ((s.threadFiles t).map Prod.fst).flatMap (fun q => log.filter (inRun t q)) = rs
    at hvalues hperm
  have hbound := le_foldl_max (rs.map seq) 0
  refine ⟨(rs.map seq).foldl max 0, ?_, hbound.1, ?_, ?_⟩
  · unfold JsonlEventStore.computeMaxSeq validateId
    rw [if_pos ht, hvalues]
    rw [numbered_records]
    change Except.ok _ = _
    rw [List.map_map]
    rfl
  · intro r hr hrt
    exact hbound.2 _ (mem_map_of_mem (hperm.mem_iff.2 (mem_filter.2 ⟨hr, by simpa using hrt⟩)))
  · intro hnone
    have hnil : (log.filter fun r => decide (r.threadId = t)) = [] :=
      filter_eq_nil_iff.2 fun r hr => by simpa using hnone r hr
    rw [hnil] at hperm
    rw [List.Perm.eq_nil hperm]
    rfl

theorem Filed.ensureSeqLoaded (h : s.Filed V log) {t : String} (ht : isSafeId t) :
    ∃ s' n, s.ensureSeqLoaded V t = .ok s' ∧ s'.Filed V log
      ∧ (∀ t', s'.seqCounters.get? t' = if t = t' then some n else s.seqCounters.get? t')
      ∧ (∀ m, s.seqCounters.get? t = some m → n = m)
      ∧ (s.seqCounters.get? t = none → (∀ r ∈ log, r.threadId ≠ t) → n = 0) := by
  unfold JsonlEventStore.ensureSeqLoaded
  cases hc : s.seqCounters.get? t with
  | some n =>
    refine ⟨s, n, rfl, h, fun t' => ?_, fun m hm => some.inj hm, by simp⟩
    split_ifs with ht'
    · rw [← ht', hc]
    · rfl
  | none =>
    obtain ⟨n, hn, hpos, hle, hzero⟩ := h.holds.computeMaxSeq ht
    refine ⟨{ s with seqCounters := s.seqCounters.set t n }, n, ?_, ?_, by simp, by simp,
      fun _ => hzero⟩
    · simp only [hn]
      rfl
    · refine ⟨h.ordered, h.plain, h.files, fun t' n' hn' => ?_⟩
      rw [get?_set] at hn'
      split_ifs at hn' with htt
      · cases hn'
        exact ⟨hpos, fun r hr hrt => hle r hr (hrt.trans htt.symm)⟩
      · exact h.counters t' n' hn'

theorem get?_appendText (s : JsonlEventStore) (t q : String) (text : List Char) (t' q' : String) :
    ((s.appendText t q text).files.get? (t', q')).getD []
      = (s.files.get? (t', q')).getD [] ++ if t = t' ∧ q = q' then text else [] := by
  simp only [appendText, get?_set, Prod.mk.injEq]
  split_ifs with h
  · obtain ⟨rfl, rfl⟩ := h
    rfl
  · rw [append_nil]

theorem Filed.appendLine (h : s.Filed V log) {r : EventRecord J} (hp : r.Plain V)
    (hnew : ∀ a ∈ log, a.threadId = r.threadId → a.seq < r.seq) (hpos : 0 < r.seq)
    (hcount : s.seqCounters.get? r.threadId = some r.seq) :
    (s.appendText r.threadId r.runId (line V r)).Filed V (log ++ [r]) := by
  refine ⟨h.ordered.concat hnew hpos, Slots.forall_mem_concat h.plain hp, ?_, ?_⟩
  · intro t q
    rw [get?_appendText, h.files t q, filter_append]
    by_cases hr : r.threadId = t ∧ r.runId = q
    · have hin : inRun t q r := by simpa [inRun] using hr
      rw [if_pos hr, filter_singleton, hin, cond_true, map_append, map_singleton, joined_concat]
      rfl
    · have hin : inRun t q r = false := by simpa [inRun] using hr
      rw [if_neg hr, filter_singleton, hin]
      simp
  · intro t n hn
    obtain ⟨hn0, hle⟩ := h.counters t n hn
    refine ⟨hn0, Slots.forall_mem_concat hle fun hat => ?_⟩
    rw [← hat] at hn
    exact Int.le_of_eq (some.inj (hcount.symm.trans hn))

theorem Filed.nextSeq (h : s.Filed V log) {t : String} {n : Int}
    (hn : s.seqCounters.get? t = some n) :
    (s.nextSeq t).2 = n + 1 ∧ (s.nextSeq t).1.Filed V log
    ∧ (s.nextSeq t).1.seqCounters.get? t = some (n + 1) := by
  have hcount := h.counters t n hn
  refine ⟨by simp [JsonlEventStore.nextSeq, hn], ⟨h.ordered, h.plain, h.files, ?_⟩,
    by simp [JsonlEventStore.nextSeq, hn]⟩
  intro t' n' hn'
  simp only [JsonlEventStore.nextSeq, hn, get?_set, getD_some] at hn'
  split_ifs at hn' with ht
  · cases hn'
    refine ⟨by omega, fun r hr hrt => ?_⟩
    have := hcount.2 r hr (hrt.trans ht.symm)
    omega
  · exact h.counters t' n' hn'

theorem validateId_eq_ok {value label : String} (h : isSafeId value) :
    validateId value label = .ok () := if_pos h

theorem Filed.put (h : s.Filed V log) {e : EventArgs J} (ht : isSafeId e.threadId)
    (hq : isSafeId e.runId) (hp : ∀ n, (e.record n).Plain V) :
    ∃ s' n, s.put V e .ok = (s', .ok (e.record n)) ∧ s'.Filed V (log ++ [e.record n])
      ∧ (∀ t, s'.seqCounters.get? t = if e.threadId = t then some n else s.seqCounters.get? t)
      ∧ (∀ m, s.seqCounters.get? e.threadId = some m → n = m + 1)
      ∧ (s.seqCounters.get? e.threadId = none → (∀ r ∈ log, r.threadId ≠ e.threadId) → n = 1) := by
  obtain ⟨s1, n, hload, h1, hn', hsome, hnone⟩ := h.ensureSeqLoaded ht
  have hn : s1.seqCounters.get? e.threadId = some n := by rw [hn', if_pos rfl]
  obtain ⟨hseq, h2, hn2⟩ := h1.nextSeq hn
  have hcount := h1.counters _ n hn
  have h3 := h2.appendLine (r := e.record (n + 1)) (hp _)
    (fun a ha hat => Int.lt_add_one_of_le (hcount.2 a ha hat))
    (Int.lt_add_one_of_le hcount.1) hn2
  refine ⟨_, n + 1, ?_, h3, fun t => ?_, fun m hm => by rw [hsome m hm],
    fun hm hlog => by rw [hnone hm hlog]; rfl⟩
  · unfold JsonlEventStore.put
    rw [hload]
    dsimp only
    rw [hseq]
    simp only [writeRecord, validateId_eq_ok (show isSafeId (e.record (n + 1)).runId from hq),
      validateId_eq_ok (show isSafeId (e.record (n + 1)).threadId from ht)]
  · simp only [appendText, JsonlEventStore.nextSeq, get?_set, hn', if_true, getD_some]
    split_ifs <;> rfl

/-- An event the store gives back: safe ids, and no separator in its text under any number. -/
def Fits (V : JsonValues J) (e : EventArgs J) : Prop :=
  isSafeId e.threadId = true ∧ isSafeId e.runId = true ∧ ∀ n, (e.record n).Plain V

theorem Filed.putBatch : ∀ {es : List (EventArgs J)} {s : JsonlEventStore}
    {log : List (EventRecord J)}, s.Filed V log → (∀ e ∈ es, Fits V e) →
    ∃ s' ns, s.putBatch V (es.map fun e => (e, .ok)) = (s', .ok (zipWith EventArgs.record es ns))
      ∧ ns.length = es.length ∧ s'.Filed V (log ++ zipWith EventArgs.record es ns)
  | [], s, log, h, _ => ⟨s, [], rfl, rfl, by simpa using h⟩
  | e :: es, s, log, h, hes => by
    obtain ⟨ht, hq, hp⟩ := hes e mem_cons_self
    obtain ⟨s1, n, hput, h1, -⟩ := h.put ht hq hp
    obtain ⟨s2, ns, hrest, hlen, h2⟩ := h1.putBatch fun e' he' => hes e' (mem_cons_of_mem _ he')
    refine ⟨s2, n :: ns, ?_, by simp [hlen], by simpa using h2⟩
    rw [map_cons, JsonlEventStore.putBatch, hput]
    dsimp only
    rw [hrest]
    rfl

end JsonlEventStore

/-- A directory under one process after another; `log` are the records its calls returned. -/
structure JsonlHistory (J : Type) where
  store : JsonlEventStore := {}
  log : List (EventRecord J) := []

inductive JsonlAct (J : Type) where
  | put (e : EventArgs J)
  | putBatch (es : List (EventArgs J))
  | restart

def JsonlAct.events : JsonlAct J → List (EventArgs J)
  | .put e => [e]
  | .putBatch es => es
  | .restart => []

def jsonlStore (V : JsonValues J) : Machine (JsonlHistory J) (JsonlAct J) where
  step h
    | .put e => match h.store.put V e .ok with
      | (s, .ok r) => some ⟨s, h.log ++ [r]⟩
      | (s, .error _) => some ⟨s, h.log⟩
    | .putBatch es => match h.store.putBatch V (es.map fun e => (e, .ok)) with
      | (s, .ok rs) => some ⟨s, h.log ++ rs⟩
      | (s, .error _) => some ⟨s, h.log⟩
    | .restart => some ⟨h.store.restart, h.log⟩

def EventRecord.given (r : EventRecord J) :
    String × String × String × String × J × List (String × J) :=
  (r.threadId, r.runId, r.eventType, r.category, r.content, r.metadata)

theorem given_records : ∀ {es : List (EventArgs J)} {ns : List Int}, ns.length = es.length →
    (zipWith EventArgs.record es ns).map given
      = es.map fun e => (e.record 0).given
  | [], _, _ => by simp
  | e :: es, [], h => by simp at h
  | e :: es, n :: ns, h => by
    rw [zipWith_cons_cons, map_cons, map_cons, given_records (Nat.succ.inj h)]
    rfl

open JsonlEventStore in
theorem jsonlStore_step {h h' : JsonlHistory J} {a : JsonlAct J} (hf : h.store.Filed V h.log)
    (ha : ∀ e ∈ a.events, Fits V e) (hstep : (jsonlStore V).step h a = some h') :
    h'.store.Filed V h'.log ∧ h'.log.map given
      = h.log.map given ++ a.events.map fun e => (e.record 0).given := by
  cases a with
  | put e =>
    obtain ⟨ht, hq, hp⟩ := ha e mem_cons_self
    obtain ⟨s', n, hput, hs', -⟩ := hf.put ht hq hp
    simp only [jsonlStore, hput, some.injEq] at hstep
    subst hstep
    exact ⟨hs', by rw [map_append]; rfl⟩
  | putBatch es =>
    have hes : ∀ e ∈ es, Fits V e := ha
    obtain ⟨s', ns, hput, hlen, hs'⟩ := hf.putBatch hes
    simp only [jsonlStore, hput, some.injEq] at hstep
    subst hstep
    exact ⟨hs', by rw [map_append, given_records hlen]; rfl⟩
  | restart =>
    simp only [jsonlStore, some.injEq] at hstep
    subst hstep
    refine ⟨⟨hf.ordered, hf.plain, hf.files, fun t n hn => ?_⟩, by simp [JsonlAct.events]⟩
    simp [JsonlEventStore.restart] at hn

open JsonlEventStore in
/-- Where no event's text holds a separator, `list_events` of a run gives the records that `put`
and `put_batch` returned for it, through any restarts, with what their callers gave, and the numbers
of a thread grow. -/
theorem jsonl_round_trip {as : List (JsonlAct J)} {h : JsonlHistory J}
    (hok : (jsonlStore V).Along (fun _ a => ∀ e ∈ a.events, Fits V e) as {})
    (hrun : (jsonlStore V).run as {} = some h) :
    (∀ t q limit, isSafeId t = true → isSafeId q = true → (h.log.filter (inRun t q)).length ≤ limit →
      h.store.listEvents V t q none limit
        = .ok ((h.log.filter (inRun t q)).map (fields V)))
    ∧ h.log.map given = (as.flatMap JsonlAct.events).map (fun e => (e.record 0).given)
    ∧ h.log.Pairwise fun a b => a.threadId = b.threadId → a.seq < b.seq := by
  have hfresh : ({} : JsonlHistory J).store.Filed V ({} : JsonlHistory J).log :=
    ⟨⟨List.Pairwise.nil, by simp⟩, by simp, fun t q => rfl, fun t n hn => by simp at hn⟩
  have hinv := Machine.run_trace_inv
    (I := fun as h => h.store.Filed V h.log ∧ h.log.map given
      = (as.flatMap JsonlAct.events).map fun e => (e.record 0).given)
    (fun as h a h' _ hI ha hstep => by
      obtain ⟨hf, hg⟩ := jsonlStore_step hI.1 ha hstep
      refine ⟨hf, ?_⟩
      rw [hg, hI.2]
      simp) ⟨hfresh, rfl⟩ hok hrun
  refine ⟨fun t q limit ht hq hlimit => ?_, hinv.2, hinv.1.ordered.increasing⟩
  unfold JsonlEventStore.listEvents
  rw [hinv.1.holds.readRunEvents ht hq]
  change Except.ok _ = _
  rw [take_of_length_le (by simpa using hlimit)]

theorem fits_json {e : EventArgs Json} (ht : isSafeId e.threadId)
    (hq : isSafeId e.runId)
    (h : ((Json.obj ((e.record 0).fields jsonValues)).strings.all fun s =>
      s.toList.all fun c => !isSeparator c)) : JsonlEventStore.Fits jsonValues e := by
  refine ⟨ht, hq, fun n => plain_of_strings (v := .obj ((e.record n).fields jsonValues)) ?_⟩
  intro s hs c hc
  simpa using all_eq_true.1 (all_eq_true.1 h s hs) c hc

/-- Two runs of a thread, the second put after a restart, come back with their numbers. -/
theorem events_survive_restart :
    let a : EventArgs Json := { threadId := "t", runId := "r", eventType := "x", category := "y",
                                content := .str "é", createdAt := some "z" }
    ∃ h, (jsonlStore jsonValues).run [.put a, .restart, .putBatch [{ a with runId := "s" }, a]] {}
        = some h
      ∧ h.log.length = 3
      ∧ h.store.listEvents jsonValues "t" "r" none 500
        = .ok ((h.log.filter (inRun "t" "r")).map (fields jsonValues)) := by
  intro a
  have hok : (jsonlStore jsonValues).Along
      (fun _ b => ∀ e ∈ b.events, JsonlEventStore.Fits jsonValues e)
      [.put a, .restart, .putBatch [{ a with runId := "s" }, a]] {} := by
    have ha : JsonlEventStore.Fits jsonValues a := fits_json (by decide) (by decide) (by decide +kernel)
    have hb : JsonlEventStore.Fits jsonValues { a with runId := "s" } :=
      fits_json (by decide) (by decide) (by decide +kernel)
    refine ⟨?_, fun _ _ => ⟨by simp [JsonlAct.events], fun _ _ => ⟨?_, fun _ _ => trivial⟩⟩⟩
    · simpa [JsonlAct.events] using ha
    · simpa [JsonlAct.events] using ⟨hb, ha⟩
  have hlen : ((jsonlStore jsonValues).run
      [.put a, .restart, .putBatch [{ a with runId := "s" }, a]] {}).map (fun h => h.log.length)
      = some 3 := by decide +kernel
  obtain ⟨h, hrun, hlog⟩ := map_eq_some_iff.1 hlen
  refine ⟨h, hrun, hlog, (jsonl_round_trip hok hrun).1 "t" "r" 500 (by decide) (by decide) ?_⟩
  have := length_filter_le (inRun "t" "r") h.log
  omega

/-- A line separator in a content: the event is not listed, and its number is given again. -/
theorem separator_loses_event :
    let a : EventArgs Json := { threadId := "t", runId := "r", eventType := "x", category := "y",
                                content := .str (String.ofList ['a', Char.ofNat 0x2028, 'b'])
                                createdAt := some "z" }
    ((jsonlStore jsonValues).run [.put a, .restart, .put { a with content := .str "c" }] {}).map
        (fun h => (h.log.map seq,
          (h.store.listEvents jsonValues "t" "r" none 500).toOption.map length))
      = some ([1, 1], some 1) := by
  decide +kernel

end DeerFlow

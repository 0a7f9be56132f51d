import DeerFlow.Proofs.Frame

/-!
# The thread index of a manager

`_runs_by_thread` lists, for each thread, its runs in the order they were registered, and at most
one of them is in flight. Here is what `_index_run_locked`, `_unindex_run_locked` and the status
changes do to that (`Listed`, `Single`).
-/

namespace DeerFlow

open List Option RunRecord

namespace RunManager

variable {m m' : RunManager}

def threadOf (m : RunManager) (r : RunId) : Option ThreadId := (m.heap r).map threadId

def Active (m : RunManager) (r : RunId) : Prop := ∃ x, m.heap r = some x ∧ x.status.inflight = true

structure Listed (m : RunManager) : Prop where
  nodup : m.runs.Nodup
  known : ∀ r ∈ m.runs, ∃ x, m.heap r = some x ∧ x.runId = r
  bucket : ∀ t, (m.runsByThread.get? t).getD [] = m.runs.filter fun r => m.threadOf r = some t
  full : ∀ t b, m.runsByThread.get? t = some b → b ≠ []

def Single (m : RunManager) : Prop :=
  ∀ r ∈ m.runs, ∀ r' ∈ m.runs, m.threadOf r = m.threadOf r' → m.Active r → m.Active r' → r = r'

/-- `m'` has the runs of `m`, each with its identity, and none in flight that was not. -/
structure Settles (m m' : RunManager) : Prop where
  runs : m'.runs = m.runs
  index : m'.runsByThread = m.runsByThread
  ident : ∀ r, (m'.heap r).map (fun x => (x.runId, x.threadId))
    = (m.heap r).map fun x => (x.runId, x.threadId)
  active : ∀ r, m'.Active r → m.Active r

namespace Settles

theorem threadOf (h : Settles m m') (r : RunId) : m'.threadOf r = m.threadOf r := by
  have := congrArg (Option.map Prod.snd) (h.ident r)
  simpa [RunManager.threadOf, Option.map_map, Function.comp_def] using this

theorem listed (h : Settles m m') (hm : m.Listed) : m'.Listed where
  nodup := h.runs ▸ hm.nodup
  known := by
    intro r hr
    obtain ⟨x, hx, hid⟩ := hm.known r (h.runs ▸ hr)
    have hi := h.ident r
    rw [hx] at hi
    obtain ⟨y, hy, he⟩ := map_eq_some_iff.1 hi
    exact ⟨y, hy, (congrArg Prod.fst he).trans hid⟩
  bucket := by
    intro t
    simp only [h.index, h.runs, h.threadOf]
    exact hm.bucket t
  full := by
    intro t b hb
    exact hm.full t b (h.index ▸ hb)

theorem single (h : Settles m m') (hm : m.Single) : m'.Single := by
  intro r hr r' hr' ht ha ha'
  rw [h.threadOf, h.threadOf] at ht
  exact hm r (h.runs ▸ hr) r' (h.runs ▸ hr') ht (h.active r ha) (h.active r' ha')

end Settles

theorem settles_of_heap {heap : RunId → Option RunRecord}
    (h : ∀ r, heap r = m.heap r ∨ ∃ x y, m.heap r = some x ∧ heap r = some y ∧ y.runId = x.runId
      ∧ y.threadId = x.threadId ∧ (y.status.inflight → x.status.inflight)) :
    Settles m { m with heap := heap } where
  runs := rfl
  index := rfl
  ident := by
    intro r
    rcases h r with h | ⟨x, y, hx, hy, h1, h2, -⟩
    · simp [h]
    · simp [hx, hy, h1, h2]
  active := by
    rintro r ⟨z, hz, ha⟩
    change heap r = some z at hz
    rcases h r with h | ⟨x, y, hx, hy, -, -, h3⟩
    · exact ⟨z, by rw [← h, hz], ha⟩
    · rw [hy] at hz
      cases hz
      exact ⟨x, hx, h3 ha⟩

variable {r : RunId}

theorem settles_updateRecord {f : RunRecord → RunRecord}
    (h : ∀ x, m.heap r = some x → (f x).runId = x.runId ∧ (f x).threadId = x.threadId
      ∧ ((f x).status.inflight → x.status.inflight)) :
    Settles m { m with heap := fun r' => if r' = r then (m.heap r).map f else m.heap r' } := by
  refine settles_of_heap fun r' => ?_
  by_cases hr : r' = r
  · subst hr
    cases hx : m.heap r' with
    | none => simp
    | some x => exact .inr ⟨x, f x, rfl, by simp, h x hx⟩
  · simp [hr]

theorem heap_of_get {x : RunRecord} (h : m.get? r = some x) : m.heap r = some x := by
  unfold get? at h
  split_ifs at h
  exact h

theorem settles_updateRecords {rs : List RunId} {f : RunRecord → RunRecord}
    (h : ∀ x, (f x).runId = x.runId ∧ (f x).threadId = x.threadId
      ∧ ((f x).status.inflight → x.status.inflight)) :
    Settles m (m.updateRecords rs f) := by
  refine settles_of_heap fun r => ?_
  by_cases hr : r ∈ rs
  · cases hx : m.heap r with
    | none => simp [hr]
    | some x => exact .inr ⟨x, f x, rfl, by simp [hr], (h x).1, (h x).2.1, (h x).2.2⟩
  · simp [hr]

theorem listed_register {x : RunRecord} (hm : m.Listed) (hx : x.runId ∉ m.runs) :
    (m.register x).Listed := by
  have hruns : (m.register x).runs = m.runs ++ [x.runId] := by
    simp [register, indexRunLocked, insertKey, hx]
  have hthread : ∀ r, (m.register x).threadOf r
      = if r = x.runId then some x.threadId else m.threadOf r := by
    intro r
    simp only [threadOf, register, indexRunLocked]
    split_ifs <;> rfl
  have hold : ∀ t, (m.runs.filter fun r => (m.register x).threadOf r = some t)
      = m.runs.filter fun r => m.threadOf r = some t := by
    intro t
    refine filter_congr fun r hr => ?_
    have hne : r ≠ x.runId := fun h => hx (h ▸ hr)
    rw [hthread, if_neg hne]
  have hbucket : (m.runsByThread.get? x.threadId).getD []
      = m.runs.filter fun r => m.threadOf r = some x.threadId := hm.bucket x.threadId
  have hnew : x.runId ∉ (m.runsByThread.get? x.threadId).getD [] := by
    rw [hbucket]
    exact fun h => hx (mem_filter.1 h).1
  have hget : ∀ t, (m.register x).runsByThread.get? t
      = if x.threadId = t then some ((m.runsByThread.get? x.threadId).getD [] ++ [x.runId])
        else m.runsByThread.get? t := by
    intro t
    simp only [register, indexRunLocked, OrdDict.get?_set, insertKey, hnew, if_false]
  refine ⟨?_, ?_, fun t => ?_, fun t b hb => ?_⟩
  · rw [hruns]
    refine nodup_append.2 ⟨hm.nodup, by simp, ?_⟩
    rintro a ha b hb rfl
    rw [mem_singleton.1 hb] at ha
    exact hx ha
  · intro r hr
    rw [hruns, mem_append, mem_singleton] at hr
    by_cases hrx : r = x.runId
    · exact ⟨x, by simp [register, indexRunLocked, hrx], hrx.symm⟩
    · obtain ⟨y, hy, hid⟩ := hm.known r (hr.resolve_right hrx)
      exact ⟨y, by simp [register, indexRunLocked, hrx, hy], hid⟩
  · rw [hget, hruns, filter_append, hold t]
    by_cases ht : x.threadId = t
    · subst ht
      simp [hthread, hbucket]
    · simp [hthread, ht, hm.bucket t]
  · rw [hget] at hb
    split_ifs at hb
    · cases hb
      simp
    · exact hm.full t b hb

theorem unindexRunLocked_runs (r : RunId) (t : ThreadId) :
    (m.unindexRunLocked r t).runs = m.runs := by
  unfold unindexRunLocked
  split
  · rfl
  · dsimp only
    split_ifs <;> rfl

theorem unindexRunLocked_heap (r : RunId) (t : ThreadId) :
    (m.unindexRunLocked r t).heap = m.heap := by
  unfold unindexRunLocked
  split
  · rfl
  · dsimp only
    split_ifs <;> rfl

theorem unindexRunLocked_lock (r : RunId) (t : ThreadId) :
    (m.unindexRunLocked r t).lock = m.lock := by
  unfold unindexRunLocked
  split
  · rfl
  · dsimp only
    split_ifs <;> rfl

theorem unindexRunLocked_hasStore (r : RunId) (t : ThreadId) :
    (m.unindexRunLocked r t).hasStore = m.hasStore := by
  unfold unindexRunLocked
  split
  · rfl
  · dsimp only
    split_ifs <;> rfl

theorem unindexRunLocked_get (r : RunId) (t t' : ThreadId) :
    (m.unindexRunLocked r t).runsByThread.get? t'
      = if t = t' then ((m.runsByThread.get? t).map fun b => b.filter fun r' => r' ≠ r).filter
          fun b => !b.isEmpty
        else m.runsByThread.get? t' := by
  unfold unindexRunLocked
  by_cases ht : t = t'
  · subst ht
    cases hb : m.runsByThread.get? t with
    | none => simp [hb]
    | some b =>
      rw [if_pos rfl]
      dsimp only
      by_cases he : (b.filter fun r' => decide (r' ≠ r)).isEmpty
      · simp only [OrdDict.get?_pop, if_true, map_some, filter_some, he]
        rfl
      · rw [if_neg he, map_some, filter_some, OrdDict.get?_set, if_pos rfl, if_pos]
        simpa using he
  · cases hb : m.runsByThread.get? t with
    | none => simp [ht]
    | some b =>
      dsimp only
      split_ifs <;> simp [ht]

theorem listed_drop {t : ThreadId} (hm : m.Listed) (ht : m.threadOf r = some t) :
    ((m.popRun r).unindexRunLocked r t).Listed := by
  have hthread : ∀ r', ((m.popRun r).unindexRunLocked r t).threadOf r' = m.threadOf r' := by
    intro r'
    rw [threadOf, unindexRunLocked_heap]
    rfl
  have hruns : ((m.popRun r).unindexRunLocked r t).runs = m.runs.filter fun r' => r' ≠ r := by
    rw [unindexRunLocked_runs]
    rfl
  have hget := fun t' => unindexRunLocked_get (m := m.popRun r) r t t'
  refine ⟨?_, fun r' hr' => ?_, fun t' => ?_, fun t' b hb => ?_⟩
  · rw [hruns]
    exact hm.nodup.filter _
  · rw [hruns] at hr'
    obtain ⟨x, hx, hid⟩ := hm.known r' (mem_filter.1 hr').1
    exact ⟨x, by rw [unindexRunLocked_heap]; exact hx, hid⟩
  · rw [hget, hruns]
    simp only [hthread, List.filter_filter]
    by_cases h : t = t'
    · subst h
      have hb := hm.bucket t
      change ((if t = t then ((m.runsByThread.get? t).map _).filter _ else _ : Option _)).getD [] = _
      cases hbt : m.runsByThread.get? t with
      | none =>
        rw [hbt] at hb
        simp only [getD_none] at hb
        simp only [if_true, map_none, filter_none, getD_none]
        have hsub : (m.runs.filter fun a => decide (m.threadOf a = some t) && decide (a ≠ r))
            = (m.runs.filter fun a => decide (m.threadOf a = some t)).filter fun a => a ≠ r := by
          rw [List.filter_filter]
          exact filter_congr fun a _ => Bool.and_comm _ _
        rw [hsub, ← hb]
        rfl
      | some b =>
        rw [hbt] at hb
        simp only [getD_some] at hb
        have hsub : (m.runs.filter fun a => decide (m.threadOf a = some t) && decide (a ≠ r))
            = b.filter fun a => a ≠ r := by
          rw [hb, List.filter_filter]
          exact filter_congr fun a _ => Bool.and_comm _ _
        rw [hsub]
        simp only [if_true, map_some, filter_some]
        cases he : (b.filter fun a => decide (a ≠ r)) with
        | nil => rfl
        | cons c cs => rfl
    · rw [if_neg h]
      change (m.runsByThread.get? t').getD [] = _
      rw [hm.bucket t']
      refine filter_congr fun a _ => ?_
      by_cases ha : a = r
      · subst ha
        simp [ht, h]
      · simp [ha]
  · rw [hget] at hb
    split_ifs at hb with h
    · have hb' := (filter_eq_some_iff.1 hb).2
      rintro rfl
      simp at hb'
    · exact hm.full t' b hb

/-- `m'` differs from `m` in nothing the index is about. -/
structure SameIndex (m m' : RunManager) : Prop where
  runs : m'.runs = m.runs
  index : m'.runsByThread = m.runsByThread
  core : ∀ r, (m'.heap r).map (fun x => (x.runId, x.threadId, x.status))
    = (m.heap r).map fun x => (x.runId, x.threadId, x.status)

namespace SameIndex

variable {m'' : RunManager}

theorem refl (m : RunManager) : SameIndex m m := ⟨rfl, rfl, fun _ => rfl⟩

theorem trans (h : SameIndex m m') (h' : SameIndex m' m'') : SameIndex m m'' :=
  ⟨h'.runs.trans h.runs, h'.index.trans h.index, fun r => (h'.core r).trans (h.core r)⟩

theorem record (h : SameIndex m m') {r : RunId} {x : RunRecord} (hx : m'.heap r = some x) :
    ∃ y, m.heap r = some y ∧ y.runId = x.runId ∧ y.threadId = x.threadId
      ∧ y.status = x.status := by
  have hc := h.core r
  rw [hx] at hc
  obtain ⟨y, hy, he⟩ := map_eq_some_iff.1 hc.symm
  simp only [Prod.mk.injEq] at he
  exact ⟨y, hy, he⟩

theorem settles (h : SameIndex m m') : Settles m m' where
  runs := h.runs
  index := h.index
  ident := by
    intro r
    have := congrArg (Option.map fun t => (t.1, t.2.1)) (h.core r)
    simpa [Option.map_map, Function.comp_def] using this
  active := by
    rintro r ⟨x, hx, ha⟩
    obtain ⟨y, hy, -, -, hs⟩ := h.record hx
    exact ⟨y, hy, hs ▸ ha⟩

end SameIndex

theorem get_of_mem (hm : m.Listed) (hr : r ∈ m.runs) :
    ∃ x, m.get? r = some x ∧ m.heap r = some x ∧ x.runId = r := by
  obtain ⟨x, hx, hid⟩ := hm.known r hr
  exact ⟨x, by simp [get?, hr, hx], hx, hid⟩

theorem records_eq (hm : m.Listed) : m.records.map runId = m.runs := by
  unfold records
  rw [map_filterMap]
  refine (filterMap_congr fun r hr => ?_).trans filterMap_some
  obtain ⟨x, hx, -, hid⟩ := get_of_mem hm hr
  simp [hx, hid]

theorem threadRecordsLocked_eq (hm : m.Listed) (t : ThreadId) :
    m.threadRecordsLocked t = m.records.filter fun x => x.threadId = t := by
  unfold threadRecordsLocked records
  rw [hm.bucket t, filterMap_filter, filter_filterMap]
  refine filterMap_congr fun r hr => ?_
  obtain ⟨x, hx, hh, -⟩ := get_of_mem hm hr
  simp [hx, threadOf, hh, filter_some]

theorem inflight_le_one (hm : m.Listed) (hs : m.Single) (t : ThreadId) :
    ((m.records.filter fun x => x.threadId = t).filter fun x => x.status.inflight).length ≤ 1 := by
  set l := (m.records.filter fun x => x.threadId = t).filter fun x => x.status.inflight with hl
  have hnodup : (l.map runId).Nodup := by
    have hsub : (l.map runId).Sublist m.runs := by
      rw [← records_eq hm]
      exact ((filter_sublist).trans filter_sublist).map _
    exact hm.nodup.sublist hsub
  have hmem : ∀ x ∈ l, x.runId ∈ m.runs ∧ m.threadOf x.runId = some t ∧ m.Active x.runId := by
    intro x hx
    obtain ⟨hx, hfl⟩ := mem_filter.1 hx
    obtain ⟨hx, ht⟩ := mem_filter.1 hx
    have hr : x.runId ∈ m.runs := by
      rw [← records_eq hm]
      exact mem_map_of_mem hx
    obtain ⟨r, hr', hx⟩ := mem_filterMap.1 hx
    obtain ⟨y, hy, hh, hid⟩ := get_of_mem hm hr'
    rw [hx] at hy
    cases hy
    have ht : x.threadId = t := by simpa using ht
    rw [hid]
    exact ⟨hr', by simp [threadOf, hh, ht], x, hh, hfl⟩
  rcases hlc : l with _ | ⟨x, _ | ⟨y, ys⟩⟩
  · simp
  · simp
  · rw [hlc] at hnodup hmem
    obtain ⟨h1, h2, h3⟩ := hmem x (by simp)
    obtain ⟨h1', h2', h3'⟩ := hmem y (by simp)
    have he := hs _ h1 _ h1' (h2.trans h2'.symm) h3 h3'
    simp [he] at hnodup

section Create

variable {x : RunRecord}

theorem register_heap (r : RunId) :
    (m.register x).heap r = if r = x.runId then some x else m.heap r := rfl

theorem mem_of_register {r : RunId} (h : r ∈ (m.register x).runs) (hr : r ≠ x.runId) :
    r ∈ m.runs := by
  simp only [register, indexRunLocked, insertKey] at h
  split_ifs at h with hx
  · exact h
  · exact (mem_append.1 h).resolve_right fun h => hr (mem_singleton.1 h)

theorem SameIndex.active_of_register (h : SameIndex (m.register x) m') {r : RunId}
    (hr : r ≠ x.runId) (ha : m'.Active r) : m.Active r := by
  obtain ⟨y, hy, hs⟩ := h.settles.active r ha
  rw [register_heap, if_neg hr] at hy
  exact ⟨y, hy, hs⟩

theorem SameIndex.threadOf_register (h : SameIndex (m.register x) m') (r : RunId) :
    m'.threadOf r = if r = x.runId then some x.threadId else m.threadOf r := by
  rw [h.settles.threadOf, threadOf, register_heap]
  split_ifs <;> rfl

theorem mem_threadRecordsLocked (hm : m.Listed) {r : RunId} {y : RunRecord} (hr : r ∈ m.runs)
    (hy : m.heap r = some y) : y ∈ m.threadRecordsLocked y.threadId := by
  refine mem_filterMap.2 ⟨r, ?_, by simp [get?, hr, hy]⟩
  rw [hm.bucket]
  exact mem_filter.2 ⟨hr, by simp [threadOf, hy]⟩

theorem single_drop (hs : m.Single) (h : SameIndex (m.register x) m') :
    ((m'.popRun x.runId).unindexRunLocked x.runId x.threadId).Single := by
  have hmem : ∀ r, r ∈ ((m'.popRun x.runId).unindexRunLocked x.runId x.threadId).runs →
      r ≠ x.runId ∧ r ∈ m.runs := by
    intro r hr
    rw [unindexRunLocked_runs] at hr
    obtain ⟨hr, hne⟩ := mem_filter.1 hr
    have hne : r ≠ x.runId := by simpa using hne
    exact ⟨hne, mem_of_register (h.runs ▸ hr) hne⟩
  have hact : ∀ r, ((m'.popRun x.runId).unindexRunLocked x.runId x.threadId).Active r →
      m'.Active r := by
    rintro r ⟨y, hy, ha⟩
    rw [unindexRunLocked_heap] at hy
    exact ⟨y, hy, ha⟩
  intro r hr r' hr' ht ha ha'
  simp only [threadOf, unindexRunLocked_heap] at ht
  change m'.threadOf r = m'.threadOf r' at ht
  obtain ⟨hne, hr⟩ := hmem r hr
  obtain ⟨hne', hr'⟩ := hmem r' hr'
  rw [h.threadOf_register, h.threadOf_register, if_neg hne, if_neg hne'] at ht
  exact hs r hr r' hr' ht (h.active_of_register hne (hact r ha))
    (h.active_of_register hne' (hact r' ha'))

theorem single_create {rs : List RunId} {action : String} {now : ℕ} (hm : m.Listed) (hs : m.Single)
    (h : SameIndex (m.register x) m')
    (hrs : ∀ y ∈ m.threadRecordsLocked x.threadId, y.status.inflight → y.runId ∈ rs) :
    (m'.updateRecords rs (·.interruptBy action now)).Single := by
  have hset : Settles m' (m'.updateRecords rs (·.interruptBy action now)) :=
    settles_updateRecords fun y => ⟨rfl, rfl, fun h => by simp [interruptBy, RunStatus.inflight] at h⟩
  have hgone : ∀ r ∈ rs, ¬ (m'.updateRecords rs (·.interruptBy action now)).Active r := by
    rintro r hr ⟨y, hy, ha⟩
    simp only [updateRecords, hr, if_true, map_eq_some_iff] at hy
    obtain ⟨z, -, rfl⟩ := hy
    simp [interruptBy, RunStatus.inflight] at ha
  -- a run of the new one's thread that is still in flight is the new one
  have hnew : ∀ r ∈ (m'.updateRecords rs (·.interruptBy action now)).runs,
      m'.threadOf r = some x.threadId →
      (m'.updateRecords rs (·.interruptBy action now)).Active r → r = x.runId := by
    intro r hr ht ha
    by_contra hne
    have hmem : r ∈ m.runs := mem_of_register (h.runs ▸ hr) hne
    obtain ⟨y, hy, hfl⟩ := h.active_of_register hne (hset.active r ha)
    rw [h.threadOf_register, if_neg hne, threadOf, hy] at ht
    have hid : y.runId = r := by
      obtain ⟨z, hz, hid⟩ := hm.known r hmem
      rw [hy] at hz
      cases hz
      exact hid
    have hty : y.threadId = x.threadId := by simpa using ht
    exact hgone r (hid ▸ hrs y (hty ▸ mem_threadRecordsLocked hm hmem hy) hfl) ha
  intro r hr r' hr' ht ha ha'
  rw [hset.threadOf, hset.threadOf] at ht
  by_cases hx : m'.threadOf r = some x.threadId
  · rw [hnew r hr hx ha, hnew r' hr' (ht ▸ hx) ha']
  · have hne : r ≠ x.runId := by
      rintro rfl
      exact hx (by rw [h.threadOf_register, if_pos rfl])
    have hne' : r' ≠ x.runId := by
      rintro rfl
      exact hx (by rw [ht, h.threadOf_register, if_pos rfl])
    rw [h.threadOf_register, h.threadOf_register, if_neg hne, if_neg hne'] at ht
    exact hs r (mem_of_register (h.runs ▸ hr) hne) r' (mem_of_register (h.runs ▸ hr') hne') ht
      (h.active_of_register hne (hset.active r ha)) (h.active_of_register hne' (hset.active r' ha'))

end Create

end RunManager

end DeerFlow

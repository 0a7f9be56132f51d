import DeerFlow.Events.Db
import DeerFlow.Proofs.JsonlStore

/-!
# Three event stores, one log

Each store represents a log of records: by thread, by file or by row. A `put` adds the same record
to all three, numbered by the events of its thread so far, and the queries of each are the log's.
-/

namespace DeerFlow

open List OrdDict

variable {J : Type} {V : JsonValues J}

@[simp] theorem EventArgs.record_threadId (e : EventArgs J) (n : Int) :
    (e.record n).threadId = e.threadId := rfl

@[simp] theorem EventArgs.record_category (e : EventArgs J) (n : Int) :
    (e.record n).category = e.category := rfl

@[simp] theorem EventArgs.record_seq (e : EventArgs J) (n : Int) : (e.record n).seq = n := rfl

section Pages

abbrev pageOf {α : Type} := @MemoryEventStore.pageByRun α

variable {α β : Type} {seq : α → Int} {limit : ℕ} {xs : List α}

theorem lastN_of_pos (h : 1 ≤ limit) (xs : List α) : lastN limit xs = xs.drop (xs.length - limit) :=
  if_neg (by omega)

theorem pageOf_none (h : 1 ≤ limit) (xs : List α) : pageOf seq limit none none xs = lastN limit xs := by
  unfold pageOf MemoryEventStore.pageByRun
  dsimp only
  split_ifs with hlt
  · rfl
  · rw [lastN_of_pos h, show xs.length - limit = 0 by omega, drop_zero]

theorem pageOf_before (h : 1 ≤ limit) (b : Int) (xs : List α) :
    pageOf seq limit (some b) none xs = lastN limit (xs.filter fun r => seq r < b) :=
  @pageOf_none α seq limit h _

theorem map_lastN (f : α → β) (limit : ℕ) (xs : List α) :
    (lastN limit xs).map f = lastN limit (xs.map f) := by
  unfold lastN
  split_ifs with h
  · rfl
  · rw [map_drop, length_map]

theorem map_pageOf (f : α → β) (seq : β → Int) (limit : ℕ) (before after : Option Int)
    (xs : List α) :
    (pageOf (fun a => seq (f a)) limit before after xs).map f
      = pageOf seq limit before after (xs.map f) := by
  unfold pageOf MemoryEventStore.pageByRun
  cases before <;> cases after <;> dsimp only
  · rw [length_map, ← map_lastN]
    split_ifs <;> rfl
  · rw [filter_map, ← map_take]
    rfl
  · rw [filter_map, length_map, ← map_lastN]
    simp only [Function.comp_def]
    split_ifs <;> rfl
  · rw [filter_map, filter_map, ← map_take]
    rfl

end Pages

theorem bisect_page {limit : ℕ} (h : 1 ≤ limit) {rs : List (EventRecord J)}
    (hs : rs.Pairwise fun a b => a.seq < b.seq) (b : Int) :
    (rs.take (bisect (fun r => decide (r.seq < b)) rs)).drop
        (bisect (fun r => decide (r.seq < b)) rs - limit)
      = lastN limit (rs.filter fun r => r.seq < b) := by
  have hsplit : Splits (fun r : EventRecord J => decide (r.seq < b)) rs := by
    refine hs.imp fun {x y} hxy hy => ?_
    simp only [decide_eq_true_eq] at hy ⊢
    omega
  rw [hsplit.take_bisect, hsplit.bisect_eq, countP_eq_length_filter, lastN_of_pos h]

theorem bisect_page_after {limit : ℕ} {rs : List (EventRecord J)}
    (hs : rs.Pairwise fun a b => a.seq < b.seq) (a : Int) :
    (rs.drop (bisect (fun r => decide (r.seq ≤ a)) rs)).take limit
      = (rs.filter fun r => a < r.seq).take limit := by
  have hsplit : Splits (fun r : EventRecord J => decide (r.seq ≤ a)) rs := by
    refine hs.imp fun {x y} hxy hy => ?_
    simp only [decide_eq_true_eq] at hy ⊢
    omega
  rw [hsplit.drop_bisect]
  congr 2
  funext r
  rw [← decide_not, decide_eq_decide]
  omega

theorem MemoryEventStore.listMessages_eq {s : MemoryEventStore J} {t : String} {limit : ℕ}
    (h : 1 ≤ limit) {before after : Option Int} (hone : before = none ∨ after = none)
    (hs : ((s.messages.get? t).getD []).Pairwise fun a b => a.seq < b.seq) :
    s.listMessages t limit before after
      = pageOf EventRecord.seq limit before after ((s.messages.get? t).getD []) := by
  cases before with
  | none =>
    cases after with
    | none => exact (pageOf_none h _).symm
    | some a => exact bisect_page_after hs a
  | some b =>
    obtain rfl : after = none := hone.resolve_left (by simp)
    rw [pageOf_before h]
    exact bisect_page h hs b

section Jsonl

open JsonlEventStore

theorem filterSeq_records {number : List (String × J) → Except EventStoreError Int}
    (hn : ∀ r : EventRecord J, number (r.fields V) = .ok r.seq) (p : Int → Bool)
    (rs : List (EventRecord J)) :
    filterSeq number p (rs.map (EventRecord.fields V))
      = .ok ((rs.filter fun r => p r.seq).map (EventRecord.fields V)) := by
  have hseq : (rs.map (EventRecord.fields V)).mapM number = .ok (rs.map EventRecord.seq) := by
    induction rs with
    | nil => rfl
    | cons r rs ih =>
      rw [map_cons, mapM_cons, hn r, ih]
      rfl
  unfold filterSeq
  rw [hseq]
  change Except.ok _ = _
  rw [zip_map', filter_map, map_map]
  rfl

variable {s : JsonlEventStore} {log : List (EventRecord J)} {t q : String} {limit : ℕ}
  {before after : Option Int}

theorem filter_category (rs : List (EventRecord J)) :
    (rs.map (EventRecord.fields V)).filter (hasText V "category" "message")
      = (rs.filter fun r => r.category = "message").map (EventRecord.fields V) := by
  rw [filter_map]
  congr 2
  funext r
  exact hasText_category r "message"

theorem JsonlEventStore.Holds.listMessages (h : s.Holds V log) (ht : isSafeId t)
    (hlimit : 1 ≤ limit) (hone : before = none ∨ after = none) :
    s.listMessages V t limit before after
      = .ok ((pageOf EventRecord.seq limit before after
          ((log.filter fun r => r.threadId = t).filter fun r => r.category = "message")).map
            (EventRecord.fields V)) := by
  unfold JsonlEventStore.listMessages
  rw [h.readThreadEvents ht]
  dsimp only [bind, Except.bind]
  rw [filter_category]
  cases before with
  | none =>
    cases after with
    | none =>
      rw [pageOf_none hlimit, map_lastN]
      rfl
    | some a =>
      dsimp only
      rw [filterSeq_records seqAt_fields]
      change Except.ok _ = _
      rw [← map_take]
      rfl
  | some b =>
    obtain rfl : after = none := hone.resolve_left (by simp)
    dsimp only
    rw [filterSeq_records seqAt_fields, pageOf_before hlimit, map_lastN]
    rfl

theorem pageAfter_records (rs : List (EventRecord J)) :
    pageAfter V limit after (rs.map (EventRecord.fields V))
      = .ok ((pageOf EventRecord.seq limit none after rs).map (EventRecord.fields V)) := by
  unfold pageAfter pageOf MemoryEventStore.pageByRun
  cases after with
  | none =>
    dsimp only
    rw [length_map, ← map_lastN]
    split_ifs <;> rfl
  | some a =>
    dsimp only
    rw [filterSeq_records seqOf_fields]
    change Except.ok _ = _
    rw [← map_take]

theorem JsonlEventStore.Holds.listMessagesByRun (h : s.Holds V log) (ht : isSafeId t)
    (hq : isSafeId q) :
    s.listMessagesByRun V t q limit before after
      = .ok ((pageOf EventRecord.seq limit before after
          ((log.filter (inRun t q)).filter fun r => r.category = "message")).map
            (EventRecord.fields V)) := by
  unfold JsonlEventStore.listMessagesByRun
  rw [h.readRunEvents ht hq]
  change (filterBefore V before _ >>= _) = _
  rw [filter_category]
  cases before with
  | none => exact pageAfter_records _
  | some b =>
    rw [filterBefore, filterSeq_records seqOf_fields]
    exact pageAfter_records _

theorem JsonlEventStore.Holds.listEvents (h : s.Holds V log) (ht : isSafeId t)
    (hq : isSafeId q) (types : Option (List String)) :
    s.listEvents V t q types limit
      = .ok (((match types with
          | some ts => (log.filter (inRun t q)).filter fun r : EventRecord J => r.eventType ∈ ts
          | none => log.filter (inRun t q)).take limit).map (EventRecord.fields V)) := by
  unfold JsonlEventStore.listEvents
  rw [h.readRunEvents ht hq]
  change Except.ok _ = _
  cases types with
  | none => rw [map_take]
  | some ts =>
    dsimp only
    rw [filter_map, map_take]
    congr 4
    funext r
    simp only [Function.comp_apply, hasText_eventType]
    rw [Bool.eq_iff_iff]
    simp

end Jsonl

structure EventCore (J : Type) where
  threadId : String
  runId : String
  eventType : String
  category : String
  content : J
  seq : Int

def EventRecord.core (r : EventRecord J) : EventCore J where
  threadId := r.threadId
  runId := r.runId
  eventType := r.eventType
  category := r.category
  content := r.content
  seq := r.seq

namespace DbEventStore

def rowCore (V : JsonValues J) (r : DbEventRow J) : EventCore J := (rowToDict V r).core

variable {limit : ℕ} {before after : Option Int} {rows : List (DbEventRow J)}

theorem lastRows_eq (h : 1 ≤ limit) (hs : rows.Pairwise fun a b => a.seq < b.seq) :
    lastRows rows limit = lastN limit rows := by
  unfold lastRows
  rw [mergeSort_descending hs, lastN_of_pos h, take_reverse, reverse_reverse]

theorem firstRows_eq (hs : rows.Pairwise fun a b => a.seq < b.seq) :
    firstRows rows limit = rows.take limit := by
  unfold firstRows
  rw [mergeSort_of_increasing hs]

theorem page_eq (h : 1 ≤ limit) (hs : rows.Pairwise fun a b => a.seq < b.seq) :
    page rows limit before after = pageOf DbEventRow.seq limit before after rows := by
  have hcut : ∀ rs : List (DbEventRow J), rs.Pairwise (fun a b => a.seq < b.seq) →
      page rs limit none after = pageOf DbEventRow.seq limit none after rs := by
    intro rs hrs
    cases after with
    | none => exact (lastRows_eq h hrs).trans (pageOf_none h rs).symm
    | some a => exact firstRows_eq (hrs.filter _)
  cases before with
  | none => exact hcut rows hs
  | some b => exact hcut _ (hs.filter _)

variable {E : DbEngine J} {org : Option String} {e : EventArgs J}

theorem fieldOf_write (key : String) (v : J) (metadata : List (String × J)) (key' : String) :
    fieldOf key' (write key v metadata) = if key = key' then some v else fieldOf key' metadata :=
  find?_write key v key' metadata

theorem flagged_contentToDb {content : J} (h : V.str? content = none)
    (metadata : List (String × J)) :
    flagged V "content_is_json" (contentToDb V content metadata).2 := by
  unfold contentToDb flagged
  rw [h]
  split_ifs
  · simp [fieldOf_write, V.truthy_bool]
  · simp [fieldOf_write, V.truthy_bool]

/-- The table gives the content back: no trace over the limit, a `created_at` that is a time, no
string its metadata make JSON of. -/
structure Kept (V : JsonValues J) (E : DbEngine J) (e : EventArgs J) : Prop where
  size : e.category = "trace" → byteLength (V.text e.content).toList ≤ E.maxTraceContent
  time : ∀ text, orText e.createdAt none = some text → (E.fromIso text).isSome = true
  text : ∀ s, V.str? e.content = some s →
    (flagged V "content_is_json" (e.metadata.getD [])
      || flagged V "content_is_dict" (e.metadata.getD [])) = true →
    V.loads s.toList = none ∨ V.loads s.toList = some e.content

theorem Kept.rowOf (h : Kept V E e) (org : Option String) (seq : Int) :
    ∃ row, rowOf V E org e seq = .ok row ∧ rowCore V row = (e.record seq).core
      ∧ row.orgId = org := by
  have htrunc : truncateTrace V E e.category e.content (e.metadata.getD [])
      = (e.content, e.metadata.getD []) := by
    refine if_neg fun hc => ?_
    have := h.size hc.1
    omega
  -- whatever time the row has, its content comes back
  have hcontent : ∀ row : DbEventRow J,
      row.content = (contentToDb V e.content (e.metadata.getD [])).1 →
      row.metadata = (contentToDb V e.content (e.metadata.getD [])).2 →
      (rowToDict V row).content = e.content := by
    intro row hc hm
    unfold rowToDict
    cases hs : V.str? e.content with
    | some s =>
      have hstr := V.str_of_str? _ _ hs
      simp only [contentToDb, hs] at hc hm
      rw [hc, hm]
      split_ifs with hflag
      · rcases h.text s hs hflag with hl | hl <;> rw [hl]
        · exact hstr.symm
        · rfl
      · exact hstr.symm
    | none =>
      have hflag := flagged_contentToDb hs (e.metadata.getD [])
      rw [hm, hflag, Bool.true_or, if_pos rfl, hc]
      simp only [contentToDb, hs, JsonValues.text, Option.getD_none, String.toList_ofList,
        V.loads_dumps, Option.getD_some]
  have hrow : ∀ time : String, ∃ row : DbEventRow J, row = {
      threadId := e.threadId, runId := e.runId, orgId := org, eventType := e.eventType
      category := e.category, content := (contentToDb V e.content (e.metadata.getD [])).1
      metadata := (contentToDb V e.content (e.metadata.getD [])).2, seq := seq, createdAt := time }
      ∧ rowCore V row = (e.record seq).core ∧ row.orgId = org := by
    intro time
    refine ⟨_, rfl, ?_, rfl⟩
    unfold rowCore EventRecord.core
    rw [hcontent _ rfl rfl]
    rfl
  unfold DbEventStore.rowOf
  rw [htrunc]
  cases ht : orText e.createdAt none with
  | none =>
    obtain ⟨row, rfl, hcore⟩ := hrow e.now
    exact ⟨_, rfl, hcore⟩
  | some text =>
    obtain ⟨time, htime⟩ := Option.isSome_iff_exists.1 (h.time text ht)
    obtain ⟨row, rfl, hcore⟩ := hrow time
    exact ⟨_, by dsimp only; rw [htime], hcore⟩

end DbEventStore

section Log

def countIn (t : String) (log : List (EventRecord J)) : Int :=
  ((log.filter fun r => r.threadId = t).length : Int)

def logPut (log : List (EventRecord J)) (e : EventArgs J) : List (EventRecord J) :=
  log ++ [e.record (countIn e.threadId log + 1)]

structure Counted (log : List (EventRecord J)) : Prop where
  ordered : SeqOrdered log
  le : ∀ r ∈ log, r.seq ≤ countIn r.threadId log
  top : ∀ t, 0 < countIn t log → ∃ r ∈ log, r.threadId = t ∧ r.seq = countIn t log

variable {log : List (EventRecord J)}

theorem countIn_nonneg (t : String) (log : List (EventRecord J)) : 0 ≤ countIn t log :=
  Int.natCast_nonneg _

theorem countIn_logPut (e : EventArgs J) (t : String) :
    countIn t (logPut log e) = countIn t log + if e.threadId = t then 1 else 0 := by
  unfold countIn logPut
  by_cases h : e.threadId = t
  · simp [h]
  · simp [h]

theorem countIn_eq_zero {t : String} (h : ∀ r ∈ log, r.threadId ≠ t) : countIn t log = 0 := by
  unfold countIn
  rw [filter_eq_nil_iff.2 fun r hr => by simpa using h r hr]
  rfl

theorem Counted.logPut (h : Counted log) (e : EventArgs J) : Counted (logPut log e) := by
  have hpos := countIn_nonneg e.threadId log
  refine ⟨h.ordered.concat (fun a ha hat => ?_) (Int.lt_add_one_of_le hpos),
    Slots.forall_mem_concat (fun r hr => ?_) ?_, fun t htop => ?_⟩
  · have := h.le a ha
    rw [hat, EventArgs.record_threadId] at this
    exact Int.lt_add_one_of_le this
  · rw [countIn_logPut]
    have := h.le r hr
    split_ifs <;> omega
  · rw [countIn_logPut]
    simp
  · rw [countIn_logPut] at htop ⊢
    by_cases hte : e.threadId = t
    · subst hte
      exact ⟨_, mem_append_right _ mem_cons_self, rfl, by simp⟩
    · rw [if_neg hte, Int.add_zero] at htop ⊢
      obtain ⟨r, hr, hrt, hrs⟩ := h.top t htop
      exact ⟨r, mem_append_left _ hr, hrt, hrs⟩

end Log

section Stores

variable {log : List (EventRecord J)} {e : EventArgs J}

structure MemoryEventStore.Keeps (s : MemoryEventStore J) (log : List (EventRecord J)) : Prop where
  events : ∀ t, (s.events.get? t).getD [] = log.filter fun r => r.threadId = t
  messages : ∀ t, (s.messages.get? t).getD []
    = (log.filter fun r => r.threadId = t).filter fun r => r.category = "message"
  counters : ∀ t, (s.seqCounters.get? t).getD 0 = countIn t log

theorem MemoryEventStore.Keeps.putOne {s : MemoryEventStore J} (h : s.Keeps log) (e : EventArgs J) :
    (s.putOne e).1.Keeps (logPut log e) := by
  have hfilter : ∀ t, (logPut log e).filter (fun r => decide (r.threadId = t))
      = log.filter (fun r => decide (r.threadId = t))
        ++ if e.threadId = t then [e.record (countIn e.threadId log + 1)] else [] := by
    intro t
    rw [logPut, filter_append, filter_singleton]
    by_cases ht : e.threadId = t <;> simp [ht]
  refine ⟨fun t => ?_, fun t => ?_, fun t => ?_⟩
  · rw [hfilter]
    simp only [MemoryEventStore.putOne, get?_set, MemoryEventStore.nextSeq, h.counters]
    by_cases ht : e.threadId = t
    · subst ht
      simp [h.events]
    · simp [ht, h.events]
  · rw [hfilter, filter_append]
    simp only [MemoryEventStore.putOne, MemoryEventStore.nextSeq, h.counters]
    by_cases hc : e.category = "message"
    · rw [if_pos hc, get?_set]
      by_cases ht : e.threadId = t
      · subst ht
        simp [h.messages, hc]
      · simp [ht, h.messages]
    · rw [if_neg hc]
      by_cases ht : e.threadId = t
      · simp [ht, h.messages, hc]
      · simp [ht, h.messages]
  · rw [countIn_logPut]
    simp only [MemoryEventStore.putOne, MemoryEventStore.nextSeq, get?_set]
    by_cases ht : e.threadId = t
    · subst ht
      simp [h.counters]
    · simp [ht, h.counters]

theorem MemoryEventStore.Keeps.putEach {es : List (EventArgs J)} :
    ∀ {s : MemoryEventStore J} {log : List (EventRecord J)}, s.Keeps log →
      (s.putEach es).1.Keeps (es.foldl logPut log) := by
  induction es with
  | nil => exact fun h => h
  | cons e es ih => exact fun h => ih (h.putOne e)

structure JsonlEventStore.Keeps (V : JsonValues J) (s : JsonlEventStore)
    (log : List (EventRecord J)) : Prop where
  filed : s.Filed V log
  some : ∀ t n, s.seqCounters.get? t = some n → n = countIn t log
  none : ∀ t, s.seqCounters.get? t = none → ∀ r ∈ log, r.threadId ≠ t

theorem JsonlEventStore.Keeps.put {s : JsonlEventStore} (h : s.Keeps V log)
    (he : JsonlEventStore.Fits V e) : (s.put V e .ok).1.Keeps V (logPut log e)
      ∧ ∃ r, (s.put V e .ok).2 = .ok r := by
  obtain ⟨ht, hq, hp⟩ := he
  obtain ⟨s', n, hput, hfiled, hcount, hsome, hnone⟩ := h.filed.put ht hq hp
  have hn : n = countIn e.threadId log + 1 := by
    cases hc : s.seqCounters.get? e.threadId with
    | none =>
      have hlog := h.none _ hc
      rw [hnone hc hlog, countIn_eq_zero hlog]
      rfl
    | some m => rw [hsome m hc, h.some _ m hc]
  subst hn
  rw [hput]
  refine ⟨⟨hfiled, fun t m hm => ?_, fun t hm => ?_⟩, _, rfl⟩
  · rw [hcount] at hm
    rw [countIn_logPut]
    split_ifs at hm with hte
    · cases hm
      rw [if_pos hte, hte]
    · rw [if_neg hte, Int.add_zero]
      exact h.some t m hm
  · rw [hcount] at hm
    split_ifs at hm with hte
    exact Slots.forall_mem_concat (h.none t hm) hte

theorem JsonlEventStore.Keeps.putBatch : ∀ {es : List (EventArgs J)} {s : JsonlEventStore}
    {log : List (EventRecord J)}, s.Keeps V log → (∀ e ∈ es, JsonlEventStore.Fits V e) →
    (s.putBatch V (es.map fun e => (e, .ok))).1.Keeps V (es.foldl logPut log)
  | [], _, _, h, _ => h
  | e :: es, s, log, h, hes => by
    obtain ⟨hput, r, hr⟩ := h.put (hes e mem_cons_self)
    have ih := hput.putBatch fun e' he' => hes e' (mem_cons_of_mem _ he')
    have hpair : s.put V e .ok = ((s.put V e .ok).1, .ok r) := Prod.ext rfl hr
    rw [map_cons, JsonlEventStore.putBatch, hpair]
    dsimp only
    rcases hrest : (s.put V e .ok).1.putBatch V (es.map fun e => (e, .ok)) with ⟨s', x | rs⟩ <;>
      rw [hrest] at ih <;> exact ih

structure DbEventStore.Keeps (V : JsonValues J) (org : Option String) (s : DbEventStore J)
    (log : List (EventRecord J)) : Prop where
  core : s.rows.map (rowCore V) = log.map EventRecord.core
  org : ∀ r ∈ s.rows, r.orgId = org

variable {E : DbEngine J} {org : Option String} {s : DbEventStore J}

theorem DbEventStore.Keeps.filter (h : s.Keeps V org log)
    (p : EventCore J → Bool) :
    (s.rows.filter fun r => p (rowCore V r)).map (rowCore V)
      = (log.filter fun r => p r.core).map EventRecord.core := by
  have hf := congrArg (List.filter p) h.core
  rw [filter_map, filter_map] at hf
  exact hf

theorem DbEventStore.Keeps.maxSeq (h : s.Keeps V org log) (hc : Counted log)
    (t : String) : s.maxSeq t = countIn t log := by
  have hseqs : (s.rows.filter fun r => r.threadId = t).map DbEventRow.seq
      = (log.filter fun r => r.threadId = t).map EventRecord.seq := by
    have hf := congrArg (map EventCore.seq) (h.filter fun c => decide (c.threadId = t))
    rw [map_map, map_map] at hf
    exact hf
  unfold DbEventStore.maxSeq
  rw [hseqs]
  by_cases hpos : 0 < countIn t log
  · obtain ⟨r, hr, hrt, hrs⟩ := hc.top t hpos
    have hmax : ((log.filter fun r => decide (r.threadId = t)).map EventRecord.seq).max?
        = some (countIn t log) := by
      rw [max?_eq_some_iff]
      refine ⟨mem_map.2 ⟨r, mem_filter.2 ⟨hr, by simpa using hrt⟩, hrs⟩, fun n hn => ?_⟩
      obtain ⟨a, ha, rfl⟩ := mem_map.1 hn
      obtain ⟨ha, hat⟩ := mem_filter.1 ha
      rw [← of_decide_eq_true hat]
      exact hc.le a ha
    rw [hmax]
    rfl
  · have hzero : countIn t log = 0 := by
      have := countIn_nonneg t log
      omega
    have hnil : (log.filter fun r => decide (r.threadId = t)) = [] := by
      unfold countIn at hzero
      exact eq_nil_of_length_eq_zero (by omega)
    rw [hnil, hzero]
    rfl

structure DbEventStore.Takes (V : JsonValues J) (E : DbEngine J) (org : Option String)
    (e : EventArgs J) : Prop where
  kept : Kept V E e
  accepted : ∀ seq row, rowOf V E org e seq = .ok row → E.accepts row = true

theorem DbEventStore.rowsOf_ok : ∀ {es : List (EventArgs J)} {log : List (EventRecord J)}
    {t : String}, (∀ e ∈ es, e.threadId = t ∧ Takes V E org e) →
    ∃ rows, rowsOf V E org es (countIn t log) = .ok rows
      ∧ log.map EventRecord.core ++ rows.map (rowCore V) = (es.foldl logPut log).map EventRecord.core
      ∧ ∀ row ∈ rows, row.orgId = org ∧ E.accepts row
  | [], log, t, _ => ⟨[], rfl, by simp, by simp⟩
  | e :: es, log, t, hes => by
    obtain ⟨ht, he⟩ := hes e mem_cons_self
    obtain ⟨row, hrow, hcore, horg⟩ := he.kept.rowOf org (countIn t log + 1)
    obtain ⟨rows, hrows, hcores, hall⟩ := @rowsOf_ok es (logPut log e) t
      fun e' he' => hes e' (mem_cons_of_mem _ he')
    rw [countIn_logPut, if_pos ht] at hrows
    refine ⟨row :: rows, ?_, ?_, ?_⟩
    · rw [rowsOf, hrow]
      rw [hrows]
      rfl
    · rw [foldl_cons, ← hcores, logPut, map_append, map_cons, hcore, ht]
      simp
    · intro row' hrow'
      rcases mem_cons.1 hrow' with rfl | hrow'
      · exact ⟨horg, he.accepted _ _ hrow⟩
      · exact hall row' hrow'

theorem DbEventStore.Keeps.commit (h : s.Keeps V org log)
    {rows : List (DbEventRow J)} {log' : List (EventRecord J)}
    (hcores : log.map EventRecord.core ++ rows.map (rowCore V) = log'.map EventRecord.core)
    (hall : ∀ row ∈ rows, row.orgId = org ∧ E.accepts row) :
    (s.commit V E rows .commits).1.Keeps V org log' := by
  unfold DbEventStore.commit
  rw [if_pos ⟨rfl, all_eq_true.2 fun row hrow => (hall row hrow).2⟩]
  refine ⟨?_, fun r hr => ?_⟩
  · rw [map_append, h.core, hcores]
  · rcases mem_append.1 hr with hr | hr
    · exact h.org r hr
    · exact (hall r hr).1

theorem DbEventStore.Keeps.put (h : s.Keeps V org log) (hc : Counted log)
    (he : Takes V E org e) : (s.put V E org e .commits).1.Keeps V org (logPut log e) := by
  obtain ⟨row, hrow, hcore, horg⟩ := he.kept.rowOf org (countIn e.threadId log + 1)
  unfold DbEventStore.put
  rw [h.maxSeq hc, hrow]
  refine h.commit ?_ (forall_mem_singleton.2 ⟨horg, he.accepted _ _ hrow⟩)
  rw [logPut, map_append, map_singleton, map_singleton, hcore]

theorem DbEventStore.Keeps.putBatch (h : s.Keeps V org log)
    (hc : Counted log) {es : List (EventArgs J)} {t : String}
    (hes : ∀ e ∈ es, e.threadId = t ∧ Takes V E org e) :
    (s.putBatch V E org es .commits).1.Keeps V org (es.foldl logPut log) := by
  cases es with
  | nil => exact h
  | cons e es =>
    have ht := (hes e mem_cons_self).1
    obtain ⟨rows, hrows, hcores, hall⟩ := @DbEventStore.rowsOf_ok J V E org (e :: es) log t hes
    have hsame : (es.any fun e' => decide (e'.threadId ≠ e.threadId)) = false := by
      rw [any_eq_false]
      intro e' he'
      have := (hes e' (mem_cons_of_mem _ he')).1
      simp [this, ht]
    unfold DbEventStore.putBatch
    dsimp only
    rw [hsame, if_neg (by simp), h.maxSeq hc, ht, hrows]
    exact h.commit hcores hall

variable {t q : String} {limit : ℕ} {before after : Option Int}

theorem DbEventStore.Keeps.threadRows (h : s.Keeps V org log)
    (hc : Counted log) (t : String) (p : EventCore J → Bool) :
    let rows := (s.threadRows org t).filter fun r => p (rowCore V r)
    rows.map (rowCore V)
        = ((log.filter fun r => r.threadId = t).filter fun r => p r.core).map EventRecord.core
      ∧ rows.Pairwise fun a b => a.seq < b.seq := by
  intro rows
  have hrows : rows = s.rows.filter fun r =>
      p (rowCore V r) && decide ((rowCore V r).threadId = t) := by
    simp only [rows, DbEventStore.threadRows, filter_filter]
    refine filter_congr fun r hr => ?_
    simp [h.org r hr, rowCore, rowToDict, EventRecord.core]
  have hmap : rows.map (rowCore V)
      = ((log.filter fun r => r.threadId = t).filter fun r => p r.core).map EventRecord.core := by
    rw [hrows, h.filter fun c => p c && decide (c.threadId = t), filter_filter]
    rfl
  refine ⟨hmap, ?_⟩
  have hsorted := (hc.ordered.sorted t (p := fun r => decide (r.threadId = t)) fun r hr => by
    simpa using hr).filter fun r => p r.core
  have hcore : (rows.map (rowCore V)).Pairwise fun a b => a.seq < b.seq := by
    rw [hmap]
    exact pairwise_map.2 hsorted
  rw [pairwise_map] at hcore
  exact hcore

theorem page_core {rows : List (DbEventRow J)} {rs : List (EventRecord J)} (hlimit : 1 ≤ limit)
    (hmap : rows.map (DbEventStore.rowCore V) = rs.map EventRecord.core)
    (hs : rows.Pairwise fun a b => a.seq < b.seq) :
    ((DbEventStore.page rows limit before after).map (DbEventStore.rowToDict V)).map EventRecord.core
      = (pageOf EventRecord.seq limit before after rs).map EventRecord.core := by
  have hrows := map_pageOf (DbEventStore.rowCore V) EventCore.seq limit before after rows
  have hrecords := map_pageOf EventRecord.core EventCore.seq limit before after rs
  rw [DbEventStore.page_eq hlimit hs, map_map]
  exact hrows.trans ((congrArg _ hmap).trans hrecords.symm)

theorem DbEventStore.Keeps.listMessages (h : s.Keeps V org log)
    (hc : Counted log) (hlimit : 1 ≤ limit) :
    (s.listMessages V org t limit before after).map EventRecord.core
      = (pageOf EventRecord.seq limit before after
          ((log.filter fun r => r.threadId = t).filter fun r => r.category = "message")).map
            EventRecord.core := by
  obtain ⟨hmap, hs⟩ := h.threadRows hc t fun c => decide (c.category = "message")
  exact page_core hlimit hmap hs

theorem filter_inRun (t q : String) (log : List (EventRecord J)) :
    (log.filter fun r => decide (r.threadId = t)).filter (fun r => decide (r.runId = q))
      = log.filter (inRun t q) := by
  rw [filter_filter]
  refine filter_congr fun r _ => ?_
  rw [Bool.eq_iff_iff]
  simp [inRun, and_comm]

theorem filter_run_message (q : String) (rs : List (EventRecord J)) :
    (rs.filter fun r => decide (r.runId = q ∧ r.category = "message"))
      = (rs.filter fun r => decide (r.runId = q)).filter
          fun r => decide (r.category = "message") := by
  rw [filter_filter]
  refine filter_congr fun r _ => ?_
  rw [Bool.decide_and, Bool.and_comm]

theorem DbEventStore.Keeps.listMessagesByRun (h : s.Keeps V org log)
    (hc : Counted log) (hlimit : 1 ≤ limit) :
    (s.listMessagesByRun V org t q limit before after).map EventRecord.core
      = (pageOf EventRecord.seq limit before after
          ((log.filter (inRun t q)).filter fun r => r.category = "message")).map
            EventRecord.core := by
  obtain ⟨hmap, hs⟩ := h.threadRows hc t fun c => decide (c.runId = q ∧ c.category = "message")
  have hlog : (log.filter fun r => decide (r.threadId = t)).filter
      (fun r => decide (r.core.runId = q ∧ r.core.category = "message"))
      = (log.filter (inRun t q)).filter fun r => decide (r.category = "message") := by
    rw [← filter_inRun]
    exact filter_run_message q _
  rw [hlog] at hmap
  exact page_core hlimit hmap hs

theorem DbEventStore.Keeps.listEvents (h : s.Keeps V org log)
    (hc : Counted log) {types : Option (List String)} (htypes : types ≠ some []) :
    (s.listEvents V org t q types limit).map EventRecord.core
      = ((match types with
          | some ts => (log.filter (inRun t q)).filter fun r : EventRecord J => r.eventType ∈ ts
          | none => log.filter (inRun t q)).take limit).map EventRecord.core := by
  obtain ⟨hmap, hs⟩ := h.threadRows hc t fun c => decide (c.runId = q)
  have hlog : (log.filter fun r => decide (r.threadId = t)).filter
      (fun r => decide (r.core.runId = q)) = log.filter (inRun t q) := filter_inRun t q log
  rw [hlog] at hmap
  have hfirst : ∀ (rows : List (DbEventRow J)) (rs : List (EventRecord J)),
      rows.map (rowCore V) = rs.map EventRecord.core → rows.Pairwise (fun a b => a.seq < b.seq) →
      ((firstRows rows limit).map (rowToDict V)).map EventRecord.core
        = (rs.take limit).map EventRecord.core := by
    intro rows rs hmap hs
    rw [firstRows_eq hs, map_map, map_take, map_take]
    exact congrArg _ hmap
  cases types with
  | none => exact hfirst _ _ hmap hs
  | some ts =>
    cases ts with
    | nil => exact absurd rfl htypes
    | cons ty ts =>
      refine hfirst _ _ ?_ (hs.filter _)
      have hf := congrArg (List.filter fun c => decide (c.eventType ∈ ty :: ts)) hmap
      rw [filter_map, filter_map] at hf
      exact hf

end Stores

structure EventStores (J : Type) where
  memory : MemoryEventStore J := {}
  jsonl : JsonlEventStore := {}
  db : DbEventStore J := {}

inductive EventAct (J : Type) where
  | put (e : EventArgs J)
  | putBatch (es : List (EventArgs J))

def eventStores (V : JsonValues J) (E : DbEngine J) (org : Option String) :
    Machine (EventStores J) (EventAct J) where
  step s
    | .put e => some ⟨(s.memory.put e).1, (s.jsonl.put V e .ok).1, (s.db.put V E org e .commits).1⟩
    | .putBatch es => some ⟨(s.memory.putBatch es).1,
        (s.jsonl.putBatch V (es.map fun e => (e, .ok))).1, (s.db.putBatch V E org es .commits).1⟩

/-- A call that every store takes: the JSONL store and the table give its events back, and a batch
is one thread's. -/
def EventAct.Portable (V : JsonValues J) (E : DbEngine J) (org : Option String) :
    EventAct J → Prop
  | .put e => JsonlEventStore.Fits V e ∧ DbEventStore.Takes V E org e
  | .putBatch es => ∃ t, ∀ e ∈ es,
      JsonlEventStore.Fits V e ∧ DbEventStore.Takes V E org e ∧ e.threadId = t

variable {E : DbEngine J} {org : Option String}

structure EventStores.Agree (V : JsonValues J) (org : Option String) (s : EventStores J)
    (log : List (EventRecord J)) : Prop where
  counted : Counted log
  memory : s.memory.Keeps log
  jsonl : s.jsonl.Keeps V log
  db : s.db.Keeps V org log

theorem agree_fresh : ({} : EventStores J).Agree V org [] := by
  refine ⟨⟨⟨List.Pairwise.nil, by simp⟩, by simp, fun t h => ?_⟩, ⟨fun _ => rfl, fun _ => rfl,
    fun _ => rfl⟩, ⟨⟨⟨List.Pairwise.nil, by simp⟩, by simp, fun _ _ => rfl, by simp⟩, by simp,
    by simp⟩, ⟨rfl, by simp⟩⟩
  simp [countIn] at h

theorem Counted.foldl : ∀ {es : List (EventArgs J)} {log : List (EventRecord J)}, Counted log →
    Counted (es.foldl DeerFlow.logPut log)
  | [], _, h => h
  | e :: _, _, h => (h.logPut e).foldl

theorem EventStores.Agree.step {s s' : EventStores J} {log : List (EventRecord J)}
    {a : EventAct J} (h : s.Agree V org log) (ha : a.Portable V E org)
    (hstep : (eventStores V E org).step s a = some s') : ∃ log', s'.Agree V org log' := by
  cases a with
  | put e =>
    cases hstep
    exact ⟨logPut log e, h.counted.logPut e, h.memory.putOne e, (h.jsonl.put ha.1).1,
      h.db.put h.counted ha.2⟩
  | putBatch es =>
    cases hstep
    obtain ⟨t, hes⟩ := ha
    exact ⟨es.foldl logPut log, h.counted.foldl, h.memory.putEach,
      h.jsonl.putBatch fun e he => (hes e he).1,
      h.db.putBatch h.counted fun e he => ⟨(hes e he).2.2, (hes e he).2.1⟩⟩

/-- In every state such calls lead to the queries of the three stores agree: the JSONL store's are
those of the store in memory, and the database's are in all but metadata and time. -/
theorem event_stores_read_alike {as : List (EventAct J)} {s : EventStores J}
    (hok : (eventStores V E org).Along (fun _ a => a.Portable V E org) as {})
    (hrun : (eventStores V E org).run as {} = some s) :
    (∀ t limit before after, isSafeId t = true → 1 ≤ limit → before = none ∨ after = none →
      s.jsonl.listMessages V t limit before after
        = .ok ((s.memory.listMessages t limit before after).map (EventRecord.fields V))
      ∧ (s.db.listMessages V org t limit before after).map EventRecord.core
        = (s.memory.listMessages t limit before after).map EventRecord.core)
    ∧ (∀ t q limit before after, isSafeId t = true → isSafeId q = true → 1 ≤ limit →
      s.jsonl.listMessagesByRun V t q limit before after
        = .ok ((s.memory.listMessagesByRun t q limit before after).map (EventRecord.fields V))
      ∧ (s.db.listMessagesByRun V org t q limit before after).map EventRecord.core
        = (s.memory.listMessagesByRun t q limit before after).map EventRecord.core)
    ∧ (∀ t q types limit, isSafeId t = true → isSafeId q = true → types ≠ some [] →
      s.jsonl.listEvents V t q types limit
        = .ok ((s.memory.listEvents t q types limit).map (EventRecord.fields V))
      ∧ (s.db.listEvents V org t q types limit).map EventRecord.core
        = (s.memory.listEvents t q types limit).map EventRecord.core) := by
  obtain ⟨log, h⟩ : ∃ log, s.Agree V org log :=
    Machine.run_inv (I := fun s : EventStores J => ∃ log, s.Agree V org log)
      (fun s a s' ⟨log, h⟩ ha hstep => h.step ha hstep) ⟨[], agree_fresh⟩ hok hrun
  have hj := h.jsonl.filed.holds
  refine ⟨fun t limit before after ht hlimit hone => ?_, fun t q limit before after ht hq hlimit => ?_,
    fun t q types limit ht hq htypes => ?_⟩
  · have hsorted : ((s.memory.messages.get? t).getD []).Pairwise fun a b => a.seq < b.seq := by
      rw [h.memory.messages t]
      exact (h.counted.ordered.sorted t (p := fun r => decide (r.threadId = t)) fun r hr => by
        simpa using hr).filter _
    rw [MemoryEventStore.listMessages_eq hlimit hone hsorted, h.memory.messages t]
    exact ⟨hj.listMessages ht hlimit hone, h.db.listMessages h.counted hlimit⟩
  · have hmem : s.memory.listMessagesByRun t q limit before after
        = pageOf EventRecord.seq limit before after
          ((log.filter (inRun t q)).filter fun r => r.category = "message") := by
      unfold MemoryEventStore.listMessagesByRun
      rw [h.memory.events t, filter_run_message, filter_inRun]
    rw [hmem]
    exact ⟨hj.listMessagesByRun ht hq, h.db.listMessagesByRun h.counted hlimit⟩
  · have hmem : s.memory.listEvents t q types limit
        = (match types with
          | some ts => (log.filter (inRun t q)).filter fun r : EventRecord J => r.eventType ∈ ts
          | none => log.filter (inRun t q)).take limit := by
      cases types with
      | none | some ts => simp only [MemoryEventStore.listEvents, h.memory.events t, filter_inRun]
    rw [hmem]
    exact ⟨hj.listEvents ht hq types, h.db.listEvents h.counted htypes⟩

def openEngine (J : Type) : DbEngine J where
  fromIso := some
  accepts _ := true

/-- A message and a batch of two, in all three stores: the last two are the same. -/
theorem last_messages_alike :
    let a : EventArgs Json := { threadId := "t", runId := "r", eventType := "x"
                                category := "message", content := .str "b", createdAt := some "z" }
    ∃ s, (eventStores jsonValues (openEngine Json) (some "o")).run [.put a, .putBatch [a, a]] {} = some s
      ∧ (s.db.listMessages jsonValues (some "o") "t" 2 none (some 1)).map EventRecord.core
        = (s.memory.listMessages "t" 2 none (some 1)).map EventRecord.core
      ∧ s.jsonl.listMessages jsonValues "t" 2 none (some 1)
        = .ok ((s.memory.listMessages "t" 2 none (some 1)).map (EventRecord.fields jsonValues)) := by
  intro a
  have hfits : JsonlEventStore.Fits jsonValues a :=
    fits_json (by decide) (by decide) (by decide +kernel)
  have htakes : DbEventStore.Takes jsonValues (openEngine Json) (some "o") a :=
    ⟨⟨fun h => absurd h (by decide), fun _ _ => rfl, fun s _ hflag => absurd hflag (by decide)⟩,
      fun _ _ _ => rfl⟩
  have hok : (eventStores jsonValues (openEngine Json) (some "o")).Along
      (fun _ b => b.Portable jsonValues (openEngine Json) (some "o")) [.put a, .putBatch [a, a]] {} := by
    refine ⟨⟨hfits, htakes⟩, fun _ _ => ⟨⟨"t", fun e he => ?_⟩, fun _ _ => trivial⟩⟩
    simp only [mem_cons, not_mem_nil, or_false, or_self] at he
    subst he
    exact ⟨hfits, htakes, rfl⟩
  have h := (event_stores_read_alike hok rfl).1 "t" 2 none (some 1) (by decide) (by decide) (.inl rfl)
  exact ⟨_, rfl, h.2, h.1⟩

/-- Both cursors at once: the store in memory drops the second, the database keeps it. -/
theorem both_cursors_differ :
    let a : EventArgs Json := { threadId := "t", runId := "r", eventType := "x"
                                category := "message", content := .str "b", createdAt := some "z" }
    ((eventStores jsonValues (openEngine Json) (some "o")).run [.putBatch [a, a, a]] {}).map
        (fun s => ((s.memory.listMessages "t" 2 (some 3) (some 1)).map EventRecord.seq,
          (s.db.listMessages jsonValues (some "o") "t" 2 (some 3) (some 1)).map EventRecord.seq))
      = some ([1, 2], [2]) := by
  decide +kernel

end DeerFlow

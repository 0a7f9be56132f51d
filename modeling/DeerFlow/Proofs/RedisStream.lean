import DeerFlow.Data.Slots
import DeerFlow.Stream.Redis
import DeerFlow.Proofs.JsonRoundTrip

/-!
# When the Redis bridge ends a stream

The subscriber has handed out a front part of the stream. It stops after an empty read and a set
flag, which are two commands: what comes between them decides whether the front part was the whole
stream.
-/

namespace DeerFlow

open List Option EntryId

namespace EntryId

theorem before_iff {a b : EntryId} : a.before b ↔ a.ms < b.ms ∨ (a.ms = b.ms ∧ a.seq < b.seq) := by
  simp [before]

theorem before_irrefl (a : EntryId) : a.before a = false := by
  simp [before]

theorem before_trans {a b c : EntryId} (h : a.before b) (h' : b.before c) : a.before c := by
  rw [before_iff] at *
  omega

theorem before_asymm {a b : EntryId} (h : a.before b) : b.before a = false := by
  rw [before_iff] at h
  rw [Bool.eq_false_iff, ne_eq, before_iff]
  omega

theorem before_next (a : EntryId) (now : ℕ) : a.before (a.next now) := by
  rw [before_iff]
  unfold next
  split_ifs <;> simp_all

end EntryId

variable {J : Type} {C : PayloadCodec J} {maxlen : ℕ}

theorem PayloadCodec.decodeData_encodeData {p : Payload J} (h : C.plain p) :
    C.decodeData (C.encodeData p) = p := by
  cases p with
  | text s =>
    simp only [plain, Bool.or_eq_true, decide_eq_true_eq, isNone_iff_eq_none] at h
    change C.decodeData s = .text s
    unfold decodeData
    rcases h with rfl | h
    · rfl
    · split_ifs with hs
      · rw [hs]
      · rw [h]
        rfl
  | json v =>
    unfold decodeData encodeData
    rw [if_neg (C.dumps_ne_empty v), C.loads_dumps]
    rfl

def RedisStreams.unread (s : RedisStreams J) : List StreamEntry :=
  s.server.entries.filter fun e => s.cursor.before e.id

def Untrimmed (_ : RedisStreams J) : RedisAct J → Prop
  | .xadd _ _ _ trimmed _ => trimmed = 0
  | .streamExpired => False
  | .endedExpired => False
  | _ => True

/-- Every `XADD` reaches the server with a payload that reads back; the end flag is not set while
the subscriber is between an empty read and its look at the flag with new entries. -/
def EndsInOrder (C : PayloadCodec J) (s : RedisStreams J) : RedisAct J → Prop
  | .xadd _ data _ _ e => e.applied = true ∧ C.plain data = true
  | .setEnded e => e.applied = true → s.reader = .checking → s.unread = []
  | _ => True

instance decidableUntrimmed (s : RedisStreams J) (a) : Decidable (Untrimmed s a) := by
  unfold Untrimmed
  split <;> infer_instance

instance decidableEndsInOrder (s : RedisStreams J) (a) : Decidable (EndsInOrder C s a) := by
  unfold EndsInOrder
  split <;> infer_instance

structure Follows (C : PayloadCodec J) (s : RedisStreams J) : Prop where
  wire : s.server.entries.map (fun e => (e.event, e.data))
    = s.published.map fun p => (p.1, C.encodeData p.2)
  plain : ∀ p ∈ s.published, C.plain p.2 = true
  sorted : s.server.entries.Pairwise fun a b => a.id.before b.id = true
  last : ∀ e ∈ s.server.entries, e.id = s.server.lastId ∨ e.id.before s.server.lastId = true
  cursor : s.cursor = s.server.lastId ∨ s.cursor.before s.server.lastId = true
  unread : s.unread = s.server.entries.drop s.received.length
  front : s.received = s.published.take s.received.length
  delivering : ∀ rest, s.reader = .delivering rest → rest <+: s.unread
  checking : s.reader = .checking → s.server.ended = true → s.unread = []
  ended : s.server.ended = true → s.producer = .ending ∨ s.producer = .finished
  stopped : s.reader = .done → s.unread = [] ∧ s.server.ended = true
  stop : RedisYield.stop ∈ s.yielded → s.reader = .done

theorem follows_fresh : Follows C {} := by
  constructor <;> simp [RedisStreams.unread, RedisStreams.received]

variable {s : RedisStreams J}

theorem Follows.length_le (h : Follows C s) :
    s.received.length ≤ s.published.length := by
  have := congrArg length h.front
  rw [length_take] at this
  omega

theorem Follows.length_entries (h : Follows C s) :
    s.server.entries.length = s.published.length := by
  simpa using congrArg length h.wire

theorem Follows.move {s s' : RedisStreams J} (h : Follows C s) (hserver : s'.server = s.server)
    (hcursor : s'.cursor = s.cursor) (hpub : s'.published = s.published)
    (hrec : s'.received = s.received)
    (hprod : s.producer = .ending ∨ s.producer = .finished →
      s'.producer = .ending ∨ s'.producer = .finished)
    (hdel : ∀ rest, s'.reader = .delivering rest → rest <+: s.unread)
    (hcheck : s'.reader = .checking → s.server.ended → s.unread = [])
    (hdone : s'.reader = .done → s.unread = [] ∧ s.server.ended)
    (hstop : RedisYield.stop ∈ s'.yielded → s'.reader = .done) : Follows C s' := by
  have hun : s'.unread = s.unread := by rw [RedisStreams.unread, hserver, hcursor, RedisStreams.unread]
  constructor
  · rw [hserver, hpub]
    exact h.wire
  · rw [hpub]
    exact h.plain
  · rw [hserver]
    exact h.sorted
  · rw [hserver]
    exact h.last
  · rw [hcursor, hserver]
    exact h.cursor
  · rw [hun, hserver, hrec]
    exact h.unread
  · rw [hrec, hpub]
    exact h.front
  · rw [hun]
    exact hdel
  · rw [hun, hserver]
    exact hcheck
  · rw [hserver]
    exact fun he => hprod (h.ended he)
  · rw [hun, hserver]
    exact hdone
  · exact hstop

theorem received_yield (s : RedisStreams J) (ys : List (RedisYield J)) (r : ReaderPhase)
    (c : EntryId) :
    ({ s with cursor := c, reader := r, yielded := s.yielded ++ ys } : RedisStreams J).received
      = s.received ++ ys.filterMap RedisYield.event? := by
  simp [RedisStreams.received, filterMap_append]

theorem Follows.xadd (h : Follows C s) {event : String} {data : Payload J}
    (now : ℕ) (hplain : C.plain data) (hidle : s.producer = .idle) (ph : ProducerPhase) :
    Follows C { s with
      server := s.server.xadd event (C.encodeData data) now 0
      producer := ph, published := s.published ++ [(event, data)] } := by
  have hended : s.server.ended ≠ true := fun he => by
    rcases h.ended he with h' | h' <;> rw [hidle] at h' <;> cases h'
  have hnew := s.server.lastId.before_next now
  have hcur : s.cursor.before (s.server.lastId.next now) := by
    rcases h.cursor with h' | h'
    · rw [h']
      exact hnew
    · exact before_trans h' hnew
  have hentries : (s.server.xadd event (C.encodeData data) now 0).entries
      = s.server.entries ++ [⟨s.server.lastId.next now, event, C.encodeData data⟩] := rfl
  have hun : ({ s with
      server := s.server.xadd event (C.encodeData data) now 0
      producer := ph, published := s.published ++ [(event, data)] } : RedisStreams J).unread
      = s.unread ++ [⟨s.server.lastId.next now, event, C.encodeData data⟩] := by
    simp only [RedisStreams.unread, hentries, filter_append]
    simp [hcur]
  refine ⟨?_, Slots.forall_mem_concat h.plain hplain, ?_, ?_, Or.inr hcur, ?_, ?_, ?_, ?_,
    fun he => absurd he hended, ?_, h.stop⟩
  · simp only [hentries, map_append, h.wire]
    rfl
  · simp only [hentries]
    refine Slots.pairwise_concat h.sorted fun a ha => ?_
    rcases h.last a ha with h' | h'
    · rw [h']
      exact hnew
    · exact before_trans h' hnew
  · intro e he
    simp only [hentries, mem_append, mem_singleton] at he
    rcases he with he | rfl
    · refine Or.inr ?_
      rcases h.last e he with h' | h'
      · rw [h']
        exact hnew
      · exact before_trans h' hnew
    · exact Or.inl rfl
  · rw [hun, h.unread]
    simp only [hentries]
    have := h.length_entries
    have := h.length_le
    exact (drop_append_of_le_length (by omega)).symm
  · change s.received = (s.published ++ [(event, data)]).take s.received.length
    rw [take_append_of_le_length h.length_le]
    exact h.front
  · rw [hun]
    exact fun rest hr => (h.delivering rest hr).trans (prefix_append _ _)
  · exact fun _ he => absurd he hended
  · exact fun hd => absurd (h.stopped hd).2 hended

theorem filter_past {l : List StreamEntry} {n : ℕ} {e : StreamEntry} {rest : List StreamEntry}
    (hs : l.Pairwise fun a b => a.id.before b.id) (hd : l.drop n = e :: rest) :
    l.filter (fun x => e.id.before x.id) = rest := by
  have hl : l = l.take n ++ e :: rest := by rw [← hd, take_append_drop]
  rw [hl, pairwise_append, pairwise_cons] at hs
  rw [hl, filter_append, filter_cons]
  have h1 : (l.take n).filter (fun x => e.id.before x.id) = [] := by
    rw [filter_eq_nil_iff]
    intro x hx
    rw [before_asymm (hs.2.2 x hx e mem_cons_self)]
    simp
  have h2 : rest.filter (fun x => e.id.before x.id) = rest :=
    filter_eq_self.2 fun x hx => hs.2.1.1 x hx
  simp [h1, h2, before_irrefl]

theorem Follows.deliver (h : Follows C s) {e : StreamEntry}
    {es : List StreamEntry} (hr : s.reader = .delivering (e :: es)) :
    Follows C { s with
      cursor := e.id
      reader := if es.isEmpty then .reading else .delivering es
      yielded := s.yielded ++ [.event e.id e.event (C.decodeData e.data)] } := by
  obtain ⟨rest, hrest⟩ := h.delivering _ hr
  have hdrop : s.server.entries.drop s.received.length = e :: (es ++ rest) := by
    rw [← h.unread, ← hrest, cons_append]
  have hmem : e ∈ s.server.entries := mem_of_mem_drop (hdrop ▸ mem_cons_self)
  have hget : s.server.entries[s.received.length]? = some e := by
    rw [← head?_drop, hdrop]
    rfl
  -- the entry is the wire form of the event published at its place
  obtain ⟨p, hp, hpe⟩ : ∃ p, s.published[s.received.length]? = some p
      ∧ (e.event, e.data) = (p.1, C.encodeData p.2) := by
    have hw := congrArg (fun l => l[s.received.length]?) h.wire
    simp only [getElem?_map, hget, map_some] at hw
    obtain ⟨p, hp, hpe⟩ := map_eq_some_iff.1 hw.symm
    exact ⟨p, hp, hpe.symm⟩
  have hdata : C.decodeData e.data = p.2 := by
    rw [(Prod.mk.inj hpe).2]
    exact C.decodeData_encodeData (h.plain p (mem_of_getElem? hp))
  have hrec : ({ s with
      cursor := e.id
      reader := if es.isEmpty then .reading else .delivering es
      yielded := s.yielded ++ [.event e.id e.event (C.decodeData e.data)] } :
      RedisStreams J).received = s.received ++ [p] := by
    rw [received_yield, hdata, (Prod.mk.inj hpe).1]
    rfl
  have hun : ({ s with
      cursor := e.id
      reader := if es.isEmpty then .reading else .delivering es
      yielded := s.yielded ++ [.event e.id e.event (C.decodeData e.data)] } :
      RedisStreams J).unread = es ++ rest := filter_past h.sorted hdrop
  refine ⟨h.wire, h.plain, h.sorted, h.last, h.last e hmem, ?_, ?_, ?_, ?_, h.ended, ?_, ?_⟩
  · rw [hun, hrec, length_append, length_singleton, ← drop_drop, hdrop]
    rfl
  · rw [hrec, length_append, length_singleton, take_add_one, ← h.front, hp]
    rfl
  · intro rest' hr'
    rw [hun]
    split_ifs at hr'
    cases hr'
    exact prefix_append _ _
  · intro hr'
    split_ifs at hr'
  · intro hr'
    split_ifs at hr'
  · intro hstop
    simp only [mem_append, mem_singleton, reduceCtorEq, or_false] at hstop
    have := h.stop hstop
    rw [hr] at this
    cases this

theorem received_sentinel (s : RedisStreams J) {y : RedisYield J} (hy : y.event? = none)
    (r : ReaderPhase) :
    ({ s with reader := r, yielded := s.yielded ++ [y] } : RedisStreams J).received = s.received := by
  have := received_yield s [y] r s.cursor
  rwa [filterMap_cons_none hy, filterMap_nil, append_nil] at this

theorem follows_step {s s' : RedisStreams J} (h : Follows C s) (a : RedisAct J)
    (hkept : Untrimmed s a) (hord : EndsInOrder C s a)
    (hstep : (redisStreams C maxlen).step s a = some s') : Follows C s' := by
  change RedisStreams.step C maxlen s a = some s' at hstep
  -- a reader that is not done has not handed out the end
  have hnostop : s.reader ≠ .done → RedisYield.stop ∉ s.yielded := fun hne hs => hne (h.stop hs)
  cases a with
  | xadd event data now trimmed e =>
    simp only [RedisStreams.step, hord.1, if_true, Bool.and_eq_true, decide_eq_true_eq] at hstep
    obtain ⟨hg, hs⟩ := ite_none_right_eq_some.1 hstep
    cases hs
    cases hkept
    exact h.xadd now hord.2 hg.1 _
  | expire =>
    simp only [RedisStreams.step] at hstep
    split_ifs at hstep with hp
    cases hstep
    exact h.move rfl rfl rfl rfl (fun h' => by simp [hp] at h') h.delivering h.checking h.stopped
      h.stop
  | setEnded e =>
    obtain ⟨hp, hs⟩ := ite_none_right_eq_some.1 hstep
    cases hs
    refine ⟨h.wire, h.plain, h.sorted, h.last, h.cursor, h.unread, h.front, h.delivering, ?_, ?_, ?_,
      h.stop⟩
    · intro hr hend
      simp only [Bool.or_eq_true] at hend
      rcases hend with hend | hend
      · exact h.checking hr hend
      · exact hord hend hr
    · intro _
      split_ifs
      · exact Or.inl rfl
      · exact Or.inr rfl
    · intro hr
      exact ⟨(h.stopped hr).1, by simp [(h.stopped hr).2]⟩
  | expireEnded =>
    simp only [RedisStreams.step] at hstep
    split_ifs at hstep with hp
    cases hstep
    exact h.move rfl rfl rfl rfl (fun _ => Or.inr rfl) h.delivering h.checking h.stopped h.stop
  | xread raises =>
    simp only [RedisStreams.step] at hstep
    split at hstep
    · rename_i hr
      have hns := hnostop (by rw [hr]; simp)
      split_ifs at hstep with hraise
      · cases hstep
        refine h.move rfl rfl rfl (received_sentinel s rfl _) id (by simp) (by simp) (by simp) ?_
        intro hs
        exact absurd (by simpa using hs) hns
      · split at hstep <;> rename_i hread <;> cases hstep
        · -- an empty read: nothing is unread
          have hnil : s.unread = [] := by
            have := take_eq_nil_iff.1 hread
            simpa [RedisStreams.unread] using this
          exact h.move rfl rfl rfl rfl id (by simp) (fun _ _ => hnil) (by simp)
            (fun hs => absurd hs hns)
        · refine h.move rfl rfl rfl rfl id ?_ (by simp) (by simp) (fun hs => absurd hs hns)
          intro rest hrest
          cases hrest
          exact take_prefix _ _
    · cases hstep
  | deliver =>
    simp only [RedisStreams.step] at hstep
    split at hstep
    · rename_i hr
      cases hstep
      exact h.deliver hr
    · cases hstep
  | existsEnded raises =>
    simp only [RedisStreams.step] at hstep
    split at hstep
    · rename_i hr
      split_ifs at hstep with hend <;> cases hstep
      · have hend' : s.server.ended := by
          simp only [Bool.and_eq_true] at hend
          exact hend.1
        exact h.move rfl rfl rfl (received_sentinel s rfl _) id (by simp) (by simp)
          (fun _ => ⟨h.checking hr hend', hend'⟩) (fun _ => rfl)
      · refine h.move rfl rfl rfl (received_sentinel s rfl _) id (by simp) (by simp) (by simp) ?_
        intro hs
        exact absurd (by simpa using hs) (hnostop (by rw [hr]; simp))
    · cases hstep
  | wakeUp =>
    simp only [RedisStreams.step] at hstep
    split at hstep
    · rename_i hr
      cases hstep
      exact h.move rfl rfl rfl rfl id (by simp) (by simp) (by simp)
        (fun hs => absurd hs (hnostop (by rw [hr]; simp)))
    · cases hstep
  | streamExpired | endedExpired => exact hkept.elim

/-- In a run that loses no entry, in which the end flag is never set between an empty read and the
look at the flag with entries that came since, the subscriber gets the published events in their
order, each once, and ends only with all of them. -/
theorem redis_stream_ends_after_all {as : List (RedisAct J)} {s : RedisStreams J}
    (hkept : (redisStreams C maxlen).Along Untrimmed as {})
    (hord : (redisStreams C maxlen).Along (EndsInOrder C) as {})
    (hrun : (redisStreams C maxlen).run as {} = some s) :
    s.received <+: s.published ∧ (RedisYield.stop ∈ s.yielded → s.received = s.published) := by
  have h : Follows C s := by
    refine Machine.run_inv (fun s a s' hI hok hstep => ?_) follows_fresh (hkept.and hord) hrun
    exact follows_step hI a hok.1 hok.2 hstep
  refine ⟨?_, fun hstop => ?_⟩
  · rw [h.front]
    exact take_prefix _ _
  · have hun := (h.stopped (h.stop hstop)).1
    rw [h.unread, drop_eq_nil_iff, h.length_entries] at hun
    rw [h.front, take_of_length_le hun]

def jsonPayloads : PayloadCodec JsonObject where
  dumps v := String.ofList v.1.dumps
  loads s := (Json.loads s.toList).map Json.toPayload
  loads_dumps v := by
    rw [String.toList_ofList, loads_dumps, Option.map_some, Json.toPayload, dif_pos v.2]
  dumps_ne_empty v := by
    obtain ⟨c, cs, hv, -⟩ := exists_dumps v.1
    rw [hv]
    intro h
    have := congrArg String.toList h
    rw [String.toList_ofList] at this
    cases this

/-- A payload is read back as it was published exactly if it is no text that the json module takes
for something else. -/
theorem payload_is_read_back_iff (C : PayloadCodec J) (p : Payload J) :
    C.decodeData (C.encodeData p) = p
      ↔ ∀ s, p = .text s → s = "" ∨ C.loads s = none ∨ C.loads s = some (.text s) := by
  cases p with
  | json v => simp [C.decodeData_encodeData (p := .json v) rfl]
  | text t =>
    refine ⟨fun h s hs => ?_, fun h => ?_⟩
    · cases hs
      by_cases ht : t = ""
      · exact .inl ht
      · change C.decodeData t = .text t at h
        rw [PayloadCodec.decodeData, if_neg ht] at h
        cases hl : C.loads t with
        | none => exact .inr (.inl rfl)
        | some q => simp_all
    · change C.decodeData t = .text t
      unfold PayloadCodec.decodeData
      rcases h t rfl with rfl | h | h
      · rfl
      · simp_all
      · simp_all

/-- The text of a number is read back as the number. -/
theorem text_is_read_back_as_number : jsonPayloads.decodeData (jsonPayloads.encodeData (.text "42"))
      = .json ⟨.num 42, by decide⟩
    ∧ jsonPayloads.decodeData (jsonPayloads.encodeData (.text "42")) ≠ .text "42" := by
  have h : jsonPayloads.decodeData (jsonPayloads.encodeData (.text "42"))
    = .json ⟨.num 42, by decide⟩ := rfl
  exact ⟨h, fun h' => by cases h.symm.trans h'⟩

/-- Two events around an empty read, both handed out before the end. -/
theorem redis_reader_gets_both : ∃ s : RedisStreams JsonObject, (redisStreams jsonPayloads 256).run
        [.xread false, .existsEnded false, .xadd "metadata" (.text "hello") 5 0 .ok, .wakeUp, .expire,
          .xread false, .xadd "values" (.text "") 5 0 .ok, .deliver, .xread false, .deliver, .expire,
          .xread false, .setEnded .ok, .existsEnded false] {} = some s
      ∧ RedisYield.stop ∈ s.yielded ∧ s.received = s.published := by
  have h := @redis_stream_ends_after_all JsonObject jsonPayloads 256
    [.xread false, .existsEnded false, .xadd "metadata" (.text "hello") 5 0 .ok, .wakeUp, .expire,
      .xread false, .xadd "values" (.text "") 5 0 .ok, .deliver, .xread false, .deliver, .expire,
      .xread false, .setEnded .ok, .existsEnded false] _ (by decide) (by decide) rfl
  exact ⟨_, rfl, mem_append_right _ mem_cons_self, h.2 (mem_append_right _ mem_cons_self)⟩

/-- An event and the end flag come between an empty read and the look at the flag. -/
theorem redis_end_before_event : ∃ (as : List (RedisAct JsonObject)) (s : RedisStreams JsonObject),
      (redisStreams jsonPayloads 256).Along Untrimmed as {}
      ∧ (redisStreams jsonPayloads 256).run as {} = some s
      ∧ RedisYield.stop ∈ s.yielded ∧ s.received = [] ∧ s.published.length = 1 := by
  refine ⟨[.xread false, .xadd "values" (.json ⟨.null, by decide⟩) 5 0 .ok, .expire, .setEnded .ok,
    .existsEnded false], _, by decide, rfl, ?_, rfl, rfl⟩
  exact mem_cons_self

end DeerFlow

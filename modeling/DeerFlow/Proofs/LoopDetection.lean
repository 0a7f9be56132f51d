import DeerFlow.Agents.LoopDetection

/-!
# The limit on the calls of a tool

A warning ends the check of its response, and the calls after it are made but not counted. The limit
holds for a configuration exactly if it gives no warnings.
-/

namespace DeerFlow

open List Option ThreadTrack OrdDict LoopRuntime

def callsTo (tool : String) (calls : List ToolCall) : ℕ :=
  calls.countP fun tc => tc.name.getD "" = tool

theorem callsTo_cons (tool : String) (tc : ToolCall) (rest : List ToolCall) :
    callsTo tool (tc :: rest) = callsTo tool rest + if tc.name.getD "" = tool then 1 else 0 := by
  simp [callsTo, countP_cons]

def plainCalls (n : ℕ) (tool : String) : List ToolCall := List.replicate n { name := some tool }

theorem callsTo_plainCalls (n : ℕ) (tool : String) : callsTo tool (plainCalls n tool) = n := by
  simp [callsTo, plainCalls, countP_replicate]

theorem callsTo_append (tool : String) (xs ys : List ToolCall) :
    callsTo tool (xs ++ ys) = callsTo tool xs + callsTo tool ys := countP_append

namespace LoopDetectionConfig

variable (cfg : LoopDetectionConfig)

theorem effWarn_pos (name : String) : 1 ≤ cfg.effWarn name := by
  unfold effWarn
  cases cfg.toolFreqOverrides.get? name with
  | none => exact cfg.toolFreqWarn_pos
  | some o => exact o.warn_pos

theorem effWarn_le (name : String) : cfg.effWarn name ≤ cfg.effHard name := by
  unfold effWarn effHard
  cases cfg.toolFreqOverrides.get? name with
  | none => exact cfg.toolFreq_le
  | some o => exact o.warn_le

/-- No set of calls is warned about: the first warning would come with the limit, or never. -/
def NoHashWarning : Prop := cfg.warnThreshold = cfg.hardLimit ∨ cfg.windowSize < cfg.warnThreshold

def NoFreqWarning : Prop := ∀ name, name ≠ "" → cfg.effWarn name = cfg.effHard name

end LoopDetectionConfig

namespace ThreadTrack

variable {cfg : LoopDetectionConfig} {τ : LoopTexts} {t : ThreadTrack} {tc : ToolCall}
  {rest : List ToolCall}

theorem freq_counted (t : ThreadTrack) (name tool : String) :
    (t.counted name).freq tool = t.freq tool + if name = tool then 1 else 0 := by
  unfold freq counted
  rw [get?_set]
  split_ifs with h
  · subst h
    rfl
  · rfl

@[simp] theorem toolFreqWarned_counted (name : String) :
    (t.counted name).toolFreqWarned = t.toolFreqWarned := rfl

theorem countCalls_skip (hname : tc.name.getD "" = "") :
    countCalls cfg (tc :: rest) t = countCalls cfg rest t := by
  simp only [countCalls, hname, if_true]

theorem countCalls_next (name : String) (hname : tc.name.getD "" = name) (hne : name ≠ "")
    (hhard : ¬ cfg.effHard name ≤ t.freq name + 1)
    (hwarn : ¬ (cfg.effWarn name ≤ t.freq name + 1 ∧ name ∉ t.toolFreqWarned)) :
    countCalls cfg (tc :: rest) t = countCalls cfg rest (t.counted name) := by
  simp only [countCalls, hname, freq_counted, toolFreqWarned_counted, if_neg hne, if_true]
  rw [if_neg hhard, if_neg hwarn]

theorem countCalls_stop {name : String} (rest : List ToolCall) (hname : tc.name.getD "" = name) (hne : name ≠ "")
    (hhard : cfg.effHard name ≤ t.freq name + 1) :
    (countCalls cfg (tc :: rest) t).1 = t.counted name
      ∧ (countCalls cfg (tc :: rest) t).2.2 := by
  simp only [countCalls, hname, freq_counted, toolFreqWarned_counted, if_neg hne, if_true]
  rw [if_pos hhard]
  exact ⟨rfl, rfl⟩

theorem countCalls_warn (name : String) (hname : tc.name.getD "" = name) (hne : name ≠ "")
    (hhard : ¬ cfg.effHard name ≤ t.freq name + 1)
    (hwarn : cfg.effWarn name ≤ t.freq name + 1 ∧ name ∉ t.toolFreqWarned) :
    (countCalls cfg (tc :: rest) t).2.2 = false := by
  simp only [countCalls, hname, freq_counted, toolFreqWarned_counted, if_neg hne, if_true]
  rw [if_neg hhard, if_pos hwarn]

theorem freq_countCalls (hwarn : cfg.NoFreqWarning) {tool : String} (htool : tool ≠ "") :
    ∀ (calls : List ToolCall) (t : ThreadTrack), t.freq tool ≤ (countCalls cfg calls t).1.freq tool
        ∧ ((countCalls cfg calls t).2.2 = false →
          (countCalls cfg calls t).1.freq tool = t.freq tool + callsTo tool calls
            ∧ (0 < callsTo tool calls → (countCalls cfg calls t).1.freq tool < cfg.effHard tool))
  | [], t => ⟨le_refl _, fun _ => ⟨rfl, fun h => absurd h (lt_irrefl _)⟩⟩
  | tc :: rest, t => by
    rw [callsTo_cons]
    by_cases hname : tc.name.getD "" = ""
    · have hne : tc.name.getD "" ≠ tool := fun h => htool (h ▸ hname)
      rw [countCalls_skip hname, if_neg hne]
      exact freq_countCalls hwarn htool rest t
    · by_cases hhard : cfg.effHard (tc.name.getD "") ≤ t.freq (tc.name.getD "") + 1
      · obtain ⟨hcounted, hstop⟩ := countCalls_stop rest rfl hname hhard
        rw [hcounted, hstop, freq_counted]
        exact ⟨Nat.le_add_right _ _, nofun⟩
      · rw [countCalls_next _ rfl hname hhard fun h => hhard (hwarn _ hname ▸ h.1)]
        obtain ⟨hle, hcount⟩ := freq_countCalls hwarn htool rest (t.counted (tc.name.getD ""))
        rw [freq_counted] at hle hcount
        refine ⟨by omega, fun hgo => ?_⟩
        obtain ⟨heq, hlt⟩ := hcount hgo
        refine ⟨by omega, fun hpos => ?_⟩
        by_cases hrest : 0 < callsTo tool rest
        · exact hlt hrest
        · split_ifs at heq hpos with htc
          · rw [htc] at hhard
            omega
          · omega

theorem window_countCalls (cfg : LoopDetectionConfig) : ∀ (calls : List ToolCall) (t : ThreadTrack),
    (countCalls cfg calls t).1.history = t.history ∧ (countCalls cfg calls t).1.warned = t.warned
  | [], _ => ⟨rfl, rfl⟩
  | tc :: rest, t => by
    unfold countCalls
    dsimp only
    split_ifs
    · exact window_countCalls cfg rest t
    · exact ⟨rfl, rfl⟩
    · exact ⟨rfl, rfl⟩
    · exact window_countCalls cfg rest _

theorem countCalls_unnamed : ∀ {calls : List ToolCall}, (∀ tc ∈ calls, tc.name.getD "" = "") →
    (countCalls cfg calls t).2.2 = false
  | [], _ => rfl
  | tc :: rest, h => by
    rw [countCalls_skip (h tc (mem_cons_self ..))]
    exact countCalls_unnamed fun x hx => h x (mem_cons_of_mem _ hx)

theorem countCalls_warned {name : String} (hne : name ≠ "") (hlt : cfg.effWarn name < cfg.effHard name) :
    ∀ (n : ℕ) (t : ThreadTrack), name ∉ t.toolFreqWarned → t.freq name < cfg.effWarn name →
      cfg.effWarn name ≤ t.freq name + n →
      (countCalls cfg (plainCalls n name ++ rest) t).2.2 = false
  | 0, t, _, hfreq, hn => by omega
  | n + 1, t, hnew, hfreq, hn => by
    rw [plainCalls, replicate_succ, cons_append]
    by_cases hwarn : cfg.effWarn name ≤ t.freq name + 1
    · exact countCalls_warn name rfl hne (by omega) ⟨hwarn, hnew⟩
    · rw [countCalls_next name rfl hne (by omega) fun h => hwarn h.1]
      refine countCalls_warned hne hlt n (t.counted name) hnew ?_ ?_
      · rw [freq_counted, if_pos rfl]
        omega
      · rw [freq_counted, if_pos rfl]
        omega

theorem length_remember (cfg : LoopDetectionConfig) (t : ThreadTrack) (callHash : String) :
    (t.remember cfg callHash).history.length ≤ cfg.windowSize := by
  simp only [remember, length_drop]
  omega

theorem check_of_noHashWarning (h : cfg.NoHashWarning) (calls : List ToolCall) :
    (check cfg τ t calls).2.2 ∧ (check cfg τ t calls).1 = t.remember cfg (hashToolCalls τ calls)
      ∨ check cfg τ t calls = countCalls cfg calls (t.remember cfg (hashToolCalls τ calls)) := by
  unfold check
  dsimp only
  have hcount := count_le_length (a := hashToolCalls τ calls)
    (l := (t.remember cfg (hashToolCalls τ calls)).history)
  have hlen := length_remember cfg t (hashToolCalls τ calls)
  split_ifs with hhard hwarn
  · exact .inl ⟨rfl, rfl⟩
  · rcases h with h | h <;> omega
  · exact .inr rfl

theorem freq_check (hhash : cfg.NoHashWarning) (hfreq : cfg.NoFreqWarning) {tool : String}
    (htool : tool ≠ "") (t : ThreadTrack) (calls : List ToolCall) :
    t.freq tool ≤ (check cfg τ t calls).1.freq tool
      ∧ ((check cfg τ t calls).2.2 = false →
        (check cfg τ t calls).1.freq tool = t.freq tool + callsTo tool calls
          ∧ (0 < callsTo tool calls → (check cfg τ t calls).1.freq tool < cfg.effHard tool)) := by
  rcases check_of_noHashWarning (τ := τ) (t := t) hhash calls with ⟨hstop, htrack⟩ | heq
  · rw [htrack, hstop]
    exact ⟨le_refl _, nofun⟩
  · rw [heq]
    exact freq_countCalls hfreq htool calls (t.remember cfg (hashToolCalls τ calls))

theorem check_of_hardLimit_one (h : cfg.hardLimit = 1) (calls : List ToolCall) :
    (check cfg τ t calls).2.2 := by
  have hmem : hashToolCalls τ calls ∈ (t.remember cfg (hashToolCalls τ calls)).history := by
    have hpos := cfg.windowSize_pos
    simp only [remember, length_append, length_singleton]
    rw [drop_append_of_le_length (by omega)]
    exact mem_append_right _ (mem_singleton.2 rfl)
  have hcount := count_pos_iff.2 hmem
  unfold check
  rw [if_pos (by omega)]

theorem check_first (h : cfg.hardLimit ≠ 1) {calls : List ToolCall}
    (hcalls : (countCalls cfg calls (({} : ThreadTrack).remember cfg (hashToolCalls τ calls))).2.2
      = false) : (check cfg τ {} calls).2.2 = false := by
  have hpos := cfg.warnThreshold_pos
  have hle := cfg.warn_le
  have hhist : (({} : ThreadTrack).remember cfg (hashToolCalls τ calls)).history.count
      (hashToolCalls τ calls) ≤ 1 :=
    count_le_length.trans (by simp [remember])
  unfold check
  dsimp only
  split_ifs with hhard hwarn
  · omega
  · rfl
  · exact hcalls

theorem check_warned (h : cfg.hardLimit ≠ 1) {name : String} (hne : name ≠ "")
    (hlt : cfg.effWarn name < cfg.effHard name) (rest : List ToolCall) :
    (check cfg τ {} (plainCalls (cfg.effWarn name) name ++ rest)).2.2 = false :=
  check_first h (countCalls_warned hne hlt _ _ (by simp [remember]) (cfg.effWarn_pos name)
    (Nat.le_add_left _ _))

theorem window_iterate (hwarn : cfg.warnThreshold < cfg.hardLimit)
    (hwin : cfg.warnThreshold ≤ cfg.windowSize) (calls : List ToolCall) :
    ∀ k, k < cfg.warnThreshold →
      ((fun t => (check cfg τ t calls).1)^[k] {}).history = replicate k (hashToolCalls τ calls)
        ∧ ((fun t => (check cfg τ t calls).1)^[k] {}).warned = []
  | 0, _ => ⟨rfl, rfl⟩
  | k + 1, hk => by
    obtain ⟨hhist, hwarned⟩ := window_iterate hwarn hwin calls k (by omega)
    rw [Function.iterate_succ_apply']
    generalize (fun t => (check cfg τ t calls).1)^[k] {} = t at hhist hwarned
    have hrem : (t.remember cfg (hashToolCalls τ calls)).history
        = replicate (k + 1) (hashToolCalls τ calls) := by
      simp only [remember, hhist, ← replicate_succ', length_replicate]
      rw [Nat.sub_eq_zero_of_le (by omega), drop_zero]
    unfold check
    dsimp only
    rw [hrem, count_replicate_self, if_neg (by omega), if_neg (by omega)]
    obtain ⟨h1, h2⟩ := window_countCalls cfg calls (t.remember cfg (hashToolCalls τ calls))
    rw [h1, h2, hrem]
    exact ⟨rfl, by simp [remember, hwarned]⟩

theorem check_iterate (hwarn : cfg.warnThreshold < cfg.hardLimit)
    (hwin : cfg.warnThreshold ≤ cfg.windowSize) (calls : List ToolCall) :
    (check cfg τ ((fun t => (check cfg τ t calls).1)^[cfg.warnThreshold - 1] {}) calls).2.2
      = false := by
  have hpos := cfg.warnThreshold_pos
  obtain ⟨hhist, hwarned⟩ := window_iterate (τ := τ) hwarn hwin calls (cfg.warnThreshold - 1)
    (by omega)
  generalize (fun t => (check cfg τ t calls).1)^[cfg.warnThreshold - 1] {} = t at hhist hwarned
  have hrem : (t.remember cfg (hashToolCalls τ calls)).history
      = replicate cfg.warnThreshold (hashToolCalls τ calls) := by
    simp only [remember, hhist, ← replicate_succ', length_replicate]
    rw [Nat.sub_eq_zero_of_le (by omega), drop_zero, Nat.sub_add_cancel hpos]
  unfold check
  dsimp only
  rw [hrem, count_replicate_self, if_neg (by omega), if_pos ⟨le_refl _, by simp [remember, hwarned]⟩]

end ThreadTrack

namespace LoopDetection

variable {cfg : LoopDetectionConfig} {τ : LoopTexts} {s : LoopDetection} {thread tool : String}

def track (s : LoopDetection) (thread : String) : ThreadTrack := (s.tracks.get? thread).getD {}

def leftBy (cfg : LoopDetectionConfig) (τ : LoopTexts) (thread tool : String) (s : LoopDetection) :
    LoopAct → ℕ
  | .afterModel rt messages =>
    if rt.key.1 = thread then
      match s.response cfg τ rt messages with
      | some (.ai m) => callsTo tool m.toolCalls
      | _ => 0
    else 0
  | .beforeAgent _ | .wrapModelCall _ _ | .afterAgent _ | .reset _ => 0

/-- The calls of a tool that `after_model` has left in place in a thread. -/
def leftInPlace (cfg : LoopDetectionConfig) (τ : LoopTexts) (thread tool : String) :
    List LoopAct → LoopDetection → ℕ
  | [], _ => 0
  | a :: as, s => leftBy cfg τ thread tool s a + leftInPlace cfg τ thread tool as (s.act cfg τ a)

def KeepsThread (cfg : LoopDetectionConfig) (τ : LoopTexts) (thread : String) (s : LoopDetection)
    (a : LoopAct) : Prop :=
  (s.tracks.get? thread).isSome = true → ((s.act cfg τ a).tracks.get? thread).isSome = true

section Steps

theorem get?_evictIfNeeded (cfg : LoopDetectionConfig) (s : LoopDetection) (k : String) :
    (s.evictIfNeeded cfg).tracks.get? k = s.tracks.get? k
      ∨ (s.evictIfNeeded cfg).tracks.get? k = none := by
  simp only [evictIfNeeded, get?_filter]
  cases s.tracks.get? k with
  | none => exact .inl rfl
  | some t =>
    rw [filter_some]
    split
    · exact .inl rfl
    · exact .inr rfl

theorem track_touch (cfg : LoopDetectionConfig) (s : LoopDetection) (thread : String) :
    (s.touch cfg thread).track thread = s.track thread := by
  unfold touch track
  cases h : s.tracks.get? thread with
  | some t => simp
  | none =>
    rcases get?_evictIfNeeded cfg { s with tracks := s.tracks.set thread {} } thread
      with heq | heq
    · rw [heq]
      simp
    · rw [heq]

theorem get?_touch_of_ne {u : String} (hne : u ≠ thread) :
    (s.touch cfg u).tracks.get? thread = s.tracks.get? thread
      ∨ (s.touch cfg u).tracks.get? thread = none := by
  unfold touch
  cases s.tracks.get? u with
  | some t => exact .inl (by simp [hne])
  | none =>
    have h := get?_evictIfNeeded cfg { s with tracks := s.tracks.set u {} } thread
    simpa only [get?_set, if_neg hne] using h

theorem track_trackAndCheck (cfg : LoopDetectionConfig) (τ : LoopTexts) (s : LoopDetection)
    (thread : String) (calls : List ToolCall) :
    (s.trackAndCheck cfg τ thread calls).1.track thread
        = ((s.track thread).check cfg τ calls).1
      ∧ (s.trackAndCheck cfg τ thread calls).2 = ((s.track thread).check cfg τ calls).2 := by
  have h := track_touch cfg s thread
  unfold track at h
  unfold trackAndCheck track
  simp only [h, get?_set, if_true, getD_some, and_self]

theorem get?_trackAndCheck_of_ne {u : String} (hne : u ≠ thread) (calls : List ToolCall) :
    (s.trackAndCheck cfg τ u calls).1.tracks.get? thread = s.tracks.get? thread
      ∨ (s.trackAndCheck cfg τ u calls).1.tracks.get? thread = none := by
  unfold trackAndCheck
  simp only [get?_set, if_neg hne]
  exact get?_touch_of_ne hne

variable {messages : List Message}

theorem afterModel_idle (cfg : LoopDetectionConfig) (τ : LoopTexts) (s : LoopDetection)
    (rt : LoopRuntime)
    (h : ∀ m, messages.getLast? = some (.ai m) → m.toolCalls = []) :
    s.afterModel cfg τ rt messages = (s, none) := by
  unfold afterModel
  split
  · next m hm => rw [if_pos (h m hm)]
  · rfl

theorem afterModel_calls (cfg : LoopDetectionConfig) (τ : LoopTexts) (s : LoopDetection)
    (rt : LoopRuntime) {m : AiMessage}
    (hm : messages.getLast? = some (.ai m)) (hne : m.toolCalls ≠ []) :
    (s.afterModel cfg τ rt messages).1.tracks
        = (s.trackAndCheck cfg τ rt.key.1 m.toolCalls).1.tracks
      ∧ ∃ m', s.response cfg τ rt messages = some (.ai m') ∧ m'.toolCalls
        = if (s.trackAndCheck cfg τ rt.key.1 m.toolCalls).2.2 then [] else m.toolCalls := by
  unfold response afterModel
  simp only [hm, if_neg hne]
  rcases s.trackAndCheck cfg τ rt.key.1 m.toolCalls with ⟨s', warning, stop⟩
  cases stop with
  | true => exact ⟨rfl, _, rfl, rfl⟩
  | false =>
    cases warning with
    | none | some warning => exact ⟨rfl, m, rfl, rfl⟩

theorem track_eq {s' : LoopDetection}
    (h : s'.tracks.get? thread = s.tracks.get? thread ∨ s'.tracks.get? thread = none)
    (hkeep : (s.tracks.get? thread).isSome → (s'.tracks.get? thread).isSome) :
    s'.track thread = s.track thread := by
  unfold track
  rcases h with h | h
  · rw [h]
  · rw [h] at hkeep ⊢
    cases hs : s.tracks.get? thread with
    | none => rfl
    | some t =>
      rw [hs] at hkeep
      cases hkeep rfl

theorem get?_reset (threadId : Option String) :
    (s.reset threadId).tracks.get? thread = s.tracks.get? thread
      ∨ (s.reset threadId).tracks.get? thread = none := by
  unfold reset
  split
  · exact .inr rfl
  · exact .inr rfl
  · simp only [get?_pop]
    split
    · exact .inr rfl
    · exact .inl rfl

theorem act_idle (cfg : LoopDetectionConfig) (τ : LoopTexts) (s : LoopDetection)
    (thread tool : String) (rt : LoopRuntime)
    (h : ∀ m, messages.getLast? = some (.ai m) → m.toolCalls = []) :
    s.act cfg τ (.afterModel rt messages) = s
      ∧ leftBy cfg τ thread tool s (.afterModel rt messages) = 0 := by
  have hidle := afterModel_idle cfg τ s rt h
  refine ⟨by simp only [act, hidle], ?_⟩
  simp only [leftBy, response, hidle]
  split
  · split
    · next m hm =>
      rw [h m hm]
      rfl
    · rfl
  · rfl

/-- The tool calls of a response of the thread. -/
def emitted (thread : String) : LoopAct → List ToolCall
  | .afterModel rt messages =>
    match messages.getLast? with
    | some (.ai m) => if rt.key.1 = thread then m.toolCalls else []
    | _ => []
  | .beforeAgent _ | .wrapModelCall _ _ | .afterAgent _ | .reset _ => []

theorem act_cases (tool : String) {a : LoopAct} (hkeep : KeepsThread cfg τ thread s a) :
    (s.act cfg τ a).track thread = s.track thread ∧ leftBy cfg τ thread tool s a = 0
      ∨ ∃ calls, (emitted thread a = calls ∧ calls ≠ [])
        ∧ (s.act cfg τ a).track thread = ((s.track thread).check cfg τ calls).1
        ∧ leftBy cfg τ thread tool s a
          = if ((s.track thread).check cfg τ calls).2.2 then 0 else callsTo tool calls := by
  cases a with
  | beforeAgent rt | wrapModelCall rt messages | afterAgent rt => exact .inl ⟨rfl, rfl⟩
  | reset threadId => exact .inl ⟨track_eq (get?_reset threadId) hkeep, rfl⟩
  | afterModel rt messages =>
    by_cases hcalls : ∀ m, messages.getLast? = some (.ai m) → m.toolCalls = []
    · obtain ⟨hact, hleft⟩ := act_idle cfg τ s thread tool rt hcalls
      exact .inl ⟨by rw [hact], hleft⟩
    · push Not at hcalls
      obtain ⟨m, hm, hne⟩ := hcalls
      obtain ⟨htracks, m', hresponse, hm'⟩ := afterModel_calls cfg τ s rt hm hne
      by_cases hthread : rt.key.1 = thread
      · subst hthread
        obtain ⟨htrack, hverdict⟩ := track_trackAndCheck cfg τ s rt.key.1 m.toolCalls
        refine .inr ⟨m.toolCalls, ⟨by simp [emitted, hm], hne⟩, ?_, ?_⟩
        · rw [← htrack]
          simp only [track, act, htracks]
        · simp only [leftBy, if_true, hresponse, hm', hverdict]
          split <;> rfl
      · refine .inl ⟨track_eq ?_ hkeep, by simp only [leftBy, if_neg hthread]⟩
        simp only [act, htracks]
        exact get?_trackAndCheck_of_ne hthread m.toolCalls

end Steps

theorem leftInPlace_lt (hhash : cfg.NoHashWarning) (hfreq : cfg.NoFreqWarning) (htool : tool ≠ "") :
    ∀ (as : List LoopAct) (s : LoopDetection) (n : ℕ), n ≤ (s.track thread).freq tool →
      n < cfg.effHard tool → (loopDetection cfg τ).Along (KeepsThread cfg τ thread) as s →
      n + leftInPlace cfg τ thread tool as s < cfg.effHard tool
  | [], _, _, _, hlt, _ => hlt
  | a :: as, s, n, hle, hlt, hkeep => by
    rw [leftInPlace, ← Nat.add_assoc]
    have hrest := hkeep.2 _ rfl
    rcases act_cases tool hkeep.1 with ⟨htrack, hleft⟩ | ⟨calls, -, htrack, hleft⟩
    · rw [hleft]
      exact leftInPlace_lt hhash hfreq htool as _ n (by rw [htrack]; exact hle) hlt hrest
    · obtain ⟨hmono, hcount⟩ :=
        freq_check (τ := τ) hhash hfreq htool (s.track thread) calls
      rw [← htrack] at hmono hcount
      refine leftInPlace_lt hhash hfreq htool as _ _ ?_ ?_ hrest
      · rw [hleft]
        split_ifs with hstop
        · omega
        · obtain ⟨heq, -⟩ := hcount (by simpa using hstop)
          omega
      · rw [hleft]
        split_ifs with hstop
        · exact hlt
        · obtain ⟨heq, hbound⟩ := hcount (by simpa using hstop)
          rcases Nat.eq_zero_or_pos (callsTo tool calls) with hzero | hpos
          · omega
          · have := hbound hpos
            omega

theorem leftInPlace_zero (h : cfg.hardLimit = 1) : ∀ (as : List LoopAct) (s : LoopDetection),
    (loopDetection cfg τ).Along (KeepsThread cfg τ thread) as s →
      leftInPlace cfg τ thread tool as s = 0
  | [], _, _ => rfl
  | a :: as, s, hkeep => by
    rw [leftInPlace, leftInPlace_zero h as _ (hkeep.2 _ rfl), Nat.add_zero]
    rcases act_cases tool hkeep.1 with ⟨-, hleft⟩ | ⟨calls, -, -, hleft⟩
    · exact hleft
    · rw [hleft, check_of_hardLimit_one h, if_pos rfl]

section Exceeded

def respond (thread : String) (calls : List ToolCall) : LoopAct :=
  .afterModel { threadId := some thread } [.ai { toolCalls := calls }]

theorem leftInPlace_append (as bs : List LoopAct) : ∀ s : LoopDetection,
    leftInPlace cfg τ thread tool (as ++ bs) s = leftInPlace cfg τ thread tool as s
      + leftInPlace cfg τ thread tool bs (as.foldl (LoopDetection.act cfg τ) s) := by
  induction as with
  | nil => exact fun s => (Nat.zero_add _).symm
  | cons a as ih =>
    intro s
    simp only [cons_append, leftInPlace, ih, foldl_cons, Nat.add_assoc]

variable (hthread : thread ≠ "") {calls : List ToolCall} (hcalls : calls ≠ [])
include hthread hcalls

theorem track_respond (tool : String) :
    (s.act cfg τ (respond thread calls)).track thread = ((s.track thread).check cfg τ calls).1
      ∧ leftBy cfg τ thread tool s (respond thread calls)
        = if ((s.track thread).check cfg τ calls).2.2 then 0 else callsTo tool calls := by
  have hkey : key { threadId := some thread } = (thread, "default") := by
    simp [key, filter_some, hthread]
  have hlast : [Message.ai { toolCalls := calls }].getLast? = some (.ai { toolCalls := calls }) := rfl
  obtain ⟨htracks, m', hresponse, hm'⟩ := afterModel_calls cfg τ s { threadId := some thread } hlast hcalls
  obtain ⟨htrack, hverdict⟩ := track_trackAndCheck cfg τ s thread calls
  rw [hkey] at htracks hm'
  constructor
  · rw [← htrack]
    simp only [track, act, respond, htracks]
  · simp only [leftBy, respond, hkey, if_true, hresponse, hm', hverdict]
    split <;> rfl

theorem keeps_respond : KeepsThread cfg τ thread s (respond thread calls) := by
  have hkey : key { threadId := some thread } = (thread, "default") := by
    simp [key, filter_some, hthread]
  have hlast : [Message.ai { toolCalls := calls }].getLast? = some (.ai { toolCalls := calls }) := rfl
  obtain ⟨htracks, -⟩ := afterModel_calls cfg τ s { threadId := some thread } hlast hcalls
  intro _
  simp only [act, respond, htracks, hkey, trackAndCheck, get?_set, if_true, isSome_some]

theorem track_foldl_respond : ∀ (k : ℕ) (s : LoopDetection),
    ((replicate k (respond thread calls)).foldl (LoopDetection.act cfg τ) s).track thread
      = (fun t => (check cfg τ t calls).1)^[k] (s.track thread)
  | 0, _ => rfl
  | k + 1, s => by
    rw [replicate_succ, foldl_cons, track_foldl_respond k, Function.iterate_succ_apply,
      (track_respond hthread hcalls "").1]

theorem along_respond : ∀ (k : ℕ) (s : LoopDetection),
    (loopDetection cfg τ).Along (KeepsThread cfg τ thread)
      (replicate k (respond thread calls)) s
  | 0, _ => trivial
  | k + 1, _ => ⟨keeps_respond hthread hcalls, fun s' _ => along_respond k s'⟩

theorem leftBy_respond (h : (check cfg τ (s.track thread) calls).2.2 = false) :
    leftBy cfg τ thread tool s (respond thread calls) = callsTo tool calls := by
  rw [(track_respond hthread hcalls tool).2, h]
  rfl

theorem leftInPlace_first (h : (check cfg τ {} calls).2.2 = false) :
    leftInPlace cfg τ thread tool [respond thread calls] {} = callsTo tool calls :=
  leftBy_respond hthread hcalls h

theorem leftInPlace_respond {k : ℕ}
    (h : (check cfg τ ((fun t => (check cfg τ t calls).1)^[k] {}) calls).2.2
      = false) :
    callsTo tool calls
      ≤ leftInPlace cfg τ thread tool (replicate (k + 1) (respond thread calls)) {} := by
  rw [replicate_succ', leftInPlace_append]
  refine le_trans (le_of_eq ?_) (Nat.le_add_left _ _)
  rw [leftInPlace, leftInPlace, leftBy_respond hthread hcalls, Nat.add_zero]
  rw [track_foldl_respond hthread hcalls]
  exact h

end Exceeded

def Exact (cfg : LoopDetectionConfig) (tool : String) : Prop :=
  cfg.hardLimit = 1 ∨ tool ≠ "" ∧ cfg.NoHashWarning ∧ cfg.NoFreqWarning

theorem exists_exceeded (h : ¬ Exact cfg tool) : ∃ as,
    (loopDetection cfg τ).Along (KeepsThread cfg τ "t") as {}
      ∧ cfg.effHard tool ≤ leftInPlace cfg τ "t" tool as {} := by
  have hone : cfg.hardLimit ≠ 1 := fun h1 => h (.inl h1)
  have hpos : cfg.effHard tool ≠ 0 := by
    have h1 := cfg.effWarn_pos tool
    have h2 := cfg.effWarn_le tool
    omega
  have hexceed : ∀ (calls : List ToolCall) (k : ℕ), cfg.effHard tool ≤ callsTo tool calls →
      (check cfg τ ((fun t => (check cfg τ t calls).1)^[k] {}) calls).2.2
        = false → ∃ as, (loopDetection cfg τ).Along (KeepsThread cfg τ "t") as {}
          ∧ cfg.effHard tool ≤ leftInPlace cfg τ "t" tool as {} := by
    intro calls k hle hcheck
    have hne : calls ≠ [] := by
      rintro rfl
      exact hpos (Nat.le_zero.1 hle)
    exact ⟨_, along_respond (by decide) hne (k + 1) {},
      hle.trans (leftInPlace_respond (by decide) hne hcheck)⟩
  have hplain := (callsTo_plainCalls (cfg.effHard tool) tool).ge
  by_cases htool : tool = ""
  · refine hexceed (plainCalls (cfg.effHard tool) tool) 0 hplain (check_first hone ?_)
    refine countCalls_unnamed fun tc htc => ?_
    rw [eq_of_mem_replicate htc]
    exact htool
  by_cases hhash : cfg.NoHashWarning
  · have hfreq : ¬ cfg.NoFreqWarning := fun hf => h (.inr ⟨htool, hhash, hf⟩)
    unfold LoopDetectionConfig.NoFreqWarning at hfreq
    push Not at hfreq
    obtain ⟨name, hname, hwarn⟩ := hfreq
    have hlt : cfg.effWarn name < cfg.effHard name := lt_of_le_of_ne (cfg.effWarn_le name) hwarn
    refine hexceed (plainCalls (cfg.effWarn name) name ++ plainCalls (cfg.effHard tool) tool) 0 ?_
      (check_warned hone hname hlt _)
    rw [callsTo_append]
    omega
  · unfold LoopDetectionConfig.NoHashWarning at hhash
    push Not at hhash
    exact hexceed (plainCalls (cfg.effHard tool) tool) (cfg.warnThreshold - 1) hplain
      (check_iterate (lt_of_le_of_ne cfg.warn_le hhash.1) hhash.2 _)

/-- The calls of a tool that are left in place, in a thread that is neither evicted nor reset, stay
below its limit in every sequence of responses exactly if no response is left in place or the tool
has a name and no warning is ever given. -/
theorem tool_limit_iff (cfg : LoopDetectionConfig) (τ : LoopTexts) (tool : String) :
    (∀ thread as, (loopDetection cfg τ).Along (KeepsThread cfg τ thread) as {} →
        leftInPlace cfg τ thread tool as {} < cfg.effHard tool)
      ↔ cfg.hardLimit = 1 ∨ tool ≠ "" ∧ cfg.NoHashWarning ∧ cfg.NoFreqWarning := by
  have hpos : 0 < cfg.effHard tool := lt_of_lt_of_le (cfg.effWarn_pos tool) (cfg.effWarn_le tool)
  constructor
  · intro hall
    by_contra hexact
    obtain ⟨as, hkeep, hle⟩ := exists_exceeded (τ := τ) hexact
    exact absurd (hall "t" as hkeep) (not_lt.2 hle)
  · rintro (hone | ⟨htool, hhash, hfreq⟩) thread as hkeep
    · rw [leftInPlace_zero hone as {} hkeep]
      exact hpos
    · have h := leftInPlace_lt hhash hfreq htool as {} 0 (Nat.zero_le _) hpos hkeep
      rwa [Nat.zero_add] at h

/-- With the default configuration, one response with fifty calls of a tool is left in place: the
thirtieth gives a warning, and the others are not counted. -/
theorem fifty_calls_left_in_place :
    let τ : LoopTexts := ⟨String.ofList, fun _ => "", fun _ => none⟩
    (loopDetection {} τ).Along (KeepsThread {} τ "t") [respond "t" (plainCalls 50 "bash")] {}
      ∧ leftInPlace {} τ "t" "bash" [respond "t" (plainCalls 50 "bash")] {} = 50
      ∧ ({} : LoopDetectionConfig).effHard "bash" = 50 := by
  refine ⟨⟨nofun, fun _ _ => trivial⟩, ?_, rfl⟩
  have hcalls : plainCalls 50 "bash"
      = plainCalls (({} : LoopDetectionConfig).effWarn "bash") "bash" ++ plainCalls 20 "bash" :=
    replicate_add 30 20 _
  rw [hcalls, leftInPlace_first (by decide) (by decide)
    (check_warned (by decide) (by decide) (by decide) _), ← hcalls]
  exact callsTo_plainCalls 50 "bash"

end LoopDetection

end DeerFlow

import DeerFlow.Proofs.LoopDetection

/-!
# Identical tool calls

A thread whose responses have the same tool calls, in any order, fills the end of its window with one
hash. The limit is reached if the window has room for that many; the configuration does not ask for
it.
-/

namespace DeerFlow

open List Option ThreadTrack

theorem hashToolCalls_perm (τ : LoopTexts) {calls calls' : List ToolCall} (h : calls.Perm calls') :
    hashToolCalls τ calls = hashToolCalls τ calls' := by
  have : IsTrans String (· ≤ ·) := ⟨fun _ _ _ h h' => String.le_trans h h'⟩
  have : Std.Total fun a b : String => a ≤ b := ⟨String.le_total⟩
  have : Std.Antisymm fun a b : String => a ≤ b := ⟨fun _ _ => String.le_antisymm⟩
  have hsorted : (calls.map (·.normalized τ)).insertionSort (· ≤ ·)
      = (calls'.map (·.normalized τ)).insertionSort (· ≤ ·) :=
    List.Perm.eq_of_pairwise' (pairwise_insertionSort _ _) (pairwise_insertionSort _ _)
      (((perm_insertionSort ..).trans (h.map _)).trans (perm_insertionSort ..).symm)
  unfold hashToolCalls
  rw [hsorted]

namespace ThreadTrack

variable {cfg : LoopDetectionConfig} {τ : LoopTexts} {t : ThreadTrack} {calls : List ToolCall}

theorem history_check (cfg : LoopDetectionConfig) (τ : LoopTexts) (t : ThreadTrack)
    (calls : List ToolCall) :
    (check cfg τ t calls).1.history = (t.remember cfg (hashToolCalls τ calls)).history := by
  unfold check
  dsimp only
  split_ifs
  · rfl
  · rfl
  · exact (window_countCalls cfg calls _).1

theorem stretch_remember {h : String} {k : ℕ} (hk : k < cfg.windowSize)
    (hsuf : replicate k h <:+ t.history) :
    replicate (k + 1) h <:+ (t.remember cfg h).history := by
  obtain ⟨front, hfront⟩ := hsuf
  simp only [remember, ← hfront, append_assoc, ← replicate_succ']
  rw [drop_append_of_le_length (by simp; omega)]
  exact suffix_append _ _

theorem check_stops {k : ℕ} (hk : k + 1 = cfg.hardLimit)
    (hsuf : replicate (k + 1) (hashToolCalls τ calls)
      <:+ (t.remember cfg (hashToolCalls τ calls)).history) : (check cfg τ t calls).2.2 := by
  have hcount := hsuf.sublist.count_le (hashToolCalls τ calls)
  rw [count_replicate_self, hk] at hcount
  unfold check
  rw [if_pos hcount]

theorem check_small_window (h : cfg.windowSize < cfg.hardLimit)
    (hcalls : ∀ tc ∈ calls, tc.name.getD "" = "") : (check cfg τ t calls).2.2 = false := by
  have hcount : (t.remember cfg (hashToolCalls τ calls)).history.count (hashToolCalls τ calls)
      ≤ cfg.windowSize := count_le_length.trans (length_remember cfg t _)
  unfold check
  rw [if_neg (by omega)]
  split_ifs
  · rfl
  · exact countCalls_unnamed hcalls

end ThreadTrack

namespace LoopDetection

variable {cfg : LoopDetectionConfig} {τ : LoopTexts} {s : LoopDetection} {thread : String}
  {calls : List ToolCall} {a : LoopAct}

def leaves (cfg : LoopDetectionConfig) (τ : LoopTexts) (s : LoopDetection) : LoopAct → Bool
  | .afterModel rt messages =>
    match s.response cfg τ rt messages with
    | some (.ai m) => !m.toolCalls.isEmpty
    | _ => false
  | .beforeAgent _ | .wrapModelCall _ _ | .afterAgent _ | .reset _ => false

/-- The responses of the thread whose tool calls are left, up to the first that is stripped. -/
def keptBeforeStop (cfg : LoopDetectionConfig) (τ : LoopTexts) (thread : String) :
    List LoopAct → LoopDetection → ℕ
  | [], _ => 0
  | a :: as, s =>
    if (emitted thread a).isEmpty then keptBeforeStop cfg τ thread as (s.act cfg τ a)
    else if s.leaves cfg τ a then 1 + keptBeforeStop cfg τ thread as (s.act cfg τ a)
    else 0

theorem emitted_cases {rt : LoopRuntime} {messages : List Message}
    (h : emitted thread (.afterModel rt messages) ≠ []) : ∃ m, messages.getLast? = some (.ai m) ∧
      rt.key.1 = thread ∧ emitted thread (.afterModel rt messages) = m.toolCalls := by
  simp only [emitted] at h ⊢
  split at h
  · next m hm =>
    split_ifs at h with hkey
    · exact ⟨m, hm, hkey, if_pos hkey⟩
    · exact absurd rfl h
  · exact absurd rfl h

theorem act_emitted (cfg : LoopDetectionConfig) (τ : LoopTexts) (s : LoopDetection)
    (h : emitted thread a ≠ []) :
    (s.act cfg τ a).track thread = ((s.track thread).check cfg τ (emitted thread a)).1 ∧
      s.leaves cfg τ a = !((s.track thread).check cfg τ (emitted thread a)).2.2 := by
  cases a with
  | beforeAgent rt | wrapModelCall rt messages | afterAgent rt | reset threadId => exact absurd rfl h
  | afterModel rt messages =>
    obtain ⟨m, hm, rfl, hcalls⟩ := emitted_cases h
    rw [hcalls] at h ⊢
    obtain ⟨htracks, m', hresponse, hm'⟩ := afterModel_calls cfg τ s rt hm h
    obtain ⟨htrack, hverdict⟩ := track_trackAndCheck cfg τ s rt.key.1 m.toolCalls
    constructor
    · rw [← htrack]
      simp only [track, act, htracks]
    · simp only [leaves, hresponse, hm', hverdict]
      split_ifs with hstop
      · simp [hstop]
      · simp [hstop, h]

theorem act_silent (hkeep : KeepsThread cfg τ thread s a) (h : emitted thread a = []) :
    (s.act cfg τ a).track thread = s.track thread := by
  rcases act_cases "" hkeep with ⟨htrack, -⟩ | ⟨calls, ⟨hcalls, hne⟩, -⟩
  · exact htrack
  · exact absurd (hcalls.symm.trans h) hne

theorem keptBeforeStop_lt (calls : List ToolCall) (hwin : cfg.hardLimit ≤ cfg.windowSize) :
    ∀ (as : List LoopAct) (s : LoopDetection) (k : ℕ), k < cfg.hardLimit →
      replicate k (hashToolCalls τ calls) <:+ (s.track thread).history →
      (loopDetection cfg τ).Along (KeepsThread cfg τ thread) as s →
      (∀ a ∈ as, emitted thread a = [] ∨ (emitted thread a).Perm calls) →
      k + keptBeforeStop cfg τ thread as s < cfg.hardLimit
  | [], _, _, hk, _, _, _ => hk
  | a :: as, s, k, hk, hsuf, hkeep, hsame => by
    have hrest : ∀ a ∈ as, emitted thread a = [] ∨ (emitted thread a).Perm calls :=
      fun b hb => hsame b (mem_cons_of_mem _ hb)
    have hnext := hkeep.2 _ rfl
    rw [keptBeforeStop]
    by_cases hem : emitted thread a = []
    · rw [if_pos (by simp [hem])]
      refine keptBeforeStop_lt calls hwin as _ k hk ?_ hnext hrest
      rwa [act_silent hkeep.1 hem]
    · obtain ⟨htrack, hleaves⟩ := act_emitted cfg τ s hem
      have hhash := hashToolCalls_perm τ ((hsame a (mem_cons_self ..)).resolve_left hem)
      have hgrow := stretch_remember (hk.trans_le hwin) hsuf
      rw [if_neg (by simpa using hem), hleaves]
      split_ifs with hstop
      · have hlt : k + 1 < cfg.hardLimit := by
          refine lt_of_le_of_ne hk fun heq => ?_
          rw [← hhash] at hgrow
          rw [check_stops heq hgrow] at hstop
          cases hstop
        rw [← Nat.add_assoc]
        refine keptBeforeStop_lt calls hwin as _ (k + 1) hlt ?_ hnext hrest
        rwa [htrack, history_check, hhash]
      · exact hk

theorem keptBeforeStop_respond (thread : String) (hthread : thread ≠ "") (hcalls : calls ≠ [])
    (h : ∀ t, (check cfg τ t calls).2.2 = false) : ∀ (n : ℕ) (s : LoopDetection),
    keptBeforeStop cfg τ thread (replicate n (respond thread calls)) s = n
  | 0, _ => rfl
  | n + 1, s => by
    have hem : emitted thread (respond thread calls) = calls := by
      simp [emitted, respond, LoopRuntime.key, filter_some, hthread]
    have hleaves := (act_emitted cfg τ s (by rwa [hem])).2
    rw [hem, h, Bool.not_false] at hleaves
    rw [replicate_succ, keptBeforeStop, hem, hleaves, if_neg (by simpa using hcalls), if_pos rfl,
      keptBeforeStop_respond thread hthread hcalls h n, Nat.add_comm]

/-- In every sequence of responses from any state, of a thread that is not evicted and whose tool
calls are the same up to their order, fewer than `hard_limit` are left before one is stripped,
exactly if the window is as large as the limit. -/
theorem identical_calls_stopped_iff (cfg : LoopDetectionConfig) (τ : LoopTexts) :
    (∀ thread calls as s, (loopDetection cfg τ).Along (KeepsThread cfg τ thread) as s →
      (∀ a ∈ as, emitted thread a = [] ∨ (emitted thread a).Perm calls) →
      keptBeforeStop cfg τ thread as s ≤ cfg.hardLimit - 1) ↔ cfg.hardLimit ≤ cfg.windowSize := by
  have hpos : 0 < cfg.hardLimit := cfg.warnThreshold_pos.trans cfg.warn_le
  constructor
  · intro hall
    by_contra hwin
    have hne : [({} : ToolCall)] ≠ [] := cons_ne_nil _ _
    have hkept := keptBeforeStop_respond "t" (by decide) hne
      (fun t => check_small_window (τ := τ) (t := t) (not_le.1 hwin) (by simp))
      cfg.hardLimit {}
    have hle := hall "t" [{}] (replicate cfg.hardLimit (respond "t" [{}])) {}
      (along_respond (by decide) hne _ _) fun a ha => by
        rw [eq_of_mem_replicate ha]
        exact .inr (List.Perm.refl _)
    omega
  · intro hwin thread calls as s hkeep hsame
    have h := keptBeforeStop_lt calls hwin as s 0 hpos nil_suffix hkeep hsame
    omega

/-- With a window of one response, two responses of the same call are left where the limit is two. -/
theorem repeated_call_not_stopped :
    let cfg : LoopDetectionConfig := { warnThreshold := 1, hardLimit := 2, windowSize := 1 }
    let τ : LoopTexts := ⟨String.ofList, fun _ => "", fun _ => none⟩
    keptBeforeStop cfg τ "t" (replicate 2 (respond "t" (plainCalls 1 "bash"))) {} = 2 := by
  decide +kernel

end LoopDetection

end DeerFlow

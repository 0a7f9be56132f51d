import DeerFlow.Agents.LoopDetection

/-!
# Pending warnings

Every hook but the queueing of a warning only drops runs, from both tables of pending warnings.
Queueing writes one run in both and drops those touched first, as many as are over the cap.
-/

namespace DeerFlow.LoopDetection

open List Option Function

variable {cfg : LoopDetectionConfig} {τ : LoopTexts} {s s' : LoopDetection} {key : String × String}

def maxPendingWarningKeys (cfg : LoopDetectionConfig) : ℕ := max 1 (cfg.maxTrackedThreads * 2)

/-- The two tables have the same keys, within the caps. -/
structure Lockstep (cfg : LoopDetectionConfig) (s : LoopDetection) : Prop where
  nodup : s.touchOrder.Nodup
  keys : ∀ k, k ∈ s.touchOrder ↔ (s.pendingWarnings.get? k).isSome = true
  bound : s.touchOrder.length ≤ maxPendingWarningKeys cfg
  few : ∀ k ws, s.pendingWarnings.get? k = some ws → ws.length ≤ 4

theorem lockstep_empty : Lockstep cfg {} :=
  ⟨nodup_nil, fun k => by simp, Nat.zero_le _, fun k ws h => by simp at h⟩

def Drops (s s' : LoopDetection) : Prop :=
  ∃ p : String × String → Bool,
    (∀ k, s'.pendingWarnings.get? k = if p k then none else s.pendingWarnings.get? k) ∧
      s'.touchOrder = s.touchOrder.filter fun k => !p k

theorem drops_of_eq (hp : s'.pendingWarnings = s.pendingWarnings)
    (ht : s'.touchOrder = s.touchOrder) : Drops s s' :=
  ⟨fun _ => false, fun k => by simp [hp], by simp [ht]⟩

theorem get?_dropPending (s : LoopDetection) (p : String × String → Bool) (k : String × String) :
    (s.dropPending p).pendingWarnings.get? k = if p k then none else s.pendingWarnings.get? k := by
  simp only [dropPending, OrdDict.get?_filter]
  cases s.pendingWarnings.get? k <;> cases p k <;> simp

theorem drops_dropPending (s : LoopDetection) (p : String × String → Bool) :
    Drops s (s.dropPending p) := ⟨p, s.get?_dropPending p, rfl⟩

theorem drops_touch (thread : String) : Drops s (s.touch cfg thread) := by
  unfold touch
  split
  · exact drops_of_eq rfl rfl
  · exact drops_dropPending _ _

theorem drops_detect (cfg : LoopDetectionConfig) (τ : LoopTexts) (s : LoopDetection)
    (rt : LoopRuntime) (messages : List Message) :
    Drops s (s.detect cfg τ rt messages).1 := by
  unfold detect
  split
  · split
    · exact drops_of_eq rfl rfl
    · next m _ _ =>
      have htouch : Drops s (s.trackAndCheck cfg τ rt.key.1 m.toolCalls).1 := drops_touch rt.key.1
      split
      · next heq =>
        rw [heq] at htouch
        exact htouch
      · next heq =>
        rw [heq] at htouch
        exact htouch
  · exact drops_of_eq rfl rfl

theorem drops_reset (threadId : Option String) : Drops s (s.reset threadId) := by
  have hall : Drops s {} := ⟨fun _ => true, fun k => by simp, by simp⟩
  unfold reset
  split
  · exact hall
  · exact hall
  · exact drops_dropPending _ _

theorem Drops.lockstep (h : Drops s s') (hs : Lockstep cfg s) : Lockstep cfg s' := by
  obtain ⟨p, hget, htouch⟩ := h
  refine ⟨htouch ▸ hs.nodup.filter _, fun k => ?_, ?_, fun k ws hws => ?_⟩
  · rw [htouch, mem_filter, hs.keys k, hget k]
    cases p k <;> simp
  · rw [htouch]
    exact (length_filter_le _ _).trans hs.bound
  · rw [hget k] at hws
    split_ifs at hws
    exact hs.few k ws hws

def Since (s : LoopDetection) (since : String × String → List String) : Prop :=
  ∀ k, ((s.pendingWarnings.get? k).getD []).Sublist (since k)

theorem Drops.since {since : String × String → List String} (h : Drops s s') (hs : s.Since since) :
    s'.Since since := by
  obtain ⟨p, hget, -⟩ := h
  intro k
  rw [hget k]
  split_ifs
  · exact nil_sublist _
  · exact hs k

def extended (ws : List String) (warning : String) : List String :=
  let ws := if warning ∈ ws then ws else ws ++ [warning]
  ws.drop (ws.length - 4)

theorem extended_sublist {ws queued : List String} (h : ws.Sublist queued) (warning : String) :
    (extended ws warning).Sublist (queued ++ [warning]) := by
  refine (drop_sublist _ _).trans ?_
  split_ifs
  · exact h.trans (sublist_append_left _ _)
  · exact h.append (List.Sublist.refl _)

theorem length_extended (ws : List String) (warning : String) :
    (extended ws warning).length ≤ 4 := by
  simp only [extended, length_drop]
  omega

def overflow (cfg : LoopDetectionConfig) (s : LoopDetection) (key : String × String) :
    List (String × String) :=
  let others := s.touchOrder.filter (· ≠ key)
  others.take (others.length + 1 - maxPendingWarningKeys cfg)

theorem queuePendingWarning_eq (s : LoopDetection) (key : String × String) (warning : String) :
    s.queuePendingWarning cfg key warning = dropPending { s with
      pendingWarnings := s.pendingWarnings.set key
        (extended ((s.pendingWarnings.get? key).getD []) warning)
      touchOrder := s.touchOrder.filter (· ≠ key) ++ [key] } (overflow cfg s key).contains := by
  simp [queuePendingWarning, overflow, extended, maxPendingWarningKeys, filter_append]

theorem not_mem_overflow : key ∉ overflow cfg s key := fun h => by
  simpa using mem_of_mem_take h

theorem get?_queuePendingWarning (warning : String) (k : String × String) :
    (s.queuePendingWarning cfg key warning).pendingWarnings.get? k =
      if k ∈ overflow cfg s key then none
      else if key = k then some (extended ((s.pendingWarnings.get? key).getD []) warning)
      else s.pendingWarnings.get? k := by
  rw [queuePendingWarning_eq, get?_dropPending]
  simp

theorem filter_take_of_nodup {α : Type} [BEq α] [LawfulBEq α] {l : List α} (h : l.Nodup) (n : ℕ) :
    (l.filter fun a => !(l.take n).contains a) = l.drop n := by
  have hsplit : (l.filter fun a => !(l.take n).contains a)
      = (l.take n ++ l.drop n).filter fun a => !(l.take n).contains a := by
    rw [take_append_drop]
  have hdisj := disjoint_take_drop h (le_refl n)
  rw [hsplit, filter_append, filter_eq_nil_iff.2 (by simp), nil_append, filter_eq_self.2]
  intro a ha
  simpa using fun hmem => hdisj hmem ha

theorem touchOrder_queuePendingWarning (cfg : LoopDetectionConfig) (key : String × String)
    (hs : s.touchOrder.Nodup) (warning : String) :
    (s.queuePendingWarning cfg key warning).touchOrder = (s.touchOrder.filter (· ≠ key)).drop
        ((s.touchOrder.filter (· ≠ key)).length + 1 - maxPendingWarningKeys cfg) ++ [key] := by
  have hkey : (overflow cfg s key).contains key = false := by simpa using not_mem_overflow
  rw [queuePendingWarning_eq]
  simp only [dropPending, filter_append, filter_singleton, hkey]
  rw [← filter_take_of_nodup (hs.filter _)]
  rfl

theorem Lockstep.queue (hs : Lockstep cfg s) (warning : String) :
    Lockstep cfg (s.queuePendingWarning cfg key warning) := by
  have htouch := touchOrder_queuePendingWarning cfg key hs.nodup warning
  refine ⟨?_, fun k => ?_, ?_, fun k ws hws => ?_⟩
  · rw [htouch]
    refine nodup_append.2 ⟨(hs.nodup.filter _).sublist (drop_sublist _ _), by simp, ?_⟩
    rintro a ha b hb rfl
    simpa [mem_singleton.1 hb] using mem_of_mem_drop ha
  · rw [get?_queuePendingWarning, queuePendingWarning_eq]
    simp only [dropPending, mem_filter, mem_append, mem_singleton, hs.keys k]
    by_cases hover : k ∈ overflow cfg s key
    · simp [hover]
    · by_cases hk : key = k
      · subst hk
        simp [hover]
      · simp [hover, hk, Ne.symm hk]
  · rw [htouch]
    have hpos : 1 ≤ maxPendingWarningKeys cfg := le_max_left _ _
    simp only [length_append, length_drop, length_singleton]
    omega
  · rw [get?_queuePendingWarning] at hws
    split_ifs at hws
    · cases hws
      exact length_extended _ _
    · exact hs.few k ws hws

theorem Since.queue {since : String × String → List String} (hs : s.Since since)
    (warning : String) : (s.queuePendingWarning cfg key warning).Since
      (update since key (since key ++ [warning])) := by
  intro k
  rw [get?_queuePendingWarning]
  split_ifs with hover hk
  · exact nil_sublist _
  · subst hk
    rw [update_self]
    exact extended_sublist (hs key) warning
  · rw [update_of_ne (Ne.symm hk)]
    exact hs k

theorem afterModel_eq_detect (rt : LoopRuntime) (messages : List Message) :
    (s.afterModel cfg τ rt messages).1 =
      match s.detect cfg τ rt messages with
      | (s, some warning) => s.queuePendingWarning cfg rt.key warning
      | (s, none) => s := by
  unfold afterModel detect
  split
  · split
    · rfl
    · next m _ _ =>
      rcases s.trackAndCheck cfg τ rt.key.1 m.toolCalls with ⟨s', warning, stop⟩
      cases stop <;> cases warning <;> rfl
  · rfl

theorem Since.drain {since : String × String → List String} (hs : s.Since since)
    (key : String × String) :
    (s.dropPending fun k => decide (k = key)).Since (update since key []) := by
  intro k
  simp only [get?_dropPending, decide_eq_true_eq]
  split_ifs with hk
  · exact nil_sublist _
  · rw [update_of_ne hk]
    exact hs k

/-- What a model call adds to its messages is one message, with warnings of those queued for it. -/
def Fits (r : LoopRequest) : Prop :=
  ∃ ws, ws.Sublist r.queued ∧ ws.length ≤ 4 ∧
    r.sent = if ws = [] then r.given else r.given ++ [.loopWarning (formatWarningMessage ws)]

structure HooksInv (cfg : LoopDetectionConfig) (t : LoopHooks) : Prop where
  lockstep : Lockstep cfg t.middleware
  since : t.middleware.Since t.since
  requests : ∀ r ∈ t.requests, Fits r

theorem HooksInv.drain {t : LoopHooks} (h : HooksInv cfg t) (rt : LoopRuntime)
    (messages : List Message) :
    Fits ⟨t.since rt.key, messages, (t.middleware.augmentRequest rt messages).2⟩ := by
  refine ⟨_, h.since rt.key, ?_, rfl⟩
  cases hws : t.middleware.pendingWarnings.get? rt.key with
  | none => simp
  | some ws => exact h.lockstep.few _ ws hws

theorem HooksInv.step {t t' : LoopHooks} {a : LoopHookAct} (hi : HooksInv cfg t)
    (h : (loopHooks cfg τ).step t a = some t') : HooksInv cfg t' := by
  obtain ⟨hlock, hsince, hreq⟩ := hi
  have hdrops : ∀ {d}, Drops t.middleware d → HooksInv cfg { t with middleware := d } :=
    fun hd => ⟨hd.lockstep hlock, hd.since hsince, hreq⟩
  cases a with
  | queue i =>
    obtain ⟨⟨key, warning⟩, -, rfl⟩ := map_eq_some_iff.1 h
    exact ⟨hlock.queue warning, hsince.queue warning, hreq⟩
  | hook a =>
    cases a with
    | afterModel rt messages =>
      cases h
      exact { hdrops (drops_detect cfg τ t.middleware rt messages) with }
    | wrapModelCall rt messages =>
      cases h
      refine ⟨(drops_dropPending _ _).lockstep hlock, hsince.drain rt.key, fun r hr => ?_⟩
      rcases mem_append.1 hr with hr | hr
      · exact hreq r hr
      · rw [mem_singleton.1 hr]
        exact HooksInv.drain ⟨hlock, hsince, hreq⟩ rt messages
    | beforeAgent rt | afterAgent rt =>
      cases h
      exact hdrops (drops_dropPending _ _)
    | reset threadId =>
      cases h
      exact hdrops (drops_reset threadId)

/-- In every interleaving of the hooks a model call is given warnings that were queued for its run
since the last drain, and a drain leaves none of them; the two tables have the same keys, within
the caps. -/
theorem loop_warnings_stay_with_their_run (cfg : LoopDetectionConfig) (τ : LoopTexts)
    (as : List LoopHookAct) (t : LoopHooks) (h : (loopHooks cfg τ).run as {} = some t) :
    (∀ r ∈ t.requests, ∃ ws, ws.Sublist r.queued ∧ ws.length ≤ 4 ∧ r.sent =
      if ws = [] then r.given else r.given ++ [.loopWarning (formatWarningMessage ws)]) ∧
    (∀ k, k ∈ t.middleware.pendingWarnings.keys ↔ k ∈ t.middleware.touchOrder) ∧
    t.middleware.touchOrder.length ≤ max 1 (2 * cfg.maxTrackedThreads) ∧
    t.middleware.pendingWarnings.keys.length ≤ max 1 (2 * cfg.maxTrackedThreads) ∧
    (∀ k ws, t.middleware.pendingWarnings.get? k = some ws → ws.length ≤ 4) ∧
    (∀ k, ((t.middleware.pendingWarnings.get? k).getD []).Sublist (t.since k)) ∧
    ∀ rt messages t', (loopHooks cfg τ).step t (.hook (.wrapModelCall rt messages)) = some t' →
      t'.middleware.pendingWarnings.get? rt.key = none ∧ t'.since rt.key = [] := by
  obtain ⟨hlock, hsince, hreq⟩ := Machine.run_inv (fun _ _ _ hi _ hs => HooksInv.step hi hs)
    ⟨lockstep_empty, fun k => by simp, by simp⟩ (Machine.along_true as {}) h
  have hkeys : ∀ k, k ∈ t.middleware.pendingWarnings.keys ↔ k ∈ t.middleware.touchOrder :=
    fun k => by rw [OrdDict.mem_keys_iff, hlock.keys, isSome_iff_exists]
  have hbound := hlock.bound
  rw [maxPendingWarningKeys, Nat.mul_comm] at hbound
  refine ⟨hreq, hkeys, hbound, ?_, hlock.few, hsince, fun rt messages t' hs => ?_⟩
  · have hperm : t.middleware.pendingWarnings.keys.Perm t.middleware.touchOrder :=
      (perm_ext_iff_of_nodup t.middleware.pendingWarnings.nodup hlock.nodup).2 hkeys
    rwa [hperm.length_eq]
  · cases hs
    simp [get?_dropPending]

def sentWarning? : Message → Option String
  | .loopWarning content => some content
  | _ => none

/-- The first model call after a response is given the warning it has brought, the next one none. -/
theorem queued_warning_is_sent_once :
    let cfg : LoopDetectionConfig := { warnThreshold := 1 }
    let τ : LoopTexts := ⟨String.ofList, fun _ => "", fun _ => none⟩
    let as : List LoopHookAct :=
      [.hook (.afterModel {} [.ai { toolCalls := [{ name := "bash" }] }]), .queue 0,
        .hook (.wrapModelCall {} [.other]), .hook (.wrapModelCall {} [.other])]
    ∃ t, (loopHooks cfg τ).run as {} = some t ∧
      t.requests.map LoopRequest.queued = [[warningMsg], []] ∧
      (t.requests.map fun r => r.sent.filterMap sentWarning?) = [[warningMsg], []] ∧
      ∀ r ∈ t.requests, ∃ ws, ws.Sublist r.queued ∧ ws.length ≤ 4 ∧ r.sent =
        if ws = [] then r.given else r.given ++ [.loopWarning (formatWarningMessage ws)] := by
  intro cfg τ as
  obtain ⟨t, ht, hqueued, hsent⟩ := Machine.exists_of_run_any
    (P := fun t => t.requests.map LoopRequest.queued = [[warningMsg], []] ∧
      (t.requests.map fun r => r.sent.filterMap sentWarning?) = [[warningMsg], []])
    (show ((loopHooks cfg τ).run as {}).any _ = true by decide +kernel)
  exact ⟨t, ht, hqueued, hsent, (loop_warnings_stay_with_their_run cfg τ as t ht).1⟩

end DeerFlow.LoopDetection

import DeerFlow.Proofs.SubagentSteps

/-!
# Subagent tasks side by side

Where the ids of the calls differ, the sections of a call do for it what they would do if it were
alone in the process, and nothing for the others (`slice`). So every call ends as in the run of its
own sections.
-/

namespace DeerFlow

open List Option SubagentAct

namespace Subagents

variable {s s' : Subagents} {n : ℕ} {id : String} {v : Invocation}

section Alone

def slice (s : Subagents) (n : ℕ) (id : String) : Subagents where
  results := Function.update (fun _ => {}) n (s.results n)
  background := s.background.only id
  usageCache := s.usageCache.only id
  invocations := Function.update (fun _ => none) n (s.invocations n)

def only (s : Subagents) (n : ℕ) : Subagents :=
  match s.invocations n with
  | none => {}
  | some v => s.slice n v.toolCallId

theorem Local.slice_eq {m : ℕ} {k : String} (h : Local m k s s') (hn : n ≠ m) (hid : id ≠ k) :
    s'.slice n id = s.slice n id := by
  unfold slice
  rw [h.results n hn, h.calls n hn, OrdDict.only_congr (h.background id hid),
    OrdDict.only_congr (h.cache id hid)]

variable (s n id)

@[simp] theorem slice_results : (s.slice n id).results n = s.results n := by
  simp [slice]

@[simp] theorem slice_background : (s.slice n id).background.get? id = s.background.get? id :=
  OrdDict.get?_only ..

@[simp] theorem slice_usageCache : (s.slice n id).usageCache.get? id = s.usageCache.get? id :=
  OrdDict.get?_only ..

@[simp] theorem slice_setResult (r : SubagentResult) :
    (s.setResult n r).slice n id = (s.slice n id).setResult n r := by
  simp [slice, setResult]

@[simp] theorem slice_setInvocation (v : Invocation) :
    (s.setInvocation n v).slice n id = (s.slice n id).setInvocation n v := by
  simp [slice, setInvocation]

@[simp] theorem slice_popUsage : (s.popUsage id).slice n id = (s.slice n id).popUsage id := by
  simp [slice, popUsage]

@[simp] theorem slice_cacheUsage (usage : Option UsageTotals) (enabled : Bool) :
    (s.cacheUsage id usage enabled).slice n id = (s.slice n id).cacheUsage id usage enabled := by
  unfold cacheUsage
  split
  · rfl
  · split <;> simp [slice]

variable {s n id}

theorem slice_requestCancel (he : s.Entry n id) :
    (s.requestCancel id).slice n id = (s.slice n id).requestCancel id := by
  unfold requestCancel
  rw [slice_background]
  split
  · rfl
  · next h hh =>
    cases he h hh
    simp

theorem slice_cleanup (he : s.Entry n id) :
    (s.cleanup id).slice n id = (s.slice n id).cleanup id := by
  unfold cleanup
  rw [slice_background]
  split
  · rfl
  · next h hh =>
    cases he h hh
    rw [slice_results]
    split
    · simp [slice]
    · rfl

theorem slice_report (v : Invocation) (journal : JournalFate) : (s.slice n id).report v n journal
      = ((s.report v n journal).1.slice n id, (s.report v n journal).2) := by
  unfold report
  rw [slice_results]
  split <;> simp

theorem slice_agentMove (hown : v.Own n) (m : AgentMove) :
    (s.slice n id).agentMove n v m = (s.agentMove n v m).map (·.slice n id) := by
  unfold agentMove
  cases hh : v.agent.holder with
  | none => rfl
  | some h =>
    cases hown.agent h hh
    simp [Option.map_map, Function.comp_def]

theorem slice_schedulerFails (he : s.Entry n v.toolCallId) (error : String) :
    (s.slice n v.toolCallId).schedulerFails n v error
      = (s.schedulerFails n v error).slice n v.toolCallId := by
  unfold schedulerFails
  rw [slice_background]
  split
  · simp
  · next h hh =>
    cases he h hh
    simp

theorem slice_schedulerMove (hown : v.Own n) (he : s.Entry n v.toolCallId) (m : SchedulerMove) :
    (s.slice n v.toolCallId).schedulerMove n v m
      = (s.schedulerMove n v m).map (·.slice n v.toolCallId) := by
  have hholder : ∀ h, v.scheduler.holder = some h → h = n := hown.scheduler
  cases hv : v.scheduler with
  | queued =>
    rcases m with _ | (_ | error) | _ | _ | _ <;> simp only [schedulerMove, hv, map_none]
    rw [slice_background]
    cases hb : s.background.get? v.toolCallId with
    | none => simp
    | some h =>
      cases he h hb
      simp
  | submitting h =>
    cases hholder h (by rw [hv]; rfl)
    rcases m with _ | (_ | error) | _ | _ | _ <;>
      simp [schedulerMove, hv, slice_schedulerFails he]
  | waiting h =>
    cases hholder h (by rw [hv]; rfl)
    rcases m with _ | (_ | error) | _ | _ | _ <;> simp only [schedulerMove, hv, map_none]
    · simp
    · cases hagent : v.agent with
      | ended died => cases died <;> simp [slice_schedulerFails he]
      | _ => rfl
  | timingOut h =>
    cases hholder h (by rw [hv]; rfl)
    rcases m with _ | (_ | error) | _ | _ | _ <;> simp [schedulerMove, hv]
  | done => rcases m with _ | (_ | error) | _ | _ | _ <;> simp [schedulerMove, hv]

theorem slice_raiseTool {w : Invocation} (hid : w.toolCallId = id) :
    (s.raiseTool n w).slice n id = (s.slice n id).raiseTool n w := by
  subst hid
  simp [raiseTool]

theorem slice_look (he : s.Entry n v.toolCallId) (w : Bool) :
    (s.slice n v.toolCallId).look n v w = (s.look n v w).map (·.slice n v.toolCallId) := by
  unfold look
  cases hv : v.tool with
  | polling count =>
    rw [slice_background]
    cases hb : s.background.get? v.toolCallId with
    | none => cases w <;> simp [slice_cleanup he, slice_raiseTool]
    | some h =>
      cases he h hb
      dsimp only
      rw [slice_results]
      split <;> simp [slice_raiseTool]
  | _ => rfl

theorem slice_settle (hown : v.Own n) (he : s.Entry n v.toolCallId) (journal : JournalFate)
    (w : Bool) : (s.slice n v.toolCallId).settle n v journal w
      = (s.settle n v journal w).map (·.slice n v.toolCallId) := by
  unfold settle
  cases hv : v.tool with
  | looked h usage count =>
    obtain rfl : h = n := hown.tool h (by rw [hv]; rfl)
    dsimp only
    rw [slice_results, ← slice_cacheUsage, slice_report]
    have hx : ((s.cacheUsage v.toolCallId usage v.cacheTokenUsage).report v h journal).1.Entry h
        v.toolCallId :=
      (((Local.refl _ _ _).cacheUsage usage v.cacheTokenUsage).report v journal).entry he
    split
    · cases w <;> simp [slice_cleanup hx, slice_raiseTool (report_toolCallId ..)]
    · simp
  | _ => rfl

theorem slice_wake (hown : v.Own n) (he : s.Entry n v.toolCallId) (journal : JournalFate) (w : Bool) :
    (s.slice n v.toolCallId).wake n v journal w
      = (s.wake n v journal w).map (·.slice n v.toolCallId) := by
  unfold wake
  cases hv : v.tool with
  | sleeping h count =>
    obtain rfl : h = n := hown.tool h (by rw [hv]; rfl)
    dsimp only
    rw [slice_results, slice_report, ← slice_cacheUsage]
    have hx := (((Local.refl _ _ _).report v journal).cacheUsage
      (summarizeUsage (s.results h).tokenUsageRecords) v.cacheTokenUsage).entry he
    split
    · cases w <;> simp [slice_requestCancel hx, slice_raiseTool (report_toolCallId ..)]
    · simp
  | _ => rfl

theorem slice_finalize {terminal : Option ℕ} (he : s.Entry n v.toolCallId)
    (hterm : ∀ h, terminal = some h → h = n) (journal : JournalFate) :
    (s.slice n v.toolCallId).finalize n v terminal journal
      = (s.finalize n v terminal journal).slice n v.toolCallId := by
  unfold finalize
  rw [slice_background]
  cases hh : terminal.or (s.background.get? v.toolCallId) with
  | none => simp
  | some h =>
    have hn : h = n := by
      rcases or_eq_some_iff.1 hh with hh | ⟨-, hh⟩
      · exact hterm h hh
      · exact he h hh
    subst hn
    dsimp only
    rw [slice_report, slice_results]
    have hx := ((Local.refl _ _ _).report v journal).entry he
    split <;> simp [slice_cleanup hx]

theorem slice_awaitTerminal (he : s.Entry n v.toolCallId) (journal : JournalFate) :
    (s.slice n v.toolCallId).awaitTerminal n v journal
      = (s.awaitTerminal n v journal).map (·.slice n v.toolCallId) := by
  unfold awaitTerminal
  cases hv : v.tool with
  | awaiting polls =>
    cases polls with
    | zero => simp [slice_finalize he]
    | succ polls =>
      rw [slice_background]
      cases hb : s.background.get? v.toolCallId with
      | none => simp [slice_finalize he]
      | some h =>
        cases he h hb
        have hterm : ∀ h, some n = some h → h = n := fun h hh => (some.inj hh).symm
        dsimp only
        rw [slice_results]
        split <;> simp [slice_finalize he hterm]
  | _ => rfl

theorem slice_clean (he : s.Entry n v.toolCallId) : (s.slice n v.toolCallId).clean n v
    = (s.clean n v).map (·.slice n v.toolCallId) := by
  unfold clean
  cases hd : v.deferred with
  | none => rfl
  | some count =>
    rw [slice_background]
    cases hb : s.background.get? v.toolCallId with
    | none => simp
    | some h =>
      cases he h hb
      dsimp only
      rw [slice_results]
      split
      · simp [slice_cleanup he]
      · split <;> simp

theorem slice_toolMove (hown : v.Own n) (he : s.Entry n v.toolCallId) (m : ToolMove) :
    (s.slice n v.toolCallId).toolMove n v m = (s.toolMove n v m).map (·.slice n v.toolCallId) := by
  cases m with
  | look w => exact slice_look he w
  | settle journal w => exact slice_settle hown he journal w
  | wake journal w => exact slice_wake hown he journal w
  | cancel =>
    simp only [toolMove]
    cases v.tool <;> simp [slice_requestCancel he]
  | await journal => exact slice_awaitTerminal he journal
  | cancelAgain journal =>
    simp only [toolMove]
    cases v.tool <;> simp [slice_finalize he]
  | clean => exact slice_clean he
  | stamp =>
    simp only [toolMove]
    split <;> simp

theorem only_of_some (hv : s.invocations n = some v) : s.only n = s.slice n v.toolCallId := by
  unfold only
  rw [hv]

theorem only_of_none (hv : s.invocations n = none) : s.only n = {} := by
  unfold only
  rw [hv]

theorem slice_invocations (s : Subagents) (n : ℕ) (id : String) :
    (s.slice n id).invocations n = s.invocations n := by
  simp [slice]

theorem slice_start (hnone : s.invocations n = none) (hid : s.usageCache.get? id = none)
    (description name : String) (timeout : ℕ)
    (cache : Bool) : (s.start n id description name timeout cache).slice n id
      = start {} n id description name timeout cache := by
  unfold start
  rw [slice_setInvocation]
  congr 1
  simp [slice, setResult, OrdDict.only, hid, hnone]

def Fresh (s : Subagents) (a : SubagentAct) : Prop :=
  ∀ id, a.startedId = some id → ∀ n v, s.invocations n = some v → v.toolCallId ≠ id

variable {a : SubagentAct}

theorem Apart.step (h : s.Apart) (hf : s.Fresh a)
    (hs : subagents.step s a = some s') : s'.Apart := by
  rcases moved_step h hs with ⟨id, description, name, timeout, cache, hm, hnone, rfl⟩ |
    ⟨v, -, hv, hmoved⟩
  · obtain ⟨hmoved, hentry⟩ := local_start s a.call id description name timeout cache
    have hnew := hf id (by simp [startedId, hm])
    refine h.moved hmoved (fun m w hw => iff_of_false (hnew m w hw) ?_) hentry
    rintro rfl
    rw [hnone] at hw
    cases hw
  · refine h.moved hmoved (fun m w hw => ⟨fun hid => h.ids m a.call w v hw hv hid, ?_⟩)
      (hmoved.1.entry (h.entry hv))
    rintro rfl
    cases hv.symm.trans hw
    rfl

theorem local_step (h : s.Apart) (hf : s.Fresh a)
    (hs : subagents.step s a = some s') : ∃ id, Local a.call id s s' ∧
      ∀ n v, n ≠ a.call → s.invocations n = some v → v.toolCallId ≠ id := by
  rcases moved_step h hs with ⟨id, description, name, timeout, cache, hm, -, rfl⟩ | ⟨v, -, hv, hmoved⟩
  · exact ⟨id, (local_start s a.call id description name timeout cache).1.1,
      fun n w _ hw => hf id (by simp [startedId, hm]) n w hw⟩
  · exact ⟨_, hmoved.1, fun n w hn hw hid => hn (h.ids n a.call w v hw hv hid)⟩

theorem only_of_ne (h : s.Apart) (hf : s.Fresh a)
    (hs : subagents.step s a = some s') (hn : n ≠ a.call) : s'.only n = s.only n := by
  obtain ⟨id, hlocal, hid⟩ := local_step h hf hs
  cases hv : s.invocations n with
  | none => rw [only_of_none hv, only_of_none ((hlocal.calls n hn).trans hv)]
  | some v =>
    rw [only_of_some hv, only_of_some ((hlocal.calls n hn).trans hv)]
    exact hlocal.slice_eq hn (hid n v hn hv)

theorem step_only (h : s.Apart) (hf : s.Fresh a)
    (hs : subagents.step s a = some s') :
    subagents.step (s.only a.call) a = some (s'.only a.call) := by
  rcases moved_step h hs with ⟨id, description, name, timeout, cache, hm, hnone, rfl⟩ |
    ⟨v, hstart, hv, -, v', hv', hid, -⟩
  · have hcache : s.usageCache.get? id = none := by
      by_contra hsome
      obtain ⟨u, hu⟩ := ne_none_iff_exists'.1 hsome
      obtain ⟨m, w, hw, hwid⟩ := h.cache id u hu
      exact hf id (by simp [startedId, hm]) m w hw hwid
    obtain ⟨-, v, hv, hvid, -⟩ := (local_start s a.call id description name timeout cache).1
    rw [only_of_none hnone, only_of_some hv, hvid, slice_start hnone hcache]
    simp [subagents, hm]
  · obtain ⟨n, m⟩ := a
    rw [only_of_some hv, only_of_some hv', hid]
    have hown := h.own n v hv
    have he := h.entry hv
    have hsl := (slice_invocations s n v.toolCallId).trans hv
    cases m with
    | start _ _ _ _ _ => cases hstart
    | agent m =>
      simp only [subagents, hv] at hs
      simp only [subagents, hsl, slice_agentMove hown, hs, map_some]
    | scheduler m =>
      simp only [subagents, hv] at hs
      simp only [subagents, hsl, slice_schedulerMove hown he, hs, map_some]
    | tool m =>
      simp only [subagents, hv] at hs
      simp only [subagents, hsl, slice_toolMove hown he, hs, map_some]

end Alone

theorem apart_empty : Apart {} := ⟨by simp, by simp, by simp, by simp⟩

theorem ids_step {a : SubagentAct} (h : s.Apart) (hs : subagents.step s a = some s')
    (hv : s'.invocations n = some v) :
    a.startedId = some v.toolCallId ∨ ∃ m w, s.invocations m = some w ∧ w.toolCallId = v.toolCallId := by
  by_cases hn : n = a.call
  · subst hn
    rcases moved_step h hs with ⟨id, description, name, timeout, cache, hm, -, rfl⟩ |
      ⟨w, -, hw, -, w', hw', hid, -⟩
    · obtain ⟨-, w', hw', hid, -⟩ := (local_start s a.call id description name timeout cache).1
      cases hw'.symm.trans hv
      exact .inl (by simp [startedId, hm, hid])
    · cases hw'.symm.trans hv
      exact .inr ⟨_, w, hw, hid.symm⟩
  · rcases moved_step h hs with ⟨id, description, name, timeout, cache, -, -, rfl⟩ |
      ⟨w, -, -, hlocal, -⟩
    · have hlocal := (local_start s a.call id description name timeout cache).1.1
      exact .inr ⟨n, v, (hlocal.calls n hn) ▸ hv, rfl⟩
    · exact .inr ⟨n, v, (hlocal.calls n hn) ▸ hv, rfl⟩

theorem along_fresh : ∀ {as : List SubagentAct} {s : Subagents}, s.Apart →
    (∀ n v, s.invocations n = some v → v.toolCallId ∉ as.filterMap startedId) →
    (as.filterMap startedId).Nodup → subagents.Along Fresh as s
  | [], _, _, _, _ => trivial
  | a :: as, s, h, hids, hnodup => by
    have hf : s.Fresh a := by
      intro id hid n v hv heq
      exact hids n v hv (by simp [hid, heq])
    have hcons := (sublist_cons_self a as).filterMap startedId
    refine ⟨hf, fun s' hs => along_fresh (h.step hf hs) (fun n v hv hmem => ?_) (hnodup.sublist hcons)⟩
    rcases ids_step h hs hv with hid | ⟨m, w, hw, hid⟩
    · rw [filterMap_cons_some hid, nodup_cons] at hnodup
      exact hnodup.1 hmem
    · exact hids m w hw (hid ▸ hcons.subset hmem)

theorem alone_of_run {as : List SubagentAct} (hok : subagents.Along Fresh as {})
    (hs : subagents.run as {} = some s) :
    s.Apart ∧ ∀ n, subagents.run (as.filter fun a => a.call = n) {} = some (s.only n) := by
  refine Machine.run_trace_inv (I := fun as s => s.Apart ∧
    ∀ n, subagents.run (as.filter fun a => a.call = n) {} = some (s.only n))
    (fun as s a s' _ ih hf hstep => ⟨ih.1.step hf hstep, fun n => ?_⟩)
    ⟨apart_empty, fun n => rfl⟩ hok hs
  rw [filter_append, Machine.run_append, ih.2 n, bind_some]
  by_cases hn : a.call = n
  · subst hn
    simp [Machine.run_cons, step_only ih.1 hf hstep]
  · simp [hn, only_of_ne ih.1 hf hstep (Ne.symm hn)]

/-- Where the ids of the calls differ, each call is after any run what it is after its own sections
alone: what it has returned and reported, its result, and what is under its id. -/
theorem call_as_alone (as : List SubagentAct) (s : Subagents) (n : ℕ)
    (hids : (as.filterMap startedId).Nodup) (hs : subagents.run as {} = some s) :
    ∃ t, subagents.run (as.filter fun a => a.call = n) {} = some t ∧
      t.invocations n = s.invocations n ∧
      ∀ v, s.invocations n = some v → t.results n = s.results n ∧
        t.background.get? v.toolCallId = s.background.get? v.toolCallId ∧
        t.usageCache.get? v.toolCallId = s.usageCache.get? v.toolCallId := by
  have hok : subagents.Along Fresh as {} := along_fresh apart_empty (by simp) hids
  refine ⟨s.only n, (alone_of_run hok hs).2 n, ?_⟩
  cases hv : s.invocations n with
  | none =>
    rw [only_of_none hv]
    refine ⟨rfl, fun w hw => ?_⟩
    cases hw
  | some v =>
    rw [only_of_some hv]
    refine ⟨(slice_invocations ..).trans hv, fun w hw => ?_⟩
    cases hw
    simp

def twoTasks (first second : String) : List SubagentAct :=
  [⟨0, .start first "first" "general-purpose" 900 true⟩,
    ⟨1, .start second "second" "general-purpose" 900 true⟩, ⟨0, .scheduler .begin⟩,
    ⟨1, .scheduler .begin⟩, ⟨0, .scheduler (.submit none)⟩, ⟨1, .scheduler (.submit none)⟩,
    ⟨0, .agent .built⟩, ⟨1, .agent .built⟩,
    ⟨1, .agent (.llmEnd "r" [[{ inputTokens := 3, outputTokens := 4 }]])⟩,
    ⟨1, .agent (.chunk [⟨true, none, .str "one"⟩])⟩, ⟨1, .agent .streamEnd⟩, ⟨1, .agent .write⟩,
    ⟨0, .tool (.look false)⟩, ⟨0, .tool (.settle .accepts false)⟩]

theorem first_task_waits : ∃ s t, subagents.run (twoTasks "x" "y") {} = some s ∧
    subagents.run ((twoTasks "x" "y").filter fun a => a.call = 0) {} = some t ∧
    t.invocations 0 = s.invocations 0 ∧ (s.invocations 0).map Invocation.tool = some (.sleeping 0 0) := by
  have hrun : (subagents.run (twoTasks "x" "y") {}).map (fun s => (s.invocations 0).map Invocation.tool)
      = some (some (.sleeping 0 0)) := by decide +kernel
  obtain ⟨s, hs, htool⟩ := map_eq_some_iff.1 hrun
  have hids : ((twoTasks "x" "y").filterMap startedId).Nodup := by decide +kernel
  obtain ⟨t, ht, hsame, -⟩ := call_as_alone (twoTasks "x" "y") s 0 hids hs
  exact ⟨s, t, hs, ht, hsame, htool⟩

/-- With one id for both, the first call returns the answer of the second subagent and reports its
usage, while its own subagent still streams; and the second call finds no task. -/
theorem equal_ids_mix_tasks : ((subagents.run (twoTasks "x" "x") {}).bind (·.invocations 0)).map
        (fun v => (v.tool, v.reports, v.agent, v.collector.records))
      = some (.finished (.returned "Task Succeeded. Result: one"),
        [[⟨"r", "subagent:general-purpose", none, 3, 4, 7⟩]], .streaming 1 none, []) ∧
    ((subagents.run (twoTasks "x" "x" ++ [⟨1, .tool (.look false)⟩]) {}).bind (·.invocations 1)).map
        Invocation.tool
      = some (.finished (.returned "Error: Task x disappeared from background tasks")) := by
  constructor <;> decide +kernel

end Subagents

end DeerFlow

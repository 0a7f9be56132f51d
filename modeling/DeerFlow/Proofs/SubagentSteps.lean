import DeerFlow.Agents.Subagents

/-!
# Sections of a subagent task

What the subagent, the scheduler thread and the tool of a call do in one section. Where ids differ,
a call works with the result it has made, and its sections change nothing but what is its own or
under its id (`Apart`, `Moved`).
-/

namespace DeerFlow

open Option SubagentAct Function Invocation

def SchedulerPhase.holder : SchedulerPhase → Option ℕ
  | .submitting h | .waiting h | .timingOut h => some h
  | .queued | .done => none

def ToolPhase.holder : ToolPhase → Option ℕ
  | .looked h _ _ | .sleeping h _ => some h
  | .polling _ | .awaiting _ | .finished _ => none

structure Invocation.Own (n : ℕ) (v : Invocation) : Prop where
  scheduler : ∀ h, v.scheduler.holder = some h → h = n
  agent : ∀ h, v.agent.holder = some h → h = n
  tool : ∀ h, v.tool.holder = some h → h = n

def SubagentAct.startedId (a : SubagentAct) : Option String :=
  match a.move with
  | .start id _ _ _ _ => some id
  | .agent _ | .scheduler _ | .tool _ => none

def ToolPhase.isFinished : ToolPhase → Bool
  | .finished _ => true
  | .polling _ | .looked _ _ _ | .sleeping _ _ | .awaiting _ => false

structure SubagentResult.Same (r r' : SubagentResult) : Prop where
  status : r'.status = r.status
  records : r'.tokenUsageRecords = r.tokenUsageRecords
  reported : r'.usageReported = r.usageReported

theorem SubagentResult.Same.refl (r : SubagentResult) : r.Same r := ⟨rfl, rfl, rfl⟩

structure Invocation.SameTask (v v' : Invocation) : Prop where
  scheduler : v'.scheduler = v.scheduler
  agent : v'.agent = v.agent
  collector : v'.collector = v.collector

def SubagentAct.heard (a : SubagentAct) : Bool :=
  match a.move with
  | .tool (.look writerRaises) => !writerRaises
  | .tool (.settle journal _) | .tool (.wake journal _) | .tool (.await journal)
  | .tool (.cancelAgain journal) => journal = .accepts
  | _ => true

namespace Subagents

variable {s s' : Subagents} {n : ℕ} {id : String} {v : Invocation}
  {v' : Invocation} {m : AgentMove} {r r' : SubagentResult}

def Entry (s : Subagents) (n : ℕ) (id : String) : Prop := ∀ h, s.background.get? id = some h → h = n

structure Local (n : ℕ) (id : String) (s s' : Subagents) : Prop where
  calls : ∀ m, m ≠ n → s'.invocations m = s.invocations m
  results : ∀ m, m ≠ n → s'.results m = s.results m
  background : ∀ k, k ≠ id → s'.background.get? k = s.background.get? k
  cache : ∀ k, k ≠ id → s'.usageCache.get? k = s.usageCache.get? k
  entry : s.Entry n id → s'.Entry n id

namespace Local

theorem refl (n : ℕ) (id : String) (s : Subagents) : Local n id s s :=
  ⟨fun _ _ => rfl, fun _ _ => rfl, fun _ _ => rfl, fun _ _ => rfl, fun h => h⟩

theorem trans {s'' : Subagents} (h : Local n id s s') (h' : Local n id s' s'') : Local n id s s'' where
  calls := fun m hm => (h'.calls m hm).trans (h.calls m hm)
  results := fun m hm => (h'.results m hm).trans (h.results m hm)
  background := fun k hk => (h'.background k hk).trans (h.background k hk)
  cache := fun k hk => (h'.cache k hk).trans (h.cache k hk)
  entry := fun he => h'.entry (h.entry he)

theorem setInvocation (h : Local n id s s') (v : Invocation) : Local n id s (s'.setInvocation n v) :=
  h.trans ⟨fun _ hm => update_of_ne hm _ _, fun _ _ => rfl, fun _ _ => rfl, fun _ _ => rfl,
    fun he => he⟩

theorem setResult (h : Local n id s s') (r : SubagentResult) : Local n id s (s'.setResult n r) :=
  h.trans ⟨fun _ _ => rfl, fun _ hm => update_of_ne hm _ _, fun _ _ => rfl, fun _ _ => rfl,
    fun he => he⟩

theorem requestCancel (h : Local n id s s') (he : s.Entry n id) : Local n id s (s'.requestCancel id) := by
  unfold Subagents.requestCancel
  split
  · exact h
  · next k hk =>
    rw [h.entry he k hk]
    exact h.setResult _

theorem popBackground (h : Local n id s s') :
    Local n id s { s' with background := s'.background.pop id } :=
  h.trans ⟨fun _ _ => rfl, fun _ _ => rfl, fun k hk => by simp [hk.symm], fun _ _ => rfl,
    fun _ h hh => by simp at hh⟩

theorem cleanup (h : Local n id s s') : Local n id s (s'.cleanup id) := by
  unfold Subagents.cleanup
  split
  · exact h
  · split
    · exact h.popBackground
    · exact h

theorem cacheUsage (h : Local n id s s') (usage : Option UsageTotals) (enabled : Bool) :
    Local n id s (s'.cacheUsage id usage enabled) := by
  unfold Subagents.cacheUsage
  split
  · exact h
  · split
    · exact h.trans ⟨fun _ _ => rfl, fun _ _ => rfl, fun _ _ => rfl, fun k hk => by simp [hk.symm],
        fun he => he⟩
    · exact h

theorem popUsage (h : Local n id s s') : Local n id s (s'.popUsage id) :=
  h.trans ⟨fun _ _ => rfl, fun _ _ => rfl, fun _ _ => rfl,
    fun k hk => by simp [Subagents.popUsage, hk.symm], fun he => he⟩

theorem report (h : Local n id s s') (v : Invocation) (journal : JournalFate) :
    Local n id s (s'.report v n journal).1 := by
  unfold Subagents.report
  split
  · exact h
  · exact h.setResult _

end Local

@[simp] theorem setInvocation_results (v : Invocation) : (s.setInvocation n v).results = s.results := rfl

@[simp] theorem setInvocation_background (v : Invocation) :
    (s.setInvocation n v).background = s.background := rfl

@[simp] theorem popUsage_results : (s.popUsage id).results = s.results := rfl

@[simp] theorem popUsage_background : (s.popUsage id).background = s.background := rfl

@[simp] theorem cleanup_results : (s.cleanup id).results = s.results := by
  unfold cleanup
  split
  · rfl
  · split <;> rfl

@[simp] theorem cacheUsage_results (usage : Option UsageTotals) (enabled : Bool) :
    (s.cacheUsage id usage enabled).results = s.results := by
  unfold cacheUsage
  split
  · rfl
  · split <;> rfl

@[simp] theorem setInvocation_self (v : Invocation) : (s.setInvocation n v).invocations n = some v :=
  update_self ..

@[simp] theorem requestCancel_background : (s.requestCancel id).background = s.background := by
  unfold requestCancel
  split <;> rfl

theorem same_requestCancel (s : Subagents) (id : String) (n : ℕ) :
    (s.results n).Same ((s.requestCancel id).results n) := by
  unfold requestCancel
  split
  · exact ⟨rfl, rfl, rfl⟩
  · next h hh =>
    by_cases hn : n = h
    · subst hn
      simp only [setResult, update_self]
      exact ⟨rfl, rfl, rfl⟩
    · simp only [setResult, update_of_ne hn]
      exact ⟨rfl, rfl, rfl⟩

def Moved (n : ℕ) (id : String) (s s' : Subagents) : Prop :=
  Local n id s s' ∧ ∃ v, s'.invocations n = some v ∧ v.toolCallId = id ∧ v.Own n

theorem Local.moved {u : Subagents} (h : Local n id s u) (hid : v.toolCallId = id) (hown : v.Own n) :
    Moved n id s (u.setInvocation n v) :=
  ⟨h.setInvocation v, v, update_self _ _ _, hid, hown⟩

/-- A subagent writes its result, counts a model call, takes the snapshot of its collector, or goes
on. -/
inductive AgentStep (v : Invocation) (r : SubagentResult) (m : AgentMove) :
    Invocation → SubagentResult → Prop
  | write (h : ℕ) (e : Ending) (hm : m = .write) (hv : v.agent = .closing h e) :
    AgentStep v r m { v with agent := .ended none } (r.trySetTerminal e)
  | count (h : ℕ) (final : Option (List SubagentMessage)) (c : TokenCollector)
    (hv : v.agent = .streaming h final) :
    AgentStep v r m { v with agent := .streaming h final, collector := c } r
  | close (h : ℕ) (e : Ending) (hv : v.agent = .building h ∨ ∃ final, v.agent = .streaming h final)
    (he : e.records = some v.collector.records ∨ e.records = none ∧ v.agent = .building h) :
    AgentStep v r m (v.close h e) r
  | stream (h : ℕ) (final : Option (List SubagentMessage)) (messages : List SubagentMessage)
    (hv : v.agent = .building h ∨ ∃ final, v.agent = .streaming h final) :
    AgentStep v r m { v with agent := .streaming h final } { r with aiMessages := messages }
  | stop (h : ℕ) (died : Option String)
    (hv : v.agent = .building h ∨ ∃ final, v.agent = .streaming h final) :
    AgentStep v r m { v with agent := .ended died } r

theorem agentStep_cases
    (h : v.agentStep r m = some (v', r')) : AgentStep v r m v' r' := by
  cases hv : v.agent with
  | absent | ended died => cases m <;> simp [agentStep, hv] at h
  | closing k e =>
    cases m <;> simp only [agentStep, hv, reduceCtorEq, some.injEq] at h
    cases h
    exact .write k e rfl hv
  | building k =>
    cases m <;> simp only [agentStep, hv, reduceCtorEq, some.injEq] at h
    case built =>
      split at h <;> cases h
      · exact .close k _ (.inl hv) (.inl rfl)
      · exact .stream k none r.aiMessages (.inl hv)
    case buildRaises error =>
      cases h
      exact .close k _ (.inl hv) (.inr ⟨rfl, hv⟩)
    case interrupt =>
      split at h <;> cases h
      exact .stop k none (.inl hv)
    case die error =>
      cases h
      exact .stop k (some error) (.inl hv)
  | streaming k final =>
    cases m <;> simp only [agentStep, hv, reduceCtorEq, some.injEq] at h
    case llmEnd rid generations =>
      cases h
      exact .count k final _ hv
    case chunk messages =>
      split at h <;> cases h
      · exact .close k _ (.inr ⟨final, hv⟩) (.inl rfl)
      · exact .stream k (some messages) _ (.inr ⟨final, hv⟩)
    case streamEnd =>
      cases h
      exact .close k _ (.inr ⟨final, hv⟩) (.inl rfl)
    case streamRaises error =>
      cases h
      exact .close k _ (.inr ⟨final, hv⟩) (.inl rfl)
    case interrupt =>
      split at h <;> cases h
      exact .stop k none (.inr ⟨final, hv⟩)
    case die error =>
      cases h
      exact .stop k (some error) (.inr ⟨final, hv⟩)

theorem holder_of_running {h : ℕ}
    (hv : v.agent = .building h ∨ ∃ final, v.agent = .streaming h final) :
    v.agent.holder = some h := by
  rcases hv with hv | ⟨final, hv⟩ <;> rw [hv] <;> rfl

theorem AgentStep.toolCallId
    (h : AgentStep v r m v' r') : v'.toolCallId = v.toolCallId := by
  cases h <;> rfl

theorem AgentStep.own
    (h : AgentStep v r m v' r') (hown : v.Own n) : v'.Own n := by
  have hagent : ∀ h, v'.agent.holder = some h → v.agent.holder = some h := by
    intro k hk
    cases h with
    | write h e hm hv => cases hk
    | count h final c hv => exact (holder_of_running (.inr ⟨final, hv⟩)).trans hk
    | close h e hv he | stream h final messages hv => exact (holder_of_running hv).trans hk
    | stop h died hv => cases hk
  have hrest : v'.scheduler = v.scheduler ∧ v'.tool = v.tool := by cases h <;> exact ⟨rfl, rfl⟩
  exact ⟨hrest.1 ▸ hown.scheduler, fun k hk => hown.agent k (hagent k hk), hrest.2 ▸ hown.tool⟩

section Moves

variable {journal : JournalFate} {w : Bool}

theorem moved_agentMove {m : AgentMove} (hown : v.Own n) (hs : s.agentMove n v m = some s') :
    Moved n v.toolCallId s s' := by
  obtain ⟨h, hh, hs⟩ := bind_eq_some_iff.1 hs
  obtain ⟨⟨v', r⟩, hstep, rfl⟩ := map_eq_some_iff.1 hs
  cases hown.agent h hh
  have hcases := agentStep_cases hstep
  exact ((Local.refl _ _ _).setResult r).moved hcases.toolCallId (hcases.own hown)

theorem moved_schedulerFails {error : String} (hown : v.Own n) (hentry : s.Entry n v.toolCallId) :
    Moved n v.toolCallId s (s.schedulerFails n v error) := by
  unfold schedulerFails
  split
  · exact (Local.refl _ _ _).moved rfl ⟨nofun, hown.agent, hown.tool⟩
  · next h hh =>
    cases hentry h hh
    exact ((Local.refl _ _ _).setResult _).moved rfl ⟨nofun, hown.agent, hown.tool⟩

inductive SchedulerStep (s : Subagents) (n : ℕ) (v : Invocation) : Subagents → Prop
  | lost (hb : s.background.get? v.toolCallId = none) :
    SchedulerStep s n v (s.setInvocation n { v with scheduler := .done })
  | start (h : ℕ) (hv : v.scheduler = .queued) (hb : s.background.get? v.toolCallId = some h) :
    SchedulerStep s n v ((s.setResult h { s.results h with status := .running }).setInvocation n
      { v with scheduler := .submitting h })
  | submit (h : ℕ) (hv : v.scheduler = .submitting h) :
    SchedulerStep s n v (s.setInvocation n { v with scheduler := .waiting h, agent := .building h })
  | fail (h : ℕ) (error : String) (hv : v.scheduler = .submitting h ∨ v.scheduler = .waiting h) :
    SchedulerStep s n v (s.schedulerFails n v error)
  | expire (h : ℕ) (hv : v.scheduler = .waiting h) :
    SchedulerStep s n v
      ((s.setResult h (s.results h).cancel).setInvocation n { v with scheduler := .timingOut h })
  | timeOut (h : ℕ) (hv : v.scheduler = .timingOut h) :
    SchedulerStep s n v ((s.setResult h ((s.results h).trySetTerminal (timeoutEnding v))).setInvocation n
      { v with scheduler := .done, cancelRequested := true })
  | join : SchedulerStep s n v (s.setInvocation n { v with scheduler := .done })

theorem schedulerMove_cases {m : SchedulerMove} (hs : s.schedulerMove n v m = some s') :
    SchedulerStep s n v s' := by
  rcases m with _ | (_ | error) | _ | _ | _
  · simp only [schedulerMove] at hs
    split at hs
    · next hv =>
      split at hs <;> cases hs
      · next hb => exact .lost hb
      · next h hb => exact .start h hv hb
    · cases hs
  · simp only [schedulerMove] at hs
    split at hs <;> cases hs
    next h hv => exact .submit h hv
  · simp only [schedulerMove] at hs
    split at hs <;> cases hs
    next h hv => exact .fail h error (.inl hv)
  · simp only [schedulerMove] at hs
    split at hs <;> cases hs
    next h hv => exact .expire h hv
  · simp only [schedulerMove] at hs
    split at hs <;> cases hs
    next h hv => exact .timeOut h hv
  · simp only [schedulerMove] at hs
    split at hs <;> cases hs
    · exact .join
    · next h error hv _ => exact .fail h error (.inr hv)

theorem moved_schedulerMove {m : SchedulerMove} (hown : v.Own n) (hentry : s.Entry n v.toolCallId)
    (hs : s.schedulerMove n v m = some s') : Moved n v.toolCallId s s' := by
  have hlocal := Local.refl n v.toolCallId s
  have hself : ∀ h, some n = some h → h = n := fun h hh => (some.inj hh).symm
  have hholder : ∀ h, v.scheduler.holder = some h → h = n := hown.scheduler
  cases schedulerMove_cases hs with
  | lost hb => exact hlocal.moved rfl ⟨nofun, hown.agent, hown.tool⟩
  | start h hv hb =>
    cases hentry h hb
    exact (hlocal.setResult _).moved rfl ⟨hself, hown.agent, hown.tool⟩
  | submit h hv =>
    cases hholder h (by rw [hv]; rfl)
    exact hlocal.moved rfl ⟨hself, hself, hown.tool⟩
  | fail h error hv => exact moved_schedulerFails hown hentry
  | expire h hv =>
    cases hholder h (by rw [hv]; rfl)
    exact (hlocal.setResult _).moved rfl ⟨hself, hown.agent, hown.tool⟩
  | timeOut h hv =>
    cases hholder h (by rw [hv]; rfl)
    exact (hlocal.setResult _).moved rfl ⟨nofun, hown.agent, hown.tool⟩
  | join => exact hlocal.moved rfl ⟨nofun, hown.agent, hown.tool⟩

/-- What a section of the tool does: it waits on, reports what it finds and ends, or ends without a
report. -/
inductive ToolStep (s s' : Subagents) (n : ℕ) (v v' : Invocation) (m : ToolMove) : Prop
  | wait (hfin : v'.tool.isFinished = v.tool.isFinished) (hreports : v'.reports = v.reports)
    (hres : (s.results n).Same (s'.results n))
    (hopen : v.tool.isFinished = false → v'.deferred = v.deferred ∧
      s'.background.get? v.toolCallId = s.background.get? v.toolCallId)
  | report (u : Subagents) (journal : JournalFate) (hopen : v.tool.isFinished = false)
    (hu : u.results = s.results) (hfin : v'.tool.isFinished = true)
    (hm : heard ⟨n, .tool m⟩ = true → journal = .accepts)
    (hreports : v'.reports = (u.report v n journal).2.reports)
    (hres : ((u.report v n journal).1.results n).Same (s'.results n))
  | leave (hopen : v.tool.isFinished = false) (hfin : v'.tool.isFinished = true)
    (hm : heard ⟨n, .tool m⟩ = false ∨ s.background.get? v.toolCallId = none)
    (hreports : v'.reports = v.reports) (hres : (s.results n).Same (s'.results n))

def ToolMoved (s s' : Subagents) (n : ℕ) (v : Invocation) (m : ToolMove) : Prop :=
  Local n v.toolCallId s s' ∧ ∃ v', s'.invocations n = some v' ∧ v'.toolCallId = v.toolCallId ∧
    v'.Own n ∧ v.SameTask v' ∧
    ((v.tool.isFinished = false → v.deferred = none) → ToolStep s s' n v v' m)

variable {m : ToolMove}

theorem ToolMoved.moved (h : ToolMoved s s' n v m) : Moved n v.toolCallId s s' :=
  let ⟨hlocal, v', hv', hid, hown, _⟩ := h
  ⟨hlocal, v', hv', hid, hown⟩

theorem Local.toolMoved {u : Subagents} (h : Local n v.toolCallId s u) (hown : v.Own n)
    (hid : v'.toolCallId = v.toolCallId) (hsame : v.SameTask v')
    (htool : ∀ h, v'.tool.holder = some h → h = n)
    (hstep : (v.tool.isFinished = false → v.deferred = none) →
      ToolStep s (u.setInvocation n v') n v v' m) : ToolMoved s (u.setInvocation n v') n v m :=
  ⟨h.setInvocation v', v', setInvocation_self _, hid,
    ⟨hsame.scheduler ▸ hown.scheduler, hsame.agent ▸ hown.agent, htool⟩, hsame, hstep⟩

theorem sameTask_report (u : Subagents) (h : ℕ) (journal : JournalFate) (events : List TaskEvent)
    (deferred : Option ℕ) (tool : ToolPhase) : v.SameTask
      { (u.report v h journal).2 with events := events, deferred := deferred, tool := tool } := by
  unfold report
  split <;> exact ⟨rfl, rfl, rfl⟩

theorem report_toolCallId (u : Subagents) (h : ℕ) (journal : JournalFate) :
    (u.report v h journal).2.toolCallId = v.toolCallId := by
  unfold report
  split <;> rfl

theorem Local.popReported {u x : Subagents} (h : Local n v.toolCallId s x) (k : ℕ) :
    Local n v.toolCallId s (x.popUsage (u.report v k journal).2.toolCallId) := by
  rw [report_toolCallId]
  exact h.popUsage

theorem toolMoved_look (hown : v.Own n) (hentry : s.Entry n v.toolCallId)
    (hs : s.look n v w = some s') : ToolMoved s s' n v (.look w) := by
  have hlocal := Local.refl n v.toolCallId s
  unfold look at hs
  split at hs
  · next count hv =>
    have hopen : v.tool.isFinished = false := by rw [hv]; rfl
    split at hs
    · next hb =>
      cases hs
      cases w
      · exact hlocal.cleanup.toolMoved hown rfl ⟨rfl, rfl, rfl⟩ nofun fun _ =>
          .leave hopen rfl (.inr hb) rfl (by simpa using .refl _)
      · exact hlocal.popUsage.toolMoved hown rfl ⟨rfl, rfl, rfl⟩ nofun fun _ =>
          .leave hopen rfl (.inl rfl) rfl (.refl _)
    · next h hb =>
      dsimp only at hs
      split at hs
      · next hraise =>
        cases hs
        have hw : w := (Bool.and_eq_true_iff.1 hraise).1
        subst hw
        exact hlocal.popUsage.toolMoved hown rfl ⟨rfl, rfl, rfl⟩ nofun fun _ =>
          .leave hopen rfl (.inl rfl) rfl (.refl _)
      · cases hs
        refine hlocal.toolMoved hown rfl ⟨rfl, rfl, rfl⟩ (fun k hk => ?_) fun _ =>
          .wait hopen.symm rfl (.refl _) fun _ => ⟨rfl, rfl⟩
        cases hk
        exact hentry h hb
  · cases hs

theorem toolMoved_settle (hown : v.Own n) (hs : s.settle n v journal w = some s') :
    ToolMoved s s' n v (.settle journal w) := by
  have hlocal := Local.refl n v.toolCallId s
  unfold settle at hs
  split at hs
  · next h usage count hv =>
    obtain rfl : h = n := hown.tool h (by rw [hv]; rfl)
    have hopen : v.tool.isFinished = false := by rw [hv]; rfl
    have hx := (hlocal.cacheUsage usage v.cacheTokenUsage).report v journal
    dsimp only at hs
    split at hs
    · have hheard : heard ⟨h, .tool (.settle journal w)⟩ → journal = .accepts :=
        of_decide_eq_true
      cases w <;> cases hs
      · exact hx.cleanup.toolMoved hown (report_toolCallId ..) (sameTask_report ..) nofun fun _ =>
          .report _ journal hopen (cacheUsage_results ..) rfl hheard rfl (by simpa using .refl _)
      · exact (hx.popReported h).toolMoved hown (report_toolCallId ..) (sameTask_report ..) nofun fun _ =>
          .report _ journal hopen (cacheUsage_results ..) rfl hheard rfl (.refl _)
    · cases hs
      exact hlocal.toolMoved hown rfl ⟨rfl, rfl, rfl⟩ (fun k hk => (some.inj hk).symm) fun _ =>
        .wait hopen.symm rfl (.refl _) fun _ => ⟨rfl, rfl⟩
  · cases hs

theorem toolMoved_wake (hown : v.Own n) (hentry : s.Entry n v.toolCallId)
    (hs : s.wake n v journal w = some s') : ToolMoved s s' n v (.wake journal w) := by
  have hlocal := Local.refl n v.toolCallId s
  unfold wake at hs
  split at hs
  · next h count hv =>
    obtain rfl : h = n := hown.tool h (by rw [hv]; rfl)
    have hopen : v.tool.isFinished = false := by rw [hv]; rfl
    have hx := (hlocal.report v journal).cacheUsage
      (summarizeUsage (s.results h).tokenUsageRecords) v.cacheTokenUsage
    split at hs
    · have hheard : heard ⟨h, .tool (.wake journal w)⟩ → journal = .accepts :=
        of_decide_eq_true
      cases w <;> cases hs
      · refine (hx.requestCancel hentry).toolMoved hown (report_toolCallId ..) (sameTask_report ..) nofun
          fun _ => .report s journal hopen rfl rfl hheard rfl ?_
        have hcancel := same_requestCancel ((s.report v h journal).1.cacheUsage v.toolCallId
          (summarizeUsage (s.results h).tokenUsageRecords) v.cacheTokenUsage) v.toolCallId h
        rwa [cacheUsage_results] at hcancel
      · exact (hx.popReported h).toolMoved hown (report_toolCallId ..) (sameTask_report ..) nofun fun _ =>
          .report s journal hopen rfl rfl hheard rfl (by simpa [raiseTool] using .refl _)
    · cases hs
      exact hlocal.toolMoved hown rfl ⟨rfl, rfl, rfl⟩ nofun fun _ =>
        .wait hopen.symm rfl (.refl _) fun _ => ⟨rfl, rfl⟩
  · cases hs

theorem toolMoved_finalize {terminal : Option ℕ} (hown : v.Own n)
    (hentry : s.Entry n v.toolCallId) (hterm : ∀ h, terminal = some h → h = n)
    (hopen : v.tool.isFinished = false)
    (hm : heard ⟨n, .tool m⟩ → journal = .accepts) :
    ToolMoved s (s.finalize n v terminal journal) n v m := by
  have hlocal := Local.refl n v.toolCallId s
  unfold finalize
  cases hh : terminal.or (s.background.get? v.toolCallId) with
  | none =>
    exact hlocal.popUsage.toolMoved hown rfl ⟨rfl, rfl, rfl⟩ nofun fun _ =>
      .leave hopen rfl (.inr (or_eq_none_iff.1 hh).2) rfl (.refl _)
  | some h =>
    have hn : h = n := by
      rcases or_eq_some_iff.1 hh with hh | ⟨-, hh⟩
      · exact hterm h hh
      · exact hentry h hh
    subst hn
    dsimp only
    split
    · exact (hlocal.report v journal).cleanup.popUsage.toolMoved hown (report_toolCallId ..)
        (sameTask_report ..) nofun fun _ =>
          .report s journal hopen rfl rfl hm rfl (by simpa using .refl _)
    · exact (hlocal.report v journal).popUsage.toolMoved hown (report_toolCallId ..)
        (sameTask_report ..) nofun fun _ => .report s journal hopen rfl rfl hm rfl (.refl _)

theorem toolMoved_awaitTerminal (hown : v.Own n) (hentry : s.Entry n v.toolCallId)
    (hs : s.awaitTerminal n v journal = some s') : ToolMoved s s' n v (.await journal) := by
  have hheard : heard ⟨n, .tool (.await journal)⟩ → journal = .accepts :=
    of_decide_eq_true
  unfold awaitTerminal at hs
  split at hs
  · next hv =>
    cases hs
    exact toolMoved_finalize hown hentry nofun (by rw [hv]; rfl) hheard
  · next polls hv =>
    have hopen : v.tool.isFinished = false := by rw [hv]; rfl
    split at hs
    · cases hs
      exact toolMoved_finalize hown hentry nofun hopen hheard
    · next h hb =>
      split at hs <;> cases hs
      · exact toolMoved_finalize hown hentry (fun k hk => some.inj hk ▸ hentry h hb) hopen hheard
      · exact (Local.refl _ _ _).toolMoved hown rfl ⟨rfl, rfl, rfl⟩ nofun fun _ =>
          .wait hopen.symm rfl (.refl _) fun _ => ⟨rfl, rfl⟩
  · cases hs

theorem toolMoved_clean (hown : v.Own n) (hs : s.clean n v = some s') : ToolMoved s s' n v .clean := by
  have hlocal := Local.refl n v.toolCallId s
  unfold clean at hs
  split at hs
  · cases hs
  next count hd =>
  have hwait : ∀ (u : Subagents) (deferred : Option ℕ), Local n v.toolCallId s u →
      u.results = s.results →
      ToolMoved s (u.setInvocation n { v with deferred := deferred }) n v .clean := by
    intro u deferred hl hu
    refine hl.toolMoved hown rfl ⟨rfl, rfl, rfl⟩ hown.tool fun hdef => .wait rfl rfl ?_ fun hopen => ?_
    · rw [setInvocation_results, hu]
      exact .refl _
    · cases hd.symm.trans (hdef hopen)
  split at hs
  · cases hs
    exact hwait s _ hlocal rfl
  · split at hs
    · cases hs
      exact hwait _ _ hlocal.cleanup cleanup_results
    · split at hs <;> cases hs <;> exact hwait s _ hlocal rfl

theorem toolMoved (hown : v.Own n) (hentry : s.Entry n v.toolCallId)
    (hs : s.toolMove n v m = some s') : ToolMoved s s' n v m := by
  have hlocal := Local.refl n v.toolCallId s
  cases m with
  | look w => exact toolMoved_look hown hentry hs
  | settle journal w => exact toolMoved_settle hown hs
  | wake journal w => exact toolMoved_wake hown hentry hs
  | cancel =>
    simp only [toolMove] at hs
    split at hs <;> cases hs
    next h count hv =>
    refine (hlocal.requestCancel hentry).toolMoved hown rfl ⟨rfl, rfl, rfl⟩ nofun fun _ =>
      .wait (by rw [hv]; rfl) rfl (same_requestCancel s v.toolCallId n) fun _ => ⟨rfl, ?_⟩
    rw [setInvocation_background, requestCancel_background]
  | await journal => exact toolMoved_awaitTerminal hown hentry hs
  | cancelAgain journal =>
    simp only [toolMove] at hs
    split at hs <;> cases hs
    next polls hv => exact toolMoved_finalize hown hentry nofun (by rw [hv]; rfl) of_decide_eq_true
  | clean => exact toolMoved_clean hown hs
  | stamp =>
    simp only [toolMove] at hs
    split at hs <;> cases hs
    exact hlocal.popUsage.toolMoved hown rfl ⟨rfl, rfl, rfl⟩ hown.tool fun _ =>
      .wait rfl rfl (.refl _) fun _ => ⟨rfl, rfl⟩

end Moves

structure Apart (s : Subagents) : Prop where
  ids : ∀ m n v w, s.invocations m = some v → s.invocations n = some w →
    v.toolCallId = w.toolCallId → m = n
  own : ∀ n v, s.invocations n = some v → v.Own n
  background : ∀ id h, s.background.get? id = some h →
    ∃ v, s.invocations h = some v ∧ v.toolCallId = id
  cache : ∀ id u, s.usageCache.get? id = some u →
    ∃ n v, s.invocations n = some v ∧ v.toolCallId = id

theorem Apart.entry (h : s.Apart) (hv : s.invocations n = some v) : s.Entry n v.toolCallId := by
  intro k hk
  obtain ⟨w, hw, hid⟩ := h.background _ _ hk
  exact h.ids k n w v hw hv hid

theorem Apart.moved (h : s.Apart) (hm : Moved n id s s')
    (hid : ∀ m w, s.invocations m = some w → (w.toolCallId = id ↔ m = n))
    (hentry : s'.Entry n id) : s'.Apart := by
  obtain ⟨hl, v, hv, hvid, hown⟩ := hm
  have hother : ∀ m w, m ≠ n → s'.invocations m = some w → s.invocations m = some w :=
    fun m w hne hw => (hl.calls m hne) ▸ hw
  have hid' : ∀ m w, s'.invocations m = some w → w.toolCallId = id → m = n := by
    intro m w hw hwid
    by_contra hne
    exact hne ((hid m w (hother m w hne hw)).1 hwid)
  refine ⟨fun a b x y hx hy hxy => ?_, fun m w hw => ?_, fun k k' hk => ?_, fun k u hk => ?_⟩
  · by_cases ha : a = n
    · subst ha
      cases hv.symm.trans hx
      exact (hid' b y hy (hxy ▸ hvid)).symm
    · by_cases hb : b = n
      · subst hb
        cases hv.symm.trans hy
        exact hid' a x hx (hxy ▸ hvid)
      · exact h.ids a b x y (hother a x ha hx) (hother b y hb hy) hxy
  · by_cases hm : m = n
    · subst hm
      cases hv.symm.trans hw
      exact hown
    · exact h.own m w (hother m w hm hw)
  · by_cases hkid : k = id
    · subst hkid
      cases hentry k' hk
      exact ⟨v, hv, hvid⟩
    · rw [hl.background k hkid] at hk
      obtain ⟨w, hw, hwid⟩ := h.background k k' hk
      have hne : k' ≠ n := fun hn => hkid (hwid ▸ (hid k' w hw).2 hn)
      exact ⟨w, (hl.calls k' hne).trans hw, hwid⟩
  · by_cases hkid : k = id
    · exact ⟨n, v, hv, hvid.trans hkid.symm⟩
    · rw [hl.cache k hkid] at hk
      obtain ⟨m, w, hw, hwid⟩ := h.cache k u hk
      have hne : m ≠ n := fun hn => hkid (hwid ▸ (hid m w hw).2 hn)
      exact ⟨m, w, (hl.calls m hne).trans hw, hwid⟩

theorem local_start (s : Subagents) (n : ℕ) (id description name : String) (timeout : ℕ) (cache : Bool) :
    Moved n id s (s.start n id description name timeout cache) ∧
      (s.start n id description name timeout cache).Entry n id := by
  have hset : Local n id s { s.setResult n {} with background := s.background.set id n } :=
    ((Local.refl n id s).setResult {}).trans ⟨fun _ _ => rfl, fun _ _ => rfl,
      fun k hk => by simp [setResult, hk.symm], fun _ _ => rfl, fun _ h hh => by simpa using hh.symm⟩
  refine ⟨hset.moved rfl ⟨by rintro _ ⟨⟩, by rintro _ ⟨⟩, by rintro _ ⟨⟩⟩, fun h hh => ?_⟩
  simpa [start, setInvocation] using hh.symm

theorem moved_step {a : SubagentAct} (h : s.Apart) (hs : subagents.step s a = some s') :
    (∃ id description name timeout cache, a.move = .start id description name timeout cache ∧
      s.invocations a.call = none ∧ s' = s.start a.call id description name timeout cache) ∨
    ∃ v, a.startedId = none ∧ s.invocations a.call = some v ∧ Moved a.call v.toolCallId s s' := by
  obtain ⟨n, m⟩ := a
  cases hv : s.invocations n with
  | none =>
    cases m <;> simp only [subagents, hv, reduceCtorEq, some.injEq] at hs
    exact .inl ⟨_, _, _, _, _, rfl, rfl, hs.symm⟩
  | some v =>
    refine .inr ⟨v, ?_⟩
    cases m <;> simp only [subagents, hv, reduceCtorEq] at hs
    · exact ⟨rfl, rfl, moved_agentMove (h.own n v hv) hs⟩
    · exact ⟨rfl, rfl, moved_schedulerMove (h.own n v hv) (h.entry hv) hs⟩
    · exact ⟨rfl, rfl, (toolMoved (h.own n v hv) (h.entry hv) hs).moved⟩

end Subagents

end DeerFlow

import DeerFlow.Proofs.SubagentIsolation

/-!
# The usage of a subagent task

The subagent writes its usage records with its terminal status; the scheduler thread writes a
timeout or an error without them. So the tool reports what the collector held exactly if the
subagent wrote the end while the tool was waiting, or if nothing was held.
-/

namespace DeerFlow

open List Option SubagentResult

namespace Subagents

variable {s s' : Subagents} {n : ℕ} {id : String} {v : Invocation}
  {journal : JournalFate} {w : Bool}

def reportsOf (records : List UsageRecord) : List (List UsageRecord) :=
  if records = [] then [] else [records]

section Report

variable (u : Subagents) (journal : JournalFate)

theorem report_results : ((u.report v n journal).1.results n).status = (u.results n).status ∧
    ((u.report v n journal).1.results n).tokenUsageRecords = (u.results n).tokenUsageRecords := by
  unfold report
  split
  · exact ⟨rfl, rfl⟩
  · simp [setResult]

theorem report_nothing (hr : (u.results n).tokenUsageRecords = []) :
    (u.report v n journal).2 = v := by
  unfold report
  simp [hr]

theorem report_accepted (hnew : (u.results n).usageReported = false) :
    (u.report v n .accepts).2.reports = v.reports ++ reportsOf (u.results n).tokenUsageRecords := by
  unfold report reportsOf
  by_cases hr : (u.results n).tokenUsageRecords = []
  · simp [hr]
  · simp [hr, hnew]

end Report

section Accounts

variable {a : SubagentAct} {v' : Invocation}

structure Accounted (s : Subagents) (n : ℕ) (v : Invocation) : Prop where
  present : v.tool.isFinished = false → v.deferred = none ∧
    s.background.get? v.toolCallId = some n
  unreported : v.tool.isFinished = false → (s.results n).usageReported = false ∧ v.reports = []
  queued : v.scheduler = .queued → (s.results n).status.isTerminal = false
  unstarted : v.scheduler = .queued ∨ v.scheduler = .submitting n → v.agent = .absent
  early : v.agent = .absent ∨ v.agent = .building n → v.collector.records = []
  closing : ∀ h e, v.agent = .closing h e → e.records.getD [] = v.collector.records
  running : (s.results n).status.isTerminal = false →
    (s.results n).tokenUsageRecords = [] ∧ v.reports = []

/-- An end is final, has the records of the subagent only if the subagent writes it, and the tool
reports the records it finds. -/
structure Advances (s s' : Subagents) (n : ℕ) (v v' : Invocation) (a : SubagentAct) : Prop where
  kept : (s.results n).status.isTerminal = true → (s'.results n).status.isTerminal = true ∧
    (s'.results n).tokenUsageRecords = (s.results n).tokenUsageRecords
  ends : (s.results n).status.isTerminal = false → (s'.results n).status.isTerminal = true →
    v'.tool = v.tool ∧ v'.reports = v.reports ∧
    (a = ⟨n, .agent .write⟩ ∧ (s'.results n).tokenUsageRecords = v.collector.records ∨
      a ≠ ⟨n, .agent .write⟩ ∧ (s'.results n).tokenUsageRecords = [])
  reports : v'.tool.isFinished = v.tool.isFinished ∧ v'.reports = v.reports ∨
    v.tool.isFinished = false ∧ v'.tool.isFinished = true ∧
      (a.heard = true → v'.reports = reportsOf (s.results n).tokenUsageRecords)

theorem trySetTerminal_of_terminal {r : SubagentResult} (e : Ending) (h : r.status.isTerminal) :
    r.trySetTerminal e = r := by
  unfold trySetTerminal
  rw [if_pos h]

theorem trySetTerminal_usageReported (r : SubagentResult) (e : Ending) :
    (r.trySetTerminal e).usageReported = r.usageReported := by
  unfold trySetTerminal
  split <;> rfl

theorem trySetTerminal_terminal (r : SubagentResult) (e : Ending) :
    (r.trySetTerminal e).status.isTerminal := by
  unfold trySetTerminal
  split
  · assumption
  · exact e.terminal

theorem trySetTerminal_records {r : SubagentResult} (e : Ending) (h : r.status.isTerminal = false) :
    (r.trySetTerminal e).tokenUsageRecords = e.records.getD r.tokenUsageRecords := by
  unfold trySetTerminal
  rw [if_neg (by simp [h])]

theorem Advances.ending (h : Accounted s n v) (e : Ending)
    (hr : s'.results n = (s.results n).trySetTerminal e)
    (ha : a = ⟨n, .agent .write⟩ ∧ e.records.getD [] = v.collector.records ∨
      a ≠ ⟨n, .agent .write⟩ ∧ e.records = none)
    (hfin : v'.tool = v.tool) (hreports : v'.reports = v.reports) : Advances s s' n v v' a where
  kept := fun hterm => by
    rw [hr, trySetTerminal_of_terminal e hterm]
    exact ⟨hterm, rfl⟩
  ends := fun hopen _ => by
    rw [hr, trySetTerminal_records e hopen, (h.running hopen).1]
    refine ⟨hfin, hreports, ?_⟩
    rcases ha with ⟨ha, he⟩ | ⟨ha, he⟩
    · exact .inl ⟨ha, he⟩
    · exact .inr ⟨ha, by rw [he]; rfl⟩
  reports := .inl ⟨by rw [hfin], hreports⟩

theorem Advances.same (hr : (s.results n).Same (s'.results n))
    (hreports : v'.tool.isFinished = v.tool.isFinished ∧ v'.reports = v.reports ∨
      v.tool.isFinished = false ∧ v'.tool.isFinished ∧
        (a.heard → v'.reports = reportsOf (s.results n).tokenUsageRecords)) :
    Advances s s' n v v' a where
  kept := fun hterm => ⟨by rw [hr.status, hterm], hr.records⟩
  ends := fun hopen hterm => by
    rw [hr.status, hopen] at hterm
    cases hterm
  reports := hreports

/-- A section of a thread leaves the tool, and the usage of a result that has not ended. -/
structure ThreadStep (s s' : Subagents) (n : ℕ) (v v' : Invocation) : Prop where
  toolCallId : v'.toolCallId = v.toolCallId
  tool : v'.tool = v.tool
  deferred : v'.deferred = v.deferred
  reports : v'.reports = v.reports
  background : s'.background = s.background
  reported : (s'.results n).usageReported = (s.results n).usageReported
  running : (s'.results n).status.isTerminal = false → (s.results n).status.isTerminal = false ∧
    (s'.results n).tokenUsageRecords = (s.results n).tokenUsageRecords

theorem ThreadStep.of_same (hid : v'.toolCallId = v.toolCallId)
    (htool : v'.tool = v.tool) (hdef : v'.deferred = v.deferred) (hreports : v'.reports = v.reports)
    (hbg : s'.background = s.background) (hr : (s.results n).Same (s'.results n)) :
    ThreadStep s s' n v v' :=
  ⟨hid, htool, hdef, hreports, hbg, hr.reported, fun hopen => ⟨hr.status ▸ hopen, hr.records⟩⟩

theorem Accounted.thread (h : Accounted s n v) (ht : ThreadStep s s' n v v')
    (hqueued : v'.scheduler = .queued → (s'.results n).status.isTerminal = false)
    (hunstarted : v'.scheduler = .queued ∨ v'.scheduler = .submitting n → v'.agent = .absent)
    (hearly : v'.agent = .absent ∨ v'.agent = .building n → v'.collector.records = [])
    (hclosing : ∀ h e, v'.agent = .closing h e → e.records.getD [] = v'.collector.records) :
    Accounted s' n v' where
  present := by
    rw [ht.tool, ht.deferred, ht.toolCallId, ht.background]
    exact h.present
  unreported := by
    rw [ht.tool, ht.reported, ht.reports]
    exact h.unreported
  queued := hqueued
  unstarted := hunstarted
  early := hearly
  closing := hclosing
  running := fun hopen => by
    obtain ⟨hopen, hrec⟩ := ht.running hopen
    rw [hrec, ht.reports]
    exact h.running hopen

section Agent

variable {v' : Invocation} {r r' : SubagentResult} {m : AgentMove}

theorem AgentStep.result (h : AgentStep v r m v' r') :
    (∃ k e, m = .write ∧ v.agent = .closing k e ∧ r' = r.trySetTerminal e) ∨ r.Same r' := by
  cases h with
  | write k e hm hv => exact .inl ⟨k, e, hm, hv, rfl⟩
  | count k final c hv => exact .inr (.refl _)
  | close k e hv he => exact .inr (.refl _)
  | stream k final messages hv => exact .inr ⟨rfl, rfl, rfl⟩
  | stop k died hv => exact .inr (.refl _)

theorem AgentStep.late (h : AgentStep v r m v' r') : ¬ (v'.agent = .absent ∨ v'.agent = .building n) := by
  rintro (hv' | hv') <;> cases h <;> cases hv'

theorem AgentStep.closing (h : AgentStep v r m v' r') (hown : v.Own n) (ha : Accounted s n v) :
    ∀ k e, v'.agent = .closing k e → e.records.getD [] = v'.collector.records := by
  intro k e hv'
  cases h with
  | close k' e' hv he =>
    cases hv'
    rcases he with he | ⟨he, hb⟩
    · rw [he]
      rfl
    · cases hown.agent k (holder_of_running hv)
      rw [he]
      exact (ha.early (.inr hb)).symm
  | _ => cases hv'

end Agent

theorem Accounted.agent {m : AgentMove} (h : Accounted s n v) (hown : v.Own n)
    (hs : s.agentMove n v m = some s') :
    ∃ v', s'.invocations n = some v' ∧ Accounted s' n v' ∧ Advances s s' n v v' ⟨n, .agent m⟩ := by
  obtain ⟨k, hk, hs⟩ := bind_eq_some_iff.1 hs
  obtain ⟨⟨v', r⟩, hstep, rfl⟩ := map_eq_some_iff.1 hs
  cases hown.agent k hk
  have hcases := agentStep_cases hstep
  have hres : ((s.setResult n r).setInvocation n v').results n = r := by simp [setResult]
  have hkeep : v'.toolCallId = v.toolCallId ∧ v'.tool = v.tool ∧ v'.deferred = v.deferred ∧
      v'.reports = v.reports ∧ v'.scheduler = v.scheduler := by
    cases hcases <;> exact ⟨rfl, rfl, rfl, rfl, rfl⟩
  obtain ⟨hid, htool, hdef, hreports, hsched⟩ := hkeep
  have hstarted : ¬ (v'.scheduler = .queued ∨ v'.scheduler = .submitting n) := by
    rw [hsched]
    intro hq
    rw [h.unstarted hq] at hk
    cases hk
  have hthread : ThreadStep s ((s.setResult n r).setInvocation n v') n v v' →
      Accounted ((s.setResult n r).setInvocation n v') n v' := fun ht =>
    h.thread ht (fun hq => absurd (.inl hq) hstarted) (fun hq => absurd hq hstarted)
      (fun hlate => absurd hlate hcases.late) (hcases.closing hown h)
  refine ⟨v', setInvocation_self _, ?_⟩
  rcases hcases.result with ⟨k, e, rfl, hv, rfl⟩ | hsame
  · refine ⟨hthread ⟨hid, htool, hdef, hreports, rfl, ?_, ?_⟩,
      .ending h e hres (.inl ⟨rfl, h.closing k e hv⟩) htool hreports⟩
    · rw [hres, trySetTerminal_usageReported]
    · rw [hres, trySetTerminal_terminal]
      rintro ⟨⟩
  · rw [← hres] at hsame
    exact ⟨hthread (.of_same hid htool hdef hreports rfl hsame),
      .same hsame (.inl ⟨by rw [htool], hreports⟩)⟩

section Scheduler

variable {m : SchedulerMove}

theorem Accounted.scheduler_same {scheduler : SchedulerPhase} {cancel : Bool} {a : SubagentAct}
    (h : Accounted s n v) (hbg : s'.background = s.background)
    (hsame : (s.results n).Same (s'.results n))
    (hsched : scheduler ≠ .queued ∧ ∀ k, scheduler ≠ .submitting k) :
    Accounted s' n { v with scheduler := scheduler, cancelRequested := cancel } ∧
      Advances s s' n v { v with scheduler := scheduler, cancelRequested := cancel } a := by
  refine ⟨h.thread (.of_same rfl rfl rfl rfl hbg hsame) (fun hq => absurd hq hsched.1) ?_ h.early
    h.closing, .same hsame (.inl ⟨rfl, rfl⟩)⟩
  rintro (hq | hq)
  · exact absurd hq hsched.1
  · exact absurd hq (hsched.2 n)

theorem Accounted.scheduler_ends {cancel : Bool} (h : Accounted s n v) (e : Ending)
    (he : e.records = none) (hbg : s'.background = s.background)
    (hr : s'.results n = (s.results n).trySetTerminal e) :
    Accounted s' n { v with scheduler := .done, cancelRequested := cancel } ∧
      Advances s s' n v { v with scheduler := .done, cancelRequested := cancel } ⟨n, .scheduler m⟩ := by
  refine ⟨h.thread ⟨rfl, rfl, rfl, rfl, hbg, ?_, ?_⟩ nofun (by rintro (hq | hq) <;> cases hq) h.early
    h.closing, .ending h e hr (.inr ⟨nofun, he⟩) rfl rfl⟩
  · rw [hr, trySetTerminal_usageReported]
  · rw [hr, trySetTerminal_terminal]
    nofun

theorem Accounted.schedulerFails {error : String} (h : Accounted s n v)
    (hentry : s.Entry n v.toolCallId) : ∃ v', (s.schedulerFails n v error).invocations n = some v' ∧
      Accounted (s.schedulerFails n v error) n v' ∧
      Advances s (s.schedulerFails n v error) n v v' ⟨n, .scheduler m⟩ := by
  unfold Subagents.schedulerFails
  split
  · exact ⟨_, setInvocation_self _, h.scheduler_same rfl (.refl _) ⟨nofun, nofun⟩⟩
  · next k hk =>
    cases hentry k hk
    exact ⟨_, setInvocation_self _, h.scheduler_ends ⟨.failed, none, some error, none, rfl⟩ rfl rfl
      (by simp [setResult])⟩

theorem Accounted.scheduler (h : Accounted s n v) (hown : v.Own n)
    (hentry : s.Entry n v.toolCallId) (hs : s.schedulerMove n v m = some s') :
    ∃ v', s'.invocations n = some v' ∧ Accounted s' n v' ∧
      Advances s s' n v v' ⟨n, .scheduler m⟩ := by
  have hholder : ∀ k, v.scheduler.holder = some k → k = n := hown.scheduler
  cases schedulerMove_cases hs with
  | lost hb => exact ⟨_, setInvocation_self _, h.scheduler_same rfl (.refl _) ⟨by rintro ⟨⟩, by rintro _ ⟨⟩⟩⟩
  | start k hv hb =>
    cases hentry k hb
    have hopen := h.queued hv
    refine ⟨_, setInvocation_self _, h.thread ⟨rfl, rfl, rfl, rfl, rfl, ?_, fun _ => ⟨hopen, ?_⟩⟩
      (by rintro ⟨⟩) (fun _ => h.unstarted (.inl hv)) h.early h.closing, ⟨fun hterm => ?_, ?_, .inl ⟨rfl, rfl⟩⟩⟩
    · simp [setResult]
    · simp [setResult]
    · rw [hopen] at hterm
      cases hterm
    · simp [setResult, SubagentStatus.isTerminal]
  | submit k hv =>
    cases hholder k (by rw [hv]; rfl)
    have habsent := h.unstarted (.inr hv)
    refine ⟨_, setInvocation_self _, h.thread (.of_same rfl rfl rfl rfl rfl (.refl _)) (by rintro ⟨⟩)
      (by rintro (hq | hq) <;> cases hq) (fun _ => h.early (.inl habsent)) (by rintro _ _ ⟨⟩),
      .same (.refl _) (.inl ⟨rfl, rfl⟩)⟩
  | fail k error hv => exact h.schedulerFails hentry
  | expire k hv =>
    cases hholder k (by rw [hv]; rfl)
    refine ⟨_, setInvocation_self _, h.scheduler_same rfl ?_ ⟨by rintro ⟨⟩, by rintro _ ⟨⟩⟩⟩
    simp only [setResult, setInvocation_results, Function.update_self]
    exact ⟨rfl, rfl, rfl⟩
  | timeOut k hv =>
    cases hholder k (by rw [hv]; rfl)
    exact ⟨_, setInvocation_self _, h.scheduler_ends (timeoutEnding v) rfl rfl (by simp [setResult])⟩
  | join => exact ⟨_, setInvocation_self _, h.scheduler_same rfl (.refl _) ⟨by rintro ⟨⟩, by rintro _ ⟨⟩⟩⟩

end Scheduler

theorem Accounted.threads_stay (h : Accounted s n v) (hsame : v.SameTask v')
    (hstatus : (s'.results n).status = (s.results n).status)
    (hrecords : (s'.results n).tokenUsageRecords = (s.results n).tokenUsageRecords)
    (hpresent : v'.tool.isFinished = false → v'.deferred = none ∧
      s'.background.get? v'.toolCallId = some n)
    (hunreported : v'.tool.isFinished = false →
      (s'.results n).usageReported = false ∧ v'.reports = [])
    (hreports : (s.results n).tokenUsageRecords = [] → v'.reports = v.reports) :
    Accounted s' n v' where
  present := hpresent
  unreported := hunreported
  queued := by
    rw [hsame.scheduler, hstatus]
    exact h.queued
  unstarted := by
    rw [hsame.scheduler, hsame.agent]
    exact h.unstarted
  early := by
    rw [hsame.agent, hsame.collector]
    exact h.early
  closing := by
    rw [hsame.agent, hsame.collector]
    exact h.closing
  running := fun hopen => by
    rw [hstatus] at hopen
    obtain ⟨hrec, hrep⟩ := h.running hopen
    exact ⟨hrecords.trans hrec, (hreports hrec).trans hrep⟩

theorem Accounted.tool {m : ToolMove} (h : Accounted s n v) (hown : v.Own n)
    (hentry : s.Entry n v.toolCallId) (hs : s.toolMove n v m = some s') :
    ∃ v', s'.invocations n = some v' ∧ Accounted s' n v' ∧ Advances s s' n v v' ⟨n, .tool m⟩ := by
  obtain ⟨-, v', hv', hid, -, hsame, hcases⟩ := toolMoved hown hentry hs
  refine ⟨v', hv', ?_⟩
  cases hcases fun hopen => (h.present hopen).1 with
  | wait hfin hreports hres hopen =>
    refine ⟨h.threads_stay hsame hres.status hres.records (fun hf => ?_) (fun hf => ?_)
      fun _ => hreports, .same hres (.inl ⟨hfin, hreports⟩)⟩
    · rw [hfin] at hf
      rw [(hopen hf).1, hid, (hopen hf).2]
      exact h.present hf
    · rw [hfin] at hf
      rw [hres.reported, hreports]
      exact h.unreported hf
  | report u journal hopen hu hfin hm hreports hres =>
    obtain ⟨hstatus, hrecords⟩ := u.report_results (n := n) (v := v) journal
    rw [hu] at hstatus hrecords
    have hfin' : v'.tool.isFinished ≠ false := by simp [hfin]
    have hnothing : (s.results n).tokenUsageRecords = [] → v'.reports = v.reports := by
      intro hr
      rw [hreports, u.report_nothing journal (by rw [hu]; exact hr)]
    have hst := hres.status.trans hstatus
    have hrec := hres.records.trans hrecords
    refine ⟨h.threads_stay hsame hst hrec (fun hf => absurd hf hfin') (fun hf => absurd hf hfin')
      hnothing, ⟨fun hterm => ⟨by rw [hst, hterm], hrec⟩, fun hopen hterm => ?_,
        .inr ⟨hopen, hfin, fun hheard => ?_⟩⟩⟩
    · rw [hst, hopen] at hterm
      cases hterm
    · obtain ⟨hnew, hnone⟩ := h.unreported hopen
      rw [hreports, hm hheard, u.report_accepted (by rw [hu]; exact hnew), hnone, hu, nil_append]
  | leave hopen hfin hm hreports hres =>
    have hfin' : v'.tool.isFinished ≠ false := by simp [hfin]
    refine ⟨h.threads_stay hsame hres.status hres.records (fun hf => absurd hf hfin')
      (fun hf => absurd hf hfin') fun _ => hreports, .same hres (.inr ⟨hopen, hfin, fun hheard => ?_⟩)⟩
    rcases hm with hm | hm
    · rw [hheard] at hm
      cases hm
    · rw [(h.present hopen).2] at hm
      cases hm

theorem Accounted.other (h : Accounted s n v) (hr : s'.results n = s.results n)
    (hbg : s'.background.get? v.toolCallId = s.background.get? v.toolCallId) :
    Accounted s' n v ∧ Advances s s' n v v a := by
  refine ⟨h.threads_stay ⟨rfl, rfl, rfl⟩ (by rw [hr]) (by rw [hr]) ?_ ?_ fun _ => rfl,
    .same (by rw [hr]; exact .refl _) (.inl ⟨rfl, rfl⟩)⟩
  · rw [hbg]
    exact h.present
  · rw [hr]
    exact h.unreported

theorem accounted_start (s : Subagents) (n : ℕ) (id description name : String) (timeout : ℕ)
    (cache : Bool) : ∃ v, (s.start n id description name timeout cache).invocations n = some v ∧
      Accounted (s.start n id description name timeout cache) n v := by
  refine ⟨_, setInvocation_self _, ?_⟩
  constructor <;> simp [start, setInvocation, setResult, SubagentStatus.isTerminal]

theorem Accounted.own_step (happ : s.Apart) (h : Accounted s a.call v)
    (hv : s.invocations a.call = some v) (hs : subagents.step s a = some s') :
    ∃ v', s'.invocations a.call = some v' ∧ Accounted s' a.call v' ∧ Advances s s' a.call v v' a := by
  obtain ⟨n, m⟩ := a
  have hown := happ.own n v hv
  have hentry := happ.entry hv
  cases m <;> simp only [subagents, hv, reduceCtorEq] at hs
  · exact h.agent hown hs
  · exact h.scheduler hown hentry hs
  · exact h.tool hown hentry hs

structure Kept (s : Subagents) : Prop where
  apart : s.Apart
  accounts : ∀ n v, s.invocations n = some v → Accounted s n v

theorem Kept.step (h : s.Kept) (hf : s.Fresh a)
    (hs : subagents.step s a = some s') : s'.Kept ∧
      ∀ n v, s.invocations n = some v → ∃ v', s'.invocations n = some v' ∧ Advances s s' n v v' a := by
  obtain ⟨id, hlocal, hid⟩ := local_step h.apart hf hs
  have hother : ∀ n v, n ≠ a.call → s.invocations n = some v →
      Accounted s' n v ∧ Advances s s' n v v a := fun n v hn hv =>
    (h.accounts n v hv).other (hlocal.results n hn) (hlocal.background _ (hid n v hn hv))
  refine ⟨⟨h.apart.step hf hs, fun n v hv => ?_⟩, fun n v hv => ?_⟩
  · by_cases hn : n = a.call
    · subst hn
      rcases moved_step h.apart hs with ⟨id, description, name, timeout, cache, -, -, rfl⟩ |
        ⟨w, -, hw, -⟩
      · obtain ⟨v', hv', hacc⟩ := accounted_start s a.call id description name timeout cache
        cases hv'.symm.trans hv
        exact hacc
      · obtain ⟨v', hv', hacc, -⟩ := (h.accounts _ w hw).own_step h.apart hw hs
        cases hv'.symm.trans hv
        exact hacc
    · exact (hother n v hn (hlocal.calls n hn ▸ hv)).1
  · by_cases hn : n = a.call
    · subst hn
      obtain ⟨v', hv', -, hadv⟩ := (h.accounts _ v hv).own_step h.apart hv hs
      exact ⟨v', hv', hadv⟩
    · exact ⟨v, (hlocal.calls n hn).trans hv, (hother n v hn hv).2⟩

theorem kept_empty : Kept {} := ⟨apart_empty, by simp⟩

theorem Kept.run {as : List SubagentAct} (h : s.Kept) (hok : subagents.Along Fresh as s)
    (hs : subagents.run as s = some s') : s'.Kept :=
  Machine.run_inv (fun _ _ _ h hf hstep => (h.step hf hstep).1) h hok hs

def Ended (n : ℕ) (records : List UsageRecord) (gone : Bool) (s : Subagents) : Prop :=
  ∃ v, s.invocations n = some v ∧ (s.results n).status.isTerminal = true ∧
    (s.results n).tokenUsageRecords = records ∧
    (gone = true ∧ v.tool.isFinished = true ∧ v.reports = [] ∨
      gone = false ∧ v.tool.isFinished = false ∧ v.reports = [] ∨
      gone = false ∧ v.tool.isFinished = true ∧ v.reports = reportsOf records)

theorem Ended.step {records : List UsageRecord} {gone : Bool} (hk : s.Kept)
    (hf : s.Fresh a) (h : Ended n records gone s) (hheard : a.heard)
    (hs : subagents.step s a = some s') : Ended n records gone s' := by
  obtain ⟨v, hv, hterm, hrec, hcases⟩ := h
  obtain ⟨v', hv', hadv⟩ := (hk.step hf hs).2 n v hv
  obtain ⟨hterm', hrec'⟩ := hadv.kept hterm
  refine ⟨v', hv', hterm', hrec'.trans hrec, ?_⟩
  rcases hadv.reports with ⟨hfin, hrep⟩ | ⟨hopen, hfin, hrep⟩
  · rw [hfin, hrep]
    exact hcases
  · rcases hcases with ⟨-, hf, -⟩ | ⟨hgone, -, -⟩ | ⟨-, hf, -⟩
    · rw [hopen] at hf
      cases hf
    · exact .inr (.inr ⟨hgone, hfin, by rw [hrep hheard, hrec]⟩)
    · rw [hopen] at hf
      cases hf

theorem reportsOf_eq_nil {records : List UsageRecord} : reportsOf records = [] ↔ records = [] := by
  unfold reportsOf
  split <;> simp_all

/-- The records of a task that has ended are reported once and as the collector held them when it
ended, exactly if it held none, or the subagent wrote the end while the tool waited for it. -/
theorem usage_reported_iff (as bs : List SubagentAct) (a : SubagentAct) (s s' t : Subagents) (n : ℕ)
    (v w : Invocation) (hids : ((as ++ a :: bs).filterMap SubagentAct.startedId).Nodup)
    (hheard : ∀ b ∈ bs, b.heard = true) (hs : subagents.run as {} = some s)
    (hstep : subagents.step s a = some s') (ht : subagents.run bs s' = some t)
    (hv : s.invocations n = some v) (hw : t.invocations n = some w)
    (hopen : (s.results n).status.isTerminal = false)
    (hend : (s'.results n).status.isTerminal = true) (hfin : w.tool.isFinished = true) :
    w.reports = reportsOf v.collector.records ↔
      v.collector.records = [] ∨ a = ⟨n, .agent .write⟩ ∧ v.tool.isFinished = false := by
  have hok : subagents.Along Fresh (as ++ a :: bs) {} := along_fresh apart_empty (by simp) hids
  obtain ⟨hok1, hf, hok2⟩ := hok.append hs
  have hk : s.Kept := kept_empty.run hok1 hs
  obtain ⟨hk', hadv⟩ := hk.step hf hstep
  obtain ⟨v', hv', hadv⟩ := hadv n v hv
  obtain ⟨htool, hreports, hrecords⟩ := hadv.ends hopen hend
  have hnone : v'.reports = [] := hreports.trans ((hk.accounts n v hv).running hopen).2
  have hstart : Ended n (s'.results n).tokenUsageRecords v.tool.isFinished s' := by
    refine ⟨v', hv', hend, rfl, ?_⟩
    rw [htool]
    cases hgone : v.tool.isFinished with
    | true => exact .inl ⟨rfl, rfl, hnone⟩
    | false => exact .inr (.inl ⟨rfl, rfl, hnone⟩)
  obtain ⟨-, w', hw', -, -, hcases⟩ := Machine.run_inv
    (I := fun u => u.Kept ∧ Ended n (s'.results n).tokenUsageRecords v.tool.isFinished u)
    (fun u b u' hu hb hstep => ⟨(hu.1.step hb.1 hstep).1, hu.2.step hu.1 hb.1 hb.2 hstep⟩)
    ⟨hk', hstart⟩ ((hok2 s' hstep).and (Machine.along_of_forall hheard s')) ht
  cases hw'.symm.trans hw
  rcases hcases with ⟨hgone, -, hrep⟩ | ⟨-, hopen', -⟩ | ⟨hgone, -, hrep⟩
  · rw [hrep, hgone, eq_comm, reportsOf_eq_nil]
    simp
  · rw [hopen'] at hfin
    cases hfin
  · rw [hrep, hgone]
    rcases hrecords with ⟨ha, hr⟩ | ⟨ha, hr⟩
    · rw [hr]
      simp [ha]
    · rw [hr, eq_comm, show reportsOf [] = [] from rfl, reportsOf_eq_nil]
      simp [ha]

end Accounts

def countedTask : List SubagentAct :=
  [⟨0, .start "x" "first" "general-purpose" 900 true⟩, ⟨0, .scheduler .begin⟩,
    ⟨0, .scheduler (.submit none)⟩, ⟨0, .agent .built⟩,
    ⟨0, .agent (.llmEnd "r" [[{ inputTokens := 3, outputTokens := 4 }]])⟩]

def answeredTask : List SubagentAct := countedTask ++ [⟨0, .agent .streamEnd⟩]

def writeResult : SubagentAct := ⟨0, .agent .write⟩

def pollOnce : List SubagentAct := [⟨0, .tool (.look false)⟩, ⟨0, .tool (.settle .accepts false)⟩]

theorem answered_task_reported : ∃ s s' t v w, subagents.run answeredTask {} = some s ∧
    subagents.step s writeResult = some s' ∧ subagents.run pollOnce s' = some t ∧
    s.invocations 0 = some v ∧ t.invocations 0 = some w ∧
    v.collector.records = [⟨"r", "subagent:general-purpose", none, 3, 4, 7⟩] ∧
    w.reports = reportsOf v.collector.records := by
  have hrun : ((subagents.run answeredTask {}).bind fun s =>
      (subagents.step s writeResult).bind fun s' => (subagents.run pollOnce s').map fun t =>
        ((s.invocations 0).map fun v => (v.collector.records, v.tool.isFinished),
          (t.invocations 0).map fun w => w.tool.isFinished,
          (s.results 0).status.isTerminal, (s'.results 0).status.isTerminal))
      = some (some ([⟨"r", "subagent:general-purpose", none, 3, 4, 7⟩], false), some true, false, true) := by
    decide +kernel
  have hids : ((answeredTask ++ writeResult :: pollOnce).filterMap SubagentAct.startedId).Nodup := by
    decide +kernel
  obtain ⟨s, hs, hrun⟩ := bind_eq_some_iff.1 hrun
  obtain ⟨s', hs', hrun⟩ := bind_eq_some_iff.1 hrun
  obtain ⟨t, ht, hrun⟩ := map_eq_some_iff.1 hrun
  simp only [Prod.mk.injEq, map_eq_some_iff] at hrun
  obtain ⟨⟨v, hv, hrecords, hopen⟩, ⟨w, hw, hfin⟩, hrunning, hend⟩ := hrun
  refine ⟨s, s', t, v, w, hs, hs', ht, hv, hw, hrecords, ?_⟩
  exact (usage_reported_iff answeredTask pollOnce writeResult s s' t 0 v w hids (by decide) hs hs' ht hv
    hw hrunning hend hfin).2 (.inr ⟨rfl, hopen⟩)

def timeoutSections : List SubagentAct := [⟨0, .scheduler .expire⟩, ⟨0, .scheduler .timeOut⟩]

/-- The subagent has made a model call and is timed out: its usage is not reported. -/
theorem timed_out_task_unreported :
    ((subagents.run (countedTask ++ timeoutSections ++ pollOnce) {}).bind (·.invocations 0)).map
        (fun w => (w.tool, w.reports, w.collector.records))
      = some (.finished (.returned "Task timed out. Error: Execution timed out after 900 seconds"), [],
        [⟨"r", "subagent:general-purpose", none, 3, 4, 7⟩]) := by
  decide +kernel

/-- A task that has ended stays ended, with the usage records it ended with, whatever its subagent,
its scheduler thread, its tool and the other tasks do. -/
theorem ended_task_stays (as bs : List SubagentAct) (s t : Subagents) (n : ℕ) (v : Invocation)
    (hids : ((as ++ bs).filterMap SubagentAct.startedId).Nodup)
    (hs : subagents.run as {} = some s) (ht : subagents.run bs s = some t)
    (hv : s.invocations n = some v) (hterm : (s.results n).status.isTerminal = true) :
    (t.results n).status.isTerminal = true ∧
      (t.results n).tokenUsageRecords = (s.results n).tokenUsageRecords := by
  obtain ⟨hok1, hok2⟩ := (along_fresh apart_empty (by simp) hids).append hs
  have hrun := Machine.run_inv (I := fun u => u.Kept ∧ (∃ v, u.invocations n = some v) ∧
      (u.results n).status.isTerminal = true ∧
      (u.results n).tokenUsageRecords = (s.results n).tokenUsageRecords) (fun u b u' hu hb hstep => ?_)
    ⟨kept_empty.run hok1 hs, ⟨v, hv⟩, hterm, rfl⟩ hok2 ht
  · exact hrun.2.2
  · obtain ⟨hk, ⟨v, hv⟩, hterm, hrec⟩ := hu
    obtain ⟨hk', hadv⟩ := hk.step hb hstep
    obtain ⟨v', hv', hadv⟩ := hadv n v hv
    exact ⟨hk', ⟨v', hv'⟩, (hadv.kept hterm).1, (hadv.kept hterm).2.trans hrec⟩

theorem timed_out_task_stays : ∃ s t, subagents.run (countedTask ++ timeoutSections) {} = some s ∧
    subagents.run [⟨0, .agent .streamEnd⟩, writeResult] s = some t ∧
    (t.results 0).tokenUsageRecords = (s.results 0).tokenUsageRecords := by
  have hrun : ((subagents.run (countedTask ++ timeoutSections) {}).bind fun s =>
      (subagents.run [⟨0, .agent .streamEnd⟩, writeResult] s).map fun _ =>
        ((s.invocations 0).isSome, (s.results 0).status.isTerminal)) = some (true, true) := by
    decide +kernel
  obtain ⟨s, hs, hrun⟩ := bind_eq_some_iff.1 hrun
  obtain ⟨t, ht, hrun⟩ := map_eq_some_iff.1 hrun
  obtain ⟨hv, hterm⟩ := Prod.mk.inj hrun
  obtain ⟨v, hv⟩ := isSome_iff_exists.1 hv
  exact ⟨s, t, hs, ht, (ended_task_stays _ _ s t 0 v (by decide) hs ht hv hterm).2⟩

end Subagents

end DeerFlow

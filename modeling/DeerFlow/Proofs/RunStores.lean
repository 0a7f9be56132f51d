import DeerFlow.RunStores

/-!
# Memory and table under the same calls

Both stores show the same of every run as long as a second `put` has nothing to change or to erase
that the repository keeps, and a completion reports every counter that is not zero.
-/

namespace DeerFlow

open List Option

variable {E : RunDbEngine} {s : RunStores}

structure RunStores.Agree (E : RunDbEngine) (s : RunStores) : Prop where
  view : ∀ id, (s.memory.get? id).map StoredRun.view = (s.sql.get? id).map StoredRun.view
  org : ∀ id run, s.memory.get? id = some run → run.orgId = some E.tenant

theorem RunStores.Agree.cases (h : s.Agree E) (id : String) :
    (s.memory.get? id = none ∧ s.sql.get? id = none)
    ∨ ∃ run row, s.memory.get? id = some run ∧ s.sql.get? id = some row ∧ run.view = row.view := by
  have hv := h.view id
  cases hm : s.memory.get? id with
  | none =>
    rw [hm, map_none, eq_comm, map_eq_none_iff] at hv
    exact .inl ⟨rfl, hv⟩
  | some run =>
    rw [hm, map_some, eq_comm, map_eq_some_iff] at hv
    obtain ⟨row, hrow, hview⟩ := hv
    exact .inr ⟨run, row, rfl, hrow, hview.symm⟩

theorem RunStores.Agree.set (h : s.Agree E) (id : String) {run row : StoredRun}
    (hview : run.view = row.view) (horg : run.orgId = some E.tenant) :
    (⟨s.memory.set id run, s.sql.set id row⟩ : RunStores).Agree E := by
  refine ⟨fun id' => ?_, fun id' run' hrun' => ?_⟩
  · simp only [OrdDict.get?_set]
    split_ifs
    · simp [hview]
    · exact h.view id'
  · simp only [OrdDict.get?_set] at hrun'
    split_ifs at hrun'
    · cases hrun'
      exact horg
    · exact h.org id' run' hrun'

section Views

variable {run row : StoredRun}

theorem view_status (h : run.view = row.view) : run.status = row.status := congrArg RunView.status h

theorem view_rowVersion (h : run.view = row.view) : run.rowVersion = row.rowVersion :=
  congrArg RunView.rowVersion h

theorem view_orgId (h : run.view = row.view) : run.orgId = row.orgId := congrArg RunView.orgId h

theorem view_cancelRequested (h : run.view = row.view) :
    run.cancelRequested = row.cancelRequested := congrArg RunView.cancelRequested h

theorem view_counters (h : run.view = row.view) (c : Counter) :
    (run.counters c).getD 0 = (row.counters c).getD 0 := by
  have hc := congrArg RunView.counters h
  simp only [StoredRun.view, Counter.all, map_cons, cons.injEq] at hc
  cases c <;> tauto

theorem view_usage (h : run.view = row.view) :
    run.tokenUsageByModel.getD [] = row.tokenUsageByModel.getD [] :=
  congrArg RunView.tokenUsageByModel h

end Views

theorem casVersion_eq {run row : StoredRun} (h : run.view = row.view) (expected : Option Int) :
    MemoryRunStore.casVersion run expected = RunRepository.whereVersion row expected := by
  unfold MemoryRunStore.casVersion RunRepository.whereVersion
  cases expected with
  | none => simp [view_rowVersion h]
  | some v =>
    by_cases hv : row.rowVersion = v <;> simp [view_rowVersion h, hv]

def ReleasePin.Repeats (given old : ReleasePin) : Prop :=
  (given.packageId = none ∨ given.packageId = old.packageId)
  ∧ (given.versionId = none ∨ given.versionId = old.versionId)
  ∧ (given.channel = none ∨ given.channel = old.channel)
  ∧ (given.digest = none ∨ given.digest = old.digest)

theorem or_of_repeats {α : Type} {given old : Option α} (h : given = none ∨ given = old) :
    given.or old = old := by
  rcases h with rfl | rfl
  · rfl
  · exact or_self

theorem ReleasePin.Repeats.keepPin {given old : ReleasePin} (h : given.Repeats old) :
    MemoryRunStore.keepPin given old = old := by
  obtain ⟨h1, h2, h3, h4⟩ := h
  simp only [MemoryRunStore.keepPin, or_of_repeats h1, or_of_repeats h2, or_of_repeats h3,
    or_of_repeats h4]

/-- Nothing the repository would keep is lost: a first `put` names the tenant, a second one repeats
what it gives, before the run has tokens; a completion reports every counter that is not zero. -/
def RunStoreAct.Faithful (E : RunDbEngine) (s : RunStores) : RunStoreAct → Prop
  | .put id a => (RunRepository.put E s.sql id a).isSome = true ∧
      match s.memory.get? id with
      | none => a.orgId = .given (some E.tenant)
      | some run =>
          (MemoryRunStore.orgOf a.orgId = none ∨ MemoryRunStore.orgOf a.orgId = run.orgId)
          ∧ a.pin.Repeats run.pin ∧ a.legacyUnpinned = run.legacyUnpinned
          ∧ (∀ c ∈ Counter.all, (run.counters c).getD 0 = 0) ∧ run.tokenUsageByModel.getD [] = []
  | .updateRunCompletion id _ r _ => ∀ run ∈ s.memory.get? id,
      (∀ c ∈ Counter.all, r.counters c = none → (run.counters c).getD 0 = 0)
      ∧ (r.tokenUsageByModel = none → run.tokenUsageByModel.getD [] = [])
  | _ => True

namespace RunStores.Agree

theorem put (h : s.Agree E) {id : String} {a : PutArgs}
    (ha : (RunStoreAct.put id a).Faithful E s) :
    (⟨MemoryRunStore.put s.memory id a, (RunRepository.put E s.sql id a).getD s.sql⟩
      : RunStores).Agree E := by
  obtain ⟨hput, hkeep⟩ := ha
  obtain ⟨sql, hsql⟩ := isSome_iff_exists.1 hput
  rw [hsql, getD_some]
  unfold RunRepository.put at hsql
  cases hc : RunRepository.createdOf E a with
  | none =>
    rw [hc] at hsql
    cases hsql
  | some created =>
    rw [hc] at hsql
    unfold MemoryRunStore.put
    rcases h.cases id with ⟨hm, hs⟩ | ⟨run, row, hm, hs, hview⟩
    · rw [hm] at hkeep
      simp only [hs] at hsql
      cases (ite_none_right_eq_some.1 hsql).2
      rw [hm]
      refine h.set id ?_ ?_
      · simp only [StoredRun.view, RunRepository.insertRow, hkeep, MemoryRunStore.orgOf,
          RunRepository.resolveOrgId, MemoryRunStore.keepPin]
        simp
      · simp [hkeep, MemoryRunStore.orgOf]
    · rw [hm] at hkeep
      obtain ⟨horg, hpin, hlegacy, hcounters, husage⟩ := hkeep
      simp only [hs] at hsql
      cases (ite_none_right_eq_some.1 hsql).2
      rw [hm]
      refine h.set id ?_ ?_
      · have hv : run.view = row.view := hview
        simp only [StoredRun.view, RunView.mk.injEq] at hv ⊢
        obtain ⟨h1, h2, h3, -, h5, h6, h7, h8, h9⟩ := hv
        refine ⟨?_, ?_, ?_, trivial, ?_, ?_, ?_, ?_, ?_⟩
        · simpa [or_of_repeats horg] using h1
        · simpa [hpin.keepPin] using h2
        · rw [hlegacy, h3]
        · simpa using h5
        · simpa using h6
        · simpa using h7
        · rw [← h8]
          exact map_congr_left fun c hc => (hcounters c hc).symm
        · rw [← h9, husage]
          rfl
      · simpa [or_of_repeats horg] using h.org id run hm

theorem updateStatus (h : s.Agree E) (id : String) (status : RunStatus) (error : Option String)
    (expected : Option Int) (now : String) :
    (⟨(MemoryRunStore.updateStatus s.memory id status error expected now).1,
      (RunRepository.updateStatus s.sql id status error expected now).1⟩ : RunStores).Agree E := by
  unfold MemoryRunStore.updateStatus RunRepository.updateStatus
  rcases h.cases id with ⟨hm, hs⟩ | ⟨run, row, hm, hs, hview⟩
  · rw [hm, hs]
    exact h
  · rw [hm, hs]
    dsimp only [bind_some]
    rw [casVersion_eq hview]
    cases hv : RunRepository.whereVersion row expected with
    | none => exact h
    | some version =>
      refine h.set id ?_ (h.org id run hm)
      simp only [StoredRun.view, RunView.mk.injEq] at hview ⊢
      tauto

theorem updateRunCompletion (h : s.Agree E) {id : String} {status : RunStatus} {r : RunReport}
    {expected : Option Int}
    (ha : (RunStoreAct.updateRunCompletion id status r expected).Faithful E s) :
    (⟨(MemoryRunStore.updateRunCompletion s.memory id status r expected).1,
      (RunRepository.updateRunCompletion s.sql id status r expected).1⟩ : RunStores).Agree E := by
  unfold MemoryRunStore.updateRunCompletion RunRepository.updateRunCompletion
  rcases h.cases id with ⟨hm, hs⟩ | ⟨run, row, hm, hs, hview⟩
  · rw [hm, hs]
    exact h
  · obtain ⟨hcounters, husage⟩ := ha run hm
    rw [hm, hs]
    dsimp only [bind_some]
    rw [casVersion_eq hview]
    cases hv : RunRepository.whereVersion row expected with
    | none => exact h
    | some version =>
      refine h.set id ?_ (h.org id run hm)
      have hcount : (Counter.all.map fun c => ((r.counters c).or (run.counters c)).getD 0)
          = Counter.all.map fun c => (r.counters c).getD 0 := by
        refine map_congr_left fun c hc => ?_
        cases hrc : r.counters c with
        | none => simpa using hcounters c hc hrc
        | some n => rfl
      have huse : (r.tokenUsageByModel.or run.tokenUsageByModel).getD []
          = r.tokenUsageByModel.getD [] := by
        cases hru : r.tokenUsageByModel with
        | none => simpa using husage hru
        | some u => rfl
      simp only [StoredRun.view, RunView.mk.injEq] at hview
      simp only [StoredRun.view, MemoryRunStore.merge, hcount, huse, getD_some, RunView.mk.injEq]
      tauto

theorem updateRunProgress (h : s.Agree E) (id : String) (r : RunReport) :
    (⟨MemoryRunStore.updateRunProgress s.memory id r,
      RunRepository.updateRunProgress s.sql id r⟩ : RunStores).Agree E := by
  unfold MemoryRunStore.updateRunProgress RunRepository.updateRunProgress
  rcases h.cases id with ⟨hm, hs⟩ | ⟨run, row, hm, hs, hview⟩
  · rw [hm, hs]
    exact h
  · rw [hm, hs]
    dsimp only
    rw [view_status hview]
    by_cases hrun : row.status = .running
    · rw [if_pos hrun, if_pos hrun]
      refine h.set id ?_ (h.org id run hm)
      have hcount : (Counter.all.map fun c => ((r.counters c).or (run.counters c)).getD 0)
          = Counter.all.map fun c => ((r.counters c).or (row.counters c)).getD 0 := by
        refine map_congr_left fun c _ => ?_
        cases r.counters c with
        | none => simpa using view_counters hview c
        | some n => rfl
      have huse : (r.tokenUsageByModel.or run.tokenUsageByModel).getD []
          = (r.tokenUsageByModel.or row.tokenUsageByModel).getD [] := by
        cases r.tokenUsageByModel with
        | none => simpa using view_usage hview
        | some u => rfl
      simp only [StoredRun.view, RunView.mk.injEq] at hview
      simp only [StoredRun.view, MemoryRunStore.merge, hcount, huse, RunView.mk.injEq]
      tauto
    · rw [if_neg hrun, if_neg hrun]
      exact h

theorem requestCancel (h : s.Agree E) (id action now : String) :
    (⟨(MemoryRunStore.requestCancel s.memory id action now).1,
      (RunRepository.requestCancel s.sql id action now).1⟩ : RunStores).Agree E := by
  unfold MemoryRunStore.requestCancel RunRepository.requestCancel
  rcases h.cases id with ⟨hm, hs⟩ | ⟨run, row, hm, hs, hview⟩
  · rw [hm, hs]
    exact h
  · rw [hm, hs]
    dsimp only
    rw [view_status hview, view_cancelRequested hview]
    cases hinflight : row.status.inflight with
    | false => exact h
    | true =>
      cases hreq : row.cancelRequested with
      | true => exact h
      | false =>
        refine h.set id ?_ (h.org id run hm)
        simp only [StoredRun.view, RunView.mk.injEq] at hview ⊢
        tauto

theorem step (h : s.Agree E) {s' : RunStores} {a : RunStoreAct} (ha : a.Faithful E s)
    (hstep : (runStores E).step s a = some s') : s'.Agree E := by
  cases a with
  | put id a =>
    cases hstep
    exact h.put ha
  | updateStatus id status error expected now =>
    cases hstep
    exact h.updateStatus id status error expected now
  | updateRunCompletion id status r expected =>
    cases hstep
    exact h.updateRunCompletion ha
  | updateRunProgress id r =>
    cases hstep
    exact h.updateRunProgress id r
  | requestCancel id action now =>
    cases hstep
    exact h.requestCancel id action now

theorem fresh : ({} : RunStores).Agree E := ⟨fun _ => rfl, fun _ _ h => by cases h⟩

theorem get (h : s.Agree E) (id : String) (org : OrgArg) :
    (MemoryRunStore.get s.memory id org).map StoredRun.view
      = (RunRepository.get E s.sql id org).map StoredRun.view := by
  unfold MemoryRunStore.get RunRepository.get
  rcases h.cases id with ⟨hm, hs⟩ | ⟨run, row, hm, hs, hview⟩
  · rw [hm, hs]
    rfl
  · rw [hm, hs]
    have horg := h.org id run hm
    have horg' := (view_orgId hview).symm.trans horg
    cases org with
    | omitted => simp [MemoryRunStore.orgOf, RunRepository.resolveOrgId, horg', hview]
    | given o =>
      cases o with
      | none => simp [MemoryRunStore.orgOf, RunRepository.resolveOrgId, hview]
      | some o =>
        simp only [bind_some, MemoryRunStore.orgOf, RunRepository.resolveOrgId, horg, horg']
        split_ifs
        · rfl
        · exact congrArg some hview

end RunStores.Agree

end DeerFlow

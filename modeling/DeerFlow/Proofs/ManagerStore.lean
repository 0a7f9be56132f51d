import DeerFlow.ManagerStore
import DeerFlow.Data.Sorted

/-!
# What the manager's store limit and row versions leave out

`list_by_thread` asks the store for as many rows as the records in memory leave room for, though
these may be rows it already has. A row made anew starts at version 1, while the record keeps its
own.
-/

namespace DeerFlow

open List Option RunRepository ListedRun

section Listing

variable {τ : Type} [LinearOrder τ] {limit : ℕ} {rs ds : List (ListedRun τ)}

/-- `page` has the newest runs of `all` within the limit, newest first; of runs equally new any may
be left out. -/
structure IsNewest (limit : ℕ) (all page : List (ListedRun τ)) : Prop where
  sorted : page.Pairwise fun a b => b.createdAt ≤ a.createdAt
  nodup : page.Nodup
  subset : page ⊆ all
  length : page.length = min limit all.length
  newest : ∀ x ∈ all, x ∉ page → ∀ y ∈ page, x.createdAt ≤ y.createdAt

theorem newestFirst_perm (rs : List (ListedRun τ)) : (newestFirst rs).Perm rs :=
  perm_insertionSort _ rs

theorem newestFirst_sorted (rs : List (ListedRun τ)) :
    (newestFirst rs).Pairwise fun a b => b.createdAt ≤ a.createdAt := by
  have : Std.Total fun a b : ListedRun τ => b.createdAt ≤ a.createdAt :=
    ⟨fun a b => le_total b.createdAt a.createdAt⟩
  have : IsTrans (ListedRun τ) fun a b => b.createdAt ≤ a.createdAt :=
    ⟨fun _ _ _ hab hbc => hbc.trans hab⟩
  exact pairwise_insertionSort _ rs

theorem isNewest_take (h : rs.Nodup) : IsNewest limit rs ((newestFirst rs).take limit) where
  sorted := (newestFirst_sorted rs).sublist (take_sublist _ _)
  nodup := ((newestFirst_perm rs).nodup_iff.2 h).sublist (take_sublist _ _)
  subset x hx := (newestFirst_perm rs).mem_iff.1 (mem_of_mem_take hx)
  length := by rw [length_take, (newestFirst_perm rs).length_eq]
  newest x hx hout y hy := by
    have hsplit := newestFirst_sorted rs
    rw [← take_append_drop limit (newestFirst rs), pairwise_append] at hsplit
    have hx' := (newestFirst_perm rs).mem_iff.2 hx
    rw [← take_append_drop limit (newestFirst rs), mem_append] at hx'
    exact hsplit.2.2 y hy x (hx'.resolve_left hout)

theorem le_of_mem_take {x y : ListedRun τ}
    (h : limit ≤ rs.countP fun y => x.createdAt ≤ y.createdAt)
    (hy : y ∈ (newestFirst rs).take limit) : x.createdAt ≤ y.createdAt := by
  have hsplit : Splits (fun y => decide (x.createdAt ≤ y.createdAt)) (newestFirst rs) :=
    (newestFirst_sorted rs).imp fun {a b} hab hb => by
      rw [decide_eq_true_eq] at hb ⊢
      exact hb.trans hab
  rw [← (newestFirst_perm rs).countP_eq] at h
  have := hsplit.take_count ▸ take_subset_take_left _ h hy
  simpa using (mem_filter.1 this).2

/-- The page of some of the runs is that of all exactly if each missing run has enough runs as new
before it. -/
theorem isNewest_append_iff (h : (rs ++ ds).Nodup) :
    IsNewest limit (rs ++ ds) ((newestFirst rs).take limit)
      ↔ ∀ x ∈ ds, limit ≤ rs.countP fun y => x.createdAt ≤ y.createdAt := by
  obtain ⟨hrs, -, hdisj⟩ := nodup_append.1 h
  have hpage : IsNewest limit rs _ := isNewest_take hrs
  constructor
  · intro hall x hx
    have hout : x ∉ (newestFirst rs).take limit := fun hin => hdisj x (hpage.subset hin) x hx rfl
    have hlen : ((newestFirst rs).take limit).length = limit := by
      have hpos := length_pos_of_mem hx
      have h1 := hall.length
      rw [hpage.length, length_append] at h1
      rw [hpage.length]
      omega
    calc limit = ((newestFirst rs).take limit).countP fun y => x.createdAt ≤ y.createdAt := by
          rw [countP_eq_length.2 fun y hy => ?_, hlen]
          exact decide_eq_true (hall.newest x (mem_append_right _ hx) hout y hy)
      _ ≤ (newestFirst rs).countP fun y => x.createdAt ≤ y.createdAt := (take_sublist _ _).countP_le
      _ = rs.countP fun y => x.createdAt ≤ y.createdAt := (newestFirst_perm rs).countP_eq _
  · intro hmissing
    refine ⟨hpage.sorted, hpage.nodup, fun x hx => mem_append_left _ (hpage.subset hx), ?_,
      fun x hx hout y hy => ?_⟩
    · rw [hpage.length, length_append]
      cases ds with
      | nil => simp
      | cons x ds =>
        have := (hmissing x mem_cons_self).trans countP_le_length
        omega
    · rcases mem_append.1 hx with hx | hx
      · exact hpage.newest x hx hout y hy
      · exact le_of_mem_take (hmissing x hx) hy

omit [LinearOrder τ] in
theorem addRows_eq (rows : List (ListedRun τ)) : ∀ records : List (ListedRun τ),
    (rows.map runId).Nodup → (∀ r ∈ rows, r.runId ≠ "") → addRows records rows
      = records ++ rows.filter fun r => r.runId ∉ records.map runId := by
  induction rows with
  | nil => simp [addRows]
  | cons row rows ih =>
    intro records hids hnamed
    rw [map_cons, nodup_cons] at hids
    have hnamed' : ∀ r ∈ rows, r.runId ≠ "" := fun r hr => hnamed r (mem_cons_of_mem _ hr)
    by_cases hrow : row.runId ∈ records.map runId
    · rw [addRows, if_neg (fun h => h.2 hrow), ih records hids.2 hnamed',
        filter_cons_of_neg (by simpa using hrow)]
    · rw [addRows, if_pos ⟨hnamed row mem_cons_self, hrow⟩, ih _ hids.2 hnamed',
        filter_cons_of_pos (by simpa using hrow), append_assoc, singleton_append]
      congr 2
      refine filter_congr fun r hr => ?_
      have : r.runId ≠ row.runId := fun h => hids.1 (h ▸ mem_map_of_mem hr)
      simp [this]

namespace ThreadRuns

variable (t : ThreadRuns τ)

def unheld (rows : List (ListedRun τ)) : List (ListedRun τ) :=
  rows.filter fun r => r.runId ∉ t.memory.map runId

def all : List (ListedRun τ) := t.memory ++ t.unheld t.store

theorem all_nodup : t.all.Nodup := by
  refine nodup_append.2 ⟨t.memoryIds.of_map, t.storeIds.of_map.filter _, fun x hx y hy hxy => ?_⟩
  have := (mem_filter.1 hy).2
  rw [decide_eq_true_eq] at this
  exact this (hxy ▸ mem_map_of_mem hx)

theorem listByThread_eq (limit : ℕ) : t.listByThread true limit
    = (newestFirst (t.memory ++ t.unheld (t.store.take (limit - t.memory.length)))).take limit := by
  have hids : ((t.store.take (limit - t.memory.length)).map runId).Nodup :=
    t.storeIds.sublist ((take_sublist _ _).map _)
  have hnamed : ∀ r ∈ t.store.take (limit - t.memory.length), r.runId ≠ "" := fun r hr =>
    t.named r (mem_of_mem_take hr)
  simp only [listByThread, Bool.not_true, Bool.false_eq_true, if_false]
  rw [addRows_eq _ _ hids hnamed]
  rfl

end ThreadRuns

/-- `list_by_thread` answers the newest runs of memory and store exactly if, of the runs it fetched,
enough are as new as each run of the store that its query leaves out. -/
theorem list_by_thread_newest_iff (t : ThreadRuns τ) (limit : ℕ) :
    IsNewest limit t.all (t.listByThread true limit)
      ↔ ∀ x ∈ t.unheld (t.store.drop (limit - t.memory.length)), limit
        ≤ (t.memory ++ t.unheld (t.store.take (limit - t.memory.length))).countP
          fun y => x.createdAt ≤ y.createdAt := by
  have hall : t.all = t.memory ++ t.unheld (t.store.take (limit - t.memory.length))
      ++ t.unheld (t.store.drop (limit - t.memory.length)) := by
    rw [append_assoc, ThreadRuns.unheld, ThreadRuns.unheld, ← filter_append, take_append_drop]
    rfl
  rw [t.listByThread_eq, hall]
  exact isNewest_append_iff (hall ▸ t.all_nodup)

/-- One of three runs is in memory and in the store: a page of two has one run. -/
theorem list_by_thread_misses_rows :
    ∃ t : ThreadRuns ℕ, t.all.length = 3 ∧ (t.listByThread true 2).length = 1
      ∧ ¬ IsNewest 2 t.all (t.listByThread true 2) := by
  refine ⟨⟨[⟨"c", 3, false⟩], [⟨"c", 3, true⟩, ⟨"b", 2, true⟩, ⟨"a", 1, true⟩], by decide, by decide,
    by decide, by decide⟩, by decide, by decide, fun h => ?_⟩
  exact absurd h.length (by decide)

end Listing

section LostRow

variable {E : RunDbEngine} {runId : String} {s s' : KeptRun}

def StoredRun.Carries (row : StoredRun) (status : RunStatus) (r : RunReport) : Prop :=
  row.status = status ∧ (∀ c, (row.counters c).getD 0 = (r.counters c).getD 0)
    ∧ row.tokenUsageByModel.getD [] = r.tokenUsageByModel.getD []

/-- The versions of a row made anew are the record's, one more after a completion, or they never
meet. -/
def KeptRun.Recovered (runId : String) (s : KeptRun) : Prop :=
  ∀ v, s.recreatedAt = some v → ∃ row, s.rows.get? runId = some row ∧
    ((v = 1 ∧ row.rowVersion = s.record.rowVersion + s.landed ∧ s.landed ≤ 1)
    ∨ (v ≠ 1 ∧ row.rowVersion = 1 ∧ s.record.rowVersion = v ∧ s.landed = 0))

theorem updateStatus_cases (rows : RunTable) (status : RunStatus) (error : Option String) (v : Int)
    (now : String) :
    updateStatus rows runId status error (some v) now = (rows, false)
      ∧ (∀ row, rows.get? runId = some row → row.rowVersion ≠ v)
    ∨ ∃ row row', updateStatus rows runId status error (some v) now
        = (rows.set runId row', true)
      ∧ rows.get? runId = some row ∧ row.rowVersion = v ∧ row'.rowVersion = v + 1 := by
  unfold updateStatus whereVersion
  cases rows.get? runId with
  | none => simp
  | some row =>
    by_cases hv : row.rowVersion = v
    · subst hv
      simp only [bind_some, if_true, map_some]
      exact .inr ⟨row, _, rfl, rfl, rfl, rfl⟩
    · simp [hv]

theorem updateRunCompletion_cases (rows : RunTable) (status : RunStatus) (r : RunReport) (v : Int) :
    updateRunCompletion rows runId status r (some v) = (rows, false)
      ∧ (∀ row, rows.get? runId = some row → row.rowVersion ≠ v)
    ∨ ∃ row row', updateRunCompletion rows runId status r (some v)
        = (rows.set runId row', true)
      ∧ rows.get? runId = some row ∧ row.rowVersion = v ∧ row'.rowVersion = v + 1
      ∧ row'.Carries status r := by
  unfold updateRunCompletion whereVersion
  cases rows.get? runId with
  | none => simp
  | some row =>
    by_cases hv : row.rowVersion = v
    · subst hv
      simp only [bind_some, if_true, map_some]
      exact .inr ⟨row, _, rfl, rfl, rfl, rfl, rfl, fun _ => rfl, rfl⟩
    · simp [hv]

theorem put_cases {rows rows' : RunTable} {a : PutArgs}
    (h : put E rows runId a = some rows') : ∃ row', rows' = rows.set runId row' ∧
      ((rows.get? runId = none ∧ row'.rowVersion = 1)
      ∨ ∃ row, rows.get? runId = some row ∧ row'.rowVersion = row.rowVersion) := by
  unfold put at h
  cases hc : createdOf E a with
  | none => simp [hc] at h
  | some created =>
    cases hg : rows.get? runId with
    | none =>
      simp only [hc, hg] at h
      split_ifs at h
      exact ⟨_, (some.inj h).symm, .inl ⟨rfl, rfl⟩⟩
    | some row =>
      simp only [hc, hg] at h
      split_ifs at h
      exact ⟨_, (some.inj h).symm, .inr ⟨row, rfl, rfl⟩⟩

theorem KeptRun.Recovered.persistStatus (h : s.Recovered runId) (status : RunStatus)
    (error : Option String) (now : String) :
    (s.persistStatus E runId status error now).Recovered runId := by
  unfold KeptRun.persistStatus
  rcases updateStatus_cases s.rows status error s.record.rowVersion now with
    ⟨hupdate, -⟩ | ⟨row, row', hupdate, hrow, hv, hv'⟩
  · rw [hupdate]
    by_cases hget : (get E s.rows runId .omitted).isSome
    · rw [if_pos hget]
      exact h
    rw [if_neg hget]
    cases hput : put E s.rows runId { s.record.payload with now := now } with
    | none => exact h
    | some rows =>
      obtain ⟨row', rfl, ⟨hnone, hone⟩ | ⟨row, hrow, hsame⟩⟩ := put_cases hput
      · -- The row is made anew, under the version 1 whatever the record's is.
        simp only [hnone, isSome_none, Bool.false_eq_true, if_false]
        rintro v ⟨⟩
        refine ⟨row', by simp, ?_⟩
        by_cases hv : s.record.rowVersion = 1
        · exact .inl ⟨hv, by simp [hone, hv], Nat.zero_le _⟩
        · exact .inr ⟨hv, hone, rfl, rfl⟩
      · simp only [hrow, isSome_some, if_true]
        intro v hat
        obtain ⟨row0, hrow0, hversions⟩ := h v hat
        cases hrow.symm.trans hrow0
        exact ⟨row', by simp, hsame ▸ hversions⟩
  · rw [hupdate]
    intro v hat
    obtain ⟨row0, hrow0, hversions⟩ := h v hat
    cases hrow.symm.trans hrow0
    refine ⟨row', by simp, ?_⟩
    dsimp only
    omega

theorem KeptRun.Recovered.step (h : s.Recovered runId) {a : KeptRunAct}
    (hstep : (keptRun E runId).step s a = some s') : s'.Recovered runId := by
  cases a with
  | setStatus status error now =>
    cases hstep
    unfold KeptRun.setStatus
    split_ifs
    · refine KeptRun.Recovered.persistStatus ?_ status error now
      exact h
    · exact h
  | updateRunCompletion status r =>
    cases hstep
    unfold KeptRun.updateRunCompletion
    rcases updateRunCompletion_cases s.rows status r s.record.rowVersion with
      ⟨hupdate, -⟩ | ⟨row, row', hupdate, hrow, hv, hv', -⟩
    · rw [hupdate]
      exact h
    · rw [hupdate]
      intro v hat
      obtain ⟨row0, hrow0, hversions⟩ := h v hat
      cases hrow.symm.trans hrow0
      refine ⟨row', by simp, ?_⟩
      push_cast
      omega
  | rowLost =>
    cases hstep
    rintro v ⟨⟩

/-- In every run of the calls, a completion on a row that `set_status` made anew leaves the row with
its status and counts exactly if the record was at version 1 when the row was made and no completion
has gone through since, or the row has them already. -/
theorem completion_on_recreated_row_iff {as : List KeptRunAct} {s0 s : KeptRun}
    (hstart : s0.recreatedAt = none) (hrun : (keptRun E runId).run as s0 = some s) {v : Int}
    (hat : s.recreatedAt = some v) (status : RunStatus) (r : RunReport) :
    (∃ row, (s.updateRunCompletion runId status r).rows.get? runId = some row
      ∧ row.Carries status r)
    ↔ (v = 1 ∧ s.landed = 0) ∨ ∃ row, s.rows.get? runId = some row ∧ row.Carries status r := by
  have h : s.Recovered runId := Machine.run_inv (I := KeptRun.Recovered runId)
    (fun _ _ _ h _ hstep => h.step hstep) (fun v hv => by simp [hstart] at hv)
    (Machine.along_true as _) hrun
  obtain ⟨row0, hrow0, hversions⟩ := h v hat
  unfold KeptRun.updateRunCompletion
  rcases updateRunCompletion_cases s.rows status r s.record.rowVersion with
    ⟨hupdate, hmiss⟩ | ⟨row, row', hupdate, hrow, hv, -, hcarries⟩
  · rw [hupdate]
    have := hmiss row0 hrow0
    refine ⟨.inr, fun h => h.resolve_left fun hone => ?_⟩
    omega
  · rw [hupdate]
    cases hrow.symm.trans hrow0
    exact ⟨fun _ => .inl (by omega), fun _ => ⟨row', by simp, hcarries⟩⟩

/-- The row of a pending run is lost, made anew by the next status, and carries the counts after. -/
theorem completion_after_lost_row :
    ∃ s, (keptRun ⟨some, fun _ _ => true, "o", id⟩ "r").run [.rowLost, .setStatus .running none ""]
        ⟨⟨{ threadId := "t" }, 1⟩, .empty, none, 0⟩ = some s
      ∧ ∃ row, (s.updateRunCompletion "r" .success { counters := fun _ => some 7 }).rows.get? "r"
          = some row ∧ row.Carries .success { counters := fun _ => some 7 } := by
  have h := @completion_on_recreated_row_iff ⟨some, fun _ _ => true, "o", id⟩ "r"
    [.rowLost, .setStatus .running none ""] ⟨⟨{ threadId := "t" }, 1⟩, .empty, none, 0⟩ _ rfl rfl 1 rfl
    .success { counters := fun _ => some 7 }
  exact ⟨_, rfl, h.2 (.inl ⟨rfl, rfl⟩)⟩

/-- The row is lost while the run is running; the last status makes it anew at version 1, the record
is at version 2, and the counts are dropped. -/
theorem completion_dropped_after_lost_row : ∃ s, (keptRun ⟨some, fun _ _ => true, "o", id⟩ "r").run
        [.setStatus .pending none "", .setStatus .running none "", .rowLost,
          .setStatus .success none ""] ⟨⟨{ threadId := "t" }, 1⟩, .empty, none, 0⟩ = some s
      ∧ s.recreatedAt = some 2
      ∧ ∀ row, (s.updateRunCompletion "r" .success { counters := fun _ => some 7 }).rows.get? "r"
          = some row → ¬ row.Carries .success { counters := fun _ => some 7 } := by
  refine ⟨_, rfl, rfl, ?_⟩
  rintro row ⟨⟩ h
  exact absurd (h.2.1 .totalTokens) (by decide)

end LostRow

end DeerFlow

import DeerFlow.Proofs.AgentImport
import DeerFlow.Proofs.FrozenVersions
import DeerFlow.Proofs.ReleaseGate

/-!
# What a version keeps

No call of the release repository removes a version or moves it to another organisation or package,
and none changes the columns of a frozen one.
-/

namespace DeerFlow

variable {sha256 : String → String} {id : VersionId} {row row' : VersionRow}

structure VersionRow.KeptBy (row row' : VersionRow) : Prop where
  orgId : row'.orgId = row.orgId
  packageId : row'.packageId = row.packageId
  publishedAt : ∀ t, row.publishedAt = some t → row'.publishedAt = some t
  spares : row.Spares row'

theorem VersionRow.KeptBy.refl (row : VersionRow) : row.KeptBy row :=
  ⟨rfl, rfl, fun _ h => h, .refl row⟩

theorem VersionRow.KeptBy.trans {row'' : VersionRow} (h : row.KeptBy row') (h' : row'.KeptBy row'') :
    row.KeptBy row'' := by
  refine ⟨h'.orgId.trans h.orgId, h'.packageId.trans h.packageId,
    fun t ht => h'.publishedAt t (h.publishedAt t ht), fun hf => ?_⟩
  obtain ⟨hf', hcols⟩ := h.spares hf
  exact ⟨(h'.spares hf').1, (h'.spares hf').2.trans hcols⟩

theorem VersionStep.keeps {act : RepositoryAct} {r : Option VersionRow}
    (h : VersionStep sha256 id act (some row) r) : ∃ row', r = some row' ∧ row.KeptBy row' := by
  cases h with
  | same => exact ⟨row, rfl, .refl row⟩
  | updated _ orgId a refused hact hst =>
    refine ⟨_, rfl, ?_, row.updated_packageId orgId a, ?_, fun h => by rw [hst] at h; cases h⟩
    all_goals
      unfold VersionRow.updated
      split <;> simp [VersionRow.withContent]
  | transitioned _ orgId status now refused hact hst =>
    exact ⟨_, rfl, rfl, rfl, fun t ht => by simp [VersionRow.withStatus, ht],
      fun h => ⟨frozen_of_legal _ _ hst h, rfl⟩⟩

theorem versions_are_kept (sha256 : String → String) (id : VersionId) (row : VersionRow)
    (acts : List RepositoryAct) (db db' : ReleaseDb)
    (hrun : (repository sha256).run acts db = some db') (hrow : db.versions.get? id = some row) :
    ∃ row', db'.versions.get? id = some row' ∧ row'.orgId = row.orgId ∧
      row'.packageId = row.packageId ∧
      (∀ t, row.publishedAt = some t → row'.publishedAt = some t) ∧
      (row.status.frozen = true → row'.status.frozen = true ∧
        row'.frozenColumns = row.frozenColumns) := by
  have hstep : ∀ (s : ReleaseDb) (a : RepositoryAct) (s' : ReleaseDb),
      (∃ r, s.versions.get? id = some r ∧ row.KeptBy r) → True →
        (repository sha256).step s a = some s' →
      ∃ r, s'.versions.get? id = some r ∧ row.KeptBy r := by
    intro s a s' ⟨r, hr, hkeep⟩ _ hs
    obtain ⟨r', hr', h⟩ := (hr ▸ repository_step_version hs).keeps
    exact ⟨r', hr', hkeep.trans h⟩
  obtain ⟨row', hrow', h⟩ :=
    Machine.run_inv hstep ⟨row, hrow, .refl row⟩ (Machine.along_true _ _) hrun
  exact ⟨row', hrow', h.orgId, h.packageId, h.publishedAt, h.spares⟩

def stagedDb : ReleaseDb := ((repository fun s => s).run promoteToStaging (.fresh .inline)).getD
  (.fresh .inline)

theorem staged_version_is_kept : ∃ db row', (repository fun s => s).run
      [.setVersionStatus ⟨"a", clean_a⟩ "o" .revoked 1 false] stagedDb = some db ∧
    db.versions.get? ⟨"a", clean_a⟩ = some row' ∧ row'.packageId = "p" := by
  obtain ⟨row', hrow, -, hp, -⟩ := versions_are_kept (fun s => s) ⟨"a", clean_a⟩ _
    [.setVersionStatus ⟨"a", clean_a⟩ "o" .revoked 1 false] stagedDb _ rfl rfl
  exact ⟨_, row', rfl, hrow, hp⟩

end DeerFlow

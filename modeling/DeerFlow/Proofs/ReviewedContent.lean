import DeerFlow.Proofs.RepositorySteps

/-!
# What a review was about

A reviewed or published version has the manifest and digest it had when it was last reviewed, as
long as no update changes a reviewed version and none is published from draft. The repository
accepts both.
-/

namespace DeerFlow

open VersionRow

variable {sha256 : String → String} {id : VersionId}

/-- The manifest and digest at the last step that made the version `reviewed`. -/
def lastReview (before after : Option VersionRow) (seen : Option (String × String)) :
    Option (String × String) :=
  match after with
  | some row =>
    if row.status = .reviewed ∧ before.map status ≠ some .reviewed then
      some (row.manifest, row.digest)
    else seen
  | none => seen

def reviewHistory (sha256 : String → String) (id : VersionId) :
    Machine (ReleaseDb × Option (String × String)) RepositoryAct where
  step s act := ((repository sha256).step s.1 act).map fun db =>
    (db, lastReview (s.1.versions.get? id) (db.versions.get? id) s.2)

/-- An update of a reviewed version leaves its manifest and digest, and it is published from
`reviewed` only. -/
def RepositoryAct.KeepsReview (sha256 : String → String) (id : VersionId) (db : ReleaseDb) :
    RepositoryAct → Prop
  | .updateVersion k _ a _ => k = id → ∀ row ∈ db.versions.get? id, row.status = .reviewed →
    (∀ m ∈ a.manifest, m = row.manifest) ∧
      ∀ content ∈ a.content, computeArtifactDigest sha256 content = row.digest
  | .setVersionStatus k _ .published _ _ => k = id →
    ∀ row ∈ db.versions.get? id, row.status ≠ .draft
  | _ => True

instance (db : ReleaseDb) (act : RepositoryAct) : Decidable (act.KeepsReview sha256 id db) := by
  unfold RepositoryAct.KeepsReview
  split <;> infer_instance

def VersionRow.approved (row : VersionRow) : Bool := row.status ∈ [.reviewed, .published]

theorem VersionRow.updated_status (row : VersionRow) (orgId : String) (a : UpdateArgs) :
    (row.updated sha256 orgId id a).status = row.status := by
  unfold updated
  split <;> rfl

theorem VersionRow.updated_content {row : VersionRow} (orgId : String) (id : VersionId)
    {a : UpdateArgs}
    (hm : ∀ m ∈ a.manifest, m = row.manifest)
    (hc : ∀ content ∈ a.content, computeArtifactDigest sha256 content = row.digest) :
    (row.updated sha256 orgId id a).manifest = row.manifest ∧
      (row.updated sha256 orgId id a).digest = row.digest := by
  have hman : a.manifest.getD row.manifest = row.manifest := by
    cases h : a.manifest with
    | none => rfl
    | some m => exact hm m h
  unfold updated
  split
  · next content h => exact ⟨hman, hc content h⟩
  · exact ⟨hman, rfl⟩

def AsReviewed (r : Option VersionRow) (seen : Option (String × String)) : Prop :=
  ∀ row, r = some row → row.approved = true → seen = some (row.manifest, row.digest)

theorem AsReviewed.step {db : ReleaseDb} {act : RepositoryAct} {r' : Option VersionRow}
    {seen : Option (String × String)} (h : AsReviewed (db.versions.get? id) seen)
    (hact : act.KeepsReview sha256 id db)
    (hstep : VersionStep sha256 id act (db.versions.get? id) r') :
    AsReviewed r' (lastReview (db.versions.get? id) r' seen) := by
  intro row' hrow' happ
  generalize hr : db.versions.get? id = r at *
  cases hstep with
  | same r =>
    rw [hrow'] at h ⊢
    simpa [lastReview] using h row' rfl happ
  | created row hst =>
    cases hrow'
    simp [approved, hst] at happ
  | updated row orgId a refused ha hst =>
    cases hrow'
    subst ha
    rw [approved, updated_status] at happ
    have hrev : row.status = .reviewed := by
      revert happ hst
      cases row.status <;> decide
    obtain ⟨hm, hc⟩ := hact rfl row hr hrev
    obtain ⟨hman, hdig⟩ := updated_content orgId id hm hc
    simp [lastReview, hrev, hman, hdig, h row rfl (by simp [approved, hrev])]
  | transitioned row orgId status now refused ha hst =>
    cases hrow'
    subst ha
    cases status with
    | reviewed =>
      have hne : row.status ≠ .reviewed := by
        intro hrev
        rw [hrev] at hst
        revert hst
        decide
      simp [lastReview, withStatus, hne]
    | published =>
      have hrev : row.status = .reviewed := by
        have hdraft := hact rfl row hr
        revert hdraft hst
        cases row.status <;> decide
      simpa [lastReview, withStatus] using h row rfl (by simp [approved, hrev])
    | draft | revoked | archived => simp [approved, withStatus] at happ

theorem approved_version_is_as_reviewed (sha256 : String → String) (backend : ObjectBackend)
    (id : VersionId) (as : List RepositoryAct) (db : ReleaseDb) (seen : Option (String × String))
    (hok : (reviewHistory sha256 id).Along (fun s act => act.KeepsReview sha256 id s.1) as
      (.fresh backend, none))
    (hrun : (reviewHistory sha256 id).run as (.fresh backend, none) = some (db, seen)) :
    ∀ row, db.versions.get? id = some row → row.approved = true →
      seen = some (row.manifest, row.digest) := by
  refine Machine.run_inv (I := fun s => AsReviewed (s.1.versions.get? id) s.2) ?_
    (fun _ h => by cases h) hok hrun
  intro s act s' hI hact hs
  obtain ⟨db', hdb', rfl⟩ := Option.map_eq_some_iff.1 hs
  exact hI.step hact (repository_step_version hdb')

def reviewedVersion : VersionId := ⟨"a", clean_a⟩

def createAndReview : List RepositoryAct :=
  [.createPackage "p" ⟨"o", none, "agent", false⟩,
    .createVersion reviewedVersion ⟨"o", "p", "1.0.0", "m", "text", none, 65536⟩ false,
    .setVersionStatus reviewedVersion "o" .reviewed 0 false]

def publishReviewed : RepositoryAct := .setVersionStatus reviewedVersion "o" .published 1 false

theorem published_version_is_as_reviewed : ∃ db seen row,
    (reviewHistory (fun s => s) reviewedVersion).run (createAndReview ++ [publishReviewed])
      (.fresh .inline, none) = some (db, seen) ∧
    db.versions.get? reviewedVersion = some row ∧ row.status = .published ∧
      seen = some (row.manifest, row.digest) :=
  ⟨_, _, _, rfl, rfl, rfl, approved_version_is_as_reviewed (fun s => s) .inline reviewedVersion
    (createAndReview ++ [publishReviewed]) _ _ (by decide +kernel) rfl _ rfl rfl⟩

/-- The manifest changes after the review, and the version is published with it. -/
theorem changed_version_is_published : ∃ db row, (reviewHistory (fun s => s) reviewedVersion).run
      (createAndReview ++ [.updateVersion reviewedVersion "o" ⟨none, some "m'", none, 65536⟩ false,
        publishReviewed]) (.fresh .inline, none) = some (db, some ("m", "sha256:text")) ∧
    db.versions.get? reviewedVersion = some row ∧ row.status = .published ∧ row.manifest = "m'" :=
  ⟨_, _, rfl, rfl, rfl, rfl⟩

end DeerFlow

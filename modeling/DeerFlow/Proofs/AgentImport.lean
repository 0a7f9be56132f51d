import DeerFlow.Proofs.RepositorySteps
import DeerFlow.Release.Import

/-!
# What an import returns

A version is found by the digest of its content, and the name of the agent is no part of that.
An import returns the package of its name unless the version it finds is in another one.
-/

namespace DeerFlow

open ReleaseDb

theorem VersionRow.updated_packageId {sha256 : String → String} {id : VersionId} (row : VersionRow)
    (orgId : String) (a : UpdateArgs) : (row.updated sha256 orgId id a).packageId = row.packageId := by
  unfold VersionRow.updated
  split <;> rfl

namespace ReleaseDb

def digestNamed (db : ReleaseDb) (orgId digest name : String) : Bool :=
  (db.versionByDigest orgId digest).all fun e =>
    (db.getAgentPackage e.2.packageId orgId).all fun row => row.name = name

/-- The version is in the package, which has the name. -/
def Belongs (db : ReleaseDb) (versionId : VersionId) (packageId name : String) : Prop :=
  (∃ row, db.versions.get? versionId = some row ∧ row.packageId = packageId) ∧
    ∃ pkg, db.packages.get? packageId = some pkg ∧ pkg.name = name

variable {sha256 : String → String} {db db' : ReleaseDb} {a : ImportArgs} {d : AgentDefinition}
  {new : ImportFresh} {r : ImportReport}

theorem packageFor_ok {newId packageId : String} {package : PackageRow}
    (h : db.packageFor a newId = (db', .ok (packageId, package))) :
    package.name = a.name ∧ db'.packages.get? packageId = some package := by
  unfold packageFor at h
  split at h
  · next pkg hpkg =>
    cases h
    obtain ⟨hget, -, hname⟩ := db.packageByName_some hpkg
    exact ⟨hname, hget⟩
  · simp only [createAgentPackage] at h
    split_ifs at h
    · cases h
    · cases h
      exact ⟨rfl, by simp⟩

theorem getAgentPackage_eq {packageId orgId : String} {row : PackageRow}
    (h : db.getAgentPackage packageId orgId = some row) : db.packages.get? packageId = some row :=
  (Option.filter_eq_some_iff.1 h).1

theorem importAgent_cases (h : db.importAgent sha256 a d new = (db', .ok r)) :
    db'.Belongs r.versionId r.packageId r.package.name ∧ r.version.packageId = r.packageId ∧
      ((db.versionByDigest a.orgId (computeArtifactDigest sha256 d.projectManifest.canonical)
          = some (r.versionId, r.version) ∧
        db.getAgentPackage r.packageId a.orgId = some r.package ∧ db' = db) ∨
        (db.versionByDigest a.orgId (computeArtifactDigest sha256 d.projectManifest.canonical) = none ∧
          r.versionId = new.versionId ∧ r.package.name = a.name)) := by
  unfold importAgent at h
  dsimp only at h
  split_ifs at h
  · cases h
  · cases h
  split at h
  · next versionId version hfound =>
    split at h
    · next package hpkg =>
      cases h
      exact ⟨⟨⟨version, OrdDict.mem_entries_iff.1 (List.mem_of_find?_eq_some hfound), rfl⟩,
        package, getAgentPackage_eq hpkg, rfl⟩, rfl, .inl ⟨hfound, hpkg, rfl⟩⟩
    · cases h
  · next hnone =>
    split at h
    · cases h
    · next db1 packageId package hfor =>
      obtain ⟨hname, hpkg⟩ := packageFor_ok hfor
      simp only [createAgentVersion, flushVersion] at h
      split_ifs at h
      · cases h
        exact ⟨⟨⟨_, (OrdDict.get?_set _ _ _ _).trans (if_pos rfl), rfl⟩, package, hpkg, rfl⟩, rfl,
          .inr ⟨hnone, rfl, hname⟩⟩
      · cases h

theorem importAgent_named_iff (h : db.importAgent sha256 a d new = (db', .ok r)) :
    r.package.name = a.name ↔ db.digestNamed a.orgId
      (computeArtifactDigest sha256 d.projectManifest.canonical) a.name := by
  obtain ⟨-, hin, ⟨hfound, hpkg, -⟩ | ⟨hnone, -, hname⟩⟩ := importAgent_cases h
  · simp [digestNamed, hfound, hin, hpkg]
  · simp [digestNamed, hnone, hname]

theorem step_package {p : String} {pkg : PackageRow} {act : RepositoryAct}
    (hpkg : db.packages.get? p = some pkg) (hs : (repository sha256).step db act = some db') :
    ∃ pkg', db'.packages.get? p = some pkg' ∧ pkg'.name = pkg.name := by
  have hsame : db'.packages = db.packages →
      ∃ pkg', db'.packages.get? p = some pkg' ∧ pkg'.name = pkg.name :=
    fun h => ⟨pkg, by rw [h, hpkg], rfl⟩
  cases act with
  | createPackage id row =>
    simp only [repository] at hs
    split_ifs at hs with hnew
    cases hs
    unfold createAgentPackage
    split_ifs
    · exact ⟨pkg, hpkg, rfl⟩
    · have hne : id ≠ p := by
        rintro rfl
        exact hnew (by rw [hpkg]; rfl)
      exact ⟨pkg, by simp [hne, hpkg], rfl⟩
  | setPackageStatus id orgId archived =>
    cases hs
    unfold setPackageStatus
    split
    · exact ⟨pkg, hpkg, rfl⟩
    · next row hrow =>
      split_ifs
      · exact ⟨pkg, hpkg, rfl⟩
      · by_cases hid : id = p
        · subst hid
          rw [hpkg] at hrow
          cases hrow
          exact ⟨{ pkg with archived := archived }, by simp, rfl⟩
        · exact ⟨pkg, by simp [hid, hpkg], rfl⟩
  | createVersion k a refused =>
    simp only [repository] at hs
    split_ifs at hs
    cases hs
    exact hsame (flushVersion_packages _ _ _ _)
  | updateVersion k orgId a refused =>
    cases hs
    refine hsame ?_
    rcases db.updateAgentVersion_cases k orgId refused sha256 a with ⟨h, -⟩ | ⟨row, -, h⟩
    · rw [h]
    · rw [h, flushVersion_packages]
  | setVersionStatus k orgId status now refused =>
    cases hs
    refine hsame ?_
    rcases db.setVersionStatus_cases k orgId refused status now with h | ⟨row, -, h, -⟩ <;> rw [h]
  | move a channelId eventId refused =>
    cases hs
    exact hsame (db.moveChannel_frame a channelId eventId refused).2.2

theorem Belongs.step {v : VersionId} {p n : String} {act : RepositoryAct} (h : db.Belongs v p n)
    (hs : (repository sha256).step db act = some db') : db'.Belongs v p n := by
  obtain ⟨⟨row, hrow, hin⟩, pkg, hpkg, hname⟩ := h
  obtain ⟨pkg', hpkg', hname'⟩ := step_package hpkg hs
  refine ⟨?_, pkg', hpkg', hname'.trans hname⟩
  have hstep : VersionStep sha256 v act _ _ := repository_step_version hs
  generalize db'.versions.get? v = r' at hstep ⊢
  rw [hrow] at hstep
  cases hstep with
  | same => exact ⟨row, rfl, hin⟩
  | updated _ orgId a => exact ⟨_, rfl, (row.updated_packageId orgId a).trans hin⟩
  | transitioned => exact ⟨_, rfl, hin⟩

theorem Belongs.run {v : VersionId} {p n : String} {acts : List RepositoryAct}
    (h : db.Belongs v p n) (hrun : (repository sha256).run acts db = some db') :
    db'.Belongs v p n :=
  Machine.run_inv (I := fun db => db.Belongs v p n) (fun _ _ _ h _ hs => h.step hs) h
    (Machine.along_true acts db) hrun

theorem Belongs.name_eq {v : VersionId} {p p' n n' : String} (h : db.Belongs v p n)
    (h' : db.Belongs v p' n') : n = n' := by
  obtain ⟨⟨row, hrow, rfl⟩, pkg, hpkg, rfl⟩ := h
  obtain ⟨⟨row', hrow', rfl⟩, pkg', hpkg', rfl⟩ := h'
  cases hrow.symm.trans hrow'
  cases hpkg.symm.trans hpkg'
  rfl

end ReleaseDb

/-- An import returns a version of the package with the name of the agent exactly if the version
with the digest of its content, where there is one, is in that package. Two such imports of one
content under two names return two versions. -/
theorem imported_version_is_the_agents_iff (sha256 : String → String) (db db' : ReleaseDb)
    (a : ImportArgs) (d : AgentDefinition) (new : ImportFresh) (r : ImportReport)
    (h : db.importAgent sha256 a d new = (db', .ok r)) :
    ((r.package.name = a.name ∧ r.version.packageId = r.packageId) ↔
        db.digestNamed a.orgId (computeArtifactDigest sha256 d.projectManifest.canonical) a.name) ∧
      ∀ (acts : List RepositoryAct) (db1 db2 : ReleaseDb) (a' : ImportArgs) (new' : ImportFresh)
        (r' : ImportReport), (repository sha256).run acts db' = some db1 → a'.name ≠ a.name →
        db1.versions.get? new'.versionId = none →
        db1.importAgent sha256 a' d new' = (db2, .ok r') →
        db.digestNamed a.orgId (computeArtifactDigest sha256 d.projectManifest.canonical) a.name →
        db1.digestNamed a'.orgId (computeArtifactDigest sha256 d.projectManifest.canonical) a'.name →
        r'.versionId ≠ r.versionId := by
  obtain ⟨hbelongs, hin, -⟩ := importAgent_cases h
  have hiff := importAgent_named_iff h
  refine ⟨by rw [and_iff_left hin]; exact hiff, ?_⟩
  intro acts db1 db2 a' new' r' hrun hne hnew h' hok hok' heq
  have hkept := hbelongs.run hrun
  rw [hiff.2 hok] at hkept
  obtain ⟨hbelongs', -, ⟨-, -, rfl⟩ | ⟨-, hid, -⟩⟩ := importAgent_cases h'
  · rw [heq, (importAgent_named_iff h').2 hok'] at hbelongs'
    exact hne (hbelongs'.name_eq hkept)
  · obtain ⟨⟨row, hrow, -⟩, -⟩ := hkept
    rw [← heq, hid, hnew] at hrow
    cases hrow

def importUnder (name : String) : ImportArgs := ⟨"o", name, "1.0.0", none, 65536⟩

def freshRows (hex : String) (h : '/' ∉ hex.toList := by decide) : ImportFresh :=
  ⟨hex, ⟨hex, h⟩, "m", false⟩

def teaAgent : AgentDefinition := { model := some "m", skills := some ["tea"], soul := some "Brew." }

def firstImport : ReleaseDb × Except ImportError ImportReport :=
  (fresh .inline).importAgent (fun s => s) (importUnder "a") teaAgent (freshRows "1")

/-- The same files again, under `name`. -/
def secondImport (name : String) : ReleaseDb × Except ImportError ImportReport :=
  firstImport.1.importAgent (fun s => s) (importUnder name) teaAgent (freshRows "2")

theorem exists_report {x : ReleaseDb × Except ImportError ImportReport} {f : ImportReport → Bool}
    (h : x.2.toOption.any f = true) : ∃ r, x = (x.1, .ok r) ∧ f r = true := by
  obtain ⟨db, e | r⟩ := x
  · cases h
  · exact ⟨r, rfl, h⟩

/-- The agent's files are found by their digest when they are imported again. -/
theorem later_import_is_the_agents : ∃ r r', firstImport.2 = .ok r ∧ (secondImport "a").2 = .ok r' ∧
    r.imported = true ∧ r'.imported = false ∧ r.package.name = "a" ∧ r'.package.name = "a" ∧
    r'.version.packageId = r'.packageId := by
  obtain ⟨r, h, hnew⟩ := exists_report (x := firstImport) (f := (·.imported)) (by decide +kernel)
  obtain ⟨r', h', hold⟩ := exists_report (x := secondImport "a") (f := (!·.imported))
    (by decide +kernel)
  obtain ⟨hname, hin⟩ := (imported_version_is_the_agents_iff _ _ _ _ _ _ _ h').1.2 (by decide +kernel)
  exact ⟨r, r', congrArg Prod.snd h, congrArg Prod.snd h', hnew, by simpa using hold,
    ((imported_version_is_the_agents_iff _ _ _ _ _ _ _ h).1.2 rfl).1, hname, hin⟩

/-- The same files under another name are found in the package of the first. -/
theorem other_agent_gets_the_version : (firstImport.2.toOption.bind fun r =>
      (secondImport "b").2.toOption.map
        fun r' => (decide (r'.versionId = r.versionId), r'.package.name)) = some (true, "a") := by
  decide +kernel

end DeerFlow

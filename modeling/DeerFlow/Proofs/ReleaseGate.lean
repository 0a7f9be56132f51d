import DeerFlow.Proofs.RepositorySteps

/-!
# The version a new run is pinned to

A move checks its target against the gate of the channel. The target's status may change afterwards,
and the resolver asks again for prod only, so for the other channels the changes themselves have to
respect the gate.
-/

namespace DeerFlow

open Option

/-- A channel points at a version of its package and organisation, on dev and staging one with a
status it allows. -/
def ReleaseDb.Pointed (db : ReleaseDb) : Prop :=
  ∀ key ch id, db.channels.get? key = some ch → ch.currentVersionId = some id →
    ∃ row, db.versions.get? id = some row ∧ row.orgId = key.orgId ∧
      row.packageId = key.packageId ∧ (key.channel ≠ .prod → row.status ∈ key.channel.allowed)

/-- A version that a dev or staging channel points at is only given a status the channel allows. -/
def RepositoryAct.Mindful (db : ReleaseDb) : RepositoryAct → Prop
  | .setVersionStatus id _ status _ _ =>
    ∀ e ∈ db.channels.entries, e.2.currentVersionId = some id → e.1.channel ≠ .prod →
      status ∈ e.1.channel.allowed
  | _ => True

instance (db : ReleaseDb) (act : RepositoryAct) : Decidable (act.Mindful db) := by
  unfold RepositoryAct.Mindful
  split <;> infer_instance

namespace ReleaseDb.Pointed

variable {db : ReleaseDb} {id : VersionId} {row : VersionRow}

theorem setVersion (h : db.Pointed)
    (hrow : ∀ old, db.versions.get? id = some old →
      row.orgId = old.orgId ∧ row.packageId = old.packageId ∧
        ∀ key ch, db.channels.get? key = some ch → ch.currentVersionId = some id →
          key.channel ≠ .prod → row.status ∈ key.channel.allowed) :
    ReleaseDb.Pointed { db with versions := db.versions.set id row } := by
  intro key ch vid hch hvid
  obtain ⟨old, hold, horg, hpkg, hstatus⟩ := h key ch vid hch hvid
  rw [OrdDict.get?_set]
  by_cases hid : id = vid
  · subst hid
    obtain ⟨horg', hpkg', hstatus'⟩ := hrow old hold
    exact ⟨row, by simp, horg'.trans horg, hpkg'.trans hpkg, hstatus' key ch hch hvid⟩
  · rw [if_neg hid]
    exact ⟨old, hold, horg, hpkg, hstatus⟩

theorem flush (h : db.Pointed) (refused : Bool)
    (hrow : ∀ old, db.versions.get? id = some old →
      row.orgId = old.orgId ∧ row.packageId = old.packageId ∧
        ∀ key ch, db.channels.get? key = some ch → ch.currentVersionId = some id →
          key.channel ≠ .prod → row.status ∈ key.channel.allowed) :
    (db.flushVersion id row refused).1.Pointed := by
  rcases db.flushVersion_cases id row refused with ⟨h', -⟩ | ⟨h', -⟩
  · rw [h']
    exact h.setVersion hrow
  · rw [h']
    exact h

end ReleaseDb.Pointed

section Moves

variable {db : ReleaseDb} {a : MoveArgs}

theorem MoveArgs.checkTarget_ok {target : Option VersionRow} (h : a.checkTarget target = .ok ()) :
    ∃ row, target = some row ∧ row.orgId = a.orgId ∧ row.packageId = a.packageId ∧
      row.status ∈ a.channel.allowed := by
  unfold MoveArgs.checkTarget at h
  cases target with
  | none => cases h
  | some row =>
    dsimp only at h
    split_ifs at h with hown
    push Not at hown
    refine ⟨row, rfl, hown.1, hown.2, ?_⟩
    unfold assertGate at h
    split_ifs at h with hstatus
    exact hstatus

theorem ReleaseDb.Pointed.move (h : db.Pointed) (channelId eventId : String) (refused : Bool) :
    (db.moveChannel a channelId eventId refused).1.Pointed := by
  rcases db.moveChannel_cases a channelId eventId refused with hsame | ⟨row, ev, hmoved⟩
  · rw [hsame]
    exact h
  · obtain ⟨db1, ch, hget, hcheck, -, hrow, -, hdb⟩ := db.moved_ok a channelId eventId hmoved
    obtain ⟨target, htarget, horg, hpkg, hstatus⟩ := MoveArgs.checkTarget_ok hcheck
    intro key c vid hc hvid
    rw [(db.moveChannel_frame a channelId eventId refused).1]
    rw [hdb] at hc
    rw [OrdDict.get?_set] at hc
    split_ifs at hc with hkey
    · cases hc
      subst hkey hrow
      cases hvid
      exact ⟨target, htarget, horg, hpkg, fun _ => hstatus⟩
    · -- the channels of the other keys are those from before
      rcases db.getOrCreateChannel_ok channelId hget with ⟨rfl, -⟩ | ⟨rfl, -⟩
      · exact h key c vid hc hvid
      · dsimp only at hc
        rw [OrdDict.get?_set, if_neg hkey] at hc
        exact h key c vid hc hvid

end Moves

variable {sha256 : String → String} {db : ReleaseDb}

theorem pointed_step {act : RepositoryAct} {db' : ReleaseDb} (h : db.Pointed) (hact : act.Mindful db)
    (hs : (repository sha256).step db act = some db') : db'.Pointed := by
  cases act with
  | createPackage pid prow =>
    simp only [repository] at hs
    split_ifs at hs
    cases hs
    simpa [ReleaseDb.Pointed] using h
  | setPackageStatus pid orgId archived =>
    cases hs
    simpa [ReleaseDb.Pointed] using h
  | createVersion id a refused =>
    simp only [repository] at hs
    split_ifs at hs with hnew
    cases hs
    have h' : ReleaseDb.Pointed { db with store := a.upload id db.store } := h
    exact h'.flush refused fun old hold => absurd (isSome_of_eq_some hold) hnew
  | updateVersion id orgId a refused =>
    cases hs
    rcases db.updateAgentVersion_cases id orgId refused sha256 a with ⟨hs, -⟩ | ⟨row, hrow, hs⟩
    · rw [hs]
      exact h
    · rw [hs]
      have h' : ReleaseDb.Pointed { db with store := a.upload orgId id db.store } := h
      have hkeep : (row.updated sha256 orgId id a).orgId = row.orgId ∧
          (row.updated sha256 orgId id a).packageId = row.packageId ∧
          (row.updated sha256 orgId id a).status = row.status := by
        unfold VersionRow.updated
        split <;> exact ⟨rfl, rfl, rfl⟩
      refine h'.flush refused fun old hold => ?_
      have hsame : row = old := some.inj (hrow.1.symm.trans hold)
      refine ⟨hsame ▸ hkeep.1, hsame ▸ hkeep.2.1, fun key ch hch hvid hprod => ?_⟩
      obtain ⟨old', hold', -, -, hstatus⟩ := h key ch id hch hvid
      rw [hkeep.2.2, some.inj (hrow.1.symm.trans hold')]
      exact hstatus hprod
  | setVersionStatus id orgId status now refused =>
    cases hs
    rcases db.setVersionStatus_cases id orgId refused status now with hs | ⟨row, hrow, hs, -⟩
    · rw [hs]
      exact h
    · rw [hs]
      refine h.setVersion fun old hold => ?_
      rw [← some.inj (hrow.1.symm.trans hold)]
      exact ⟨rfl, rfl, fun key ch hch => hact (key, ch) (OrdDict.mem_entries_iff.2 hch)⟩
  | move a channelId eventId refused =>
    cases hs
    exact h.move channelId eventId refused

section Resolver

variable {orgId name : String} {ws : Option String} {channel : ReleaseChannel} {ref : ReleaseRef}

theorem resolve_ok (h : db.resolve sha256 orgId ws name channel = .ok ref) :
    ∃ pkg ch row, db.packages.get? ref.packageId = some pkg ∧ pkg.orgId = orgId ∧ pkg.name = name ∧
      db.channels.get? ⟨orgId, ws, ref.packageId, channel⟩ = some ch ∧
      ch.currentVersionId = some ref.versionId ∧ db.versions.get? ref.versionId = some row ∧
      ref.orgId = orgId ∧ ref.digest = row.digest ∧
      (channel = .prod → assertProdGate sha256 true row = .ok ()) := by
  unfold ReleaseDb.resolve at h
  split at h
  · cases h
  split at h
  · cases h
  next packageId pkg hpkg =>
  obtain ⟨hget, horg, hname⟩ := db.packageByName_some hpkg
  split at h
  · cases h
  next versionId hch =>
  obtain ⟨ch, hch, hcur⟩ := bind_eq_some_iff.1 hch
  split at h
  · cases h
  next row hrow =>
  split at h
  · cases h
  split at h
  · cases h
  next hgate =>
  cases h
  refine ⟨pkg, ch, row, hget, horg, hname, hch, hcur, hrow, rfl, rfl, fun hprod => ?_⟩
  rwa [if_pos hprod] at hgate

theorem assertProdGate_ok {row : VersionRow} (h : assertProdGate sha256 true row = .ok ()) :
    row.status = .published ∧ ∀ content, row.contentInline = some content →
      computeArtifactDigest sha256 content = row.digest := by
  unfold assertProdGate at h
  split_ifs at h with hrevoked hstatus
  refine ⟨not_not.1 hstatus, fun content hcontent => ?_⟩
  rw [hcontent] at h
  dsimp only at h
  split_ifs at h with hdigest
  simpa using hdigest

end Resolver

/-- A release that is resolved is a version of the package and organisation with a status its
channel allows, as long as no status change takes a version out of the statuses of a dev or staging
channel that points at it. -/
theorem resolved_version_is_allowed (sha256 : String → String) (backend : ObjectBackend)
    (acts : List RepositoryAct) (db : ReleaseDb)
    (hok : (repository sha256).Along (fun s a => a.Mindful s) acts (.fresh backend))
    (hrun : (repository sha256).run acts (.fresh backend) = some db)
    (orgId : String) (ws : Option String) (name : String) (channel : ReleaseChannel)
    (ref : ReleaseRef) (h : db.resolve sha256 orgId ws name channel = .ok ref) :
    ∃ pkg row, db.packages.get? ref.packageId = some pkg ∧ pkg.orgId = orgId ∧ pkg.name = name ∧
      db.versions.get? ref.versionId = some row ∧ row.orgId = orgId ∧
      row.packageId = ref.packageId ∧ row.status ∈ channel.allowed ∧
      row.status ≠ .revoked ∧ row.status ≠ .archived ∧
      (channel = .prod → ∀ content, row.contentInline = some content →
        computeArtifactDigest sha256 content = row.digest) := by
  have hfresh : (ReleaseDb.fresh backend).Pointed := nofun
  have hpointed : db.Pointed := Machine.run_inv (fun _ _ _ => pointed_step) hfresh hok hrun
  obtain ⟨pkg, ch, row, hpkg, horg, hname, hch, hcur, hrow, -, -, hprod⟩ := resolve_ok h
  obtain ⟨row', hrow', horg', hpkg', hstatus⟩ := hpointed _ ch ref.versionId hch hcur
  obtain rfl : row' = row := some.inj (hrow'.symm.trans hrow)
  have hallowed : row'.status ∈ channel.allowed := by
    by_cases hp : channel = .prod
    · subst hp
      rw [(assertProdGate_ok (hprod rfl)).1]
      decide
    · exact hstatus hp
  have hgate : ∀ (c : ReleaseChannel) (s : VersionStatus), s ∈ c.allowed →
      s ≠ .revoked ∧ s ≠ .archived := by
    intro c s
    cases c <;> cases s <;> decide
  exact ⟨pkg, row', hpkg, horg, hname, hrow, horg', hpkg', hallowed, (hgate _ _ hallowed).1,
    (hgate _ _ hallowed).2, fun hp => (assertProdGate_ok (hprod hp)).2⟩

def promoteToStaging : List RepositoryAct :=
  [.createPackage "p" ⟨"o", none, "agent", false⟩,
    .createVersion ⟨"a", clean_a⟩ ⟨"o", "p", "1.0.0", "", "text", none, 65536⟩ false,
    .setVersionStatus ⟨"a", clean_a⟩ "o" .reviewed 0 false,
    .move ⟨"o", "p", .staging, ⟨"a", clean_a⟩, 1, .promote, none, some "user", none, none⟩
      "c" "e" false]

def stagingRef : ReleaseRef :=
  ⟨"o", none, "p", ⟨"a", clean_a⟩, "agent", "1.0.0", "sha256:text", .staging⟩

theorem promoted_version_is_reviewed :
    ∃ db row, (repository fun s => s).run promoteToStaging (.fresh .inline) = some db ∧
      db.versions.get? stagingRef.versionId = some row ∧
      row.status ∈ ReleaseChannel.staging.allowed := by
  obtain ⟨pkg, row, -, -, -, hrow, -, -, hstatus, -⟩ :=
    resolved_version_is_allowed (fun s => s) .inline promoteToStaging _ (by decide +kernel) rfl "o"
      none "agent" .staging stagingRef (by decide +kernel)
  exact ⟨_, row, rfl, hrow, hstatus⟩

/-- The version is revoked afterwards, and staging resolves it all the same. -/
theorem revoked_version_resolves_on_staging : ∃ db row, (repository fun s => s).run
        (promoteToStaging ++ [.setVersionStatus ⟨"a", by decide⟩ "o" .revoked 1 false])
        (.fresh .inline) = some db ∧
      db.resolve (fun s => s) "o" none "agent" .staging = .ok stagingRef ∧
      db.versions.get? stagingRef.versionId = some row ∧ row.status = .revoked := by
  refine ⟨_, _, rfl, ?_, rfl, rfl⟩
  decide +kernel

end DeerFlow

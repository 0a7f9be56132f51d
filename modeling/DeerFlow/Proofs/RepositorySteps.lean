import DeerFlow.Release.Repository

/-!
# What the calls of the release repository change

For each call the tables it leaves alone, and for those that write a version or a channel what they
write and what they have checked before.
-/

namespace DeerFlow.ReleaseDb

variable (db : ReleaseDb)

section Packages

variable (id orgId : String) (row : PackageRow) (archived : Bool)

@[simp] theorem createAgentPackage_versions :
    (db.createAgentPackage id row).1.versions = db.versions := by
  unfold createAgentPackage
  split <;> rfl

@[simp] theorem createAgentPackage_channels :
    (db.createAgentPackage id row).1.channels = db.channels := by
  unfold createAgentPackage
  split <;> rfl

@[simp] theorem createAgentPackage_store : (db.createAgentPackage id row).1.store = db.store := by
  unfold createAgentPackage
  split <;> rfl

@[simp] theorem setPackageStatus_versions :
    (db.setPackageStatus id orgId archived).1.versions = db.versions := by
  unfold setPackageStatus
  split
  · rfl
  · split <;> rfl

@[simp] theorem setPackageStatus_channels :
    (db.setPackageStatus id orgId archived).1.channels = db.channels := by
  unfold setPackageStatus
  split
  · rfl
  · split <;> rfl

@[simp] theorem setPackageStatus_store :
    (db.setPackageStatus id orgId archived).1.store = db.store := by
  unfold setPackageStatus
  split
  · rfl
  · split <;> rfl

variable {orgId} in
theorem packageByName_some {name : String} {p : String × PackageRow}
    (h : db.packageByName orgId name = some p) :
    db.packages.get? p.1 = some p.2 ∧ p.2.orgId = orgId ∧ p.2.name = name := by
  have hmem := List.mem_of_find?_eq_some h
  have hp := List.find?_some h
  rw [Bool.and_eq_true, decide_eq_true_eq, decide_eq_true_eq] at hp
  exact ⟨OrdDict.mem_entries_iff.1 hmem, hp.1, hp.2⟩

end Packages

section Versions

variable (id : VersionId) (orgId : String) (row : VersionRow) (refused : Bool)

theorem flushVersion_cases :
    ((db.flushVersion id row refused).1 = { db with versions := db.versions.set id row } ∧
        (db.accepts id row && !refused)) ∨
      ((db.flushVersion id row refused).1 = db ∧ (db.accepts id row && !refused) = false) := by
  unfold flushVersion
  split_ifs with h
  · exact .inl ⟨rfl, h⟩
  · exact .inr ⟨rfl, by simpa using h⟩

@[simp] theorem flushVersion_packages :
    (db.flushVersion id row refused).1.packages = db.packages := by
  unfold flushVersion
  split <;> rfl

def Updates (row : VersionRow) : Prop :=
  db.versions.get? id = some row ∧ row.orgId = orgId ∧ row.status.frozen = false

theorem updateAgentVersion_cases (sha256 : String → String) (a : UpdateArgs) :
    ((db.updateAgentVersion sha256 id orgId a refused).1 = db ∧ ∀ row, ¬ db.Updates id orgId row) ∨
      ∃ row, db.Updates id orgId row ∧ (db.updateAgentVersion sha256 id orgId a refused).1
          = (flushVersion { db with store := a.upload orgId id db.store } id
              (row.updated sha256 orgId id a) refused).1 := by
  unfold updateAgentVersion
  cases hrow : db.versions.get? id with
  | none => exact .inl ⟨rfl, fun row h => by rw [h.1] at hrow; cases hrow⟩
  | some row =>
    have honly : ∀ row', db.Updates id orgId row' → row' = row := fun row' h => by
      rw [h.1] at hrow
      exact Option.some.inj hrow
    dsimp only
    split_ifs with horg hfrozen
    · exact .inl ⟨rfl, fun row' h => horg (honly row' h ▸ h.2.1)⟩
    · refine .inl ⟨rfl, fun row' h => ?_⟩
      have := h.2.2
      rw [honly row' h, hfrozen] at this
      cases this
    · exact .inr ⟨row, ⟨hrow, not_not.1 horg, by simpa using hfrozen⟩, rfl⟩

def Transitions (status : VersionStatus) (row : VersionRow) : Prop :=
  db.versions.get? id = some row ∧ row.orgId = orgId ∧ status ∈ row.status.legalTransitions

theorem setVersionStatus_cases (status : VersionStatus) (now : ℕ) :
    (db.setVersionStatus id orgId status now refused).1 = db ∨
      ∃ row, db.Transitions id orgId status row ∧
        (db.setVersionStatus id orgId status now refused).1
          = { db with versions := db.versions.set id (row.withStatus status now) } ∧
        db.accepts id (row.withStatus status now) := by
  unfold setVersionStatus
  cases hrow : db.versions.get? id with
  | none => exact .inl rfl
  | some row =>
    dsimp only
    split_ifs with horg hlegal
    · exact .inl rfl
    · rcases db.flushVersion_cases id (row.withStatus status now) refused with ⟨h, hacc⟩ | ⟨h, -⟩
      · rw [Bool.and_eq_true] at hacc
        exact .inr ⟨row, ⟨hrow, not_not.1 horg, hlegal⟩, h, hacc.1⟩
      · exact .inl h
    · exact .inl rfl

end Versions

section Channels

variable (a : MoveArgs) (channelId eventId : String) (refused : Bool)

theorem getOrCreateChannel_ok {key : ChannelKey} {db' : ReleaseDb} {row : ChannelRow}
    (h : db.getOrCreateChannel key channelId = .ok (db', row)) :
    (db' = db ∧ db.channels.get? key = some row) ∨
      (db' = { db with channels := db.channels.set key row } ∧ row = ⟨channelId, none, 1, none⟩ ∧
        db.channels.get? key = none) := by
  unfold getOrCreateChannel at h
  split at h
  · cases h
  cases hrow : db.channels.get? key with
  | some r =>
    simp only [hrow] at h
    cases h
    exact .inl ⟨rfl, rfl⟩
  | none =>
    simp only [hrow] at h
    split_ifs at h
    cases h
    exact .inr ⟨rfl, rfl, rfl⟩

theorem moved_ok {db' : ReleaseDb} {row : ChannelRow} {ev : ReleaseEvent}
    (h : db.moved a channelId eventId = .ok (db', row, ev)) :
    ∃ db1 ch, db.getOrCreateChannel a.key channelId = .ok (db1, ch) ∧
      a.checkTarget (db.versions.get? a.targetVersionId) = .ok () ∧
      (ch.rowVersion : ℤ) = a.expectedChannelVersion ∧ row = ch.moved a ∧
      ev = a.event eventId ch.id ch.currentVersionId ∧
      db' = { db1 with channels := db1.channels.set a.key row, events := db1.events ++ [ev] } := by
  unfold moved at h
  cases hget : db.getOrCreateChannel a.key channelId with
  | error e => rw [hget] at h; cases h
  | ok p =>
    obtain ⟨db1, ch⟩ := p
    have hversions : db1.versions = db.versions := by
      rcases db.getOrCreateChannel_ok channelId hget with ⟨rfl, -⟩ | ⟨rfl, -⟩ <;> rfl
    rw [hget] at h
    change (a.checkTarget (db1.versions.get? a.targetVersionId) >>= _) = _ at h
    rw [← hversions]
    cases hcheck : a.checkTarget (db1.versions.get? a.targetVersionId) with
    | error e => rw [hcheck] at h; cases h
    | ok u =>
      rw [hcheck] at h
      unfold casUpdateChannel at h
      split_ifs at h with hcas
      · cases h
        exact ⟨db1, ch, rfl, rfl, hcas, rfl, rfl, rfl⟩
      · cases h

theorem moveChannel_cases : (db.moveChannel a channelId eventId refused).1 = db ∨
      ∃ row ev, db.moved a channelId eventId = .ok ((db.moveChannel a channelId eventId refused).1,
        row, ev) := by
  unfold moveChannel
  cases h : db.moved a channelId eventId with
  | error e => exact .inl rfl
  | ok p =>
    obtain ⟨db', row, ev⟩ := p
    split_ifs
    · exact .inl rfl
    · exact .inr ⟨row, ev, rfl⟩

theorem moveChannel_frame : (db.moveChannel a channelId eventId refused).1.versions = db.versions ∧
      (db.moveChannel a channelId eventId refused).1.store = db.store ∧
      (db.moveChannel a channelId eventId refused).1.packages = db.packages := by
  rcases db.moveChannel_cases a channelId eventId refused with h | ⟨row, ev, h⟩
  · rw [h]
    exact ⟨rfl, rfl, rfl⟩
  · obtain ⟨db1, ch, hget, -, -, -, -, hdb⟩ := db.moved_ok a channelId eventId h
    rw [hdb]
    rcases db.getOrCreateChannel_ok channelId hget with ⟨rfl, -⟩ | ⟨rfl, -⟩ <;>
      exact ⟨rfl, rfl, rfl⟩

end Channels

end DeerFlow.ReleaseDb

namespace DeerFlow

section VersionRows

variable {sha256 : String → String} {id : VersionId}

/-- What a call does to the row of one version. -/
inductive VersionStep (sha256 : String → String) (id : VersionId) (act : RepositoryAct) :
    Option VersionRow → Option VersionRow → Prop
  | same (r : Option VersionRow) : VersionStep sha256 id act r r
  | created (row : VersionRow) (h : row.status = .draft) : VersionStep sha256 id act none (some row)
  | updated (row : VersionRow) (orgId : String) (a : UpdateArgs) (refused : Bool)
      (hact : act = .updateVersion id orgId a refused) (hst : row.status.frozen = false) :
      VersionStep sha256 id act (some row) (some (row.updated sha256 orgId id a))
  | transitioned (row : VersionRow) (orgId : String) (status : VersionStatus) (now : ℕ)
      (refused : Bool) (hact : act = .setVersionStatus id orgId status now refused)
      (hst : status ∈ row.status.legalTransitions) :
      VersionStep sha256 id act (some row) (some (row.withStatus status now))

variable {act : RepositoryAct}

theorem VersionStep.of_eq {r r' : Option VersionRow} (h : r' = r) :
    VersionStep sha256 id act r r' := by
  subst h
  exact .same r'

theorem VersionStep.flush {db : ReleaseDb} {k : VersionId} {row : VersionRow}
    {refused : Bool} {r : Option VersionRow} (hsame : db.versions.get? id = r)
    (hset : k = id → VersionStep sha256 id act r (some row)) :
    VersionStep sha256 id act r ((db.flushVersion k row refused).1.versions.get? id) := by
  rcases db.flushVersion_cases k row refused with ⟨h, -⟩ | ⟨h, -⟩
  · rw [h, OrdDict.get?_set]
    split_ifs with hk
    · exact hset hk
    · exact .of_eq hsame
  · rw [h]
    exact .of_eq hsame

theorem repository_step_version {db db' : ReleaseDb}
    (hs : (repository sha256).step db act = some db') :
    VersionStep sha256 id act (db.versions.get? id) (db'.versions.get? id) := by
  cases act with
  | createPackage pid prow =>
    simp only [repository] at hs
    split_ifs at hs
    cases hs
    exact .of_eq (by simp)
  | setPackageStatus pid orgId archived =>
    cases hs
    exact .of_eq (by simp)
  | createVersion k a refused =>
    simp only [repository] at hs
    split_ifs at hs with hnew
    cases hs
    refine .flush rfl fun hk => ?_
    rw [← hk, Option.not_isSome_iff_eq_none.1 hnew]
    exact .created _ rfl
  | updateVersion k orgId a refused =>
    cases hs
    rcases db.updateAgentVersion_cases k orgId refused sha256 a with ⟨h, -⟩ | ⟨row, hrow, h⟩
    · exact .of_eq (by rw [h])
    · rw [h]
      refine .flush rfl fun hk => ?_
      subst hk
      rw [hrow.1]
      exact .updated row orgId a refused rfl hrow.2.2
  | setVersionStatus k orgId status now refused =>
    cases hs
    rcases db.setVersionStatus_cases k orgId refused status now with h | ⟨row, hrow, h, -⟩
    · exact .of_eq (by rw [h])
    · rw [h, OrdDict.get?_set]
      split_ifs with hk
      · subst hk
        rw [hrow.1]
        exact .transitioned row orgId status now refused rfl hrow.2.2
      · exact .same _
  | move a channelId eventId refused =>
    cases hs
    exact .of_eq (by rw [(db.moveChannel_frame a channelId eventId refused).1])

end VersionRows

end DeerFlow

import DeerFlow.Data.Separated
import DeerFlow.Proofs.RepositorySteps

/-!
# The bytes behind a digest

What a reader gets of a version has the recorded digest in every state, exactly along the calls that
upload with care: the object store is not part of the transaction, and the default store keeps
nothing.
-/

namespace DeerFlow

open Option VersionRow ObjectStore

theorem versionId_of_objectKey {org org' : String} {ws ws' : Option String} {id id' : VersionId}
    (h : computeObjectKey org ws id = computeObjectKey org' ws' id') : id = id' := by
  have hkey : ∀ (o : String) (w : Option String) (i : VersionId), (computeObjectKey o w i).toList
        = ("org/" ++ o ++ "/workspace/" ++ workspaceSegment w ++ "/agent-version").toList
          ++ '/' :: i.hex.toList ++ "/artifact".toList := by
    intro o w i
    simp [computeObjectKey]
  have hlist := congrArg String.toList h
  rw [hkey, hkey] at hlist
  have hhex := Separated.eq_of_append_sep (List.append_cancel_right hlist) id.clean id'.clean
  obtain ⟨x, hx⟩ := id
  obtain ⟨y, hy⟩ := id'
  have hxy : x = y := String.toList_inj.1 hhex
  subst hxy
  rfl

section Store

variable {st : ObjectStore} {key key' content : String} {row : VersionRow}

theorem ObjectStore.get?_put_of_ne (h : key' ≠ key) : (st.put key content).get? key' = st.get? key' := by
  obtain ⟨backend, objects⟩ := st
  cases backend with
  | inline => rfl
  | s3 => exact Function.update_of_ne h _ _

theorem ObjectStore.get?_put_self :
    (st.put key content).get? key = some (if st.backend = .s3 then content else "") := by
  obtain ⟨backend, objects⟩ := st
  cases backend with
  | inline => rfl
  | s3 => exact Function.update_self _ _ _

theorem VersionRow.retrieve_put_of_ne (h : row.objectKey ≠ some key) :
    row.retrieve (st.put key content) = row.retrieve st := by
  unfold retrieve
  split
  · rfl
  · cases hkey : row.objectKey with
    | none => rfl
    | some k =>
      rw [hkey] at h
      exact get?_put_of_ne fun hk => h (congrArg some hk)

end Store

section Intact

variable (sha256 : String → String)

def VersionRow.Intact (st : ObjectStore) (row : VersionRow) : Prop :=
  ∃ content, row.retrieve st = some content ∧ computeArtifactDigest sha256 content = row.digest

def ReleaseDb.Intact (db : ReleaseDb) : Prop :=
  ∀ id row, db.versions.get? id = some row → row.Intact sha256 db.store

def VersionRow.Filed (id : VersionId) (row : VersionRow) : Prop :=
  row.contentExclusive = true ∧
    ∀ key, row.objectKey = some key → ∃ org ws, key = computeObjectKey org ws id

def ReleaseDb.Filed (db : ReleaseDb) : Prop :=
  ∀ id row, db.versions.get? id = some row → row.Filed id

structure VersionRow.Routed (row : VersionRow) (threshold : ℕ) (key content : String) : Prop where
  inline : row.contentInline = (routeContent threshold key content).1
  object : row.objectKey = (routeContent threshold key content).2
  digest : row.digest = computeArtifactDigest sha256 content

/-- Uploaded content cannot belie a digest: the bytes are in the row, or in a store that keeps them;
where the row was refused they replaced none that it refers to. -/
def ReleaseDb.UploadSafe (db : ReleaseDb) (id : VersionId) (threshold : ℕ) (key content : String)
    (accepted : Bool) : Prop :=
  fitsInline threshold content = false →
    if accepted then
      db.store.backend = .s3 ∨
        computeArtifactDigest sha256 "" = computeArtifactDigest sha256 content
    else db.store.backend = .s3 → ∀ row, db.versions.get? id = some row →
      row.objectKey = some key → computeArtifactDigest sha256 content = row.digest

def RepositoryAct.Careful (db : ReleaseDb) : RepositoryAct → Prop
  | .createVersion id a refused =>
    db.UploadSafe sha256 id a.threshold (computeObjectKey a.orgId a.workspaceId id) a.content
      (db.accepts id (a.row sha256 id) && !refused)
  | .updateVersion id orgId a refused =>
    ∀ row content, db.Updates id orgId row → a.content = some content →
      db.UploadSafe sha256 id a.threshold (computeObjectKey orgId none id) content
        (db.accepts id (row.updated sha256 orgId id a) && !refused)
  | _ => True

variable {sha256} {db : ReleaseDb} {id : VersionId} {row : VersionRow} {st : ObjectStore}
  {threshold : ℕ} {key content : String}

theorem VersionRow.intact_congr {row' : VersionRow} (hin : row'.contentInline = row.contentInline)
    (hkey : row'.objectKey = row.objectKey) (hdig : row'.digest = row.digest) :
    row'.Intact sha256 st ↔ row.Intact sha256 st := by
  unfold VersionRow.Intact retrieve
  rw [hin, hkey, hdig]

theorem VersionRow.Filed.intact_put {org : String} {ws : Option String} {id' : VersionId}
    (hfiled : row.Filed id') (hne : id' ≠ id) :
    row.Intact sha256 (st.put (computeObjectKey org ws id) content) ↔ row.Intact sha256 st := by
  unfold VersionRow.Intact
  rw [retrieve_put_of_ne]
  intro hkey
  obtain ⟨org', ws', h⟩ := hfiled.2 _ hkey
  exact hne (versionId_of_objectKey h).symm

theorem VersionRow.Routed.intact (h : row.Routed sha256 threshold key content) :
    row.Intact sha256 (st.keep threshold key content) ↔ (fitsInline threshold content = false →
        st.backend = .s3 ∨
          computeArtifactDigest sha256 "" = computeArtifactDigest sha256 content) := by
  unfold VersionRow.Intact retrieve
  rw [h.inline, h.object, h.digest]
  unfold routeContent keep
  cases hfits : fitsInline threshold content with
  | true => simp
  | false =>
    simp only [Bool.false_eq_true, if_false, bind_some, get?_put_self,
      some.injEq, exists_eq_left', forall_const]
    by_cases hs : st.backend = .s3
    · simp [hs]
    · simp [hs]

theorem VersionRow.Filed.intact_refused (hfiled : row.Filed id) (hintact : row.Intact sha256 st) :
    row.Intact sha256 (st.keep threshold key content) ↔
      (fitsInline threshold content = false → st.backend = .s3 → row.objectKey = some key →
        computeArtifactDigest sha256 content = row.digest) := by
  unfold keep
  cases hfits : fitsInline threshold content with
  | true => simpa using hintact
  | false =>
    by_cases hkey : row.objectKey = some key
    · have hin : row.contentInline = none := by
        have h := hfiled.1
        unfold contentExclusive at h
        cases hc : row.contentInline with
        | none => rfl
        | some c => rw [hc, hkey] at h; cases h
      unfold VersionRow.Intact retrieve
      simp only [hin, hkey, Bool.false_eq_true, if_false, bind_some,
        get?_put_self, some.injEq, exists_eq_left', forall_const]
      by_cases hs : st.backend = .s3
      · simp [hs]
      · -- the store without bytes answers as before
        obtain ⟨c, hc, hd⟩ := hintact
        rw [retrieve, hin, hkey] at hc
        have hempty : st.get? key = some "" := by
          obtain ⟨backend, objects⟩ := st
          cases backend with
          | inline => rfl
          | s3 => exact absurd rfl hs
        rw [bind_some, hempty] at hc
        cases hc
        simp [hs, hd]
    · simp only [Bool.false_eq_true, if_false, hkey, false_implies, implies_true, iff_true]
      unfold VersionRow.Intact
      rw [retrieve_put_of_ne hkey]
      exact hintact

theorem ReleaseDb.intact_others (hF : db.Filed) (hI : db.Intact sha256) (org : String)
    (ws : Option String) {id' : VersionId} (hne : id' ≠ id) (hrow : db.versions.get? id' = some row) :
    row.Intact sha256 (db.store.keep threshold (computeObjectKey org ws id) content) := by
  unfold keep
  split_ifs
  · exact hI id' row hrow
  · exact ((hF id' row hrow).intact_put hne).2 (hI id' row hrow)

theorem ReleaseDb.intact_flush (hF : db.Filed) (hI : db.Intact sha256) (org : String)
    (ws : Option String)
    (hrow : row.Routed sha256 threshold (computeObjectKey org ws id) content) (refused : Bool) :
    (flushVersion { db with store := db.store.keep threshold (computeObjectKey org ws id) content }
        id row refused).1.Intact sha256 ↔
      db.UploadSafe sha256 id threshold (computeObjectKey org ws id) content
        (db.accepts id row && !refused) := by
  set db1 : ReleaseDb :=
    { db with store := db.store.keep threshold (computeObjectKey org ws id) content } with hdb1
  have hacc : db1.accepts id row = db.accepts id row := rfl
  unfold UploadSafe
  rcases db1.flushVersion_cases id row refused with ⟨h, hok⟩ | ⟨h, hok⟩
  · rw [h, ← hacc, hok, if_pos rfl, ← hrow.intact]
    constructor
    · intro hall
      exact hall id row (by simp)
    · intro hself id' row' hrow'
      rw [OrdDict.get?_set] at hrow'
      split_ifs at hrow' with hid
      · cases hrow'
        exact hself
      · exact db.intact_others hF hI org ws (Ne.symm hid) hrow'
  · rw [h, ← hacc, hok]
    simp only [Bool.false_eq_true, if_false]
    constructor
    · intro hall hfits hs row' hrow' hkey
      exact ((hF id row' hrow').intact_refused (hI id row' hrow')).1 (hall id row' hrow') hfits hs
        hkey
    · intro hsafe id' row' hrow'
      by_cases hid : id' = id
      · subst hid
        exact ((hF id' row' hrow').intact_refused (hI id' row' hrow')).2
          fun hfits hs => hsafe hfits hs row' hrow'
      · exact db.intact_others hF hI org ws hid hrow'

theorem ReleaseDb.intact_set {row' : VersionRow} (hI : db.Intact sha256)
    (hrow : db.versions.get? id = some row) (hin : row'.contentInline = row.contentInline)
    (hkey : row'.objectKey = row.objectKey) (hdig : row'.digest = row.digest) :
    ReleaseDb.Intact sha256 { db with versions := db.versions.set id row' } := by
  intro id' r hr
  rw [OrdDict.get?_set] at hr
  split_ifs at hr with hid
  · cases hr
    exact (intact_congr hin hkey hdig).2 (hI id row hrow)
  · exact hI id' r hr

theorem VersionRow.updated_routed {orgId : String} {a : UpdateArgs} (h : a.content = some content) :
    (row.updated sha256 orgId id a).Routed sha256 a.threshold (computeObjectKey orgId none id)
      content := by
  simp only [updated, h]
  exact ⟨rfl, rfl, rfl⟩

theorem UpdateArgs.upload_some {orgId : String} {a : UpdateArgs} (h : a.content = some content) :
    a.upload orgId id st = st.keep a.threshold (computeObjectKey orgId none id) content := by
  simp [UpdateArgs.upload, h]

theorem ReleaseDb.Filed.set {db : ReleaseDb} {id : VersionId} {row : VersionRow} (hF : db.Filed)
    (hacc : db.accepts id row)
    (hkey : ∀ key, row.objectKey = some key → ∃ org ws, key = computeObjectKey org ws id) :
    ReleaseDb.Filed { db with versions := db.versions.set id row } := by
  intro id' r hr
  rw [OrdDict.get?_set] at hr
  split_ifs at hr with hid
  · cases hr
    subst hid
    simp only [ReleaseDb.accepts, Bool.and_eq_true] at hacc
    exact ⟨hacc.1.2, hkey⟩
  · exact hF id' r hr

theorem ReleaseDb.Filed.flush {db : ReleaseDb} {id : VersionId} {row : VersionRow} (hF : db.Filed)
    (refused : Bool)
    (hkey : ∀ key, row.objectKey = some key → ∃ org ws, key = computeObjectKey org ws id) :
    (db.flushVersion id row refused).1.Filed := by
  rcases db.flushVersion_cases id row refused with ⟨h, hok⟩ | ⟨h, -⟩
  · rw [h]
    rw [Bool.and_eq_true] at hok
    exact hF.set hok.1 hkey
  · rw [h]
    exact hF

theorem routeContent_key {org : String} {ws : Option String} {k : String}
    (h : (routeContent threshold (computeObjectKey org ws id) content).2 = some k) :
    ∃ org ws, k = computeObjectKey org ws id := by
  unfold routeContent at h
  split_ifs at h
  cases h
  exact ⟨org, ws, rfl⟩

theorem filed_step {db' : ReleaseDb} {act : RepositoryAct} (hF : db.Filed)
    (h : (repository sha256).step db act = some db') : db'.Filed := by
  cases act with
  | createPackage pid prow =>
    simp only [repository] at h
    split_ifs at h
    cases h
    simpa [ReleaseDb.Filed] using hF
  | setPackageStatus pid orgId archived =>
    cases h
    simpa [ReleaseDb.Filed] using hF
  | createVersion id a refused =>
    simp only [repository] at h
    split_ifs at h
    cases h
    have hF' : ReleaseDb.Filed { db with store := a.upload id db.store } := hF
    exact hF'.flush refused fun key => routeContent_key
  | updateVersion id orgId a refused =>
    cases h
    rcases db.updateAgentVersion_cases id orgId refused sha256 a with ⟨h, -⟩ | ⟨row, hrow, h⟩
    · rw [h]
      exact hF
    · rw [h]
      have hF' : ReleaseDb.Filed { db with store := a.upload orgId id db.store } := hF
      refine hF'.flush refused fun key hkey => ?_
      cases hc : a.content with
      | none =>
        have hsame : (row.updated sha256 orgId id a).objectKey = row.objectKey := by
          simp [updated, hc]
        exact (hF id row hrow.1).2 key (hsame ▸ hkey)
      | some content =>
        rw [(updated_routed hc).object] at hkey
        exact routeContent_key hkey
  | setVersionStatus id orgId status now refused =>
    cases h
    rcases db.setVersionStatus_cases id orgId refused status now with h | ⟨row, hrow, h, hacc⟩
    · rw [h]
      exact hF
    · rw [h]
      exact hF.set hacc (hF id row hrow.1).2
  | move a channelId eventId refused =>
    cases h
    intro id row hrow
    rw [(db.moveChannel_frame a channelId eventId refused).1] at hrow
    exact hF id row hrow

theorem intact_step {db' : ReleaseDb} {act : RepositoryAct} (hF : db.Filed) (hI : db.Intact sha256)
    (h : (repository sha256).step db act = some db') :
    db'.Intact sha256 ↔ act.Careful sha256 db := by
  cases act with
  | createPackage pid prow =>
    simp only [repository] at h
    split_ifs at h
    cases h
    exact iff_of_true (by simpa [ReleaseDb.Intact] using hI) trivial
  | setPackageStatus pid orgId archived =>
    cases h
    exact iff_of_true (by simpa [ReleaseDb.Intact] using hI) trivial
  | createVersion id a refused =>
    simp only [repository] at h
    split_ifs at h
    cases h
    exact db.intact_flush hF hI a.orgId a.workspaceId ⟨rfl, rfl, rfl⟩ refused
  | updateVersion id orgId a refused =>
    cases h
    rcases db.updateAgentVersion_cases id orgId refused sha256 a with
      ⟨h, hnone⟩ | ⟨row, hrow, h⟩
    · rw [h]
      exact iff_of_true hI fun row content hrow => absurd hrow (hnone row)
    · rw [h]
      have honly : ∀ row', db.Updates id orgId row' → row' = row := fun row' hrow' =>
        some.inj (hrow'.1.symm.trans hrow.1)
      cases hc : a.content with
      | none =>
        refine iff_of_true ?_ fun row' content _ hc' => by rw [hc] at hc'; cases hc'
        have hup : a.upload orgId id db.store = db.store := by simp [UpdateArgs.upload, hc]
        rw [hup]
        rcases db.flushVersion_cases id (row.updated sha256 orgId id a) refused with
          ⟨h', -⟩ | ⟨h', -⟩
        · rw [h']
          exact db.intact_set hI hrow.1 (by simp [updated, hc])
            (by simp [updated, hc]) (by simp [updated, hc])
        · rw [h']
          exact hI
      | some content =>
        rw [UpdateArgs.upload_some hc,
          db.intact_flush hF hI orgId none (updated_routed hc) refused]
        constructor
        · intro hsafe row' content' hrow' hc'
          rw [honly row' hrow']
          rw [hc] at hc'
          cases hc'
          exact hsafe
        · intro hsafe
          exact hsafe row content hrow hc
  | setVersionStatus id orgId status now refused =>
    cases h
    refine iff_of_true ?_ trivial
    rcases db.setVersionStatus_cases id orgId refused status now with h | ⟨row, hrow, h, -⟩
    · rw [h]
      exact hI
    · rw [h]
      exact db.intact_set hI hrow.1 rfl rfl rfl
  | move a channelId eventId refused =>
    cases h
    obtain ⟨hv, hst, -⟩ := db.moveChannel_frame a channelId eventId refused
    refine iff_of_true (fun id row hrow => ?_) trivial
    rw [hv] at hrow
    rw [hst]
    exact hI id row hrow

end Intact

/-- In every state along the calls each committed version can be read back and has the digest that
is recorded, exactly if each of the calls was careful. -/
theorem artifact_bytes_match_digest (sha256 : String → String) (backend : ObjectBackend)
    (acts : List RepositoryAct) (db : ReleaseDb)
    (h : (repository sha256).run acts (.fresh backend) = some db) :
    (repository sha256).Along (fun s a => a.Careful sha256 s) acts (.fresh backend) ↔
      ∀ before t, before <+: acts → (repository sha256).run before (.fresh backend) = some t →
        ∀ id row, t.versions.get? id = some row → ∃ content, row.retrieve t.store = some content ∧
            computeArtifactDigest sha256 content = row.digest := by
  have hfiled : (ReleaseDb.fresh backend).Filed := nofun
  have hintact : (ReleaseDb.fresh backend).Intact sha256 := nofun
  exact Machine.along_iff_prefixes (fun _ _ _ => filed_step) (fun _ _ _ => intact_step) hfiled
    hintact h

def createLargeVersions : List RepositoryAct :=
  [.createPackage "p" ⟨"o", none, "agent", false⟩,
    .createVersion ⟨"a", clean_a⟩ ⟨"o", "p", "1.0.0", "", "old", none, 2⟩ false,
    .createVersion ⟨"b", clean_b⟩ ⟨"o", "p", "1.1.0", "", "new", none, 2⟩ false]

theorem large_versions_match_digest :
    ∃ db, (repository fun s => s).run createLargeVersions (.fresh .s3) = some db ∧
      ∀ id row, db.versions.get? id = some row → ∃ content, row.retrieve db.store = some content ∧
          computeArtifactDigest (fun s => s) content = row.digest := by
  refine ⟨_, rfl, (artifact_bytes_match_digest (fun s => s) .s3 createLargeVersions _ rfl).1 ?_
    createLargeVersions _ (List.prefix_refl _) rfl⟩
  refine ⟨trivial, fun s1 h1 => ?_⟩
  cases h1
  refine ⟨fun _ => if_pos ?_ ▸ .inl rfl, fun s2 h2 => ?_⟩
  · decide +kernel
  cases h2
  refine ⟨fun _ => if_pos ?_ ▸ .inl rfl, fun _ _ => trivial⟩
  decide +kernel

/-- The store without bytes loses content that is too large for the row. With the other one, an
update that gives the first version the content of the second fails on the unique digest, and has
replaced the object. -/
theorem committed_digest_without_its_bytes :
    (∃ db row, (repository fun s => s).run createLargeVersions (.fresh .inline) = some db ∧
      db.versions.get? ⟨"a", by decide⟩ = some row ∧ row.retrieve db.store = some "" ∧
      row.digest = computeArtifactDigest (fun s => s) "old") ∧
    ∃ db row, (repository fun s => s).run (createLargeVersions ++
        [.updateVersion ⟨"a", by decide⟩ "o" ⟨none, none, some "new", 2⟩ false]) (.fresh .s3)
          = some db ∧
      db.versions.get? ⟨"a", by decide⟩ = some row ∧ row.retrieve db.store = some "new" ∧
      row.digest = computeArtifactDigest (fun s => s) "old" := by
  refine ⟨⟨_, _, rfl, rfl, ?_⟩, ⟨_, _, rfl, rfl, ?_⟩⟩
  · decide +kernel
  · decide +kernel

end DeerFlow

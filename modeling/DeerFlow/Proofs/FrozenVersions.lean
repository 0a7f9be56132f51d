import DeerFlow.Data.Slots
import DeerFlow.Release.VersionTxs

/-!
# Versions that are published do not change

A transaction checks the row it has loaded, and its `UPDATE` names the row by its id only. As long
as the status is still the loaded one when it uploads and flushes, a published, revoked or archived
version does not change.
-/

namespace DeerFlow

open List VersionCall VersionRow TxCell

def VersionRow.frozenColumns (row : VersionRow) :
    String × String × Option String × Option String × String :=
  (row.version, row.manifest, row.contentInline, row.objectKey, row.digest)

def VersionRow.Spares (old new : VersionRow) : Prop :=
  old.status.frozen = true → new.status.frozen = true ∧ new.frozenColumns = old.frozenColumns

theorem VersionRow.Spares.refl (row : VersionRow) : row.Spares row := fun h => ⟨h, rfl⟩

theorem frozen_of_legal : ∀ s t : VersionStatus, t ∈ s.legalTransitions → s.frozen → t.frozen := by
  intro s t
  cases s <;> cases t <;> decide

def VersionTx.Assigned (tx : VersionTx) (loaded row : VersionRow) : Prop :=
  match tx.call with
  | .update _ => loaded.status.frozen = false
  | .setStatus status now =>
    status ∈ loaded.status.legalTransitions ∧ row = loaded.withStatus status now

def VersionTx.Checked (tx : VersionTx) : Prop :=
  match tx.phase with
  | .assigned loaded row | .staged loaded row => tx.Assigned loaded row
  | _ => True

def VersionCall.uploads : VersionCall → Bool
  | .update a => a.content.any fun content => !fitsInline a.threshold content
  | .setStatus _ _ => false

/-- The committed status is the loaded one when the transaction uploads and when it writes. -/
def VersionTx.Timely (tx : VersionTx) (status : VersionStatus) (a : TxStatement) : Prop :=
  match a, tx.phase with
  | .upload, .assigned loaded _ => tx.call.uploads = true → status = loaded.status
  | .flush, .staged loaded row => row ≠ loaded → status = loaded.status
  | _, _ => True

def VersionTxAct.Timely (s : VersionDesk) : VersionTxAct → Prop
  | .begin _ _ => True
  | .act i a => ∀ tx ∈ s.txs[i]?, tx.Timely s.row.committed.status a

instance decidableTxTimely (tx : VersionTx) (status : VersionStatus) (a : TxStatement) :
    Decidable (tx.Timely status a) := by
  unfold VersionTx.Timely
  split <;> infer_instance

instance (s : VersionDesk) (a : VersionTxAct) : Decidable (a.Timely s) := by
  unfold VersionTxAct.Timely
  split <;> infer_instance

structure VersionDesk.Sound (s : VersionDesk) : Prop where
  checked : ∀ tx ∈ s.txs, tx.Checked
  holder : ∀ i row, s.row.pending = some (i, row) →
    ∃ tx, s.txs[i]? = some tx ∧ tx.phase = .flushed
  pending : ∀ i row, s.row.pending = some (i, row) → s.row.committed.Spares row

/-- From one state to a later one a frozen version is spared, in its row and in the store. -/
def VersionDesk.Spares (s t : VersionDesk) : Prop :=
  s.row.committed.Spares t.row.committed ∧
    (s.row.committed.status.frozen = true → t.store = s.store)

section Flush

variable {loaded stored : VersionRow}

@[simp] theorem flushColumn_self {α : Type} [DecidableEq α] (a b : α) : flushColumn a a b = b := by
  simp [flushColumn]

theorem VersionTx.Assigned.spares {tx : VersionTx} {row : VersionRow} (h : tx.Assigned loaded row)
    (hstatus : stored.status = loaded.status) : stored.Spares (loaded.flush row stored) := by
  intro hfrozen
  unfold VersionTx.Assigned at h
  split at h
  · rw [hstatus, h] at hfrozen
    cases hfrozen
  · next status now _ =>
    obtain ⟨hlegal, rfl⟩ := h
    refine ⟨?_, by simp [frozenColumns, flush, withStatus]⟩
    change (flushColumn loaded.status status stored.status).frozen
    unfold flushColumn
    split_ifs
    · exact hfrozen
    · exact frozen_of_legal _ _ hlegal (hstatus ▸ hfrozen)

theorem VersionCall.upload_eq {call : VersionCall} (h : call.uploads = false) (id : VersionId)
    (orgId : String) (st : ObjectStore) : call.upload id orgId st = st := by
  cases call with
  | setStatus status now => rfl
  | update a =>
    cases hc : a.content with
    | none => simp [upload, UpdateArgs.upload, hc]
    | some content =>
      simp only [uploads, hc, Option.any_some, Bool.not_eq_false'] at h
      simp [upload, UpdateArgs.upload, ObjectStore.keep, hc, h]

end Flush

namespace VersionDesk.Sound

variable {s : VersionDesk} {i : ℕ} {tx : VersionTx}

theorem not_holder (h : s.Sound) (htx : s.txs[i]? = some tx) (hphase : tx.phase ≠ .flushed)
    (row : VersionRow) : s.row.pending ≠ some (i, row) := by
  intro hp
  obtain ⟨tx', htx', hflushed⟩ := h.holder i row hp
  rw [htx] at htx'
  cases htx'
  exact hphase hflushed

theorem setPhase (h : s.Sound) (htx : s.txs[i]? = some tx) (phase : VersionTxPhase)
    (hchecked : VersionTx.Checked { tx with phase := phase }) (row : TxCell ℕ VersionRow)
    (store : ObjectStore)
    (hrow : ∀ j r, row.pending = some (j, r) → row.committed.Spares r ∧
      ((j ≠ i ∧ s.row.pending = some (j, r)) ∨ (j = i ∧ phase = .flushed))) :
    VersionDesk.Sound { s.setPhase i tx phase with row := row, store := store } where
  checked := Slots.forall_mem_set h.checked hchecked
  holder j r hr := by
    have hlt : i < s.txs.length := (List.getElem?_eq_some_iff.1 htx).1
    rcases (hrow j r hr).2 with ⟨hne, hp⟩ | ⟨rfl, rfl⟩
    · obtain ⟨tx', htx', hflushed⟩ := h.holder j r hp
      exact ⟨tx', by simp [VersionDesk.setPhase, getElem?_set_ne (Ne.symm hne), htx'], hflushed⟩
    · exact ⟨_, by simp only [VersionDesk.setPhase]; exact getElem?_set_self hlt, rfl⟩
  pending j r hr := (hrow j r hr).1

theorem setPhase_same (h : s.Sound) (htx : s.txs[i]? = some tx) (hphase : tx.phase ≠ .flushed)
    (phase : VersionTxPhase) (hchecked : VersionTx.Checked { tx with phase := phase }) (store : ObjectStore) :
    VersionDesk.Sound { s.setPhase i tx phase with row := s.row, store := store } := by
  refine h.setPhase htx phase hchecked s.row store fun j r hr => ⟨h.pending j r hr, .inl ⟨?_, hr⟩⟩
  rintro rfl
  exact h.not_holder htx hphase r hr

end VersionDesk.Sound

theorem VersionCall.assign_checked (sha256 : String → String) (id : VersionId) (tx : VersionTx)
    (row : VersionRow) :
    VersionTx.Checked { tx with phase := tx.call.assign sha256 id tx.orgId row } := by
  unfold VersionTx.Checked assign
  cases hcall : tx.call with
  | update a =>
    split_ifs with horg hfrozen
    · trivial
    · trivial
    · simpa [VersionTx.Assigned, hcall] using hfrozen
  | setStatus status now =>
    dsimp only
    split_ifs with horg hlegal
    · trivial
    · simpa [VersionTx.Assigned, hcall] using hlegal
    · trivial

section Steps

variable {s s' : VersionDesk} {i : ℕ} {tx : VersionTx}

theorem flushTx_sound {loaded row : VersionRow} (h : s.Sound) (htx : s.txs[i]? = some tx)
    (hphase : tx.phase = .staged loaded row)
    (htimely : row ≠ loaded → s.row.committed.status = loaded.status)
    (hs : s.flushTx i tx loaded row = some s') : s'.Sound ∧ s.Spares s' := by
  have hnot : tx.phase ≠ .flushed := by simp [hphase]
  have hassigned : tx.Assigned loaded row := by
    have := h.checked tx (mem_of_getElem? htx)
    simpa [VersionTx.Checked, hphase] using this
  have hkeep : ∀ phase : VersionTxPhase, s.Spares (s.setPhase i tx phase) := fun _ =>
    ⟨.refl _, fun _ => rfl⟩
  unfold VersionDesk.flushTx at hs
  split at hs
  · cases hs
    exact ⟨h.setPhase_same htx hnot .flushed trivial s.store, hkeep _⟩
  next hsame =>
  split at hs
  · cases hs
  next c hc =>
  split at hs
  · cases hs
    obtain ⟨-, rfl⟩ := write_eq_some hc
    -- the transaction has not written before, so it sees what is committed
    have hvisible : s.row.visible i = s.row.committed :=
      visible_eq_committed (h.not_holder htx hnot)
    refine ⟨h.setPhase htx .flushed trivial _ s.store fun j r hr => ?_, .refl _, fun _ => rfl⟩
    cases hr
    rw [hvisible]
    exact ⟨hassigned.spares (htimely hsame), .inr ⟨rfl, rfl⟩⟩
  · cases hs
    exact ⟨h.setPhase_same htx hnot (.failed .integrity) trivial s.store, hkeep _⟩

theorem commit_sound (h : s.Sound) (htx : s.txs[i]? = some tx) :
    VersionDesk.Sound { s.setPhase i tx .committed with row := s.row.commit i } ∧
      s.Spares { s.setPhase i tx .committed with row := s.row.commit i } := by
  by_cases hp : ∃ r, s.row.pending = some (i, r)
  · obtain ⟨r, hr⟩ := hp
    have hc := commit_of_pending hr
    rw [hc]
    refine ⟨h.setPhase htx .committed trivial _ s.store fun j r' hr' => ?_, h.pending i r hr,
      fun _ => rfl⟩
    cases hr'
  · have hnone : ∀ r, s.row.pending ≠ some (i, r) := fun r hr => hp ⟨r, hr⟩
    rw [commit_eq_self hnone]
    refine ⟨h.setPhase htx .committed trivial s.row s.store fun j r hr =>
      ⟨h.pending j r hr, .inl ⟨?_, hr⟩⟩, .refl _, fun _ => rfl⟩
    rintro rfl
    exact hnone r hr

theorem rollback_sound (h : s.Sound) (htx : s.txs[i]? = some tx) (e : ReleaseError) :
    VersionDesk.Sound { s.setPhase i tx (.failed e) with row := s.row.rollback i } ∧
      s.Spares { s.setPhase i tx (.failed e) with row := s.row.rollback i } := by
  refine ⟨h.setPhase htx (.failed e) trivial _ s.store fun j r hr => ?_, ?_, fun _ => rfl⟩
  · obtain ⟨hp, hne⟩ := rollback_pending.1 hr
    rw [rollback_committed]
    exact ⟨h.pending j r hp, .inl ⟨hne, hp⟩⟩
  · change s.row.committed.Spares (s.row.rollback i).committed
    rw [rollback_committed]
    exact .refl _

theorem txStep_sound {sha256 : String → String} {id : VersionId} {a : TxStatement} (h : s.Sound)
    (htx : s.txs[i]? = some tx) (htimely : tx.Timely s.row.committed.status a)
    (hs : s.txStep i tx sha256 id a = some s') : s'.Sound ∧ s.Spares s' := by
  have hkeep : ∀ phase : VersionTxPhase, s.Spares (s.setPhase i tx phase) := fun _ =>
    ⟨.refl _, fun _ => rfl⟩
  unfold VersionDesk.txStep at hs
  unfold VersionTx.Timely at htimely
  split at hs
  · next hphase =>
    cases hs
    exact ⟨h.setPhase_same htx (by simp [hphase]) (.loaded _) trivial s.store, hkeep _⟩
  · next row hphase =>
    cases hs
    exact ⟨h.setPhase_same htx (by simp [hphase]) _ (assign_checked _ _ _ _) s.store,
      hkeep _⟩
  · next loaded row hphase =>
    cases hs
    have hassigned : tx.Assigned loaded row := by
      have := h.checked tx (mem_of_getElem? htx)
      simpa [VersionTx.Checked, hphase] using this
    refine ⟨h.setPhase_same htx (by simp [hphase]) (.staged loaded row) hassigned _, .refl _,
      fun hfrozen => ?_⟩
    simp only [hphase] at htimely
    -- a call that uploads is an update, and the status it checked is not frozen
    refine upload_eq (Bool.eq_false_iff.2 fun hup => ?_) id tx.orgId s.store
    rw [htimely hup] at hfrozen
    cases hcall : tx.call with
    | update a =>
      simp only [VersionTx.Assigned, hcall] at hassigned
      rw [hassigned] at hfrozen
      cases hfrozen
    | setStatus status now =>
      rw [hcall] at hup
      cases hup
  · next loaded row hphase =>
    simp only [hphase] at htimely
    exact flushTx_sound h htx hphase htimely hs
  · cases hs
    exact commit_sound h htx
  · cases hs
  · cases hs
  · cases hs
    exact rollback_sound h htx _
  · cases hs

theorem versionTxs_step_sound {sha256 : String → String} {id : VersionId} {a : VersionTxAct}
    (h : s.Sound) (htimely : a.Timely s) (hs : (versionTxs sha256 id).step s a = some s') :
    s'.Sound ∧ s.Spares s' := by
  cases a with
  | act i a =>
    obtain ⟨tx, htx, hs⟩ := Option.bind_eq_some_iff.1 hs
    exact txStep_sound h htx (htimely tx htx) hs
  | begin call orgId =>
    cases hs
    refine ⟨⟨Slots.forall_mem_concat h.checked trivial, fun i row hp => ?_, h.pending⟩, .refl _,
      fun _ => rfl⟩
    obtain ⟨tx, htx, hflushed⟩ := h.holder i row hp
    refine ⟨tx, ?_, hflushed⟩
    rw [getElem?_append_left (List.getElem?_eq_some_iff.1 htx).1]
    exact htx

end Steps

theorem VersionDesk.Spares.trans {s t u : VersionDesk} (h : s.Spares t) (h' : t.Spares u) :
    s.Spares u := by
  refine ⟨fun hfrozen => ?_, fun hfrozen => ?_⟩
  · obtain ⟨ht, hcols⟩ := h.1 hfrozen
    obtain ⟨hu, hcols'⟩ := h'.1 ht
    exact ⟨hu, hcols'.trans hcols⟩
  · rw [h'.2 (h.1 hfrozen).1, h.2 hfrozen]

/-- Once a committed row is published, revoked or archived, it stays so in every later state with the
same version, manifest, content and digest, where the transactions upload and write while the status
is the one they loaded. -/
theorem frozen_version_never_changes (sha256 : String → String) (id : VersionId) (row : VersionRow)
    (store : ObjectStore) (acts more : List VersionTxAct) (s t : VersionDesk)
    (hok : (versionTxs sha256 id).Along (fun s a => a.Timely s) (acts ++ more) ⟨⟨row, none⟩, store, []⟩)
    (hs : (versionTxs sha256 id).run acts ⟨⟨row, none⟩, store, []⟩ = some s)
    (hfrozen : s.row.committed.status.frozen = true)
    (ht : (versionTxs sha256 id).run more s = some t) :
    t.row.committed.status.frozen = true ∧
      t.row.committed.frozenColumns = s.row.committed.frozenColumns ∧
      t.row.committed.retrieve t.store = s.row.committed.retrieve s.store := by
  obtain ⟨hacts, hmore⟩ := hok.append hs
  have hstart : VersionDesk.Sound ⟨⟨row, none⟩, store, []⟩ :=
    ⟨fun tx htx => (by cases htx), fun i r hp => (by cases hp), fun i r hp => (by cases hp)⟩
  have hsound : s.Sound :=
    Machine.run_inv (fun _ _ _ h ha hs => (versionTxs_step_sound h ha hs).1) hstart hacts hs
  have hlater : t.Sound ∧ s.Spares t := by
    refine Machine.run_inv (I := fun u => u.Sound ∧ s.Spares u) (fun u a u' hu ha hs => ?_)
      ⟨hsound, .refl _, fun _ => rfl⟩ hmore ht
    obtain ⟨h1, h2⟩ := versionTxs_step_sound hu.1 ha hs
    exact ⟨h1, hu.2.trans h2⟩
  obtain ⟨hft, hcols⟩ := hlater.2.1 hfrozen
  refine ⟨hft, hcols, ?_⟩
  simp only [frozenColumns, Prod.mk.injEq] at hcols
  unfold retrieve
  rw [hlater.2.2 hfrozen, hcols.2.2.1, hcols.2.2.2.1]

def draftRow : VersionRow :=
  ⟨"o", "p", "1.0.0", "sha256:old", .draft, "", some "old", none, 3, none, none⟩

def publishDraft : List VersionTxAct :=
  [.begin (.setStatus .published 1) "o", .act 0 .read, .act 0 .check, .act 0 .flush,
    .act 0 .commit]

theorem update_after_publish_is_refused :
    ∃ s t, (versionTxs (fun s => s) ⟨"a", by decide⟩).run publishDraft
        ⟨⟨draftRow, none⟩, ⟨.inline, fun _ => none⟩, []⟩ = some s ∧
      s.row.committed.status = .published ∧
      (versionTxs (fun s => s) ⟨"a", by decide⟩).run
        [.begin (.update ⟨none, none, some "new", 65536⟩) "o", .act 1 .read, .act 1 .check] s
          = some t ∧
      t.row.committed.frozenColumns = s.row.committed.frozenColumns := by
  refine ⟨_, _, rfl, rfl, rfl, ?_⟩
  exact (frozen_version_never_changes (fun s => s) ⟨"a", by decide⟩ draftRow
    ⟨.inline, fun _ => none⟩ publishDraft
    [.begin (.update ⟨none, none, some "new", 65536⟩) "o", .act 1 .read, .act 1 .check] _ _
    (by decide +kernel) rfl rfl rfl).2.1

/-- An update that has checked the draft writes after the version was published. -/
theorem stale_update_changes_published_version :
    ∃ s t, (versionTxs (fun s => s) ⟨"a", by decide⟩).run
        ([.begin (.update ⟨none, none, some "new", 65536⟩) "o", .act 0 .read, .act 0 .check,
          .begin (.setStatus .published 1) "o", .act 1 .read, .act 1 .check, .act 1 .flush,
          .act 1 .commit] : List VersionTxAct)
        ⟨⟨draftRow, none⟩, ⟨.inline, fun _ => none⟩, []⟩ = some s ∧
      s.row.committed.status = .published ∧ s.row.committed.digest = "sha256:old" ∧
      (versionTxs (fun s => s) ⟨"a", by decide⟩).run
        [.act 0 .upload, .act 0 .flush, .act 0 .commit] s = some t ∧
      t.row.committed.status = .published ∧ t.row.committed.contentInline = some "new" ∧
      t.row.committed.digest = "sha256:new" := by
  refine ⟨_, _, rfl, rfl, rfl, rfl, ?_⟩
  decide +kernel

end DeerFlow

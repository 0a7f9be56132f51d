import DeerFlow.Audit.Archive
import Mathlib.Data.List.Dedup
import Mathlib.Data.List.Infix

/-!
# The watermark of the archive

A sweep writes at most one batch for each organisation and sets the watermark to the end of its day
whatever it was. Where the day fits in a batch and no event before it is left out, every event below
a watermark is in an object, and watermarks only go up.
-/

namespace DeerFlow

open List Option ExportRow OrdDict

namespace ArchiveDb

variable {db db' : ArchiveDb} {r : ExportRow} {org : String} {W : ArchiveWindow}

def underWatermark (db : ArchiveDb) (org : String) (t : ℤ) : Bool :=
  (db.watermarks.get? org).any fun w => t < w.lastArchivedWindowEnd

def readyFor (db : ArchiveDb) (W : ArchiveWindow) (org : String) : Bool :=
  (db.windowEvents W org).isEmpty ||
    (decide ((db.windowEvents W org).length ≤ archiveBatchSize)
      && (db.events.all fun r => !(r.isOf org && r.occurredAt < W.start)
        || db.underWatermark org r.occurredAt)
      && (db.watermarks.get? org).all fun w => w.lastArchivedWindowEnd ≤ W.stop)

/-- The batch has an id of its own, and the store does not damage it to a text of the same
digest. -/
def storesBatch (sha256 : List Char → String) (db : ArchiveDb) (W : ArchiveWindow)
    (batch : String → String) (fate : String → StoreFate) (org : String) : Bool :=
  (db.store.get? (archiveObjectKey org W.dateStr (batch org))).isNone &&
    match fate org with
    | .damaged stored => sha256 stored ≠ sha256 (jsonlContent (db.exportWindow W org))
    | _ => true

/-- Events arrive above the watermark of their organisation, which is not `system`; sweeps find each
organisation ready. -/
def keepsPace (sha256 : List Char → String) (db : ArchiveDb) : ArchiveAct → Bool
  | .insert r => decide (r.orgId ≠ some "system") && !db.underWatermark r.orgName r.occurredAt
  | .sweep now batch fate =>
    let W := archiveWindow now
    decide (db.getAllOrgIds.map fun org => archiveObjectKey org W.dateStr (batch org)).Nodup
      && db.getAllOrgIds.all fun org =>
        db.readyFor W org && db.storesBatch sha256 W batch fate org

def Archived (db : ArchiveDb) (r : ExportRow) : Prop :=
  ∃ org date batch rows, db.store.get? (archiveObjectKey org date batch) = some (jsonlContent rows) ∧
    r ∈ rows

structure Sound (db : ArchiveDb) : Prop where
  named : ∀ r ∈ db.events, r.orgId ≠ some "system"
  archived : ∀ r ∈ db.events, db.underWatermark r.orgName r.occurredAt = true → db.Archived r

def Advances (db db' : ArchiveDb) : Prop :=
  ∀ org w, db.watermarks.get? org = some w →
    ∃ w', db'.watermarks.get? org = some w' ∧ w.lastArchivedWindowEnd ≤ w'.lastArchivedWindowEnd

theorem Advances.refl (db : ArchiveDb) : Advances db db := fun _ w hw => ⟨w, hw, le_refl _⟩

theorem Advances.trans {db'' : ArchiveDb} (h : Advances db db') (h' : Advances db' db'') :
    Advances db db'' := by
  intro org w hw
  obtain ⟨w', hw', hle⟩ := h org w hw
  obtain ⟨w'', hw'', hle'⟩ := h' org w' hw'
  exact ⟨w'', hw'', hle.trans hle'⟩

theorem getLast?_archiveObjectKey (org date batch : String) :
    (archiveObjectKey org date batch).toList.getLast? = some 'l' := by
  have happend : ∀ s : String, (s ++ ".jsonl").toList.getLast? = some 'l' := by
    intro s
    rw [String.toList_append, getLast?_append]
    rfl
  exact happend _

theorem getLast?_manifestObjectKey (org date : String) :
    (manifestObjectKey org date).toList.getLast? = some 'n' := by
  have happend : ∀ s : String, (s ++ "/manifest.json").toList.getLast? = some 'n' := by
    intro s
    rw [String.toList_append, getLast?_append]
    rfl
  exact happend _

theorem archiveObjectKey_ne_manifest (org date batch org' date' : String) :
    archiveObjectKey org date batch ≠ manifestObjectKey org' date' := by
  intro h
  have hlast := getLast?_archiveObjectKey org date batch
  rw [h, getLast?_manifestObjectKey] at hlast
  exact absurd (some.inj hlast) (by decide)

structure Writes (key : String) (db db' : ArchiveDb) : Prop where
  events : db'.events = db.events
  watermarks : db'.watermarks = db.watermarks
  objects : ∀ org date batch, archiveObjectKey org date batch ≠ key →
    db'.store.get? (archiveObjectKey org date batch)
      = db.store.get? (archiveObjectKey org date batch)

theorem Writes.refl (key : String) (db : ArchiveDb) : Writes key db db :=
  ⟨rfl, rfl, fun _ _ _ _ => rfl⟩

theorem writes_put (db : ArchiveDb) (key : String) (content : List Char) :
    Writes key db (db.put key content) :=
  ⟨rfl, rfl, fun _ _ _ hne => by simp [put, hne.symm]⟩

theorem Writes.manifest {key : String} (h : Writes key db db') (org date : String)
    (content : List Char) : Writes key db (db'.put (manifestObjectKey org date) content) where
  events := h.events
  watermarks := h.watermarks
  objects := fun o d b hne => by
    have hkey := archiveObjectKey_ne_manifest o d b org date
    simp only [put, get?_set, if_neg hkey.symm]
    exact h.objects o d b hne

theorem Writes.archived {key : String} (h : Writes key db db') (hnew : db.store.get? key = none)
    (hr : db.Archived r) : db'.Archived r := by
  obtain ⟨org, date, batch, rows, hget, hmem⟩ := hr
  refine ⟨org, date, batch, rows, ?_, hmem⟩
  rw [h.objects org date batch, hget]
  rintro rfl
  rw [hnew] at hget
  cases hget

theorem Writes.sound {key : String} (h : Writes key db db') (hnew : db.store.get? key = none)
    (hs : db.Sound) : db'.Sound where
  named := h.events ▸ hs.named
  archived := fun r hr hunder => by
    rw [h.events] at hr
    unfold underWatermark at hunder
    rw [h.watermarks] at hunder
    exact h.archived hnew (hs.archived r hr hunder)

section Orgs

variable {sha256 : List Char → String} {batch : String → String}
  {fate : String → StoreFate}

theorem archiveOrg_cases (now : ℤ) (hstores : db.storesBatch sha256 W batch fate org) :
    Writes (archiveObjectKey org W.dateStr (batch org)) db
      (archiveOrg sha256 W now batch fate org db).1 ∨
    ∃ d last, Writes (archiveObjectKey org W.dateStr (batch org)) db d ∧
      db.exportWindow W org ≠ [] ∧
      d.store.get? (archiveObjectKey org W.dateStr (batch org))
        = some (jsonlContent (db.exportWindow W org)) ∧
      (archiveOrg sha256 W now batch fate org db).1 = d.upsertWatermark org W.stop last 1 := by
  have hwrites : Writes (archiveObjectKey org W.dateStr (batch org)) db
      (writeBatch sha256 W now batch fate org (db.exportWindow W org) db) :=
    (writes_put ..).manifest ..
  have hkey := archiveObjectKey_ne_manifest org W.dateStr (batch org) org W.dateStr
  unfold archiveOrg
  by_cases hrows : db.exportWindow W org = []
  · simp only [hrows, if_true]
    exact .inl (.refl _ _)
  simp only [if_neg hrows]
  cases hfate : fate org with
  | putRaises error => exact .inl (.refl _ _)
  | manifestRaises error => exact .inl (writes_put _ _ _)
  | unreadable error =>
    simp only [verifyBatch, hfate]
    exact .inl hwrites
  | damaged stored =>
    have hne : sha256 stored ≠ sha256 (jsonlContent (db.exportWindow W org)) := by
      simp only [storesBatch, hfate, Bool.and_eq_true, decide_eq_true_eq] at hstores
      exact hstores.2
    simp only [verifyBatch, hfate, StoreFate.stored, ne_eq, hne, not_false_eq_true, if_true]
    exact .inl hwrites
  | verified =>
    refine .inr ⟨_, ((db.exportWindow W org).getLast?.map eventId).getD "", hwrites,
      hrows, ?_, ?_⟩
    · simp only [writeBatch, put, get?_set, if_neg hkey.symm, if_true, hfate,
        StoreFate.stored]
    · simp only [verifyBatch, hfate, StoreFate.stored, ne_eq, not_true_eq_false, if_false]

theorem mem_exportWindow (hlen : (db.windowEvents W org).length ≤ archiveBatchSize)
    (hr : r ∈ db.windowEvents W org) : r ∈ db.exportWindow W org := by
  unfold exportWindow
  rw [take_of_length_le]
  · exact (perm_insertionSort ..).mem_iff.2 hr
  · rw [length_insertionSort]
    exact hlen

theorem exportWindow_eq_nil (h : db.windowEvents W org = []) : db.exportWindow W org = [] := by
  simp [exportWindow, h]

theorem isOf_iff (h : r.orgId ≠ some "system") : r.isOf org ↔ r.orgName = org := by
  unfold isOf orgName
  cases hid : r.orgId with
  | none =>
    by_cases hsys : org = "system"
    · simp [hsys]
    · simp [hsys, Ne.symm hsys]
  | some o =>
    rw [hid] at h
    by_cases hsys : org = "system"
    · subst hsys
      simpa using h
    · simp [hsys]

theorem get?_upsertWatermark (db : ArchiveDb) (org : String) (windowEnd : ℤ) (last : String)
    (delta : ℕ) (o : String) :
    ((db.upsertWatermark org windowEnd last delta).watermarks.get? o).map
        Watermark.lastArchivedWindowEnd
      = if org = o then some windowEnd
        else (db.watermarks.get? o).map Watermark.lastArchivedWindowEnd := by
  unfold upsertWatermark
  rw [get?_set]
  split_ifs <;> rfl

theorem underWatermark_iff {t : ℤ} : db.underWatermark org t ↔
    ∃ u, (db.watermarks.get? org).map Watermark.lastArchivedWindowEnd = some u ∧ t < u := by
  unfold underWatermark
  cases db.watermarks.get? org <;> simp

theorem Sound.upsertWatermark {d : ArchiveDb} {date id last : String} (h : db.Sound)
    (hd : d.events = db.events) (hwm : d.watermarks = db.watermarks)
    (harch : ∀ r, db.Archived r → d.Archived r)
    (hready : db.readyFor W org) (hrows : db.exportWindow W org ≠ [])
    (hobject : d.store.get? (archiveObjectKey org date id)
      = some (jsonlContent (db.exportWindow W org))) :
    (d.upsertWatermark org W.stop last 1).Sound ∧
      db.Advances (d.upsertWatermark org W.stop last 1) := by
  have hnonempty : (db.windowEvents W org).isEmpty = false := by
    rw [isEmpty_eq_false_iff]
    exact fun hnil => hrows (exportWindow_eq_nil hnil)
  simp only [readyFor, hnonempty, Bool.false_or, Bool.and_eq_true, decide_eq_true_eq,
    List.all_eq_true] at hready
  obtain ⟨⟨hlen, hbefore⟩, hmono⟩ := hready
  have hobj : ∀ r ∈ db.exportWindow W org, d.Archived r :=
    fun r hr => ⟨org, date, id, _, hobject, hr⟩
  refine ⟨⟨fun r hr => h.named r (hd ▸ hr), fun r hr hunder => ?_⟩, fun o w hw => ?_⟩
  · replace hr : r ∈ db.events := hd ▸ hr
    rw [underWatermark_iff, get?_upsertWatermark, hwm] at hunder
    obtain ⟨u, hu, hlt⟩ := hunder
    split_ifs at hu with ho
    · cases hu
      have hof : r.isOf org := (isOf_iff (h.named r hr)).2 ho.symm
      by_cases hstart : W.start ≤ r.occurredAt
      · -- in the day: the batch has it
        refine hobj r (mem_exportWindow hlen (mem_filter.2 ⟨hr, ?_⟩))
        simp [ArchiveWindow.contains, hof, hstart, hlt]
      · -- before the day: the watermark was past it already
        have hold : db.underWatermark org r.occurredAt := by
          have hcase := hbefore r hr
          simpa [hof, not_le.1 hstart] using hcase
        exact harch r (h.archived r hr (ho ▸ hold))
    · exact harch r (h.archived r hr (underWatermark_iff.2 ⟨u, hu, hlt⟩))
  · have hget := get?_upsertWatermark d org W.stop last 1 o
    rw [hwm, hw] at hget
    split_ifs at hget with ho
    · obtain ⟨w', hw', hend⟩ := map_eq_some_iff.1 hget
      refine ⟨w', hw', ?_⟩
      rw [hend]
      rw [ho, hw] at hmono
      simpa using hmono
    · obtain ⟨w', hw', hend⟩ := map_eq_some_iff.1 hget
      exact ⟨w', hw', hend.ge⟩

theorem Sound.archiveOrg (now : ℤ) (h : db.Sound) (hready : db.readyFor W org)
    (hstores : db.storesBatch sha256 W batch fate org) :
    (DeerFlow.archiveOrg sha256 W now batch fate org db).1.Sound ∧
      db.Advances (DeerFlow.archiveOrg sha256 W now batch fate org db).1 := by
  have hnew : db.store.get? (archiveObjectKey org W.dateStr (batch org)) = none := by
    simp only [storesBatch, Bool.and_eq_true, isNone_iff_eq_none] at hstores
    exact hstores.1
  rcases archiveOrg_cases now hstores with hw | ⟨d, last, hw, hrows, hobject, heq⟩
  · refine ⟨hw.sound hnew h, fun o w hget => ⟨w, ?_, le_refl _⟩⟩
    rw [hw.watermarks]
    exact hget
  · rw [heq]
    exact h.upsertWatermark hw.events hw.watermarks (fun _ => hw.archived hnew) hready hrows hobject

theorem archiveOrg_frame (now : ℤ) {o : String}
    (hstores : db.storesBatch sha256 W batch fate org) (hne : org ≠ o) (hkey : archiveObjectKey o W.dateStr (batch o)
      ≠ archiveObjectKey org W.dateStr (batch org)) :
    (archiveOrg sha256 W now batch fate org db).1.readyFor W o = db.readyFor W o ∧
      (archiveOrg sha256 W now batch fate org db).1.storesBatch sha256 W batch fate o
        = db.storesBatch sha256 W batch fate o := by
  have hframe : ∀ d : ArchiveDb, d.events = db.events → d.watermarks.get? o = db.watermarks.get? o →
      d.store.get? (archiveObjectKey o W.dateStr (batch o))
        = db.store.get? (archiveObjectKey o W.dateStr (batch o)) →
      d.readyFor W o = db.readyFor W o ∧
        d.storesBatch sha256 W batch fate o = db.storesBatch sha256 W batch fate o := by
    intro d hevents hwm hstore
    simp only [readyFor, storesBatch, underWatermark, exportWindow, windowEvents, hevents, hwm,
      hstore]
    exact ⟨rfl, rfl⟩
  rcases archiveOrg_cases now hstores with hw | ⟨d, last, hw, -, -, heq⟩
  · exact hframe _ hw.events (by rw [hw.watermarks]) (hw.objects o _ _ hkey)
  · rw [heq]
    refine hframe _ hw.events ?_ (hw.objects o _ _ hkey)
    simp only [upsertWatermark, get?_set, if_neg hne, hw.watermarks]

theorem Sound.archiveOrgs (now : ℤ) : ∀ {orgs : List String} {db : ArchiveDb} (report : ArchiveReport),
    db.Sound → orgs.Nodup →
    (orgs.map fun org => archiveObjectKey org W.dateStr (batch org)).Nodup →
    (∀ org ∈ orgs, db.readyFor W org ∧ db.storesBatch sha256 W batch fate org) →
    (DeerFlow.archiveOrgs sha256 W now batch fate orgs db report).1.Sound ∧
      db.Advances (DeerFlow.archiveOrgs sha256 W now batch fate orgs db report).1
  | [], db, _, h, _, _, _ => ⟨h, .refl db⟩
  | org :: orgs, db, report, h, hnodup, hkeys, hok => by
    obtain ⟨hready, hstores⟩ := hok org mem_cons_self
    obtain ⟨hsound, hadv⟩ := h.archiveOrg now hready hstores
    obtain ⟨horg, hnodup⟩ := nodup_cons.1 hnodup
    rw [map_cons, nodup_cons] at hkeys
    obtain ⟨hkey, hkeys⟩ := hkeys
    have hrest : ∀ o ∈ orgs, (DeerFlow.archiveOrg sha256 W now batch fate org db).1.readyFor W o ∧
        (DeerFlow.archiveOrg sha256 W now batch fate org db).1.storesBatch sha256 W batch fate o
          = true := by
      intro o ho
      have hframe := archiveOrg_frame now hstores (fun heq => horg (heq ▸ ho))
        fun heq => hkey (mem_map.2 ⟨o, ho, heq⟩)
      rw [hframe.1, hframe.2]
      exact hok o (mem_cons_of_mem _ ho)
    have hgo := fun report => hsound.archiveOrgs now report hnodup hkeys hrest
    have hall := fun report => And.intro (hgo report).1 (hadv.trans (hgo report).2)
    unfold DeerFlow.archiveOrgs
    rcases hout : DeerFlow.archiveOrg sha256 W now batch fate org db with ⟨db', outcome⟩
    rw [hout] at hall hsound hadv
    cases outcome with
    | skipped => exact hall _
    | raised error => exact ⟨hsound, hadv⟩
    | failed message => exact hall _
    | archived events => exact hall _

end Orgs

section Runs

variable {sha256 : List Char → String} {a : ArchiveAct}

theorem nodup_getAllOrgIds (db : ArchiveDb) : db.getAllOrgIds.Nodup := by
  unfold getAllOrgIds
  have hnodup := nodup_dedup (db.events.filterMap orgId)
  dsimp only
  split_ifs with h
  · exact hnodup
  · exact hnodup.append (nodup_singleton _) (by simpa using h)

theorem Sound.insert (h : db.Sound) (hname : r.orgId ≠ some "system")
    (hnew : db.underWatermark r.orgName r.occurredAt = false) : (db.insert r).Sound := by
  unfold ArchiveDb.insert
  split
  · exact h
  · exact ⟨forall_mem_append.2 ⟨h.named, forall_mem_singleton.2 hname⟩,
      forall_mem_append.2 ⟨h.archived, forall_mem_singleton.2 fun hunder =>
        absurd hunder (by simpa [underWatermark] using hnew)⟩⟩

theorem sound_step (h : db.Sound) (hok : db.keepsPace sha256 a)
    (hs : (auditArchive sha256).step db a = some db') : db'.Sound ∧ db.Advances db' := by
  cases a with
  | insert r =>
    cases hs
    simp only [keepsPace, Bool.and_eq_true, decide_eq_true_eq, Bool.not_eq_true'] at hok
    refine ⟨h.insert hok.1 hok.2, fun o w hw => ⟨w, ?_, le_refl _⟩⟩
    unfold ArchiveDb.insert
    split <;> exact hw
  | sweep now batch fate =>
    cases hs
    simp only [keepsPace, Bool.and_eq_true, decide_eq_true_eq, List.all_eq_true] at hok
    exact h.archiveOrgs now {} db.nodup_getAllOrgIds hok.1 hok.2

theorem sound_empty : Sound {} := ⟨by simp, by simp⟩

/-- In every run of sweeps that keep pace with the events: each event below the watermark of its
organisation is in an archived object, and no watermark ever goes back. -/
theorem watermark_sound (sha256 : List Char → String) (as : List ArchiveAct) (db : ArchiveDb)
    (hok : (auditArchive sha256).Along (fun db a => db.keepsPace sha256 a = true) as {})
    (hs : (auditArchive sha256).run as {} = some db) :
    (∀ r ∈ db.events, ∀ w, db.watermarks.get? r.orgName = some w →
      r.occurredAt < w.lastArchivedWindowEnd → db.Archived r) ∧
    ∀ bs db', (auditArchive sha256).Along (fun db a => db.keepsPace sha256 a = true) bs db →
      (auditArchive sha256).run bs db = some db' → db.Advances db' := by
  have hsound : db.Sound :=
    Machine.run_inv (fun _ _ _ h ha hstep => (sound_step h ha hstep).1) sound_empty hok hs
  constructor
  · intro r hr w hw hlt
    refine hsound.archived r hr ?_
    simp [underWatermark, hw, hlt]
  · intro bs db' hbs hrun
    refine (Machine.run_inv (I := fun t => t.Sound ∧ db.Advances t) ?_ ⟨hsound, .refl db⟩ hbs hrun).2
    rintro u a v ⟨hu, hadv⟩ ha hstep
    exact ⟨(sound_step hu ha hstep).1, hadv.trans (sound_step hu ha hstep).2⟩

end Runs

theorem mem_intersperse {α : Type} {sep x : α} : ∀ {l : List α}, x ∈ l → x ∈ l.intersperse sep
  | [_], h => h
  | a :: b :: l, h => by
    rcases mem_cons.1 h with rfl | h
    · exact mem_cons_self
    · exact mem_cons_of_mem _ (mem_cons_of_mem _ (mem_intersperse h))

theorem toJsonl_infix {rows : List ExportRow} (h : r ∈ rows) : r.toJsonl <:+: jsonlContent rows := by
  have hjoin : r.toJsonl <:+: ['\n'].intercalate (rows.map toJsonl) :=
    infix_of_mem_flatten (mem_intersperse (mem_map.2 ⟨r, h, rfl⟩))
  unfold jsonlContent
  dsimp only
  split_ifs
  · exact hjoin
  · exact hjoin.trans (prefix_append _ _).isInfix

theorem Archived.infix (h : db.Archived r) : ∃ e ∈ db.store.entries,
    e.1.toList.getLast? = some 'l' ∧ r.toJsonl <:+: e.2 := by
  obtain ⟨org, date, batch, rows, hget, hmem⟩ := h
  exact ⟨_, mem_entries_iff.2 hget, getLast?_archiveObjectKey org date batch,
    toJsonl_infix hmem⟩

def plainDigest (content : List Char) : String := String.ofList (content.take 8)

def noonEvent (id : String) (day : ℤ) : ExportRow where
  eventId := id
  orgId := some "o"
  action := "suspended"
  actorType := .user
  actorId := "u"
  outcome := .success
  resourceType := none
  resourceId := none
  occurredAt := day * dayMicros + 43200000000
  payload := []

def midnightSweep (day : ℤ) (batch : String) : ArchiveAct :=
  .sweep (day * dayMicros) (fun _ => batch) fun _ => .verified

def dailySweeps : List ArchiveAct :=
  [.insert (noonEvent "1" 0), midnightSweep 1 "a", .insert (noonEvent "2" 2), midnightSweep 3 "b"]

theorem daily_sweeps_archive : ∃ db, (auditArchive plainDigest).run dailySweeps {} = some db ∧
    db.events.map eventId = ["1", "2"] ∧ ∀ r ∈ db.events, db.Archived r := by
  have hrun : ((auditArchive plainDigest).run dailySweeps {}).map (fun db =>
      (db.events.map eventId,
        db.events.all fun r => db.underWatermark r.orgName r.occurredAt)) = some (["1", "2"], true) := by
    decide +kernel
  have hok : (auditArchive plainDigest).Along
      (fun db a => db.keepsPace plainDigest a = true) dailySweeps {} := by decide +kernel
  obtain ⟨db, hdb, hend⟩ := map_eq_some_iff.1 hrun
  obtain ⟨hids, hunder⟩ := Prod.mk.inj hend
  refine ⟨db, hdb, hids, fun r hr => ?_⟩
  obtain ⟨u, hu, hlt⟩ := underWatermark_iff.1 (all_eq_true.1 hunder r hr)
  obtain ⟨w, hw, rfl⟩ := map_eq_some_iff.1 hu
  exact (watermark_sound plainDigest dailySweeps db hok hdb).1 r hr w hw hlt

def missedDay : List ArchiveAct :=
  [.insert (noonEvent "1" 0), .insert (noonEvent "2" 2), midnightSweep 3 "b"]

/-- The event of that day is below the watermark, and in no object. -/
theorem missed_day_not_archived : ∃ db, (auditArchive plainDigest).run missedDay {} = some db ∧
    ∃ r ∈ db.events, ∃ w, db.watermarks.get? r.orgName = some w ∧
      r.occurredAt < w.lastArchivedWindowEnd ∧ ¬ db.Archived r := by
  have hrun : ((auditArchive plainDigest).run missedDay {}).map (fun db =>
      db.events.any fun r => db.underWatermark r.orgName r.occurredAt &&
        db.store.entries.all fun e => !decide (e.1.toList.getLast? = some 'l' ∧ r.toJsonl <:+: e.2))
          = some true := by decide +kernel
  obtain ⟨db, hdb, hany⟩ := map_eq_some_iff.1 hrun
  obtain ⟨r, hr, hleft⟩ := any_eq_true.1 hany
  obtain ⟨hunder, hnone⟩ := Bool.and_eq_true_iff.1 hleft
  obtain ⟨u, hu, hlt⟩ := underWatermark_iff.1 hunder
  obtain ⟨w, hw, rfl⟩ := map_eq_some_iff.1 hu
  refine ⟨db, hdb, r, hr, w, hw, hlt, fun harch => ?_⟩
  obtain ⟨e, he, hinfix⟩ := harch.infix
  have hcase := all_eq_true.1 hnone e he
  rw [decide_eq_true hinfix] at hcase
  cases hcase

end ArchiveDb

end DeerFlow

import DeerFlow.Backup.Job
import DeerFlow.Proofs.BackupRoundTrip

/-!
# What a backup contains

As long as no commit changes a table between its two readings, an entry that waits for its content
file is the entry the table has now, and the file that is written has its rows (`BackupSite.Sound`).
-/

namespace DeerFlow

open List BackupTableEntry SortedJson

variable {J τ : Type} {V : RowJson J} {T : UtcTimes τ} {sha256 : List Char → String}
variable {schema : List (Table J τ)} {s s' : BackupSite J τ}

def BackupSite.Current (V : RowJson J) (T : UtcTimes τ) (sha256 : List Char → String)
    (schema : List (Table J τ)) (s : BackupSite J τ) (entry : BackupTableEntry) : Prop :=
  ∃ table ∈ schema, entry = tableEntry V T sha256 s.db table

/-- The entries of a manifest that is to be written: each waits for its content file or has it. -/
structure BackupSite.Half (V : RowJson J) (T : UtcTimes τ) (sha256 : List Char → String)
    (schema : List (Table J τ)) (s : BackupSite J τ) (dest : String) (manifest : BackupManifest)
    (todo : List BackupTableEntry) (settled : BackupTableEntry → Prop) : Prop where
  fresh : s.manifests dest = none
  nodup : (manifest.tables.map name).Nodup
  waiting : ∀ entry ∈ todo, entry ∈ manifest.tables ∧ s.Current V T sha256 schema entry
  rest : ∀ entry ∈ manifest.tables, entry ∈ todo ∨ settled entry ∨ s.Describes V sha256 dest entry

def BackupSite.SoundPhase (V : RowJson J) (T : UtcTimes τ) (sha256 : List Char → String)
    (schema : List (Table J τ)) (s : BackupSite J τ) : BackupPhase J τ → Prop
  | .idle => True
  | .snapshot dryRun dest todo entries => dryRun = true ∨ s.manifests dest = none ∧
      ∃ done, done ++ todo = schema ∧ entries = done.map (tableEntry V T sha256 s.db)
  | .reading dest manifest todo =>
      s.Half V T sha256 schema dest manifest todo fun _ => False
  | .writing dest manifest entry rows todo =>
      s.Half V T sha256 schema dest manifest todo (· = entry) ∧ entry ∈ manifest.tables ∧
        rows.length = entry.rowCount ∧ contentDigestForRows V sha256 rows = entry.contentDigest

structure BackupSite.Sound (V : RowJson J) (T : UtcTimes τ) (sha256 : List Char → String)
    (schema : List (Table J τ)) (s : BackupSite J τ) : Prop where
  described : ∀ dest manifest, s.manifests dest = some manifest → ∀ entry ∈ manifest.tables,
    s.Describes V sha256 dest entry
  phase : s.SoundPhase V T sha256 schema s.phase

theorem tableEntry_congr {db db' : Database J τ} {table : Table J τ}
    (h : snapshotTable V T db' table = snapshotTable V T db table) :
    tableEntry V T sha256 db' table = tableEntry V T sha256 db table := by
  simp only [tableEntry, h]

section Step

variable {dest : String} {manifest : BackupManifest} {todo : List BackupTableEntry}

theorem BackupSite.Half.commit
    {settled : BackupTableEntry → Prop} {db : Database J τ}
    (h : s.Half V T sha256 schema dest manifest todo settled)
    (hsame : ∀ table ∈ schema, table.name ∈ todo.map name →
      snapshotTable V T db table = snapshotTable V T s.db table) :
    { s with db }.Half V T sha256 schema dest manifest todo settled := by
  refine ⟨h.fresh, h.nodup, fun entry hentry => ?_, h.rest⟩
  obtain ⟨hmem, table, ht, rfl⟩ := h.waiting entry hentry
  refine ⟨hmem, table, ht, (tableEntry_congr (hsame table ht ?_)).symm⟩
  exact mem_map.2 ⟨_, hentry, rfl⟩

theorem BackupSite.Sound.commit {db : Database J τ} (hs : s.Sound V T sha256 schema)
    (hsame : ∀ table ∈ schema, table.name ∈ s.phase.pending →
      snapshotTable V T db table = snapshotTable V T s.db table) :
    { s with db }.Sound V T sha256 schema := by
  refine ⟨hs.described, ?_⟩
  obtain ⟨db0, files, manifests, phase⟩ := s
  have hphase := hs.phase
  cases phase with
  | idle => trivial
  | snapshot dryRun dest todo entries =>
    rcases hphase with hdry | ⟨hfresh, done, hdone, hentries⟩
    · exact .inl hdry
    · cases dryRun with
      | true => exact .inl rfl
      | false =>
        refine .inr ⟨hfresh, done, hdone, hentries.trans ?_⟩
        refine map_congr_left fun table ht => (tableEntry_congr (hsame table ?_ ?_)).symm
        · exact hdone ▸ mem_append_left _ ht
        · change table.name ∈ entries.map name
          rw [hentries, map_map]
          exact mem_map.2 ⟨table, ht, rfl⟩
  | reading dest manifest todo => exact BackupSite.Half.commit hphase hsame
  | writing dest manifest entry rows todo => exact ⟨hphase.1.commit hsame, hphase.2⟩

theorem BackupSite.Half.begin (hnames : (schema.map Table.name).Nodup)
    (hfresh : s.manifests dest = none) :
    s.Half V T sha256 schema dest ⟨schema.map (tableEntry V T sha256 s.db)⟩
      (schema.map (tableEntry V T sha256 s.db)) fun _ => False := by
  refine ⟨hfresh, ?_, fun entry hentry => ⟨hentry, ?_⟩, fun entry hentry => .inl hentry⟩
  · rw [map_map]
    exact hnames
  · obtain ⟨table, ht, rfl⟩ := mem_map.1 hentry
    exact ⟨table, ht, rfl⟩

theorem BackupSite.Half.read (hnames : (schema.map Table.name).Nodup)
    {entry : BackupTableEntry}
    {table : Table J τ}
    (h : s.Half V T sha256 schema dest manifest (entry :: todo) fun _ => False)
    (ht : findTable schema entry.name = some table) :
    { s with phase := .writing dest manifest entry (snapshotTable V T s.db table) todo }.SoundPhase V
      T sha256 schema (.writing dest manifest entry (snapshotTable V T s.db table) todo) := by
  obtain ⟨hmem, table', ht', rfl⟩ := h.waiting entry mem_cons_self
  rw [tableEntry_name, findTable_name hnames ht'] at ht
  obtain rfl := Option.some.inj ht
  refine ⟨⟨h.fresh, h.nodup, fun e he => h.waiting e (mem_cons_of_mem _ he), fun e he => ?_⟩,
    hmem, rfl, rfl⟩
  rcases h.rest e he with he | he | he
  · rcases mem_cons.1 he with rfl | he
    · exact .inr (.inl rfl)
    · exact .inl he
  · exact he.elim
  · exact .inr (.inr he)

theorem BackupSite.Sound.write
    {entry : BackupTableEntry} {rows : List J}
    (hs : s.Sound V T sha256 schema)
    (h : s.SoundPhase V T sha256 schema (.writing dest manifest entry rows todo)) :
    { s.writeTableRows dest entry.name rows with
      phase := .reading dest manifest todo }.Sound V T sha256 schema := by
  obtain ⟨hhalf, hmem, hlength, hdigest⟩ := h
  refine ⟨fun d m hm e he => ?_, hhalf.fresh, hhalf.nodup, hhalf.waiting, fun e he => ?_⟩
  · have hne : d ≠ dest := by
      rintro rfl
      have := hhalf.fresh.symm.trans hm
      cases this
    obtain ⟨rows', hrows', hfits⟩ := hs.described d m hm e he
    exact ⟨rows', (if_neg fun heq => hne heq.1).trans hrows', hfits⟩
  · by_cases heq : e = entry
    · subst heq
      exact .inr (.inr ⟨rows, if_pos ⟨rfl, rfl⟩, hlength, hdigest⟩)
    · rcases hhalf.rest e he with he' | he' | ⟨rows', hrows', hfits⟩
      · exact .inl he'
      · exact absurd he' heq
      · refine .inr (.inr ⟨rows', (if_neg fun hname => heq ?_).trans hrows', hfits⟩)
        exact inj_on_of_nodup_map hhalf.nodup he hmem hname.2

theorem BackupSite.Sound.finish
    (hs : s.Sound V T sha256 schema)
    (h : s.SoundPhase V T sha256 schema (.reading dest manifest [])) :
    { s.writeManifest dest manifest with phase := .idle }.Sound V T sha256 schema := by
  refine ⟨fun d m hm e he => ?_, trivial⟩
  simp only [BackupSite.writeManifest] at hm
  split_ifs at hm with hd
  · cases hm
    subst hd
    rcases h.rest e he with he' | he' | he'
    · cases he'
    · exact he'.elim
    · exact he'
  · exact hs.described d m hm e he

theorem BackupSite.Sound.stepJob (hnames : (schema.map Table.name).Nodup)
    (hs : s.Sound V T sha256 schema) (h : s.stepJob V T sha256 schema = some s') :
    s'.Sound V T sha256 schema := by
  have hphase := hs.phase
  unfold BackupSite.stepJob at h
  split at h
  · cases h
  · rename_i dryRun dest table todo entries hp
    cases h
    rw [hp] at hphase
    refine ⟨hs.described, ?_⟩
    rcases hphase with hdry | ⟨hfresh, done, hdone, rfl⟩
    · exact .inl hdry
    · exact .inr ⟨hfresh, done ++ [table], by simpa using hdone, by simp⟩
  · rename_i dryRun dest entries hp
    cases h
    rw [hp] at hphase
    refine ⟨hs.described, ?_⟩
    rcases hphase with rfl | ⟨hfresh, done, hdone, rfl⟩
    · trivial
    · cases dryRun with
      | true => trivial
      | false =>
        rw [append_nil] at hdone
        subst hdone
        exact BackupSite.Half.begin hnames hfresh
  · rename_i dest manifest entry todo hp
    rw [hp] at hphase
    split at h
    · cases h
      exact ⟨hs.described, trivial⟩
    · rename_i table ht
      cases h
      exact ⟨hs.described, BackupSite.Half.read hnames hphase ht⟩
  · rename_i dest manifest entry rows todo hp
    cases h
    rw [hp] at hphase
    exact hs.write hphase
  · rename_i dest manifest hp
    cases h
    rw [hp] at hphase
    exact hs.finish hphase

theorem BackupSite.Sound.step {act : BackupAct J τ} (hnames : (schema.map Table.name).Nodup)
    (hs : s.Sound V T sha256 schema) (hok : undisturbedBackup V T schema s act)
    (h : (backupJob V T sha256 schema).step s act = some s') : s'.Sound V T sha256 schema := by
  cases act with
  | commit db =>
    cases h
    exact hs.commit hok
  | start dryRun dest =>
    simp only [backupJob] at h
    split at h
    · cases h
      exact ⟨hs.described, hok.imp_right fun hfresh => ⟨hfresh, [], rfl, rfl⟩⟩
    · cases h
  | step => exact hs.stepJob hnames h
  | crash =>
    cases h
    exact ⟨hs.described, trivial⟩

end Step

/-- In every run whose steps are not disturbed, every backup that has a manifest has a content file
for each of its tables, with as many rows and the digest the manifest says. -/
theorem backup_describes_content {db : Database J τ} {acts : List (BackupAct J τ)}
    (hnames : (schema.map Table.name).Nodup)
    (hok : (backupJob V T sha256 schema).Along (undisturbedBackup V T schema) acts { db })
    (hrun : (backupJob V T sha256 schema).run acts { db } = some s) :
    ∀ dest manifest, s.manifests dest = some manifest → ∀ entry ∈ manifest.tables,
      ∃ rows, s.files dest entry.name = some rows ∧ rows.length = entry.rowCount ∧
        contentDigestForRows V sha256 rows = entry.contentDigest := by
  have h0 : BackupSite.Sound V T sha256 schema { db } := ⟨fun _ _ h => (nomatch h), trivial⟩
  have hs : s.Sound V T sha256 schema :=
    Machine.run_inv (fun _ _ _ hs hok h => hs.step hnames hok h) h0 hok hrun
  exact hs.described

def notesUpTo (n : ℕ) : Database SortedJson String
  | "notes" => (notesWith "b" "notes").drop (2 - n)
  | _ => []

/-- A row is written after the snapshot was taken, and the backup has two rows for an entry of
one. And: a job starts again in the directory of a backup, and dies before its manifest. -/
theorem write_between_reads_is_not_described :
    (∃ s, (backupJob rowJson textTimes String.ofList [notes]).run
        ([.start false "d", .step, .step, .commit (notesUpTo 2), .step, .step, .step])
        { db := notesUpTo 1 } = some s ∧
      (s.manifests "d").map (fun m => m.tables.map rowCount) = some [1] ∧
      (s.files "d" "notes").map List.length = some 2) ∧
    ∃ s, (backupJob rowJson textTimes String.ofList [notes]).run
        ([.start false "d", .step, .step, .step, .step, .step, .commit (notesUpTo 2),
          .start false "d", .step, .step, .step, .step, .crash]) { db := notesUpTo 1 } = some s ∧
      (s.manifests "d").map (fun m => m.tables.map rowCount) = some [1] ∧
      (s.files "d" "notes").map List.length = some 2 :=
  ⟨Machine.exists_of_run_any (by decide +kernel), Machine.exists_of_run_any (by decide +kernel)⟩

/-- A row is written before the table is read for the first time, and one after the second. -/
theorem write_outside_reads_is_described :
    ∃ s, (backupJob rowJson textTimes String.ofList [notes]).run
        [.start false "d", .commit (notesUpTo 1), .step, .step, .step, .commit (notesUpTo 2), .step,
          .step] { db := notesUpTo 0 } = some s ∧
      (s.manifests "d").map (fun m => m.tables.map rowCount) = some [1] ∧
      ∀ dest manifest, s.manifests dest = some manifest → ∀ entry ∈ manifest.tables,
        ∃ rows, s.files dest entry.name = some rows ∧ rows.length = entry.rowCount ∧
          contentDigestForRows rowJson String.ofList rows = entry.contentDigest := by
  obtain ⟨s, hrun, hcounts⟩ :
      ∃ s, (backupJob rowJson textTimes String.ofList [notes]).run
        [.start false "d", .commit (notesUpTo 1), .step, .step, .step, .commit (notesUpTo 2), .step,
          .step] { db := notesUpTo 0 } = some s ∧
        (s.manifests "d").map (fun m => m.tables.map rowCount) = some [1] :=
    Machine.exists_of_run_any (by decide +kernel)
  exact ⟨s, hrun, hcounts, backup_describes_content (by decide) (by decide +kernel) hrun⟩

end DeerFlow

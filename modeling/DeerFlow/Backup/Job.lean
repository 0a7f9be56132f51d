import DeerFlow.Backup.Snapshot

/-!
# The backup job

`_run` of `scripts/backup.py` beside an application that goes on writing. Every table is read twice:
for its entry in the manifest and for its content file. Each file is written at once, the manifest
last.
-/

namespace DeerFlow

open BackupTableEntry

section Job

variable {J τ : Type}

inductive BackupPhase (J τ : Type) where
  | idle
  /-- `take_snapshot` reads the next table of `todo`. -/
  | snapshot (dryRun : Bool) (dest : String) (todo : List (Table J τ))
      (entries : List BackupTableEntry)
  /-- The next entry of the manifest is read for its content file. -/
  | reading (dest : String) (manifest : BackupManifest) (todo : List BackupTableEntry)
  /-- `write_table_rows` has the rows of an entry. -/
  | writing (dest : String) (manifest : BackupManifest) (entry : BackupTableEntry) (rows : List J)
      (todo : List BackupTableEntry)

/-- The database, and for each destination the rows of its content files and its manifest. -/
structure BackupSite (J τ : Type) where
  db : Database J τ
  files : String → String → Option (List J) := fun _ _ => none
  manifests : String → Option BackupManifest := fun _ => none
  phase : BackupPhase J τ := .idle

/-- What happens: the application commits, or the job is started, goes on or dies. -/
inductive BackupAct (J τ : Type) where
  | commit (db : Database J τ)
  | start (dryRun : Bool) (dest : String)
  | step
  | crash

variable (V : RowJson J) (T : UtcTimes τ) (sha256 : List Char → String) (schema : List (Table J τ))

def BackupSite.writeTableRows (s : BackupSite J τ) (dest name : String) (rows : List J) :
    BackupSite J τ :=
  { s with files := fun d n => if d = dest ∧ n = name then some rows else s.files d n }

def BackupSite.writeManifest (s : BackupSite J τ) (dest : String) (manifest : BackupManifest) :
    BackupSite J τ :=
  { s with manifests := fun d => if d = dest then some manifest else s.manifests d }

def BackupSite.stepJob (s : BackupSite J τ) : Option (BackupSite J τ) :=
  match s.phase with
  | .idle => none
  | .snapshot dryRun dest (table :: todo) entries =>
    some { s with
      phase := .snapshot dryRun dest todo (entries ++ [tableEntry V T sha256 s.db table]) }
  | .snapshot dryRun dest [] entries =>
    some { s with phase := if dryRun then .idle else .reading dest ⟨entries⟩ entries }
  | .reading dest manifest (entry :: todo) =>
    match findTable schema entry.name with
    -- A `KeyError` of `Base.metadata.tables` ends the job.
    | none => some { s with phase := .idle }
    | some table =>
      some { s with phase := .writing dest manifest entry (snapshotTable V T s.db table) todo }
  | .writing dest manifest entry rows todo =>
    some { s.writeTableRows dest entry.name rows with phase := .reading dest manifest todo }
  | .reading dest manifest [] => some { s.writeManifest dest manifest with phase := .idle }

def backupJob : Machine (BackupSite J τ) (BackupAct J τ) where
  step s act :=
    match act with
    | .commit db => some { s with db }
    | .start dryRun dest =>
      match s.phase with
      | .idle => some { s with phase := .snapshot dryRun dest schema [] }
      | _ => none
    | .step => s.stepJob V T sha256 schema
    | .crash => some { s with phase := .idle }

def BackupSite.Describes (s : BackupSite J τ) (dest : String) (entry : BackupTableEntry) : Prop :=
  ∃ rows, s.files dest entry.name = some rows ∧ rows.length = entry.rowCount ∧
    contentDigestForRows V sha256 rows = entry.contentDigest

def BackupPhase.pending : BackupPhase J τ → List String
  | .idle => []
  | .snapshot dryRun _ _ entries => if dryRun then [] else entries.map name
  | .reading _ _ todo => todo.map name
  | .writing _ _ _ _ todo => todo.map name

/-- No commit changes a table that is to be read again, and a job that writes finds no manifest. -/
def undisturbedBackup (s : BackupSite J τ) : BackupAct J τ → Prop
  | .commit db => ∀ table ∈ schema, table.name ∈ s.phase.pending →
      snapshotTable V T db table = snapshotTable V T s.db table
  | .start dryRun dest => dryRun = true ∨ s.manifests dest = none
  | .step => True
  | .crash => True

instance decidableUndisturbedBackup [DecidableEq J] (s : BackupSite J τ) (act) :
    Decidable (undisturbedBackup V T schema s act) := by
  unfold undisturbedBackup
  split <;> infer_instance

end Job

end DeerFlow

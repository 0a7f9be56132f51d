import DeerFlow.Events.Jsonl
import DeerFlow.JsonText

/-!
# Snapshots of the tables

`take_snapshot` records the row count and a digest of each table, `write_table_rows` writes the rows
of a table, one JSON text a line, `restore_from_manifest` reads the files into an empty database and
`verify` compares it with the manifest.
-/

namespace DeerFlow

/-- Whether a JSON text that starts outside or inside a string ends inside one. -/
def endsInString : Bool → List Char → Bool
  | inside, [] => inside
  | false, c :: cs => endsInString (c = '"') cs
  | true, '\\' :: _ :: cs => endsInString true cs
  | true, c :: cs => endsInString (c ≠ '"') cs

/-- JSON values as Python compares them: `dumps` is `json.dumps(v, sort_keys=True,
ensure_ascii=False)`, `loads` is `json.loads` and `payload` is `_stable_row_payload`. -/
structure RowJson (J : Type) where
  null : J
  str : String → J
  dict : List (String × J) → J
  str? : J → Option String
  /-- `row.get`, of a dict. -/
  get? : J → Option (String → Option J)
  dumps : J → List Char
  loads : List Char → Option J
  payload : List J → List Char
  str?_str : ∀ s, str? (str s) = some s
  str?_null : str? null = none
  get?_dict : ∀ kvs, (kvs.map Prod.fst).Nodup → ∃ get, get? (dict kvs) = some get ∧
    ∀ k v, (k, v) ∈ kvs → get k = some v
  loads_dumps : ∀ v, loads (dumps v) = some v
  dumps_printable : ∀ v, ∀ c ∈ dumps v, 32 ≤ c.toNat
  dumps_dict : ∀ kvs, ∃ body, dumps (dict kvs) = '{' :: (body ++ ['}'])
  /-- A line boundary is part of a string. -/
  dumps_quoted : ∀ v p c r, dumps v = p ++ c :: r → isLineBreak c = true →
    endsInString false p = true
  loads_closed : ∀ cs v, loads cs = some v → endsInString false cs = false

/-- `datetime`, in UTC. -/
structure UtcTimes (τ : Type) where
  isoformat : τ → String
  fromisoformat : String → Option τ
  from_iso : ∀ t, fromisoformat (isoformat t) = some t

section Cells

variable {J τ : Type}

/-- The value of a cell; `None` and every value that is no `datetime` and no `bytes` is a JSON
value. -/
inductive Cell (J τ : Type) where
  | time (t : τ)
  | bytes (bs : List UInt8)
  | value (v : J)

inductive ColumnType where
  | dateTime
  | largeBinary
  | other

structure Column where
  key : String
  type : ColumnType

/-- A table of `Base.metadata`; `le` compares rows by their primary key. -/
structure Table (J τ : Type) where
  name : String
  columns : List Column
  le : List (Cell J τ) → List (Cell J τ) → Prop
  decLe : DecidableRel le
  le_trans : ∀ a b c, le a b → le b c → le a c
  le_total : ∀ a b, le a b ∨ le b a
  nodup : (columns.map Column.key).Nodup

attribute [instance] Table.decLe

/-- `Base.metadata.tables.get(name)`. -/
def findTable (schema : List (Table J τ)) (name : String) : Option (Table J τ) :=
  schema.find? (·.name = name)

abbrev Database (J τ : Type) := String → List (List (Cell J τ))

variable (V : RowJson J) (T : UtcTimes τ)

/-- `bytes.hex`. -/
def hexText (bs : List UInt8) : String :=
  String.ofList (bs.flatMap fun b => [hexDigit (b.toNat / 16), hexDigit (b.toNat % 16)])

/-- `bytes.fromhex`, which skips blanks between bytes; `none` for a `ValueError`. -/
def fromHex : List Char → Option (List UInt8)
  | [] => some []
  | [a] => if a.isWhitespace || a = '\x0b' || a = '\x0c' then some [] else none
  | a :: b :: cs =>
    if a.isWhitespace || a = '\x0b' || a = '\x0c' then fromHex (b :: cs)
    else do
      let x ← hexValue a
      let y ← hexValue b
      let bs ← fromHex cs
      some (UInt8.ofNat (16 * x + y) :: bs)

def normaliseValue : Cell J τ → J
  | .time t => V.str (T.isoformat t)
  | .bytes bs => V.str (hexText bs)
  | .value v => v

def normaliseRow (table : Table J τ) (row : List (Cell J τ)) : J :=
  V.dict ((table.columns.map Column.key).zip (row.map (normaliseValue V T)))

def coerceForColumn (v : J) : ColumnType → Cell J τ
  | .dateTime => ((V.str? v).bind T.fromisoformat).elim (.value v) .time
  | .largeBinary => ((V.str? v).bind fun s => fromHex s.toList).elim (.value v) .bytes
  | .other => .value v

def Cell.Fits : ColumnType → Cell J τ → Prop
  | .dateTime, .time _ => True
  | .largeBinary, .bytes _ => True
  | .other, .value _ => True
  | .dateTime, .value v => v = V.null
  | .largeBinary, .value v => v = V.null
  | _, _ => False

def Database.Fits (schema : List (Table J τ)) (db : Database J τ) : Prop :=
  ∀ table ∈ schema, ∀ row ∈ db table.name,
    List.Forall₂ (fun (column : Column) cell => Cell.Fits V column.type cell) table.columns row

end Cells

structure BackupTableEntry where
  name : String
  rowCount : ℕ
  contentDigest : String
  columns : List String
  deriving DecidableEq

/-- `BackupManifest`, as far as it is about the tables. -/
structure BackupManifest where
  tables : List BackupTableEntry

section Snapshot

variable {J τ : Type} (V : RowJson J) (T : UtcTimes τ) (sha256 : List Char → String)

def contentDigestForRows (rows : List J) : String := sha256 (V.payload rows)

/-- `SELECT` with `ORDER BY` the primary key. -/
def Table.select (table : Table J τ) (db : Database J τ) : List (List (Cell J τ)) :=
  (db table.name).insertionSort table.le

def snapshotTable (db : Database J τ) (table : Table J τ) : List J :=
  (table.select db).map (normaliseRow V T table)

def tableEntry (db : Database J τ) (table : Table J τ) : BackupTableEntry where
  name := table.name
  rowCount := (snapshotTable V T db table).length
  contentDigest := contentDigestForRows V sha256 (snapshotTable V T db table)
  columns := table.columns.map Column.key

def takeSnapshot (schema : List (Table J τ)) (db : Database J τ) : BackupManifest where
  tables := schema.map (tableEntry V T sha256 db)

/-- The text `write_table_rows` writes. -/
def tableText (rows : List J) : List Char := rows.flatMap fun row => V.dumps row ++ ['\n']

def contentFiles (schema : List (Table J τ)) (db : Database J τ) (name : String) :
    Option (List Char) :=
  (findTable schema name).map fun table => tableText V (snapshotTable V T db table)

end Snapshot

section Restore

variable {J τ : Type} (V : RowJson J) (T : UtcTimes τ)

/-- What `restore_from_manifest` raises. -/
inductive RestoreFailure where
  | targetNotEmpty (name : String)
  | contentMissing (name : String)
  | jsonDecodeError
  | attributeError
  | keyError (name : String)

def loadLines : List (List Char) → Except RestoreFailure (List J)
  | [] => .ok []
  | line :: lines =>
    if strip line = [] then loadLines lines
    else
      match V.loads (strip line) with
      | none => .error .jsonDecodeError
      | some row => do
        let rows ← loadLines lines
        pure (row :: rows)

def iterSnapshotRows (text : List Char) : Except RestoreFailure (List J) := loadLines V (splitlines text)

/-- The row that is inserted: the columns of the manifest that the table has. -/
def restoreRow (table : Table J τ) (columns : List String) (row : J) :
    Except RestoreFailure (List (Cell J τ)) :=
  match V.get? row with
  | none => .error .attributeError
  | some get => .ok (columns.filterMap fun key => (table.columns.find? (·.key = key)).map
      fun column => coerceForColumn V T ((get key).getD V.null) column.type)

def restoreRows (table : Table J τ) (columns : List String) :
    List J → Except RestoreFailure (List (List (Cell J τ)))
  | [] => .ok []
  | row :: rows => do
    let row ← restoreRow V T table columns row
    let rows ← restoreRows table columns rows
    pure (row :: rows)

/-- `_write_table_rows`: the rows are added to those of the table. -/
def writeTableRows (table : Table J τ) (entry : BackupTableEntry) (rows : List J)
    (db : Database J τ) : Except RestoreFailure (Database J τ × ℕ) := do
  let inserted ← restoreRows V T table entry.columns rows
  pure (fun name => if name = entry.name then db name ++ inserted else db name, rows.length)

structure RestoreReport where
  restoredCounts : List (String × ℕ) := []
  integrityOk : Bool := true
  tablesInOrder : List String := []

def restoreTable (schema : List (Table J τ)) (files : String → Option (List Char))
    (entry : BackupTableEntry) (db : Database J τ) (report : RestoreReport) :
    Except RestoreFailure (Database J τ × RestoreReport) :=
  match files entry.name with
  | none => .error (.contentMissing entry.name)
  | some text => do
    let rows ← iterSnapshotRows V text
    match findTable schema entry.name with
    | none => .error (.keyError entry.name)
    | some table => do
      let (db, written) ← writeTableRows V T table entry rows db
      pure (db,
        { restoredCounts := report.restoredCounts ++ [(entry.name, written)]
          integrityOk := report.integrityOk && decide (written = entry.rowCount)
          tablesInOrder := report.tablesInOrder ++ [entry.name] })

def restoreTables (schema : List (Table J τ)) (files : String → Option (List Char)) :
    List BackupTableEntry → Database J τ → RestoreReport →
      Except RestoreFailure (Database J τ × RestoreReport)
  | [], db, report => .ok (db, report)
  | entry :: entries, db, report => do
    let (db, report) ← restoreTable V T schema files entry db report
    restoreTables schema files entries db report

def assertTargetEmpty (schema : List (Table J τ)) (db : Database J τ) : Except RestoreFailure Unit :=
  match schema.find? fun table => !(db table.name).isEmpty with
  | some table => .error (.targetNotEmpty table.name)
  | none => .ok ()

def restoreFromManifest (schema : List (Table J τ)) (manifest : BackupManifest)
    (files : String → Option (List Char)) (db : Database J τ) :
    Except RestoreFailure (Database J τ × RestoreReport) := do
  assertTargetEmpty schema db
  restoreTables V T schema files manifest.tables db {}

end Restore

section Verify

variable {J τ : Type} (V : RowJson J) (T : UtcTimes τ) (sha256 : List Char → String)

def mismatches (schema : List (Table J τ)) (fits : Table J τ → BackupTableEntry → Bool)
    (missing : Bool) (manifest : BackupManifest) : List String :=
  (manifest.tables.filter fun entry =>
    match findTable schema entry.name with
    | none => missing
    | some table => !fits table entry).map BackupTableEntry.name

/-- `_check_row_counts` passes. -/
def checkRowCounts (schema : List (Table J τ)) (db : Database J τ) (manifest : BackupManifest) : Bool :=
  (mismatches schema (fun table entry => (db table.name).length = entry.rowCount) true
    manifest).isEmpty

/-- `_check_content_digests` passes. -/
def checkContentDigests (schema : List (Table J τ)) (db : Database J τ) (manifest : BackupManifest) :
    Bool :=
  (mismatches schema (fun table entry =>
    contentDigestForRows V sha256 (snapshotTable V T db table) = entry.contentDigest) false
    manifest).isEmpty

end Verify

end DeerFlow

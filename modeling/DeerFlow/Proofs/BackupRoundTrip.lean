import DeerFlow.Proofs.RowJson
import DeerFlow.Proofs.MemoryUpdates

/-!
# Restoring a snapshot

Every cell comes back from its normalised form, every row from the dict of its cells and every table
from the lines of its file, as long as no line is broken: `json.dumps` leaves NEL and the Unicode
separators as they are (`backup_restores_iff`).
-/

namespace DeerFlow

open List Option SortedJson Column

variable {J τ : Type} {V : RowJson J} {T : UtcTimes τ}

theorem hexDigit_not_blank : ∀ n, n < 16 → ((hexDigit n).isWhitespace || hexDigit n = '\x0b' ||
    hexDigit n = '\x0c') = false := by decide

theorem fromHex_cons (b : UInt8) (cs : List Char) :
    fromHex (hexDigit (b.toNat / 16) :: hexDigit (b.toNat % 16) :: cs) =
      (fromHex cs).map (b :: ·) := by
  have hb : b.toNat < 256 := b.toNat_lt
  have hdigits : UInt8.ofNat (16 * (b.toNat / 16) + b.toNat % 16) = b := by
    rw [Nat.div_add_mod, UInt8.ofNat_toNat]
  rw [fromHex, hexDigit_not_blank _ (by omega), if_neg (by decide), hexValue_hexDigit _ (by omega),
    hexValue_hexDigit _ (by omega)]
  cases fromHex cs with
  | none => rfl
  | some bs =>
    change some (UInt8.ofNat (16 * (b.toNat / 16) + b.toNat % 16) :: bs) = some (b :: bs)
    rw [hdigits]

theorem fromHex_hexText (bs : List UInt8) : fromHex (hexText bs).toList = some bs := by
  unfold hexText
  rw [String.toList_ofList]
  induction bs with
  | nil => rfl
  | cons b bs ih =>
    rw [flatMap_cons, cons_append, cons_append, nil_append, fromHex_cons, ih]
    rfl

theorem coerceForColumn_normaliseValue {type : ColumnType} {cell : Cell J τ}
    (h : Cell.Fits V type cell) : coerceForColumn V T (normaliseValue V T cell) type = cell := by
  cases type with
  | dateTime =>
    cases cell with
    | time t => simp [coerceForColumn, normaliseValue, V.str?_str, T.from_iso]
    | bytes bs => cases h
    | value v =>
      have hv : v = V.null := h
      simp [coerceForColumn, normaliseValue, hv, V.str?_null]
  | largeBinary =>
    cases cell with
    | time t => cases h
    | bytes bs => simp [coerceForColumn, normaliseValue, V.str?_str, fromHex_hexText]
    | value v =>
      have hv : v = V.null := h
      simp [coerceForColumn, normaliseValue, hv, V.str?_null]
  | other =>
    cases cell with
    | time t => cases h
    | bytes bs => cases h
    | value v => rfl

theorem map_coerce {get : String → Option J} : ∀ {columns : List Column} {row : List (Cell J τ)},
      List.Forall₂ (fun (column : Column) cell => Cell.Fits V column.type cell) columns row →
      (∀ kv ∈ (columns.map key).zip (row.map (normaliseValue V T)), get kv.1 = some kv.2) →
      columns.map (fun column => coerceForColumn V T ((get column.key).getD V.null) column.type)
        = row
  | [], [], _, _ => rfl
  | column :: columns, cell :: row, .cons hcell hrow, hget => by
    rw [map_cons, map_cons, zip_cons_cons] at hget
    obtain ⟨hfirst, hrest⟩ := forall_mem_cons.1 hget
    rw [map_cons, hfirst, getD_some, coerceForColumn_normaliseValue hcell, map_coerce hrow hrest]

theorem restoreRow_normaliseRow {table : Table J τ} {row : List (Cell J τ)}
    (h : List.Forall₂ (fun (column : Column) cell => Cell.Fits V column.type cell)
      table.columns row) :
    restoreRow V T table (table.columns.map key) (normaliseRow V T table row) = .ok row := by
  have hkeys : (((table.columns.map key).zip (row.map (normaliseValue V T))).map
      Prod.fst).Nodup := by
    rw [map_fst_zip (by simp [h.length_eq])]
    exact table.nodup
  obtain ⟨get, hget, hall⟩ := V.get?_dict _ hkeys
  unfold restoreRow normaliseRow
  rw [hget]
  simp only [filterMap_map]
  congr 1
  have hcols : ∀ column ∈ table.columns, (((fun key => (table.columns.find? (·.key = key)).map
      fun column => (coerceForColumn V T ((get key).getD V.null) column.type : Cell J τ)) ∘
        key) column) = some (coerceForColumn V T ((get column.key).getD V.null) column.type) := by
    intro column hc
    simp only [Function.comp_apply]
    rw [find?_of_nodup table.nodup hc]
    rfl
  rw [filterMap_congr hcols, filterMap_eq_map']
  exact map_coerce h fun kv hkv => hall kv.1 kv.2 hkv

theorem restoreRows_normaliseRows {table : Table J τ} : ∀ {rows : List (List (Cell J τ))},
    (∀ row ∈ rows, List.Forall₂ (fun (column : Column) cell => Cell.Fits V column.type cell)
      table.columns row) →
    restoreRows V T table (table.columns.map key) (rows.map (normaliseRow V T table)) =
      .ok rows
  | [], _ => rfl
  | row :: rows, h => by
    obtain ⟨hrow, hrows⟩ := forall_mem_cons.1 h
    rw [map_cons, restoreRows, restoreRow_normaliseRow hrow]
    change (restoreRows V T table (table.columns.map key)
      (rows.map (normaliseRow V T table)) >>= fun rows => pure (row :: rows)) = _
    rw [restoreRows_normaliseRows hrows]
    rfl

def IsDict (V : RowJson J) (row : J) : Prop := ∃ body, V.dumps row = '{' :: (body ++ ['}'])

theorem strip_dumps {row : J} (h : IsDict V row) : strip (V.dumps row) = V.dumps row := by
  obtain ⟨body, hbody⟩ := h
  rw [strip_eq_stripEnd, stripEnd_of_last]
  · rw [hbody, ← cons_append, getLast?_concat]
    intro c hc
    cases hc
    rfl
  · rw [hbody]
    intro c hc
    cases hc
    rfl

theorem loadLines_dumps : ∀ {rows : List J}, (∀ row ∈ rows, IsDict V row) →
    loadLines V (rows.map V.dumps) = .ok rows
  | [], _ => rfl
  | row :: rows, h => by
    obtain ⟨hrow, hrows⟩ := forall_mem_cons.1 h
    have hne : V.dumps row ≠ [] := by
      obtain ⟨body, hbody⟩ := hrow
      rw [hbody]
      exact cons_ne_nil _ _
    rw [map_cons, loadLines, strip_dumps hrow, if_neg hne, V.loads_dumps]
    rw [loadLines_dumps hrows]
    rfl

theorem tableText_eq_joined (rows : List J) : tableText V rows = joined (rows.map V.dumps) := by
  rw [tableText, joined, flatMap_map]

theorem iterSnapshotRows_tableText {rows : List J} (hdict : ∀ row ∈ rows, IsDict V row)
    (h : ∀ row ∈ rows, Unbroken (V.dumps row)) : iterSnapshotRows V (tableText V rows) = .ok rows := by
  have hlines : ∀ l ∈ rows.map V.dumps, Unbroken l := by
    intro l hl
    obtain ⟨row, hrow, rfl⟩ := mem_map.1 hl
    exact h row hrow
  have hsplit := splitlines_joined hlines []
  rw [append_nil] at hsplit
  rw [iterSnapshotRows, tableText_eq_joined, hsplit]
  change loadLines V (rows.map V.dumps ++ []) = _
  rw [append_nil]
  exact loadLines_dumps hdict

theorem exists_break : ∀ {cs : List Char}, ¬ Unbroken cs →
    ∃ p c r, cs = p ++ c :: r ∧ Unbroken p ∧ isLineBreak c
  | [], h => absurd nofun h
  | c :: cs, h => by
    by_cases hc : isLineBreak c
    · exact ⟨[], c, cs, rfl, nofun, hc⟩
    · have hcs : ¬ Unbroken cs := fun hcs => h fun d hd => by
        rcases mem_cons.1 hd with rfl | hd
        · exact eq_false_of_ne_true hc
        · exact hcs d hd
      obtain ⟨p, d, r, rfl, hp, hd⟩ := exists_break hcs
      refine ⟨c :: p, d, r, rfl, fun e he => ?_, hd⟩
      rcases mem_cons.1 he with rfl | he
      · exact eq_false_of_ne_true hc
      · exact hp e he

theorem loadLines_append_ok : ∀ {ls ms : List (List Char)} {rows : List J},
    loadLines V (ls ++ ms) = .ok rows → ∃ rows', loadLines V ms = .ok rows'
  | [], ms, rows, h => ⟨rows, h⟩
  | l :: ls, ms, rows, h => by
    rw [cons_append, loadLines] at h
    split_ifs at h
    · exact loadLines_append_ok h
    · split at h
      · cases h
      · obtain ⟨rows', hrows', -⟩ := exists_of_bind_ok h
        exact loadLines_append_ok hrows'

theorem loadLines_broken {row : J} (hdict : IsDict V row) (h : ¬ Unbroken (V.dumps row))
    (cs : List Char) (rows : List J) :
    loadLines V (splitlines (V.dumps row ++ '\n' :: cs)) ≠ .ok rows := by
  obtain ⟨p, c, r, hsplit, hp, hc⟩ := exists_break h
  obtain ⟨body, hbody⟩ := hdict
  have hmem : c ∈ V.dumps row := by
    rw [hsplit]
    exact mem_append_right _ mem_cons_self
  have hquoted := V.dumps_quoted row p c r hsplit hc
  have hfirst : p.head? = some '{' := by
    cases p with
    | nil => cases hquoted
    | cons d p =>
      rw [hsplit, cons_append] at hbody
      rw [(cons.inj hbody).1]
      rfl
  have hstrip : strip p = stripEnd p := strip_eq_stripEnd fun d hd => by
    rw [hfirst] at hd
    cases hd
    rfl
  have hopen := endsInString_stripEnd hquoted
  rw [hsplit, append_assoc, splitlines, cons_append,
    splitFrom_break hp hc (V.dumps_printable row c hmem), nil_append, loadLines, hstrip]
  intro hload
  split_ifs at hload with hnil
  · rw [hnil] at hopen
    cases hopen
  · split at hload
    · cases hload
    · rename_i v hv
      rw [V.loads_closed _ _ hv] at hopen
      cases hopen

theorem unbroken_of_iterSnapshotRows : ∀ {rows rows' : List J}, (∀ row ∈ rows, IsDict V row) →
    iterSnapshotRows V (tableText V rows) = .ok rows' → ∀ row ∈ rows, Unbroken (V.dumps row)
  | [], _, _, _ => nofun
  | row :: rows, rows', hdict, h => by
    obtain ⟨hrow, hrows⟩ := forall_mem_cons.1 hdict
    have htext : tableText V (row :: rows) = V.dumps row ++ '\n' :: tableText V rows := by
      rw [tableText, flatMap_cons, append_assoc]
      rfl
    have hfirst : Unbroken (V.dumps row) := by
      by_contra hbroken
      rw [iterSnapshotRows, htext] at h
      exact loadLines_broken hrow hbroken _ _ h
    refine forall_mem_cons.2 ⟨hfirst, ?_⟩
    rw [iterSnapshotRows, htext] at h
    have hline := @splitFrom_line [] (V.dumps row) (tableText V rows) hfirst
    rw [splitlines, hline, nil_append] at h
    have hlines : loadLines V ([V.dumps row] ++ splitlines (tableText V rows)) = .ok rows' := h
    obtain ⟨rows'', hrest⟩ := loadLines_append_ok hlines
    exact unbroken_of_iterSnapshotRows hrows hrest

section Tables

variable {sha256 : List Char → String} {schema : List (Table J τ)} {db : Database J τ}

theorem isDict_normaliseRow (table : Table J τ) (row : List (Cell J τ)) :
    IsDict V (normaliseRow V T table row) := V.dumps_dict _

theorem isDict_snapshotTable (table : Table J τ) (db : Database J τ) :
    ∀ row ∈ snapshotTable V T db table, IsDict V row := by
  intro row hrow
  obtain ⟨cells, -, rfl⟩ := mem_map.1 hrow
  exact isDict_normaliseRow table cells

def Table.Unbroken (V : RowJson J) (T : UtcTimes τ) (table : Table J τ) (db : Database J τ) : Prop :=
  ∀ row ∈ db table.name, DeerFlow.Unbroken (V.dumps (normaliseRow V T table row))

variable {table : Table J τ}

theorem unbroken_snapshotTable :
    (∀ row ∈ snapshotTable V T db table, Unbroken (V.dumps row)) ↔ table.Unbroken V T db := by
  unfold snapshotTable Table.select Table.Unbroken
  simp only [List.forall_mem_map, mem_insertionSort]

theorem findTable_name (hnames : (schema.map Table.name).Nodup)
    (ht : table ∈ schema) : findTable schema table.name = some table := 
  find?_of_nodup hnames ht

theorem contentFiles_name (hnames : (schema.map Table.name).Nodup)
    (ht : table ∈ schema) : contentFiles V T schema db table.name =
      some (tableText V (snapshotTable V T db table)) := by
  rw [contentFiles, findTable_name hnames ht]
  rfl

@[simp] theorem tableEntry_name (table : Table J τ) :
    (tableEntry V T sha256 db table).name = table.name := rfl

theorem restoreTable_ok (hnames : (schema.map Table.name).Nodup) (hfits : db.Fits V schema)
    (ht : table ∈ schema) (hunbroken : table.Unbroken V T db)
    (sha256 : List Char → String) (target : Database J τ) (report : RestoreReport) :
    ∃ report', restoreTable V T schema (contentFiles V T schema db)
        (tableEntry V T sha256 db table) target report =
          .ok (fun name => if name = table.name then target name ++ table.select db else target name,
            report') ∧ report'.integrityOk = report.integrityOk := by
  have hrows : restoreRows V T table (table.columns.map key) (snapshotTable V T db table) =
      .ok (table.select db) :=
    restoreRows_normaliseRows fun row hrow =>
      hfits table ht row ((mem_insertionSort _).1 hrow)
  have hiter := iterSnapshotRows_tableText (isDict_snapshotTable table db)
    (unbroken_snapshotTable.2 hunbroken)
  have hwrite : writeTableRows V T table (tableEntry V T sha256 db table)
      (snapshotTable V T db table) target =
        .ok (fun name => if name = table.name then target name ++ table.select db else target name,
          (snapshotTable V T db table).length) := by
    change (restoreRows V T table (table.columns.map key) (snapshotTable V T db table) >>=
      fun inserted => _) = _
    rw [hrows]
    rfl
  refine ⟨⟨report.restoredCounts ++ [(table.name, (snapshotTable V T db table).length)],
    report.integrityOk && true, report.tablesInOrder ++ [table.name]⟩, ?_, Bool.and_true _⟩
  simp only [restoreTable, tableEntry_name, contentFiles_name hnames ht, hiter,
    findTable_name hnames ht, bind, Except.bind, hwrite]
  simp [tableEntry, pure, Except.pure]

theorem restoreTables_ok (hnames : (schema.map Table.name).Nodup) (hfits : db.Fits V schema)
    (hunbroken : ∀ table ∈ schema, table.Unbroken V T db) (sha256 : List Char → String) :
    ∀ (todo : List (Table J τ)) (target : Database J τ) (report : RestoreReport),
      (∀ table ∈ todo, table ∈ schema) → (todo.map Table.name).Nodup →
      (∀ table ∈ todo, target table.name = []) →
      ∃ target' report', restoreTables V T schema (contentFiles V T schema db)
          (todo.map (tableEntry V T sha256 db)) target report = .ok (target', report') ∧
        report'.integrityOk = report.integrityOk ∧
        (∀ table ∈ todo, target' table.name = table.select db) ∧
        ∀ name, name ∉ todo.map Table.name → target' name = target name
  | [], target, report, _, _, _ => ⟨target, report, rfl, rfl, by simp, fun _ _ => rfl⟩
  | table :: todo, target, report, hsub, hnodup, hempty => by
    obtain ⟨ht, hsub⟩ := forall_mem_cons.1 hsub
    obtain ⟨he, hempty⟩ := forall_mem_cons.1 hempty
    rw [map_cons, nodup_cons] at hnodup
    obtain ⟨report1, hfirst, hintegrity⟩ :=
      restoreTable_ok hnames hfits ht (hunbroken table ht) sha256 target report
    have hne : ∀ d ∈ todo, d.name ≠ table.name := fun d hd heq =>
      hnodup.1 (heq ▸ mem_map_of_mem hd)
    obtain ⟨target', report', hrest, hintegrity', hdone, hkeep⟩ :=
      restoreTables_ok hnames hfits hunbroken sha256 todo
        (fun name => if name = table.name then target name ++ table.select db else target name)
        report1 hsub hnodup.2 fun d hd => by rw [if_neg (hne d hd)]; exact hempty d hd
    refine ⟨target', report', ?_, hintegrity'.trans hintegrity, ?_, fun name hname => ?_⟩
    · rw [map_cons, restoreTables, hfirst]
      exact hrest
    · refine forall_mem_cons.2 ⟨?_, hdone⟩
      rw [hkeep _ hnodup.1, if_pos rfl, he, nil_append]
    · rw [map_cons, mem_cons, not_or] at hname
      rw [hkeep name hname.2, if_neg hname.1]

theorem unbroken_of_restoreTables (hnames : (schema.map Table.name).Nodup) :
    ∀ {todo : List (Table J τ)} {target : Database J τ} {report : RestoreReport}
      {result : Database J τ × RestoreReport}, (∀ table ∈ todo, table ∈ schema) →
      restoreTables V T schema (contentFiles V T schema db) (todo.map (tableEntry V T sha256 db))
        target report = .ok result → ∀ table ∈ todo, table.Unbroken V T db
  | [], _, _, _, _, _ => by simp
  | table :: todo, target, report, result, hsub, h => by
    obtain ⟨ht, hsub⟩ := forall_mem_cons.1 hsub
    obtain ⟨⟨target1, report1⟩, hfirst, hrest⟩ := exists_of_bind_ok h
    refine forall_mem_cons.2 ⟨?_, unbroken_of_restoreTables hnames hsub hrest⟩
    simp only [restoreTable, tableEntry_name, contentFiles_name hnames ht] at hfirst
    obtain ⟨rows, hrows, -⟩ := exists_of_bind_ok hfirst
    exact unbroken_snapshotTable.1
      (unbroken_of_iterSnapshotRows (isDict_snapshotTable table db) hrows)

theorem mismatches_eq_nil {fits : Table J τ → BackupTableEntry → Bool} {missing : Bool}
    (hnames : (schema.map Table.name).Nodup)
    (h : ∀ table ∈ schema, fits table (tableEntry V T sha256 db table)) :
    mismatches schema fits missing (takeSnapshot V T sha256 schema db) = [] := by
  unfold mismatches takeSnapshot
  rw [map_eq_nil_iff, filter_eq_nil_iff]
  intro entry hentry
  obtain ⟨table, ht, rfl⟩ := mem_map.1 hentry
  rw [tableEntry_name, findTable_name hnames ht]
  simp [h table ht]

theorem select_eq {target : Database J τ}
    (h : target table.name = table.select db) : table.select target = table.select db := by
  have : IsTrans _ table.le := ⟨table.le_trans⟩
  have : Std.Total table.le := ⟨table.le_total⟩
  unfold Table.select
  rw [h]
  exact (pairwise_insertionSort table.le _).insertionSort_eq

/-- A backup that is made while nothing is written can be restored into an empty database, with the
row counts and the digests of its manifest, exactly where no row has a JSON text with a line
boundary in it. -/
theorem backup_restores_iff (hnames : (schema.map Table.name).Nodup) (hfits : db.Fits V schema) :
    (∃ target report, restoreFromManifest V T schema (takeSnapshot V T sha256 schema db)
        (contentFiles V T schema db) (fun _ => []) = .ok (target, report) ∧
      report.integrityOk = true ∧
      checkRowCounts schema target (takeSnapshot V T sha256 schema db) = true ∧
      checkContentDigests V T sha256 schema target (takeSnapshot V T sha256 schema db) = true) ↔
    ∀ table ∈ schema, ∀ row ∈ db table.name, ∀ c ∈ V.dumps (normaliseRow V T table row),
      isLineBreak c = false := by
  have hempty : assertTargetEmpty schema (fun _ => [] : Database J τ) = .ok () := by
    unfold assertTargetEmpty
    rw [find?_eq_none.2 (by simp)]
  constructor
  · rintro ⟨target, report, h, -⟩
    rw [restoreFromManifest, hempty] at h
    exact unbroken_of_restoreTables hnames (fun _ ht => ht) h
  · intro hunbroken
    obtain ⟨target, report, h, hintegrity, hdone, -⟩ :=
      restoreTables_ok hnames hfits hunbroken sha256 schema (fun _ => []) {} (fun _ ht => ht) hnames
        fun _ _ => rfl
    refine ⟨target, report, ?_, hintegrity, ?_, ?_⟩
    · rw [restoreFromManifest, hempty]
      exact h
    · rw [checkRowCounts, mismatches_eq_nil hnames, isEmpty_nil]
      intro table ht
      simp [hdone table ht, tableEntry, snapshotTable]
    · rw [checkContentDigests, mismatches_eq_nil hnames, isEmpty_nil]
      intro table ht
      simp [snapshotTable, select_eq (hdone table ht), tableEntry]

def textTimes : UtcTimes String where
  isoformat t := t
  fromisoformat s := some s
  from_iso _ := rfl

def noteKey : List (Cell SortedJson String) → String
  | .value ⟨.str s, _⟩ :: _ => s
  | _ => ""

def notes : Table SortedJson String where
  name := "notes"
  columns := [⟨"id", .other⟩, ⟨"body", .other⟩, ⟨"seen", .dateTime⟩, ⟨"mark", .largeBinary⟩]
  le a b := noteKey a ≤ noteKey b
  decLe _ _ := inferInstance
  le_trans _ _ _ := String.le_trans
  le_total _ _ := String.le_total _ _
  nodup := by decide

def notesWith (body : String) : Database SortedJson String
  | "notes" =>
    [[.value ⟨.str "n2", rfl⟩, .value (rowJson.str body), .value rowJson.null, .bytes [0, 171]],
      [.value ⟨.str "n1", rfl⟩, .value ⟨.str "", rfl⟩, .time "2026-01-01T00:00:00+00:00", .bytes []]]
  | _ => []

theorem notesWith_fits (body : String) : (notesWith body).Fits rowJson [notes] := by
  intro table ht row hrow
  obtain rfl := mem_singleton.1 ht
  rcases mem_cons.1 hrow with rfl | hrow
  · exact .cons trivial (.cons trivial (.cons rfl (.cons trivial .nil)))
  · obtain rfl := mem_singleton.1 hrow
    exact .cons trivial (.cons trivial (.cons trivial (.cons trivial .nil)))

theorem note_of_two_lines_is_restored : ∃ target report,
    restoreFromManifest rowJson textTimes [notes]
      (takeSnapshot rowJson textTimes String.ofList [notes] (notesWith "a\n\"b\""))
      (contentFiles rowJson textTimes [notes] (notesWith "a\n\"b\"")) (fun _ => []) =
        .ok (target, report) ∧
    report.integrityOk = true ∧
    checkRowCounts [notes] target
      (takeSnapshot rowJson textTimes String.ofList [notes] (notesWith "a\n\"b\"")) =
        true ∧
    checkContentDigests rowJson textTimes String.ofList [notes] target
      (takeSnapshot rowJson textTimes String.ofList [notes] (notesWith "a\n\"b\"")) =
        true := by
  have hunbroken : ([notes].all fun table => (notesWith "a\n\"b\"" table.name).all fun row =>
      (rowJson.dumps (normaliseRow rowJson textTimes table row)).all
        fun c => !isLineBreak c) = true := by decide +kernel
  refine (backup_restores_iff (by decide) (notesWith_fits _)).2 fun table ht row hrow c hc => ?_
  have hrows := all_eq_true.1 (all_eq_true.1 hunbroken table ht) row hrow
  simpa using all_eq_true.1 hrows c hc

/-- U+2028 is written as it is, and the line is read as two. -/
theorem note_with_separator_is_not_restored : ([notes].map Table.name).Nodup ∧
    (notesWith "a\u2028b").Fits rowJson [notes] ∧
    ¬ ∃ target report, restoreFromManifest rowJson textTimes [notes]
      (takeSnapshot rowJson textTimes String.ofList [notes] (notesWith "a\u2028b"))
      (contentFiles rowJson textTimes [notes] (notesWith "a\u2028b")) (fun _ => []) =
        .ok (target, report) := by
  refine ⟨by decide, notesWith_fits _, ?_⟩
  rintro ⟨target, report, h⟩
  have hfails : (restoreFromManifest rowJson textTimes [notes]
      (takeSnapshot rowJson textTimes String.ofList [notes] (notesWith "a\u2028b"))
      (contentFiles rowJson textTimes [notes] (notesWith "a\u2028b"))
      (fun _ => [])).isOk = false := by decide +kernel
  rw [h] at hfails
  cases hfails

end Tables

end DeerFlow

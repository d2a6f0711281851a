import BlossomRs.Lfs.Version

/-!
# Version records in SQLite

The table `lfs_file_versions`, with its primary key on repository, path and version number.  Any
statement may fail; one that fails leaves the table as it was.

The texts of the storage forms are read back as the forms they stand for, so that rows are records.
Rows come back in the order they were inserted where a query does not ask for an order.
-/

namespace BlossomRs.Lfs

open RustInt LfsVersionDatabase FallibleLfsVersionDatabase

inductive VersionCall where
  | recordVersion
  | getBySha256
  | getLatestVersion
  | deleteBySha256
  | getDeltasForBase
  | updateVersion
  | lfsStats
  | lfsStatsByType
deriving DecidableEq, Repr

/-- The words before the error of a statement. -/
def VersionCall.text : VersionCall → String
  | .recordVersion => "insert version: "
  | .getBySha256 => "get by sha256: "
  | .getLatestVersion => "get latest: "
  | .deleteBySha256 => "delete version: "
  | .getDeltasForBase => "get deltas: "
  | .updateVersion => "update version: "
  | .lfsStats => "stats: "
  | .lfsStatsByType => "stats by type: "

/-- The rows of the table, and what the next statement of each kind fails with, if it fails. -/
structure SqliteVersions where
  rows : List LfsFileVersion
  keys_nodup : (rows.map (·.key)).Nodup
  outage : VersionCall → Option String

namespace SqliteVersions

def new : SqliteVersions where
  rows := []
  keys_nodup := List.nodup_nil
  outage _ := none

/-- Run a query. -/
def reading {α : Type} (db : SqliteVersions) (call : VersionCall)
    (query : List LfsFileVersion → α) : Except LfsVersionError α :=
  match db.outage call with
  | some e => .error (.internal (call.text ++ e))
  | none => .ok (query db.rows)

/-- Change rows without changing their keys. -/
def mapRows (db : SqliteVersions) (f : LfsFileVersion → LfsFileVersion)
    (hkey : ∀ v, (f v).key = v.key) : SqliteVersions :=
  { db with
    rows := db.rows.map f
    keys_nodup := by
      have hkeys : (db.rows.map f).map (·.key) = db.rows.map (·.key) := by
        simp only [List.map_map, Function.comp_def, hkey]
      rw [hkeys]
      exact db.keys_nodup }

/-- `record_version`: a second row of the same key is refused. -/
def recordVersion (db : SqliteVersions) (record : LfsFileVersion) :
    Except LfsVersionError Int × SqliteVersions :=
  match db.outage .recordVersion with
  | some e => (.error (.internal (VersionCall.recordVersion.text ++ e)), db)
  | none =>
    if hkey : record.key ∈ db.rows.map (·.key) then
      (.error (.internal (VersionCall.recordVersion.text ++ "UNIQUE constraint failed")), db)
    else
      (.ok record.version, { db with
        rows := db.rows ++ [record]
        keys_nodup := by
          rw [List.map_append, List.map_singleton]
          exact List.nodup_append.mpr ⟨db.keys_nodup, List.nodup_singleton _,
            fun key hmem key' hmem' heq =>
              hkey (List.mem_singleton.mp hmem' ▸ heq ▸ hmem)⟩ })

/-- `update_version`: every row of the hash changes. -/
def updateVersion (db : SqliteVersions) (hash : String) (storage : LfsStorageType)
    (baseSha256 : Option String) (storedSize : Int) :
    Except LfsVersionError Unit × SqliteVersions :=
  match db.outage .updateVersion with
  | some e => (.error (.internal (VersionCall.updateVersion.text ++ e)), db)
  | none =>
    (.ok (), db.mapRows
      (fun v => if v.sha256 = hash then v.restore storage baseSha256 storedSize else v)
      (fun v => by split <;> rfl))

/-- `delete_by_sha256`. -/
def deleteBySha256 (db : SqliteVersions) (hash : String) :
    Except LfsVersionError Unit × SqliteVersions :=
  match db.outage .deleteBySha256 with
  | some e => (.error (.internal (VersionCall.deleteBySha256.text ++ e)), db)
  | none =>
    (.ok (), { db with
      rows := db.rows.filter (·.sha256 != hash)
      keys_nodup := db.keys_nodup.sublist (List.filter_sublist.map _) })

instance : LfsVersionDatabase SqliteVersions where
  recordVersion := recordVersion
  getBySha256 db hash := db.reading .getBySha256 fun rows => rows.find? (·.sha256 == hash)
  getLatestVersion db repoId path := db.reading .getLatestVersion fun rows =>
    MemoryLfsVersionDatabase.latest (rows.filter (·.IsVersionOf repoId path))
  deleteBySha256 := deleteBySha256
  getDeltasForBase db base := db.reading .getDeltasForBase fun rows =>
    rows.filter (·.IsDeltaOn base)
  updateVersion := updateVersion

/-- `COUNT` and the two `SUM`s of a group of rows.  A sum that leaves the range of the type is an
error. -/
def groupStats (rows : List LfsFileVersion) : Option LfsStorageTypeStats :=
  match (rows.map (·.originalSize)).foldlM checkedAddI64 0,
      (rows.map (·.storedSize)).foldlM checkedAddI64 0 with
  | some originalBytes, some storedBytes => some ⟨rows.length, originalBytes, storedBytes⟩
  | _, _ => none

/-- The rows of one storage form. -/
def ofForm (rows : List LfsFileVersion) (storage : LfsStorageType) : List LfsFileVersion :=
  rows.filter (·.storage == storage)

/-- `GROUP BY storage`: a row for every form there is, under its name. -/
def statsByType (rows : List LfsFileVersion) : Option (List (String × LfsStorageTypeStats)) :=
  ([.compressed, .delta, .raw].filter fun storage => !(ofForm rows storage).isEmpty).mapM
    fun storage => (groupStats (ofForm rows storage)).map (storage.text, ·)

/-- The result of a query that may end in an overflow. -/
def aggregating {α : Type} (db : SqliteVersions) (call : VersionCall)
    (query : List LfsFileVersion → Option α) : Except LfsVersionError α := do
  match ← db.reading call query with
  | some result => .ok result
  | none => .error (.internal (call.text ++ "integer overflow"))

/-- `lfs_stats`. -/
def lfsStats (db : SqliteVersions) : Except LfsVersionError LfsStorageStats := do
  let total ← db.aggregating .lfsStats groupStats
  let byType ← db.aggregating .lfsStatsByType statsByType
  return ⟨total.count, total.originalBytes, total.storedBytes, fun key => byType.lookup key⟩

instance : LfsStatsDatabase SqliteVersions where
  lfsStats := lfsStats

theorem sameApartFromForm_map (hash : String) (storage : LfsStorageType)
    (baseSha256 : Option String) (storedSize : Int) (rows : List LfsFileVersion) :
    SameApartFromForm [hash] rows (rows.map fun v =>
      if v.sha256 = hash then v.restore storage baseSha256 storedSize else v) := by
  rw [SameApartFromForm, List.map_map]
  refine List.map_congr_left ?_
  intro v _
  dsimp only [Function.comp_apply]
  split
  · rename_i hv
    exact sansForm_restore (List.mem_singleton.mpr hv) _ _ _
  · rfl

instance : FallibleLfsVersionDatabase SqliteVersions where
  records db := db.rows
  recordVersion_ok {db db' record number} h := by
    change db.recordVersion record = _ at h
    unfold recordVersion at h
    split at h
    · cases h
    · split at h
      · cases h
      · cases h
        rfl
  recordVersion_error {db db' record e} h := by
    change db.recordVersion record = _ at h
    unfold recordVersion at h
    split at h
    · rw [← (Prod.mk.inj h).2]
    · split at h
      · rw [← (Prod.mk.inj h).2]
      · cases h
  updateVersion_ok {db db' hash storage baseSha256 storedSize} h := by
    change db.updateVersion hash storage baseSha256 storedSize = _ at h
    unfold updateVersion at h
    split at h
    · cases h
    · cases h
      exact sameApartFromForm_map _ _ _ _ _
  updateVersion_error {db db' hash storage baseSha256 storedSize e} h := by
    change db.updateVersion hash storage baseSha256 storedSize = _ at h
    unfold updateVersion at h
    split at h
    · rw [← (Prod.mk.inj h).2]
    · cases h

/-! ### While no statement fails -/

/-- A table that answers every statement. -/
structure Online where
  table : SqliteVersions
  up : ∀ call, table.outage call = none

namespace Online

/-- Run a statement that leaves the table as reachable as it was. -/
def running {α : Type} (db : Online) (step : SqliteVersions → α × SqliteVersions)
    (hstep : (step db.table).2.outage = db.table.outage) : α × Online :=
  ((step db.table).1, ⟨(step db.table).2, hstep ▸ db.up⟩)

theorem table_of_running {α : Type} {db db' : Online} {step : SqliteVersions → α × SqliteVersions}
    {hstep : (step db.table).2.outage = db.table.outage} {result : α}
    (h : db.running step hstep = (result, db')) : step db.table = (result, db'.table) := by
  cases h
  rfl

instance : LfsVersionDatabase Online where
  recordVersion db record := db.running (·.recordVersion record) (by
    unfold SqliteVersions.recordVersion
    split
    · rfl
    · split <;> rfl)
  getBySha256 db hash := getBySha256 db.table hash
  getLatestVersion db repoId path := getLatestVersion db.table repoId path
  deleteBySha256 db hash := db.running (·.deleteBySha256 hash) (by
    unfold SqliteVersions.deleteBySha256
    split <;> rfl)
  getDeltasForBase db base := getDeltasForBase db.table base
  updateVersion db hash storage base size := db.running (·.updateVersion hash storage base size) (by
    unfold SqliteVersions.updateVersion
    split <;> rfl)

instance : LfsStatsDatabase Online where
  lfsStats db := db.table.lfsStats

instance : LawfulLfsVersionDatabase Online where
  records db := db.table.rows
  recordVersion_ok h := FallibleLfsVersionDatabase.recordVersion_ok (ν := SqliteVersions) (table_of_running h)
  recordVersion_error h := FallibleLfsVersionDatabase.recordVersion_error (ν := SqliteVersions) (table_of_running h)
  updateVersion_ok h := FallibleLfsVersionDatabase.updateVersion_ok (ν := SqliteVersions) (table_of_running h)
  updateVersion_error h := FallibleLfsVersionDatabase.updateVersion_error (ν := SqliteVersions) (table_of_running h)
  recordVersion_eq db record hfree := by
    refine ⟨_, Prod.ext ?_ rfl⟩
    change (db.table.recordVersion record).1 = _
    rw [SqliteVersions.recordVersion, db.up]
    dsimp only
    rw [dif_neg hfree]
  getBySha256_eq db hash := by
    simp only [getBySha256, reading, db.up]
  getLatestVersion_eq db repoId path := by
    refine ⟨_, ?_, MemoryLfsVersionDatabase.version_latest _⟩
    simp only [getLatestVersion, reading, db.up]
  deleteBySha256_eq db hash := by
    have hdelete : db.table.deleteBySha256 hash = (.ok (), { db.table with
        rows := db.table.rows.filter (·.sha256 != hash)
        keys_nodup := db.table.keys_nodup.sublist (List.filter_sublist.map _) }) := by
      rw [SqliteVersions.deleteBySha256, db.up]
    refine ⟨(LfsVersionDatabase.deleteBySha256 db hash).2, Prod.ext ?_ rfl, ?_⟩
    · exact congrArg (fun step => step.1) hdelete
    · exact congrArg (fun step => step.2.rows) hdelete
  getDeltasForBase_eq db base := by
    refine ⟨_, ?_, List.Perm.refl _⟩
    simp only [getDeltasForBase, reading, db.up]
  updateVersion_eq db hash storage base size _ := by
    have hupdate : db.table.updateVersion hash storage base size = (.ok (), db.table.mapRows
        (fun v => if v.sha256 = hash then v.restore storage base size else v)
        (fun v => by split <;> rfl)) := by
      rw [SqliteVersions.updateVersion, db.up]
    refine ⟨(LfsVersionDatabase.updateVersion db hash storage base size).2, Prod.ext ?_ rfl, ?_⟩
    · exact congrArg (fun step => step.1) hupdate
    · exact congrArg (fun step => step.2.rows) hupdate

end Online

end SqliteVersions

end BlossomRs.Lfs

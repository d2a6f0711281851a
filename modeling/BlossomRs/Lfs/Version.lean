import Mathlib.Data.List.Basic
import BlossomRs.Lib.RustInt
import BlossomRs.Protocol

/-!
# Version records

What the server keeps about a blob that was uploaded as a version of a tracked file: under which
repository and path, and in which form its bytes are stored.

`LfsContext` is read from the tags of the upload's event.  `LfsVersionDatabase` is the interface of
the record store.  `LawfulLfsVersionDatabase` describes one whose calls succeed, by the list of its
records in the order they were made; `FallibleLfsVersionDatabase` one whose calls may fail, by what
they leave behind.
-/

namespace BlossomRs.Lfs

open Protocol RustInt

/-- The tracked-file context of an upload. -/
structure LfsContext where
  isLfs : Bool
  path : Option String
  repo : Option String
  base : Option String
  isManifest : Bool
deriving DecidableEq, Repr

namespace LfsContext

/-- `LfsContext::default`. -/
def empty : LfsContext where
  isLfs := false
  path := none
  repo := none
  base := none
  isManifest := false

/-- What one tag adds; a later tag of the same name wins. -/
def addTag (ctx : LfsContext) : List String → LfsContext
  | "t" :: "lfs" :: _ => { ctx with isLfs := true }
  | "path" :: value :: _ => { ctx with path := some value }
  | "repo" :: value :: _ => { ctx with repo := some value }
  | "base" :: value :: _ => { ctx with base := some value }
  | "manifest" :: _ => { ctx with isManifest := true }
  | _ => ctx

/-- `LfsContext::from_event`. -/
def fromEvent (event : NostrEvent) : LfsContext :=
  event.tags.foldl addTag empty

end LfsContext

/-- The form in which a blob's bytes are stored. -/
inductive LfsStorageType where
  | raw
  | compressed
  | delta
deriving DecidableEq, Repr

/-- The lowercase name of a storage form. -/
def LfsStorageType.text : LfsStorageType → String
  | .raw => "raw"
  | .compressed => "compressed"
  | .delta => "delta"

/-- One recorded version of a tracked file. -/
structure LfsFileVersion where
  repoId : String
  path : String
  version : Int
  sha256 : String
  baseSha256 : Option String
  storage : LfsStorageType
  deltaAlgo : Option String
  originalSize : Int
  storedSize : Int
  createdAt : Int
deriving DecidableEq, Repr

inductive LfsVersionError where
  | notFound
  | internal (detail : String)
deriving DecidableEq, Repr

/-- The text of an error, as it is put in a response. -/
def LfsVersionError.message : LfsVersionError → String
  | .notFound => "not found"
  | .internal detail => "database error: " ++ detail

/-- The base a record reads through: a delta with a base has one, nothing else does. -/
def LfsFileVersion.deltaBase (v : LfsFileVersion) : Option String :=
  if v.storage = .delta then v.baseSha256 else none

/-- The record after its stored form changed. -/
def LfsFileVersion.restore (v : LfsFileVersion) (storage : LfsStorageType)
    (baseSha256 : Option String) (storedSize : Int) : LfsFileVersion :=
  { v with storage := storage, baseSha256 := baseSha256, storedSize := storedSize }

/-- Per-storage-type statistics. -/
structure LfsStorageTypeStats where
  count : Int
  originalBytes : Int
  storedBytes : Int
deriving DecidableEq, Repr

/-- Aggregate storage statistics, with those of the storage forms under their names. -/
@[ext]
structure LfsStorageStats where
  totalVersions : Int
  totalOriginalBytes : Int
  totalStoredBytes : Int
  byStorageType : String → Option LfsStorageTypeStats

/-- The call for statistics of a record store. -/
class LfsStatsDatabase (ν : Type) where
  lfsStats (db : ν) : Except LfsVersionError LfsStorageStats

/-- The record store. -/
class LfsVersionDatabase (ν : Type) where
  recordVersion (db : ν) (record : LfsFileVersion) : Except LfsVersionError Int × ν
  getBySha256 (db : ν) (sha256 : String) : Except LfsVersionError (Option LfsFileVersion)
  getLatestVersion (db : ν) (repoId path : String) :
    Except LfsVersionError (Option LfsFileVersion)
  deleteBySha256 (db : ν) (sha256 : String) : Except LfsVersionError Unit × ν
  getDeltasForBase (db : ν) (baseSha256 : String) : Except LfsVersionError (List LfsFileVersion)
  updateVersion (db : ν) (sha256 : String) (storage : LfsStorageType)
    (baseSha256 : Option String) (storedSize : Int) : Except LfsVersionError Unit × ν

open LfsVersionDatabase

/-- A record is a delta against the given hash. -/
def LfsFileVersion.IsDeltaOn (v : LfsFileVersion) (base : String) : Bool :=
  v.storage == .delta && v.baseSha256 == some base

/-- A record is a version of the given file. -/
def LfsFileVersion.IsVersionOf (v : LfsFileVersion) (repoId path : String) : Bool :=
  v.repoId == repoId && v.path == path

/-- The primary key. -/
def LfsFileVersion.key (v : LfsFileVersion) : String × String × Int :=
  (v.repoId, v.path, v.version)

/-- The greatest version number of a file. -/
def latestNumber (records : List LfsFileVersion) (repoId path : String) : Option Int :=
  ((records.filter (·.IsVersionOf repoId path)).map (·.version)).max?

/-- The number of a recorded version is at most the greatest one. -/
theorem le_latestNumber {records : List LfsFileVersion} {v : LfsFileVersion} (hv : v ∈ records) :
    ∃ greatest, latestNumber records v.repoId v.path = some greatest ∧ v.version ≤ greatest := by
  have hmem : v.version ∈ (records.filter (·.IsVersionOf v.repoId v.path)).map (·.version) :=
    List.mem_map.mpr ⟨v, List.mem_filter.mpr ⟨hv, by simp [LfsFileVersion.IsVersionOf]⟩, rfl⟩
  obtain ⟨greatest, hgreatest⟩ := Option.isSome_iff_exists.mp
    (List.isSome_max?_of_mem hmem)
  exact ⟨greatest, hgreatest, (List.max?_eq_some_iff.mp hgreatest).2 _ hmem⟩

/-- A record without its stored form, if it is of one of the given hashes. -/
def LfsFileVersion.sansForm (hashes : List String) (v : LfsFileVersion) : LfsFileVersion :=
  if v.sha256 ∈ hashes then v.restore .raw none 0 else v

/-- Two lists of records are the same apart from the stored forms of the given hashes. -/
def SameApartFromForm (hashes : List String) (vs vs' : List LfsFileVersion) : Prop :=
  vs'.map (·.sansForm hashes) = vs.map (·.sansForm hashes)

/-- A record store whose calls may fail: one that fails changes no record. -/
class FallibleLfsVersionDatabase (ν : Type) [LfsVersionDatabase ν] where
  records : ν → List LfsFileVersion
  recordVersion_ok {db db' : ν} {record : LfsFileVersion} {number : Int}
    (h : recordVersion db record = (.ok number, db')) : records db' = records db ++ [record]
  recordVersion_error {db db' : ν} {record : LfsFileVersion} {e : LfsVersionError}
    (h : recordVersion db record = (.error e, db')) : records db' = records db
  updateVersion_ok {db db' : ν} {hash : String} {storage : LfsStorageType}
    {baseSha256 : Option String} {storedSize : Int}
    (h : updateVersion db hash storage baseSha256 storedSize = (.ok (), db')) :
    SameApartFromForm [hash] (records db) (records db')
  updateVersion_error {db db' : ν} {hash : String} {storage : LfsStorageType}
    {baseSha256 : Option String} {storedSize : Int} {e : LfsVersionError}
    (h : updateVersion db hash storage baseSha256 storedSize = (.error e, db')) :
    records db' = records db

/-- A record store whose calls succeed, that of a new record as long as its key is free.  An update is
only pinned down where the hash has a single record, which is where implementations agree. -/
class LawfulLfsVersionDatabase (ν : Type) [LfsVersionDatabase ν] extends
    FallibleLfsVersionDatabase ν where
  recordVersion_eq (db : ν) (record : LfsFileVersion)
    (hfree : record.key ∉ (records db).map (·.key)) :
    ∃ db', recordVersion db record = (.ok record.version, db')
  getBySha256_eq (db : ν) (hash : String) :
    getBySha256 db hash = .ok ((records db).find? (·.sha256 == hash))
  getLatestVersion_eq (db : ν) (repoId path : String) :
    ∃ latest, getLatestVersion db repoId path = .ok latest
      ∧ latest.map (·.version) = latestNumber (records db) repoId path
  deleteBySha256_eq (db : ν) (hash : String) :
    ∃ db', deleteBySha256 db hash = (.ok (), db')
      ∧ records db' = (records db).filter (·.sha256 != hash)
  getDeltasForBase_eq (db : ν) (base : String) :
    ∃ deltas, getDeltasForBase db base = .ok deltas
      ∧ deltas.Perm ((records db).filter (·.IsDeltaOn base))
  updateVersion_eq (db : ν) (hash : String) (storage : LfsStorageType)
    (baseSha256 : Option String) (storedSize : Int)
    (hsingle : ((records db).filter (·.sha256 == hash)).length ≤ 1) :
    ∃ db', updateVersion db hash storage baseSha256 storedSize = (.ok (), db')
      ∧ records db' = (records db).map fun v =>
          if v.sha256 = hash then v.restore storage baseSha256 storedSize else v

/-- An update changes stored forms of its hash and nothing else, whether or not it succeeds. -/
theorem sameApartFromForm_updateVersion {ν : Type} [LfsVersionDatabase ν]
    [FallibleLfsVersionDatabase ν] (db : ν) (hash : String) (storage : LfsStorageType)
    (base : Option String) (size : Int) :
    SameApartFromForm [hash] (FallibleLfsVersionDatabase.records db)
      (FallibleLfsVersionDatabase.records (updateVersion db hash storage base size).2) := by
  rcases hupdate : updateVersion db hash storage base size with ⟨e | _, db'⟩
  · rw [FallibleLfsVersionDatabase.updateVersion_error hupdate]
    rfl
  · exact FallibleLfsVersionDatabase.updateVersion_ok hupdate

section SansForm

variable {hashes more : List String} {v : LfsFileVersion} {vs : List LfsFileVersion}

@[simp] theorem sha256_restore (storage : LfsStorageType) (baseSha256 : Option String)
    (storedSize : Int) : (v.restore storage baseSha256 storedSize).sha256 = v.sha256 :=
  rfl

/-- Changing the stored form of a record does not show without it. -/
theorem sansForm_restore (h : v.sha256 ∈ hashes) (storage : LfsStorageType)
    (baseSha256 : Option String) (storedSize : Int) :
    (v.restore storage baseSha256 storedSize).sansForm hashes = v.sansForm hashes := by
  rw [LfsFileVersion.sansForm, LfsFileVersion.sansForm, sha256_restore, if_pos h, if_pos h]
  rfl

theorem sansForm_sansForm (h : hashes ⊆ more) :
    (v.sansForm hashes).sansForm more = v.sansForm more := by
  by_cases hv : v.sha256 ∈ hashes
  · rw [LfsFileVersion.sansForm.eq_def hashes v, if_pos hv, sansForm_restore (h hv)]
  · rw [LfsFileVersion.sansForm.eq_def hashes v, if_neg hv]

theorem SameApartFromForm.mono {vs vs' : List LfsFileVersion} (h : SameApartFromForm hashes vs vs')
    (hsub : hashes ⊆ more) : SameApartFromForm more vs vs' := by
  have hmap : ∀ ws : List LfsFileVersion,
      ws.map (·.sansForm more) = (ws.map (·.sansForm hashes)).map (·.sansForm more) := by
    intro ws
    simp only [List.map_map, Function.comp_def, sansForm_sansForm hsub]
  rw [SameApartFromForm, hmap vs', hmap vs, h]

end SansForm

/-- The in-memory record store: a list in the order of recording. -/
structure MemoryLfsVersionDatabase where
  versions : List LfsFileVersion
deriving DecidableEq

namespace MemoryLfsVersionDatabase

/-- `MemoryLfsVersionDatabase::new`. -/
def new : MemoryLfsVersionDatabase :=
  ⟨[]⟩

/-- `max_by_key` on the version number: the last of the greatest. -/
def latest : List LfsFileVersion → Option LfsFileVersion
  | [] => none
  | v :: rest =>
    match latest rest with
    | some w => if w.version < v.version then some v else some w
    | none => some v

/-- `update_version`: the first record of the hash changes. -/
def updateFirst (hash : String) (storage : LfsStorageType) (baseSha256 : Option String)
    (storedSize : Int) : List LfsFileVersion → List LfsFileVersion
  | [] => []
  | v :: rest =>
    if v.sha256 = hash then v.restore storage baseSha256 storedSize :: rest
    else v :: updateFirst hash storage baseSha256 storedSize rest

/-- Count one more record. -/
def addToType (v : LfsFileVersion) (stats : LfsStorageTypeStats) : LfsStorageTypeStats where
  count := stats.count + 1
  originalBytes := addI64 stats.originalBytes v.originalSize
  storedBytes := addI64 stats.storedBytes v.storedSize

/-- One round of the loop of `lfs_stats`. -/
def addToStats (stats : LfsStorageStats) (v : LfsFileVersion) : LfsStorageStats where
  totalVersions := stats.totalVersions + 1
  totalOriginalBytes := addI64 stats.totalOriginalBytes v.originalSize
  totalStoredBytes := addI64 stats.totalStoredBytes v.storedSize
  byStorageType := Function.update stats.byStorageType v.storage.text
    (some (addToType v ((stats.byStorageType v.storage.text).getD ⟨0, 0, 0⟩)))

/-- `lfs_stats`. -/
def lfsStats (db : MemoryLfsVersionDatabase) : LfsStorageStats :=
  db.versions.foldl addToStats ⟨0, 0, 0, fun _ => none⟩

instance : LfsVersionDatabase MemoryLfsVersionDatabase where
  recordVersion db record := (.ok record.version, ⟨db.versions ++ [record]⟩)
  getBySha256 db sha256 := .ok (db.versions.find? (·.sha256 == sha256))
  getLatestVersion db repoId path :=
    .ok (latest (db.versions.filter (·.IsVersionOf repoId path)))
  deleteBySha256 db sha256 := (.ok (), ⟨db.versions.filter (·.sha256 != sha256)⟩)
  getDeltasForBase db baseSha256 := .ok (db.versions.filter (·.IsDeltaOn baseSha256))
  updateVersion db sha256 storage baseSha256 storedSize :=
    (.ok (), ⟨updateFirst sha256 storage baseSha256 storedSize db.versions⟩)

instance : LfsStatsDatabase MemoryLfsVersionDatabase where
  lfsStats db := .ok db.lfsStats

theorem version_latest (vs : List LfsFileVersion) :
    (latest vs).map (·.version) = (vs.map (·.version)).max? := by
  induction vs with
  | nil => rfl
  | cons v rest ih =>
    rw [List.map_cons, List.max?_cons, ← ih, latest]
    cases latest rest with
    | none => rfl
    | some w =>
      by_cases h : w.version < v.version
      · simp [h, max_eq_left (le_of_lt h)]
      · simp [h, max_eq_right (not_lt.mp h)]

variable {vs : List LfsFileVersion}

/-- Changing the first record of a hash is changing all when the others have the new form. -/
theorem updateFirst_eq_map_iff {hash : String} {storage : LfsStorageType}
    {baseSha256 : Option String} {storedSize : Int} :
    updateFirst hash storage baseSha256 storedSize vs
        = vs.map (fun v => if v.sha256 = hash then v.restore storage baseSha256 storedSize else v)
      ↔ ∀ v ∈ (vs.filter (·.sha256 == hash)).tail,
        v.restore storage baseSha256 storedSize = v := by
  induction vs with
  | nil => simp [updateFirst]
  | cons v rest ih =>
    by_cases hv : v.sha256 = hash
    · rw [updateFirst, if_pos hv, List.map_cons, if_pos hv, List.cons_inj_right, eq_comm,
        List.filter_cons_of_pos (by simpa using hv), List.tail_cons]
      -- the rest is as it was exactly when each of its records of the hash is
      have hrest := @List.map_inj_left _ _ rest
        (fun w => if w.sha256 = hash then w.restore storage baseSha256 storedSize else w) id
      rw [List.map_id] at hrest
      rw [hrest]
      simp
    · rw [updateFirst, if_neg hv, List.map_cons, if_neg hv, List.cons_inj_right, ih,
        List.filter_cons_of_neg (by simpa using hv)]

/-- With a single record of the hash, changing the first is changing all. -/
theorem updateFirst_eq_map {hash : String} {storage : LfsStorageType} {baseSha256 : Option String}
    {storedSize : Int} (hsingle : (vs.filter (·.sha256 == hash)).length ≤ 1) :
    updateFirst hash storage baseSha256 storedSize vs
      = vs.map fun v => if v.sha256 = hash then v.restore storage baseSha256 storedSize else v := by
  refine updateFirst_eq_map_iff.mpr ?_
  have htail : (vs.filter (·.sha256 == hash)).tail = [] := by
    rw [← List.length_eq_zero_iff, List.length_tail]
    omega
  rw [htail]
  nofun

theorem sameApartFromForm_updateFirst (hash : String) (storage : LfsStorageType)
    (baseSha256 : Option String) (storedSize : Int) (vs : List LfsFileVersion) :
    SameApartFromForm [hash] vs (updateFirst hash storage baseSha256 storedSize vs) := by
  induction vs with
  | nil => rfl
  | cons v rest ih =>
    rw [updateFirst]
    split
    · rename_i hv
      simp only [SameApartFromForm, List.map_cons,
        sansForm_restore (List.mem_singleton.mpr hv)]
    · exact congrArg (v.sansForm [hash] :: ·) ih

instance : LawfulLfsVersionDatabase MemoryLfsVersionDatabase where
  records db := db.versions
  recordVersion_ok h := by
    cases h
    rfl
  recordVersion_error h := nomatch (Prod.mk.inj h).1
  updateVersion_ok h := by
    cases h
    exact sameApartFromForm_updateFirst _ _ _ _ _
  updateVersion_error h := nomatch (Prod.mk.inj h).1
  recordVersion_eq _ _ _ := ⟨_, rfl⟩
  getBySha256_eq _ _ := rfl
  getLatestVersion_eq _ _ _ := ⟨_, rfl, version_latest _⟩
  deleteBySha256_eq _ _ := ⟨_, rfl, rfl⟩
  getDeltasForBase_eq _ _ := ⟨_, rfl, List.Perm.refl _⟩
  updateVersion_eq _ _ _ _ _ hsingle := ⟨_, rfl, updateFirst_eq_map hsingle⟩

end MemoryLfsVersionDatabase

end BlossomRs.Lfs

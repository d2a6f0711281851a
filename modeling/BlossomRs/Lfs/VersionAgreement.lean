import BlossomRs.Lfs.SqliteVersions
import BlossomRs.Lib.Checks
import BlossomRs.Lib.Runs

/-!
# The two stores of version records

`MemoryLfsVersionDatabase` and the table of `SqliteVersions` are asked the same requests.  A request
that goes by a hash may match several records.  `delete_by_sha256` drops them all in both, but
`update_version` changes the first record in memory and every row of the table.

They answer alike (`memory_answers_as_sqlite`) as long as every update finds its other records in the
form it sets, and no sum of sizes leaves the range of its type.
-/

namespace BlossomRs.Lfs

open RustInt Runs LfsVersionDatabase LfsStatsDatabase

/-- A call of a record store. -/
inductive VersionRequest where
  | recordVersion (record : LfsFileVersion)
  | updateVersion (hash : String) (storage : LfsStorageType) (baseSha256 : Option String)
      (storedSize : Int)
  | deleteBySha256 (hash : String)
  | getBySha256 (hash : String)
  | getLatestVersion (repoId path : String)
  | getDeltasForBase (baseSha256 : String)
  | lfsStats

/-- What a call returns. -/
inductive VersionAnswer where
  | recorded (result : Except LfsVersionError Int)
  | done (result : Except LfsVersionError Unit)
  | record (result : Except LfsVersionError (Option LfsFileVersion))
  | records (result : Except LfsVersionError (List LfsFileVersion))
  | stats (result : Except LfsVersionError LfsStorageStats)

/-- Make a call. -/
def answer {ν : Type} [LfsVersionDatabase ν] [LfsStatsDatabase ν] (db : ν) :
    VersionRequest → VersionAnswer × ν
  | .recordVersion r => ((recordVersion db r).map .recorded id)
  | .updateVersion hash storage baseSha256 storedSize =>
    ((updateVersion db hash storage baseSha256 storedSize).map .done id)
  | .deleteBySha256 hash => ((deleteBySha256 db hash).map .done id)
  | .getBySha256 hash => (.record (getBySha256 db hash), db)
  | .getLatestVersion repoId path => (.record (getLatestVersion db repoId path), db)
  | .getDeltasForBase baseSha256 => (.records (getDeltasForBase db baseSha256), db)
  | .lfsStats => (.stats (lfsStats db), db)

/-- The records in memory after some calls. -/
def versionsAfter (requests : List VersionRequest) : List LfsFileVersion :=
  (after answer MemoryLfsVersionDatabase.new requests).versions

/-! ### Statistics -/

/-- The statistics of a group, with sums that wrap around. -/
def wrappedStats (vs : List LfsFileVersion) : LfsStorageTypeStats :=
  ⟨vs.length, (vs.map (·.originalSize)).foldl addI64 0, (vs.map (·.storedSize)).foldl addI64 0⟩

/-- No partial sum of the sizes of a group leaves its range. -/
def SizesInRange (vs : List LfsFileVersion) : Prop :=
  SumsInI64 0 (vs.map (·.originalSize)) ∧ SumsInI64 0 (vs.map (·.storedSize))

instance (vs : List LfsFileVersion) : Decidable (SizesInRange vs) :=
  inferInstanceAs (Decidable (_ ∧ _))

theorem wrappedStats_concat (vs : List LfsFileVersion) (v : LfsFileVersion) :
    wrappedStats (vs ++ [v]) = MemoryLfsVersionDatabase.addToType v (wrappedStats vs) := by
  simp [wrappedStats, MemoryLfsVersionDatabase.addToType]

variable {vs : List LfsFileVersion}

theorem groupStats_eq (h : SizesInRange vs) :
    SqliteVersions.groupStats vs = some (wrappedStats vs) := by
  rw [SqliteVersions.groupStats, foldlM_checkedAddI64, foldlM_checkedAddI64, if_pos h.1,
    if_pos h.2, wrappedStats, foldl_addI64 h.1, foldl_addI64 h.2]

theorem groupStats_eq_some {stats : LfsStorageTypeStats}
    (h : SqliteVersions.groupStats vs = some stats) : stats = wrappedStats vs := by
  have hrange : SizesInRange vs := by
    rw [SqliteVersions.groupStats, foldlM_checkedAddI64, foldlM_checkedAddI64] at h
    constructor
    · by_contra hno
      simp [hno] at h
    · by_contra hno
      simp [hno] at h
  exact Option.some.inj (h.symm.trans (groupStats_eq hrange))

/-- A sum that a query returns is the one of a loop. -/
theorem storedBytes_of_lfsStats {db : SqliteVersions} {stats : LfsStorageStats}
    (h : db.lfsStats = .ok stats) :
    stats.totalStoredBytes = (db.rows.map (·.storedSize)).foldl addI64 0 := by
  obtain ⟨total, htotal, h⟩ := Checks.bind_eq_ok.mp h
  obtain ⟨byType, -, h⟩ := Checks.bind_eq_ok.mp h
  obtain rfl := Except.ok.inj h
  obtain ⟨result, hread, hresult⟩ := Checks.bind_eq_ok.mp htotal
  obtain rfl : SqliteVersions.groupStats db.rows = result := by
    unfold SqliteVersions.reading at hread
    split at hread
    · cases hread
    · exact Except.ok.inj hread
  cases hgroup : SqliteVersions.groupStats db.rows with
  | none =>
    rw [hgroup] at hresult
    cases hresult
  | some group =>
    rw [hgroup] at hresult
    obtain rfl := Except.ok.inj hresult
    rw [groupStats_eq_some hgroup]
    rfl

theorem LfsStorageType.text_injective : Function.Injective LfsStorageType.text := by
  intro storage storage' h
  cases storage <;> cases storage' <;> first | rfl | simp [LfsStorageType.text] at h

/-- The statistics of one storage form, if there are records of it. -/
def formStats (vs : List LfsFileVersion) (storage : LfsStorageType) :
    Option LfsStorageTypeStats :=
  if (SqliteVersions.ofForm vs storage).isEmpty then none
  else some (wrappedStats (SqliteVersions.ofForm vs storage))

theorem formStats_concat (vs : List LfsFileVersion) (v : LfsFileVersion)
    (storage : LfsStorageType) :
    formStats (vs ++ [v]) storage = if storage = v.storage then
        some (MemoryLfsVersionDatabase.addToType v ((formStats vs storage).getD ⟨0, 0, 0⟩))
      else formStats vs storage := by
  unfold formStats
  by_cases h : storage = v.storage
  · have hform : SqliteVersions.ofForm (vs ++ [v]) storage
        = SqliteVersions.ofForm vs storage ++ [v] := by simp [SqliteVersions.ofForm, h]
    rw [if_pos h, hform, wrappedStats_concat]
    cases hgroup : SqliteVersions.ofForm vs storage with
    | nil => rfl
    | cons w rest => rfl
  · have hform : SqliteVersions.ofForm (vs ++ [v]) storage = SqliteVersions.ofForm vs storage := by
      simp [SqliteVersions.ofForm, Ne.symm h]
    rw [if_neg h, hform]

/-- What the loop over the records computes. -/
theorem lfsStats_memory (vs : List LfsFileVersion) :
    let stats := (MemoryLfsVersionDatabase.mk vs).lfsStats
    stats.totalVersions = (wrappedStats vs).count
      ∧ stats.totalOriginalBytes = (wrappedStats vs).originalBytes
      ∧ stats.totalStoredBytes = (wrappedStats vs).storedBytes
      ∧ (∀ storage : LfsStorageType, stats.byStorageType storage.text = formStats vs storage)
      ∧ ∀ key, (∀ storage : LfsStorageType, storage.text ≠ key) → stats.byStorageType key = none := by
  induction vs using List.reverseRecOn with
  | nil => exact ⟨rfl, rfl, rfl, fun _ => rfl, fun _ _ => rfl⟩
  | append_singleton vs v ih =>
    obtain ⟨hcount, horiginal, hstored, hform, hother⟩ := ih
    have hfold : (MemoryLfsVersionDatabase.mk (vs ++ [v])).lfsStats
        = MemoryLfsVersionDatabase.addToStats (MemoryLfsVersionDatabase.mk vs).lfsStats v :=
      List.foldl_append
    dsimp only
    rw [hfold, wrappedStats_concat]
    refine ⟨?_, ?_, ?_, fun storage => ?_, fun key hkey => ?_⟩
    · rw [MemoryLfsVersionDatabase.addToStats, hcount]
      rfl
    · rw [MemoryLfsVersionDatabase.addToStats, horiginal]
      rfl
    · rw [MemoryLfsVersionDatabase.addToStats, hstored]
      rfl
    · dsimp only [MemoryLfsVersionDatabase.addToStats]
      rw [formStats_concat, hform v.storage]
      by_cases h : storage = v.storage
      · rw [if_pos h, h, Function.update_self]
      · rw [if_neg h, Function.update_of_ne (fun htext => h (LfsStorageType.text_injective htext)),
          hform]
    · dsimp only [MemoryLfsVersionDatabase.addToStats]
      rw [Function.update_of_ne (Ne.symm (hkey v.storage)), hother key hkey]

/-- A form is found under its name. -/
theorem lookup_text {α : Type} (g : LfsStorageType → α) (forms : List LfsStorageType)
    (storage : LfsStorageType) :
    (forms.map fun form => (form.text, g form)).lookup storage.text
      = if storage ∈ forms then some (g storage) else none := by
  induction forms with
  | nil => rfl
  | cons form rest ih =>
    rw [List.map_cons, List.lookup_cons]
    by_cases h : storage = form
    · simp [h]
    · have htext : (storage.text == form.text) = false := by
        simpa using fun heq => h (LfsStorageType.text_injective heq)
      rw [htext, ih]
      simp [h]

/-- What the query by type returns. -/
theorem statsByType_eq (h : ∀ storage, SizesInRange (SqliteVersions.ofForm vs storage)) :
    ∃ byType, SqliteVersions.statsByType vs = some byType
      ∧ (∀ storage : LfsStorageType, byType.lookup storage.text = formStats vs storage)
      ∧ ∀ key, (∀ storage : LfsStorageType, storage.text ≠ key) → byType.lookup key = none := by
  have hgroup : ∀ storage, (SqliteVersions.groupStats (SqliteVersions.ofForm vs storage)).map
      (LfsStorageType.text storage, ·)
      = pure (storage.text, wrappedStats (SqliteVersions.ofForm vs storage)) := by
    intro storage
    rw [groupStats_eq (h storage)]
    rfl
  unfold SqliteVersions.statsByType
  simp only [hgroup]
  refine ⟨_, List.mapM_pure, fun storage => ?_, fun key hkey => ?_⟩
  · rw [lookup_text, formStats]
    have hmem : storage ∈ [.compressed, .delta, .raw] := by cases storage <;> simp
    simp only [List.mem_filter, hmem, true_and]
    cases (SqliteVersions.ofForm vs storage).isEmpty <;> rfl
  · rw [List.lookup_eq_none_iff]
    intro entry hentry
    obtain ⟨storage, -, rfl⟩ := List.mem_map.mp hentry
    simpa using Ne.symm (hkey storage)

theorem lfsStats_sqlite {db : SqliteVersions} (houtage : db.outage = fun _ => none)
    (htotal : SizesInRange db.rows)
    (hforms : ∀ storage, SizesInRange (SqliteVersions.ofForm db.rows storage)) :
    db.lfsStats = .ok (MemoryLfsVersionDatabase.mk db.rows).lfsStats := by
  obtain ⟨byType, hbyType, hform, hother⟩ := statsByType_eq hforms
  obtain ⟨hcount, horiginal, hstored, hform', hother'⟩ := lfsStats_memory db.rows
  have hresult : db.lfsStats = .ok ⟨(wrappedStats db.rows).count,
      (wrappedStats db.rows).originalBytes, (wrappedStats db.rows).storedBytes,
      fun key => byType.lookup key⟩ := by
    simp only [SqliteVersions.lfsStats, SqliteVersions.aggregating, SqliteVersions.reading, houtage,
      groupStats_eq htotal, hbyType]
    rfl
  rw [hresult, ← hcount, ← horiginal, ← hstored]
  congr 1
  refine LfsStorageStats.ext rfl rfl rfl ?_
  funext key
  by_cases hkey : ∃ storage : LfsStorageType, storage.text = key
  · obtain ⟨storage, rfl⟩ := hkey
    exact (hform storage).trans (hform' storage).symm
  · have hnone := not_exists.mp hkey
    exact (hother key hnone).trans (hother' key hnone).symm

/-! ### The same calls on both -/

/-- The version number of a new record is fresh for its repository and path. -/
def RecordsFresh (vs : List LfsFileVersion) : VersionRequest → Prop
  | .recordVersion r => r.key ∉ vs.map (·.key)
  | _ => True

/-- An update finds every record of its hash but the first in the form it sets; the sums of
statistics stay in range. -/
def FirstStandsForAll (vs : List LfsFileVersion) : VersionRequest → Prop
  | .updateVersion hash storage baseSha256 storedSize =>
    ∀ v ∈ (vs.filter (·.sha256 == hash)).tail, v.restore storage baseSha256 storedSize = v
  | .lfsStats => SizesInRange vs ∧ ∀ storage, SizesInRange (SqliteVersions.ofForm vs storage)
  | _ => True

/-- The same records, in a database whose statements succeed. -/
def SameRecords (memory : MemoryLfsVersionDatabase) (sqlite : SqliteVersions) : Prop :=
  sqlite.rows = memory.versions ∧ sqlite.outage = fun _ => none

theorem recordVersion_fresh (db : SqliteVersions) {r : LfsFileVersion}
    (houtage : db.outage .recordVersion = none) (hfresh : r.key ∉ db.rows.map (·.key)) :
    (db.recordVersion r).1 = .ok r.version ∧ (db.recordVersion r).2.rows = db.rows ++ [r]
      ∧ (db.recordVersion r).2.outage = db.outage := by
  unfold SqliteVersions.recordVersion
  split
  · rename_i e he
    cases houtage.symm.trans he
  · rw [dif_neg hfresh]
    exact ⟨rfl, rfl, rfl⟩

/-- One call. -/
theorem SameRecords.answer {memory : MemoryLfsVersionDatabase} {sqlite : SqliteVersions}
    {request : VersionRequest} (h : SameRecords memory sqlite)
    (hfresh : RecordsFresh memory.versions request)
    (hfirst : FirstStandsForAll memory.versions request) :
    (answer memory request).1 = (answer sqlite request).1
      ∧ SameRecords (answer memory request).2 (answer sqlite request).2 := by
  obtain ⟨vs⟩ := memory
  obtain ⟨rows, hnodup, outage⟩ := sqlite
  obtain ⟨rfl, rfl⟩ : rows = vs ∧ outage = fun _ => none := h
  cases request with
  | recordVersion r =>
    obtain ⟨hresult, hrows, houtage⟩ :=
      recordVersion_fresh ⟨rows, hnodup, fun _ => none⟩ rfl hfresh
    exact ⟨congrArg VersionAnswer.recorded hresult.symm, hrows, houtage⟩
  | updateVersion hash storage baseSha256 storedSize =>
    exact ⟨rfl, (MemoryLfsVersionDatabase.updateFirst_eq_map_iff.mpr hfirst).symm, rfl⟩
  | deleteBySha256 hash => exact ⟨rfl, rfl, rfl⟩
  | getBySha256 hash => exact ⟨rfl, rfl, rfl⟩
  | getLatestVersion repoId path => exact ⟨rfl, rfl, rfl⟩
  | getDeltasForBase baseSha256 => exact ⟨rfl, rfl, rfl⟩
  | lfsStats =>
    have hstats : SqliteVersions.lfsStats ⟨rows, hnodup, fun _ => none⟩ = _ :=
      lfsStats_sqlite rfl hfirst.1 hfirst.2
    exact ⟨congrArg VersionAnswer.stats hstats.symm, rfl, rfl⟩

/-- **Both stores answer alike** wherever records are fresh and the first record stands for all. -/
theorem memory_answers_as_sqlite {requests : List VersionRequest}
    (hfresh : ∀ pre request post, requests = pre ++ request :: post →
      RecordsFresh (versionsAfter pre) request)
    (hfirst : ∀ pre request post, requests = pre ++ request :: post →
      FirstStandsForAll (versionsAfter pre) request) :
    log answer MemoryLfsVersionDatabase.new requests
      = log answer SqliteVersions.new requests :=
  log_eq_of_simulates (R := SameRecords) ⟨rfl, rfl⟩ fun pre request post hsplit h =>
    h.answer (hfresh pre request post hsplit) (hfirst pre request post hsplit)

/-- A record of the content with hash `"h"`, as a delta on `"b"`. -/
def deltaRecord (path : String) : LfsFileVersion :=
  ⟨"r", path, 1, "h", some "b", .delta, none, 5, 3, 0⟩

/-- Content that was already stored raw under another path, and is now stored raw everywhere. -/
theorem raw_twice_answers_as_sqlite :
    let requests : List VersionRequest := [.recordVersion (deltaRecord "p"),
      .recordVersion ((deltaRecord "q").restore .raw none 5), .updateVersion "h" .raw none 5,
      .getDeltasForBase "b", .lfsStats]
    log answer MemoryLfsVersionDatabase.new requests
      = log answer SqliteVersions.new requests := by
  refine memory_answers_as_sqlite ?_ ?_
  · simp only [forall_split_cons, forall_split_nil, RecordsFresh, and_true]
    decide
  · simp only [forall_split_cons, forall_split_nil, FirstStandsForAll, and_true, true_and]
    refine ⟨by decide, by decide, fun storage => ?_⟩
    cases storage <;> decide

/-- The records a call returns. -/
def VersionAnswer.returned : VersionAnswer → List LfsFileVersion
  | .records (.ok vs) => vs
  | _ => []

/-- The same content recorded under two paths: after an update only memory still lists a delta. -/
theorem update_leaves_second_record :
    let requests : List VersionRequest := [.recordVersion (deltaRecord "p"),
      .recordVersion (deltaRecord "q"), .updateVersion "h" .raw none 5, .getDeltasForBase "b"]
    (∀ pre request post, requests = pre ++ request :: post →
        RecordsFresh (versionsAfter pre) request)
      ∧ (log answer MemoryLfsVersionDatabase.new requests).map (·.2.returned)
        = [[], [], [], [deltaRecord "q"]]
      ∧ (log answer SqliteVersions.new requests).map (·.2.returned) = [[], [], [], []] := by
  refine ⟨?_, by decide, by decide⟩
  simp only [forall_split_cons, forall_split_nil, RecordsFresh, and_true]
  decide

end BlossomRs.Lfs

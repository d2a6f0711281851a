import Mathlib.Data.List.Basic
import BlossomRs.Lfs.Pipeline

/-!
# The blob store as one object

A server keeps bytes in a backend and version records in a record store, and every endpoint writes
to the two in its own way.  `Store` is the pair of them as functions and lists, without the
interfaces in between: what `GET` returns for a hash is `Store.read`.

`WellStored` relates a store to the contents it is meant to hold: each stored hash has at most one
record, its bytes are the content in the form the record names, and every delta chain ends.
`WellStored.read_eq` is the reason to want that: a chain of at most ten deltas whose records are all
present reads back as the content.
-/

namespace BlossomRs.Lfs

open Protocol

/-- Bytes by hash, and the version records, absent when the server keeps none. -/
structure Store where
  blobs : String → Option Bytes
  versions : Option (List LfsFileVersion)

namespace Store

variable (s : Store)

/-- All version records, in the order they were made. -/
def records : List LfsFileVersion :=
  s.versions.getD []

/-- The first record of a hash. -/
def find (hash : String) : Option LfsFileVersion :=
  s.records.find? (·.sha256 == hash)

/-- Record lookup as the code sees it: it succeeds. -/
def lookup : VersionLookup :=
  fun hash => .ok (s.find hash)

/-- The base a hash is stored as a delta on. -/
def parent (hash : String) : Option String :=
  (s.find hash).bind LfsFileVersion.deltaBase

/-- A hash has bytes. -/
def Stored (hash : String) : Prop :=
  (s.blobs hash).isSome

instance (hash : String) : Decidable (s.Stored hash) :=
  inferInstanceAs (Decidable (_ = true))

/-- What `GET` returns for a hash. -/
def read (codecs : Codecs) (hash : String) : Option Bytes :=
  (s.blobs hash).map fun raw =>
    match s.find hash with
    | some v => loadStored codecs s.lookup s.blobs v raw
    | none => raw

/-! ### Operations -/

/-- Write bytes under a hash, replacing what was there. -/
def put (hash : String) (raw : Bytes) : Store :=
  { s with blobs := Function.update s.blobs hash (some raw) }

/-- Delete the bytes of a hash. -/
def remove (hash : String) : Store :=
  { s with blobs := Function.update s.blobs hash none }

/-- Add a version record. -/
def record (v : LfsFileVersion) : Store :=
  { s with versions := s.versions.map (· ++ [v]) }

/-- Delete the version records of a hash. -/
def forget (hash : String) : Store :=
  { s with versions := s.versions.map fun vs => vs.filter (·.sha256 != hash) }

/-- Change the stored form named by the records of a hash. -/
def restore (hash : String) (storage : LfsStorageType) (baseSha256 : Option String)
    (storedSize : Int) : Store :=
  { s with versions := s.versions.map fun vs => vs.map fun v =>
      if v.sha256 = hash then v.restore storage baseSha256 storedSize else v }

/-- The number of the next version of a file. -/
def nextNumber (repoId path : String) : Int :=
  match latestNumber s.records repoId path with
  | some number => number + 1
  | none => 1

/-- An upload: choose the stored form, write it unless the hash is taken, record a version if the
context names one. -/
def upload (codecs : Codecs) (ctx : LfsContext) (data : Bytes) (now : Nat) : Store :=
  let hash := sha256Hex data
  let prepared := prepareUpload codecs (s.versions.map fun _ => s.lookup) s.blobs ctx data
  let written := if (s.blobs hash).isSome then s else s.put hash prepared.storedData
  match ctx.recordKey with
  | some (repo, path) =>
    written.record
      (versionRecord repo path (s.nextNumber repo path) hash prepared data.length now)
  | none => written

/-- The record an upload makes, if any. -/
def newRecord (codecs : Codecs) (ctx : LfsContext) (data : Bytes) (now : Nat) :
    Option LfsFileVersion :=
  match s.versions, ctx.recordKey with
  | some _, some (repo, path) =>
    some (versionRecord repo path (s.nextNumber repo path) (sha256Hex data)
      (prepareUpload codecs (s.versions.map fun _ => s.lookup) s.blobs ctx data) data.length now)
  | _, _ => none

/-- The form in which an upload would be stored. -/
abbrev prepared (codecs : Codecs) (ctx : LfsContext) (data : Bytes) : Prepared :=
  prepareUpload codecs (s.versions.map fun _ => s.lookup) s.blobs ctx data

/-! ### Lookups after an operation -/

variable {s}

section

variable (hash : String)

@[simp] theorem blobs_put (raw : Bytes) :
    (s.put hash raw).blobs = Function.update s.blobs hash (some raw) := rfl

@[simp] theorem versions_put (raw : Bytes) :
    (s.put hash raw).versions = s.versions := rfl

@[simp] theorem find_put (raw : Bytes) : (s.put hash raw).find = s.find := rfl

@[simp] theorem blobs_remove :
    (s.remove hash).blobs = Function.update s.blobs hash none := rfl

@[simp] theorem find_remove : (s.remove hash).find = s.find := rfl

end

@[simp] theorem blobs_record (v : LfsFileVersion) : (s.record v).blobs = s.blobs := rfl

@[simp] theorem blobs_forget (hash : String) : (s.forget hash).blobs = s.blobs := rfl

@[simp] theorem blobs_restore (hash : String) (storage : LfsStorageType)
    (baseSha256 : Option String) (storedSize : Int) :
    (s.restore hash storage baseSha256 storedSize).blobs = s.blobs := rfl

theorem blobs_upload (codecs : Codecs) (ctx : LfsContext) (data : Bytes) (now : Nat) :
    (s.upload codecs ctx data now).blobs
      = if (s.blobs (sha256Hex data)).isSome then s.blobs
        else Function.update s.blobs (sha256Hex data)
          (some (s.prepared codecs ctx data).storedData) := by
  unfold upload
  cases ctx.recordKey <;> by_cases h : (s.blobs (sha256Hex data)).isSome <;> simp [h]

theorem records_upload (codecs : Codecs) (ctx : LfsContext) (data : Bytes) (now : Nat) :
    (s.upload codecs ctx data now).records
      = s.records ++ (s.newRecord codecs ctx data now).toList := by
  unfold upload newRecord
  cases hversions : s.versions <;> cases ctx.recordKey <;>
    by_cases h : (s.blobs (sha256Hex data)).isSome <;>
    simp [h, records, record, put, hversions]

variable {v : LfsFileVersion} {hash : String} {codecs : Codecs} {ctx : LfsContext} {data : Bytes}
  {now : Nat}

theorem newRecord_eq_some (h : s.newRecord codecs ctx data now = some v) :
    s.versions.isSome ∧ ctx.recordKey.isSome ∧ v.sha256 = sha256Hex data
      ∧ v.storage = (s.prepared codecs ctx data).storage
      ∧ v.baseSha256 = (s.prepared codecs ctx data).baseSha256 := by
  unfold newRecord at h
  split at h
  · rename_i hversions hkey
    cases h
    exact ⟨by simp [hversions], by simp [hkey], rfl, rfl, rfl⟩
  · cases h

theorem sizes_newRecord (h : s.newRecord codecs ctx data now = some v) :
    v.originalSize = data.length ∧ v.storedSize = data.length := by
  unfold newRecord at h
  split at h
  · cases h
    exact ⟨rfl, rfl⟩
  · cases h

theorem newRecord_isSome (codecs : Codecs) (ctx : LfsContext) (data : Bytes) (now : Nat) :
    (s.newRecord codecs ctx data now).isSome ↔ s.versions.isSome ∧ ctx.recordKey.isSome := by
  unfold newRecord
  cases s.versions <;> cases ctx.recordKey <;> simp

/-- The record of an upload is found under its hash when the hash had none. -/
theorem find_upload_self (codecs : Codecs) (ctx : LfsContext) (data : Bytes) (now : Nat) :
    (s.upload codecs ctx data now).find (sha256Hex data)
      = (s.find (sha256Hex data)).or (s.newRecord codecs ctx data now) := by
  rw [find, records_upload, List.find?_append]
  cases hnew : s.newRecord codecs ctx data now with
  | none => rfl
  | some v =>
    obtain ⟨-, -, hsha, -⟩ := newRecord_eq_some hnew
    simp [find, hsha]

theorem find_upload_of_ne (hne : hash ≠ sha256Hex data) :
    (s.upload codecs ctx data now).find hash = s.find hash := by
  rw [find, records_upload, List.find?_append]
  cases hnew : s.newRecord codecs ctx data now with
  | none => simp [find]
  | some v =>
    obtain ⟨-, -, hsha, -⟩ := newRecord_eq_some hnew
    simp [find, hsha, Ne.symm hne]

theorem blobs_upload_of_ne (hne : hash ≠ sha256Hex data) :
    (s.upload codecs ctx data now).blobs hash = s.blobs hash := by
  rw [blobs_upload]
  split
  · rfl
  · exact Function.update_of_ne hne _ _

/-- An upload stores its body and keeps what was stored. -/
theorem stored_upload_iff :
    (s.upload codecs ctx data now).Stored hash
      ↔ s.Stored hash ∨ hash = sha256Hex data := by
  unfold Stored
  rw [blobs_upload]
  by_cases hself : hash = sha256Hex data
  · subst hself
    by_cases h : (s.blobs (sha256Hex data)).isSome <;> simp [h]
  · by_cases h : (s.blobs (sha256Hex data)).isSome <;> simp [h, hself]

theorem sha256_of_find (h : s.find hash = some v) :
    v.sha256 = hash := by
  simpa using List.find?_some h

theorem mem_records_of_find (h : s.find hash = some v) :
    v ∈ s.records :=
  List.mem_of_find?_eq_some h

theorem find_eq_none_iff :
    s.find hash = none ↔ ∀ v ∈ s.records, v.sha256 ≠ hash := by
  simp [find]

theorem filter_records_eq_nil (h : s.find hash = none) :
    s.records.filter (·.sha256 == hash) = [] := by
  rw [List.filter_eq_nil_iff]
  intro v hv
  simpa using find_eq_none_iff.mp h v hv

theorem parent_eq_some_iff {base : String} :
    s.parent hash = some base ↔ ∃ v, s.find hash = some v ∧ v.deltaBase = some base := by
  simp [parent, Option.bind_eq_some_iff]

theorem parent_eq_none_of_find (h : s.find hash = none) : s.parent hash = none := by
  simp [parent, h]

section

variable (hversions : s.versions.isSome)
include hversions

theorem records_record (v : LfsFileVersion) :
    (s.record v).records = s.records ++ [v] := by
  obtain ⟨vs, hvs⟩ := Option.isSome_iff_exists.mp hversions
  simp [records, record, hvs]

/-- A record is found under its hash when the hash had none, and changes nothing else. -/
theorem find_record (v : LfsFileVersion) (hash : String) :
    (s.record v).find hash
      = (s.find hash).or (if v.sha256 = hash then some v else none) := by
  simp only [find, records_record hversions, List.find?_append, List.find?_singleton, beq_iff_eq]

theorem find_record_of_ne {other : String} (hne : v.sha256 ≠ other) :
    (s.record v).find other = s.find other := by
  simp [find_record hversions, hne]

end

theorem record_of_none (hversions : s.versions = none) (v : LfsFileVersion) :
    s.record v = s := by
  cases s
  simp_all [record]

theorem find_forget_self (hash : String) : (s.forget hash).find hash = none := by
  rw [find_eq_none_iff]
  intro v hv
  cases hvs : s.versions with
  | none => simp [records, forget, hvs] at hv
  | some vs =>
    have : v ∈ vs ∧ v.sha256 ≠ hash := by simpa [records, forget, hvs] using hv
    exact this.2

theorem find_forget_of_ne {other : String} (hne : other ≠ hash) :
    (s.forget hash).find other = s.find other := by
  cases hvs : s.versions with
  | none => simp [find, records, forget, hvs]
  | some vs =>
    simp only [find, records, forget, hvs, Option.map_some, Option.getD_some, List.find?_filter]
    congr 1
    funext v
    by_cases hv : v.sha256 = other
    · simp [hv, hne]
    · simp [hv]

theorem find_restore (hash : String) (storage : LfsStorageType) (baseSha256 : Option String)
    (storedSize : Int) (other : String) :
    (s.restore hash storage baseSha256 storedSize).find other
      = (s.find other).map fun v =>
          if v.sha256 = hash then v.restore storage baseSha256 storedSize else v := by
  cases hvs : s.versions with
  | none => simp [find, records, restore, hvs]
  | some vs =>
    simp only [find, records, restore, hvs, Option.map_some, Option.getD_some, List.find?_map]
    congr 2
    funext v
    by_cases hv : v.sha256 = hash
    · simp [hv, LfsFileVersion.restore]
    · simp [hv]

theorem stored_of_read {content : Bytes} (h : s.read codecs hash = some content) :
    s.Stored hash := by
  obtain ⟨raw, hraw, -⟩ := Option.map_eq_some_iff.mp h
  simp [Stored, hraw]

end Store

/-! ### What the pipeline can produce -/

/-- The compressed delta a body is stored as: against the content of a recorded base, where it saves
enough. -/
def DeltaForm (codecs : Codecs) (s : Store) (ctx : LfsContext) (data stored : Bytes) : Prop :=
  ∃ base content delta, ctx.base = some base ∧ (s.find base).isSome
    ∧ s.read codecs base = some content ∧ codecs.encodeDelta content data = .ok delta
    ∧ deltaIsWorthwhile delta.length data.length = true ∧ codecs.compress delta = .ok stored

/-- The outcomes of the pipeline.  Only a tracked upload that is not a manifest is encoded, and then
as a delta where there is a form for it. -/
inductive PreparedAs (codecs : Codecs) (s : Store) (ctx : LfsContext) (data : Bytes) :
    Prepared → Prop
  | raw (hplain : ¬ (s.versions.isSome ∧ ctx.isLfs = true ∧ ctx.isManifest = false)) :
    PreparedAs codecs s ctx data (prepareRaw data)
  | compressed (hencoded : s.versions.isSome ∧ ctx.isLfs = true ∧ ctx.isManifest = false)
      (hnone : ∀ stored, ¬ DeltaForm codecs s ctx data stored) :
    PreparedAs codecs s ctx data (prepareCompressed codecs data)
  | delta (hencoded : s.versions.isSome ∧ ctx.isLfs = true ∧ ctx.isManifest = false)
      {base : String} {content delta stored : Bytes} (hbase : ctx.base = some base)
      (hfound : (s.find base).isSome) (hread : s.read codecs base = some content)
      (hencode : codecs.encodeDelta content data = .ok delta)
      (hworth : deltaIsWorthwhile delta.length data.length = true)
      (hcompress : codecs.compress delta = .ok stored) :
    PreparedAs codecs s ctx data ⟨stored, .delta, some base⟩

theorem preparedAs (codecs : Codecs) (s : Store) (ctx : LfsContext) (data : Bytes) :
    PreparedAs codecs s ctx data (s.prepared codecs ctx data) := by
  by_cases hencoded : s.versions.isSome ∧ ctx.isLfs = true ∧ ctx.isManifest = false
  · obtain ⟨vs, hvs⟩ := Option.isSome_iff_exists.mp hencoded.1
    have hprepared : s.prepared codecs ctx data
        = prepareUpload codecs (some s.lookup) s.blobs ctx data := by
      rw [Store.prepared, hvs, Option.map_some]
    rw [hprepared]
    simp only [prepareUpload, hencoded.2.1, hencoded.2.2, Bool.not_false, Bool.and_true, if_true]
    by_cases hform : ∃ stored, DeltaForm codecs s ctx data stored
    · obtain ⟨stored, base, content, delta, hbase, hfound, hread, hencode, hworth, hcompress⟩ := hform
      obtain ⟨v, hfind⟩ := Option.isSome_iff_exists.mp hfound
      obtain ⟨raw, hraw, hload⟩ := Option.map_eq_some_iff.mp hread
      simp only [hfind] at hload
      simp only [hbase, Store.lookup, hfind, hraw]
      rw [hload]
      simp only [prepareDelta, hencode, hworth, hcompress, if_true]
      exact .delta hencoded hbase hfound hread hencode hworth hcompress
    · have hnone := not_exists.mp hform
      cases hbase : ctx.base with
      | none => exact .compressed hencoded hnone
      | some base =>
        dsimp only
        split
        case h_1 v raw hlookup hraw =>
          have hfind : s.find base = some v := Except.ok.inj hlookup
          have hread : s.read codecs base = some (loadStored codecs s.lookup s.blobs v raw) := by
            simp [Store.read, hraw, hfind]
          unfold prepareDelta
          split
          · split
            · split
              · rename_i hencode hworth _ _ hcompress
                exact absurd ⟨base, _, _, hbase, by simp [hfind], hread, hencode, hworth, hcompress⟩
                  (hnone _)
              · exact .compressed hencoded hnone
            · exact .compressed hencoded hnone
          · exact .compressed hencoded hnone
        case h_2 => exact .compressed hencoded hnone
  · have hraw : s.prepared codecs ctx data = prepareRaw data := by
      cases hvs : s.versions <;> cases hlfs : ctx.isLfs <;> cases hmanifest : ctx.isManifest <;>
        simp_all [Store.prepared, prepareUpload]
    rw [hraw]
    exact .raw hencoded

end BlossomRs.Lfs

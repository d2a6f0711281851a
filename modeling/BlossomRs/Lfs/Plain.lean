import BlossomRs.Lfs.Store

/-!
# Stores without deltas

`Plain` is the invariant of a store in which no version is a delta: every stored hash reads as its
content.  The bytes of a hash are written once, by its first upload, and decoded as its first record
says, by whichever upload made that record.  The two agree as long as

* an upload that writes compressed bytes also makes a record, and
* an upload that makes the first record of bytes stored as they are either names them raw, or they
  happen to decompress to themselves or not at all

(`FormIsRecorded`).  Then an upload keeps the invariant (`Plain.upload`).
-/

namespace BlossomRs.Lfs

open Protocol

/-- Every stored hash reads as its content, and no record is a delta or without bytes. -/
structure Plain (codecs : Codecs) (s : Store) (contents : String → Bytes) : Prop where
  reads : ∀ hash, s.Stored hash → s.read codecs hash = some (contents hash)
  noDeltas : ∀ v ∈ s.records, v.storage ≠ .delta
  owned : ∀ v ∈ s.records, s.Stored v.sha256

/-- An upload that is stored compressed is recorded under a repository and a path, and one that makes
the first record of a stored body as compressed is of a body that decompressing leaves alone. -/
def FormIsRecorded (codecs : Codecs) (s : Store) (ctx : LfsContext) (data : Bytes) : Prop :=
  s.versions.isSome → ctx.isLfs = true → ctx.isManifest = false →
    (¬ s.Stored (sha256Hex data) → ctx.repo.isSome ∧ ctx.path.isSome)
    ∧ (s.Stored (sha256Hex data) → s.find (sha256Hex data) = none →
      ctx.repo.isSome → ctx.path.isSome → codecs.decompressOr data = data)

instance (codecs : Codecs) (s : Store) (ctx : LfsContext) (data : Bytes) :
    Decidable (FormIsRecorded codecs s ctx data) :=
  inferInstanceAs (Decidable (_ → _))

/-- How bytes are decoded by a record that is no delta. -/
def decodePlain (codecs : Codecs) : Option LfsFileVersion → Bytes → Bytes
  | some v, raw => if v.storage = .compressed then codecs.decompressOr raw else raw
  | none, raw => raw

/-- Without deltas a read looks at nothing but the bytes and the record of its hash. -/
theorem Store.read_of_noDeltas {codecs : Codecs} {s : Store}
    (h : ∀ v ∈ s.records, v.storage ≠ .delta) (hash : String) :
    s.read codecs hash = (s.blobs hash).map (decodePlain codecs (s.find hash)) := by
  unfold Store.read
  congr 1
  funext raw
  cases hv : s.find hash with
  | none => rfl
  | some v =>
    have hne := h v (Store.mem_records_of_find hv)
    cases hstorage : v.storage with
    | raw => simp [loadStored, decodePlain, hstorage]
    | compressed => simp [loadStored, decodePlain, hstorage]
    | delta => exact absurd hstorage hne

namespace Plain

variable {codecs : Codecs} {s : Store} {contents : String → Bytes}

/-- An empty store is plain. -/
theorem empty (hblobs : ∀ hash, s.blobs hash = none) (hrecords : s.records = []) :
    Plain codecs s contents where
  reads := by
    intro hash hstored
    simp [Store.Stored, hblobs] at hstored
  noDeltas := by simp [hrecords]
  owned := by simp [hrecords]

theorem find_eq_none (hplain : Plain codecs s contents) {hash : String}
    (hfresh : ¬ s.Stored hash) : s.find hash = none := by
  rw [Store.find_eq_none_iff]
  rintro v hv rfl
  exact hfresh (hplain.owned v hv)

/-- Writing a blob, and at most one record of the same hash that is no delta. -/
theorem extend (hplain : Plain codecs s contents) {s' : Store} (hash : String)
    {new : Option LfsFileVersion} (hrecords : s'.records = s.records ++ new.toList)
    (hnew : ∀ v, new = some v → v.sha256 = hash ∧ v.storage ≠ .delta)
    (hblobs : ∀ other, other ≠ hash → s'.blobs other = s.blobs other)
    (hread : ∃ raw, s'.blobs hash = some raw
      ∧ decodePlain codecs (s'.find hash) raw = contents hash) :
    Plain codecs s' contents := by
  obtain ⟨raw, hraw, hcontent⟩ := hread
  have hmem : ∀ v, v ∈ s'.records ↔ v ∈ s.records ∨ new = some v := by
    intro v
    rw [hrecords, List.mem_append, Option.mem_toList]
  have hnoDeltas : ∀ v ∈ s'.records, v.storage ≠ .delta := by
    intro v hv
    rcases (hmem v).mp hv with hv | hv
    · exact hplain.noDeltas v hv
    · exact (hnew v hv).2
  have hfind : ∀ other, other ≠ hash → s'.find other = s.find other := by
    intro other hne
    rw [Store.find, Store.find, hrecords, List.find?_append]
    cases hcase : new with
    | none => simp
    | some v =>
      have hmiss : v.sha256 ≠ other := by
        rw [(hnew v hcase).1]
        exact Ne.symm hne
      simp [hmiss]
  have hstored : ∀ other, s.Stored other → s'.Stored other := by
    intro other hother
    by_cases h : other = hash
    · simp [Store.Stored, h, hraw]
    · rwa [Store.Stored, hblobs other h]
  refine ⟨?_, hnoDeltas, ?_⟩
  · intro other hother
    rw [Store.read_of_noDeltas hnoDeltas]
    by_cases h : other = hash
    · rw [h, hraw, Option.map_some, hcontent]
    · rw [hblobs other h, hfind other h, ← Store.read_of_noDeltas hplain.noDeltas]
      exact hplain.reads other (by rwa [Store.Stored, hblobs other h] at hother)
  · intro v hv
    rcases (hmem v).mp hv with hv | hv
    · exact hstored _ (hplain.owned v hv)
    · simp [Store.Stored, (hnew v hv).1, hraw]

section Upload

variable {ctx : LfsContext} {data : Bytes} {now : Nat}

/-- An upload without a base makes a record that names the form it is stored in. -/
theorem storage_newRecord (hbase : ctx.base = none) {v : LfsFileVersion}
    (hv : s.newRecord codecs ctx data now = some v) :
    v.storage = if s.versions.isSome ∧ ctx.isLfs = true ∧ ctx.isManifest = false then .compressed
      else .raw := by
  obtain ⟨-, -, -, hstorage, -⟩ := Store.newRecord_eq_some hv
  rw [hstorage, Store.prepared, prepareUpload_of_no_base hbase, Option.isSome_map]
  split <;> rfl

/-- A new body is decoded as it was encoded. -/
theorem decode_fresh (now : Nat) (hzstd : codecs.ZstdRoundTrips) (hbase : ctx.base = none)
    (hform : FormIsRecorded codecs s ctx data) (hfresh : ¬ s.Stored (sha256Hex data)) :
    decodePlain codecs (s.newRecord codecs ctx data now)
      (prepareUpload codecs (s.versions.map fun _ => s.lookup) s.blobs ctx data).storedData
        = data := by
  rw [prepareUpload_of_no_base hbase, Option.isSome_map]
  split
  · rename_i hcompressed
    obtain ⟨hversions, hlfs, hmanifest⟩ := id hcompressed
    have hkey := (hform hversions hlfs hmanifest).1 hfresh
    obtain ⟨v, hv⟩ := Option.isSome_iff_exists.mp ((s.newRecord_isSome codecs ctx data now).mpr
      ⟨hversions, LfsContext.recordKey_isSome.mpr ⟨hlfs, hkey⟩⟩)
    have hstorage := storage_newRecord hbase hv
    rw [if_pos hcompressed] at hstorage
    simp [hv, decodePlain, hstorage, prepareCompressed, Codecs.decompressOr_compressOr hzstd]
  · rename_i hraw
    cases hv : s.newRecord codecs ctx data now with
    | none => rfl
    | some v =>
      have hstorage := storage_newRecord hbase hv
      rw [if_neg hraw] at hstorage
      simp [decodePlain, hstorage, prepareRaw]

/-- A body that is stored is decoded as before: by its first record, or, if this upload makes the
first one, in a way that leaves it alone. -/
theorem decode_stored (hplain : Plain codecs s contents) (hbase : ctx.base = none)
    (hcontent : contents (sha256Hex data) = data) (hform : FormIsRecorded codecs s ctx data)
    {raw : Bytes} (hraw : s.blobs (sha256Hex data) = some raw) :
    decodePlain codecs
      ((s.find (sha256Hex data)).or (s.newRecord codecs ctx data now)) raw = data := by
  have hstored : s.Stored (sha256Hex data) := by simp [Store.Stored, hraw]
  have hread := hplain.reads _ hstored
  rw [Store.read_of_noDeltas hplain.noDeltas, hraw, hcontent, Option.map_some,
    Option.some.injEq] at hread
  cases hfind : s.find (sha256Hex data) with
  | some first => simpa [hfind] using hread
  | none =>
    obtain rfl : raw = data := by simpa [hfind, decodePlain] using hread
    rw [Option.none_or]
    cases hv : s.newRecord codecs ctx raw now with
    | none => rfl
    | some v =>
      have hstorage := storage_newRecord hbase hv
      split at hstorage
      · rename_i hcompressed
        obtain ⟨hversions, hlfs, hmanifest⟩ := hcompressed
        obtain ⟨-, hkey, -⟩ := Store.newRecord_eq_some hv
        obtain ⟨-, hrepo, hpath⟩ := LfsContext.recordKey_isSome.mp hkey
        simp only [decodePlain, hstorage, if_true]
        exact (hform hversions hlfs hmanifest).2 hstored hfind hrepo hpath
      · simp [decodePlain, hstorage]

/-- **An upload without a base keeps the invariant**, when the form it is stored in is recorded. -/
theorem upload (hplain : Plain codecs s contents) (hzstd : codecs.ZstdRoundTrips)
    (hbase : ctx.base = none) (hcontent : contents (sha256Hex data) = data)
    (hform : FormIsRecorded codecs s ctx data) :
    Plain codecs (s.upload codecs ctx data now) contents := by
  refine hplain.extend (sha256Hex data) (Store.records_upload codecs ctx data now) ?_ ?_ ?_
  · intro v hv
    refine ⟨(Store.newRecord_eq_some hv).2.2.1, ?_⟩
    rw [storage_newRecord hbase hv]
    split <;> decide
  · exact fun _ => Store.blobs_upload_of_ne
  · rw [Store.blobs_upload, Store.find_upload_self, hcontent]
    by_cases hstored : s.Stored (sha256Hex data)
    · obtain ⟨raw, hraw⟩ := Option.isSome_iff_exists.mp hstored
      refine ⟨raw, ?_, hplain.decode_stored hbase hcontent hform hraw⟩
      rw [if_pos (by rw [hraw]; rfl), hraw]
    · have hdecode := decode_fresh now hzstd hbase hform hstored
      rw [hplain.find_eq_none hstored, Option.none_or]
      refine ⟨_, ?_, hdecode⟩
      have hfree : ¬ (s.blobs (sha256Hex data)).isSome := hstored
      rw [if_neg hfree, Function.update_self]

end Upload

end Plain

end BlossomRs.Lfs

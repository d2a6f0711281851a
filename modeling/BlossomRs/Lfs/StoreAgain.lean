import BlossomRs.Lfs.WellStored

/-!
# Storing a content a second time

A blob store that holds some contents is given one of them again.  Two operations do that: writing
the content over the stored bytes (`Store.put`), and an upload, which leaves the bytes alone but may
add a record.

Both can break the store.  `wellStored_put_iff` says that overwriting is harmless exactly where the
stored bytes are the content already; `upload_again` gives the uploads that are harmless.  The
second needs that no content is, byte for byte, an encoded form of itself (`SelfEncoded`): otherwise
a wrong record can happen to be right.
-/

namespace BlossomRs.Lfs

open Protocol ParentChain

/-- Bytes that are their own compressed form, or the stored form of a delta that yields them. -/
def SelfEncoded (codecs : Codecs) (data : Bytes) : Prop :=
  codecs.compress data = .ok data
    ∨ ∃ base delta, codecs.encodeDelta base data = .ok delta ∧ codecs.compress delta = .ok data

/-- After a step the store holds the same contents, and every blob is served as before. -/
def Preserves (codecs : Codecs) (s s' : Store) (contents : String → Bytes) : Prop :=
  WellStored codecs s' contents ∧ ∀ hash, s.Stored hash → s'.read codecs hash = s.read codecs hash

/-- A read of the first hash looks for a record of the second one on its way down. -/
def ReadsThrough (s : Store) (hash base : String) : Prop :=
  ∃ i, 0 < i ∧ i < maxDeltaChainDepth ∧ ancestor s.parent i hash = some base

/-- The upload records nothing, or a manifest for a blob that has no record and that no delta reads
through. -/
def RecordsSafely (s : Store) (ctx : LfsContext) (data : Bytes) : Prop :=
  s.versions.isSome → ctx.recordKey.isSome →
    s.find (sha256Hex data) = none ∧ ctx.isManifest = true
      ∧ ∀ hash, s.Stored hash → ¬ ReadsThrough s hash (sha256Hex data)

variable {codecs : Codecs} {s : Store} {contents : String → Bytes}

/-! ### Writing over stored bytes -/

variable {hash : String} {raw data : Bytes} {ctx : LfsContext} {v : LfsFileVersion}

/-- The bytes that hold a content under a given record are determined. -/
theorem Holds.unique {raw' : Bytes} (h : Holds codecs s contents hash raw)
    (h' : Holds codecs s contents hash raw') : raw = raw' := by
  unfold Holds at h h'
  cases hv : s.find hash with
  | none =>
    simp only [hv] at h h'
    rw [h, h']
  | some v =>
    simp only [hv, HoldsAs] at h h'
    cases hstorage : v.storage with
    | raw =>
      simp only [hstorage] at h h'
      rw [h, h']
    | compressed =>
      simp only [hstorage] at h h'
      exact Except.ok.inj (h.symm.trans h')
    | delta =>
      simp only [hstorage] at h h'
      obtain ⟨base, delta, hbase, -, hencode, hcompress⟩ := h
      obtain ⟨base', delta', hbase', -, hencode', hcompress'⟩ := h'
      obtain rfl : base = base' := Option.some.inj (hbase.symm.trans hbase')
      obtain rfl : delta = delta' := Except.ok.inj (hencode.symm.trans hencode')
      exact Except.ok.inj (hcompress.symm.trans hcompress')

theorem Store.put_eq_self (h : s.blobs hash = some raw) :
    s.put hash raw = s := by
  rw [Store.put, ← h, Function.update_eq_self]

/-- Whether a blob's bytes hold its content does not depend on which bytes other blobs have. -/
theorem holds_put_iff {other : String} {otherRaw : Bytes} (hstored : s.Stored hash) :
    Holds codecs (s.put hash raw) contents other otherRaw
      ↔ Holds codecs s contents other otherRaw := by
  have hsame : (s.put hash raw).Stored = s.Stored := by
    funext k
    by_cases hk : k = hash
    · subst hk
      simpa [Store.Stored] using hstored
    · simp [Store.Stored, Function.update_of_ne hk]
  unfold Holds
  rw [Store.find_put, hsame]

/-- **Overwriting a stored blob with its content** keeps the store well stored exactly when the
bytes were the content before. -/
theorem wellStored_put_iff (hwell : WellStored codecs s contents) (hstored : s.Stored hash) :
    Preserves codecs s (s.put hash (contents hash)) contents
      ↔ s.blobs hash = some (contents hash) := by
  refine ⟨?_, ?_⟩
  · rintro ⟨hwell', -⟩
    obtain ⟨raw, hraw⟩ := Option.isSome_iff_exists.mp hstored
    have hnew := hwell'.holds hash (contents hash) (by simp)
    rw [holds_put_iff hstored] at hnew
    rw [hraw, (hwell.holds hash raw hraw).unique hnew]
  · intro h
    rw [Store.put_eq_self h]
    exact ⟨hwell, fun _ _ => rfl⟩

/-! ### Uploading a stored blob -/

theorem Store.upload_of_stored {now : Nat} (hstored : s.Stored (sha256Hex data)) :
    s.upload codecs ctx data now = (s.newRecord codecs ctx data now).elim s s.record := by
  have htaken : (s.blobs (sha256Hex data)).isSome = true := hstored
  unfold Store.upload Store.newRecord
  cases hversions : s.versions <;> cases ctx.recordKey <;>
    simp [htaken, Store.record_of_none, hversions]

/-- A manifest is stored as it is. -/
theorem prepared_of_manifest (hmanifest : ctx.isManifest = true) :
    s.prepared codecs ctx data = prepareRaw data := by
  cases hvs : s.versions <;> simp [Store.prepared, prepareUpload, hmanifest, hvs]

section Record

/-- A first record that is no delta leaves every base alone. -/
theorem Store.parent_record (hversions : s.versions.isSome) (hsha : v.sha256 = hash)
    (hmissing : s.find hash = none) (hbase : v.deltaBase = none) (other : String) :
    (s.record v).parent other = s.parent other := by
  rw [Store.parent, Store.parent, Store.find_record hversions, hsha]
  by_cases h : hash = other
  · subst h
    simp [hmissing, hbase]
  · simp [h]

variable {other : String}

/-- A store that holds its contents goes on doing so when a blob gets its first record, if the
record names the form the bytes have and is no delta. -/
theorem WellStored.record (hwell : WellStored codecs s contents) (hversions : s.versions.isSome)
    (hsha : v.sha256 = hash) (hmissing : s.find hash = none) (hbase : v.deltaBase = none)
    (hholds : ∀ raw, s.blobs hash = some raw → HoldsAs codecs s.Stored contents hash raw v) :
    WellStored codecs (s.record v) contents := by
  have hself : (s.record v).find hash = some v := by
    simp [Store.find_record hversions, hmissing, hsha]
  refine ⟨?_, ?_, ?_⟩
  · intro other hother
    rw [Store.records_record hversions, List.filter_append]
    by_cases h : hash = other
    · subst h
      simp [Store.filter_records_eq_nil hmissing, hsha]
    · have := hwell.single other hother
      simpa [hsha, h] using this
  · intro other raw hraw
    unfold Holds
    by_cases h : hash = other
    · subst h
      simp only [hself]
      exact hholds raw hraw
    · rw [Store.find_record_of_ne hversions (by rwa [hsha])]
      exact hwell.holds other raw hraw
  · intro other hother
    obtain ⟨n, hn⟩ := hwell.ends other hother
    exact ⟨n, (hwell.depth_iff
      (fun k _ => Store.parent_record hversions hsha hmissing hbase k) hother).mpr hn⟩

/-- A first record of the raw form does not change what the reads return that do not look for it. -/
theorem read_record_raw (hversions : s.versions.isSome) (hsha : v.sha256 = hash)
    (hmissing : s.find hash = none) (hraw : v.storage = .raw) (hapart : ¬ ReadsThrough s other hash) :
    (s.record v).read codecs other = s.read codecs other := by
  have hself : (s.record v).find hash = some v := by
    simp [Store.find_record hversions, hmissing, hsha]
  by_cases h : hash = other
  · subst h
    simp [Store.read, hself, hmissing, loadStored, hraw]
  · have hkeep : ∀ a, hash ≠ a → (s.record v).find a = s.find a := fun a ha =>
      Store.find_record_of_ne hversions (by rwa [hsha])
    refine read_congr rfl (hkeep other h) (chase_congr ?_ ?_)
    · intro i hi a ha
      refine ⟨hkeep a ?_, rfl⟩
      rintro rfl
      cases i with
      | zero => exact h (Option.some.inj ha).symm
      | succ i => exact hapart ⟨i + 1, Nat.succ_pos i, hi, ha⟩
    · -- The last hash is only decoded, and a raw record decodes like none.
      intro a _
      by_cases ha : hash = a
      · subst ha
        simp [rootContent, Store.lookup, hself, hmissing, hraw]
      · simp only [rootContent, Store.lookup, hkeep a ha, Store.blobs_record]

/-- The root of a broken chain gets a record, and the chain can be read. -/
theorem read_of_readsThrough (hwell : WellStored codecs s contents) (hzstd : codecs.ZstdRoundTrips)
    (hdelta : s.DeltasDecode codecs contents) (hother : s.Stored other) (hroot : s.parent hash = none)
    (hfound : (s.find hash).isSome) (hthrough : ReadsThrough s other hash) :
    s.read codecs other = some (contents other) := by
  obtain ⟨i, hpos, hlt, ha⟩ := hthrough
  obtain ⟨n, hn⟩ := hwell.ends other hother
  obtain ⟨hle, hrest⟩ := hn.of_ancestor ha
  have hdepth : n = i := by
    have := hrest.unique (Depth.root hroot)
    omega
  subst hdepth
  refine hwell.read_eq hzstd hdelta hother hn (by omega) ?_
  intro _ j hj a haj
  obtain ⟨hjn, hj'⟩ := hn.of_ancestor haj
  rcases Nat.eq_or_lt_of_le hjn with rfl | hjlt
  · obtain rfl : hash = a := Option.some.inj (ha.symm.trans haj)
    exact hfound
  · -- A hash above the root has a base, so it has a record.
    obtain ⟨b, hb, -⟩ := hj'.exists_ancestor (m := 1) (by omega)
    rw [ancestor_succ, Option.bind_eq_some_iff] at hb
    obtain ⟨p, hp, -⟩ := hb
    obtain ⟨w, hw, -⟩ := Store.parent_eq_some_iff.mp hp
    simp [hw]

end Record

/-- A content stored as it is, under a record that names another form, is an encoded form of
itself. -/
theorem selfEncoded_of_holdsAs {stored : String → Prop}
    (h : HoldsAs codecs stored contents hash (contents hash) v) (hform : v.storage ≠ .raw) :
    SelfEncoded codecs (contents hash) := by
  unfold HoldsAs at h
  split at h
  · rename_i hraw
    exact absurd hraw hform
  · exact Or.inl h
  · obtain ⟨base, delta, -, -, hencode, hcompress⟩ := h
    exact Or.inr ⟨contents base, delta, hencode, hcompress⟩

/-- Among the versions of tracked files only manifests are prepared as they are. -/
theorem isManifest_of_prepared_raw (hversions : s.versions.isSome) (hlfs : ctx.isLfs = true)
    (hraw : (s.prepared codecs ctx data).storage = .raw) : ctx.isManifest = true := by
  have hprepared := preparedAs codecs s ctx data
  generalize s.prepared codecs ctx data = prepared at hprepared hraw
  cases hprepared with
  | raw hplain => simpa [hversions, hlfs] using hplain
  | compressed => cases hraw
  | delta => cases hraw

/-- If adding a record preserves everything, the blob had none. -/
theorem find_eq_none_of_record (hversions : s.versions.isSome) (hstored : s.Stored v.sha256)
    (hwell : WellStored codecs (s.record v) contents) :
    s.find v.sha256 = none := by
  have hsingle := hwell.single v.sha256 hstored
  rw [Store.records_record hversions, List.filter_append, List.length_append] at hsingle
  have hnil : s.records.filter (·.sha256 == v.sha256) = [] := by
    refine List.eq_nil_of_length_eq_zero ?_
    simp only [List.filter_cons, beq_self_eq_true, if_true, List.filter_nil,
      List.length_singleton] at hsingle
    omega
  rw [Store.find, ← List.head?_filter, hnil]
  rfl

/-- If adding a raw record preserves everything, no delta reads through the blob. -/
theorem not_readsThrough_of_record (hwell : WellStored codecs s contents)
    (hzstd : codecs.ZstdRoundTrips) (hdelta : s.DeltasDecode codecs contents) (hversions : s.versions.isSome)
    (hmissing : s.find v.sha256 = none) (hraw : v.storage = .raw)
    (hkeeps : Preserves codecs s (s.record v) contents) {other : String} (hother : s.Stored other)
    (hplain : ¬ SelfEncoded codecs (contents other)) : ¬ ReadsThrough s other v.sha256 := by
  intro hthrough
  obtain ⟨hwell', hreads⟩ := hkeeps
  have hdeltaBase : v.deltaBase = none := by simp [LfsFileVersion.deltaBase, hraw]
  have hparent : (s.record v).parent = s.parent :=
    funext (Store.parent_record hversions rfl hmissing hdeltaBase)
  -- Before, the delta is served as it is stored; after, its chain is complete.
  have hroot : (s.record v).parent v.sha256 = none := by
    rw [hparent]
    exact Store.parent_eq_none_of_find hmissing
  have hthrough' : ReadsThrough (s.record v) other v.sha256 := by
    unfold ReadsThrough
    rw [hparent]
    exact hthrough
  have hafter : (s.record v).read codecs other = some (contents other) :=
    read_of_readsThrough hwell' hzstd hdelta hother hroot
      (by simp [Store.find_record hversions, hmissing]) hthrough'
  obtain ⟨i, hpos, hlt, ha⟩ := hthrough
  obtain ⟨j, rfl⟩ : ∃ j, i = j + 1 := ⟨i - 1, by omega⟩
  obtain ⟨base, hbase, -⟩ := Option.bind_eq_some_iff.mp ha
  have hbroken : s.read codecs other = s.blobs other := read_broken hbase hlt ha hmissing
  have hbytes : s.blobs other = some (contents other) := by
    rw [← hbroken, ← hreads other hother, hafter]
  obtain ⟨w, hw, hwbase⟩ := Store.parent_eq_some_iff.mp hbase
  have hholds := hwell.holds other _ hbytes
  simp only [Holds, hw] at hholds
  refine hplain (selfEncoded_of_holdsAs hholds ?_)
  rw [(deltaBase_eq_some.mp hwbase).1]
  decide

/-- **Uploading a stored content again** keeps the store and every answer when it records nothing or
records safely, and, if the codecs round-trip and no stored content is an encoded form of itself, only
then. -/
theorem upload_again (hwell : WellStored codecs s contents) (now : Nat)
    (hstored : s.Stored (sha256Hex data)) :
    (RecordsSafely s ctx data → Preserves codecs s (s.upload codecs ctx data now) contents)
      ∧ (codecs.ZstdRoundTrips → s.DeltasDecode codecs contents →
        (∀ hash, s.Stored hash → ¬ SelfEncoded codecs (contents hash)) →
        Preserves codecs s (s.upload codecs ctx data now) contents →
        RecordsSafely s ctx data) := by
  rw [Store.upload_of_stored hstored]
  cases hnew : s.newRecord codecs ctx data now with
  | none =>
    refine ⟨fun _ => ⟨hwell, fun _ _ => rfl⟩, fun _ _ _ _ hversions hkey => ?_⟩
    have := (s.newRecord_isSome codecs ctx data now).mpr ⟨hversions, hkey⟩
    simp [hnew] at this
  | some v =>
    simp only [Option.elim_some]
    obtain ⟨hversions, hkey, hsha, hstorage, hbase⟩ := Store.newRecord_eq_some hnew
    obtain ⟨raw, hraw⟩ := Option.isSome_iff_exists.mp hstored
    refine ⟨?_, ?_⟩
    · intro hsafe
      obtain ⟨hmissing, hmanifest, hapart⟩ := hsafe hversions hkey
      rw [prepared_of_manifest hmanifest] at hstorage
      have hdeltaBase : v.deltaBase = none := by
        simp [LfsFileVersion.deltaBase, hstorage, prepareRaw]
      have hplain : ∀ bytes, s.blobs (sha256Hex data) = some bytes →
          HoldsAs codecs s.Stored contents (sha256Hex data) bytes v := by
        intro bytes hbytes
        have := hwell.holds _ _ hbytes
        simpa [Holds, HoldsAs, hmissing, hstorage, prepareRaw] using this
      exact ⟨hwell.record hversions hsha hmissing hdeltaBase hplain, fun hash hhash =>
        read_record_raw hversions hsha hmissing hstorage (hapart hash hhash)⟩
    · intro hzstd hdelta hplain hkeeps _ _
      have hmissing : s.find v.sha256 = none :=
        find_eq_none_of_record hversions (by rwa [hsha]) hkeeps.1
      have hself : (s.record v).find v.sha256 = some v := by
        simp [Store.find_record hversions, hmissing]
      have hbytes : s.blobs v.sha256 = some (contents v.sha256) := by
        have hholds := hwell.holds _ _ hraw
        rw [← hsha] at hraw hholds
        rw [hraw]
        simpa [Holds, hmissing] using hholds
      have hform : v.storage = .raw := by
        by_contra hform
        have hholds := hkeeps.1.holds v.sha256 _ hbytes
        simp only [Holds, hself] at hholds
        exact hplain _ (by rwa [hsha]) (selfEncoded_of_holdsAs hholds hform)
      have hlfs := (LfsContext.recordKey_isSome.mp hkey).1
      rw [← hsha]
      refine ⟨hmissing, isManifest_of_prepared_raw hversions hlfs
        (hstorage.symm.trans hform), ?_⟩
      intro hash hhash
      exact not_readsThrough_of_record hwell hzstd hdelta hversions hmissing hform hkeeps hhash
        (hplain hash hhash)

end BlossomRs.Lfs

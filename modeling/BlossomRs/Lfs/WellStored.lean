import BlossomRs.Lfs.Store

/-!
# Stores that hold contents

`Holds` says that one blob's bytes are its content in the form its record names; `WellStored` says
it of every stored blob, with at most one record each and every delta chain ending.

The lemmas on `chase` give the three ways a read can go: every record on the way is there
(`chase_eq_content`), one within reach is missing (`chase_broken`), or nothing on the way changed
(`chase_congr`).
-/

namespace BlossomRs.Lfs

open Protocol ParentChain

/-- Bytes are the content of a hash in the form a record names. -/
def HoldsAs (codecs : Codecs) (stored : String → Prop) (contents : String → Bytes)
    (hash : String) (raw : Bytes) (v : LfsFileVersion) : Prop :=
  match v.storage with
  | .raw => raw = contents hash
  | .compressed => codecs.compress (contents hash) = .ok raw
  | .delta => ∃ base delta, v.baseSha256 = some base ∧ stored base
      ∧ codecs.encodeDelta (contents base) (contents hash) = .ok delta
      ∧ codecs.compress delta = .ok raw

/-- The bytes of a hash are its content in the form its record names, and the content itself where
it has no record. -/
def Holds (codecs : Codecs) (s : Store) (contents : String → Bytes) (hash : String)
    (raw : Bytes) : Prop :=
  match s.find hash with
  | none => raw = contents hash
  | some v => HoldsAs codecs s.Stored contents hash raw v

/-- A store that holds the given contents. -/
structure WellStored (codecs : Codecs) (s : Store) (contents : String → Bytes) : Prop where
  single : ∀ hash, s.Stored hash → (s.records.filter (·.sha256 == hash)).length ≤ 1
  holds : ∀ hash raw, s.blobs hash = some raw → Holds codecs s contents hash raw
  ends : ∀ hash, s.Stored hash → ∃ n, Depth s.parent hash n

/-- The deltas between stored contents round-trip. -/
def Store.DeltasDecode (codecs : Codecs) (s : Store) (contents : String → Bytes) : Prop :=
  codecs.DeltaRoundTripsOn fun data => ∃ hash, s.Stored hash ∧ contents hash = data

theorem Store.DeltasDecode.mono {codecs : Codecs} {s t : Store} {contents : String → Bytes}
    (h : s.DeltasDecode codecs contents) (hstored : ∀ hash, t.Stored hash → s.Stored hash) :
    t.DeltasDecode codecs contents :=
  Codecs.DeltaRoundTripsOn.mono h fun _ ⟨hash, hhash, hdata⟩ => ⟨hash, hstored hash hhash, hdata⟩

variable {codecs : Codecs} {hash base : String} {stored stored' : String → Prop}
  {contents : String → Bytes} {raw : Bytes} {v : LfsFileVersion}

section

variable (h : HoldsAs codecs stored contents hash raw v)
include h

/-- Of the stored hashes only the base matters. -/
theorem HoldsAs.mono_of_base (hbase : ∀ base, v.deltaBase = some base → stored base → stored' base) :
    HoldsAs codecs stored' contents hash raw v := by
  unfold HoldsAs at h ⊢
  split at h
  · exact h
  · exact h
  · rename_i hstorage
    obtain ⟨base, delta, hsome, hstored, hrest⟩ := h
    exact ⟨base, delta, hsome, hbase base (deltaBase_eq_some.mpr ⟨hstorage, hsome⟩) hstored, hrest⟩

/-- More stored hashes do not hurt. -/
theorem HoldsAs.mono (hmono : ∀ k, stored k → stored' k) :
    HoldsAs codecs stored' contents hash raw v :=
  h.mono_of_base fun base _ => hmono base

/-- A record of a delta names a stored base, and the bytes are the delta against its content. -/
theorem HoldsAs.of_deltaBase (hbase : v.deltaBase = some base) :
    stored base ∧ ∃ delta, codecs.encodeDelta (contents base) (contents hash) = .ok delta
      ∧ codecs.compress delta = .ok raw := by
  obtain ⟨hstorage, hsome⟩ := deltaBase_eq_some.mp hbase
  simp only [HoldsAs, hstorage] at h
  obtain ⟨base', delta, hbase', hstored, hform⟩ := h
  obtain rfl : base' = base := Option.some.inj (hbase'.symm.trans hsome)
  exact ⟨hstored, delta, hform⟩

theorem HoldsAs.storage_ne_delta (hroot : v.deltaBase = none) : v.storage ≠ .delta := by
  intro hstorage
  simp only [HoldsAs, hstorage] at h
  obtain ⟨base, delta, hbase, -⟩ := h
  simp [LfsFileVersion.deltaBase, hstorage, hbase] at hroot

end

/-- The records that a read of a hash looks at before it needs bytes are all there. -/
def Recorded (s : Store) (hash : String) : Prop :=
  ∀ i < maxDeltaChainDepth, ∀ a, ancestor s.parent i hash = some a → (s.find a).isSome

section Chase

variable {s : Store} {fetch : Fetch}

/-- A delta is read by reading its base first. -/
theorem chase_succ_of_parent (hparent : s.parent hash = some base) (m : Nat) :
    chase codecs s.lookup fetch (m + 1) hash
      = chase codecs s.lookup fetch m base >>= applyDelta codecs fetch hash := by
  obtain ⟨v, hv, hbase⟩ := Store.parent_eq_some_iff.mp hparent
  simp only [chase, Store.lookup, hv, hbase, Store.sha256_of_find hv]

theorem chase_succ_of_find (hv : s.find hash = some v)
    (hroot : s.parent hash = none) (hstorage : v.storage ≠ .delta) (m : Nat) :
    chase codecs s.lookup fetch (m + 1) hash = rootContent codecs s.lookup fetch hash := by
  have hbase : v.deltaBase = none := by simpa [Store.parent, hv] using hroot
  simp only [chase, Store.lookup, hv, hbase, if_neg hstorage, Store.sha256_of_find hv]

theorem chase_succ_of_missing (hmissing : s.find hash = none) (m : Nat) :
    chase codecs s.lookup fetch (m + 1) hash = .error "delta chain broken" := by
  simp only [chase, Store.lookup, hmissing]

/-- A read that meets a hash without a record while it still needs one fails. -/
theorem chase_broken {m i : Nat} {a : String} (hi : i < m)
    (ha : ancestor s.parent i hash = some a) (hmissing : s.find a = none) :
    chase codecs s.lookup fetch m hash = .error "delta chain broken" := by
  induction m generalizing i hash with
  | zero => omega
  | succ m ih =>
    cases i with
    | zero =>
      obtain rfl : hash = a := by simpa using ha
      exact chase_succ_of_missing hmissing m
    | succ i =>
      rw [ancestor_succ, Option.bind_eq_some_iff] at ha
      obtain ⟨base, hparent, ha⟩ := ha
      rw [chase_succ_of_parent hparent, ih (by omega) ha, Checks.error_bind]

/-- **A read only depends on what it meets.**  Before its last hash it looks at records and bytes; at
the last one, where no lookup is left, only at what the hash decodes to. -/
theorem chase_congr {s' : Store} {fetch' : Fetch} {m : Nat}
    (hbefore : ∀ i < m, ∀ a, ancestor s.parent i hash = some a →
      s'.find a = s.find a ∧ fetch' a = fetch a)
    (hlast : ∀ a, ancestor s.parent m hash = some a →
      rootContent codecs s'.lookup fetch' a = rootContent codecs s.lookup fetch a) :
    chase codecs s'.lookup fetch' m hash = chase codecs s.lookup fetch m hash := by
  induction m generalizing hash with
  | zero => exact hlast hash rfl
  | succ m ih =>
    obtain ⟨hfind, hfetch⟩ := hbefore 0 (Nat.succ_pos m) hash rfl
    have hroot : rootContent codecs s'.lookup fetch' hash
        = rootContent codecs s.lookup fetch hash := by
      simp only [rootContent, Store.lookup, hfind, hfetch]
    have happly : applyDelta codecs fetch' hash = applyDelta codecs fetch hash := by
      funext base
      simp only [applyDelta, hfetch]
    cases hparent : s.parent hash with
    | none =>
      simp only [chase, Store.lookup, hfind]
      cases hv : s.find hash with
      | none => rfl
      | some v =>
        have hbase : v.deltaBase = none := by simpa [Store.parent, hv] using hparent
        simp only [hbase, Store.sha256_of_find hv]
        split
        · rfl
        · exact hroot
    | some base =>
      have hparent' : s'.parent hash = some base := by
        rw [Store.parent, hfind]
        exact hparent
      have hstep : chase codecs s'.lookup fetch' m base
          = chase codecs s.lookup fetch m base := by
        refine ih ?_ ?_
        · intro i hi a ha
          refine hbefore (i + 1) (by omega) a ?_
          rw [ancestor_succ_of_parent hparent]
          exact ha
        · intro a ha
          refine hlast a ?_
          rw [ancestor_succ_of_parent hparent]
          exact ha
      rw [chase_succ_of_parent hparent, chase_succ_of_parent hparent', hstep, happly]

end Chase

/-- What `GET` returns depends on the blob's own bytes and record, and on what its chain gives. -/
theorem read_congr {s s' : Store} (hblob : s'.blobs hash = s.blobs hash)
    (hfind : s'.find hash = s.find hash)
    (hchase : chase codecs s'.lookup s'.blobs maxDeltaChainDepth hash
      = chase codecs s.lookup s.blobs maxDeltaChainDepth hash) :
    s'.read codecs hash = s.read codecs hash := by
  rw [Store.read, Store.read, hblob, hfind]
  cases hv : s.find hash with
  | none => rfl
  | some v =>
    have hsha := Store.sha256_of_find hv
    simp only [loadStored, reconstructBlob_eq_chase, hsha, hchase]

/-- A delta whose chain meets a hash without a record too early is served as it is stored. -/
theorem read_broken {s : Store} {a : String} {i : Nat} (hparent : s.parent hash = some base)
    (hi : i < maxDeltaChainDepth) (ha : ancestor s.parent i hash = some a)
    (hmissing : s.find a = none) :
    s.read codecs hash = s.blobs hash := by
  obtain ⟨v, hv, hbase⟩ := Store.parent_eq_some_iff.mp hparent
  obtain ⟨hstorage, -⟩ := deltaBase_eq_some.mp hbase
  have hsha := Store.sha256_of_find hv
  have hchase : chase codecs s.lookup s.blobs maxDeltaChainDepth hash
      = .error "delta chain broken" := chase_broken hi ha hmissing
  rw [Store.read, hv]
  simp only [loadStored, hstorage, reconstructBlob_eq_chase, hsha, hchase,
    Option.map_id']

section Holds

variable {s : Store}

theorem Holds.holdsAs (h : Holds codecs s contents hash raw) (hv : s.find hash = some v) :
    HoldsAs codecs s.Stored contents hash raw v := by
  rwa [Holds, hv] at h

/-- It does so in any store that keeps the record and loses no blob. -/
theorem Holds.mono {s' : Store} (h : Holds codecs s contents hash raw)
    (hfind : s'.find hash = s.find hash) (hmono : ∀ k, s.Stored k → s'.Stored k) :
    Holds codecs s' contents hash raw := by
  unfold Holds at h ⊢
  rw [hfind]
  cases hv : s.find hash with
  | none => simpa [hv] using h
  | some v =>
    rw [hv] at h
    exact HoldsAs.mono h hmono

/-- A blob that is not a delta decodes to its content. -/
theorem Holds.rootContent_eq (hzstd : codecs.ZstdRoundTrips) (hraw : s.blobs hash = some raw)
    (h : Holds codecs s contents hash raw) (hroot : s.parent hash = none) :
    rootContent codecs s.lookup s.blobs hash = .ok (contents hash) := by
  unfold rootContent Store.lookup
  cases hv : s.find hash with
  | none =>
    simp only [Holds, hv] at h
    simp [hraw, h]
  | some v =>
    have hform := h.holdsAs hv
    cases hstorage : v.storage with
    | raw =>
      simp only [HoldsAs, hstorage] at hform
      simp [hraw, hstorage, hform]
    | compressed =>
      simp only [HoldsAs, hstorage] at hform
      simp [hraw, hstorage, Codecs.decompressOr_of_compress hzstd hform]
    | delta =>
      exact absurd hstorage (hform.storage_ne_delta (by simpa [Store.parent, hv] using hroot))

/-- A delta blob has a stored base, and applying it to the base's content gives its own. -/
theorem Holds.applyDelta_eq (hzstd : codecs.ZstdRoundTrips)
    (hdelta : s.DeltasDecode codecs contents) (hraw : s.blobs hash = some raw) (h : Holds codecs s contents hash raw)
    (hparent : s.parent hash = some base) :
    s.Stored base
      ∧ applyDelta codecs s.blobs hash (contents base) = .ok (contents hash) := by
  obtain ⟨v, hv, hbase⟩ := Store.parent_eq_some_iff.mp hparent
  obtain ⟨hstored, delta, hencode, hcompress⟩ := (h.holdsAs hv).of_deltaBase hbase
  refine ⟨hstored, ?_⟩
  simp only [applyDelta, hraw, Codecs.decompressOr_of_compress hzstd hcompress]
  exact hdelta _ _ _ ⟨base, hstored, rfl⟩ ⟨hash, by simp [Store.Stored, hraw], rfl⟩ hencode

end Holds

namespace WellStored

variable {s : Store} {n : Nat}

section

variable (hwell : WellStored codecs s contents)
include hwell

/-- A stored hash and everything its chain passes through is stored. -/
theorem stored_parent (hstored : s.Stored hash) (hparent : s.parent hash = some base) :
    s.Stored base := by
  obtain ⟨raw, hraw⟩ := Option.isSome_iff_exists.mp hstored
  obtain ⟨v, hv, hbase⟩ := Store.parent_eq_some_iff.mp hparent
  exact (((hwell.holds hash raw hraw).holdsAs hv).of_deltaBase hbase).1

theorem stored_ancestor {i : Nat} {a : String} (hstored : s.Stored hash)
    (ha : ancestor s.parent i hash = some a) : s.Stored a := by
  induction i generalizing hash with
  | zero =>
    obtain rfl : hash = a := by simpa using ha
    exact hstored
  | succ i ih =>
    rw [ancestor_succ, Option.bind_eq_some_iff] at ha
    obtain ⟨base, hparent, ha⟩ := ha
    exact ih (hwell.stored_parent hstored hparent) ha

/-- Depths of stored hashes only depend on the bases of stored hashes. -/
theorem depth_iff {s' : Store} (hparent : ∀ k, s.Stored k → s'.parent k = s.parent k)
    (hstored : s.Stored hash) :
    Depth s'.parent hash n ↔ Depth s.parent hash n := by
  have hkeep : ∀ m, Depth s.parent hash m → Depth s'.parent hash m := fun m hm =>
    hm.of_closed (fun _ _ => hwell.stored_parent) hparent hstored
  refine ⟨fun hn => ?_, hkeep n⟩
  obtain ⟨m, hm⟩ := hwell.ends hash hstored
  obtain rfl := hn.unique (hkeep m hm)
  exact hm

section

variable (hzstd : codecs.ZstdRoundTrips) (hdelta : s.DeltasDecode codecs contents)
include hzstd hdelta

/-- **A chain that is short enough and fully recorded gives the content.**  Induction on the number
of lookups left; when none is left, the chain must have reached its root. -/
theorem chase_eq_content (m : Nat) (hstored : s.Stored hash) (hdepth : Depth s.parent hash n)
    (hnm : n ≤ m) (hrecorded : ∀ i < m, ∀ a, ancestor s.parent i hash = some a → (s.find a).isSome) :
    chase codecs s.lookup s.blobs m hash = .ok (contents hash) := by
  obtain ⟨raw, hraw⟩ := Option.isSome_iff_exists.mp hstored
  have hholds := hwell.holds hash raw hraw
  induction m generalizing hash n raw with
  | zero =>
    cases hdepth with
    | root hroot => exact hholds.rootContent_eq hzstd hraw hroot
    | step => omega
  | succ m ih =>
    obtain ⟨v, hv⟩ := Option.isSome_iff_exists.mp (hrecorded 0 (by omega) hash rfl)
    cases hparent : s.parent hash with
    | none =>
      have hroot : v.deltaBase = none := by simpa [Store.parent, hv] using hparent
      rw [chase_succ_of_find hv hparent ((hholds.holdsAs hv).storage_ne_delta hroot)]
      exact hholds.rootContent_eq hzstd hraw hparent
    | some base =>
      obtain ⟨hbaseStored, happly⟩ := hholds.applyDelta_eq hzstd hdelta hraw hparent
      obtain ⟨baseRaw, hbaseRaw⟩ := Option.isSome_iff_exists.mp hbaseStored
      cases hdepth with
      | root hroot => rw [hroot] at hparent; cases hparent
      | @step _ p n hp hpdepth =>
        obtain rfl : p = base := Option.some.inj (hp.symm.trans hparent)
        have hrest : ∀ i < m, ∀ a, ancestor s.parent i p = some a → (s.find a).isSome := by
          intro i hi a ha
          refine hrecorded (i + 1) (by omega) a ?_
          rw [ancestor_succ_of_parent hparent]
          exact ha
        rw [chase_succ_of_parent hparent, ih hbaseStored hpdepth (by omega) hrest baseRaw
          hbaseRaw (hwell.holds p baseRaw hbaseRaw), Checks.ok_bind]
        exact happly

/-- **What `GET` returns**: the content, when the chain is short enough and fully recorded. -/
theorem read_eq (hstored : s.Stored hash) (hdepth : Depth s.parent hash n)
    (hshort : n ≤ maxDeltaChainDepth) (hrecorded : s.parent hash ≠ none → Recorded s hash) :
    s.read codecs hash = some (contents hash) := by
  obtain ⟨raw, hraw⟩ := Option.isSome_iff_exists.mp hstored
  have hholds := hwell.holds hash raw hraw
  rw [Store.read, hraw, Option.map_some]
  congr 1
  cases hv : s.find hash with
  | none => simpa [Holds, hv] using hholds
  | some v =>
    have hsha := Store.sha256_of_find hv
    cases hstorage : v.storage with
    | raw => simpa [loadStored, Holds, HoldsAs, hv, hstorage] using hholds
    | compressed =>
      have hcompress : codecs.compress (contents hash) = .ok raw := by
        simpa [Holds, HoldsAs, hv, hstorage] using hholds
      simp [loadStored, hstorage, Codecs.decompressOr_of_compress hzstd hcompress]
    | delta =>
      have hparent : s.parent hash ≠ none := fun hroot =>
        (hholds.holdsAs hv).storage_ne_delta (by simpa [Store.parent, hv] using hroot) hstorage
      have hchase := hwell.chase_eq_content hzstd hdelta maxDeltaChainDepth hstored hdepth
        hshort (hrecorded hparent)
      simp only [loadStored, hstorage,
        reconstructBlob_eq_chase, hsha, hchase]

end

end

/-! ### New blobs -/

section

variable (hwell : WellStored codecs s contents)
include hwell

/-- **Adding one blob** keeps a store well stored, if nothing is known of the hash yet and the new
bytes hold its content on the blobs that were there before. -/
theorem extend {s' : Store} (hfresh : ¬ s.Stored hash)
    (hblobs : s'.blobs = Function.update s.blobs hash (some raw))
    (hrecords : ∀ other, other ≠ hash →
      s'.records.filter (·.sha256 == other) = s.records.filter (·.sha256 == other))
    (hsingle : (s'.records.filter (·.sha256 == hash)).length ≤ 1)
    (hholds : ∀ v, s'.find hash = some v → HoldsAs codecs s.Stored contents hash raw v)
    (hplain : s'.find hash = none → raw = contents hash) :
    WellStored codecs s' contents := by
  have hfind : ∀ other, other ≠ hash → s'.find other = s.find other := by
    intro other hne
    rw [Store.find, Store.find, ← List.head?_filter, ← List.head?_filter, hrecords other hne]
  have hparent : ∀ other, other ≠ hash → s'.parent other = s.parent other := by
    intro other hne
    rw [Store.parent, Store.parent, hfind other hne]
  have hne : ∀ other, s.Stored other → other ≠ hash := by
    rintro other hother rfl
    exact hfresh hother
  have hstored : ∀ other, s.Stored other → s'.Stored other := by
    intro other hother
    simpa [Store.Stored, hblobs, Function.update_of_ne (hne other hother)] using hother
  have hold : ∀ other, other ≠ hash → s'.Stored other → s.Stored other := by
    intro other hother_ne hother
    simpa [Store.Stored, hblobs, Function.update_of_ne hother_ne] using hother
  have hends : ∀ other, s.Stored other → ∃ n, Depth s'.parent other n := by
    intro other hother
    obtain ⟨n, hn⟩ := hwell.ends other hother
    exact ⟨n, (hwell.depth_iff (fun k hk => hparent k (hne k hk)) hother).mpr hn⟩
  refine ⟨?_, ?_, ?_⟩
  · intro other hother
    by_cases h : other = hash
    · rw [h]
      exact hsingle
    · rw [hrecords other h]
      exact hwell.single other (hold other h hother)
  · intro other otherRaw hraw
    by_cases h : other = hash
    · subst h
      obtain rfl : raw = otherRaw := by simpa [hblobs] using hraw
      unfold Holds
      cases hv : s'.find other with
      | none => exact hplain hv
      | some v => exact (hholds v hv).mono hstored
    · have hother := hwell.holds other otherRaw (by simpa [hblobs, Function.update_of_ne h] using hraw)
      exact hother.mono (hfind other h) hstored
  · intro other hother
    by_cases h : other = hash
    · subst h
      cases hp : s'.parent other with
      | none => exact ⟨0, Depth.root hp⟩
      | some base =>
        obtain ⟨v, hv, hbase⟩ := Store.parent_eq_some_iff.mp hp
        obtain ⟨n, hn⟩ := hends base ((hholds v hv).of_deltaBase hbase).1
        exact ⟨n + 1, Depth.step hp hn⟩
    · exact hends other (hold other h hother)

/-- A new blob without a record holds its content as it is. -/
theorem put_fresh (hfresh : ¬ s.Stored hash) (hmissing : s.find hash = none) :
    WellStored codecs (s.put hash (contents hash)) contents := by
  refine hwell.extend hfresh rfl (fun _ _ => rfl) ?_ ?_ (fun _ => rfl)
  · change (s.records.filter (·.sha256 == hash)).length ≤ 1
    simp [Store.filter_records_eq_nil hmissing]
  · intro v hv
    rw [Store.find_put, hmissing] at hv
    cases hv

/-- A new blob with its first record holds its content in the form of the record. -/
theorem put_record_fresh (hfresh : ¬ s.Stored hash) (hmissing : s.find hash = none)
    (hversions : s.versions.isSome) (hsha : v.sha256 = hash)
    (hholds : HoldsAs codecs s.Stored contents hash raw v) :
    WellStored codecs ((s.put hash raw).record v) contents := by
  have hrecords : ((s.put hash raw).record v).records = s.records ++ [v] :=
    Store.records_record (s := s.put hash raw) hversions v
  have hfind : ((s.put hash raw).record v).find hash = some v := by
    rw [Store.find_record (by simpa using hversions), Store.find_put, hmissing, if_pos hsha]
    rfl
  refine hwell.extend hfresh rfl ?_ ?_ ?_ ?_
  · intro other hne
    have : v.sha256 ≠ other := by
      rw [hsha]
      exact fun h => hne h.symm
    simp [hrecords, this]
  · simp [hrecords, Store.filter_records_eq_nil hmissing, hsha]
  · intro w hw
    rw [hfind] at hw
    cases hw
    exact hholds
  · intro h
    rw [hfind] at h
    cases h

end

end WellStored

end BlossomRs.Lfs

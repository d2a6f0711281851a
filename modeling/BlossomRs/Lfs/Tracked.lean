import BlossomRs.Lfs.WellStored

/-!
# Stores built by tracked uploads

`Tracked` is the invariant of a store that was filled by uploads with a repository and a path, each
of a new body: it holds the uploaded contents, every blob has a record, and no delta chain is longer
than a read can follow.  Such a store gives every content back (`Tracked.read_eq`).

An upload keeps the invariant as long as it does not put a delta on a chain that is already as long
as a read can follow (`Tracked.upload`).  The pipeline itself never checks that.
-/

namespace BlossomRs.Lfs

open Protocol ParentChain

/-- The invariant of tracked uploads. -/
structure Tracked (codecs : Codecs) (s : Store) (contents : String → Bytes) : Prop where
  well : WellStored codecs s contents
  short : ∀ hash n, s.Stored hash → Depth s.parent hash n → n ≤ maxDeltaChainDepth
  recorded : s.versions.isSome → ∀ hash, s.Stored hash → (s.find hash).isSome
  owned : ∀ v ∈ s.records, s.Stored v.sha256

/-- The upload does not stack a delta on a chain that is already as long as a read can follow: if
its base rests on that many deltas, no delta against it is worth storing. -/
def ChainHasRoom (codecs : Codecs) (s : Store) (contents : String → Bytes) (ctx : LfsContext)
    (data : Bytes) : Prop :=
  ∀ base delta, ctx.isManifest = false → ctx.base = some base →
    Depth s.parent base maxDeltaChainDepth →
    codecs.encodeDelta (contents base) data = .ok delta →
    deltaIsWorthwhile delta.length data.length = false

namespace Tracked

variable {codecs : Codecs} {s : Store} {contents : String → Bytes}

/-- An empty store is tracked. -/
theorem empty (hblobs : ∀ hash, s.blobs hash = none) (hrecords : s.records = []) :
    Tracked codecs s contents where
  well := {
    single := by
      intro hash hstored
      simp [Store.Stored, hblobs] at hstored
    holds := by
      intro hash raw hraw
      simp [hblobs] at hraw
    ends := by
      intro hash hstored
      simp [Store.Stored, hblobs] at hstored }
  short := by
    intro hash n hstored
    simp [Store.Stored, hblobs] at hstored
  recorded := by
    intro _ hash hstored
    simp [Store.Stored, hblobs] at hstored
  owned := by simp [hrecords]

variable {hash : String}

section

variable (htracked : Tracked codecs s contents)
include htracked

/-- Every content is read back. -/
theorem read_eq (hzstd : codecs.ZstdRoundTrips) (hdelta : s.DeltasDecode codecs contents)
    (hstored : s.Stored hash) :
    s.read codecs hash = some (contents hash) := by
  obtain ⟨n, hn⟩ := htracked.well.ends hash hstored
  refine htracked.well.read_eq hzstd hdelta hstored hn (htracked.short hash n hstored hn) ?_
  intro hparent i _ a ha
  refine htracked.recorded ?_ a (htracked.well.stored_ancestor hstored ha)
  -- A delta has a record, so records are kept.
  obtain ⟨base, hbase⟩ := Option.ne_none_iff_exists'.mp hparent
  obtain ⟨v, hv, -⟩ := Store.parent_eq_some_iff.mp hbase
  cases hversions : s.versions with
  | none => simp [Store.find, Store.records, hversions] at hv
  | some vs => rfl

/-- A new hash has no record yet. -/
theorem find_eq_none (hfresh : ¬ s.Stored hash) :
    s.find hash = none := by
  rw [Store.find_eq_none_iff]
  rintro v hv rfl
  exact hfresh (htracked.owned v hv)

/-- What the pipeline prepares for a tracked upload is the body in one of the three forms; a delta
is only prepared where the chain has room for it. -/
theorem holdsAs_prepared (hzstd : codecs.ZstdRoundTrips) (hdelta : s.DeltasDecode codecs contents)
    {ctx : LfsContext} {data : Bytes} (hcontent : contents (sha256Hex data) = data)
    (hroom : ChainHasRoom codecs s contents ctx data) {v : LfsFileVersion}
    (hstorage : v.storage = (s.prepared codecs ctx data).storage)
    (hbase : v.baseSha256 = (s.prepared codecs ctx data).baseSha256) :
    HoldsAs codecs s.Stored contents (sha256Hex data) (s.prepared codecs ctx data).storedData v
      ∧ ∀ base, v.deltaBase = some base → s.Stored base
        ∧ ¬ Depth s.parent base maxDeltaChainDepth := by
  have hprepared := preparedAs codecs s ctx data
  generalize s.prepared codecs ctx data = prepared at hprepared hstorage hbase ⊢
  cases hprepared with
  | raw =>
    refine ⟨by simp [HoldsAs, hstorage, prepareRaw, hcontent], fun base hdeltaBase => ?_⟩
    simp [LfsFileVersion.deltaBase, hstorage, prepareRaw] at hdeltaBase
  | compressed =>
    obtain ⟨out, hout, -⟩ := hzstd data
    refine ⟨?_, fun base hdeltaBase => ?_⟩
    · simp [HoldsAs, hstorage, prepareCompressed, hcontent, Codecs.compressOr, hout]
    · simp [LfsFileVersion.deltaBase, hstorage, prepareCompressed] at hdeltaBase
  | @delta hencoded base content delta stored hctx _ hread hencode hworth hcompress =>
    -- The base is a tracked blob, so the delta is made against its content.
    have hstored : s.Stored base := Store.stored_of_read hread
    obtain rfl : contents base = content :=
      Option.some.inj ((htracked.read_eq hzstd hdelta hstored).symm.trans hread)
    refine ⟨?_, fun other hdeltaBase => ?_⟩
    · simp only [HoldsAs, hstorage]
      exact ⟨base, delta, hbase, hstored, by rw [hcontent]; exact hencode, hcompress⟩
    · obtain ⟨-, hsome⟩ := deltaBase_eq_some.mp hdeltaBase
      obtain rfl : base = other := Option.some.inj (hbase.symm.trans hsome)
      refine ⟨hstored, fun hdeep => ?_⟩
      rw [hroom base delta hencoded.2.2 hctx hdeep hencode] at hworth
      cases hworth

/-- Without a record store every upload is stored as it is. -/
theorem put_plain (hversions : s.versions = none) (hfresh : ¬ s.Stored hash) :
    Tracked codecs (s.put hash (contents hash)) contents where
  well := htracked.well.put_fresh hfresh (htracked.find_eq_none hfresh)
  short := by
    intro other n _ hdepth
    have hroot : (s.put hash (contents hash)).parent other = none := by
      simp [Store.parent, Store.find, Store.records, hversions]
    rw [hdepth.unique (Depth.root hroot)]
    exact Nat.zero_le _
  recorded := by simp [hversions]
  owned := by simp [Store.records, hversions]

/-- A new blob with its record, when the chain it extends has room. -/
theorem put_record (hversions : s.versions.isSome) {raw : Bytes} {v : LfsFileVersion}
    (hfresh : ¬ s.Stored hash) (hsha : v.sha256 = hash)
    (hholds : HoldsAs codecs s.Stored contents hash raw v)
    (hroom : ∀ base, v.deltaBase = some base → s.Stored base
      ∧ ¬ Depth s.parent base maxDeltaChainDepth) :
    Tracked codecs ((s.put hash raw).record v) contents := by
  have hmissing := htracked.find_eq_none hfresh
  have hfind : ∀ other, ((s.put hash raw).record v).find other
      = (s.find other).or (if v.sha256 = other then some v else none) :=
    Store.find_record (s := s.put hash raw) hversions v
  have hself : ((s.put hash raw).record v).find hash = some v := by
    simp [hfind, hmissing, hsha]
  have hne : ∀ other, s.Stored other → hash ≠ other := by
    rintro other hother rfl
    exact hfresh hother
  have hkeep : ∀ other, hash ≠ other → ((s.put hash raw).record v).find other = s.find other := by
    intro other h
    simp [hfind, hsha, h]
  have hparent : ∀ other, s.Stored other →
      ((s.put hash raw).record v).parent other = s.parent other := by
    intro other hother
    rw [Store.parent, Store.parent, hkeep other (hne other hother)]
  have hold : ∀ other, hash ≠ other → ((s.put hash raw).record v).Stored other →
      s.Stored other := by
    intro other h hother
    simpa [Store.Stored, Function.update_of_ne (Ne.symm h)] using hother
  refine ⟨htracked.well.put_record_fresh hfresh hmissing hversions hsha hholds, ?_, ?_, ?_⟩
  · intro other n hother hdepth
    by_cases h : hash = other
    · subst h
      cases hdepth with
      | root => exact Nat.zero_le _
      | @step _ base n hp hbase =>
        have hdeltaBase : v.deltaBase = some base := by simpa [Store.parent, hself] using hp
        obtain ⟨hstored, hdeep⟩ := hroom base hdeltaBase
        have hbase' := (htracked.well.depth_iff hparent hstored).mp hbase
        have hle := htracked.short base n hstored hbase'
        have hlt : n ≠ maxDeltaChainDepth := by
          rintro rfl
          exact hdeep hbase'
        omega
    · have hstored := hold other h hother
      exact htracked.short other n hstored ((htracked.well.depth_iff hparent hstored).mp hdepth)
  · intro _ other hother
    by_cases h : hash = other
    · subst h
      simp [hself]
    · rw [hkeep other h]
      exact htracked.recorded hversions other (hold other h hother)
  · intro w hw
    rw [Store.records_record (s := s.put hash raw) hversions, List.mem_append,
      List.mem_singleton] at hw
    by_cases h : hash = w.sha256
    · subst h
      simp [Store.Stored]
    · rcases hw with hw | rfl
      · have := htracked.owned w hw
        simpa [Store.Stored, Function.update_of_ne (Ne.symm h)] using this
      · exact absurd hsha.symm h

/-- **A tracked upload of a new body keeps the invariant**, if the chain has room. -/
theorem upload (hzstd : codecs.ZstdRoundTrips) (hdelta : s.DeltasDecode codecs contents)
    {ctx : LfsContext} {data : Bytes} (hfresh : ¬ s.Stored (sha256Hex data))
    (hcontent : contents (sha256Hex data) = data) (hkey : ctx.recordKey.isSome)
    (hroom : ChainHasRoom codecs s contents ctx data) (now : Nat) :
    Tracked codecs (s.upload codecs ctx data now) contents := by
  obtain ⟨⟨repo, path⟩, hkey⟩ := Option.isSome_iff_exists.mp hkey
  have hwrite : (s.blobs (sha256Hex data)).isSome = false := by simpa [Store.Stored] using hfresh
  cases hversions : s.versions with
  | none =>
    have hupload : s.upload codecs ctx data now = s.put (sha256Hex data) data := by
      simp [Store.upload, hwrite, hkey, hversions, prepareUpload, prepareRaw,
        Store.record_of_none]
    have hput := htracked.put_plain hversions hfresh
    rwa [hcontent, ← hupload] at hput
  | some vs =>
    obtain ⟨hholds, hbase⟩ := htracked.holdsAs_prepared hzstd hdelta hcontent hroom
      (v := versionRecord repo path (s.nextNumber repo path) (sha256Hex data)
        (s.prepared codecs ctx data) data.length now) rfl rfl
    have hput := htracked.put_record (by simp [hversions]) hfresh rfl hholds hbase
    simpa [Store.upload, hwrite, hkey] using hput

end

end Tracked

end BlossomRs.Lfs

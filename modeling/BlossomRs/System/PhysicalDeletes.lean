import BlossomRs.Server.Removal
import BlossomRs.Server.RepeatedStores
import BlossomRs.System.Ownership
import BlossomRs.System.StoredSections

/-!
# Deletes that remove the bytes

Four sections can delete the bytes of a hash.  `DELETE /{sha256}` and the delete of a stream first
store the deltas on it in full and drop its records; `DELETE /n96/{sha256}` and
`DELETE /admin/blobs/{sha256}` remove the bytes and nothing else.

`rebased_delete_iff` says when the first two leave every other blob as it was, and
`bare_delete_harmless` when the others do.
-/

namespace BlossomRs.System

open Protocol Storage Database Lfs Locks Server ParentChain

variable {β δ ν κ : Type} [BlobBackend β] [BlobDatabase δ] [LfsVersionDatabase ν]

section Run

variable {s : ServerState β δ ν κ} {part : Section} {hash : String}

/-- The removal of a delete that stores the deltas in full first. -/
theorem removal_of_rebases (ext : Server.Externals) (h : part.rebases = true) (hash : String)
    (s : ServerState β δ ν κ) :
    ∃ clock, part.removal ext hash s = removeRebased ext clock hash s := by
  cases part with
  | delete | stream => exact ⟨_, rfl⟩
  | _ => exact nomatch h

/-- The removal of one that does not. -/
theorem removal_of_bare (ext : Server.Externals) (h : part.rebases = false) (hash : String)
    (s : ServerState β δ ν κ) : part.removal ext hash s = removeStored hash s := by
  cases part with
  | delete | stream => exact nomatch h
  | _ => rfl

/-- A stored blob is deleted when the calls for it succeed, as they do in memory. -/
theorem run_deletes {κ : Type} [LockDatabase κ]
    {s : ServerState MemoryBackend MemoryDatabase MemoryLfsVersionDatabase κ}
    (ext : Transport.Externals) (hdeletes : part.Deletes hash s) (hstored : (contents s hash).isSome) :
    (part.run ext s).1 = true := by
  refine (run_of_deletes ext hdeletes).2.mpr ?_
  cases hrebases : part.rebases with
  | false =>
    rw [removal_of_bare ext.toExternals hrebases]
    exact removeStored_of_stored hstored (removal_memory hash s).1
  | true =>
    obtain ⟨clock, hremoval⟩ := removal_of_rebases ext.toExternals hrebases hash s
    obtain ⟨s₁, -, -, hresult⟩ :=
      removeRebased_of_stored hstored ((removal_memory hash s).2 ext.toExternals clock)
    rw [hremoval, hresult]

end Run

/-! ### With the deltas stored in full -/

section Rebased

variable [LawfulLfsVersionDatabase ν]

/-- A delete that leaves the blob store in order: the hash is gone, with its records, the other
blobs hold what they held, and each of them is served as before. -/
structure DeletedCleanly (ext : Server.Externals) (contents : String → Bytes) (hash : String)
    (s s' : ServerState β δ ν κ) : Prop where
  absent : BlobBackend.get s'.backend hash = none
  unrecorded : s'.view.find hash = none
  inOrder : InOrder ext.codecs s'.view contents
  served : ∀ call seen other, isValidSha256 other = true → other ≠ hash →
    (handleGetBlob ext call other ⟨s', seen⟩).1.blob?
      = (handleGetBlob ext call other ⟨s, seen⟩).1.blob?

variable [LawfulBlobBackend β] [LockDatabase κ] {s : ServerState β δ ν κ} {part : Section}
  {hash : String}

/-- What such a delete does to the blob store. -/
theorem view_of_rebases (ext : Transport.Externals) (hsingle : SinglyRecorded s.view)
    (hdeletes : part.Deletes hash s) (hrebases : part.rebases = true)
    (hok : (part.run ext s).1 = true) :
    (part.run ext s).2.view
      = (s.view.rebaseAll ext.codecs ((deltasToRebase hash s).map (·.sha256))).drop hash := by
  obtain ⟨clock, hremoval⟩ := removal_of_rebases ext.toExternals hrebases hash s
  obtain ⟨hstate, hiff⟩ := run_of_deletes ext hdeletes
  rw [hremoval] at hstate hiff
  have hremove : removeRebased ext.toExternals clock hash s = (.ok true, (part.run ext s).2) :=
    Prod.ext (hiff.mp hok) hstate.symm
  exact view_of_removeRebased hsingle hremove

/-- The blobs are in order afterwards exactly when every stored delta made against the deleted one
has its records. -/
theorem inOrder_run_iff (ext : Transport.Externals) (hzstd : ext.codecs.ZstdRoundTrips)
    {contents : String → Bytes} (hdelta : s.view.DeltasDecode ext.codecs contents)
    (hs : InOrder ext.codecs s.view contents) (hdeletes : part.Deletes hash s)
    (hrebases : part.rebases = true) (hok : (part.run ext s).1 = true) :
    InOrder ext.codecs (part.run ext s).2.view contents
      ↔ ∀ delta, s.view.Stored delta → s.view.parent delta = some hash →
        Lfs.Recorded s.view delta := by
  rw [view_of_rebases ext hs.single hdeletes hrebases hok]
  exact inOrder_delete_iff hs hzstd hdelta fun _ _ => mem_deltasToRebase

/-- **A delete that stores the deltas in full first.**  In a state whose blobs are in order, it
leaves the others in order and served as before exactly when every stored delta made against the
deleted blob has its records: those of the hashes its chain passes, as far down as a read looks. -/
theorem rebased_delete_iff (ext : Transport.Externals) (hzstd : ext.codecs.ZstdRoundTrips)
    {contents : String → Bytes} (hdelta : s.view.DeltasDecode ext.codecs contents)
    (hs : InOrder ext.codecs s.view contents) (hdeletes : part.Deletes hash s)
    (hrebases : part.rebases = true) (hok : (part.run ext s).1 = true) :
    DeletedCleanly ext.toExternals contents hash s (part.run ext s).2
      ↔ ∀ delta, s.view.Stored delta → s.view.parent delta = some hash →
        Lfs.Recorded s.view delta := by
  have hview := view_of_rebases ext hs.single hdeletes hrebases hok
  have hinOrder := inOrder_run_iff ext hzstd hdelta hs hdeletes hrebases hok
  constructor
  · intro hclean
    exact hinOrder.mp hclean.inOrder
  · intro hrecorded
    refine ⟨?_, ?_, hinOrder.mpr hrecorded, ?_⟩
    · have hgone : ¬ (part.run ext s).2.view.Stored hash := by
        rw [hview, Store.stored_drop_iff]
        exact fun h => h.1 rfl
      exact Option.not_isSome_iff_eq_none.mp hgone
    · rw [hview]
      exact Store.find_drop_self hash
    · intro call seen other hvalid hne
      rw [(get_eq_read _ call hvalid ⟨_, seen⟩).1, (get_eq_read _ call hvalid ⟨s, seen⟩).1]
      dsimp only
      rw [hview]
      exact read_delete hs hzstd hdelta (fun _ _ => mem_deltasToRebase) hrecorded hne

end Rebased

/-- A server on which everybody is an administrator. -/
def administered {κ' : Type} (s : ServerState β δ ν κ') : ServerState β δ ν MemoryLockDatabase :=
  { s with access := .fixed (fun _ _ => true) (fun _ => .admin), lockDb := none }

omit [BlobBackend β] [LfsVersionDatabase ν] in
/-- Every delete of a hash is let through there. -/
theorem deletes_administered {κ' : Type} (s : ServerState β δ ν κ') (call : Call)
    (hash pubkey : String) : (Section.delete call hash pubkey).Deletes hash (administered s) :=
  ⟨rfl, rfl⟩

omit [BlobDatabase δ] in
theorem view_administered {κ' : Type} [LawfulLfsVersionDatabase ν] (s : ServerState β δ ν κ') :
    (administered s).view = s.view :=
  rfl

/-- Three versions, each a delta on the one before, on a server with an administrator. -/
def threeVersions :
    ServerState MemoryBackend MemoryDatabase MemoryLfsVersionDatabase MemoryLockDatabase :=
  administered overwriteWorld.server

theorem view_threeVersions : threeVersions.view = storeAfter (chainPrefix 3) :=
  (view_administered overwriteWorld.server).trans view_overwriteWorld

theorem inOrder_threeVersions :
    InOrder .reference threeVersions.view (uploadedContent (chainRun 3)) := by
  rw [view_threeVersions]
  exact ⟨tracked_chainPrefix.well, tracked_chainPrefix.short⟩

theorem stored_threeVersions : threeVersions.view.Stored (sha256Hex (chainBody 0)) := by
  rw [view_threeVersions, stored_storeAfter]
  exact ⟨_, List.mem_cons_self, rfl⟩

theorem parent_threeVersions :
    threeVersions.view.parent (sha256Hex (chainBody 1)) = some (sha256Hex (chainBody 0)) := by
  rw [view_threeVersions]
  set_option maxRecDepth 20000 in decide

/-- The first version is deleted; the second one, a delta on it, and the third one, a delta on the
second, are served as before. -/
theorem first_version_deleted_cleanly :
    threeVersions.view.parent (sha256Hex (chainBody 1)) = some (sha256Hex (chainBody 0))
      ∧ DeletedCleanly (.knowing []) (uploadedContent (chainRun 3)) (sha256Hex (chainBody 0))
        threeVersions
        ((Section.delete ⟨fun _ => 0, 0, 0⟩ (sha256Hex (chainBody 0)) "admin").run (.knowing [])
          threeVersions).2 := by
  have hdeletes := deletes_administered overwriteWorld.server ⟨fun _ => 0, 0, 0⟩
    (sha256Hex (chainBody 0)) "admin"
  have hok := run_deletes (.knowing []) hdeletes stored_threeVersions
  refine ⟨parent_threeVersions, (rebased_delete_iff (.knowing []) Codecs.reference_zstdRoundTrips
    (Codecs.reference_deltaRoundTrips _) inOrder_threeVersions hdeletes rfl hok).mpr ?_⟩
  intro delta hdelta _ i _ a ha
  have hstored' := inOrder_threeVersions.stored_ancestor hdelta ha
  rw [view_threeVersions] at hstored' ⊢
  have hversions : (storeAfter (chainPrefix 3)).versions.isSome := by
    set_option maxRecDepth 20000 in decide
  exact tracked_chainPrefix.recorded hversions a hstored'

/-! ### A base without a record -/

/-- The record of a delta. -/
def looseRecord (base new : String) : LfsFileVersion where
  repoId := "org/repo"
  path := "model.bin"
  version := 1
  sha256 := new
  baseSha256 := some base
  storage := .delta
  deltaAlgo := some "xdelta3"
  originalSize := 48
  storedSize := 48
  createdAt := 0

/-- A server that has a blob without a record, and a delta on it. -/
def looseServer (base new : String) (content newContent : Bytes) :
    ServerState MemoryBackend MemoryDatabase MemoryLfsVersionDatabase Unit :=
  { ServerState.new (ν := MemoryLfsVersionDatabase)
      ((MemoryBackend.new.put base content.length content).put new newContent.length
        (RawFrame.encode (SpliceDelta.encode content newContent))) "" with
    lfsVersionDb := some ⟨[looseRecord base new]⟩ }

section Loose

variable {base new : String} (content newContent : Bytes)

theorem view_looseServer (base new : String) :
    (looseServer base new content newContent).view
      = ((emptyStore.put base content).put new
          (RawFrame.encode (SpliceDelta.encode content newContent))).record
        (looseRecord base new) := by
  have hget : BlobBackend.get (looseServer base new content newContent).backend
      = Function.update (Function.update (fun _ => none) base (some content)) new
        (some (RawFrame.encode (SpliceDelta.encode content newContent))) := by
    refine (MemoryBackend.get_put _ _ _ _).trans ?_
    rw [MemoryBackend.get_put]
    rfl
  rw [ServerState.view, hget]
  rfl

/-- The contents of the two. -/
def looseContents (new : String) (content newContent : Bytes) (hash : String) : Bytes :=
  if hash = new then newContent else content

theorem find_looseServer_of_ne {hash : String} (hne : hash ≠ new) :
    (looseServer base new content newContent).view.find hash = none := by
  rw [view_looseServer, Store.find_record rfl]
  simp [emptyStore, Store.find, Store.records, looseRecord, Ne.symm hne]

theorem parent_looseServer_self :
    (looseServer base new content newContent).view.parent new = some base := by
  rw [view_looseServer, Store.parent, Store.find_record rfl]
  simp [emptyStore, Store.find, Store.records, looseRecord, LfsFileVersion.deltaBase]

/-- Its blobs are in order. -/
theorem inOrder_looseServer (hne : base ≠ new) :
    InOrder .reference (looseServer base new content newContent).view
      (looseContents new content newContent) := by
  have hroot : ∀ k, k ≠ new → (looseServer base new content newContent).view.parent k = none :=
    fun _ hk => Store.parent_eq_none_of_find (find_looseServer_of_ne content newContent hk)
  have hempty : WellStored .reference emptyStore (looseContents new content newContent) :=
    ⟨nofun, nofun, nofun⟩
  have hbase : WellStored .reference (emptyStore.put base content)
      (looseContents new content newContent) := by
    have hput : WellStored .reference
        (emptyStore.put base (looseContents new content newContent base))
        (looseContents new content newContent) :=
      hempty.put_fresh (by simp [Store.Stored, emptyStore]) rfl
    rwa [looseContents, if_neg hne] at hput
  refine ⟨?_, ?_⟩
  · rw [view_looseServer]
    refine hbase.put_record_fresh ?_ rfl rfl rfl ?_
    · simp [Store.Stored, emptyStore, Function.update_of_ne (Ne.symm hne)]
    · refine ⟨base, SpliceDelta.encode content newContent, rfl, by simp [Store.Stored], ?_, rfl⟩
      rw [looseContents, if_neg hne, looseContents, if_pos rfl]
      rfl
  · intro hash n _ hdepth
    cases hdepth with
    | root => exact Nat.zero_le _
    | step hparent hrest =>
      by_cases hself : hash = new
      · subst hself
        rw [parent_looseServer_self] at hparent
        cases hparent
        rw [hrest.unique (Depth.root (hroot base hne))]
        decide
      · rw [hroot hash hself] at hparent
        cases hparent

end Loose

/-- The server with the first of the bodies unrecorded. -/
def unrecordedBase :
    ServerState MemoryBackend MemoryDatabase MemoryLfsVersionDatabase MemoryLockDatabase :=
  administered (looseServer (sha256Hex (chainBody 0)) (sha256Hex (chainBody 1)) (chainBody 0)
    (chainBody 1))

/-- A delta rests on a stored blob that has no record.  Both deletes that are to store it in full
pass it over, delete the blob, and report success. -/
theorem unrecorded_base_deleted :
    InOrder .reference unrecordedBase.view
        (looseContents (sha256Hex (chainBody 1)) (chainBody 0) (chainBody 1))
      ∧ ∀ part ∈ [Section.delete ⟨fun _ => 0, 0, 0⟩ (sha256Hex (chainBody 0)) "admin",
          .stream ⟨fun _ => 0, 0, 0⟩ ""
            { Transport.Request.of .delete with sha256 := sha256Hex (chainBody 0) }
            (some "admin") []],
        part.Deletes (sha256Hex (chainBody 0)) unrecordedBase
          ∧ (part.run (.knowing []) unrecordedBase).1 = true
          ∧ ¬ DeletedCleanly (.knowing [])
            (looseContents (sha256Hex (chainBody 1)) (chainBody 0) (chainBody 1))
            (sha256Hex (chainBody 0)) unrecordedBase
            (part.run (.knowing []) unrecordedBase).2 := by
  have hne : sha256Hex (chainBody 0) ≠ sha256Hex (chainBody 1) := by
    set_option maxRecDepth 20000 in decide
  -- the delta is still there, and its base is not
  have hloose : ∀ part : Section,
      ((part.run (.knowing []) unrecordedBase).2.view.blobs (sha256Hex (chainBody 1))).isSome →
      (part.run (.knowing []) unrecordedBase).2.view.parent (sha256Hex (chainBody 1))
        = some (sha256Hex (chainBody 0)) →
      ¬ DeletedCleanly (.knowing [])
        (looseContents (sha256Hex (chainBody 1)) (chainBody 0) (chainBody 1))
        (sha256Hex (chainBody 0)) unrecordedBase (part.run (.knowing []) unrecordedBase).2 := by
    intro part hstored hparent hclean
    have hbase := hclean.inOrder.stored_ancestor hstored (ancestor_succ_of_parent hparent 0)
    exact absurd hbase (by simp [Store.Stored, ServerState.view, hclean.absent])
  refine ⟨inOrder_looseServer _ _ hne, ?_⟩
  intro part hpart
  simp only [List.mem_cons, List.not_mem_nil, or_false] at hpart
  rcases hpart with rfl | rfl
  · exact ⟨⟨rfl, rfl⟩, by decide +kernel, hloose _ (by decide +kernel) (by decide +kernel)⟩
  · exact ⟨⟨rfl, rfl, "admin", rfl, rfl⟩, by decide +kernel,
      hloose _ (by decide +kernel) (by decide +kernel)⟩

/-! ### With the bytes removed and nothing else -/

/-- A section that stores a content can be read back where nothing is known of the hash: it does not
run the pipeline, or the pipeline records what it does, can read the base it is given, and a delta on
that base decodes. -/
def Section.ReadsBack (ext : Server.Externals) (s : Store) (part : Section) (data : Bytes) : Prop :=
  ∀ ctx now, part.pipeline ext = some (ctx, now) →
    CanReadBack ext.codecs s ctx ∧ DeltaDecodes ext.codecs s ctx data

/-- **A new content is read back**, whichever section stores it. -/
theorem read_effect {ext : Server.Externals} (hzstd : ext.codecs.ZstdRoundTrips) {s : Store}
    {part : Section} {data : Bytes} (hgone : s.blobs (sha256Hex data) = none)
    (hmissing : s.find (sha256Hex data) = none) (hback : part.ReadsBack ext s data) :
    (part.effect ext s data).read ext.codecs (sha256Hex data) = some data := by
  unfold Section.effect
  cases hpipeline : part.pipeline ext with
  | none =>
    dsimp only
    rw [Store.read, Store.find_put, hmissing]
    simp
  | some run =>
    obtain ⟨ctx, now⟩ := run
    obtain ⟨hreads, hdecodes⟩ := hback ctx now hpipeline
    exact read_upload_new hzstd hdecodes hgone hmissing hreads now

section Bare

variable [LawfulBlobBackend β] [LawfulLfsVersionDatabase ν] [LockDatabase κ]
  {s : ServerState β δ ν κ} {part : Section} {hash : String}

theorem view_of_bare (ext : Transport.Externals) (hdeletes : part.Deletes hash s)
    (hbare : part.rebases = false) (hok : (part.run ext s).1 = true) :
    (part.run ext s).2.view = s.view.remove hash := by
  obtain ⟨hstate, hiff⟩ := run_of_deletes ext hdeletes
  rw [removal_of_bare ext.toExternals hbare] at hstate hiff
  exact view_of_removeStored (Prod.ext (hiff.mp hok) hstate.symm)

/-- **A delete that removes the bytes and nothing else.**  If the blob has no record, and is not the
tenth base of a stored delta, then every other blob is served as before and no record of the hash is
left.  Where nothing is known of the hash, as after this delete, a section that stores its content
again can be read back.  If the blob has a record then it keeps it. -/
theorem bare_delete_harmless (ext : Transport.Externals) (hdeletes : part.Deletes hash s)
    (hbare : part.rebases = false) (hok : (part.run ext s).1 = true) :
    (s.view.find hash = none →
      (∀ other, s.view.Stored other →
        ancestor s.view.parent maxDeltaChainDepth other ≠ some hash) →
      (∀ call seen other, isValidSha256 other = true → other ≠ hash → s.view.Stored other →
        (handleGetBlob ext.toExternals call other ⟨(part.run ext s).2, seen⟩).1.blob?
          = (handleGetBlob ext.toExternals call other ⟨s, seen⟩).1.blob?)
      ∧ (part.run ext s).2.view.blobs hash = none
      ∧ (part.run ext s).2.view.find hash = none
      ∧ (ext.codecs.ZstdRoundTrips →
        ∀ (t : ServerState β δ ν κ) (again : Section) data, t.view.blobs hash = none →
        t.view.find hash = none → again.stores = some data → sha256Hex data = hash →
        again.ReadsBack ext.toExternals t.view data → (again.run ext t).1 = true →
        ∀ call seen, (handleGetBlob ext.toExternals call hash ⟨(again.run ext t).2, seen⟩).1.blob?
          = some data))
      ∧ ((s.view.find hash).isSome → ((part.run ext s).2.view.find hash).isSome) := by
  have hview := view_of_bare ext hdeletes hbare hok
  have hfind : (part.run ext s).2.view.find hash = s.view.find hash := by
    rw [hview]
    rfl
  refine ⟨fun hmissing hlast => ⟨?_, ?_, ?_, ?_⟩, fun hrecorded => by rwa [hfind]⟩
  · intro call seen other hvalid hne hstored
    rw [(get_eq_read _ call hvalid ⟨_, seen⟩).1, (get_eq_read _ call hvalid ⟨s, seen⟩).1]
    dsimp only
    rw [hview]
    exact read_remove hmissing hne (hlast other hstored)
  · simp [hview]
  · rw [hfind]
    exact hmissing
  · rintro hzstd t again data hgone hunrecorded hcontent rfl hback hstored call seen
    rw [(get_eq_read _ call (isValidSha256_sha256Hex data) ⟨_, seen⟩).1]
    dsimp only
    rw [view_of_stored ext hcontent hstored]
    exact read_effect hzstd hgone hunrecorded hback

end Bare

/-- A byte is mirrored. -/
def mirrorByte (byte : UInt8) : Section :=
  .mirror ⟨fun _ => 0, 0, 0⟩ "alice" [byte]

/-- A server that keeps version records, and has mirrored two bytes. -/
def mirroredBytes :
    ServerState MemoryBackend MemoryDatabase MemoryLfsVersionDatabase MemoryLockDatabase :=
  [mirrorByte 1, mirrorByte 2].foldl (fun s part => (part.run (.knowing []) s).2)
    { ServerState.new (ν := MemoryLfsVersionDatabase) .new "" with lfsVersionDb := some .new }

/-- An administrator deletes one of the bytes.  The other one is served as before, and the first one
is served again when it has been mirrored again. -/
theorem mirrored_byte_deleted_harmlessly :
    let deleted := (Section.adminDelete (sha256Hex [1])).run (.knowing []) mirroredBytes
    deleted.1 = true ∧ deleted.2.view.find (sha256Hex [1]) = none
      ∧ (∀ call seen, (handleGetBlob (.knowing []) call (sha256Hex [2]) ⟨deleted.2, seen⟩).1.blob?
        = (handleGetBlob (.knowing []) call (sha256Hex [2]) ⟨mirroredBytes, seen⟩).1.blob?)
      ∧ ∀ call seen, (handleGetBlob (.knowing []) call (sha256Hex [1])
          ⟨((mirrorByte 1).run (.knowing []) deleted.2).2, seen⟩).1.blob? = some [1] := by
  have hfind : ∀ k, mirroredBytes.view.find k = none := fun _ => rfl
  have hroot : ∀ k, mirroredBytes.view.parent k = none :=
    fun k => Store.parent_eq_none_of_find (hfind k)
  have hok : ((Section.adminDelete (sha256Hex [1])).run (.knowing []) mirroredBytes).1 = true := by
    decide
  have hdeletes : (Section.adminDelete (sha256Hex [1])).Deletes (sha256Hex [1]) mirroredBytes := rfl
  obtain ⟨hserved, hgone, hunrecorded, hagain⟩ :=
    (bare_delete_harmless (.knowing []) hdeletes rfl hok).1 (hfind _) (by
      intro other _ hlast
      rw [maxDeltaChainDepth, ancestor_succ_of_root (hroot other)] at hlast
      cases hlast)
  refine ⟨hok, hunrecorded, fun call seen => ?_, ?_⟩
  · exact hserved call seen _ (isValidSha256_sha256Hex [2]) (by decide) (by decide)
  · exact hagain Codecs.reference_zstdRoundTrips _ (mirrorByte 1) [1] hgone hunrecorded rfl rfl
      (by simp [Section.ReadsBack, mirrorByte, Section.pipeline]) (by decide +kernel)

/-- The first of three versions is deleted by the two endpoints that remove the bytes and nothing
else.  Its record stays, and the second version is no longer served. -/
theorem bare_delete_breaks_deltas :
    (∀ call seen, (handleGetBlob (.knowing []) call (sha256Hex (chainBody 1))
        ⟨threeVersions, seen⟩).1.blob? = some (chainBody 1))
      ∧ ∀ part ∈ [Section.nip96Delete (sha256Hex (chainBody 0)) "admin",
          .adminDelete (sha256Hex (chainBody 0))],
        part.Deletes (sha256Hex (chainBody 0)) threeVersions
          ∧ (part.run (.knowing []) threeVersions).1 = true
          ∧ (part.run (.knowing []) threeVersions).2.view.find (sha256Hex (chainBody 0)) ≠ none
          ∧ ∀ call seen, (handleGetBlob (.knowing []) call (sha256Hex (chainBody 1))
              ⟨(part.run (.knowing []) threeVersions).2, seen⟩).1.blob? ≠ some (chainBody 1) := by
  constructor
  · intro call seen
    rw [(get_eq_read _ call (isValidSha256_sha256Hex _) ⟨_, seen⟩).1]
    dsimp only
    rw [view_threeVersions]
    set_option maxRecDepth 20000 in decide
  intro part hpart
  have hdeletes : part.Deletes (sha256Hex (chainBody 0)) threeVersions
      ∧ part.rebases = false := by
    simp only [List.mem_cons, List.not_mem_nil, or_false] at hpart
    rcases hpart with rfl | rfl
    · exact ⟨⟨rfl, rfl⟩, rfl⟩
    · exact ⟨rfl, rfl⟩
  have hok := run_deletes (.knowing []) hdeletes.1 stored_threeVersions
  have hview := view_of_bare (.knowing []) hdeletes.1 hdeletes.2 hok
  rw [view_threeVersions] at hview
  refine ⟨hdeletes.1, hok, ?_, fun call seen => ?_⟩
  · rw [hview]
    set_option maxRecDepth 20000 in decide
  · rw [(get_eq_read _ call (isValidSha256_sha256Hex _) ⟨_, seen⟩).1]
    dsimp only
    rw [hview]
    set_option maxRecDepth 20000 in decide

end BlossomRs.System

import BlossomRs.Lfs.Tracked
import BlossomRs.Server.Presigned

/-!
# Runs of tracked uploads

`uploads_read_back`: on a server that starts empty, uploads of distinct bodies under a repository and
a path are all read back exactly, however their deltas are stacked, as long as no delta is stored on
a base that already rests on `maxDeltaChainDepth` deltas.  Uploading does not check that, and one
upload more makes a version that is accepted and cannot be read.
-/

namespace BlossomRs.Server

open Protocol Storage Database Lfs ParentChain

section Run

variable {β δ ν κ : Type} [BlobBackend β] [BlobDatabase δ] [LfsVersionDatabase ν]
  [LawfulBlobBackend β] [LawfulLfsVersionDatabase ν]

/-- The upload does not store a delta on a chain that is already as long as a read can follow: if
it names as base an earlier body whose version rests on that many deltas, no delta from that body
is worth storing. -/
def BaseHasRoom (ext : Externals) (earlier : List UploadRequest) (w : World β δ ν κ)
    (request : UploadRequest) : Prop :=
  ∀ e ∈ earlier, ∀ delta, (request.context ext).isManifest = false →
    (request.context ext).base = some (sha256Hex e.body.data) →
    Depth w.server.view.parent (sha256Hex e.body.data) maxDeltaChainDepth →
    ext.codecs.encodeDelta e.body.data request.body.data = .ok delta →
    deltaIsWorthwhile delta.length request.body.data.length = false

/-- A run of tracked uploads: each under a repository and a path, of bodies that are all distinct and
collide in no hash, and with a base, if any, that is the hash of an earlier body. -/
structure TrackedRun (ext : Externals) (requests : List UploadRequest) : Prop where
  tagged : ∀ request ∈ requests, (request.context ext).isLfs = true
    ∧ (request.context ext).repo.isSome ∧ (request.context ext).path.isSome
  distinct : (requests.map (·.body.data)).Nodup
  bases : ∀ pre request post, requests = pre ++ request :: post → ∀ base,
    (request.context ext).base = some base → ∃ e ∈ pre, base = sha256Hex e.body.data
  collisionFree : Sha256.CollisionFreeOn (· ∈ requests.map (·.body.data))

variable {requests : List UploadRequest}

/-- While only bodies of the run are stored, the deltas between them decode. -/
theorem TrackedRun.deltasDecode {ext : Externals} (hrun : TrackedRun ext requests)
    (hdelta : ext.codecs.DeltaRoundTripsOn (· ∈ requests.map (·.body.data))) {s : Store}
    (hearlier : ∀ hash, s.Stored hash → ∃ e ∈ requests, hash = sha256Hex e.body.data) :
    s.DeltasDecode ext.codecs (uploadedContent requests) := by
  refine deltasDecode_of_bodies hdelta hrun.collisionFree fun hash hstored => ?_
  obtain ⟨e, he, hhash⟩ := hearlier hash hstored
  exact ⟨e.body.data, List.mem_map.mpr ⟨e, he, rfl⟩, hhash⟩

/-- **One upload of a tracked run.**  Its body is new, its base is an earlier body, so the invariant
of tracked stores is kept when the base has room. -/
theorem TrackedRun.step {ext : Externals} (hrun : TrackedRun ext requests)
    (hzstd : ext.codecs.ZstdRoundTrips)
    (hdelta : ext.codecs.DeltaRoundTripsOn (· ∈ requests.map (·.body.data)))
    {pre post : List UploadRequest} {request : UploadRequest}
    (hsplit : requests = pre ++ request :: post) {w : World β δ ν κ}
    (htracked : Tracked ext.codecs w.server.view (uploadedContent requests))
    (hearlier : ∀ hash, w.server.view.Stored hash → ∃ e ∈ pre, hash = sha256Hex e.body.data)
    (hroom : BaseHasRoom ext pre w request) :
    Tracked ext.codecs (upload ext w request).2.server.view (uploadedContent requests) := by
  have hmem : request ∈ requests := by simp [hsplit]
  have hpre : ∀ e ∈ pre, e ∈ requests := by
    intro e he
    simp [hsplit, he]
  rcases view_upload ext w request with ⟨hview, -⟩ | hview
  · rw [hview]
    exact htracked
  have hdecode := hrun.deltasDecode hdelta fun hash hstored => by
    obtain ⟨e, he, hhash⟩ := hearlier hash hstored
    exact ⟨e, hpre e he, hhash⟩
  rw [hview]
  refine htracked.upload hzstd hdecode ?_ (uploadedContent_eq hrun.collisionFree hmem) ?_ ?_ _
  · intro hstored
    obtain ⟨e, he, hhash⟩ := hearlier _ hstored
    have hsame : request.body.data = e.body.data :=
      hrun.collisionFree _ _ (List.mem_map.mpr ⟨request, hmem, rfl⟩)
        (List.mem_map.mpr ⟨e, hpre e he, rfl⟩) (sha256_eq_of_sha256Hex_eq hhash)
    have hdistinct := hrun.distinct
    rw [hsplit, List.map_append, List.map_cons, List.nodup_append] at hdistinct
    exact hdistinct.2.2 _ (List.mem_map.mpr ⟨e, he, rfl⟩) _ List.mem_cons_self hsame.symm
  · obtain ⟨hlfs, hrepo, hpath⟩ := hrun.tagged request hmem
    obtain ⟨repo, hrepo⟩ := Option.isSome_iff_exists.mp hrepo
    obtain ⟨path, hpath⟩ := Option.isSome_iff_exists.mp hpath
    simp [LfsContext.recordKey, hlfs, hrepo, hpath]
  · intro base delta hmanifest hbase hdeep hencode
    obtain ⟨e, he, rfl⟩ := hrun.bases pre request post hsplit base hbase
    rw [uploadedContent_eq hrun.collisionFree (hpre e he)] at hencode
    exact hroom e he delta hmanifest hbase hdeep hencode

/-- The store is tracked after a tracked run, and holds bodies of the run only. -/
theorem TrackedRun.tracked {ext : Externals} (hrun : TrackedRun ext requests)
    (hzstd : ext.codecs.ZstdRoundTrips)
    (hdelta : ext.codecs.DeltaRoundTripsOn (· ∈ requests.map (·.body.data))) {w : World β δ ν κ}
    (hempty : StartsEmpty w) (hroom : ∀ pre request post, requests = pre ++ request :: post →
      BaseHasRoom ext pre (runUploads ext w pre) request) :
    Tracked ext.codecs (runUploads ext w requests).server.view (uploadedContent requests)
      ∧ ∀ hash, (runUploads ext w requests).server.view.Stored hash →
        ∃ e ∈ requests, hash = sha256Hex e.body.data := by
  refine runUploads_invariant
    (P := fun pre (w : World β δ ν κ) =>
      Tracked ext.codecs w.server.view (uploadedContent requests)
        ∧ ∀ hash, w.server.view.Stored hash → ∃ e ∈ pre, hash = sha256Hex e.body.data)
    ⟨Tracked.empty hempty.1 hempty.2, by simp [Store.Stored, hempty.1]⟩ ?_
  rintro pre request post hsplit ⟨htracked, hearlier⟩
  refine ⟨hrun.step hzstd hdelta hsplit htracked hearlier (hroom pre request post hsplit), ?_⟩
  intro hash hstored
  rcases view_upload ext (runUploads ext w pre) request with ⟨hview, -⟩ | hview
  · rw [hview] at hstored
    obtain ⟨e, he, hhash⟩ := hearlier hash hstored
    exact ⟨e, by simp [he], hhash⟩
  · rw [hview, Store.stored_upload_iff] at hstored
    rcases hstored with hstored | rfl
    · obtain ⟨e, he, hhash⟩ := hearlier hash hstored
      exact ⟨e, by simp [he], hhash⟩
    · exact ⟨request, by simp, rfl⟩

/-- **Tracked uploads are read back** at the end of their run, however their deltas are stacked, if
no delta is put on a base that already rests on as many deltas as a read can follow. -/
theorem uploads_read_back (ext : Externals) (hzstd : ext.codecs.ZstdRoundTrips)
    {requests : List UploadRequest}
    (hdelta : ext.codecs.DeltaRoundTripsOn (· ∈ requests.map (·.body.data)))
    {w : World β δ ν κ} (hempty : StartsEmpty w) (hrun : TrackedRun ext requests)
    (hroom : ∀ pre request post, requests = pre ++ request :: post →
      BaseHasRoom ext pre (runUploads ext w pre) request)
    {pre : List UploadRequest} {request : UploadRequest} {post : List UploadRequest}
    (hsplit : requests = pre ++ request :: post)
    (hok : (upload ext (runUploads ext w pre) request).1.status = .ok) (call : Call) :
    let answer := (handleGetBlob ext call (sha256Hex request.body.data)
      (runUploads ext w requests)).1
    answer.status = .ok ∧ answer.blob? = some request.body.data := by
  have hstored : (runUploads ext w requests).server.view.Stored
      (sha256Hex request.body.data) := by
    rw [hsplit, runUploads_split]
    exact stored_runUploads ext (stored_upload hok) post
  obtain ⟨htracked, hearlier⟩ := hrun.tracked hzstd hdelta hempty hroom
  have hread := htracked.read_eq hzstd (hrun.deltasDecode hdelta hearlier) hstored
  rw [uploadedContent_eq hrun.collisionFree (by simp [hsplit])] at hread
  obtain ⟨hblob, hstatus⟩ := get_eq_read ext call
    (isValidSha256_sha256Hex request.body.data) (runUploads ext w requests)
  rw [hread] at hblob hstatus
  exact ⟨hstatus, hblob⟩

end Run

/-! ### A chain of one-byte changes -/

/-- Forty-eight bytes, of which the versions change the first. -/
def chainBody (i : Nat) : Bytes :=
  UInt8.ofNat i :: (List.range 47).map fun n => UInt8.ofNat (167 * n ^ 2 + 41 * n + 13)

/-- The upload of a version as a delta on the one before. -/
def chainUpload (i : Nat) (sig : Nat × Nat) : PresignedUpload where
  sig := sig
  time := 1700000000 + 200 * i
  tags := [["t", "lfs"], ["path", "model.bin"], ["repo", "org/repo"]]
    ++ if i = 0 then [] else [["base", sha256Hex (chainBody (i - 1))]]
  data := chainBody i

/-- A chain of versions, from the given number on. -/
def chainUploads : Nat → List (Nat × Nat) → List PresignedUpload
  | _, [] => []
  | i, sig :: rest => chainUpload i sig :: chainUploads (i + 1) rest

/-- Signatures of the first twelve. -/
def chainSignatures : List (Nat × Nat) := [
  (0xbdaf511eaf2ae6b4a2fc1b33085fb2e93bd93d3eb63953717aa3305780ee4eb7,
    0xe75b0ff1b346b11d6fce2ace6fafa87aff0fda69db3aeb5165d4f201264b2691),
  (0xac22c76ac393d65c700d713e5298fc6cc2bdc3a1a73c217a43a83c34337c94b8,
    0x2ffd268af9469823ae6e83b9e25223e9a9d398c5bc1ef5b0da96ecb8f248576c),
  (0x0307eaccc466886414faca77f32dcb7838d886c255463a41fcdce726cbb19d99,
    0x8b1b2891d5f7ac45673d2837e525f7a0101f1537706d24c1032a76f8044d0328),
  (0x7a4cb9758fa0a191499505c19da1b60b8898ad169613b731a8c25c11e47c04d8,
    0x38ab2d8cbf870440dd0067e13864cbef6c6c9f6cddc4e8677c9e470d75f95729),
  (0xe38529c1f8fa484ece51e421da834777f0d19f4294e3c558cb528028732c1854,
    0x3cc738c0c2384c2903a2985c03db20a71317601dbc82ee9016d2fe52272d4350),
  (0x9c1ede511e592b507a2a2261bf77ad4b8a28f1724da448ae7ec0588d2ad6d3a8,
    0x8394c07f57b01a5bda1517be05bc927e3b9818eb8a30fac4fb54cc1e745555de),
  (0xc51762187235c4aacdb1641b80439093b5f0c0d59a8afa35cd9247de066ae3d9,
    0x6f11ce910213eb10c7e0784a93fe2ed68e080dc8d5897c071ee9baba7acd6a57),
  (0x7561c76699585ea5ce0a54dfce994bba25f73bdb0c84b8380f5354a80e715e45,
    0x4473d3ca4ab6f96cac332f30d1dfdb0cc72b1506c28c5964ab7e50795cf4c994),
  (0x46b8dfbb283982617071e7b20935c1f18fe1ce7838257b82cfd3ca839e5499d7,
    0xb7a204e7e66e14d10c2f5df46a4bd9ebc927c25f5eb080a5463b88754e8fc723),
  (0x47895947ceb6c5196fba0fde27932d1ef60bbaf68be2cad857694aebb7a33d41,
    0x773cd2876008e29115d0583d9c652dafc9aadf35b5bf98d0c022b9a566033a77),
  (0x00e8d85dad789ac516d737dff1296d433ac6061686481bd3936b3adb03fbb250,
    0x559b17ba01724050a510d7721ac8dd48def16a0a6dd84588790f0b0a3b57baa2),
  (0xda565db76499f9bcd84aeb4d0178d013a2a9611949ef97014607fb0135d400d9,
    0x011085978bb83f84319b35c25e28d815d27511fe2f86de29b37596f71fb6b032)]

theorem context_chainUpload (i : Nat) (sig : Nat × Nat) :
    (chainUpload i sig).context = ⟨true, some "model.bin", some "org/repo",
      if i = 0 then none else some (sha256Hex (chainBody (i - 1))), false⟩ := by
  by_cases h : i = 0 <;>
    simp [PresignedUpload.context, chainUpload, h, LfsContext.addTag, LfsContext.empty]

variable {pre post : List PresignedUpload} {u : PresignedUpload} {n : Nat}

theorem split_chainUploads {i : Nat} {sigs : List (Nat × Nat)}
    (h : chainUploads i sigs = pre ++ u :: post) :
    (∃ sig, u = chainUpload (i + pre.length) sig)
      ∧ ∀ j < pre.length, ∃ e ∈ pre, e.data = chainBody (i + j) := by
  induction pre generalizing i sigs with
  | nil =>
    cases sigs with
    | nil => cases h
    | cons sig rest => exact ⟨⟨sig, (List.cons.inj h).1.symm⟩, nofun⟩
  | cons first pre ih =>
    cases sigs with
    | nil => cases h
    | cons sig rest =>
      obtain ⟨hfirst, hrest⟩ := List.cons.inj h
      obtain ⟨⟨sig', hu⟩, hearlier⟩ := ih hrest
      refine ⟨⟨sig', by rw [hu, List.length_cons, Nat.add_assoc, Nat.add_comm 1]⟩, ?_⟩
      intro j hj
      cases j with
      | zero => exact ⟨first, List.mem_cons_self, by rw [← hfirst]; rfl⟩
      | succ j =>
        obtain ⟨e, he, hdata⟩ := hearlier j (by simpa using hj)
        exact ⟨e, List.mem_cons_of_mem _ he, by rw [hdata, Nat.add_assoc, Nat.add_comm 1]⟩

/-- The first so many versions of the chain. -/
def chainPrefix (n : Nat) : List PresignedUpload :=
  (chainUploads 0 chainSignatures).take n

/-- What the server must know for all of them. -/
def chainExternals : Externals :=
  presignedExternals (chainUploads 0 chainSignatures)

/-- Their requests. -/
def chainRun (n : Nat) : List UploadRequest :=
  (chainPrefix n).map (·.request)

theorem split_chainPrefix (h : chainPrefix n = pre ++ u :: post) :
    (∃ sig, u = chainUpload pre.length sig)
      ∧ ∀ j < pre.length, ∃ e ∈ pre, e.data = chainBody j := by
  have hall : chainUploads 0 chainSignatures
      = pre ++ u :: (post ++ (chainUploads 0 chainSignatures).drop n) := by
    conv_lhs => rw [← List.take_append_drop n (chainUploads 0 chainSignatures)]
    rw [show (chainUploads 0 chainSignatures).take n = pre ++ u :: post from h]
    simp
  simpa using split_chainUploads hall

/-- The bodies of the chain are all different, and do not collide. -/
theorem distinct_chain : ((chainUploads 0 chainSignatures).map (·.data)).Nodup
    ∧ ∀ x ∈ (chainUploads 0 chainSignatures).map (·.data),
      ∀ y ∈ (chainUploads 0 chainSignatures).map (·.data),
        Sha256.sha256 x = Sha256.sha256 y → x = y := by
  decide +kernel

theorem data_chainPrefix_sublist (n : Nat) :
    ((chainPrefix n).map (·.data)).Sublist ((chainUploads 0 chainSignatures).map (·.data)) :=
  (List.take_sublist n _).map _

/-- A prefix of the chain is a tracked run. -/
theorem trackedRun_chainRun (n : Nat) : TrackedRun chainExternals (chainRun n) where
  tagged := by
    intro request hrequest
    obtain ⟨u, hu, rfl⟩ := List.mem_map.mp hrequest
    obtain ⟨pre, post, hsplit⟩ := List.append_of_mem hu
    obtain ⟨⟨sig, hsig⟩, -⟩ := split_chainPrefix hsplit
    rw [chainExternals, PresignedRun.context (List.mem_of_mem_take hu), hsig, context_chainUpload]
    exact ⟨rfl, rfl, rfl⟩
  distinct := by
    rw [chainRun, List.map_map]
    exact distinct_chain.1.sublist (data_chainPrefix_sublist n)
  bases := by
    intro pre request post hsplit base hbase
    obtain ⟨upre, urest, hurequests, rfl, hrest⟩ := List.map_eq_append_iff.mp hsplit
    obtain ⟨u, upost, rfl, rfl, -⟩ := List.map_eq_cons_iff.mp hrest
    obtain ⟨⟨sig, hu⟩, hearlier⟩ := split_chainPrefix hurequests
    have hmem : u ∈ chainPrefix n := by simp [hurequests]
    rw [chainExternals, PresignedRun.context (List.mem_of_mem_take hmem), hu,
      context_chainUpload] at hbase
    by_cases hfirst : upre.length = 0
    · simp [hfirst] at hbase
    · obtain ⟨e, he, hdata⟩ := hearlier (upre.length - 1) (by omega)
      refine ⟨e.request, List.mem_map.mpr ⟨e, he, rfl⟩, ?_⟩
      change base = sha256Hex e.data
      rw [hdata]
      simpa [hfirst] using hbase.symm
  collisionFree := by
    rw [chainRun, List.map_map]
    intro x y hx hy
    have hsubset := (data_chainPrefix_sublist n).subset
    exact distinct_chain.2 x (hsubset hx) y (hsubset hy)

/-- The chain can be uploaded one after the other. -/
theorem presignedRun_chain : PresignedRun (chainUploads 0 chainSignatures) := by
  decide

/-- So can any prefix of it. -/
theorem presignedRun_chainPrefix (n : Nat) : PresignedRun (chainPrefix n) := by
  have h := presignedRun_chain
  rw [← List.take_append_drop n (chainUploads 0 chainSignatures)] at h
  exact h.of_append

theorem known_chainPrefix (n : Nat) :
    ∀ u ∈ chainPrefix n, u.event ∈ (chainUploads 0 chainSignatures).map (·.event) :=
  fun _ hu => PresignedRun.event_mem (List.mem_of_mem_take hu)

theorem allAccepted_chainRun (n : Nat) : AllAccepted chainExternals emptyWorld (chainRun n) :=
  ((presignedRun_chainPrefix n).spec (known_chainPrefix n)).1

theorem view_chainRun (n : Nat) :
    (runUploads chainExternals emptyWorld (chainRun n)).server.view
      = storeAfter (chainPrefix n) :=
  (presignedRun_chainPrefix n).view (known_chainPrefix n)

theorem split_chainRun {pre post : List UploadRequest} {request : UploadRequest}
    (h : chainRun n = pre ++ request :: post) : pre = chainRun pre.length ∧ pre.length < n := by
  have hlength : pre.length < (chainRun n).length := by
    rw [h, List.length_append, List.length_cons]
    omega
  have hlt : pre.length < n := by
    simp only [chainRun, chainPrefix, List.length_map, List.length_take] at hlength
    omega
  have hpre : pre = (chainRun n).take pre.length := by rw [h, List.take_left]
  refine ⟨?_, hlt⟩
  conv_lhs => rw [hpre]
  rw [chainRun, chainRun, chainPrefix, chainPrefix, ← List.map_take, List.take_take,
    min_eq_left (le_of_lt hlt)]

/-- The first versions have few ancestors. -/
theorem shallow_chainPrefix : ∀ m < 3, ∀ e ∈ chainPrefix m,
    ancestor (storeAfter (chainPrefix m)).parent maxDeltaChainDepth (sha256Hex e.data) = none := by
  set_option maxRecDepth 20000 in decide

/-- So the first three versions have room. -/
theorem baseHasRoom_chainRun (hn : n ≤ 3) (pre : List UploadRequest) (request : UploadRequest)
    (post : List UploadRequest) (hsplit : chainRun n = pre ++ request :: post) :
    BaseHasRoom chainExternals pre (runUploads chainExternals emptyWorld pre) request := by
  intro e he delta _ _ hdeep
  obtain ⟨hpre, hlt⟩ := split_chainRun hsplit
  rw [hpre, view_chainRun] at hdeep
  rw [hpre] at he
  obtain ⟨u, hu, rfl⟩ := List.mem_map.mp he
  obtain ⟨a, ha, -⟩ := hdeep.exists_ancestor le_rfl
  exact nomatch (shallow_chainPrefix pre.length (by omega) u hu).symm.trans ha

/-- The first two versions are read back, the second one from a delta. -/
theorem first_delta_read_back :
    (runUploads chainExternals emptyWorld (chainRun 2)).server.view.parent
        (sha256Hex (chainBody 1)) = some (sha256Hex (chainBody 0))
      ∧ (handleGetBlob chainExternals ⟨fun _ => 0, 0, 256⟩ (sha256Hex (chainBody 1))
        (runUploads chainExternals emptyWorld (chainRun 2))).1.blob? = some (chainBody 1) := by
  have hroom := baseHasRoom_chainRun (show 2 ≤ 3 by omega)
  have hsplit : chainRun 2
      = chainRun 1 ++ [(chainUpload 1 (chainSignatures.getD 1 (0, 0))).request] := rfl
  have hok := AllAccepted.status (chainRun 1) (hsplit ▸ allAccepted_chainRun 2)
  refine ⟨?_, (uploads_read_back chainExternals Codecs.reference_zstdRoundTrips
    (Codecs.reference_deltaRoundTrips _) startsEmpty_emptyWorld (trackedRun_chainRun 2) hroom hsplit
    hok _).2⟩
  rw [view_chainRun]
  set_option maxRecDepth 20000 in decide

/-- The twelfth version, the eleventh delta in a row, is accepted, and `GET` returns other bytes. -/
theorem eleventh_delta_not_read_back :
    StartsEmpty emptyWorld ∧ TrackedRun chainExternals (chainRun 12)
      ∧ AllAccepted chainExternals emptyWorld (chainRun 12)
      ∧ (handleGetBlob chainExternals ⟨fun _ => 0, 0, 256⟩ (sha256Hex (chainBody 11))
        (runUploads chainExternals emptyWorld (chainRun 12))).1.blob? ≠ some (chainBody 11) := by
  refine ⟨startsEmpty_emptyWorld, trackedRun_chainRun 12, allAccepted_chainRun 12, ?_⟩
  rw [chainExternals, chainRun, presignedExternals,
    (presignedRun_chainPrefix 12).get (known_chainPrefix 12)]
  decide +kernel

end BlossomRs.Server

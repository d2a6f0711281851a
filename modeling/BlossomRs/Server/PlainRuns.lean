import BlossomRs.Lfs.Plain
import BlossomRs.Server.Presigned

/-!
# Runs of uploads without a base

`plain_uploads_read_back`: on a server that starts empty, every body answered with `200` is read back
from then on, in any mix of contexts without a base, as long as each upload is recorded in the form
it is stored in (`FormIsRecorded`).

Nothing makes uploads do that.  A tracked upload without a repository or a path is stored compressed
and served as it is stored; a body that was uploaded untracked and is uploaded again as a version is
served decompressed, if it happens to be a compressed frame.
-/

namespace BlossomRs.Server

open Protocol Storage Database Lfs Runs

section Run

variable {β δ ν κ : Type} [BlobBackend β] [BlobDatabase δ] [LfsVersionDatabase ν]
  [LawfulBlobBackend β] [LawfulLfsVersionDatabase ν]

/-- A store filled by uploads without a base is plain after every prefix of the run. -/
theorem plain_runUploads {ext : Externals} (hzstd : ext.codecs.ZstdRoundTrips)
    {w : World β δ ν κ} (hempty : StartsEmpty w) {requests : List UploadRequest}
    (hbases : ∀ request ∈ requests, (request.context ext).base = none)
    (hfree : Sha256.CollisionFreeOn (· ∈ requests.map (·.body.data)))
    (hform : ∀ pre request post, requests = pre ++ request :: post →
      FormIsRecorded ext.codecs (runUploads ext w pre).server.view (request.context ext)
        request.body.data) {pre post : List UploadRequest} (hsplit : requests = pre ++ post) :
    Plain ext.codecs (runUploads ext w pre).server.view (uploadedContent requests) := by
  refine runUploads_invariant
    (P := fun _ w => Plain ext.codecs w.server.view (uploadedContent requests))
    (Plain.empty hempty.1 hempty.2) ?_
  intro before request after hpre hplain
  have hall : requests = before ++ request :: (after ++ post) := by rw [hsplit, hpre]; simp
  have hmem : request ∈ requests := by simp [hall]
  rcases view_upload ext (runUploads ext w before) request with ⟨hview, -⟩ | hview
  · rw [hview]
    exact hplain
  · rw [hview]
    exact hplain.upload hzstd (hbases request hmem) (uploadedContent_eq hfree hmem)
      (hform before request _ hall)

/-- **Uploads without a base are read back**, right after they are answered and after any further
uploads, when every upload is recorded in the form it is stored in. -/
theorem plain_uploads_read_back (ext : Externals) (hzstd : ext.codecs.ZstdRoundTrips)
    {w : World β δ ν κ} (hempty : StartsEmpty w) {requests : List UploadRequest}
    (hbases : ∀ request ∈ requests, (request.context ext).base = none)
    (hfree : Sha256.CollisionFreeOn (· ∈ requests.map (·.body.data)))
    (hform : ∀ pre request post, requests = pre ++ request :: post →
      FormIsRecorded ext.codecs (runUploads ext w pre).server.view (request.context ext)
        request.body.data)
    (pre : List UploadRequest) (request : UploadRequest) (further later : List UploadRequest)
    (hsplit : requests = (pre ++ request :: further) ++ later)
    (hok : (upload ext (runUploads ext w pre) request).1.status = .ok) (call : Call) :
    let answer := (handleGetBlob ext call (sha256Hex request.body.data)
      (runUploads ext w (pre ++ request :: further))).1
    answer.status = .ok ∧ answer.blob? = some request.body.data := by
  have hstored : (runUploads ext w (pre ++ request :: further)).server.view.Stored
      (sha256Hex request.body.data) := by
    rw [runUploads_split]
    exact stored_runUploads ext (stored_upload hok) further
  have hread := (plain_runUploads hzstd hempty hbases hfree hform hsplit).reads _ hstored
  rw [uploadedContent_eq hfree (by simp [hsplit])] at hread
  obtain ⟨hblob, hstatus⟩ := get_eq_read ext call (isValidSha256_sha256Hex request.body.data)
    (runUploads ext w (pre ++ request :: further))
  rw [hread] at hblob hstatus
  exact ⟨hstatus, hblob⟩

end Run

/-- The tags of a version of a tracked file. -/
def versionTags : List (List String) :=
  [["t", "lfs"], ["path", "model.bin"], ["repo", "org/repo"]]

def letterA : Bytes :=
  List.replicate 64 97

def letterB : Bytes :=
  List.replicate 64 98

/-- A version. -/
def versionA : PresignedUpload where
  sig := (0x6e59198f33aa7e0e1fac3774f4bdd354731ab2ab58b036a795b6fae96f240970,
    0x0684b7a79550a51a6cd7e48ed1a8d86b3311b90ddc48d182539fa3857f7ff197)
  time := 1700000000
  tags := versionTags
  data := letterA

/-- A body outside of tracking. -/
def untrackedB : PresignedUpload where
  sig := (0x95ed9d89d0f7797ca2bedfa7a2468481a3c24b04ced6c1e70beae6cfeedf2e1f,
    0x7a3779c0371727daf29bd3e07ed64dae835e7fed31c558b2c0657370a04f5eb3)
  time := 1700000200
  tags := []
  data := letterB

/-- That body again, as a version. -/
def versionB : PresignedUpload where
  sig := (0x1b9990c4a98ab5c6f5f406097698516a72b1e5f484b5683a166b39c862a71f75,
    0xcdded0e0eb706b6e01e7ab90e69433a37e292702b7b56b7564d0db7b87fab2a4)
  time := 1700000400
  tags := versionTags
  data := letterB

def mixedUploads : List PresignedUpload :=
  [versionA, untrackedB, versionB]

/-- The body that was uploaded twice is read back after all of them. -/
theorem mixedUploads_read_back :
    (handleGetBlob (presignedExternals mixedUploads) ⟨fun _ => 0, 0, 256⟩ (sha256Hex letterB)
      (runUploads (presignedExternals mixedUploads) emptyWorld
        (mixedUploads.map (·.request)))).1.blob? = some letterB := by
  have hrun : PresignedRun mixedUploads := by decide
  have hbases : ∀ request ∈ mixedUploads.map (·.request),
      (request.context (presignedExternals mixedUploads)).base = none := by
    have hcontexts : ∀ u ∈ mixedUploads, u.context.base = none := by decide
    intro request hrequest
    obtain ⟨u, hu, rfl⟩ := List.mem_map.mp hrequest
    rw [PresignedRun.context hu]
    exact hcontexts u hu
  have hfree : ∀ x ∈ (mixedUploads.map (·.request)).map (·.body.data),
      ∀ y ∈ (mixedUploads.map (·.request)).map (·.body.data),
        Sha256.sha256 x = Sha256.sha256 y → x = y := by
    set_option maxRecDepth 20000 in decide
  have hsteps : ∀ pre u post, mixedUploads = pre ++ u :: post →
      FormIsRecorded .reference (storeAfter pre) u.context u.data := by
    unfold mixedUploads
    rw [forall_split_cons, forall_split_cons, forall_split_cons, forall_split_nil]
    set_option maxRecDepth 20000 in exact ⟨by decide, by decide, by decide, trivial⟩
  have hform : ∀ pre request post, mixedUploads.map (·.request) = pre ++ request :: post →
      FormIsRecorded (presignedExternals mixedUploads).codecs
        (runUploads (presignedExternals mixedUploads) emptyWorld pre).server.view
        (request.context (presignedExternals mixedUploads)) request.body.data := by
    refine forall_split_map ?_
    intro pre u post hsplit
    have hpre : PresignedRun pre := (hsplit ▸ hrun).of_append
    have hmem : ∀ v ∈ pre, v.event ∈ mixedUploads.map (·.event) := fun v hv =>
      PresignedRun.event_mem (by simp [hsplit, hv])
    have hu : u.event ∈ mixedUploads.map (·.event) :=
      PresignedRun.event_mem (by simp [hsplit])
    rw [presignedExternals, hpre.view hmem, PresignedUpload.context_request hu]
    exact hsteps pre u post hsplit
  have haccepted : AllAccepted (presignedExternals mixedUploads) emptyWorld
      ([versionA.request] ++ untrackedB.request :: [versionB.request]) :=
    (hrun.spec fun _ => PresignedRun.event_mem).1
  have hok := AllAccepted.status [versionA.request] haccepted
  exact (plain_uploads_read_back (presignedExternals mixedUploads) Codecs.reference_zstdRoundTrips
    startsEmpty_emptyWorld hbases (fun x y hx hy => hfree x hx y hy) hform [versionA.request]
    untrackedB.request [versionB.request] [] rfl hok _).2

/-- A version without a repository and a path. -/
def unnamedUpload : PresignedUpload where
  sig := (0x28c9876b0063750f82549ca905126d9985e86eeb8cdd01ea4ef212883e686124,
    0x73d120fb1b277569f7cbbb2348fbccac6e20d14430f2879536408c60534d460f)
  time := 1700000000
  tags := [["t", "lfs"]]
  data := letterA

/-- A body that is itself a compressed frame, outside of tracking and then as a version. -/
def frameUploads : List PresignedUpload := [
  { sig := (0xe7485d58068f3f2ee0e6f5d9062664206c987b4fdb501bab5c17cc1f1021c764,
      0x69520b590a1d3f14d6f8ccc3d675e8814bcc085633fbb2d215b8a914a5679979)
    time := 1700000000
    tags := []
    data := RawFrame.encode letterA },
  { sig := (0x40174c630d9d87d44de0c778901cff80af0dacf24b1ec8266a2e49bf349dbbb9,
      0x3a82e062b9686cb1871e262eacb1376eff4f5e24233f961df1f0ea918469bc32)
    time := 1700000200
    tags := versionTags
    data := RawFrame.encode letterA }]

/-- Both are accepted.  The unnamed version is served compressed right after it is answered, and the
frame is served decompressed after its second upload. -/
theorem plain_uploads_not_read_back :
    AllAccepted (presignedExternals [unnamedUpload]) emptyWorld [unnamedUpload.request]
      ∧ (handleGetBlob (presignedExternals [unnamedUpload]) ⟨fun _ => 0, 0, 256⟩
        (sha256Hex letterA) (runUploads (presignedExternals [unnamedUpload]) emptyWorld
          ([unnamedUpload].map (·.request)))).1.blob? = some (RawFrame.encode letterA)
      ∧ RawFrame.encode letterA ≠ letterA
      ∧ AllAccepted (presignedExternals frameUploads) emptyWorld (frameUploads.map (·.request))
      ∧ (handleGetBlob (presignedExternals frameUploads) ⟨fun _ => 0, 0, 256⟩
        (sha256Hex (RawFrame.encode letterA)) (runUploads (presignedExternals frameUploads)
          emptyWorld (frameUploads.map (·.request)))).1.blob? = some letterA := by
  have hunnamed : PresignedRun [unnamedUpload] := by decide
  have hframe : PresignedRun frameUploads := by decide
  refine ⟨(hunnamed.spec fun _ => PresignedRun.event_mem).1, ?_, by decide,
    (hframe.spec fun _ => PresignedRun.event_mem).1, ?_⟩
  · rw [presignedExternals, hunnamed.get fun _ => PresignedRun.event_mem]
    set_option maxRecDepth 20000 in decide
  · rw [presignedExternals, hframe.get fun _ => PresignedRun.event_mem]
    set_option maxRecDepth 20000 in decide

end BlossomRs.Server

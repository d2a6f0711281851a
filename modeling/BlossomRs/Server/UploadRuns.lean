import BlossomRs.Lfs.WellStored
import BlossomRs.Lib.Runs
import BlossomRs.Server.Get
import BlossomRs.Server.Upload

/-!
# Runs of uploads

A run of `PUT /upload` requests on one server.  What one upload can do to the blob store
(`view_upload`) gives what a whole run does: what is stored stays stored, and when every upload was
answered with `200` the store is the fold of their effects (`view_runUploads`).
-/

namespace BlossomRs.Server

open Protocol Storage Database Lfs Runs

/-- One upload: what the environment supplies, the headers and the body. -/
structure UploadRequest where
  call : Call
  headers : HeaderMap
  body : RequestBody

/-- The tracked-file context of an upload. -/
def UploadRequest.context (ext : Externals) (request : UploadRequest) : LfsContext :=
  requestContext ext request.headers

section Run

variable {β δ ν κ : Type} [BlobBackend β] [BlobDatabase δ] [LfsVersionDatabase ν]

/-- The response to an upload and the state after it. -/
def upload (ext : Externals) (w : World β δ ν κ) (request : UploadRequest) :
    Response × World β δ ν κ :=
  handleUpload ext request.call request.headers request.body w

/-- The state after a run of uploads. -/
def runUploads (ext : Externals) (w : World β δ ν κ) (requests : List UploadRequest) :
    World β δ ν κ :=
  run (fun w request => (upload ext w request).2) w requests

theorem runUploads_cons (ext : Externals) (w : World β δ ν κ) (request : UploadRequest)
    (rest : List UploadRequest) :
    runUploads ext w (request :: rest) = runUploads ext (upload ext w request).2 rest :=
  run_cons request rest

theorem runUploads_split (ext : Externals) (w : World β δ ν κ) (pre : List UploadRequest)
    (request : UploadRequest) (post : List UploadRequest) :
    runUploads ext w (pre ++ request :: post)
      = runUploads ext (upload ext (runUploads ext w pre) request).2 post :=
  run_append pre (request :: post)

variable {ext : Externals} {w : World β δ ν κ} {requests : List UploadRequest}
    {request : UploadRequest}

/-- What every upload of a run keeps holds at its end. -/
theorem runUploads_invariant {P : List UploadRequest → World β δ ν κ → Prop} (hinit : P [] w)
    (hstep : ∀ pre request post, requests = pre ++ request :: post →
      P pre (runUploads ext w pre) →
      P (pre ++ [request]) (upload ext (runUploads ext w pre) request).2) :
    P requests (runUploads ext w requests) :=
  run_invariant hinit hstep requests [] (List.append_nil _).symm

variable [LawfulBlobBackend β] [LawfulLfsVersionDatabase ν]

/-- A server that holds no blobs and no version records. -/
def StartsEmpty (w : World β δ ν κ) : Prop :=
  (∀ hash, w.server.view.blobs hash = none) ∧ w.server.view.records = []

/-- The content a hash stands for among some bodies. -/
def contentAmong (bodies : List Bytes) (hash : String) : Bytes :=
  (bodies.find? (sha256Hex · == hash)).getD []

theorem contentAmong_eq {bodies : List Bytes} (hfree : Sha256.CollisionFreeOn (· ∈ bodies))
    {data : Bytes} (hmem : data ∈ bodies) : contentAmong bodies (sha256Hex data) = data := by
  unfold contentAmong
  cases hfind : bodies.find? (sha256Hex · == sha256Hex data) with
  | none => exact absurd (List.find?_eq_none.mp hfind _ hmem) (by simp)
  | some found =>
    have hsame : sha256Hex found = sha256Hex data := by simpa using List.find?_some hfind
    exact hfree _ _ (List.mem_of_find?_eq_some hfind) hmem (sha256_eq_of_sha256Hex_eq hsame)

/-- Deltas between stored contents round-trip where those between some bodies do, and only bodies
among them are stored. -/
theorem deltasDecode_of_bodies {codecs : Codecs} {bodies : List Bytes}
    (hdelta : codecs.DeltaRoundTripsOn (· ∈ bodies))
    (hfree : Sha256.CollisionFreeOn (· ∈ bodies)) {s : Store}
    (hstored : ∀ hash, s.Stored hash → ∃ data ∈ bodies, hash = sha256Hex data) :
    s.DeltasDecode codecs (contentAmong bodies) := by
  refine Codecs.DeltaRoundTripsOn.mono hdelta ?_
  rintro _ ⟨hash, hhash, rfl⟩
  obtain ⟨data, hdata, rfl⟩ := hstored hash hhash
  rwa [contentAmong_eq hfree hdata]

/-- The content a hash stands for among the uploaded bodies. -/
def uploadedContent (requests : List UploadRequest) : String → Bytes :=
  contentAmong (requests.map (·.body.data))

theorem uploadedContent_eq (hfree : Sha256.CollisionFreeOn (· ∈ requests.map (·.body.data)))
    (hmem : request ∈ requests) :
    uploadedContent requests (sha256Hex request.body.data) = request.body.data :=
  contentAmong_eq hfree (List.mem_map.mpr ⟨request, hmem, rfl⟩)

/-- What an upload can do to the blob store. -/
theorem view_upload (ext : Externals) (w : World β δ ν κ) (request : UploadRequest) :
    ((upload ext w request).2.server.view = w.server.view
        ∧ (upload ext w request).1.status ≠ .ok)
      ∨ (upload ext w request).2.server.view
        = w.server.view.upload ext.codecs (request.context ext) request.body.data
          (request.call.clock 5) :=
  view_handleUpload ext request.call request.headers request.body w

/-- What is stored stays stored while uploads go on. -/
theorem stored_runUploads (ext : Externals) {hash : String} (hstored : w.server.view.Stored hash)
    (requests : List UploadRequest) :
    (runUploads ext w requests).server.view.Stored hash := by
  refine runUploads_invariant (P := fun _ w => w.server.view.Stored hash) hstored ?_
  intro pre request _ _ hpre
  rcases view_upload ext (runUploads ext w pre) request with ⟨hview, -⟩ | hview
  · rw [hview]
    exact hpre
  · rw [hview, Store.stored_upload_iff]
    exact Or.inl hpre

/-- A body answered with `200` is stored. -/
theorem stored_upload (hok : (upload ext w request).1.status = .ok) :
    (upload ext w request).2.server.view.Stored (sha256Hex request.body.data) := by
  rcases view_upload ext w request with ⟨-, hstatus⟩ | hview
  · exact absurd hok hstatus
  · rw [hview, Store.stored_upload_iff]
    exact Or.inr rfl

/-- Every upload of a run is answered with `200`. -/
def AllAccepted (ext : Externals) : World β δ ν κ → List UploadRequest → Prop
  | _, [] => True
  | w, request :: rest => (upload ext w request).1.status = .ok
      ∧ AllAccepted ext (upload ext w request).2 rest

omit [LawfulBlobBackend β] [LawfulLfsVersionDatabase ν] in
theorem allAccepted_cons {rest : List UploadRequest} :
    AllAccepted ext w (request :: rest)
      ↔ (upload ext w request).1.status = .ok ∧ AllAccepted ext (upload ext w request).2 rest :=
  Iff.rfl

omit [LawfulBlobBackend β] [LawfulLfsVersionDatabase ν] in
theorem AllAccepted.status (pre : List UploadRequest) {post : List UploadRequest}
    (h : AllAccepted ext w (pre ++ request :: post)) :
    (upload ext (runUploads ext w pre) request).1.status = .ok := by
  induction pre generalizing w with
  | nil => exact h.1
  | cons first pre ih => exact ih h.2

/-- The effect on the blob store of a run in which every upload was accepted. -/
theorem view_runUploads (h : AllAccepted ext w requests) :
    (runUploads ext w requests).server.view
      = requests.foldl (fun s request => s.upload ext.codecs (request.context ext)
          request.body.data (request.call.clock 5)) w.server.view := by
  induction requests generalizing w with
  | nil => rfl
  | cons request rest ih =>
    rcases view_upload ext w request with ⟨-, hstatus⟩ | hview
    · exact absurd h.1 hstatus
    · rw [List.foldl_cons, ← hview]
      exact ih h.2

end Run

end BlossomRs.Server

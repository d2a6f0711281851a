import BlossomRs.Server.State

/-!
# `GET /{sha256}` and `HEAD /{sha256}`

`GET` serves the content of a stored blob, decoded as its version record says.  When decoding fails
it serves the stored bytes.  On the blob store of the state this is `Store.read` (`get_eq_read`).
-/

namespace BlossomRs.Server

open Protocol Storage Database Lfs

variable {β δ ν κ : Type}

/-- The content of a stored blob, as both transports load it. -/
def loadBlob [BlobBackend β] [LfsVersionDatabase ν] (ext : Externals) (s : ServerState β δ ν κ)
    (hash : String) : Option Bytes :=
  (BlobBackend.get s.backend hash).map fun raw =>
    match s.lfsVersionDb with
    | none => raw
    | some db =>
      match LfsVersionDatabase.getBySha256 db hash with
      | .ok (some version) =>
        loadStored ext.codecs (LfsVersionDatabase.getBySha256 db) (BlobBackend.get s.backend)
          version raw
      | _ => raw

/-- `stored_content_type`: the recorded type if it says anything, else what the bytes look like. -/
def storedContentType [BlobDatabase δ] (database : δ) (hash : String) (data : Option Bytes) :
    String :=
  let detected := (data.map detectMime).getD octetStream
  match BlobDatabase.getUpload database hash with
  | .ok record =>
    if record.mimeType = "" ∨ record.mimeType = octetStream then detected else record.mimeType
  | .error _ => detected

/-- `handle_get_blob`.  An extension after the hash is ignored. -/
def handleGetBlob [BlobBackend β] [BlobDatabase δ] [LfsVersionDatabase ν] (ext : Externals)
    (call : Call) (path : String) (w : World β δ ν κ) : Response × World β δ ν κ :=
  let hash := RustStr.splitFirst '.' path
  if isValidSha256 hash then
    match loadBlob ext w.server hash with
    | some data =>
      let stats := w.server.stats.recordAccess hash data.length (call.clock 0)
      (⟨.ok, .blob (storedContentType w.server.database hash (some data)) data⟩,
        { w with server := { w.server with stats := stats } })
    | none => (⟨.notFound, .empty⟩, w)
  else (⟨.badRequest, .empty⟩, w)

/-- `handle_head_blob`.  The length is the recorded one where there is a record. -/
def handleHeadBlob [BlobBackend β] [BlobDatabase δ] [LfsVersionDatabase ν] (path : String)
    (w : World β δ ν κ) : Response × World β δ ν κ :=
  let hash := RustStr.splitFirst '.' path
  if isValidSha256 hash then
    match BlobBackend.get w.server.backend hash with
    | some raw =>
      let recorded := match w.server.lfsVersionDb.map (LfsVersionDatabase.getBySha256 · hash) with
        | some (.ok (some version)) => some version.originalSize.toNat
        | _ => none
      (⟨.ok, .head (recorded.getD raw.length)
        (storedContentType w.server.database hash none)⟩, w)
    | none => (⟨.notFound, .empty⟩, w)
  else (⟨.badRequest, .empty⟩, w)

section View

variable [BlobBackend β] [LfsVersionDatabase ν] [LawfulLfsVersionDatabase ν]

/-- Loading a blob is reading the view. -/
theorem loadBlob_eq_read (ext : Externals) (s : ServerState β δ ν κ) (hash : String) :
    loadBlob ext s hash = s.view.read ext.codecs hash := by
  unfold loadBlob Store.read
  cases hdb : s.lfsVersionDb with
  | none => simp [ServerState.view, Store.find, Store.records, hdb]
  | some db =>
    have hlookup := ServerState.getBySha256_eq_lookup hdb
    have hfind : LfsVersionDatabase.getBySha256 db hash = .ok (s.view.find hash) := by
      rw [hlookup]
      rfl
    have hblobs : BlobBackend.get s.backend = s.view.blobs := rfl
    simp only [hfind, hlookup, hblobs]
    cases s.view.find hash <;> rfl

variable [BlobDatabase δ]

/-- **What `GET` answers**: the content read from the store, or that there is none. -/
theorem get_eq_read (ext : Externals) (call : Call) {hash : String}
    (hvalid : isValidSha256 hash = true) (w : World β δ ν κ) :
    (handleGetBlob ext call hash w).1.blob? = w.server.view.read ext.codecs hash
      ∧ (handleGetBlob ext call hash w).1.status
        = if (w.server.view.read ext.codecs hash).isSome then .ok else .notFound := by
  unfold handleGetBlob
  rw [splitFirst_of_isValidSha256 hvalid]
  simp only [hvalid, if_true, loadBlob_eq_read]
  cases w.server.view.read ext.codecs hash with
  | none => exact ⟨rfl, rfl⟩
  | some data => exact ⟨rfl, rfl⟩

end View

end BlossomRs.Server

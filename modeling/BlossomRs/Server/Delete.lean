import BlossomRs.Lib.RustInt
import BlossomRs.Server.Upload

/-!
# Deletes

`DELETE /{sha256}`, `DELETE /n96/{sha256}` and the other transport's delete share the rule on owners
(`ownerDecision`): members drop their own reference and the bytes go with the last one, administrators
delete outright.

What happens to the bytes differs.  `DELETE /{sha256}` first stores every delta made against the blob
in full, and drops the version records of the blob afterwards (`removeRebased`); the other HTTP
endpoints only remove the bytes and the metadata (`removeStored`).
-/

namespace BlossomRs.Server

open Protocol Storage Database Lfs

variable {β δ ν κ : Type}

/-! ### Who may delete -/

/-- What the rule on owners decides about a delete. -/
inductive OwnerDecision where
  | denied
  | notOwner
  | countFailed (error : DbError)
  | releaseFailed (error : DbError)
  | released
  | proceed
deriving DecidableEq, Repr

/-- A failed ownership lookup counts as no. -/
def isOwner [BlobDatabase δ] (database : δ) (hash pubkey : String) : Bool :=
  match BlobDatabase.isUploadOwner database hash pubkey with
  | .ok owner => owner
  | .error _ => false

/-- Drop one of several references to a blob. -/
def releaseReference [BlobDatabase δ] (hash pubkey : String) (s : ServerState β δ ν κ) :
    OwnerDecision × ServerState β δ ν κ :=
  match BlobDatabase.deleteUploadOwner s.database hash pubkey with
  | (.error e, database) => (.releaseFailed e, { s with database := database })
  | (.ok _, database) => (.released, { s with database := database })

/-- The rule on owners. -/
def ownerDecision [BlobDatabase δ] (hash pubkey : String) (s : ServerState β δ ν κ) :
    OwnerDecision × ServerState β δ ν κ :=
  match s.role pubkey with
  | .denied => (.denied, s)
  | .admin => (.proceed, s)
  | .member =>
    if isOwner s.database hash pubkey then
      match BlobDatabase.uploadOwnerCount s.database hash with
      | .error e => (.countFailed e, s)
      | .ok count => if 1 < count then releaseReference hash pubkey s else (.proceed, s)
    else (.notOwner, s)

/-- A delete that is to go on has changed nothing. -/
theorem eq_of_proceed [BlobDatabase δ] {hash pubkey : String} {s s' : ServerState β δ ν κ}
    (h : ownerDecision hash pubkey s = (.proceed, s')) : s' = s := by
  unfold ownerDecision at h
  split at h
  · cases h
  · exact (Prod.mk.inj h).2.symm
  · split at h
    · split at h
      · cases h
      · split at h
        · unfold releaseReference at h
          split at h
          · cases h
          · cases h
        · exact (Prod.mk.inj h).2.symm
    · cases h

/-! ### Removing the bytes -/

/-- How a removal can fail. -/
inductive RemovalError where
  | rebaseStorage (detail : String)
  | rebaseMetadata (error : LfsVersionError)
  | storage (detail : String)
  | metadata (error : DbError)

/-- Remove the bytes of a hash and then its metadata.  Yields whether there were any. -/
def removeStored [BlobBackend β] [BlobDatabase δ] (hash : String) (s : ServerState β δ ν κ) :
    Except RemovalError Bool × ServerState β δ ν κ :=
  match BlobBackend.tryDelete s.backend hash with
  | (.error e, backend) => (.error (.storage e), { s with backend := backend })
  | (.ok false, backend) => (.ok false, { s with backend := backend })
  | (.ok true, backend) =>
    match BlobDatabase.deleteUpload s.database hash with
    | (.error e, database) =>
      (.error (.metadata e), { s with backend := backend, database := database })
    | (.ok _, database) => (.ok true, { s with backend := backend, database := database })

/-- The content of a stored delta, if it has bytes and they can be read. -/
def deltaContent [BlobBackend β] [LfsVersionDatabase ν] (ext : Externals) (db : ν) (backend : β)
    (delta : LfsFileVersion) : Option Bytes :=
  (BlobBackend.get backend delta.sha256).bind fun _ =>
    (reconstructBlob ext.codecs (LfsVersionDatabase.getBySha256 db) (BlobBackend.get backend)
      delta).toOption

/-- Store the content of one delta in full; one that cannot be read is passed over. -/
def rebaseDelta [BlobBackend β] [LfsVersionDatabase ν] (ext : Externals) (now : Nat) (db : ν)
    (delta : LfsFileVersion) (s : ServerState β δ ν κ) :
    Except RemovalError Unit × ServerState β δ ν κ :=
  match deltaContent ext db s.backend delta with
  | none => (.ok (), s)
  | some content =>
    match BlobBackend.tryInsertWithHash s.backend (ext.codecs.compressOr content) delta.sha256
        (RustInt.asU64 delta.originalSize) s.baseUrl now with
    | (.error e, backend) => (.error (.rebaseStorage e), { s with backend := backend })
    | (.ok _, backend) =>
      match LfsVersionDatabase.updateVersion db delta.sha256 .compressed none content.length with
      | (.error e, db) =>
        (.error (.rebaseMetadata e), { s with backend := backend, lfsVersionDb := some db })
      | (.ok (), db) => (.ok (), { s with backend := backend, lfsVersionDb := some db })

/-- Store the deltas of a list in full, one after the other. -/
def rebaseDeltas [BlobBackend β] [LfsVersionDatabase ν] (ext : Externals) :
    (clock : Nat → Nat) → List LfsFileVersion → ServerState β δ ν κ →
      Except RemovalError Unit × ServerState β δ ν κ
  | _, [], s => (.ok (), s)
  | clock, delta :: deltas, s =>
    match s.lfsVersionDb with
    | none => (.ok (), s)
    | some db =>
      match rebaseDelta ext (clock 0) db delta s with
      | (.error e, s) => (.error e, s)
      | (.ok (), s) => rebaseDeltas ext (fun i => clock (i + 1)) deltas s

/-- The deltas made against a hash; a failed lookup counts as none. -/
def deltasToRebase [LfsVersionDatabase ν] (hash : String) (s : ServerState β δ ν κ) :
    List LfsFileVersion :=
  match s.lfsVersionDb with
  | none => []
  | some db =>
    match LfsVersionDatabase.getDeltasForBase db hash with
    | .ok deltas => deltas
    | .error _ => []

/-- Drop the version records of a hash.  Failures are ignored. -/
def forgetVersions [LfsVersionDatabase ν] (hash : String) (s : ServerState β δ ν κ) :
    ServerState β δ ν κ :=
  { s with lfsVersionDb := s.lfsVersionDb.map fun db => (LfsVersionDatabase.deleteBySha256 db hash).2 }

/-- Remove a blob that deltas may rest on. -/
def removeRebased [BlobBackend β] [BlobDatabase δ] [LfsVersionDatabase ν] (ext : Externals)
    (clock : Nat → Nat) (hash : String) (s : ServerState β δ ν κ) :
    Except RemovalError Bool × ServerState β δ ν κ :=
  match rebaseDeltas ext clock (deltasToRebase hash s) s with
  | (.error e, s) => (.error e, s)
  | (.ok (), s) =>
    match removeStored hash s with
    | (.ok true, s) => (.ok true, forgetVersions hash s)
    | (result, s) => (result, s)

/-- What survives a round of the loop survives the loop. -/
theorem rebaseDeltas_invariant [BlobBackend β] [LfsVersionDatabase ν] {ext : Externals}
    {P : ServerState β δ ν κ → Prop}
    (hstep : ∀ now db delta s, s.lfsVersionDb = some db → P s → P (rebaseDelta ext now db delta s).2)
    (clock : Nat → Nat) (deltas : List LfsFileVersion) {s : ServerState β δ ν κ} (h : P s) :
    P (rebaseDeltas ext clock deltas s).2 := by
  induction deltas generalizing s clock with
  | nil => exact h
  | cons delta deltas ih =>
    unfold rebaseDeltas
    cases hdb : s.lfsVersionDb with
    | none => exact h
    | some db =>
      have hround := hstep (clock 0) db delta s hdb h
      dsimp only
      split
      case h_1 heq => rwa [heq] at hround
      case h_2 heq =>
        rw [heq] at hround
        exact ih _ hround

/-! ### `DELETE /{sha256}` -/

/-- The answer to a removal that failed. -/
def removalErrorResponse : RemovalError → Response
  | .rebaseStorage detail =>
    errorJson .internalServerError ("delta rebase storage failed: " ++ detail)
  | .rebaseMetadata error =>
    errorJson .internalServerError ("delta metadata update failed: " ++ error.message)
  | .storage detail => errorJson .internalServerError ("storage delete failed: " ++ detail)
  | .metadata error => errorJson .internalServerError error.message

/-- What the endpoints that delete for an owner differ in. -/
structure DeleteEndpoint where
  denied : String
  missing : String
  released : Response
  deleted : Response

/-- The delete of a hash by an authenticated key, under the lock. -/
def deleteAs [BlobDatabase δ] (endpoint : DeleteEndpoint)
    (remove : ServerState β δ ν κ → Except RemovalError Bool × ServerState β δ ν κ)
    (hash pubkey : String) (s : ServerState β δ ν κ) : Response × ServerState β δ ν κ :=
  match ownerDecision hash pubkey s with
  | (.denied, s) => (errorJson .forbidden endpoint.denied, s)
  | (.notOwner, s) => (errorJson .forbidden "not the blob owner", s)
  | (.countFailed e, s) => (errorJson .internalServerError e.message, s)
  | (.releaseFailed e, s) => (errorJson .internalServerError e.message, s)
  | (.released, s) => (endpoint.released, s)
  | (.proceed, s) =>
    match remove s with
    | (.ok true, s) => (endpoint.deleted, s)
    | (.ok false, s) => (errorJson .notFound endpoint.missing, s)
    | (.error e, s) => (removalErrorResponse e, s)

def okJson (fields : List (String × Json)) : Response where
  status := .ok
  body := .json (.obj fields)

def blobDeleteEndpoint : DeleteEndpoint where
  denied := "delete not allowed for this pubkey"
  missing := "not found"
  released := okJson [("deleted", .bool true), ("blob_retained", .bool true)]
  deleted := okJson [("deleted", .bool true)]

/-- The locked part of `handle_delete_blob`, once the event is accepted. -/
def deleteBlobAs [BlobBackend β] [BlobDatabase δ] [LfsVersionDatabase ν] (ext : Externals)
    (call : Call) (hash pubkey : String) (s : ServerState β δ ν κ) :
    Response × ServerState β δ ν κ :=
  deleteAs blobDeleteEndpoint (removeRebased ext (fun i => call.clock (i + 2)) hash) hash pubkey s

/-- `handle_delete_blob`. -/
def handleDeleteBlob [BlobBackend β] [BlobDatabase δ] [LfsVersionDatabase ν] (ext : Externals)
    (call : Call) (headers : HeaderMap) (hash : String) (w : World β δ ν κ) :
    Response × World β δ ν κ :=
  if !isValidSha256 hash then (errorJson .badRequest "invalid SHA256 hash", w)
  else
    match extractAuthEvent ext.parser headers with
    | .error _ => (errorJson .unauthorized "authorization required for delete", w)
    | .ok event =>
      match verifyAuthEvent ext (call.clock 0) (call.clock 1) w.seen event "delete"
          w.server.baseUrl ("/" ++ hash) "DELETE" (some hash) with
      | (.error e, seen) => (errorJson .unauthorized e.message, { w with seen := seen })
      | (.ok (), seen) =>
        let (response, server) := deleteBlobAs ext call hash event.pubkey w.server
        (response, ⟨server, seen⟩)

/-! ### `DELETE /n96/{sha256}` -/

def nip96DeleteEndpoint : DeleteEndpoint where
  denied := "delete not allowed"
  missing := "file not found"
  released := okJson [("status", .str "success"),
    ("message", .str "Ownership reference deleted; shared file retained")]
  deleted := okJson [("status", .str "success"), ("message", .str "File deleted")]

/-- The locked part of `handle_nip96_delete`. -/
def nip96DeleteAs [BlobBackend β] [BlobDatabase δ] (hash pubkey : String)
    (s : ServerState β δ ν κ) : Response × ServerState β δ ν κ :=
  deleteAs nip96DeleteEndpoint (removeStored hash) hash pubkey s

/-- `handle_nip96_delete`. -/
def handleNip96Delete [BlobBackend β] [BlobDatabase δ] (ext : Externals) (call : Call)
    (headers : HeaderMap) (hash : String) (w : World β δ ν κ) : Response × World β δ ν κ :=
  if !isValidSha256 hash then (errorJson .badRequest "invalid SHA256 hash", w)
  else
    match extractAuthEvent ext.parser headers with
    | .error e => (errorJson .unauthorized e.message, w)
    | .ok event =>
      match verifyAuthEvent ext (call.clock 0) (call.clock 1) w.seen event "delete"
          w.server.baseUrl ("/n96/" ++ hash) "DELETE" (some hash) with
      | (.error e, seen) => (errorJson .unauthorized e.message, { w with seen := seen })
      | (.ok (), seen) =>
        let (response, server) := nip96DeleteAs hash event.pubkey w.server
        (response, ⟨server, seen⟩)

end BlossomRs.Server

import BlossomRs.Server.Delete
import BlossomRs.Server.Get
import BlossomRs.Server.Locks
import BlossomRs.Transport.Auth

/-!
# Operations of streams

What a stream does under the lock of the shared state, once its request has been admitted: the
handler of each operation and the dispatch over them.

The upload runs all its checks again before it commits, access control included, and stores through
the same code as `PUT /upload`.
-/

namespace BlossomRs.Transport

open Protocol Auth Storage Database Lfs Locks Server

variable {β δ ν κ : Type}

/-- A response line and the body after it. -/
structure Reply where
  header : Response
  body : Bytes

def Reply.failure (status : Status) (message : String) : Reply :=
  ⟨.failure status message, []⟩

/-! ### Blobs -/

/-- `handle_get`. -/
def handleGet [BlobBackend β] [LfsVersionDatabase ν] (ext : Externals) (hash : String)
    (s : ServerState β δ ν κ) : Reply :=
  match loadBlob ext.toExternals s hash with
  | some data => ⟨⟨.ok, data.length, octetStream, "", none⟩, data⟩
  | none => .failure .notFound "not found"

/-- `handle_head`. -/
def handleHead [BlobBackend β] [LfsVersionDatabase ν] (hash : String) (s : ServerState β δ ν κ) :
    Reply :=
  if BlobBackend.existsBlob s.backend hash then
    let recorded := match s.lfsVersionDb.map (LfsVersionDatabase.getBySha256 · hash) with
      | some (.ok (some version)) => some (RustInt.asU64 version.originalSize)
      | _ => none
    ⟨⟨.ok, recorded.getD 0, "", "", none⟩, []⟩
  else ⟨⟨.notFound, 0, "", "", none⟩, []⟩

/-- `parse_lfs_from_request`. -/
def parseLfsFromRequest (req : Request) : LfsContext where
  isLfs := decide (req.lfsPath ≠ "" ∨ req.lfsRepo ≠ "")
  path := nonempty req.lfsPath
  repo := nonempty req.lfsRepo
  base := nonempty req.lfsBase
  isManifest := req.lfsManifest

/-- The quota check of an upload: any error refuses. -/
def checkUploadQuota [BlobDatabase δ] (database : δ) (hash owner : String) (size : Nat) :
    Except Response Unit :=
  match BlobDatabase.checkQuota database owner (additionalBytes database hash owner size) with
  | .ok () => .ok ()
  | .error e => .error (.failure .forbidden e.message)

/-- The checks of `handle_upload`, in this order. -/
def uploadChecks [BlobDatabase δ] (s : ServerState β δ ν κ) (req : Request)
    (authPubkey : Option String) (data : Bytes) : Except Response Unit := do
  Checks.require (data ≠ []) (.failure .error "empty body")
  Checks.require (s.requirements.requireAuth = false ∨ authPubkey.isSome)
    (.failure .unauthorized "auth required for upload")
  Checks.require (s.isAllowed (authPubkey.getD "anonymous") .upload = true)
    (.failure .forbidden "upload not allowed for this pubkey")
  Checks.ifSome s.requirements.maxSize fun limit => Checks.require (data.length ≤ limit)
    (.failure .error ("exceeds max upload size of " ++ toString limit ++ " bytes"))
  checkUploadQuota s.database req.sha256 (authPubkey.getD "anonymous") data.length
  Checks.require (sha256Hex data = req.sha256)
    (.failure .error "upload body SHA256 does not match request")

/-- `handle_upload`. -/
def handleUpload [BlobBackend β] [BlobDatabase δ] [LfsVersionDatabase ν] (ext : Externals)
    (call : Call) (req : Request) (authPubkey : Option String) (data : Bytes)
    (s : ServerState β δ ν κ) : Response × ServerState β δ ν κ :=
  match uploadChecks s req authPubkey data with
  | .error response => (response, s)
  | .ok () =>
    let hash := sha256Hex data
    let descriptor := makeDescriptorFromHash hash data.length s.baseUrl (call.clock 0)
    match storeUpload ext.toExternals (parseLfsFromRequest req) hash data (call.clock 1)
        (call.clock 2) s with
    | (.error e, s) => (.failure .error ("storage write failed: " ++ e), s)
    | (.ok (), s) =>
      match BlobDatabase.recordUpload s.database
          (uploadRecord descriptor octetStream authPubkey none) with
      | (.error e, database) =>
        (.failure .error ("metadata write failed: " ++ e.message),
          { s with database := database })
      | (.ok (), database) =>
        (⟨.ok, 0, "", "", some (.obj (descriptorFields descriptor))⟩,
          { s with database := database })

/-- The answer to a removal that failed. -/
def removalFailure : RemovalError → Response
  | .rebaseStorage detail => .failure .error ("delta rebase storage failed: " ++ detail)
  | .rebaseMetadata error => .failure .error ("delta metadata update failed: " ++ error.message)
  | .storage detail => .failure .error ("storage delete failed: " ++ detail)
  | .metadata error => .failure .error ("metadata delete failed: " ++ error.message)

/-- `handle_delete`, for an authenticated key. -/
def deleteAs [BlobBackend β] [BlobDatabase δ] [LfsVersionDatabase ν] (ext : Externals) (call : Call)
    (hash pubkey : String) (s : ServerState β δ ν κ) : Response × ServerState β δ ν κ :=
  match ownerDecision hash pubkey s with
  | (.denied, s) => (.failure .forbidden "delete not allowed for this pubkey", s)
  | (.notOwner, s) => (.failure .forbidden "not the blob owner", s)
  | (.countFailed _, s) => (.failure .error "failed to count blob owners", s)
  | (.releaseFailed _, s) => (.failure .error "failed to update blob ownership", s)
  | (.released, s) => (.failure .ok "", s)
  | (.proceed, s) =>
    match removeRebased ext.toExternals call.clock hash s with
    | (.ok true, s) => (.failure .ok "", s)
    | (.ok false, s) => (.failure .notFound "not found", s)
    | (.error e, s) => (removalFailure e, s)

/-- `handle_delete`. -/
def handleDelete [BlobBackend β] [BlobDatabase δ] [LfsVersionDatabase ν] (ext : Externals)
    (call : Call) (hash : String) (authPubkey : Option String) (s : ServerState β δ ν κ) :
    Response × ServerState β δ ν κ :=
  match authPubkey with
  | none => (.failure .unauthorized "auth required for delete", s)
  | some pubkey => deleteAs ext call hash pubkey s

/-- `handle_list`: the descriptors as a JSON body. -/
def handleList [BlobDatabase δ] (pubkey : String) (s : ServerState β δ ν κ) : Reply :=
  match BlobDatabase.listUploadsByPubkey s.database pubkey with
  | .ok records =>
    let descriptor (record : UploadRecord) : BlobDescriptor := ⟨record.sha256, record.size,
      some record.mimeType, some (s.baseUrl ++ "/" ++ record.sha256), some record.createdAt⟩
    let body := RustStr.asBytes
      (Json.arr (records.map fun record => .obj (descriptorFields (descriptor record)))).print
    ⟨⟨.ok, body.length, "application/json", "", none⟩, body⟩
  | .error e => .failure .error e.message

/-! ### Locks -/

def lockJson (record : LockRecord) : Json :=
  .obj [("id", .str record.id), ("repo_id", .str record.repoId), ("path", .str record.path),
    ("pubkey", .str record.pubkey), ("locked_at", .num record.lockedAt)]

def noLocks : Response :=
  .failure .notFound "lock support not configured"

/-- `handle_lock_create`. -/
def handleLockCreate [LockDatabase κ] (freshId : String) (now : Nat) (req : Request)
    (authPubkey : Option String) (s : ServerState β δ ν κ) : Response × ServerState β δ ν κ :=
  match authPubkey with
  | none => (.failure .unauthorized "auth required for lock", s)
  | some pubkey =>
    if s.isAllowed pubkey .lock then
      match s.lockDb with
      | none => (noLocks, s)
      | some db =>
        match LockDatabase.createLock db req.repoId req.lockPath pubkey freshId now with
        | (.ok record, db) =>
          (⟨.ok, 0, "", "", some (lockJson record)⟩, { s with lockDb := some db })
        | (.error (.conflict _), db) =>
          (.failure .conflict "path already locked", { s with lockDb := some db })
        | (.error e, db) => (.failure .error e.message, { s with lockDb := some db })
    else (.failure .forbidden "lock not allowed", s)

/-- `handle_lock_delete`. -/
def handleLockDelete [LockDatabase κ] (req : Request) (authPubkey : Option String)
    (s : ServerState β δ ν κ) : Response × ServerState β δ ν κ :=
  match authPubkey with
  | none => (.failure .unauthorized "auth required for unlock", s)
  | some pubkey =>
    match s.lockDb with
    | none => (noLocks, s)
    | some db =>
      match LockDatabase.deleteLock db req.repoId req.lockId
          (req.force && s.role pubkey == .admin) pubkey with
      | (.ok record, db) =>
        (⟨.ok, 0, "", "", some (lockJson record)⟩, { s with lockDb := some db })
      | (.error .notFound, db) =>
        (.failure .notFound "lock not found", { s with lockDb := some db })
      | (.error (.forbidden detail), db) =>
        (.failure .forbidden detail, { s with lockDb := some db })
      | (.error e, db) => (.failure .error e.message, { s with lockDb := some db })

/-- The page a request asks for. -/
def pageFilters (req : Request) : LockFilters where
  path := none
  id := none
  cursor := nonempty req.cursor
  limit := if req.limit = 0 then none else some req.limit

def cursorJson (nextCursor : Option String) : Json :=
  nextCursor.elim .null .str

/-- A listing of locks, by what is made of its records. -/
def lockListing [LockDatabase κ] (req : Request) (lists : List LockRecord → List (String × Json))
    (s : ServerState β δ ν κ) : Response :=
  match s.lockDb with
  | none => noLocks
  | some db =>
    match LockDatabase.listLocks db req.repoId (pageFilters req) with
    | .ok (records, nextCursor) =>
      ⟨.ok, 0, "", "",
        some (.obj (lists records ++ [("next_cursor", cursorJson nextCursor)]))⟩
    | .error e => .failure .error e.message

/-- `handle_lock_list`. -/
def handleLockList [LockDatabase κ] (req : Request) (s : ServerState β δ ν κ) : Response :=
  lockListing req (fun records => [("locks", .arr (records.map lockJson))]) s

/-- `handle_lock_verify`. -/
def handleLockVerify [LockDatabase κ] (req : Request) (authPubkey : Option String)
    (s : ServerState β δ ν κ) : Response :=
  match authPubkey with
  | none => .failure .unauthorized "auth required for verify"
  | some pubkey =>
    lockListing req (fun records =>
      [("ours", .arr ((records.filter (·.pubkey == pubkey)).map lockJson)),
        ("theirs", .arr ((records.filter (·.pubkey != pubkey)).map lockJson))]) s

/-! ### Dispatch -/

/-- The operation of an admitted request, under the lock.  Only an upload has a body. -/
def dispatch [BlobBackend β] [BlobDatabase δ] [LfsVersionDatabase ν] [LockDatabase κ]
    (ext : Externals) (call : Call) (freshId : String) (req : Request) (authPubkey : Option String)
    (body : Bytes) (s : ServerState β δ ν κ) : Reply × ServerState β δ ν κ :=
  let bare (result : Response × ServerState β δ ν κ) : Reply × ServerState β δ ν κ :=
    (⟨result.1, []⟩, result.2)
  match req.op with
  | .get => (handleGet ext req.sha256 s, s)
  | .head => (handleHead req.sha256 s, s)
  | .upload => bare (handleUpload ext call req authPubkey body s)
  | .delete => bare (handleDelete ext call req.sha256 authPubkey s)
  | .list => (handleList req.pubkey s, s)
  | .lockCreate => bare (handleLockCreate freshId (call.clock 0) req authPubkey s)
  | .lockDelete => bare (handleLockDelete req authPubkey s)
  | .lockList => (⟨handleLockList req s, []⟩, s)
  | .lockVerify => (⟨handleLockVerify req authPubkey s, []⟩, s)

end BlossomRs.Transport

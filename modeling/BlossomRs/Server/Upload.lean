import BlossomRs.Server.State

/-!
# `PUT /upload`

The upload handler in the order it works: read the event, check it against the request under the
lock, buffer the body, bind the event to the body's hash and use it up, then commit under the lock.

Only the commit writes to the blob store, and what it writes is `Store.upload` or nothing
(`view_handleUpload`).  The store half of the commit (`storeUpload`) is shared with the other
transport.
-/

namespace BlossomRs.Server

open Protocol Auth Storage Database Access Lfs

variable {β δ ν κ : Type}

/-- The event of a request that may come without one. -/
def optionalAuthEvent (ext : Externals) (headers : HeaderMap) :
    Except AuthError (Option NostrEvent) :=
  if headers.authorization.isSome then (extractAuthEvent ext.parser headers).map some
  else .ok none

/-- The tracked-file context of a request. -/
def requestContext (ext : Externals) (headers : HeaderMap) : LfsContext :=
  match extractAuthEvent ext.parser headers with
  | .ok event => LfsContext.fromEvent event
  | .error _ => LfsContext.empty

/-- What the endpoints that store a blob differ in before they read a body: the request their
events are bound to, what the key must be allowed to do, and the text for one that is not. -/
structure StoreEndpoint where
  path : String
  method : String
  action : Action
  denied : String

/-- The checks of a signed request before its body is read. -/
def signedPreflight (ext : Externals) (call : Call) (endpoint : StoreEndpoint) (event : NostrEvent)
    (s : ServerState β δ ν κ) : Except Response Unit × ServerState β δ ν κ :=
  match verifyAuthEventClaims ext.secp (call.clock 0) event "upload" s.baseUrl endpoint.path
      endpoint.method none with
  | .error e => (.error (errorJson .unauthorized e.message), s)
  | .ok () =>
    if s.isAllowed event.pubkey endpoint.action then
      match s.checkRate event.pubkey call.clockMs with
      | (true, s) => (.ok (), s)
      | (false, s) => (.error (errorJson .tooManyRequests "rate limit exceeded"), s)
    else (.error (errorJson .forbidden endpoint.denied), s)

/-- `PUT /upload`. -/
def uploadEndpoint : StoreEndpoint :=
  ⟨"/upload", "PUT", .upload, "upload not allowed for this pubkey"⟩

/-- The checks before the body is read.  Yields the uploader's key, if the upload is signed. -/
def uploadPreflight (ext : Externals) (call : Call) (authEvent : Option NostrEvent)
    (s : ServerState β δ ν κ) : Except Response (Option String) × ServerState β δ ν κ :=
  match authEvent with
  | none =>
    if s.requirements.requireAuth then
      (.error (errorJson .unauthorized AuthError.invalidSignature.message), s)
    else
      match s.checkRate "anonymous" call.clockMs with
      | (true, s) => (.ok none, s)
      | (false, s) => (.error (errorJson .tooManyRequests "rate limit exceeded"), s)
  | some event =>
    match signedPreflight ext call uploadEndpoint event s with
    | (.error response, s) => (.error response, s)
    | (.ok (), s) => (.ok (some event.pubkey), s)

/-- Bind a signed upload to the hash of its body. -/
def uploadBind (ext : Externals) (call : Call) (authEvent : Option NostrEvent) (baseUrl : String)
    (hash : String) (seen : ReplayCache) : Except AuthError Unit × ReplayCache :=
  match authEvent with
  | none => (.ok (), seen)
  | some event =>
    verifyAuthEvent ext (call.clock 1) (call.clock 2) seen event "upload" baseUrl "/upload" "PUT"
      (some hash)

/-- The configured size limit, with the words before the limit in the refusal. -/
def checkMaxSize (requirements : UploadRequirements) (size : Nat) (text : String) :
    Except Response Unit :=
  Checks.ifSome requirements.maxSize fun limit =>
    Checks.require (size ≤ limit) (errorJson .payloadTooLarge (text ++ toString limit ++ " bytes"))

/-- What an upload adds to its owner's account: nothing when the owner has the blob already. -/
def additionalBytes [BlobDatabase δ] (database : δ) (hash owner : String) (size : Nat) : Nat :=
  match BlobDatabase.isUploadOwner database hash owner with
  | .ok true => 0
  | _ => size

/-- The quota check that refuses on any database error. -/
def checkQuotaStrict [BlobDatabase δ] (database : δ) (hash owner : String) (size : Nat) :
    Except Response Unit :=
  match BlobDatabase.checkQuota database owner (additionalBytes database hash owner size) with
  | .ok () => .ok ()
  | .error e => .error (errorJson .insufficientStorage e.message)

/-- The allowed media types. -/
def checkMime (requirements : UploadRequirements) (mime text : String) : Except Response Unit :=
  Checks.require (mimeAllowed requirements mime = true) (errorJson .unsupportedMediaType text)

/-- The size, quota and media type checks of the commit. -/
def uploadChecks [BlobDatabase δ] (s : ServerState β δ ν κ) (pubkey : Option String)
    (hash : String) (data : Bytes) (contentType : String) : Except Response Unit := do
  checkMaxSize s.requirements data.length "exceeds max upload size of "
  Checks.ifSome pubkey fun owner => checkQuotaStrict s.database hash owner data.length
  checkMime s.requirements contentType "content type is not allowed"

/-- Record a version, if the context names one.  Failures are ignored. -/
def recordUploadVersion [LfsVersionDatabase ν] (db : ν) (ctx : LfsContext) (hash : String)
    (prepared : Prepared) (originalSize now : Nat) : ν :=
  match ctx.recordKey with
  | some (repo, path) =>
    let number := nextVersion (LfsVersionDatabase.getLatestVersion db repo path)
    (LfsVersionDatabase.recordVersion db
      (versionRecord repo path number hash prepared originalSize now)).2
  | none => db

/-- Write bytes under a hash unless the hash is taken. -/
def insertIfAbsent [BlobBackend β] (backend : β) (stored : Bytes) (hash : String)
    (originalSize : Nat) (baseUrl : String) (now : Nat) : Except String Unit × β :=
  if BlobBackend.existsBlob backend hash then (.ok (), backend)
  else
    match BlobBackend.tryInsertWithHash backend stored hash originalSize baseUrl now with
    | (.ok _, backend) => (.ok (), backend)
    | (.error e, backend) => (.error e, backend)

/-- Write the prepared bytes unless the hash is taken, then record the version. -/
def storeUpload [BlobBackend β] [LfsVersionDatabase ν] (ext : Externals) (ctx : LfsContext)
    (hash : String) (data : Bytes) (insertNow recordNow : Nat) (s : ServerState β δ ν κ) :
    Except String Unit × ServerState β δ ν κ :=
  let prepared := prepareUpload ext.codecs s.versionLookup (BlobBackend.get s.backend) ctx data
  match insertIfAbsent s.backend prepared.storedData hash data.length s.baseUrl insertNow with
  | (.error e, backend) => (.error e, { s with backend := backend })
  | (.ok (), backend) =>
    (.ok (), { s with
      backend := backend
      lfsVersionDb := s.lfsVersionDb.map fun db =>
        recordUploadVersion db ctx hash prepared data.length recordNow })

/-- The metadata record of a stored blob. -/
def uploadRecord (descriptor : BlobDescriptor) (mimeType : String) (pubkey : Option String)
    (phash : Option Nat) : UploadRecord where
  sha256 := descriptor.sha256
  size := descriptor.size
  mimeType := mimeType
  pubkey := pubkey.getD "anonymous"
  createdAt := descriptor.uploaded.getD 0
  phash := phash

/-- The commit of an upload, under the lock. -/
def uploadCommit [BlobBackend β] [BlobDatabase δ] [LfsVersionDatabase ν] (ext : Externals)
    (call : Call) (headers : HeaderMap) (pubkey : Option String) (data : Bytes)
    (s : ServerState β δ ν κ) : Response × ServerState β δ ν κ :=
  let hash := sha256Hex data
  let contentType := (extractContentType headers).getD (detectMime data)
  match uploadChecks s pubkey hash data contentType with
  | .error response => (response, s)
  | .ok () =>
    let descriptor := makeDescriptorFromHash hash data.length s.baseUrl (call.clock 3)
    match storeUpload ext (requestContext ext headers) hash data (call.clock 4) (call.clock 5) s with
    | (.error e, s) =>
      (errorJson .internalServerError ("storage write failed: " ++ e), s)
    | (.ok (), s) =>
      match BlobDatabase.recordUpload s.database
          (uploadRecord descriptor contentType pubkey none) with
      | (.error e, database) =>
        (errorJson .internalServerError ("metadata write failed: " ++ e.message),
          { s with database := database })
      | (.ok (), database) => (descriptorResponse descriptor, { s with database := database })

/-- `handle_upload`. -/
def handleUpload [BlobBackend β] [BlobDatabase δ] [LfsVersionDatabase ν] (ext : Externals)
    (call : Call) (headers : HeaderMap) (body : RequestBody) (w : World β δ ν κ) : Response × World β δ ν κ :=
  match optionalAuthEvent ext headers with
  | .error e => (errorJson .unauthorized e.message, w)
  | .ok authEvent =>
    match uploadPreflight ext call authEvent w.server with
    | (.error response, server) => (response, { w with server := server })
    | (.ok pubkey, server) =>
      let w := { w with server := server }
      match readBodyLimited call.freePermits body server.bodyLimit (declaredBodyLen headers) with
      | .error response => (response, w)
      | .ok data =>
        if data.isEmpty then (errorJson .badRequest "empty body", w)
        else
          match uploadBind ext call authEvent server.baseUrl (sha256Hex data) w.seen with
          | (.error e, seen) => (errorJson .unauthorized e.message, { w with seen := seen })
          | (.ok (), seen) =>
            let (response, server) := uploadCommit ext call headers pubkey data server
            (response, { server := server, seen := seen })

/-! ### Refusals -/

variable {requirements : UploadRequirements} {response : Response} {s s' : ServerState β δ ν κ}

theorem status_of_checkMaxSize (requirements : UploadRequirements) (size : Nat) (text : String) :
    Checks.FailsWith (·.status ≠ .ok) (checkMaxSize requirements size text) :=
  .ifSome fun _ => .require (by simp [errorJson])

theorem status_of_checkQuotaStrict [BlobDatabase δ] (database : δ) (hash owner : String)
    (size : Nat) : Checks.FailsWith (·.status ≠ .ok) (checkQuotaStrict database hash owner size) := by
  intro response h
  unfold checkQuotaStrict at h
  split at h <;> cases h
  simp [errorJson]

theorem status_of_checkMime (requirements : UploadRequirements) (mime text : String) :
    Checks.FailsWith (·.status ≠ .ok) (checkMime requirements mime text) :=
  .require (by simp [errorJson])

/-- An upload that a check refuses is not answered with success. -/
theorem status_of_uploadChecks [BlobDatabase δ] (s : ServerState β δ ν κ) (pubkey : Option String)
    (hash : String) (data : Bytes) (contentType : String) :
    Checks.FailsWith (·.status ≠ .ok) (uploadChecks s pubkey hash data contentType) := by
  refine .bind (status_of_checkMaxSize _ _ _) fun _ => .bind ?_ fun _ => status_of_checkMime _ _ _
  exact .ifSome fun owner => status_of_checkQuotaStrict _ _ owner _

theorem status_of_readBodyLimited {freePermits limit : Nat} {body : RequestBody}
    {declaredLen : Option Nat}
    (h : readBodyLimited freePermits body limit declaredLen = .error response) :
    response.status ≠ .ok := by
  unfold readBodyLimited at h
  split at h
  · rename_i hreservation
    obtain rfl := Except.error.inj h
    unfold bodyReservation at hreservation
    dsimp only at hreservation
    split_ifs at hreservation <;> (cases hreservation; simp [errorJson])
  · unfold collectBody at h
    split_ifs at h <;> (cases h; simp [errorJson])

theorem data_of_readBodyLimited {freePermits limit : Nat} {body : RequestBody}
    {declaredLen : Option Nat} {data : Bytes}
    (h : readBodyLimited freePermits body limit declaredLen = .ok data) : data = body.data := by
  unfold readBodyLimited at h
  split at h
  · cases h
  · unfold collectBody at h
    split_ifs at h
    exact (Except.ok.inj h).symm

/-- The checks of a signed request change nothing but the rate limiter. -/
theorem signedPreflight_frame (ext : Externals) (call : Call) (endpoint : StoreEndpoint)
    (event : NostrEvent) (s : ServerState β δ ν κ) :
    ∃ limiter, (signedPreflight ext call endpoint event s).2 = { s with rateLimiter := limiter } := by
  obtain ⟨limiter, hframe⟩ := s.checkRate_frame event.pubkey call.clockMs
  unfold signedPreflight
  split
  · exact ⟨s.rateLimiter, rfl⟩
  · split
    · split
      all_goals
        rename_i hrate
        rw [hrate] at hframe
        exact ⟨limiter, hframe⟩
    · exact ⟨s.rateLimiter, rfl⟩

/-- Neither do those before the body. -/
theorem uploadPreflight_frame (ext : Externals) (call : Call) (authEvent : Option NostrEvent)
    (s : ServerState β δ ν κ) :
    ∃ limiter, (uploadPreflight ext call authEvent s).2 = { s with rateLimiter := limiter } := by
  unfold uploadPreflight
  split
  · obtain ⟨limiter, hframe⟩ := s.checkRate_frame "anonymous" call.clockMs
    split
    · exact ⟨s.rateLimiter, rfl⟩
    · split
      all_goals
        rename_i hrate
        rw [hrate] at hframe
        exact ⟨limiter, hframe⟩
  · rename_i event
    obtain ⟨limiter, hframe⟩ := signedPreflight_frame ext call uploadEndpoint event s
    split
    all_goals
      rename_i hsigned
      rw [hsigned] at hframe
      exact ⟨limiter, hframe⟩

/-- The key of an upload is the key of its event. -/
theorem pubkey_of_uploadPreflight {ext : Externals} {call : Call} {authEvent : Option NostrEvent}
    {s s' : ServerState β δ ν κ} {pubkey : Option String}
    (h : uploadPreflight ext call authEvent s = (.ok pubkey, s')) :
    pubkey = authEvent.map (·.pubkey) := by
  unfold uploadPreflight at h
  split at h
  · split at h
    · cases h
    · split at h
      · exact (Except.ok.inj (Prod.mk.inj h).1).symm
      · cases h
  · split at h
    · cases h
    · exact (Except.ok.inj (Prod.mk.inj h).1).symm

theorem status_of_signedPreflight {ext : Externals} {call : Call} {endpoint : StoreEndpoint}
    {event : NostrEvent} (h : signedPreflight ext call endpoint event s = (.error response, s')) :
    response.status ≠ .ok := by
  unfold signedPreflight at h
  split at h
  · cases h
    simp [errorJson]
  · split at h
    · split at h <;> cases h
      simp [errorJson]
    · cases h
      simp [errorJson]

theorem status_of_uploadPreflight {ext : Externals} {call : Call} {authEvent : Option NostrEvent}
    (h : uploadPreflight ext call authEvent s = (.error response, s')) : response.status ≠ .ok := by
  unfold uploadPreflight at h
  split at h
  · split at h
    · cases h
      simp [errorJson]
    · split at h <;> cases h
      simp [errorJson]
  · split at h
    case h_1 hsigned =>
      cases h
      exact status_of_signedPreflight hsigned
    case h_2 => cases h

/-! ### The effect on the blob store -/

section View

variable [BlobBackend β] [LawfulBlobBackend β] [LfsVersionDatabase ν] [LawfulLfsVersionDatabase ν]

variable {hash : String}

/-- A successful conditional write leaves the bytes of a taken hash alone. -/
theorem get_insertIfAbsent {backend backend' : β} {stored : Bytes} {baseUrl : String}
    {originalSize now : Nat}
    (h : insertIfAbsent backend stored hash originalSize baseUrl now = (.ok (), backend')) :
    BlobBackend.get backend' = if (BlobBackend.get backend hash).isSome then BlobBackend.get backend
      else Function.update (BlobBackend.get backend) hash (some stored) := by
  unfold insertIfAbsent at h
  rw [LawfulBlobBackend.existsBlob_eq] at h
  split at h
  case isTrue hstored =>
    cases h
    rw [if_pos hstored]
  case isFalse hstored =>
    rw [if_neg hstored]
    split at h
    case h_1 hinsert =>
      cases h
      exact LawfulBlobBackend.get_tryInsertWithHash hinsert
    case h_2 => exact nomatch (Prod.mk.inj h).1

theorem get_insertIfAbsent_error {backend backend' : β} {stored : Bytes} {baseUrl e : String}
    {originalSize now : Nat}
    (h : insertIfAbsent backend stored hash originalSize baseUrl now = (.error e, backend')) :
    BlobBackend.get backend' = BlobBackend.get backend := by
  unfold insertIfAbsent at h
  split at h
  · cases h
  · split at h
    case h_1 => exact nomatch (Prod.mk.inj h).1
    case h_2 hinsert =>
      cases h
      exact LawfulBlobBackend.get_tryInsertWithHash_error hinsert

omit [LawfulBlobBackend β] in
theorem nextVersion_eq {db : ν} (h : s.lfsVersionDb = some db) (repo path : String) :
    nextVersion (LfsVersionDatabase.getLatestVersion db repo path)
      = s.view.nextNumber repo path := by
  obtain ⟨latest, hlatest, hnumber⟩ :=
    LawfulLfsVersionDatabase.getLatestVersion_eq db repo path
  have hrecords : s.view.records = FallibleLfsVersionDatabase.records db := by
    simp [ServerState.view, Store.records, h]
  rw [hlatest, Store.nextNumber, hrecords, ← hnumber]
  cases latest <;> rfl

omit [BlobBackend β] [LawfulBlobBackend β] in
/-- No version has the number after the latest one. -/
theorem nextKey_free (db : ν) (repo path : String) :
    (repo, path, nextVersion (LfsVersionDatabase.getLatestVersion db repo path))
      ∉ (FallibleLfsVersionDatabase.records db).map (·.key) := by
  intro hmem
  obtain ⟨v, hv, hkey⟩ := List.mem_map.mp hmem
  obtain ⟨rfl, rfl, hnumber⟩ : v.repoId = repo ∧ v.path = path ∧ v.version
      = nextVersion (LfsVersionDatabase.getLatestVersion db repo path) := by
    simpa [LfsFileVersion.key] using hkey
  obtain ⟨latest, hlatest, hversion⟩ :=
    LawfulLfsVersionDatabase.getLatestVersion_eq db v.repoId v.path
  obtain ⟨greatest, hgreatest, hle⟩ := le_latestNumber hv
  rw [hgreatest, Option.map_eq_some_iff] at hversion
  obtain ⟨w, rfl, rfl⟩ := hversion
  rw [hlatest, nextVersion] at hnumber
  omega

theorem records_recordUploadVersion (db : ν) (ctx : LfsContext) (hash : String)
    (prepared : Prepared) (originalSize now : Nat) :
    FallibleLfsVersionDatabase.records (recordUploadVersion db ctx hash prepared originalSize now)
      = match ctx.recordKey with
        | some (repo, path) => FallibleLfsVersionDatabase.records db
            ++ [versionRecord repo path
              (nextVersion (LfsVersionDatabase.getLatestVersion db repo path)) hash prepared
              originalSize now]
        | none => FallibleLfsVersionDatabase.records db := by
  unfold recordUploadVersion
  cases hkey : ctx.recordKey with
  | none => rfl
  | some key =>
    obtain ⟨repo, path⟩ := key
    obtain ⟨db', hrecord⟩ := LawfulLfsVersionDatabase.recordVersion_eq db
      (versionRecord repo path (nextVersion (LfsVersionDatabase.getLatestVersion db repo path))
        hash prepared originalSize now) (nextKey_free db repo path)
    dsimp only
    rw [hrecord]
    exact FallibleLfsVersionDatabase.recordVersion_ok hrecord

/-- The store half of a commit is `Store.upload`. -/
theorem view_storeUpload {ext : Externals} {ctx : LfsContext} {data : Bytes}
    {insertNow recordNow : Nat}
    (h : storeUpload ext ctx (sha256Hex data) data insertNow recordNow s = (.ok (), s')) :
    s'.view = s.view.upload ext.codecs ctx data recordNow := by
  unfold storeUpload at h
  rw [ServerState.versionLookup_eq] at h
  generalize hprepared : prepareUpload ext.codecs (s.view.versions.map fun _ => s.view.lookup)
    (BlobBackend.get s.backend) ctx data = prepared at h
  dsimp only at h
  split at h
  case h_1 => exact nomatch (Prod.mk.inj h).1
  case h_2 backend hinsert =>
    cases h
    have hblobs := get_insertIfAbsent hinsert
    have hprepared' : prepareUpload ext.codecs (s.view.versions.map fun _ => s.view.lookup)
        s.view.blobs ctx data = prepared := hprepared
    cases hdb : s.lfsVersionDb with
    | none =>
      simp only [Store.upload, hprepared']
      cases hkey : ctx.recordKey <;>
        by_cases hstored : (BlobBackend.get s.backend (sha256Hex data)).isSome <;>
        simp_all [ServerState.view, Store.put, Store.record]
    | some db =>
      have hrecords := records_recordUploadVersion db ctx (sha256Hex data) prepared data.length
        recordNow
      simp only [nextVersion_eq hdb] at hrecords
      simp only [Store.upload, hprepared']
      cases hkey : ctx.recordKey <;>
        by_cases hstored : (BlobBackend.get s.backend (sha256Hex data)).isSome <;>
        simp_all [ServerState.view, Store.put, Store.record]

theorem view_storeUpload_error {ext : Externals} {ctx : LfsContext} {e : String} {data : Bytes}
    {insertNow recordNow : Nat}
    (h : storeUpload ext ctx hash data insertNow recordNow s = (.error e, s')) :
    s'.view = s.view := by
  unfold storeUpload at h
  dsimp only at h
  split at h
  case h_1 hinsert =>
    cases h
    simp [ServerState.view, get_insertIfAbsent_error hinsert]
  case h_2 => cases h

section

variable (ext : Externals) (call : Call)

/-- The commit either leaves the store alone and does not report success, or is `Store.upload`. -/
theorem view_uploadCommit [BlobDatabase δ] (headers : HeaderMap) (pubkey : Option String)
    (data : Bytes) (s : ServerState β δ ν κ) :
    ((uploadCommit ext call headers pubkey data s).2.view = s.view
        ∧ (uploadCommit ext call headers pubkey data s).1.status ≠ .ok)
      ∨ (uploadCommit ext call headers pubkey data s).2.view
        = s.view.upload ext.codecs (requestContext ext headers) data (call.clock 5) := by
  unfold uploadCommit
  dsimp only
  split
  case h_1 response hchecks => exact Or.inl ⟨rfl, status_of_uploadChecks _ _ _ _ _ hchecks⟩
  case h_2 =>
    split
    case h_1 e s' hstore =>
      exact Or.inl ⟨view_storeUpload_error hstore, by simp [errorJson]⟩
    case h_2 s' hstore =>
      have hview := view_storeUpload hstore
      refine Or.inr ?_
      split <;> exact hview

omit [LawfulBlobBackend β] in
theorem view_signedPreflight (endpoint : StoreEndpoint) (event : NostrEvent)
    (s : ServerState β δ ν κ) :
    (signedPreflight ext call endpoint event s).2.view = s.view := by
  obtain ⟨limiter, hframe⟩ := signedPreflight_frame ext call endpoint event s
  rw [hframe]
  rfl

/-- **The effect of `PUT /upload` on the blob store.**  Either it is none, and the answer is not
`200`, or it is one `Store.upload` of the request's body. -/
theorem view_handleUpload [BlobDatabase δ] (headers : HeaderMap) (body : RequestBody)
    (w : World β δ ν κ) :
    ((handleUpload ext call headers body w).2.server.view = w.server.view
        ∧ (handleUpload ext call headers body w).1.status ≠ .ok)
      ∨ (handleUpload ext call headers body w).2.server.view
        = w.server.view.upload ext.codecs (requestContext ext headers) body.data
          (call.clock 5) := by
  unfold handleUpload
  split
  · exact Or.inl ⟨rfl, by simp [errorJson]⟩
  · rename_i authEvent _
    have hview : (uploadPreflight ext call authEvent w.server).2.view = w.server.view := by
      obtain ⟨limiter, hframe⟩ := uploadPreflight_frame ext call authEvent w.server
      rw [hframe]
      rfl
    split
    case h_1 response server hpre =>
      rw [hpre] at hview
      exact Or.inl ⟨hview, status_of_uploadPreflight hpre⟩
    case h_2 pubkey server hpre =>
      rw [hpre] at hview
      dsimp only at hview ⊢
      split
      case h_1 response hbody => exact Or.inl ⟨hview, status_of_readBodyLimited hbody⟩
      case h_2 data hbody =>
        obtain rfl := data_of_readBodyLimited hbody
        split
        · exact Or.inl ⟨hview, by simp [errorJson]⟩
        · split
          · exact Or.inl ⟨hview, by simp [errorJson]⟩
          · have hcommit := view_uploadCommit ext call headers pubkey body.data server
            rwa [hview] at hcommit

end

end View

end BlossomRs.Server

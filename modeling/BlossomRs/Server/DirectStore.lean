import BlossomRs.Server.Upload

/-!
# Endpoints that store a body as it is

`PUT /mirror`, `PUT /media` and `POST /n96` check a signed request the way `PUT /upload` does, but
what they store goes to the backend unencoded and without a look at what is there.  On the blob
store each of them is `Store.put` of the content or nothing (`view_handleMirror`,
`view_handleMediaUpload`, `view_handleNip96Upload`).

Fetching a remote blob, media processing and the parsing of a mirror request are parameters.
-/

namespace BlossomRs.Server

open Protocol Storage Database Lfs

variable {β δ ν κ : Type}

/-- The quota check that refuses only when the quota is exceeded; other errors pass. -/
def checkQuotaLenient [BlobDatabase δ] (database : δ) (hash owner : String) (size : Nat)
    (text : Nat → Nat → Nat → String) : Except Response Unit :=
  match BlobDatabase.checkQuota database owner (additionalBytes database hash owner size) with
  | .error (.quotaExceeded used requested limit) =>
    .error (errorJson .insufficientStorage (text used requested limit))
  | _ => .ok ()

/-- Write a body under its own hash, replacing what is there, and record who stored it. -/
def insertWhole [BlobBackend β] [BlobDatabase δ] (now : Nat) (data : Bytes)
    (mimeType : BlobDescriptor → String) (pubkey : String) (phash : Option Nat)
    (respond : BlobDescriptor → Response) (s : ServerState β δ ν κ) :
    Response × ServerState β δ ν κ :=
  match BlobBackend.tryInsert s.backend data s.baseUrl now with
  | (.error e, backend) =>
    (errorJson .internalServerError ("storage write failed: " ++ e), { s with backend := backend })
  | (.ok descriptor, backend) =>
    match BlobDatabase.recordUpload s.database
        (uploadRecord descriptor (mimeType descriptor) (some pubkey) phash) with
    | (.error e, database) =>
      (errorJson .internalServerError ("metadata write failed: " ++ e.message),
        { s with backend := backend, database := database })
    | (.ok (), database) =>
      (respond descriptor, { s with backend := backend, database := database })

/-- Run a commit behind its checks. -/
def commitChecked (checks : Except Response Unit)
    (commit : ServerState β δ ν κ → Response × ServerState β δ ν κ) (s : ServerState β δ ν κ) :
    Response × ServerState β δ ν κ :=
  match checks with
  | .error response => (response, s)
  | .ok () => commit s

/-- Buffer a signed body and bind its event to the body's hash. -/
def boundBody (ext : Externals) (call : Call) (endpoint : StoreEndpoint) (headers : HeaderMap)
    (body : RequestBody) (event : NostrEvent) (baseUrl : String) (limit : Nat)
    (seen : ReplayCache) : Except Response Bytes × ReplayCache :=
  match readBodyLimited call.freePermits body limit (declaredBodyLen headers) with
  | .error response => (.error response, seen)
  | .ok data =>
    if data.isEmpty then (.error (errorJson .badRequest "empty body"), seen)
    else
      match verifyAuthEvent ext (call.clock 1) (call.clock 2) seen event "upload" baseUrl
          endpoint.path endpoint.method (some (sha256Hex data)) with
      | (.error e, seen) => (.error (errorJson .unauthorized e.message), seen)
      | (.ok (), seen) => (.ok data, seen)

/-! ### `POST /n96` -/

def nip96Endpoint : StoreEndpoint :=
  ⟨"/n96", "POST", .upload, "upload not allowed"⟩

/-- The checks of the commit, in this order. -/
def nip96Checks [BlobDatabase δ] (s : ServerState β δ ν κ) (pubkey contentType : String)
    (data : Bytes) : Except Response Unit := do
  checkMime s.requirements contentType "content type is not allowed"
  checkMaxSize s.requirements data.length "exceeds max size of "
  checkQuotaLenient s.database (sha256Hex data) pubkey data.length fun used requested limit =>
    "quota exceeded: " ++ toString used ++ " + " ++ toString requested ++ " > " ++ toString limit

/-- `Nip96UploadResponse` of a stored blob. -/
def nip96UploadResponse (baseUrl mimeType : String) (descriptor : BlobDescriptor) : Response where
  status := .ok
  body :=
    let blobUrl := baseUrl ++ "/" ++ descriptor.sha256
    let tags := [["url", descriptor.url.getD blobUrl], ["ox", descriptor.sha256, blobUrl],
      ["x", descriptor.sha256], ["size", toString descriptor.size], ["m", mimeType]]
    .json (.obj [("status", .str "success"), ("message", .str "Upload successful"),
      ("nip94_event", .obj [("tags", .arr (tags.map fun tag => .arr (tag.map .str))), ("content", .str "")])])

def nip96Commit [BlobBackend β] [BlobDatabase δ] (call : Call) (headers : HeaderMap)
    (pubkey : String) (data : Bytes) (s : ServerState β δ ν κ) : Response × ServerState β δ ν κ :=
  let contentType := (extractContentType headers).getD (detectMime data)
  commitChecked (nip96Checks s pubkey contentType data)
    (insertWhole (call.clock 3) data (fun _ => contentType) pubkey none
      (nip96UploadResponse s.baseUrl contentType)) s

/-- `handle_nip96_upload`. -/
def handleNip96Upload [BlobBackend β] [BlobDatabase δ] (ext : Externals) (call : Call)
    (headers : HeaderMap) (body : RequestBody) (w : World β δ ν κ) : Response × World β δ ν κ :=
  match extractAuthEvent ext.parser headers with
  | .error e => (errorJson .unauthorized e.message, w)
  | .ok event =>
    match signedPreflight ext call nip96Endpoint event w.server with
    | (.error response, server) => (response, { w with server := server })
    | (.ok (), server) =>
      match boundBody ext call nip96Endpoint headers body event server.baseUrl server.bodyLimit
          w.seen with
      | (.error response, seen) => (response, ⟨server, seen⟩)
      | (.ok data, seen) =>
        let (response, server) := nip96Commit call headers event.pubkey data server
        (response, ⟨server, seen⟩)

/-! ### `PUT /media` -/

/-- `MediaResult`, without the thumbnail, which is not used. -/
structure MediaResult where
  data : Bytes
  mimeType : String
  width : Option Nat
  height : Option Nat
  blurhash : Option String
  phash : Option Nat

inductive MediaError where
  | unsupportedType (detail : String)
  | sensitiveExif (detail : String)
  | processingFailed (detail : String)

def MediaError.message : MediaError → String
  | .unsupportedType detail => "unsupported media type: " ++ detail
  | .sensitiveExif detail => "sensitive EXIF data detected: " ++ detail
  | .processingFailed detail => "processing failed: " ++ detail

/-- How a processing task can end without a result. -/
inductive MediaProcessTaskError where
  | processing (error : MediaError)
  | worker (detail : String)
  | timedOut

/-- The media processor under its deadline, and the processing slots that are free. -/
structure MediaExternals where
  process : Bytes → String → Except MediaProcessTaskError MediaResult
  freeSlots : Nat

def mediaEndpoint : StoreEndpoint :=
  ⟨"/media", "PUT", .upload, "upload not allowed for this pubkey"⟩

def mediaErrorResponse : MediaProcessTaskError → Response
  | .processing error =>
    errorJson .unprocessableEntity ("media processing failed: " ++ error.message)
  | .worker detail => errorJson .internalServerError ("media worker failed: " ++ detail)
  | .timedOut => errorJson .requestTimeout "media processing timed out"

/-- Whether media are processed here, and now. -/
def mediaAvailable (media : MediaExternals) (s : ServerState β δ ν κ) : Except Response Unit := do
  Checks.require (s.mediaEnabled = true)
    (errorJson .notImplemented "media processing not enabled on this server")
  Checks.require (0 < media.freeSlots)
    (errorJson .serviceUnavailable "media processing capacity exhausted")

/-- Check the media type of a body and process it. -/
def mediaProcess (media : MediaExternals) (s : ServerState β δ ν κ) (data : Bytes) :
    Except Response MediaResult := do
  checkMime s.requirements (detectMime data) "content type is not allowed"
  match media.process data (detectMime data) with
  | .ok result => .ok result
  | .error e => .error (mediaErrorResponse e)

/-- The descriptor of a stored blob with what processing found out. -/
def mediaResponse (result : MediaResult) (descriptor : BlobDescriptor) : Response where
  status := .ok
  body := .json (.obj (descriptorFields descriptor
    ++ (result.blurhash.map fun text => ("blurhash", Json.str text)).toList
    ++ (result.width.map fun n => ("width", Json.num n)).toList
    ++ (result.height.map fun n => ("height", Json.num n)).toList
    ++ (result.phash.map fun n => ("phash", Json.num n)).toList))

def mediaCommit [BlobBackend β] [BlobDatabase δ] (call : Call) (pubkey : String)
    (result : MediaResult) (s : ServerState β δ ν κ) : Response × ServerState β δ ν κ :=
  commitChecked
    (checkQuotaStrict s.database (sha256Hex result.data) pubkey result.data.length)
    (insertWhole (call.clock 3) result.data (fun _ => result.mimeType) pubkey result.phash
      (mediaResponse result)) s

/-- `handle_media_upload`. -/
def handleMediaUpload [BlobBackend β] [BlobDatabase δ] (ext : Externals) (media : MediaExternals)
    (call : Call) (headers : HeaderMap) (body : RequestBody) (w : World β δ ν κ) :
    Response × World β δ ν κ :=
  match extractAuthEvent ext.parser headers with
  | .error e => (errorJson .unauthorized e.message, w)
  | .ok event =>
    match signedPreflight ext call mediaEndpoint event w.server with
    | (.error response, server) => (response, { w with server := server })
    | (.ok (), server) =>
      match mediaAvailable media server with
      | .error response => (response, { w with server := server })
      | .ok () =>
        match boundBody ext call mediaEndpoint headers body event server.baseUrl
            server.bodyLimit w.seen with
        | (.error response, seen) => (response, ⟨server, seen⟩)
        | (.ok data, seen) =>
          match mediaProcess media server data with
          | .error response => (response, ⟨server, seen⟩)
          | .ok result =>
            let (response, server) := mediaCommit call event.pubkey result server
            (response, ⟨server, seen⟩)

/-! ### `PUT /mirror` -/

/-- The parser of mirror requests, which yields the URL; `fetch_mirror_blob`; and the buffer permits
that are free when it is called. -/
structure MirrorExternals where
  parse : Bytes → Except String String
  fetch : String → Nat → Except String Bytes
  freePermits : Nat

def mirrorEndpoint : StoreEndpoint :=
  ⟨"/mirror", "PUT", .mirror, "mirror not allowed for this pubkey"⟩

/-- The most bytes a mirrored blob may have. -/
def maxMirrorSize (requirements : UploadRequirements) : Nat :=
  requirements.maxSize.getD (256 * 1024 * 1024)

/-- Reserve a buffer for the largest blob and fetch. -/
def mirrorFetch (mirror : MirrorExternals) (requirements : UploadRequirements) (url : String) :
    Except Response Bytes :=
  if maxBufferedBodyBytes < maxMirrorSize requirements then
    .error (errorJson .payloadTooLarge
      "configured mirror size exceeds the safe buffered ceiling")
  else if mirror.freePermits < bodyPermits (maxMirrorSize requirements) then
    .error (errorJson .serviceUnavailable "mirror fetch capacity exhausted")
  else
    match mirror.fetch url (maxMirrorSize requirements) with
    | .error e => .error (errorJson .badGateway e)
    | .ok data =>
      if data.isEmpty then .error (errorJson .badRequest "remote returned empty body")
      else .ok data

/-- The checks of the commit, in this order. -/
def mirrorChecks [BlobDatabase δ] (s : ServerState β δ ν κ) (pubkey : String) (data : Bytes) :
    Except Response Unit := do
  checkMime s.requirements (detectMime data) "mirrored content type is not allowed"
  checkMaxSize s.requirements data.length "mirrored blob exceeds max size of "
  checkQuotaLenient s.database (sha256Hex data) pubkey data.length fun used requested limit =>
    "quota exceeded: used " ++ toString used ++ " + requested " ++ toString requested
      ++ " > limit " ++ toString limit

def mirrorCommit [BlobBackend β] [BlobDatabase δ] (call : Call) (pubkey : String) (data : Bytes)
    (s : ServerState β δ ν κ) : Response × ServerState β δ ν κ :=
  commitChecked (mirrorChecks s pubkey data)
    (insertWhole (call.clock 3) data (fun descriptor => descriptor.contentType.getD octetStream)
      pubkey none descriptorResponse) s

/-- The request body of a mirror request and its URL. -/
def mirrorRequest (mirror : MirrorExternals) (call : Call) (headers : HeaderMap)
    (body : RequestBody) (bodyLimit : Nat) : Except Response String :=
  match readBodyLimited call.freePermits body (min bodyLimit (64 * 1024))
      (declaredBodyLen headers) with
  | .error response => .error response
  | .ok data =>
    match mirror.parse data with
    | .error e => .error (errorJson .badRequest ("invalid mirror request: " ++ e))
    | .ok url => .ok url

/-- The hash an event must carry: of the request body for HTTP auth events, of the URL otherwise. -/
def mirrorHash (event : NostrEvent) (data : Bytes) (url : String) : String :=
  if event.kind = 27235 then sha256Hex data else sha256Hex (RustStr.asBytes url)

/-- `handle_mirror`. -/
def handleMirror [BlobBackend β] [BlobDatabase δ] (ext : Externals) (mirror : MirrorExternals)
    (call : Call) (headers : HeaderMap) (body : RequestBody) (w : World β δ ν κ) :
    Response × World β δ ν κ :=
  match extractAuthEvent ext.parser headers with
  | .error e => (errorJson .unauthorized e.message, w)
  | .ok event =>
    match signedPreflight ext call mirrorEndpoint event w.server with
    | (.error response, server) => (response, { w with server := server })
    | (.ok (), server) =>
      match mirrorRequest mirror call headers body server.bodyLimit with
      | .error response => (response, { w with server := server })
      | .ok url =>
        match verifyAuthEvent ext (call.clock 1) (call.clock 2) w.seen event "upload"
            server.baseUrl "/mirror" "PUT" (some (mirrorHash event body.data url)) with
        | (.error e, seen) => (errorJson .unauthorized e.message, ⟨server, seen⟩)
        | (.ok (), seen) =>
          match mirrorFetch mirror server.requirements url with
          | .error response => (response, ⟨server, seen⟩)
          | .ok data =>
            let (response, server) := mirrorCommit call event.pubkey data server
            (response, ⟨server, seen⟩)

/-! ### Refusals -/

variable {response : Response} {s : ServerState β δ ν κ} {data : Bytes} {call : Call}
    {headers : HeaderMap} {body : RequestBody} {media : MediaExternals} {mirror : MirrorExternals}
    {requirements : UploadRequirements}

theorem status_of_checkQuotaLenient [BlobDatabase δ] (database : δ) (hash owner : String)
    (size : Nat) (text : Nat → Nat → Nat → String) :
    Checks.FailsWith (·.status ≠ .ok) (checkQuotaLenient database hash owner size text) := by
  intro response h
  unfold checkQuotaLenient at h
  split at h <;> cases h
  simp [errorJson]

theorem status_of_nip96Checks [BlobDatabase δ] (s : ServerState β δ ν κ)
    (pubkey contentType : String) (data : Bytes) :
    Checks.FailsWith (·.status ≠ .ok) (nip96Checks s pubkey contentType data) :=
  .bind (status_of_checkMime _ _ _) fun _ => .bind (status_of_checkMaxSize _ _ _) fun _ =>
    status_of_checkQuotaLenient _ _ _ _ _

theorem status_of_mirrorChecks [BlobDatabase δ] (s : ServerState β δ ν κ) (pubkey : String)
    (data : Bytes) : Checks.FailsWith (·.status ≠ .ok) (mirrorChecks s pubkey data) :=
  .bind (status_of_checkMime _ _ _) fun _ => .bind (status_of_checkMaxSize _ _ _) fun _ =>
    status_of_checkQuotaLenient _ _ _ _ _

theorem status_of_boundBody {ext : Externals} {endpoint : StoreEndpoint} {event : NostrEvent}
    {baseUrl : String} {limit : Nat} {seen seen' : ReplayCache}
    (h : boundBody ext call endpoint headers body event baseUrl limit seen
      = (.error response, seen')) : response.status ≠ .ok := by
  unfold boundBody at h
  split at h
  case h_1 hread =>
    cases h
    exact status_of_readBodyLimited hread
  case h_2 =>
    split at h
    · cases h
      simp [errorJson]
    · split at h <;> cases h
      simp [errorJson]

/-- A body that was bound is the one the request came with. -/
theorem data_of_boundBody {ext : Externals} {endpoint : StoreEndpoint} {event : NostrEvent}
    {baseUrl : String} {limit : Nat} {seen seen' : ReplayCache}
    (h : boundBody ext call endpoint headers body event baseUrl limit seen = (.ok data, seen')) :
    data = body.data := by
  unfold boundBody at h
  split at h
  case h_1 => cases h
  case h_2 hread =>
    split at h
    · cases h
    · split at h <;> cases h
      exact data_of_readBodyLimited hread

theorem status_of_mediaAvailable (media : MediaExternals) (s : ServerState β δ ν κ) :
    Checks.FailsWith (·.status ≠ .ok) (mediaAvailable media s) :=
  .bind (.require (by simp [errorJson])) fun _ => .require (by simp [errorJson])

theorem status_of_mediaProcess (media : MediaExternals) (s : ServerState β δ ν κ) (data : Bytes) :
    Checks.FailsWith (·.status ≠ .ok) (mediaProcess media s data) := by
  refine .bind (status_of_checkMime _ _ _) fun _ response h => ?_
  split at h <;> cases h
  rename_i e _
  cases e <;> simp [mediaErrorResponse, errorJson]

theorem status_of_mirrorRequest {bodyLimit : Nat}
    (h : mirrorRequest mirror call headers body bodyLimit = .error response) :
    response.status ≠ .ok := by
  unfold mirrorRequest at h
  split at h
  case h_1 hread =>
    cases h
    exact status_of_readBodyLimited hread
  case h_2 =>
    split at h <;> cases h
    simp [errorJson]

theorem status_of_mirrorFetch {url : String}
    (h : mirrorFetch mirror requirements url = .error response) : response.status ≠ .ok := by
  unfold mirrorFetch at h
  split_ifs at h
  · cases h
    simp [errorJson]
  · cases h
    simp [errorJson]
  · split at h
    · cases h
      simp [errorJson]
    · split at h <;> cases h
      simp [errorJson]

/-- The checks of a signed request do not change the configuration. -/
theorem requirements_signedPreflight (ext : Externals) (call : Call) (endpoint : StoreEndpoint)
    (event : NostrEvent) (s : ServerState β δ ν κ) :
    (signedPreflight ext call endpoint event s).2.requirements = s.requirements := by
  obtain ⟨limiter, hframe⟩ := signedPreflight_frame ext call endpoint event s
  rw [hframe]

/-! ### The effect on the blob store -/

/-- What `PUT /media` stores of a body. -/
def mediaContent (media : MediaExternals) (body : Bytes) : Option Bytes :=
  (media.process body (detectMime body)).toOption.map (·.data)

/-- What `PUT /mirror` stores for a request body. -/
def mirrorContent (mirror : MirrorExternals) (requirements : UploadRequirements) (body : Bytes) :
    Option Bytes :=
  (mirror.parse body).toOption.bind fun url =>
    (mirror.fetch url (maxMirrorSize requirements)).toOption

theorem mediaContent_eq {result : MediaResult} (h : mediaProcess media s data = .ok result) :
    mediaContent media data = some result.data := by
  obtain ⟨-, -, hprocess⟩ := Checks.bind_eq_ok.mp h
  split at hprocess
  · rename_i found hfound
    cases hprocess
    simp [mediaContent, hfound, Except.toOption]
  · cases hprocess

theorem mirrorContent_eq {bodyLimit : Nat} {url : String}
    (hrequest : mirrorRequest mirror call headers body bodyLimit = .ok url)
    (hfetch : mirrorFetch mirror requirements url = .ok data) :
    mirrorContent mirror requirements body.data = some data := by
  have hparse : mirror.parse body.data = .ok url := by
    unfold mirrorRequest at hrequest
    split at hrequest
    · cases hrequest
    · rename_i bytes hread
      obtain rfl := data_of_readBodyLimited hread
      split at hrequest <;> cases hrequest
      assumption
  have hfetched : mirror.fetch url (maxMirrorSize requirements) = .ok data := by
    unfold mirrorFetch at hfetch
    split_ifs at hfetch
    split at hfetch
    · cases hfetch
    · split at hfetch <;> cases hfetch
      assumption
  simp [mirrorContent, hparse, hfetched, Except.toOption]

section View

variable [BlobBackend β] [LawfulBlobBackend β] [BlobDatabase δ] [LfsVersionDatabase ν]
  [LawfulLfsVersionDatabase ν]

/-- Nothing was stored and the answer is not `200`, or the content was stored as it is. -/
def Puts (before after : Store) (response : Response) (content : Option Bytes) : Prop :=
  (after = before ∧ response.status ≠ .ok)
    ∨ ∃ data, content = some data ∧ after = before.put (sha256Hex data) data

theorem puts_insertWhole (now : Nat) (data : Bytes) (mimeType : BlobDescriptor → String)
    (pubkey : String) (phash : Option Nat) (respond : BlobDescriptor → Response)
    (s : ServerState β δ ν κ) :
    Puts s.view (insertWhole now data mimeType pubkey phash respond s).2.view
      (insertWhole now data mimeType pubkey phash respond s).1 (some data) := by
  unfold insertWhole
  split
  case h_1 e backend hinsert =>
    refine Or.inl ⟨?_, by simp [errorJson]⟩
    simp [ServerState.view, LawfulBlobBackend.get_tryInsert_error hinsert]
  case h_2 descriptor backend hinsert =>
    obtain ⟨-, hget⟩ := LawfulBlobBackend.get_tryInsert hinsert
    refine Or.inr ⟨data, rfl, ?_⟩
    split <;> simp [ServerState.view, Store.put, hget]

omit [LawfulBlobBackend β] [BlobDatabase δ] in
theorem puts_commitChecked {checks : Except Response Unit}
    {commit : ServerState β δ ν κ → Response × ServerState β δ ν κ} {s : ServerState β δ ν κ}
    {content : Option Bytes}
    (hchecks : Checks.FailsWith (·.status ≠ .ok) checks)
    (hcommit : Puts s.view (commit s).2.view (commit s).1 content) :
    Puts s.view (commitChecked checks commit s).2.view (commitChecked checks commit s).1
      content := by
  unfold commitChecked
  split
  · exact Or.inl ⟨rfl, hchecks rfl⟩
  · exact hcommit

/-- **The effect of `POST /n96`.** -/
theorem view_handleNip96Upload (ext : Externals) (call : Call) (headers : HeaderMap)
    (body : RequestBody) (w : World β δ ν κ) :
    Puts w.server.view (handleNip96Upload ext call headers body w).2.server.view
      (handleNip96Upload ext call headers body w).1 (some body.data) := by
  unfold handleNip96Upload
  split
  · exact Or.inl ⟨rfl, by simp [errorJson]⟩
  · rename_i event _
    have hview := view_signedPreflight ext call nip96Endpoint event w.server
    split
    case h_1 hpre =>
      rw [hpre] at hview
      exact Or.inl ⟨hview, status_of_signedPreflight hpre⟩
    case h_2 server hpre =>
      rw [hpre] at hview
      split
      case h_1 hbody => exact Or.inl ⟨hview, status_of_boundBody hbody⟩
      case h_2 data seen hbody =>
        obtain rfl := data_of_boundBody hbody
        rw [← hview]
        exact puts_commitChecked (status_of_nip96Checks _ _ _ _) (puts_insertWhole _ _ _ _ _ _ _)

/-- **The effect of `PUT /media`.** -/
theorem view_handleMediaUpload (ext : Externals) (media : MediaExternals) (call : Call)
    (headers : HeaderMap) (body : RequestBody) (w : World β δ ν κ) :
    Puts w.server.view (handleMediaUpload ext media call headers body w).2.server.view
      (handleMediaUpload ext media call headers body w).1 (mediaContent media body.data) := by
  unfold handleMediaUpload
  split
  · exact Or.inl ⟨rfl, by simp [errorJson]⟩
  · rename_i event _
    have hview := view_signedPreflight ext call mediaEndpoint event w.server
    split
    case h_1 hpre =>
      rw [hpre] at hview
      exact Or.inl ⟨hview, status_of_signedPreflight hpre⟩
    case h_2 server hpre =>
      rw [hpre] at hview
      split
      case h_1 havailable => exact Or.inl ⟨hview, status_of_mediaAvailable _ _ havailable⟩
      case h_2 =>
        split
        case h_1 hbody => exact Or.inl ⟨hview, status_of_boundBody hbody⟩
        case h_2 data seen hbody =>
          obtain rfl := data_of_boundBody hbody
          split
          case h_1 hprocess => exact Or.inl ⟨hview, status_of_mediaProcess _ _ _ hprocess⟩
          case h_2 result hprocess =>
            rw [← hview, mediaContent_eq hprocess]
            exact puts_commitChecked (status_of_checkQuotaStrict _ _ _ _)
              (puts_insertWhole _ _ _ _ _ _ _)

/-- **The effect of `PUT /mirror`.** -/
theorem view_handleMirror (ext : Externals) (mirror : MirrorExternals) (call : Call)
    (headers : HeaderMap) (body : RequestBody) (w : World β δ ν κ) :
    Puts w.server.view (handleMirror ext mirror call headers body w).2.server.view
      (handleMirror ext mirror call headers body w).1
      (mirrorContent mirror w.server.requirements body.data) := by
  unfold handleMirror
  split
  · exact Or.inl ⟨rfl, by simp [errorJson]⟩
  · rename_i event _
    have hview := view_signedPreflight ext call mirrorEndpoint event w.server
    have hrequirements := requirements_signedPreflight ext call mirrorEndpoint event w.server
    split
    case h_1 hpre =>
      rw [hpre] at hview
      exact Or.inl ⟨hview, status_of_signedPreflight hpre⟩
    case h_2 server hpre =>
      rw [hpre] at hview hrequirements
      dsimp only at hview hrequirements
      split
      case h_1 hrequest => exact Or.inl ⟨hview, status_of_mirrorRequest hrequest⟩
      case h_2 url hrequest =>
        split
        · exact Or.inl ⟨hview, by simp [errorJson]⟩
        · split
          case h_1 hfetch => exact Or.inl ⟨hview, status_of_mirrorFetch hfetch⟩
          case h_2 data hfetch =>
            rw [← hview, ← hrequirements, mirrorContent_eq hrequest hfetch]
            exact puts_commitChecked (status_of_mirrorChecks _ _ _)
              (puts_insertWhole _ _ _ _ _ _ _)

end View

end BlossomRs.Server

import BlossomRs.Server.DirectStore

/-!
# Uploads in stretches

The endpoints that store a blob let go of the lock while they read a body, fetch from elsewhere or
process media, and take it again to go on.  `StoringRequest.arrive` is what a request does up to its
first wait, `Flight.advance` what it does from one wait to the next.

When nothing comes between the stretches of a request, they add up to its handler (`settle_arrive`).
-/

namespace BlossomRs.Server

open Protocol Storage Database Access Lfs

variable {β δ ν κ : Type}

/-- A request that stores a blob, with what the environment supplies to it. -/
inductive StoringRequest where
  | upload (call : Call) (headers : HeaderMap) (body : RequestBody)
  | nip96 (call : Call) (headers : HeaderMap) (body : RequestBody)
  | media (processor : MediaExternals) (call : Call) (headers : HeaderMap) (body : RequestBody)
  | mirror (remote : MirrorExternals) (call : Call) (headers : HeaderMap) (body : RequestBody)

/-- The handler of a request. -/
def StoringRequest.handle [BlobBackend β] [BlobDatabase δ] [LfsVersionDatabase ν] (ext : Externals) :
    StoringRequest → World β δ ν κ → Response × World β δ ν κ
  | .upload call headers body => handleUpload ext call headers body
  | .nip96 call headers body => handleNip96Upload ext call headers body
  | .media processor call headers body => handleMediaUpload ext processor call headers body
  | .mirror remote call headers body => handleMirror ext remote call headers body

/-- A request that waits for the lock: what it does next, with what it has found out so far. -/
inductive Flight where
  | uploadBind (call : Call) (headers : HeaderMap) (authEvent : Option NostrEvent) (data : Bytes)
  | uploadCommit (call : Call) (headers : HeaderMap) (pubkey : Option String) (data : Bytes)
  | nip96Bind (call : Call) (headers : HeaderMap) (event : NostrEvent) (data : Bytes)
  | nip96Commit (call : Call) (headers : HeaderMap) (pubkey : String) (data : Bytes)
  | mediaBind (processor : MediaExternals) (call : Call) (event : NostrEvent) (data : Bytes)
  | mediaProcess (processor : MediaExternals) (call : Call) (pubkey : String) (data : Bytes)
  | mediaCommit (call : Call) (pubkey : String) (result : MediaResult)
  | mirrorBind (remote : MirrorExternals) (call : Call) (event : NostrEvent) (data : Bytes)
      (url : String)
  | mirrorFetch (remote : MirrorExternals) (call : Call) (pubkey url : String)
  | mirrorCommit (call : Call) (pubkey : String) (data : Bytes)

/-- The key a request is made for, if it is signed, and what the key had to be allowed to do. -/
def Flight.principal : Flight → Option (String × Action)
  | .uploadBind _ _ authEvent _ => authEvent.map fun event => (event.pubkey, .upload)
  | .uploadCommit _ _ pubkey _ => pubkey.map fun pubkey => (pubkey, .upload)
  | .nip96Bind _ _ event _ => some (event.pubkey, .upload)
  | .nip96Commit _ _ pubkey _ => some (pubkey, .upload)
  | .mediaBind _ _ event _ => some (event.pubkey, .upload)
  | .mediaProcess _ _ pubkey _ => some (pubkey, .upload)
  | .mediaCommit _ pubkey _ => some (pubkey, .upload)
  | .mirrorBind _ _ event _ _ => some (event.pubkey, .mirror)
  | .mirrorFetch _ _ pubkey _ => some (pubkey, .mirror)
  | .mirrorCommit _ pubkey _ => some (pubkey, .mirror)

/-- How a stretch ends. -/
inductive Progress where
  | waits (flight : Flight)
  | answered (response : Response)

/-- Buffer a body that must not be empty. -/
def bufferBody (call : Call) (headers : HeaderMap) (body : RequestBody) (limit : Nat) :
    Except Response Bytes :=
  match readBodyLimited call.freePermits body limit (declaredBodyLen headers) with
  | .error response => .error response
  | .ok data => if data.isEmpty then .error (errorJson .badRequest "empty body") else .ok data

/-- Check a request and receive the rest of it. -/
def arriveAfter (preflight : Except Response Unit × ServerState β δ ν κ)
    (receive : ServerState β δ ν κ → Except Response Flight) (w : World β δ ν κ) :
    Progress × World β δ ν κ :=
  match preflight with
  | (.error response, server) => (.answered response, { w with server := server })
  | (.ok (), server) =>
    match receive server with
    | .error response => (.answered response, { w with server := server })
    | .ok flight => (.waits flight, { w with server := server })

/-- Check a request that must be signed and receive the rest of it. -/
def arriveSigned (ext : Externals) (call : Call) (endpoint : StoreEndpoint) (headers : HeaderMap)
    (receive : NostrEvent → ServerState β δ ν κ → Except Response Flight) (w : World β δ ν κ) :
    Progress × World β δ ν κ :=
  match extractAuthEvent ext.parser headers with
  | .error e => (.answered (errorJson .unauthorized e.message), w)
  | .ok event =>
    arriveAfter (signedPreflight ext call endpoint event w.server) (receive event) w

/-- What a request does up to its first wait after it was checked. -/
def StoringRequest.arrive (ext : Externals) (request : StoringRequest) (w : World β δ ν κ) :
    Progress × World β δ ν κ :=
  match request with
  | .upload call headers body =>
    match optionalAuthEvent ext headers with
    | .error e => (.answered (errorJson .unauthorized e.message), w)
    | .ok authEvent =>
      let (checked, server) := uploadPreflight ext call authEvent w.server
      arriveAfter (checked.map fun _ => (), server)
        (fun s => (bufferBody call headers body s.bodyLimit).map
          (.uploadBind call headers authEvent)) w
  | .nip96 call headers body =>
    arriveSigned ext call nip96Endpoint headers
      (fun event s => (bufferBody call headers body s.bodyLimit).map
        (.nip96Bind call headers event)) w
  | .media processor call headers body =>
    arriveSigned ext call mediaEndpoint headers
      (fun event s => do
        mediaAvailable processor s
        (bufferBody call headers body s.bodyLimit).map (.mediaBind processor call event)) w
  | .mirror remote call headers body =>
    arriveSigned ext call mirrorEndpoint headers
      (fun event s => (mirrorRequest remote call headers body s.bodyLimit).map
        (.mirrorBind remote call event body.data)) w

/-- Bind an event to a hash, use it up and go on. -/
def bindSigned (ext : Externals) (call : Call) (endpoint : StoreEndpoint) (event : NostrEvent)
    (hash : String) (next : Flight) (w : World β δ ν κ) : Progress × World β δ ν κ :=
  match verifyAuthEvent ext (call.clock 1) (call.clock 2) w.seen event "upload" w.server.baseUrl
      endpoint.path endpoint.method (some hash) with
  | (.error e, seen) =>
    (.answered (errorJson .unauthorized e.message), { w with seen := seen })
  | (.ok (), seen) => (.waits next, { w with seen := seen })

/-- Answer with a commit. -/
def commitFlight (result : Response × ServerState β δ ν κ) (w : World β δ ν κ) :
    Progress × World β δ ν κ :=
  (.answered result.1, { w with server := result.2 })

/-- What a request does from one wait for the lock to the next. -/
def Flight.advance [BlobBackend β] [BlobDatabase δ] [LfsVersionDatabase ν] (ext : Externals)
    (flight : Flight) (w : World β δ ν κ) : Progress × World β δ ν κ :=
  match flight with
  | .uploadBind call headers none data => (.waits (.uploadCommit call headers none data), w)
  | .uploadBind call headers (some event) data =>
    bindSigned ext call uploadEndpoint event (sha256Hex data)
      (.uploadCommit call headers (some event.pubkey) data) w
  | .uploadCommit call headers pubkey data =>
    commitFlight (Server.uploadCommit ext call headers pubkey data w.server) w
  | .nip96Bind call headers event data =>
    bindSigned ext call nip96Endpoint event (sha256Hex data)
      (.nip96Commit call headers event.pubkey data) w
  | .nip96Commit call headers pubkey data =>
    commitFlight (Server.nip96Commit call headers pubkey data w.server) w
  | .mediaBind processor call event data =>
    bindSigned ext call mediaEndpoint event (sha256Hex data)
      (.mediaProcess processor call event.pubkey data) w
  | .mediaProcess processor call pubkey data =>
    match Server.mediaProcess processor w.server data with
    | .error response => (.answered response, w)
    | .ok result => (.waits (.mediaCommit call pubkey result), w)
  | .mediaCommit call pubkey result =>
    commitFlight (Server.mediaCommit call pubkey result w.server) w
  | .mirrorBind remote call event data url =>
    bindSigned ext call mirrorEndpoint event (mirrorHash event data url)
      (.mirrorFetch remote call event.pubkey url) w
  | .mirrorFetch remote call pubkey url =>
    match Server.mirrorFetch remote w.server.requirements url with
    | .error response => (.answered response, w)
    | .ok data => (.waits (.mirrorCommit call pubkey data), w)
  | .mirrorCommit call pubkey data =>
    commitFlight (Server.mirrorCommit call pubkey data w.server) w

/-- A signed upload that is let through waits to be bound. -/
theorem arrive_upload {ext : Externals} {call : Call} {headers : HeaderMap} {body : RequestBody}
    {event : NostrEvent} {data : Bytes} {w : World β δ ν κ}
    (hevent : extractAuthEvent ext.parser headers = .ok event)
    (hpre : signedPreflight ext call uploadEndpoint event w.server = (.ok (), w.server))
    (hbody : readBodyLimited call.freePermits body w.server.bodyLimit (declaredBodyLen headers)
      = .ok data)
    (hdata : data.isEmpty = false) :
    (StoringRequest.upload call headers body).arrive ext w
      = (.waits (.uploadBind call headers (some event) data), w) := by
  have hauth : optionalAuthEvent ext headers = .ok (some event) := by
    simp [optionalAuthEvent, authorization_of_extractAuthEvent hevent, hevent, Except.map]
  simp only [StoringRequest.arrive, hauth, uploadPreflight, hpre, arriveAfter, bufferBody, hbody,
    hdata, Bool.false_eq_true, if_false, Except.map]

/-! ### One request alone -/

/-- Go on with a request for so many stretches, with nothing in between. -/
def settle [BlobBackend β] [BlobDatabase δ] [LfsVersionDatabase ν] (ext : Externals) :
    Nat → Progress × World β δ ν κ → Progress × World β δ ν κ
  | 0, result => result
  | _ + 1, (.answered response, w) => (.answered response, w)
  | n + 1, (.waits flight, w) => settle ext n (flight.advance ext w)

section Alone

variable [BlobBackend β] [BlobDatabase δ] [LfsVersionDatabase ν] {ext : Externals}

@[simp] theorem settle_waits (n : Nat) (flight : Flight) (w : World β δ ν κ) :
    settle ext (n + 1) (.waits flight, w) = settle ext n (flight.advance ext w) :=
  rfl

/-- A request alone is answered as its handler answers. -/
def AddsUp (ext : Externals) (request : StoringRequest) (w : World β δ ν κ) : Prop :=
  settle ext 3 (request.arrive ext w)
    = (.answered (request.handle ext w).1, (request.handle ext w).2)

section

variable (call : Call) (headers : HeaderMap) (body : RequestBody) (w : World β δ ν κ)

theorem addsUp_upload : AddsUp ext (.upload call headers body) w := by
  simp only [AddsUp, StoringRequest.arrive, StoringRequest.handle, handleUpload]
  rcases optionalAuthEvent ext headers with e | authEvent
  · rfl
  dsimp only
  rcases hpre : uploadPreflight ext call authEvent w.server with ⟨response | pubkey, server⟩
  · rfl
  obtain rfl := pubkey_of_uploadPreflight hpre
  simp only [arriveAfter, bufferBody, Except.map]
  rcases readBodyLimited call.freePermits body server.bodyLimit (declaredBodyLen headers) with
    response | data
  · rfl
  dsimp only
  rcases data.isEmpty with _ | _
  · cases authEvent with
    | none => rfl
    | some event =>
      simp only [settle_waits, Flight.advance, bindSigned, uploadBind, uploadEndpoint,
        Bool.false_eq_true, if_false]
      rcases verifyAuthEvent ext (call.clock 1) (call.clock 2) w.seen event "upload"
        server.baseUrl "/upload" "PUT" (some (sha256Hex data)) with ⟨e | _, seen⟩
      · rfl
      · rfl
  · rfl

theorem addsUp_nip96 : AddsUp ext (.nip96 call headers body) w := by
  simp only [AddsUp, StoringRequest.arrive, StoringRequest.handle, handleNip96Upload, arriveSigned,
    boundBody, bufferBody]
  rcases extractAuthEvent ext.parser headers with e | event
  · rfl
  dsimp only
  rcases signedPreflight ext call nip96Endpoint event w.server with ⟨response | _, server⟩
  · rfl
  simp only [arriveAfter, Except.map]
  rcases readBodyLimited call.freePermits body server.bodyLimit (declaredBodyLen headers) with
    response | data
  · rfl
  dsimp only
  rcases data.isEmpty with _ | _
  · simp only [settle_waits, Flight.advance, bindSigned, Bool.false_eq_true, if_false]
    rcases verifyAuthEvent ext (call.clock 1) (call.clock 2) w.seen event "upload"
      server.baseUrl nip96Endpoint.path nip96Endpoint.method (some (sha256Hex data)) with
      ⟨e | _, seen⟩
    · rfl
    · rfl
  · rfl

end

theorem addsUp_media (processor : MediaExternals) (call : Call) (headers : HeaderMap)
    (body : RequestBody) (w : World β δ ν κ) :
    AddsUp ext (.media processor call headers body) w := by
  simp only [AddsUp, StoringRequest.arrive, StoringRequest.handle, handleMediaUpload, arriveSigned,
    boundBody, bufferBody]
  rcases extractAuthEvent ext.parser headers with e | event
  · rfl
  dsimp only
  rcases signedPreflight ext call mediaEndpoint event w.server with ⟨response | _, server⟩
  · rfl
  simp only [arriveAfter]
  rcases mediaAvailable processor server with response | _
  · rfl
  simp only [Checks.ok_bind, Except.map]
  rcases readBodyLimited call.freePermits body server.bodyLimit (declaredBodyLen headers) with
    response | data
  · rfl
  dsimp only
  rcases data.isEmpty with _ | _
  · simp only [settle_waits, Flight.advance, bindSigned, Bool.false_eq_true, if_false]
    rcases verifyAuthEvent ext (call.clock 1) (call.clock 2) w.seen event "upload"
      server.baseUrl mediaEndpoint.path mediaEndpoint.method (some (sha256Hex data)) with
      ⟨e | _, seen⟩
    · rfl
    · simp only [settle_waits, Flight.advance]
      rcases Server.mediaProcess processor server data with response | result
      · rfl
      · rfl
  · rfl

theorem addsUp_mirror (remote : MirrorExternals) (call : Call) (headers : HeaderMap)
    (body : RequestBody) (w : World β δ ν κ) :
    AddsUp ext (.mirror remote call headers body) w := by
  simp only [AddsUp, StoringRequest.arrive, StoringRequest.handle, handleMirror, arriveSigned]
  rcases extractAuthEvent ext.parser headers with e | event
  · rfl
  dsimp only
  rcases signedPreflight ext call mirrorEndpoint event w.server with ⟨response | _, server⟩
  · rfl
  simp only [arriveAfter, Except.map]
  rcases mirrorRequest remote call headers body server.bodyLimit with response | url
  · rfl
  simp only [settle_waits, Flight.advance, bindSigned, mirrorEndpoint]
  rcases verifyAuthEvent ext (call.clock 1) (call.clock 2) w.seen event "upload" server.baseUrl
    "/mirror" "PUT" (some (mirrorHash event body.data url)) with ⟨e | _, seen⟩
  · rfl
  simp only [settle_waits, Flight.advance]
  rcases Server.mirrorFetch remote server.requirements url with response | data
  · rfl
  · rfl

/-- **The stretches of a request add up to its handler.** -/
theorem settle_arrive (request : StoringRequest) (w : World β δ ν κ) :
    settle ext 3 (request.arrive ext w)
      = (.answered (request.handle ext w).1, (request.handle ext w).2) := by
  cases request with
  | upload call headers body => exact addsUp_upload call headers body w
  | nip96 call headers body => exact addsUp_nip96 call headers body w
  | media processor call headers body => exact addsUp_media processor call headers body w
  | mirror remote call headers body => exact addsUp_mirror remote call headers body w

end Alone

end BlossomRs.Server

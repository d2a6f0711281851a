import BlossomRs.Transport.Handlers
import BlossomRs.Transport.ReplayCache

/-!
# Streams side by side

A stream checks the event of its request when the request line has arrived, and uses the event up
later: it waits for the lock of the shared state in between, more than once.  `advance` is one such
stretch of a stream.  A run is any interleaving of the stretches of any number of streams, each at its
own time; `streamStep` is one event of it.
-/

namespace BlossomRs.Transport

open Protocol Auth Storage Database Lfs Locks Server

variable {β δ ν κ : Type}

/-! ### Admission -/

/-- Ask the rate limiter for a principal. -/
def checkRateLimit (principal : String) (nowMs : Nat) (s : ServerState β δ ν κ) :
    Except Response Unit × ServerState β δ ν κ :=
  match s.checkRate principal nowMs with
  | (true, s) => (.ok (), s)
  | (false, s) => (.error (.failure .error "rate limit exceeded"), s)

/-- Go on to the rate limiter after checks that only read. -/
def thenRateLimit (checks : Except Response Unit) (principal : String) (nowMs : Nat)
    (s : ServerState β δ ν κ) : Except Response Unit × ServerState β δ ν κ :=
  match checks with
  | .error response => (.error response, s)
  | .ok () => checkRateLimit principal nowMs s

def principalOf (auth : Option VerifiedAuth) : String :=
  (auth.map (·.pubkey)).getD "anonymous"

/-- `preflight_upload`. -/
def preflightUpload [BlobDatabase δ] (req : Request) (auth : Option VerifiedAuth) (nowMs : Nat)
    (s : ServerState β δ ν κ) : Except Response Unit × ServerState β δ ν κ :=
  let checks : Except Response Unit := do
    Checks.require (s.requirements.requireAuth = false ∨ auth.isSome)
      (.failure .unauthorized "auth required for upload")
    Checks.require (s.isAllowed (principalOf auth) .upload = true)
      (.failure .forbidden "upload not allowed for this pubkey")
    checkUploadQuota s.database req.sha256 (principalOf auth) req.bodyLen.toNat
  thenRateLimit checks (principalOf auth) nowMs s

/-- Who may change what, before the event is used up. -/
def mutationAllowed [BlobDatabase δ] (req : Request) (pubkey : String) (s : ServerState β δ ν κ) :
    Bool :=
  match req.op with
  | .delete =>
    s.role pubkey != .denied
      && (s.role pubkey == .admin || isOwner s.database req.sha256 pubkey)
  | .lockCreate | .lockDelete | .lockVerify => s.isAllowed pubkey .lock
  | _ => true

/-- Whether the lock to be removed, if it is there, may be removed by the key. -/
def unlockAllowed [LockDatabase κ] (req : Request) (pubkey : String) (s : ServerState β δ ν κ) :
    Bool :=
  match req.op, s.lockDb with
  | .lockDelete, some db =>
    match LockDatabase.getLock db req.repoId req.lockId with
    | .ok record => record.pubkey == pubkey || s.role pubkey == .admin
    | .error _ => true
  | _, _ => true

/-- `preflight_mutation`. -/
def preflightMutation [BlobDatabase δ] [LockDatabase κ] (req : Request) (auth : VerifiedAuth)
    (nowMs : Nat) (s : ServerState β δ ν κ) : Except Response Unit × ServerState β δ ν κ :=
  let checks : Except Response Unit := do
    Checks.require (mutationAllowed req auth.pubkey s = true)
      (.failure .forbidden "operation not allowed for this pubkey")
    Checks.require (unlockAllowed req auth.pubkey s = true)
      (.failure .forbidden "only the lock owner or an admin can unlock")
  thenRateLimit checks auth.pubkey nowMs s

/-! ### One stream -/

/-- How far a stream has come. -/
inductive Stage where
  | verified
  | sized
  | admitted
  | reserved
  | committed
deriving DecidableEq, Repr

/-- A stream whose request was read and whose event, if any, was checked. -/
structure Stream where
  request : Request
  auth : Option VerifiedAuth
  verifiedAt : SystemTime
  stage : Stage

/-- What the streams of an endpoint share: the server, the replay cache, and the body bytes that are
not reserved. -/
structure Shared (β δ ν κ : Type) where
  server : ServerState β δ ν κ
  seen : ReplayCache
  freeBytes : Nat

/-- What the environment supplies to one stretch of a stream. -/
structure Moment where
  now : SystemTime
  nowMs : Nat
  freshId : String
  body : Option Bytes

/-- The clock of a stretch stands still. -/
def Moment.call (moment : Moment) : Call :=
  ⟨fun _ => moment.now.secs, moment.nowMs, 0⟩

/-- How a stretch ends. -/
inductive Outcome where
  | next (stream : Stream)
  | finished (reply : Reply)
  | aborted

/-- `MAX_IN_FLIGHT_IROH_BODY_BYTES`. -/
def maxInFlightBodyBytes : Nat :=
  256 * 1024 * 1024

/-- `DEFAULT_MAX_IROH_BODY`. -/
def defaultMaxBody : Nat :=
  256 * 1024 * 1024

/-- What a stream does up to its first wait: look at the request and check its event. -/
def openStream (ext : Externals) (receiver : String) (request : Request) (now : SystemTime) :
    Except Reply Stream :=
  if request.op ∈ [.get, .head, .delete, .upload] ∧ isValidSha256 request.sha256 = false then
    .error (.failure .error "invalid SHA256 hash")
  else if request.auth = "" then .ok ⟨request, none, now, .verified⟩
  else
    match verifyAuth ext now.secs request.auth request receiver with
    | .error e => .error (.failure .unauthorized e)
    | .ok auth => .ok ⟨request, some auth, now, .verified⟩

/-- The reserved bytes are given back when a stream ends. -/
def Shared.giveBack (w : Shared β δ ν κ) (stream : Stream) : Shared β δ ν κ :=
  { w with freeBytes := w.freeBytes + stream.request.bodyLen.toNat }

/-- The size limit of an upload. -/
def checkBodyLen (stream : Stream) (w : Shared β δ ν κ) : Outcome :=
  let maxBody := w.server.requirements.maxSize.getD defaultMaxBody
  if stream.request.bodyLen = 0 then .finished (.failure .error "empty body")
  else if maxBody < stream.request.bodyLen.toNat then
    .finished (.failure .error ("body exceeds maximum of " ++ toString maxBody ++ " bytes"))
  else .next { stream with stage := .sized }

/-- Reserve the bytes of a body. -/
def reserveBody (stream : Stream) (w : Shared β δ ν κ) : Outcome × Shared β δ ν κ :=
  let bytes := stream.request.bodyLen.toNat
  if maxInFlightBodyBytes < bytes then
    (.finished (.failure .error "upload exceeds aggregate byte budget"), w)
  else if w.freeBytes < bytes then
    (.finished (.failure .error "iroh upload byte budget is exhausted"), w)
  else (.next { stream with stage := .reserved }, { w with freeBytes := w.freeBytes - bytes })

/-- The preflight under the lock, and the stage after it. -/
def preflight (stream : Stream)
    (check : ServerState β δ ν κ → Except Response Unit × ServerState β δ ν κ)
    (w : Shared β δ ν κ) : Outcome × Shared β δ ν κ :=
  match check w.server with
  | (.error response, server) => (.finished ⟨response, []⟩, { w with server := server })
  | (.ok (), server) => (.next { stream with stage := .admitted }, { w with server := server })

def alreadyUsed : Reply :=
  .failure .unauthorized "authorization event has already been used"

/-- Use the event of a stream up, if it has one.  An upload gives its reservation back when the event
was used before. -/
def commitStream (stream : Stream) (now : SystemTime) (w : Shared β δ ν κ) :
    Outcome × Shared β δ ν κ :=
  match stream.auth with
  | none => (.next { stream with stage := .committed }, w)
  | some auth =>
    match w.seen.commit auth.eventId auth.pubkey now.secs with
    | (true, seen) => (.next { stream with stage := .committed }, { w with seen := seen })
    | (false, seen) =>
      let w := { w with seen := seen }
      (.finished alreadyUsed, if stream.request.op = .upload then w.giveBack stream else w)

section Advance

variable [BlobBackend β] [BlobDatabase δ] [LfsVersionDatabase ν] [LockDatabase κ]

/-- The operation itself, under the lock. -/
def runStream (ext : Externals) (moment : Moment) (stream : Stream) (body : Bytes)
    (w : Shared β δ ν κ) : Reply × Shared β δ ν κ :=
  let (reply, server) := dispatch ext moment.call moment.freshId stream.request
    (stream.auth.map (·.pubkey)) body w.server
  (reply, { w with server := server })

/-- `handle_stream` from one wait to the next. -/
def advance (ext : Externals) (moment : Moment) (stream : Stream) (w : Shared β δ ν κ) :
    Outcome × Shared β δ ν κ :=
  if stream.request.op = .upload then
    match stream.stage with
    | .verified => (checkBodyLen stream w, w)
    | .sized => preflight stream (preflightUpload stream.request stream.auth moment.nowMs) w
    | .admitted => reserveBody stream w
    | .reserved => commitStream stream moment.now w
    | .committed =>
      match moment.body with
      | none => (.aborted, w.giveBack stream)
      | some body =>
        let (reply, w) := runStream ext moment stream body w
        (.finished reply, w.giveBack stream)
  else if (requestAuthBinding stream.request).isSome then
    match stream.stage, stream.auth with
    | .verified, none => (.finished (.failure .unauthorized "auth required"), w)
    | .verified, some auth =>
      preflight stream (preflightMutation stream.request auth moment.nowMs) w
    | .committed, _ =>
      let (reply, w) := runStream ext moment stream [] w
      (.finished reply, w)
    | _, _ => commitStream stream moment.now w
  else
    let (reply, w) := runStream ext moment stream [] w
    (.finished reply, w)

end Advance

/-! ### Any number of streams -/

/-- The shared state and the streams that are under way. -/
structure Streams (β δ ν κ : Type) where
  shared : Shared β δ ν κ
  active : Nat → Option Stream

/-- A request line arrives, or a stream goes on, or a stream is dropped: its deadline has passed or
its peer is gone. -/
inductive StreamEvent where
  | arrive (stream : Nat) (request : Request) (now : SystemTime)
  | resume (stream : Nat) (moment : Moment)
  | drop (stream : Nat) (now : SystemTime)

def StreamEvent.now : StreamEvent → SystemTime
  | .arrive _ _ now => now
  | .resume _ moment => moment.now
  | .drop _ now => now

def Streams.set (st : Streams β δ ν κ) (id : Nat) (stream : Option Stream) : Streams β δ ν κ :=
  { st with active := Function.update st.active id stream }

/-- A stream that is dropped gives back what it had reserved. -/
def Streams.dropStream (st : Streams β δ ν κ) (id : Nat) : Streams β δ ν κ :=
  match st.active id with
  | some stream =>
    if stream.request.op = .upload ∧ stream.stage ∈ [.reserved, .committed] then
      { st.set id none with shared := st.shared.giveBack stream }
    else st.set id none
  | none => st

section Step

variable [BlobBackend β] [BlobDatabase δ] [LfsVersionDatabase ν] [LockDatabase κ]

/-- One event of a run. -/
def streamStep (ext : Externals) (receiver : String) (st : Streams β δ ν κ) (event : StreamEvent) :
    Streams β δ ν κ :=
  match event with
  | .arrive id request now =>
    match openStream ext receiver request now with
    | .ok stream => st.set id (some stream)
    | .error _ => st.set id none
  | .resume id moment =>
    match st.active id with
    | none => st
    | some stream =>
      match advance ext moment stream st.shared with
      | (.next stream, shared) => { st.set id (some stream) with shared := shared }
      | (_, shared) => { st.set id none with shared := shared }
  | .drop id _ => st.dropStream id

end Step

end BlossomRs.Transport

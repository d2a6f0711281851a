import BlossomRs.Database.OwnerRows
import BlossomRs.System.Denied
import BlossomRs.System.Failures
import BlossomRs.System.Quota

/-!
# Two paths of an upload

`PUT /upload` and the upload of a stream are two copies of one pipeline over the same state.  Both make
the checks of `BothCheck` and both end in `commitUpload`.  Beyond these only the first looks at the
allowed media types (`http_outcome`), and only the second asks whether an anonymous key may upload and
has room for it (`stream_outcome`).
-/

namespace BlossomRs.System

open Protocol Auth Storage Database Lfs Locks Server

variable {β δ ν κ : Type}

/-! ### What both do -/

/-- How an upload ends: it is accepted if its checks pass and it can be committed, and then leaves the
stores as the commit does. -/
structure Outcome (accepted checks : Prop) (commit : Option (ServerState β δ ν κ))
    (after : ServerState β δ ν κ) : Prop where
  accepted_iff : accepted ↔ checks ∧ commit.isSome
  stores : accepted → ∃ s', commit = some s' ∧ SameStores s' after

namespace Outcome

variable {accepted checks : Prop} {commit : Option (ServerState β δ ν κ)}
  {after : ServerState β δ ν κ}

theorem of_refused (hrefused : ¬ accepted) (h : checks → commit = none) :
    Outcome accepted checks commit after where
  accepted_iff := by
    refine iff_of_false hrefused ?_
    rintro ⟨hchecks, hsome⟩
    rw [h hchecks] at hsome
    cases hsome
  stores haccepted := absurd haccepted hrefused

theorem congr {checks' : Prop} (h : Outcome accepted checks commit after)
    (hchecks : checks ↔ checks') : Outcome accepted checks' commit after :=
  ⟨h.accepted_iff.trans (and_congr_left' hchecks), h.stores⟩

theorem of_reply {reply : Transport.Reply} {result : Option Transport.Reply}
    (hresult : result = some reply)
    (h : Outcome (reply.header.status = .ok) checks commit after) :
    Outcome (∃ reply, result = some reply ∧ reply.header.status = .ok) checks commit after := by
  subst hresult
  have hiff : (∃ other, some reply = some other ∧ other.header.status = .ok)
      ↔ reply.header.status = .ok :=
    ⟨fun ⟨_, rfl, hok⟩ => hok, fun hok => ⟨reply, rfl, hok⟩⟩
  rwa [hiff]

end Outcome

/-- The record of an upload of some bytes at a time. -/
def recordAt (s : ServerState β δ ν κ) (principal : Option String) (data : Bytes) (mimeType : String)
    (now : Nat) : UploadRecord :=
  uploadRecord (makeDescriptorFromHash (sha256Hex data) data.length s.baseUrl now) mimeType principal
    none

theorem checkRate_eq {s : ServerState β δ ν κ} {key : String} {nowMs : Nat}
    (h : (s.checkRate key nowMs).1 = true) :
    ∃ limiter, s.checkRate key nowMs = (true, { s with rateLimiter := limiter }) := by
  unfold ServerState.checkRate at h ⊢
  cases hlimiter : s.rateLimiter with
  | none =>
    exact ⟨s.rateLimiter, rfl⟩
  | some limiter =>
    rw [hlimiter] at h
    exact ⟨some (limiter.check key nowMs).2, Prod.ext h rfl⟩

section Checks

variable [BlobDatabase δ] {s : ServerState β δ ν κ} {principal : Option String} {data : Bytes}
  {auth : Option Transport.VerifiedAuth}

/-- The quota check of an upload passes for a key. -/
def QuotaAdmits (s : ServerState β δ ν κ) (key : String) (data : Bytes) : Prop :=
  BlobDatabase.checkQuota s.database key
    (additionalBytes s.database (sha256Hex data) key data.length) = .ok ()

/-- The checks that both transports make: of the body, of the event, of a signed key and its quota. -/
structure BothCheck (s : ServerState β δ ν κ) (principal : Option String) (data : Bytes) : Prop where
  nonempty : data ≠ []
  authenticated : s.requirements.requireAuth = false ∨ principal.isSome
  allowed : ∀ key, principal = some key → s.isAllowed key .upload = true
  size : ∀ limit, s.requirements.maxSize = some limit → data.length ≤ limit
  quota : ∀ key, principal = some key → QuotaAdmits s key data

/-- None of the checks looks at the rate limiter. -/
theorem bothCheck_rateLimiter {limiter : Option RateLimit.RateLimiter} :
    BothCheck { s with rateLimiter := limiter } principal data ↔ BothCheck s principal data :=
  ⟨fun ⟨hnonempty, hauth, hallowed, hsize, hquota⟩ => ⟨hnonempty, hauth, hallowed, hsize, hquota⟩,
    fun ⟨hnonempty, hauth, hallowed, hsize, hquota⟩ => ⟨hnonempty, hauth, hallowed, hsize, hquota⟩⟩

theorem uploadChecks_eq_ok_iff {contentType : String} :
    Server.uploadChecks s principal (sha256Hex data) data contentType = .ok ()
      ↔ (∀ limit, s.requirements.maxSize = some limit → data.length ≤ limit)
        ∧ (∀ key, principal = some key → QuotaAdmits s key data)
        ∧ mimeAllowed s.requirements contentType = true := by
  have hquota : ∀ key, checkQuotaStrict s.database (sha256Hex data) key data.length = .ok ()
      ↔ QuotaAdmits s key data := by
    intro key
    unfold checkQuotaStrict QuotaAdmits
    split <;> simp_all
  unfold Server.uploadChecks
  rw [Checks.seq_eq_ok, Checks.seq_eq_ok, checkMaxSize, Checks.ifSome_eq_ok, Checks.ifSome_eq_ok,
    checkMime, Checks.require_eq_ok]
  simp only [Checks.require_eq_ok, hquota]

theorem checkUploadQuota_eq_ok_iff {key : String} :
    Transport.checkUploadQuota s.database (sha256Hex data) key data.length = .ok ()
      ↔ QuotaAdmits s key data := by
  unfold Transport.checkUploadQuota QuotaAdmits
  split <;> simp_all

/-- What a stream asks of an upload, beyond what both check: an anonymous upload must be allowed and
within the quota too. -/
def AnonymousAdmitted (s : ServerState β δ ν κ) (principal : Option String) (data : Bytes) : Prop :=
  principal = none → s.isAllowed "anonymous" .upload = true ∧ QuotaAdmits s "anonymous" data

theorem streamChecks_eq_ok_iff {request : Transport.Request}
    (hhash : request.sha256 = sha256Hex data) :
    Transport.uploadChecks s request principal data = .ok ()
      ↔ BothCheck s principal data ∧ AnonymousAdmitted s principal data := by
  unfold Transport.uploadChecks
  rw [hhash]
  simp only [Checks.seq_eq_ok, Checks.ifSome_eq_ok, Checks.require_eq_ok, checkUploadQuota_eq_ok_iff,
    and_true]
  cases principal with
  | none =>
    constructor
    · rintro ⟨hnonempty, hauth, hallowed, hsize, hquota⟩
      exact ⟨⟨hnonempty, hauth, nofun, hsize, nofun⟩, fun _ => ⟨hallowed, hquota⟩⟩
    · rintro ⟨h, hanonymous⟩
      obtain ⟨hallowed, hquota⟩ := hanonymous rfl
      exact ⟨h.nonempty, h.authenticated, hallowed, h.size, hquota⟩
  | some key =>
    constructor
    · rintro ⟨hnonempty, hauth, hallowed, hsize, hquota⟩
      refine ⟨⟨hnonempty, hauth, ?_, hsize, ?_⟩, nofun⟩
      · rintro _ ⟨⟩
        exact hallowed
      · rintro _ ⟨⟩
        exact hquota
    · rintro ⟨h, -⟩
      exact ⟨h.nonempty, h.authenticated, h.allowed key rfl, h.size, h.quota key rfl⟩

/-- The preflight of a stream asks what its handler asks again. -/
theorem preflightUpload_cases {request : Transport.Request} {nowMs : Nat}
    (hhash : request.sha256 = sha256Hex data) (hlength : request.bodyLen.toNat = data.length)
    (hrate : (s.checkRate (Transport.principalOf auth) nowMs).1 = true) :
    (∃ limiter, Transport.preflightUpload request auth nowMs s
        = (.ok (), { s with rateLimiter := limiter }))
      ∨ (¬ ((s.requirements.requireAuth = false ∨ auth.isSome)
          ∧ s.isAllowed (Transport.principalOf auth) .upload = true
          ∧ QuotaAdmits s (Transport.principalOf auth) data)
        ∧ ∃ response, response.status ≠ .ok
          ∧ Transport.preflightUpload request auth nowMs s = (.error response, s)) := by
  obtain ⟨limiter, hlimiter⟩ := checkRate_eq hrate
  unfold Transport.preflightUpload
  dsimp only
  rw [hhash, hlength]
  by_cases hauth : s.requirements.requireAuth = false ∨ auth.isSome = true
  · rw [Checks.require_of_true hauth, Checks.ok_bind]
    by_cases hallowed : s.isAllowed (Transport.principalOf auth) .upload = true
    · rw [Checks.require_of_true hallowed, Checks.ok_bind]
      cases hquota : Transport.checkUploadQuota s.database (sha256Hex data)
          (Transport.principalOf auth) data.length with
      | ok _ =>
        refine Or.inl ⟨limiter, ?_⟩
        rw [Transport.thenRateLimit, Transport.checkRateLimit, hlimiter]
      | error response =>
        refine Or.inr ⟨fun h => ?_, response, ?_, rfl⟩
        · exact nomatch hquota.symm.trans (checkUploadQuota_eq_ok_iff.mpr h.2.2)
        · unfold Transport.checkUploadQuota at hquota
          split at hquota
          · cases hquota
          · cases hquota
            exact nofun
    · rw [Checks.require_of_false hallowed, Checks.error_bind]
      refine Or.inr ⟨fun h => hallowed h.2.1, _, ?_, rfl⟩
      exact nofun
  · rw [Checks.require_of_false hauth, Checks.error_bind]
    refine Or.inr ⟨fun h => hauth h.1, _, ?_, rfl⟩
    exact nofun

/-- What is asked of the principal, whoever it is. -/
theorem admits_principalOf (hboth : BothCheck s (auth.map (·.pubkey)) data)
    (hanonymous : AnonymousAdmitted s (auth.map (·.pubkey)) data) :
    (s.requirements.requireAuth = false ∨ auth.isSome)
      ∧ s.isAllowed (Transport.principalOf auth) .upload = true
      ∧ QuotaAdmits s (Transport.principalOf auth) data := by
  cases auth with
  | none => exact ⟨hboth.authenticated, hanonymous rfl⟩
  | some auth => exact ⟨Or.inr rfl, hboth.allowed _ rfl, hboth.quota _ rfl⟩

end Checks

section Commit

variable [BlobBackend β] [BlobDatabase δ] [LfsVersionDatabase ν]

/-- The commit that both transports end in, where it succeeds. -/
def commitUpload (ext : Server.Externals) (ctx : LfsContext) (principal : Option String) (data : Bytes)
    (mimeType : String) (now : Nat) (s : ServerState β δ ν κ) : Option (ServerState β δ ν κ) :=
  match storeUpload ext ctx (sha256Hex data) data now now s with
  | (.error _, _) => none
  | (.ok (), s') =>
    match BlobDatabase.recordUpload s'.database (recordAt s principal data mimeType now) with
    | (.error _, _) => none
    | (.ok (), database) => some { s' with database := database }

omit [BlobDatabase δ] in
/-- The store half of a commit does not look at the rate limiter, and leaves the rest of the state. -/
theorem storeUpload_rateLimiter (ext : Server.Externals) (ctx : LfsContext) (data : Bytes) (now : Nat)
    (s : ServerState β δ ν κ) (limiter : Option RateLimit.RateLimiter) :
    storeUpload ext ctx (sha256Hex data) data now now { s with rateLimiter := limiter }
      = ((storeUpload ext ctx (sha256Hex data) data now now s).1,
        { (storeUpload ext ctx (sha256Hex data) data now now s).2 with rateLimiter := limiter }) := by
  unfold storeUpload
  dsimp only [ServerState.versionLookup]
  split <;> rfl

theorem commitUpload_rateLimiter (ext : Server.Externals) (ctx : LfsContext) (principal : Option String)
    (data : Bytes) (mimeType : String) (now : Nat) (s : ServerState β δ ν κ)
    (limiter : Option RateLimit.RateLimiter) :
    commitUpload ext ctx principal data mimeType now { s with rateLimiter := limiter }
      = (commitUpload ext ctx principal data mimeType now s).map
        fun s' => { s' with rateLimiter := limiter } := by
  unfold commitUpload
  rw [storeUpload_rateLimiter]
  cases storeUpload ext ctx (sha256Hex data) data now now s with
  | mk result s' =>
    cases result with
    | error e => rfl
    | ok _ =>
      dsimp only [recordAt]
      cases BlobDatabase.recordUpload s'.database _ with
      | mk recorded database => cases recorded <;> rfl

/-- The rate limiter makes no difference to a commit. -/
theorem Outcome.of_rateLimiter {accepted checks : Prop} {s after : ServerState β δ ν κ}
    {ext : Server.Externals} {ctx : LfsContext} {principal : Option String} {data : Bytes}
    {mimeType : String} {now : Nat} {limiter : Option RateLimit.RateLimiter}
    (h : Outcome accepted checks
      (commitUpload ext ctx principal data mimeType now { s with rateLimiter := limiter }) after) :
    Outcome accepted checks (commitUpload ext ctx principal data mimeType now s) after := by
  rw [commitUpload_rateLimiter] at h
  refine ⟨by simpa using h.accepted_iff, fun haccepted => ?_⟩
  obtain ⟨_, hcommit, hsame⟩ := h.stores haccepted
  obtain ⟨s', hs', rfl⟩ := Option.map_eq_some_iff.mp hcommit
  exact ⟨s', hs', hsame.backend, hsame.database, hsame.lfsVersionDb⟩

/-- The commit of `PUT /upload` succeeds as `commitUpload` does, after its checks. -/
theorem uploadCommit_outcome (ext : Server.Externals) {call : Call} (headers : HeaderMap)
    (principal : Option String) (data : Bytes) {now : Nat} (hclock : ∀ i ≥ 3, call.clock i = now)
    (s : ServerState β δ ν κ) :
    Outcome ((uploadCommit ext call headers principal data s).1.status = .ok)
      (Server.uploadChecks s principal (sha256Hex data) data
        ((extractContentType headers).getD (detectMime data)) = .ok ())
      (commitUpload ext (requestContext ext headers) principal data
        ((extractContentType headers).getD (detectMime data)) now s)
      (uploadCommit ext call headers principal data s).2 := by
  have hdescriptor : call.clock 3 = now := hclock 3 (le_refl 3)
  have hinsert : call.clock 4 = now := hclock 4 (by omega)
  have hrecord : call.clock 5 = now := hclock 5 (by omega)
  unfold uploadCommit commitUpload
  rw [hdescriptor, hinsert, hrecord]
  dsimp only
  cases hchecks : Server.uploadChecks s principal (sha256Hex data) data
      ((extractContentType headers).getD (detectMime data)) with
  | error response => exact .of_refused (status_of_uploadChecks _ _ _ _ _ hchecks) nofun
  | ok _ =>
    dsimp only
    cases storeUpload ext (requestContext ext headers) (sha256Hex data) data now now s with
    | mk result s' =>
      cases result with
      | error e => exact .of_refused (by simp [errorJson]) fun _ => rfl
      | ok _ =>
        dsimp only [recordAt]
        cases BlobDatabase.recordUpload s'.database _ with
        | mk recorded database =>
          cases recorded with
          | error e => exact .of_refused (by simp [errorJson]) fun _ => rfl
          | ok _ => exact ⟨iff_of_true rfl ⟨rfl, rfl⟩, fun _ => ⟨_, rfl, rfl, rfl, rfl⟩⟩

/-- The handler of a stream succeeds as `commitUpload` does, after its checks. -/
theorem streamUpload_outcome (ext : Transport.Externals) {call : Call} (request : Transport.Request)
    (principal : Option String) (data : Bytes) {now : Nat} (hclock : ∀ i, call.clock i = now)
    (s : ServerState β δ ν κ) :
    Outcome ((Transport.handleUpload ext call request principal data s).1.status = .ok)
      (Transport.uploadChecks s request principal data = .ok ())
      (commitUpload ext.toExternals (Transport.parseLfsFromRequest request) principal data octetStream
        now s)
      (Transport.handleUpload ext call request principal data s).2 := by
  unfold Transport.handleUpload commitUpload
  dsimp only
  rw [hclock 0, hclock 1, hclock 2]
  cases hchecks : Transport.uploadChecks s request principal data with
  | error response => exact .of_refused (status_of_streamChecks _ _ _ _ hchecks) nofun
  | ok _ =>
    dsimp only
    cases storeUpload ext.toExternals (Transport.parseLfsFromRequest request) (sha256Hex data) data
        now now s with
    | mk result s' =>
      cases result with
      | error e => exact .of_refused nofun fun _ => rfl
      | ok _ =>
        dsimp only [recordAt]
        cases BlobDatabase.recordUpload s'.database _ with
        | mk recorded database =>
          cases recorded with
          | error e => exact .of_refused nofun fun _ => rfl
          | ok _ => exact ⟨iff_of_true rfl ⟨rfl, rfl⟩, fun _ => ⟨_, rfl, rfl, rfl, rfl⟩⟩

end Commit

/-! ### The same upload -/

/-- An upload as `PUT /upload` gets it. -/
structure HttpUpload where
  call : Call
  headers : HeaderMap
  body : RequestBody

/-- An upload as an endpoint for streams gets it, with the moments its stretches run at. -/
structure StreamUpload where
  receiver : String
  request : Transport.Request
  opened : SystemTime
  sized : Transport.Moment
  admitted : Transport.Moment
  reserved : Transport.Moment
  committed : Transport.Moment
  stored : Transport.Moment

namespace HttpUpload

/-- The type the upload is checked and recorded with. -/
def contentType (u : HttpUpload) : String :=
  (extractContentType u.headers).getD (detectMime u.body.data)

/-- The upload is signed by the key, or comes without an event, and the event is accepted. -/
def SentBy (ext : Server.Externals) (w : World β δ ν κ) (u : HttpUpload) : Option String → Prop
  | none => u.headers.authorization = none
  | some key => ∃ event, extractAuthEvent ext.parser u.headers = .ok event ∧ event.pubkey = key
      ∧ verifyAuthEventClaims ext.secp (u.call.clock 0) event "upload" w.server.baseUrl "/upload" "PUT"
        none = .ok ()
      ∧ (verifyAuthEvent ext (u.call.clock 1) (u.call.clock 2) w.seen event "upload" w.server.baseUrl
        "/upload" "PUT" (some (sha256Hex u.body.data))).1 = .ok ()

end HttpUpload

namespace StreamUpload

def moments (u : StreamUpload) : List Transport.Moment :=
  [u.sized, u.admitted, u.reserved, u.committed, u.stored]

/-- The upload is signed by the key, or comes without an event, and the event is accepted. -/
def SentBy (ext : Transport.Externals) (w : Transport.Shared β δ ν κ) (u : StreamUpload) :
    Option String → Prop
  | none => u.request.auth = ""
  | some key => u.request.auth ≠ "" ∧ ∃ auth,
      Transport.verifyAuth ext u.opened.secs u.request.auth u.request u.receiver = .ok auth
        ∧ auth.pubkey = key
        ∧ (w.seen.commit auth.eventId auth.pubkey u.committed.now.secs).1 = true

end StreamUpload

namespace Site

variable (site : Site β δ ν κ)

def http : World β δ ν κ :=
  ⟨site.server, site.seen⟩

def streams : Transport.Shared β δ ν κ :=
  ⟨site.server, site.streamsSeen, site.freeBytes⟩

end Site

/-- One upload over both transports: the same bytes, key and tracked-file context, stored at the same
time.  Neither the rate limiter nor the room for bodies is in the way. -/
structure SameUpload (ext : Transport.Externals) (site : Site β δ ν κ) (principal : Option String)
    (now : Nat) (http : HttpUpload) (stream : StreamUpload) : Prop where
  op : stream.request.op = .upload
  hash : stream.request.sha256 = sha256Hex http.body.data
  length : stream.request.bodyLen.toNat = http.body.data.length
  body : stream.stored.body = some http.body.data
  context : requestContext ext.toExternals http.headers = Transport.parseLfsFromRequest stream.request
  sentHttp : http.SentBy ext.toExternals site.http principal
  sentStream : stream.SentBy ext site.streams principal
  clockHttp : ∀ i ≥ 3, http.call.clock i = now
  clockStream : stream.stored.now.secs = now
  rateHttp : (site.server.checkRate (principal.getD "anonymous") http.call.clockMs).1 = true
  rateStream : (site.server.checkRate (principal.getD "anonymous") stream.admitted.nowMs).1 = true
  roomHttp : readBodyLimited http.call.freePermits http.body site.server.bodyLimit
    (declaredBodyLen http.headers) = .ok http.body.data
  roomStream : http.body.data.length ≤ site.freeBytes
    ∧ http.body.data.length ≤ Transport.maxInFlightBodyBytes

section Paths

variable {ext : Transport.Externals} {site : Site β δ ν κ} {principal : Option String} {now : Nat}
  {http : HttpUpload} {stream : StreamUpload}

/-- The checks before the body are those of the event and of a signed key. -/
theorem preflight_cases {authEvent : Option NostrEvent}
    (hprincipal : authEvent.map (·.pubkey) = principal)
    (hclaims : ∀ event, authEvent = some event → verifyAuthEventClaims ext.secp (http.call.clock 0) event
      "upload" site.server.baseUrl "/upload" "PUT" none = .ok ())
    (hrate : (site.server.checkRate (principal.getD "anonymous") http.call.clockMs).1 = true) :
    ((site.server.requirements.requireAuth = false ∨ principal.isSome)
        ∧ (∀ key, principal = some key → site.server.isAllowed key .upload = true)
        ∧ ∃ limiter, uploadPreflight ext.toExternals http.call authEvent site.server
          = (.ok principal, { site.server with rateLimiter := limiter }))
      ∨ (¬ ((site.server.requirements.requireAuth = false ∨ principal.isSome)
          ∧ (∀ key, principal = some key → site.server.isAllowed key .upload = true))
        ∧ ∃ response s, uploadPreflight ext.toExternals http.call authEvent site.server
          = (.error response, s)) := by
  obtain ⟨limiter, hlimiter⟩ := checkRate_eq hrate
  cases authEvent with
  | none =>
    obtain rfl : none = principal := hprincipal
    rw [Option.getD_none] at hlimiter
    unfold uploadPreflight
    cases hrequire : site.server.requirements.requireAuth with
    | true =>
      refine Or.inr ⟨fun h => ?_, _, _, rfl⟩
      rcases h.1 with h | h
      · cases h
      · cases h
    | false =>
      refine Or.inl ⟨Or.inl rfl, nofun, limiter, ?_⟩
      rw [hlimiter]
      rfl
  | some event =>
    obtain rfl : some event.pubkey = principal := hprincipal
    rw [Option.getD_some] at hlimiter
    unfold uploadPreflight signedPreflight
    have hclaims : verifyAuthEventClaims ext.secp (http.call.clock 0) event "upload"
        site.server.baseUrl uploadEndpoint.path uploadEndpoint.method none = .ok () :=
      hclaims event rfl
    dsimp only
    rw [hclaims]
    cases hallowed : site.server.isAllowed event.pubkey uploadEndpoint.action with
    | true =>
      refine Or.inl ⟨Or.inr rfl, ?_, limiter, ?_⟩
      · rintro _ ⟨⟩
        exact hallowed
      · dsimp only
        rw [if_pos rfl, hlimiter]
    | false =>
      refine Or.inr ⟨fun h => ?_, _, _, rfl⟩
      have hyes := h.2 event.pubkey rfl
      exact absurd (hallowed.symm.trans hyes) Bool.false_ne_true

/-- The event of an upload that is sent by a key, as the handler sees it. -/
theorem HttpUpload.SentBy.event (h : http.SentBy ext.toExternals site.http principal) :
    ∃ authEvent, optionalAuthEvent ext.toExternals http.headers = .ok authEvent
      ∧ authEvent.map (·.pubkey) = principal
      ∧ (∀ event, authEvent = some event → verifyAuthEventClaims ext.secp (http.call.clock 0) event
        "upload" site.server.baseUrl "/upload" "PUT" none = .ok ())
      ∧ (uploadBind ext.toExternals http.call authEvent site.server.baseUrl (sha256Hex http.body.data)
        site.seen).1 = .ok () := by
  cases principal with
  | none =>
    have hnone : http.headers.authorization = none := h
    refine ⟨none, ?_, rfl, nofun, rfl⟩
    rw [optionalAuthEvent, hnone]
    rfl
  | some key =>
    obtain ⟨event, hevent, rfl, hclaims, hbound⟩ := h
    refine ⟨some event, ?_, rfl, ?_, hbound⟩
    · rw [optionalAuthEvent, if_pos (authorization_of_extractAuthEvent hevent), hevent]
      rfl
    · rintro _ ⟨⟩
      exact hclaims

/-- The stream of an upload that is sent by a key. -/
theorem StreamUpload.SentBy.opened (h : stream.SentBy ext site.streams principal)
    (hvalid : isValidSha256 stream.request.sha256 = true) :
    ∃ auth, Transport.openStream ext stream.receiver stream.request stream.opened
        = .ok ⟨stream.request, auth, stream.opened, .verified⟩
      ∧ auth.map (·.pubkey) = principal
      ∧ ∀ a, auth = some a →
        (site.streamsSeen.commit a.eventId a.pubkey stream.committed.now.secs).1 = true := by
  have hlooked : ¬ (stream.request.op ∈ [.get, .head, .delete, .upload]
      ∧ isValidSha256 stream.request.sha256 = false) := by
    rintro ⟨-, hinvalid⟩
    exact absurd (hvalid.symm.trans hinvalid) (by decide)
  unfold Transport.openStream
  rw [if_neg hlooked]
  cases principal with
  | none =>
    have hnone : stream.request.auth = "" := h
    exact ⟨none, if_pos hnone, rfl, nofun⟩
  | some key =>
    obtain ⟨hsome, auth, hverified, rfl, hcommit⟩ := h
    refine ⟨some auth, ?_, rfl, ?_⟩
    · rw [if_neg hsome, hverified]
    · rintro _ ⟨⟩
      exact hcommit

/-- The size limit of a stream is the configured one, where there is one. -/
theorem checkBodyLen_cases (h : SameUpload ext site principal now http stream)
    (auth : Option Transport.VerifiedAuth) :
    (http.body.data ≠ []
        ∧ (∀ limit, site.server.requirements.maxSize = some limit → http.body.data.length ≤ limit)
        ∧ Transport.checkBodyLen ⟨stream.request, auth, stream.opened, .verified⟩ site.streams
          = .next ⟨stream.request, auth, stream.opened, .sized⟩)
      ∨ (¬ (http.body.data ≠ []
          ∧ ∀ limit, site.server.requirements.maxSize = some limit → http.body.data.length ≤ limit)
        ∧ ∃ message, Transport.checkBodyLen ⟨stream.request, auth, stream.opened, .verified⟩
          site.streams = .finished (.failure .error message)) := by
  unfold Transport.checkBodyLen
  dsimp only [Site.streams]
  rw [h.length]
  have hzero : stream.request.bodyLen = 0 ↔ http.body.data = [] := by
    rw [← UInt64.toNat_inj, h.length]
    exact List.length_eq_zero_iff
  by_cases hempty : http.body.data = []
  · rw [if_pos (hzero.mpr hempty)]
    exact Or.inr ⟨fun hboth => hboth.1 hempty, _, rfl⟩
  · rw [if_neg (mt hzero.mp hempty)]
    cases hmax : site.server.requirements.maxSize with
    | none =>
      -- the default is the budget for all bodies
      have hroom : ¬ (none : Option Nat).getD Transport.defaultMaxBody < http.body.data.length :=
        not_lt.mpr h.roomStream.2
      rw [if_neg hroom]
      exact Or.inl ⟨hempty, nofun, rfl⟩
    | some limit =>
      by_cases hlimit : limit < http.body.data.length
      · rw [Option.getD_some, if_pos hlimit]
        refine Or.inr ⟨fun hboth => ?_, _, rfl⟩
        exact absurd (hboth.2 limit rfl) (not_le.mpr hlimit)
      · rw [Option.getD_some, if_neg hlimit]
        refine Or.inl ⟨hempty, ?_, rfl⟩
        rintro _ ⟨⟩
        exact not_lt.mp hlimit

variable [BlobBackend β] [BlobDatabase δ] [LfsVersionDatabase ν] [LockDatabase κ]

def HttpUpload.Accepted (ext : Transport.Externals) (site : Site β δ ν κ) (u : HttpUpload) : Prop :=
  (Server.handleUpload ext.toExternals u.call u.headers u.body site.http).1.status = .ok

def HttpUpload.after (ext : Transport.Externals) (site : Site β δ ν κ) (u : HttpUpload) :
    ServerState β δ ν κ :=
  (Server.handleUpload ext.toExternals u.call u.headers u.body site.http).2.server

def StreamUpload.Accepted (ext : Transport.Externals) (site : Site β δ ν κ) (u : StreamUpload) : Prop :=
  ∃ reply, (answerStream ext u.receiver u.request u.opened u.moments site.streams).1 = some reply
    ∧ reply.header.status = .ok

def StreamUpload.after (ext : Transport.Externals) (site : Site β δ ν κ) (u : StreamUpload) :
    ServerState β δ ν κ :=
  (answerStream ext u.receiver u.request u.opened u.moments site.streams).2.server

omit [LockDatabase κ] in
/-- `PUT /upload` accepts what passes the checks of both and has an allowed type, if it can be
committed. -/
theorem http_outcome (h : SameUpload ext site principal now http stream) :
    Outcome (http.Accepted ext site)
      (BothCheck site.server principal http.body.data
        ∧ mimeAllowed site.server.requirements http.contentType = true)
      (commitUpload ext.toExternals (Transport.parseLfsFromRequest stream.request) principal
        http.body.data http.contentType now site.server) (http.after ext site) := by
  obtain ⟨authEvent, hauth, hprincipal, hclaims, hbound⟩ := h.sentHttp.event
  unfold HttpUpload.Accepted HttpUpload.after Server.handleUpload
  rw [hauth]
  dsimp only [Site.http]
  rcases preflight_cases hprincipal hclaims h.rateHttp with
    ⟨hauthenticated, hallowed, limiter, hpreflight⟩ | ⟨hrefused, response, s, hpreflight⟩
  · rw [hpreflight]
    dsimp only
    rw [h.roomHttp]
    dsimp only
    cases hempty : http.body.data.isEmpty with
    | true =>
      refine .of_refused (by simp [errorJson]) fun hchecks => ?_
      exact absurd (List.isEmpty_iff.mp hempty) hchecks.1.nonempty
    | false =>
      rw [if_neg Bool.false_ne_true]
      cases hbind : uploadBind ext.toExternals http.call authEvent site.server.baseUrl
          (sha256Hex http.body.data) site.seen with
      | mk result seen =>
        rw [hbind] at hbound
        obtain rfl : result = .ok () := hbound
        have hcommit := uploadCommit_outcome ext.toExternals http.headers principal http.body.data
          h.clockHttp { site.server with rateLimiter := limiter }
        rw [h.context] at hcommit
        refine hcommit.of_rateLimiter.congr (uploadChecks_eq_ok_iff.trans ?_)
        constructor
        · rintro ⟨hsize, hquota, hmime⟩
          refine ⟨⟨?_, hauthenticated, hallowed, hsize, hquota⟩, hmime⟩
          intro hnil
          rw [hnil] at hempty
          cases hempty
        · rintro ⟨hboth, hmime⟩
          exact ⟨hboth.size, hboth.quota, hmime⟩
  · rw [hpreflight]
    refine .of_refused (status_of_uploadPreflight hpreflight) fun hchecks => ?_
    exact absurd ⟨hchecks.1.authenticated, hchecks.1.allowed⟩ hrefused

/-- The stretches of an admitted stream: there is room for the body, the event is new, and the
operation is performed. -/
theorem finishStream_admitted {auth : Option Transport.VerifiedAuth}
    (h : SameUpload ext site principal now http stream)
    (hfresh : ∀ a, auth = some a →
      (site.streamsSeen.commit a.eventId a.pubkey stream.committed.now.secs).1 = true)
    (s : ServerState β δ ν κ) :
    ∃ w, finishStream ext [stream.reserved, stream.committed, stream.stored]
        ⟨stream.request, auth, stream.opened, .admitted⟩ ⟨s, site.streamsSeen, site.freeBytes⟩
        = (some ⟨(Transport.handleUpload ext stream.stored.call stream.request
            (auth.map (·.pubkey)) http.body.data s).1, []⟩, w)
      ∧ w.server = (Transport.handleUpload ext stream.stored.call stream.request
          (auth.map (·.pubkey)) http.body.data s).2 := by
  have hbudget : ¬ Transport.maxInFlightBodyBytes < stream.request.bodyLen.toNat := by
    rw [h.length]
    exact not_lt.mpr h.roomStream.2
  have hfree : ¬ site.freeBytes < stream.request.bodyLen.toNat := by
    rw [h.length]
    exact not_lt.mpr h.roomStream.1
  rw [finishStream]
  simp only [Transport.advance, h.op, if_true, Transport.reserveBody, if_neg hbudget, if_neg hfree]
  rw [finishStream]
  simp only [Transport.advance, h.op, if_true, Transport.commitStream]
  cases auth with
  | none =>
    dsimp only
    rw [finishStream]
    simp only [Transport.advance, h.op, if_true, h.body, Transport.runStream, Transport.dispatch]
    exact ⟨_, rfl, rfl⟩
  | some auth =>
    have hnew := hfresh auth rfl
    dsimp only
    cases hcommit : site.streamsSeen.commit auth.eventId auth.pubkey stream.committed.now.secs with
    | mk fresh seen =>
      rw [hcommit] at hnew
      obtain rfl : fresh = true := hnew
      dsimp only
      rw [finishStream]
      simp only [Transport.advance, h.op, if_true, h.body, Transport.runStream, Transport.dispatch]
      exact ⟨_, rfl, rfl⟩

/-- A stream accepts what passes the checks of both and has an admitted principal, if it can be
committed. -/
theorem stream_outcome (h : SameUpload ext site principal now http stream) :
    Outcome (stream.Accepted ext site)
      (BothCheck site.server principal http.body.data
        ∧ AnonymousAdmitted site.server principal http.body.data)
      (commitUpload ext.toExternals (Transport.parseLfsFromRequest stream.request) principal
        http.body.data octetStream now site.server) (stream.after ext site) := by
  have hvalid : isValidSha256 stream.request.sha256 = true := by
    rw [h.hash]
    exact isValidSha256_sha256Hex http.body.data
  obtain ⟨auth, hopened, hauth, hfresh⟩ := h.sentStream.opened hvalid
  subst hauth
  unfold StreamUpload.Accepted StreamUpload.after answerStream
  rw [hopened]
  dsimp only [StreamUpload.moments]
  rw [finishStream]
  simp only [Transport.advance, h.op, if_true]
  rcases checkBodyLen_cases h auth with ⟨hnonempty, hsize, hsized⟩ | ⟨hnot, message, hturned⟩
  · rw [hsized]
    dsimp only
    rw [finishStream]
    simp only [Transport.advance, h.op, if_true, Transport.preflight]
    have hrate : (site.server.checkRate (Transport.principalOf auth) stream.admitted.nowMs).1 = true :=
      h.rateStream
    rcases preflightUpload_cases h.hash h.length hrate with
      ⟨limiter, hpreflight⟩ | ⟨hrefused, response, hstatus, hpreflight⟩
    · simp only [Site.streams, hpreflight]
      obtain ⟨w, hfinish, hserver⟩ := finishStream_admitted h hfresh
        { site.server with rateLimiter := limiter }
      rw [hfinish]
      have hclock : ∀ i, stream.stored.call.clock i = now := fun _ => h.clockStream
      have hcommit := streamUpload_outcome ext stream.request (auth.map (·.pubkey)) http.body.data
        hclock { site.server with rateLimiter := limiter }
      rw [← hserver] at hcommit
      refine Outcome.of_reply rfl (hcommit.of_rateLimiter.congr ?_)
      exact (streamChecks_eq_ok_iff h.hash).trans (and_congr bothCheck_rateLimiter Iff.rfl)
    · simp only [Site.streams, hpreflight]
      refine Outcome.of_reply rfl (.of_refused hstatus fun hchecks => ?_)
      exact absurd (admits_principalOf hchecks.1 hchecks.2) hrefused
  · rw [hturned]
    refine Outcome.of_reply rfl (.of_refused (by rintro ⟨⟩) fun hchecks => ?_)
    exact absurd ⟨hchecks.1.nonempty, hchecks.1.size⟩ hnot

end Paths

end BlossomRs.System

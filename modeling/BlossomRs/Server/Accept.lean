import BlossomRs.Server.DirectStore

/-!
# Requests that are accepted

On an in-memory server without limits every signed upload is answered with `200`
(`upload_accepted`, `nip96Upload_accepted`), as long as its event is accepted for the request and
the events remembered from before have lapsed.  The server is without limits afterwards as well, so
the result can be iterated along a run.
-/

namespace BlossomRs.Server

open Protocol Auth Storage Database Access Lfs

variable {ν κ : Type}

/-- An in-memory server that refuses nothing by configuration, has charged no user more than so many
bytes, and remembers no event beyond the given time. -/
structure Unrestricted (w : World MemoryBackend MemoryDatabase ν κ) (now used : Nat) : Prop where
  access : w.server.access = .openAccess
  limiter : w.server.rateLimiter = none
  maxSize : w.server.requirements.maxSize = none
  allowedTypes : w.server.requirements.allowedTypes = []
  bodyLimit : w.server.bodyLimit = 256 * 1024 * 1024
  roomy : w.server.database.Roomy used
  lapsed : w.seen.Lapsed now

/-- A server as it is built, before the first request. -/
theorem unrestricted_new (backend : MemoryBackend) (baseUrl : String) (lfsVersionDb : Option ν)
    (lockDb : Option κ) (now : Nat) :
    Unrestricted
      ⟨{ ServerState.new (ν := ν) (κ := κ) backend baseUrl with
          lfsVersionDb := lfsVersionDb
          lockDb := lockDb }, seenAuthEvents⟩ now 0 where
  access := rfl
  limiter := rfl
  maxSize := rfl
  allowedTypes := rfl
  bodyLimit := rfl
  roomy := MemoryDatabase.roomy_new 0
  lapsed := lapsed_seenAuthEvents now

variable {event : NostrEvent} {w : World MemoryBackend MemoryDatabase ν κ}

/-- A signed request passes when its event is accepted, its key is allowed and nothing limits the
rate. -/
theorem signedPreflight_eq {β δ : Type} {ext : Externals} {call : Call} {endpoint : StoreEndpoint}
    {s : ServerState β δ ν κ} (haccepts : Accepts ext.secp s.baseUrl event
      ⟨"upload", endpoint.path, endpoint.method, none⟩ (call.clock 0))
    (hallowed : s.isAllowed event.pubkey endpoint.action = true) (hlimiter : s.rateLimiter = none) :
    signedPreflight ext call endpoint event s = (.ok (), s) := by
  have hclaims : verifyAuthEventClaims ext.secp (call.clock 0) event "upload" s.baseUrl
      endpoint.path endpoint.method none = .ok () := haccepts
  simp [signedPreflight, hclaims, hallowed, ServerState.checkRate, hlimiter]

namespace Unrestricted

variable {now used : Nat}

theorem mono (h : Unrestricted w now used) {later more : Nat} (hlater : now ≤ later)
    (hmore : used ≤ more) : Unrestricted w later more :=
  { h with
    roomy := fun pubkey user hlookup => ⟨(h.roomy pubkey user hlookup).1,
      le_trans (h.roomy pubkey user hlookup).2 hmore⟩
    lapsed := fun id entry hlookup => ⟨le_trans (h.lapsed id entry hlookup).1 hlater,
      (h.lapsed id entry hlookup).2⟩ }

variable {ext : Externals} {call : Call}

section

variable (h : Unrestricted w now used)
include h

theorem signedPreflight_eq {endpoint : StoreEndpoint}
    (haccepts : Accepts ext.secp w.server.baseUrl event
      ⟨"upload", endpoint.path, endpoint.method, none⟩ (call.clock 0)) :
    signedPreflight ext call endpoint event w.server = (.ok (), w.server) := by
  have hallowed : w.server.isAllowed event.pubkey endpoint.action = true := by
    simp [ServerState.isAllowed, h.access, AccessPolicy.isAllowed]
  exact Server.signedPreflight_eq haccepts hallowed h.limiter

theorem uploadPreflight_eq
    (haccepts : Accepts ext.secp w.server.baseUrl event ⟨"upload", "/upload", "PUT", none⟩
      (call.clock 0)) :
    uploadPreflight ext call (some event) w.server = (.ok (some event.pubkey), w.server) := by
  have hsigned : signedPreflight ext call uploadEndpoint event w.server = (.ok (), w.server) :=
    h.signedPreflight_eq haccepts
  simp only [uploadPreflight, hsigned]

theorem uploadChecks_eq (pubkey : Option String) (hash contentType : String) (data : Bytes) :
    uploadChecks w.server pubkey hash data contentType = .ok () := by
  have hquota : ∀ owner, checkQuotaStrict w.server.database hash owner data.length = .ok () := by
    intro owner
    have hroomy := MemoryDatabase.checkQuota_of_roomy h.roomy owner
      (additionalBytes w.server.database hash owner data.length)
    simp only [checkQuotaStrict, BlobDatabase.checkQuota, hroomy]
  have hmime : checkMime w.server.requirements contentType "content type is not allowed"
      = .ok () := by
    simp [checkMime, mimeAllowed, h.allowedTypes]
  simp only [uploadChecks, checkMaxSize, h.maxSize, Checks.ifSome_none, Checks.ok_bind, hmime]
  cases pubkey with
  | none => rfl
  | some owner => simp [hquota]

/-- An event that is accepted for a request can be used. -/
theorem verifyAuthEvent_eq {claimsNow : Nat} {request : Expectation}
    (haccepts : Accepts ext.secp w.server.baseUrl event request claimsNow) :
    ∃ seen, verifyAuthEvent ext claimsNow now w.seen event request.action w.server.baseUrl
        request.path request.method request.hash = (.ok (), seen)
      ∧ seen.Lapsed (saturatingAdd now 120) := by
  have hclaims : verifyAuthEventClaims ext.secp claimsNow event request.action w.server.baseUrl
      request.path request.method request.hash = .ok () := haccepts
  obtain ⟨hfresh, hlapsed⟩ := markAuthEventOnce_of_lapsed h.lapsed event
  refine ⟨_, ?_, hlapsed⟩
  simp only [verifyAuthEvent, hclaims]
  rw [← hfresh]

end

theorem nip96Checks_eq (h : Unrestricted w now used) (pubkey contentType : String)
    (data : Bytes) : nip96Checks w.server pubkey contentType data = .ok () := by
  have hmime : checkMime w.server.requirements contentType "content type is not allowed"
      = .ok () := by
    simp [checkMime, mimeAllowed, h.allowedTypes]
  have hroomy := MemoryDatabase.checkQuota_of_roomy h.roomy pubkey
    (additionalBytes w.server.database (sha256Hex data) pubkey data.length)
  simp only [nip96Checks, hmime, checkMaxSize, h.maxSize, Checks.ifSome_none, Checks.ok_bind,
    checkQuotaLenient, BlobDatabase.checkQuota, hroomy]

/-- A body is written over whatever is there. -/
theorem insertWhole_ok (h : Unrestricted w now used) (clock : Nat) {data : Bytes}
    (mimeType : BlobDescriptor → String) (pubkey : String) (phash : Option Nat)
    {respond : BlobDescriptor → Response}
    (hrespond : ∀ descriptor, (respond descriptor).status = .ok)
    (hroom : used + data.length < 2 ^ 64) :
    (insertWhole clock data mimeType pubkey phash respond w.server).1.status = .ok := by
  obtain ⟨hrecorded, -⟩ := MemoryDatabase.recordUpload_of_roomy h.roomy
    (uploadRecord (makeDescriptor data w.server.baseUrl clock)
      (mimeType (makeDescriptor data w.server.baseUrl clock)) (some pubkey) phash) hroom
  unfold insertWhole
  split
  · rename_i hinsert
    cases hinsert
  · rename_i descriptor backend hinsert
    obtain ⟨rfl, -⟩ := LawfulBlobBackend.get_tryInsert hinsert
    split
    · rename_i hrecord
      cases hrecorded.symm.trans (congrArg Prod.fst hrecord)
    · exact hrespond _

variable [LfsVersionDatabase ν]

/-- The store half of a commit does not fail in memory, and changes nothing but the two stores. -/
theorem storeUpload_eq (ext : Externals) (ctx : LfsContext) (hash : String) (data : Bytes)
    (insertNow recordNow : Nat) (s : ServerState MemoryBackend MemoryDatabase ν κ) :
    ∃ backend lfsVersionDb, storeUpload ext ctx hash data insertNow recordNow s
      = (.ok (), { s with backend := backend, lfsVersionDb := lfsVersionDb }) := by
  unfold storeUpload insertIfAbsent
  dsimp only
  split
  · rename_i hinsert
    split at hinsert
    · cases hinsert
    · cases hinsert
  · exact ⟨_, _, rfl⟩

theorem uploadCommit_ok (h : Unrestricted w now used) (ext : Externals) (call : Call)
    (headers : HeaderMap) (pubkey : Option String) {data : Bytes}
    (hroom : used + data.length < 2 ^ 64) :
    (uploadCommit ext call headers pubkey data w.server).1.status = .ok
      ∧ Unrestricted ⟨(uploadCommit ext call headers pubkey data w.server).2, w.seen⟩ now
        (used + data.length)
      ∧ (uploadCommit ext call headers pubkey data w.server).2.baseUrl = w.server.baseUrl := by
  obtain ⟨backend, lfsVersionDb, hstore⟩ := storeUpload_eq ext (requestContext ext headers)
    (sha256Hex data) data (call.clock 4) (call.clock 5) w.server
  obtain ⟨hrecorded, hroomy⟩ := MemoryDatabase.recordUpload_of_roomy h.roomy
    (uploadRecord
      (makeDescriptorFromHash (sha256Hex data) data.length w.server.baseUrl (call.clock 3))
      ((extractContentType headers).getD (detectMime data)) pubkey none) hroom
  unfold uploadCommit
  simp only [h.uploadChecks_eq, hstore, BlobDatabase.recordUpload]
  split
  · rename_i e database hrecord
    rw [hrecord] at hrecorded
    cases hrecorded
  · rename_i database hrecord
    rw [hrecord] at hroomy
    exact ⟨rfl, { h with roomy := hroomy }, rfl⟩

end Unrestricted

/-- A body of known length, at most a mebibyte long, is buffered. -/
theorem readBodyLimited_of_length {data : Bytes} (hlength : data.length ≤ 1048576)
    {headers : HeaderMap} (hheader : headers.contentLength = none) :
    readBodyLimited 256 ⟨data, some data.length, false⟩ (256 * 1024 * 1024)
      (declaredBodyLen headers) = .ok data := by
  have hpermits : bodyPermits data.length ≤ 256 := by
    unfold bodyPermits bodyBufferUnitBytes
    omega
  have hreservation : bodyReservation ⟨data, some data.length, false⟩ (256 * 1024 * 1024) none
      = .ok (bodyPermits data.length) := by
    have hsmall : ¬ 2 ^ 32 ≤ bodyPermits data.length := by omega
    rw [bodyReservation, if_neg (by decide), if_neg (by decide)]
    exact if_neg hsmall
  have hlimit : ¬ 268435456 < data.length := by omega
  have hdeclared : declaredBodyLen headers = none := by simp [declaredBodyLen, hheader]
  simp [readBodyLimited, hdeclared, hreservation, Nat.not_lt.mpr hpermits, collectBody, hlimit]

section Signed

variable (ext : Externals) (call : Call) (headers : HeaderMap) (body : RequestBody) {used : Nat}
  (h : Unrestricted w (call.clock 2) used) (hevent : extractAuthEvent ext.parser headers = .ok event)
  (hbody : readBodyLimited call.freePermits body (256 * 1024 * 1024) (declaredBodyLen headers)
    = .ok body.data)
  (hdata : body.data.isEmpty = false) (hroom : used + body.data.length < 2 ^ 64)
include h hevent hbody hdata hroom

/-- **A signed upload is accepted** by a server without limits, which stays without limits. -/
theorem upload_accepted [LfsVersionDatabase ν]
    (hbefore : Accepts ext.secp w.server.baseUrl event ⟨"upload", "/upload", "PUT", none⟩
      (call.clock 0)) (hafter : Accepts ext.secp w.server.baseUrl event
      ⟨"upload", "/upload", "PUT", some (sha256Hex body.data)⟩ (call.clock 1)) :
    (handleUpload ext call headers body w).1.status = .ok
      ∧ Unrestricted (handleUpload ext call headers body w).2 (saturatingAdd (call.clock 2) 120)
        (used + body.data.length)
      ∧ (handleUpload ext call headers body w).2.server.baseUrl = w.server.baseUrl := by
  have hheader : optionalAuthEvent ext headers = .ok (some event) := by
    simp [optionalAuthEvent, authorization_of_extractAuthEvent hevent, hevent, Except.map]
  obtain ⟨seen, hverify, hlapsed⟩ := h.verifyAuthEvent_eq hafter
  have hbind : uploadBind ext call (some event) w.server.baseUrl (sha256Hex body.data) w.seen
      = (.ok (), seen) := hverify
  obtain ⟨hstatus, hafterCommit, hbaseUrl⟩ := h.uploadCommit_ok ext call headers
    (some event.pubkey) hroom
  unfold handleUpload
  simp only [hheader, h.uploadPreflight_eq hbefore, h.bodyLimit, hbody, hdata, hbind,
    Bool.false_eq_true, if_false]
  exact ⟨hstatus, { hafterCommit with lapsed := hlapsed }, hbaseUrl⟩

/-- **A signed `POST /n96` is accepted** by a server without limits. -/
theorem nip96Upload_accepted
    (hbefore : Accepts ext.secp w.server.baseUrl event ⟨"upload", "/n96", "POST", none⟩
      (call.clock 0)) (hafter : Accepts ext.secp w.server.baseUrl event
      ⟨"upload", "/n96", "POST", some (sha256Hex body.data)⟩ (call.clock 1)) :
    (handleNip96Upload ext call headers body w).1.status = .ok := by
  have hpre : signedPreflight ext call nip96Endpoint event w.server = (.ok (), w.server) :=
    h.signedPreflight_eq hbefore
  obtain ⟨seen, hverify, -⟩ := h.verifyAuthEvent_eq hafter
  have hbound : boundBody ext call nip96Endpoint headers body event w.server.baseUrl
      (256 * 1024 * 1024) w.seen = (.ok body.data, seen) := by
    simp only [boundBody, hbody, hdata, Bool.false_eq_true, if_false]
    simp only [nip96Endpoint, hverify]
  unfold handleNip96Upload
  simp only [hevent, hpre, h.bodyLimit, hbound, nip96Commit, h.nip96Checks_eq, commitChecked]
  exact h.insertWhole_ok _ _ _ _ (fun _ => rfl) hroom

end Signed

end BlossomRs.Server

import BlossomRs.System.UploadPaths
import BlossomRs.Transport.StreamRuns

/-!
# One upload over two transports

The two paths of an upload are compared on the same body, key and tracked-file context, from the same
state.  `uploads_agree_iff` says exactly which uploads they agree on: which of them are accepted, and
what an accepted one leaves behind.
-/

namespace BlossomRs.System

open Protocol Auth Storage Database Access Lfs Locks Server

variable {β δ ν κ : Type}

section Agreement

variable [BlobBackend β] [BlobDatabase δ] [LfsVersionDatabase ν] {ext : Transport.Externals}
  {site : Site β δ ν κ} {principal : Option String} {now : Nat} {http : HttpUpload}
  {stream : StreamUpload}

/-- What an upload leaves behind is the same: blobs, owner records, bytes used and version records. -/
structure SameEffects [LawfulBlobDatabase δ] [OwnerRows δ] (s s' : ServerState β δ ν κ) : Prop where
  blobs : BlobBackend.get s.backend = BlobBackend.get s'.backend
  owners : (LawfulBlobDatabase.ledger s.database).owners = (LawfulBlobDatabase.ledger s'.database).owners
  ownerRecords : OwnerRows.find s.database = OwnerRows.find s'.database
  used : (LawfulBlobDatabase.ledger s.database).used = (LawfulBlobDatabase.ledger s'.database).used
  versions : s.lfsVersionDb = s'.lfsVersionDb

/-- The blob and its record can be written. -/
structure CanBeStored (ext : Server.Externals) (s : ServerState β δ ν κ) (principal : Option String)
    (ctx : LfsContext) (data : Bytes) (now : Nat) : Prop where
  blob : (storeUpload ext ctx (sha256Hex data) data now now s).1 = .ok ()
  record : (BlobDatabase.recordUpload s.database (recordAt s principal data octetStream now)).1 = .ok ()

/-- The database keeps the same record of the owner, whichever of two types is recorded. -/
def SameOwnerRecord [LawfulBlobDatabase δ] [OwnerRows δ] (s : ServerState β δ ν κ)
    (principal : Option String) (data : Bytes) (contentType : String) (now : Nat) : Prop :=
  OwnerRows.find s.database (sha256Hex data, principal.getD "anonymous") = none →
    (OwnerRows.row (recordAt s principal data contentType now) : OwnerRows.Row δ)
      = OwnerRows.row (recordAt s principal data octetStream now)

omit [BlobDatabase δ] in
theorem database_storeUpload (ext : Server.Externals) (ctx : LfsContext) (hash : String) (data : Bytes)
    (insertNow recordNow : Nat) (s : ServerState β δ ν κ) :
    (storeUpload ext ctx hash data insertNow recordNow s).2.database = s.database := by
  unfold storeUpload
  dsimp only
  split <;> rfl

/-- The state after a commit that succeeds. -/
def committed (ext : Server.Externals) (ctx : LfsContext) (principal : Option String) (data : Bytes)
    (mimeType : String) (now : Nat) (s : ServerState β δ ν κ) : ServerState β δ ν κ :=
  { (storeUpload ext ctx (sha256Hex data) data now now s).2 with
    database := (BlobDatabase.recordUpload s.database (recordAt s principal data mimeType now)).2 }

/-- Whatever type is recorded, an upload can be committed where it can be stored. -/
theorem commitUpload_eq [LawfulBlobDatabase δ] [OwnerRows δ] (ext : Server.Externals)
    (ctx : LfsContext) (principal : Option String) (data : Bytes) (mimeType : String) (now : Nat)
    (s : ServerState β δ ν κ) :
    (CanBeStored ext s principal ctx data now
        ∧ commitUpload ext ctx principal data mimeType now s
          = some (committed ext ctx principal data mimeType now s))
      ∨ (¬ CanBeStored ext s principal ctx data now
        ∧ commitUpload ext ctx principal data mimeType now s = none) := by
  have hdatabase := database_storeUpload ext ctx (sha256Hex data) data now now s
  have hresult : (BlobDatabase.recordUpload s.database (recordAt s principal data mimeType now)).1
      = (BlobDatabase.recordUpload s.database (recordAt s principal data octetStream now)).1 :=
    OwnerRows.result_mimeType s.database (recordAt s principal data octetStream now) mimeType
  unfold commitUpload committed
  cases hstore : storeUpload ext ctx (sha256Hex data) data now now s with
  | mk result s₁ =>
    rw [hstore] at hdatabase
    cases result with
    | error e =>
      refine Or.inr ⟨fun h => ?_, rfl⟩
      have hblob := h.blob
      rw [hstore] at hblob
      cases hblob
    | ok _ =>
      dsimp only at hdatabase ⊢
      rw [hdatabase]
      cases hrecord : BlobDatabase.recordUpload s.database
          (recordAt s principal data mimeType now) with
      | mk recorded database =>
        rw [hrecord] at hresult
        cases recorded with
        | error e =>
          refine Or.inr ⟨fun h => ?_, rfl⟩
          cases hresult.trans h.record
        | ok _ =>
          refine Or.inl ⟨⟨?_, hresult.symm⟩, rfl⟩
          rw [hstore]

/-- An upload is accepted if it passes its checks and can be stored. -/
theorem Outcome.canBeStored [LawfulBlobDatabase δ] [OwnerRows δ] {accepted both other : Prop}
    {ext : Server.Externals} {ctx : LfsContext} {data : Bytes} {mimeType : String}
    {s after : ServerState β δ ν κ}
    (h : Outcome accepted (both ∧ other) (commitUpload ext ctx principal data mimeType now s) after) :
    (accepted ↔ both ∧ other ∧ CanBeStored ext s principal ctx data now)
      ∧ (accepted → SameStores (committed ext ctx principal data mimeType now s) after) := by
  rcases commitUpload_eq ext ctx principal data mimeType now s with ⟨hcan, heq⟩ | ⟨hcannot, heq⟩
  · rw [heq] at h
    refine ⟨h.accepted_iff.trans ?_, fun haccepted => ?_⟩
    · exact ⟨fun ⟨hchecks, _⟩ => ⟨hchecks.1, hchecks.2, hcan⟩,
        fun ⟨hboth, hother, _⟩ => ⟨⟨hboth, hother⟩, rfl⟩⟩
    · obtain ⟨s', hs', hsame⟩ := h.stores haccepted
      exact Option.some.inj hs' ▸ hsame
  · rw [heq] at h
    have hrefused : ¬ accepted := fun haccepted => nomatch (h.accepted_iff.mp haccepted).2
    exact ⟨iff_of_false hrefused fun hall => hcannot hall.2.2, fun hok => absurd hok hrefused⟩

/-- Two commits of an upload differ in the owner's record at most. -/
theorem sameEffects_committed_iff [LawfulBlobDatabase δ] [OwnerRows δ] {ext : Server.Externals}
    {ctx : LfsContext} {data : Bytes} {contentType : String} {s s₁ s₂ : ServerState β δ ν κ}
    (hcan : CanBeStored ext s principal ctx data now)
    (h₁ : SameStores (committed ext ctx principal data contentType now s) s₁)
    (h₂ : SameStores (committed ext ctx principal data octetStream now s) s₂) :
    SameEffects s₁ s₂ ↔ SameOwnerRecord s principal data contentType now := by
  have hfirst : BlobDatabase.recordUpload s.database (recordAt s principal data contentType now)
      = (.ok (), s₁.database) := by
    rw [h₁.database]
    refine Prod.ext ?_ rfl
    rw [← hcan.record]
    exact OwnerRows.result_mimeType s.database (recordAt s principal data octetStream now) contentType
  have hsecond : BlobDatabase.recordUpload s.database (recordAt s principal data octetStream now)
      = (.ok (), s₂.database) := by
    rw [h₂.database]
    exact Prod.ext hcan.record rfl
  have hrecords : OwnerRows.find s₁.database = OwnerRows.find s₂.database
      ↔ SameOwnerRecord s principal data contentType now := find_eq_iff hfirst hsecond
  constructor
  · intro hsame
    exact hrecords.mp hsame.ownerRecords
  · intro hrow
    obtain ⟨howners, hused⟩ := owners_mimeType hfirst hsecond
    refine ⟨?_, howners, hrecords.mpr hrow, hused, ?_⟩
    · rw [h₁.backend, h₂.backend]
      rfl
    · rw [h₁.lfsVersionDb, h₂.lfsVersionDb]
      rfl

variable [LockDatabase κ]

/-- **The two transports agree on an upload** exactly when it fails the checks that both make or
cannot be stored, or else its type is allowed if and only if its principal is admitted, and then the
database keeps the same record of the owner for its type. -/
theorem uploads_agree_iff [LawfulBlobDatabase δ] [OwnerRows δ]
    (h : SameUpload ext site principal now http stream) :
    ((http.Accepted ext site ↔ stream.Accepted ext site)
        ∧ (http.Accepted ext site → stream.Accepted ext site →
          SameEffects (http.after ext site) (stream.after ext site)))
      ↔ (BothCheck site.server principal http.body.data →
        CanBeStored ext.toExternals site.server principal
          (Transport.parseLfsFromRequest stream.request) http.body.data now →
        (mimeAllowed site.server.requirements http.contentType = true
            ↔ AnonymousAdmitted site.server principal http.body.data)
          ∧ (mimeAllowed site.server.requirements http.contentType = true →
            SameOwnerRecord site.server principal http.body.data http.contentType now)) := by
  obtain ⟨hhttp, hafter⟩ := (http_outcome h).canBeStored
  obtain ⟨hstream, hstreamAfter⟩ := (stream_outcome h).canBeStored
  constructor
  · rintro ⟨hsame, heffects⟩ hboth hcan
    have hagree : mimeAllowed site.server.requirements http.contentType = true
        ↔ AnonymousAdmitted site.server principal http.body.data := by
      rw [hhttp, hstream] at hsame
      exact ⟨fun hmime => (hsame.mp ⟨hboth, hmime, hcan⟩).2.1,
        fun hanonymous => (hsame.mpr ⟨hboth, hanonymous, hcan⟩).2.1⟩
    refine ⟨hagree, fun hmime => ?_⟩
    have haccepted := hhttp.mpr ⟨hboth, hmime, hcan⟩
    have hstreamed := hsame.mp haccepted
    exact (sameEffects_committed_iff hcan (hafter haccepted) (hstreamAfter hstreamed)).mp
      (heffects haccepted hstreamed)
  · intro hagree
    constructor
    · rw [hhttp, hstream]
      constructor
      · rintro ⟨hboth, hmime, hcan⟩
        exact ⟨hboth, (hagree hboth hcan).1.mp hmime, hcan⟩
      · rintro ⟨hboth, hanonymous, hcan⟩
        exact ⟨hboth, (hagree hboth hcan).1.mpr hanonymous, hcan⟩
    · intro haccepted hstreamed
      obtain ⟨hboth, hmime, hcan⟩ := hhttp.mp haccepted
      exact (sameEffects_committed_iff hcan (hafter haccepted) (hstreamAfter hstreamed)).mpr
        ((hagree hboth hcan).2 hmime)

end Agreement

/-! ### Anonymous uploads of a new server -/

/-- A new server that may restrict the media types, and may be open to the keys of a list only. -/
def newSite (allowedTypes : List String) (whitelist : Option Whitelist) :
    Site MemoryBackend MemoryDatabase MemoryLfsVersionDatabase MemoryLockDatabase :=
  let server : ServerState MemoryBackend MemoryDatabase MemoryLfsVersionDatabase MemoryLockDatabase :=
    .new MemoryBackend.new serverUrl
  ⟨{ server with
      requirements := ⟨none, allowedTypes, false⟩
      access := if whitelist.isSome then .liveWhitelist else .openAccess
      whitelist := whitelist },
    seenAuthEvents, .new 0 0, Transport.maxInFlightBodyBytes⟩

/-- A request without an event, with a declared type. -/
def plainHttp (contentType : Header) (data : Bytes) : HttpUpload where
  call := ⟨fun _ => 0, 0, 256⟩
  headers := ⟨none, none, contentType⟩
  body := ⟨data, some data.length, false⟩

/-- A stream without an event. -/
def plainStream (data : Bytes) : StreamUpload :=
  let moment : Transport.Moment := ⟨⟨0, by decide⟩, 0, "", some data⟩
  { receiver := ""
    request := { Transport.Request.of .upload with
      sha256 := sha256Hex data
      bodyLen := UInt64.ofNat data.length }
    opened := ⟨0, by decide⟩
    sized := moment
    admitted := moment
    reserved := moment
    committed := moment
    stored := moment }

/-! ### A signed upload of a server with restrictions -/

/-- A server for one key, which has to sign what it uploads, of sixteen bytes and one type at most. -/
def memberSite : Site MemoryBackend MemoryDatabase MemoryLfsVersionDatabase MemoryLockDatabase :=
  let server : ServerState MemoryBackend MemoryDatabase MemoryLfsVersionDatabase MemoryLockDatabase :=
    .new MemoryBackend.new serverUrl
  ⟨{ server with
      requirements := ⟨some 16, [octetStream], true⟩
      access := .liveWhitelist
      whitelist := some ⟨[testKey]⟩ },
    seenAuthEvents, .new 10000 256, Transport.maxInFlightBodyBytes⟩

/-- The upload of `memberUpload`, for a stream. -/
def memberStreamRequest : Transport.Request :=
  { Transport.Request.of .upload with sha256 := sha256Hex [1], bodyLen := 1 }

def memberStreamEvent : NostrEvent :=
  Transport.peerEvent
    (0x5bc0e088ec642f2ffdb21d769c63a2dea958cb90dd2e0861b45134a1f2e76755,
      0x46a5ce686577e14c36b3d9a2d9393086353edb829999451c7a761f3204d09798)
    memberStreamRequest

def bothExternals : Transport.Externals :=
  .knowing [memberUpload.event, memberStreamEvent]

def memberHttp : HttpUpload :=
  ⟨memberUpload.request.call, memberUpload.request.headers, memberUpload.request.body⟩

theorem memberTime_lt : 1700000000 < 2 ^ 63 := by
  decide

def memberStream : StreamUpload :=
  let moment : Transport.Moment := ⟨⟨1700000000, memberTime_lt⟩, 0, "", some [1]⟩
  { receiver := "iroh://peer"
    request := { memberStreamRequest with auth := authHeaderValue memberStreamEvent }
    opened := moment.now
    sized := moment
    admitted := moment
    reserved := moment
    committed := moment
    stored := moment }

theorem sameUpload_member :
    SameUpload bothExternals memberSite (some testKey) 1700000000 memberHttp memberStream where
  op := rfl
  hash := rfl
  length := rfl
  body := rfl
  context := by
    exact PresignedUpload.context_request (u := memberUpload) List.mem_cons_self
  sentHttp := by
    have hmem : memberUpload.event ∈ [memberUpload.event, memberStreamEvent] := List.mem_cons_self
    have hnone : ∀ x, none = some x → memberUpload.signed.hash = some x := by simp
    have hwell : memberUpload.signed.WellFormed := by decide
    obtain ⟨seen, hverified⟩ := SignedRequest.verifies hwell hmem (fun _ h => h)
      (lapsed_seenAuthEvents 1700000000)
    exact ⟨memberUpload.event, SignedRequest.extractAuthEvent_headers hmem, rfl,
      SignedRequest.accepts hwell hmem hnone, congrArg Prod.fst hverified⟩
  sentStream := by
    have hmem : memberStreamEvent ∈ [memberUpload.event, memberStreamEvent] :=
      List.mem_cons_of_mem _ (List.mem_singleton_self _)
    refine ⟨authHeaderValue_ne_empty _, _, Transport.verifyAuth_peerEvent hmem rfl rfl
      ⟨rfl, rfl, rfl, rfl⟩ _ (by decide) (by decide), rfl, ?_⟩
    exact Transport.call_new ⟨_, _, _⟩
  clockHttp _ _ := rfl
  clockStream := rfl
  rateHttp := rfl
  rateStream := rfl
  roomHttp := readBodyLimited_of_length (by decide) rfl
  roomStream := by decide

/-- Both transports accept the upload, and leave the same behind. -/
theorem signed_upload_agrees :
    memberHttp.Accepted bothExternals memberSite
      ∧ memberStream.Accepted bothExternals memberSite
      ∧ SameEffects (memberHttp.after bothExternals memberSite)
        (memberStream.after bothExternals memberSite) := by
  have hmime : mimeAllowed memberSite.server.requirements memberHttp.contentType = true := by decide
  obtain ⟨hsame, heffects⟩ := (uploads_agree_iff sameUpload_member).mpr fun _ _ =>
    ⟨iff_of_true hmime (by rintro ⟨⟩), fun _ _ => rfl⟩
  have haccepted : memberHttp.Accepted bothExternals memberSite := by
    have hchecks : BothCheck memberSite.server (some testKey) [1] := by
      refine ⟨by decide, Or.inr rfl, ?_, ?_, ?_⟩
      · rintro _ ⟨⟩
        exact decide_eq_true (List.mem_singleton_self testKey)
      · rintro _ ⟨⟩
        decide
      · rintro _ ⟨⟩
        rfl
    exact (http_outcome sameUpload_member).canBeStored.1.mpr
      ⟨hchecks, hmime, by decide +kernel, by decide +kernel⟩
  exact ⟨haccepted, hsame.mp haccepted, heffects haccepted (hsame.mp haccepted)⟩

/-- Three anonymous uploads the transports do not agree on: one of a type that is not allowed, one to a
server for a few keys only, and one that declares its type. -/
theorem transports_disagree :
    (¬ (plainHttp (some (some "text/plain")) [1]).Accepted (.knowing []) (newSite ["image/png"] none)
        ∧ (plainStream [1]).Accepted (.knowing []) (newSite ["image/png"] none))
      ∧ ((plainHttp none [1]).Accepted (.knowing []) (newSite [] (some ⟨[testKey]⟩))
        ∧ ¬ (plainStream [1]).Accepted (.knowing []) (newSite [] (some ⟨[testKey]⟩)))
      ∧ ((plainHttp (some (some "text/plain")) [1]).Accepted (.knowing []) (newSite [] none)
        ∧ (plainStream [1]).Accepted (.knowing []) (newSite [] none)
        ∧ ¬ SameEffects
          ((plainHttp (some (some "text/plain")) [1]).after (.knowing []) (newSite [] none))
          ((plainStream [1]).after (.knowing []) (newSite [] none))) := by
  unfold HttpUpload.Accepted StreamUpload.Accepted
  refine ⟨by decide +kernel, by decide +kernel, by decide +kernel, by decide +kernel, ?_⟩
  -- the records of the owner differ in their type
  intro heffects
  have hrow : ((plainHttp (some (some "text/plain")) [1]).after (.knowing [])
        (newSite [] none)).database.owners.lookup (sha256Hex [1], "anonymous")
      = ((plainStream [1]).after (.knowing []) (newSite [] none)).database.owners.lookup
        (sha256Hex [1], "anonymous") := congrFun heffects.ownerRecords _
  revert hrow
  decide +kernel

end BlossomRs.System

import BlossomRs.Server.AuthRuns

/-!
# Authorization of pushes

A push carries a bearer event of the repository's owner, bound to the repository, the URL, the method
and, once it has been read, the body.  Accepted events are remembered in a replay cache of their own,
which is the same code as the HTTP server's.

Base64 decoding, parsing and signature checking of the event are the work of libraries here, as are
bech32 and URL parsing.
-/

namespace BlossomRs.GitServer

open Protocol Auth Checks ReplayWindow

/-- What the push check calls outside the repository. -/
structure Externals where
  decodeUrlSafe : String → Option Bytes
  decodeStandard : String → Option Bytes
  parseEvent : Bytes → Option NostrEvent
  verifyEvent : NostrEvent → Bool
  npubToHex : String → Option String
  isUrl : String → Bool

/-- A push, as far as its authorization looks at it. -/
structure PushRequest where
  authorization : Server.Header
  npub : String
  repoName : String
  expectedUrl : String
  method : String
  bodyHash : Option String

structure VerifiedPushAuth where
  pubkey : String
  eventId : String
  now : Nat
deriving DecidableEq, Repr

/-- The event in the header. -/
def decodePushAuth (ext : Externals) (header : Server.Header) : Except String NostrEvent :=
  match header with
  | some (some value) =>
    if RustStr.startsWith value "Nostr " then
      let b64 := RustStr.dropChars 6 value
      match (ext.decodeUrlSafe b64).orElse fun _ => ext.decodeStandard b64 with
      | some json => (ext.parseEvent json).elim (.error "invalid Nostr event in authorization") .ok
      | none => .error "invalid base64 in authorization"
    else .error "authorization must use 'Nostr <base64>' format"
  | _ => .error "push requires Authorization header"

/-- The key the repository belongs to. -/
def expectedPubkey (ext : Externals) (npub : String) : Except String String :=
  if RustStr.startsWith npub "npub1" then
    (ext.npubToHex npub).elim (.error "invalid npub in URL") .ok
  else .ok npub

/-- The value of a tag that stands once, with one value. -/
def uniqueTag (event : NostrEvent) (name : String) : Option String :=
  match namedTags event name with
  | [[_, value]] => some value
  | _ => none

/-- What the event says about the push. -/
def checkPushTags (ext : Externals) (now : Nat) (event : NostrEvent) (push : PushRequest) :
    Except String Unit := do
  require (uniqueTag event "t" = some "git-push" ∧ uniqueTag event "repo" = some push.repoName
      ∧ (uniqueTag event "method").any (RustStr.eqIgnoreAsciiCase · push.method))
    "push authorization is not bound to this operation"
  let url ← okOr (uniqueTag event "u") "push authorization missing URL"
  require (ext.isUrl url = true) "push authorization URL is invalid"
  require (url = push.expectedUrl) "push authorization is for a different repository or server"
  let expiration ← okOr ((uniqueTag event "expiration").bind (RustStr.parseUnsigned 64))
    "push authorization missing expiration"
  require (now ≤ expiration ∧ expiration ≤ saturatingAdd event.createdAt.toNat 120)
    "push authorization expired"
  ifSome push.bodyHash fun hash => require (uniqueTag event "x" = some hash)
    "push authorization is for a different request body"
  require ((uniqueTag event "nonce").any (· ≠ "")) "push authorization is missing a nonce"

/-- The checks of a decoded event. -/
def verifyPushEvent (ext : Externals) (now : Nat) (event : NostrEvent) (push : PushRequest) :
    Except String VerifiedPushAuth := do
  require (ext.verifyEvent event = true) "invalid event signature"
  let expected ← expectedPubkey ext push.npub
  require (event.pubkey = expected) "authorization pubkey does not match repository owner"
  require (event.kind = 24242 ∧ event.createdAt.toNat ≤ saturatingAdd now 30
      ∧ now - event.createdAt.toNat ≤ 60)
    "push authorization is stale, future-dated, or wrong kind"
  checkPushTags ext now event push
  .ok ⟨event.pubkey, event.id, now⟩

/-- `verify_push_auth_claims`. -/
def verifyPushAuthClaims (ext : Externals) (now : Nat) (push : PushRequest) :
    Except String VerifiedPushAuth := do
  let event ← decodePushAuth ext push.authorization
  verifyPushEvent ext now event push

/-- `mark_auth_event_once`. -/
def markAuthEventOnce (seen : Server.ReplayCache) (principal eventId : String) (now : Nat) :
    Bool × Server.ReplayCache :=
  seen.checkAndInsert principal eventId now (saturatingAdd now 120)

/-- `verify_push_auth`. -/
def verifyPushAuth (ext : Externals) (now : Nat) (seen : Server.ReplayCache) (push : PushRequest) :
    Except String String × Server.ReplayCache :=
  match verifyPushAuthClaims ext now push with
  | .error e => (.error e, seen)
  | .ok verified =>
    let (fresh, seen) := markAuthEventOnce seen verified.pubkey verified.eventId verified.now
    (if fresh then .ok verified.pubkey else .error "push authorization has already been used", seen)

/-! ### Pushes over time -/

/-- A push and the time of its check. -/
structure PushCheck where
  push : PushRequest
  now : SystemTime

/-- The check, on the cache before it. -/
def pushCheck (ext : Externals) (seen : Server.ReplayCache) (check : PushCheck) :
    Except String String × Server.ReplayCache :=
  verifyPushAuth ext check.now.secs seen check.push

/-- What a push presents to the cache, if its claims hold. -/
def PushCheck.claims (ext : Externals) (check : PushCheck) : Option (Attempt String String) :=
  match verifyPushAuthClaims ext check.now.secs check.push with
  | .ok verified => some ⟨verified.pubkey, verified.eventId, verified.now⟩
  | .error _ => none

theorem verifyPushAuthClaims_eq_ok {ext : Externals} {now : Nat} {push : PushRequest}
    {verified : VerifiedPushAuth} (h : verifyPushAuthClaims ext now push = .ok verified) :
    ∃ event, decodePushAuth ext push.authorization = .ok event
      ∧ checkFreshness now event = .ok () ∧ verified = ⟨event.pubkey, event.id, now⟩ := by
  obtain ⟨event, hevent, h⟩ := bind_eq_ok.mp h
  simp only [verifyPushEvent, seq_eq_ok, require_eq_ok] at h
  obtain ⟨-, h⟩ := h
  obtain ⟨expected, -, h⟩ := bind_eq_ok.mp h
  simp only [seq_eq_ok, require_eq_ok, Except.ok.injEq] at h
  obtain ⟨-, ⟨-, hfresh⟩, -, hverified⟩ := h
  exact ⟨event, hevent, checkFreshness_eq_ok_iff.mpr hfresh, hverified.symm⟩

theorem PushCheck.claims_eq_some {ext : Externals} {check : PushCheck}
    {attempt : Attempt String String} (h : check.claims ext = some attempt) :
    ∃ event, decodePushAuth ext check.push.authorization = .ok event
      ∧ checkFreshness check.now.secs event = .ok ()
      ∧ attempt = ⟨event.pubkey, event.id, check.now.secs⟩ := by
  unfold PushCheck.claims at h
  split at h
  · rename_i verified hverified
    obtain ⟨event, hevent, hfresh, rfl⟩ := verifyPushAuthClaims_eq_ok hverified
    exact ⟨event, hevent, hfresh, (Option.some.inj h).symm⟩
  · cases h

theorem guardedCheck_pushCheck (ext : Externals) :
    Server.GuardedCheck (pushCheck ext) (PushCheck.claims ext) PushCheck.now
      fun check event => decodePushAuth ext check.push.authorization = .ok event where
  step_eq seen check := by
    unfold pushCheck verifyPushAuth guarded PushCheck.claims
    cases verifyPushAuthClaims ext check.now.secs check.push with
    | error e => rfl
    | ok verified =>
      refine Prod.ext ?_ rfl
      dsimp only [markAuthEventOnce, Server.ReplayCache.call]
      split <;> simp [Except.isOk, Except.toBool, *]
  claims_eq := PushCheck.claims_eq_some

/-- **No event passes twice**, neither the server's check nor the push check, unless a limit of the
cache made it forget the event in between. -/
theorem replayed_events_refused (http : Server.Externals) (git : Externals)
    (seen : Server.ReplayCache) :
    (∀ (first again : Server.AuthCheck) (mid : List Server.AuthCheck),
      (first :: mid ++ [again]).Pairwise (·.now.secs ≤ ·.now.secs) →
      (Server.authCheck http seen first).1.isOk = true → again.event = first.event →
      (∀ pre check post, mid = pre ++ check :: post →
        ¬ Server.EvictsForLimit (Server.authCheck http)
          (Runs.after (Server.authCheck http) seen (first :: pre)) check check.now first.event.id) →
      (Server.authCheck http (Runs.after (Server.authCheck http) seen (first :: mid)) again).1.isOk
        = false)
    ∧ ∀ (first again : PushCheck) (mid : List PushCheck) (event : NostrEvent),
      (first :: mid ++ [again]).Pairwise (·.now.secs ≤ ·.now.secs) →
      decodePushAuth git first.push.authorization = .ok event →
      (pushCheck git seen first).1.isOk = true →
      decodePushAuth git again.push.authorization = .ok event →
      (∀ pre check post, mid = pre ++ check :: post →
        ¬ Server.EvictsForLimit (pushCheck git) (Runs.after (pushCheck git) seen (first :: pre)) check
          check.now event.id) →
      (pushCheck git (Runs.after (pushCheck git) seen (first :: mid)) again).1.isOk = false := by
  constructor
  · intro first again mid hclock hfirst hsame hkept
    exact (Server.guardedCheck_authCheck http).refuses hclock hfirst (fun e he => he)
      (fun e he => he.trans hsame) hkept
  · intro first again mid event hclock hevent hfirst hsame hkept
    exact (guardedCheck_pushCheck git).refuses hclock hfirst
      (fun e he => Except.ok.inj (he.symm.trans hevent))
      (fun e he => Except.ok.inj (he.symm.trans hsame)) hkept

/-- An event of the owner of a repository; the signature was computed beforehand. -/
def ownerEvent (sig : Nat × Nat) (time : Nat) (kind : UInt32) (tags : List (List String)) :
    NostrEvent where
  id := Hex.encode (computeEventId testKey (UInt64.ofNat time) kind tags "").toList
  pubkey := testKey
  createdAt := UInt64.ofNat time
  kind := kind
  tags := tags
  content := ""
  sig := signatureHex sig

/-- A push of the owner, authorized at a given second. -/
structure OwnerPush where
  sig : Nat × Nat
  time : Nat
  body : Bytes

namespace OwnerPush

variable (p : OwnerPush)

def event : NostrEvent :=
  ownerEvent p.sig p.time 24242 [["t", "git-push"], ["repo", "r"], ["method", "POST"],
    ["u", "http://h/r"], ["expiration", "1100"], ["x", sha256Hex p.body], ["nonce", "n"]]

def request (bodyHash : Option String) : PushRequest :=
  ⟨some (some (authHeaderValue p.event)), testKey, "r", "http://h/r", "POST", bodyHash⟩

def checkedAt (now : SystemTime) : PushCheck :=
  ⟨p.request none, now⟩

end OwnerPush

/-- Libraries that know some events. -/
def Externals.knowing (events : List NostrEvent) : Externals where
  decodeUrlSafe text := (base64urlDecode text).toOption
  decodeStandard _ := none
  parseEvent := (Server.Externals.knowing events).parser.parse
  verifyEvent event := decide (event ∈ events)
  npubToHex _ := none
  isUrl _ := true

variable {events : List NostrEvent} {p : OwnerPush}

theorem decodePushAuth_knowing {event : NostrEvent} (hmem : event ∈ events) :
    decodePushAuth (.knowing events) (some (some (authHeaderValue event))) = .ok event := by
  have hlength : "Nostr ".toList.length = 6 := by decide
  have hparse := Server.parse_knowing hmem
  simp only [decodePushAuth, authHeaderValue, RustStr.startsWith_append, if_true,
    RustStr.dropChars_append hlength, Externals.knowing, base64urlDecode_base64urlEncode,
    Except.toOption, Option.orElse_some, hparse, Option.elim_some]

/-- What the checks say of the fixed texts. -/
structure OwnerTexts : Prop where
  method : RustStr.eqIgnoreAsciiCase "POST" "POST" = true
  expiration : RustStr.parseUnsigned 64 "1100" = some 1100
  notNpub : RustStr.startsWith testKey "npub1" = false

theorem ownerTexts : OwnerTexts := by
  constructor <;> decide

/-- The claims of a known push hold for a minute, before its body is read and after. -/
theorem verifyPushAuthClaims_owner (hmem : p.event ∈ events) {hash : Option String}
    (hhash : hash = none ∨ hash = some (sha256Hex p.body)) {now : Nat} (hearly : 980 ≤ p.time)
    (hnow : p.time ≤ now) (hlate : now ≤ p.time + 60) (hlast : p.time + 60 ≤ 1100) :
    verifyPushAuthClaims (.knowing events) now (p.request hash) = .ok ⟨testKey, p.event.id, now⟩ := by
  have htime : p.event.createdAt.toNat = p.time := by
    simp only [OwnerPush.event, ownerEvent, UInt64.toNat_ofNat']
    omega
  have hkey : expectedPubkey (.knowing events) testKey = .ok testKey := by
    simp [expectedPubkey, ownerTexts.notNpub]
  have htags : checkPushTags (.knowing events) now p.event (p.request hash) = .ok () := by
    have htag : ∀ name value, namedTags p.event name = [[name, value]] →
        uniqueTag p.event name = some value := by
      intro name value h
      rw [uniqueTag, h]
    rw [checkPushTags, htag "t" "git-push" rfl, htag "repo" "r" rfl, htag "method" "POST" rfl,
      htag "u" "http://h/r" rfl, htag "expiration" "1100" rfl, htag "x" _ rfl, htag "nonce" "n" rfl,
      htime]
    simp only [seq_eq_ok, require_eq_ok, okOr, Option.elim_some, ok_bind, Option.any_some,
      Option.bind_some, ownerTexts.method, ownerTexts.expiration, saturatingAdd, OwnerPush.request,
      Externals.knowing, ifSome_eq_ok]
    refine ⟨⟨trivial, trivial, trivial⟩, trivial, trivial, require_of_true ⟨by omega, by omega⟩, ?_,
      by decide⟩
    rcases hhash with rfl | rfl <;> simp
  rw [verifyPushAuthClaims, OwnerPush.request, decodePushAuth_knowing hmem, ok_bind]
  simp only [verifyPushEvent, seq_eq_ok, require_eq_ok]
  refine ⟨decide_eq_true hmem, ?_⟩
  rw [hkey, ok_bind]
  simp only [seq_eq_ok, require_eq_ok]
  exact ⟨rfl, ⟨rfl, by rw [htime, saturatingAdd]; omega, by rw [htime]; omega⟩, htags, rfl⟩

/-- Two pushes, the second one half a minute later. -/
def firstPush : OwnerPush :=
  ⟨(0xd1758cdcb515587e73ba4105c929b5c1e968ba256cede1092b0313b69a1f0689,
      0x1db621fa56dbd1b209575426a2293592acc5321e0575e047dc3bdbd1eedc3f60), 1000, []⟩

def laterPush : OwnerPush :=
  ⟨(0x24f32d17560130f18b9e1bf25f79f46f9d1bfba6f26d293e3e075986e67fc391,
      0xc4289303e5275f2b9ea564dfcab0e82c5b45fb4ef460415fbd40ea81ad2a85be), 1030, []⟩

/-- Two deletes of a blob, the second one half a minute later. -/
def laterDelete : Server.SignedRequest :=
  { Server.emptyBlobDelete with
    sig := (0x0454df93a93224cd0ac2d8003155d23a2eaa8d8f5399ce95a9c4e3e512b0741e,
      0x0b1303fc7f7482b0c830032bd18d534f2e6922955341a09c41d0373aa1441d6e)
    time := 1700000030 }

def twoDeletes : List NostrEvent :=
  [Server.emptyBlobDelete.event, laterDelete.event]

def deleteAt (r : Server.SignedRequest) (now : SystemTime) : Server.AuthCheck where
  event := r.event
  expected := ⟨"delete", "/" ++ sha256Hex [], "delete", some (sha256Hex [])⟩
  baseUrl := Server.serverUrl
  now := now

/-- The claims of the first one hold when it is made. -/
theorem claims_deleteAt {first : Server.AuthCheck}
    (h : first = deleteAt Server.emptyBlobDelete ⟨1700000000, by decide⟩) :
    first.claims (Server.Externals.knowing twoDeletes).secp
      = some ⟨first.event.pubkey, first.event.id, 1700000000⟩ := by
  subst h
  exact if_pos (Server.SignedRequest.accepts (r := Server.emptyBlobDelete) (by decide)
    List.mem_cons_self (fun _ h => h))

/-- Another event is checked between the two checks of one, at the server and at the push endpoint.
A minute after the first check, the last second of the event, it is refused. -/
theorem repeated_delete_and_push_refused :
    (Server.authCheck (.knowing twoDeletes)
      (Runs.after (Server.authCheck (.knowing twoDeletes)) (.new 10000 256)
        [deleteAt Server.emptyBlobDelete ⟨1700000000, by decide⟩,
          deleteAt laterDelete ⟨1700000030, by decide⟩])
      (deleteAt Server.emptyBlobDelete ⟨1700000060, by decide⟩)).1.isOk = false
    ∧ (pushCheck (.knowing [firstPush.event, laterPush.event])
      (Runs.after (pushCheck (.knowing [firstPush.event, laterPush.event])) (.new 10000 256)
        [firstPush.checkedAt ⟨1000, by decide⟩, laterPush.checkedAt ⟨1030, by decide⟩])
      (firstPush.checkedAt ⟨1060, by decide⟩)).1.isOk = false := by
  obtain ⟨hhttp, hgit⟩ := replayed_events_refused (.knowing twoDeletes)
    (.knowing [firstPush.event, laterPush.event]) (.new 10000 256)
  constructor
  · have hclock : (deleteAt Server.emptyBlobDelete ⟨1700000000, by decide⟩
        :: [deleteAt laterDelete ⟨1700000030, by decide⟩]
        ++ [deleteAt Server.emptyBlobDelete ⟨1700000060, by decide⟩]).Pairwise
          (·.now.secs ≤ ·.now.secs) := by
      simp [deleteAt]
    have hsame : (deleteAt Server.emptyBlobDelete ⟨1700000060, by decide⟩).event
        = (deleteAt Server.emptyBlobDelete ⟨1700000000, by decide⟩).event := rfl
    generalize hfirst : deleteAt Server.emptyBlobDelete ⟨1700000000, by decide⟩ = first at *
    have hclaims := claims_deleteAt hfirst.symm
    refine hhttp first _ [_] hclock ((Server.guardedCheck_authCheck _).isOk_of_claims hclaims) hsame ?_
    simp only [Runs.forall_split_cons, Runs.forall_split_nil, and_true]
    exact (Server.guardedCheck_authCheck _).keeps_first hclaims _
  · have hclaims : (firstPush.checkedAt ⟨1000, by decide⟩).claims
        (.knowing [firstPush.event, laterPush.event])
          = some ⟨testKey, firstPush.event.id, 1000⟩ := by
      have hverified : verifyPushAuthClaims (.knowing [firstPush.event, laterPush.event])
          (firstPush.checkedAt ⟨1000, by decide⟩).now.secs (firstPush.checkedAt ⟨1000, by decide⟩).push
            = .ok ⟨testKey, firstPush.event.id, 1000⟩ :=
        verifyPushAuthClaims_owner List.mem_cons_self (Or.inl rfl) (by decide) (by decide) (by decide)
          (by decide)
      rw [PushCheck.claims, hverified]
    refine hgit (firstPush.checkedAt ⟨1000, by decide⟩) (firstPush.checkedAt ⟨1060, by decide⟩)
      [laterPush.checkedAt ⟨1030, by decide⟩] firstPush.event (by simp [OwnerPush.checkedAt])
      (decodePushAuth_knowing List.mem_cons_self) ?_ (decodePushAuth_knowing List.mem_cons_self) ?_
    · exact (guardedCheck_pushCheck _).isOk_of_claims hclaims
    · simp only [Runs.forall_split_cons, Runs.forall_split_nil, and_true]
      exact (guardedCheck_pushCheck _).keeps_first hclaims _

end BlossomRs.GitServer

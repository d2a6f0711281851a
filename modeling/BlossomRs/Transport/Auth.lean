import BlossomRs.Server.State
import BlossomRs.Transport.Wire

/-!
# Authorization of streams

The event of a request is a bearer event for the receiving peer.  Requests that change something are
also bound to what they act on: to the blob's hash, or to a digest of the parameters of a lock
operation, and an upload's tracking tags must be those of the request.

`accepted_requests_agree`: an event that is accepted for two requests of one operation was accepted
for the same parameters, and it is not accepted for two different lock operations.
-/

namespace BlossomRs.Transport

open Protocol Auth Checks

/-- What the transport calls outside the repository, with the parser's error texts. -/
structure Externals extends Server.Externals where
  eventError : Bytes → String

structure VerifiedAuth where
  pubkey : String
  eventId : String
deriving DecidableEq, Repr

/-- The event in an `auth` field; the scheme in front of it is optional. -/
def decodeAuth (ext : Externals) (authHeader : String) : Except String NostrEvent :=
  let b64 := if RustStr.startsWith authHeader "Nostr " then RustStr.dropChars 6 authHeader
    else authHeader
  match base64urlDecode b64 with
  | .error e => .error ("invalid auth encoding: " ++ e)
  | .ok json =>
    match ext.parser.parse json with
    | some event => .ok event
    | none => .error ("invalid auth event: " ++ ext.eventError json)

/-- The action an event must name for an operation. -/
def actionOf : Op → String
  | .upload => "upload"
  | .delete => "delete"
  | .get | .list | .head => "get"
  | .lockCreate | .lockDelete | .lockList | .lockVerify => "lock"

/-- The parameters of a lock operation, as they are signed. -/
def lockTuple (req : Request) : Option (List Json) :=
  match req.op with
  | .lockCreate => some [.str "lock-create", .str req.repoId, .str req.lockPath]
  | .lockDelete => some [.str "lock-delete", .str req.repoId, .str req.lockId, .bool req.force]
  | .lockVerify => some [.str "lock-verify", .str req.repoId, .str req.cursor, .num req.limit.toNat]
  | _ => none

/-- The text of the signed parameters. -/
def tupleText (tuple : List Json) : Bytes :=
  RustStr.asBytes (Json.arr tuple).print

/-- `request_auth_binding`. -/
def requestAuthBinding (req : Request) : Option String :=
  match req.op with
  | .upload | .delete => some req.sha256
  | _ => (lockTuple req).map fun tuple => sha256Hex (tupleText tuple)

/-- The value of a tag that may stand once, with one value. -/
def uniqueTag (event : NostrEvent) (name : String) : Except String (Option String) :=
  match namedTags event name with
  | [] => .ok none
  | [[_, value]] => .ok (some value)
  | _ => .error ("malformed or duplicate " ++ name ++ " authorization tag")

/-- A text field, absent when empty. -/
def nonempty (text : String) : Option String :=
  if text = "" then none else some text

def notBoundToContext : String :=
  "authorization is not bound to this LFS context"

/-- A tag and a text field of the request agree. -/
def checkField (event : NostrEvent) (name field : String) : Except String Unit := do
  let tag ← uniqueTag event name
  require (tag = nonempty field) notBoundToContext

/-- Tags that mark an upload as tracked. -/
def lfsTags (event : NostrEvent) : Nat :=
  event.tags.countP fun tag => tag.take 2 == ["t", "lfs"]

/-- `verify_lfs_auth_binding`. -/
def verifyLfsAuthBinding (event : NostrEvent) (req : Request) : Except String Unit := do
  require (lfsTags event = if req.lfsPath ≠ "" ∨ req.lfsRepo ≠ "" then 1 else 0) notBoundToContext
  checkField event "path" req.lfsPath
  checkField event "repo" req.lfsRepo
  checkField event "base" req.lfsBase
  require (event.tags.count ["manifest"] = if req.lfsManifest then 1 else 0) notBoundToContext

/-- The tag that carries the binding of a request. -/
def bindingTags (event : NostrEvent) : List (List String) :=
  (namedTags event "x").filter (·.length = 2)

/-- The event names the receiver and carries the binding. -/
def verifyBinding (event : NostrEvent) (receiver : String) (binding : String) :
    Except String Unit := do
  require (namedTags event "server" = [["server", receiver]])
    "authorization is for a different iroh server"
  require (bindingTags event = [["x", binding]]) "authorization is not bound to this request"

/-- Only uploads have a tracking context. -/
def verifyContext (event : NostrEvent) (req : Request) : Except String Unit :=
  if req.op = .upload then verifyLfsAuthBinding event req else .ok ()

/-- The checks of a decoded event. -/
def verifyEvent (secp : Secp256k1) (now : Nat) (event : NostrEvent) (req : Request)
    (receiver : String) : Except String VerifiedAuth := do
  require (event.kind = 24242) "iroh requires a Blossom kind:24242 authorization event"
  (verifyBlossomAuth secp now event (some (actionOf req.op))).mapError AuthError.message
  ifSome (requestAuthBinding req) (verifyBinding event receiver)
  verifyContext event req
  .ok ⟨event.pubkey, event.id⟩

/-- `verify_auth`. -/
def verifyAuth (ext : Externals) (now : Nat) (authHeader : String) (req : Request)
    (receiver : String) : Except String VerifiedAuth := do
  let event ← decodeAuth ext authHeader
  verifyEvent ext.secp now event req receiver

/-! ### What an accepted event says about its request -/

variable {event : NostrEvent} {receiver binding : String} {u : Unit} {req req' : Request}
    {secp : Secp256k1} {now now' : Nat} {auth auth' : VerifiedAuth}

theorem uniqueTag_eq_ok_iff {name : String} {value : Option String} :
    uniqueTag event name = .ok value
      ↔ namedTags event name = (value.map fun v => [name, v]).toList := by
  unfold uniqueTag
  split
  case h_1 hnone => cases value <;> simp [hnone]
  case h_2 first v htags =>
    obtain rfl := namedTags_pair htags
    cases value <;> simp [htags]
  case h_3 hnone hpair =>
    cases value with
    | none => simpa using hnone
    | some v => simpa using hpair name v

theorem checkField_eq_ok_iff {name field : String} :
    checkField event name field = .ok u ↔ uniqueTag event name = .ok (nonempty field) := by
  rw [checkField, bind_eq_ok]
  constructor
  · rintro ⟨tag, htag, hrequire⟩
    rw [htag, require_eq_ok.mp hrequire]
  · intro htag
    exact ⟨_, htag, require_eq_ok.mpr rfl⟩

theorem verifyLfsAuthBinding_eq_ok_iff :
    verifyLfsAuthBinding event req = .ok u
      ↔ lfsTags event = (if req.lfsPath ≠ "" ∨ req.lfsRepo ≠ "" then 1 else 0)
        ∧ uniqueTag event "path" = .ok (nonempty req.lfsPath)
        ∧ uniqueTag event "repo" = .ok (nonempty req.lfsRepo)
        ∧ uniqueTag event "base" = .ok (nonempty req.lfsBase)
        ∧ event.tags.count ["manifest"] = (if req.lfsManifest then 1 else 0) := by
  simp only [verifyLfsAuthBinding, seq_eq_ok, require_eq_ok, checkField_eq_ok_iff]

theorem verifyBinding_eq_ok_iff :
    verifyBinding event receiver binding = .ok u
      ↔ namedTags event "server" = [["server", receiver]]
        ∧ bindingTags event = [["x", binding]] := by
  simp only [verifyBinding, seq_eq_ok, require_eq_ok]

/-- What an event must contain to be accepted for a request. -/
theorem verifyEvent_eq_ok_iff :
    verifyEvent secp now event req receiver = .ok auth
      ↔ event.kind = 24242
        ∧ verifyBlossomAuth secp now event (some (actionOf req.op)) = .ok ()
        ∧ (∀ binding, requestAuthBinding req = some binding →
          namedTags event "server" = [["server", receiver]]
            ∧ bindingTags event = [["x", binding]])
        ∧ (req.op = .upload → verifyLfsAuthBinding event req = .ok ())
        ∧ auth = ⟨event.pubkey, event.id⟩ := by
  have hcontext : verifyContext event req = .ok ()
      ↔ (req.op = .upload → verifyLfsAuthBinding event req = .ok ()) := by
    unfold verifyContext
    split <;> simp [*]
  simp only [verifyEvent, seq_eq_ok, require_eq_ok, mapError_eq_ok, ifSome_eq_ok,
    verifyBinding_eq_ok_iff, hcontext, Except.ok.injEq, eq_comm (a := auth)]

/-- The parameters an operation acts on. -/
def SameParameters (req req' : Request) : Prop :=
  match req.op with
  | .upload => req.sha256 = req'.sha256 ∧ req.lfsPath = req'.lfsPath ∧ req.lfsRepo = req'.lfsRepo
      ∧ req.lfsBase = req'.lfsBase ∧ req.lfsManifest = req'.lfsManifest
  | .delete => req.sha256 = req'.sha256
  | .lockCreate => req.repoId = req'.repoId ∧ req.lockPath = req'.lockPath
  | .lockDelete => req.repoId = req'.repoId ∧ req.lockId = req'.lockId ∧ req.force = req'.force
  | .lockVerify => req.repoId = req'.repoId ∧ req.cursor = req'.cursor ∧ req.limit = req'.limit
  | .get | .head | .list | .lockList => True

theorem nonempty_injective : Function.Injective nonempty := by
  intro s t h
  unfold nonempty at h
  split at h <;> split at h <;> simp_all

theorem tupleText_injective : Function.Injective tupleText := by
  intro tuple tuple' h
  exact Json.arr.inj (Json.print_injective (RustStr.asBytes_injective h))

section

variable (h : verifyEvent secp now event req receiver = .ok auth)
    (h' : verifyEvent secp now' event req' receiver = .ok auth')
include h h'

/-- What two accepting requests share: the binding tag and, for uploads, the tracking tags. -/
theorem binding_eq {binding' : String} (hbinding : requestAuthBinding req = some binding)
    (hbinding' : requestAuthBinding req' = some binding') : binding = binding' := by
  obtain ⟨-, -, hbound, -⟩ := verifyEvent_eq_ok_iff.mp h
  obtain ⟨-, -, hbound', -⟩ := verifyEvent_eq_ok_iff.mp h'
  simpa using (hbound binding hbinding).2.symm.trans (hbound' binding' hbinding').2

/-- Signed tuples that give the same binding are equal, where the digest has no collision. -/
theorem tuple_eq {tuple tuple' : List Json}
    (hbinding : requestAuthBinding req = some (sha256Hex (tupleText tuple)))
    (hbinding' : requestAuthBinding req' = some (sha256Hex (tupleText tuple')))
    (hfree : Sha256.CollisionFreeOn (· ∈ [tupleText tuple, tupleText tuple'])) :
    tuple = tuple' := by
  have hhex := binding_eq h h' hbinding hbinding'
  exact tupleText_injective (hfree _ _ (by simp) (by simp) (sha256_eq_of_sha256Hex_eq hhex))

/-- Uploads agree on everything their events say. -/
theorem upload_parameters (hop : req.op = .upload) (hop' : req'.op = .upload) :
    req.sha256 = req'.sha256 ∧ req.lfsPath = req'.lfsPath ∧ req.lfsRepo = req'.lfsRepo
      ∧ req.lfsBase = req'.lfsBase ∧ req.lfsManifest = req'.lfsManifest := by
  have hsha256 := binding_eq h h' (by rw [requestAuthBinding, hop]) (by rw [requestAuthBinding, hop'])
  obtain ⟨-, -, -, hcontext, -⟩ := verifyEvent_eq_ok_iff.mp h
  obtain ⟨-, -, -, hcontext', -⟩ := verifyEvent_eq_ok_iff.mp h'
  obtain ⟨-, hpath, hrepo, hbase, hmanifest⟩ := verifyLfsAuthBinding_eq_ok_iff.mp (hcontext hop)
  obtain ⟨-, hpath', hrepo', hbase', hmanifest'⟩ :=
    verifyLfsAuthBinding_eq_ok_iff.mp (hcontext' hop')
  have hfield : ∀ {tag : Except String (Option String)} {field field' : String},
      tag = .ok (nonempty field) → tag = .ok (nonempty field') → field = field' := by
    intro tag field field' htag htag'
    exact nonempty_injective (Except.ok.inj (htag.symm.trans htag'))
  refine ⟨hsha256, hfield hpath hpath', hfield hrepo hrepo', hfield hbase hbase', ?_⟩
  have hcount := hmanifest.symm.trans hmanifest'
  cases hflag : req.lfsManifest <;> cases hflag' : req'.lfsManifest <;> simp [hflag, hflag'] at hcount
    <;> rfl

end

/-! ### Events made for a request -/

/-- The event a peer makes for a request without a tracking context. -/
def buildRequestAuth (signer : BlossomSigner) (createdAt : UInt64) (nonce receiver : String)
    (req : Request) : NostrEvent :=
  buildBlossomAuthWithExtraTags signer createdAt nonce (actionOf req.op) (requestAuthBinding req)
    (some receiver) "" []

/-- An event that a peer makes for a request is accepted while it is fresh, up to the tracking context
of uploads, if its other tags do not bind it a second time. -/
theorem verifyEvent_build_iff {signer : BlossomSigner} {createdAt : UInt64} {nonce : String}
    {extraTags : List (List String)}
    (hevent : event = buildBlossomAuthWithExtraTags signer createdAt nonce (actionOf req.op)
      (some binding) (some receiver) "" extraTags)
    (hbinding : requestAuthBinding req = some binding)
    (hextra : ∀ tag ∈ extraTags, ∀ name ∈ ["server", "x", "expiration"], tag.head? ≠ some name)
    (haction : ["t", actionOf req.op] ∉ extraTags) (hearly : createdAt.toNat ≤ now + 30)
    (hlate : now ≤ createdAt.toNat + 60) (hrange : createdAt.toNat + 60 < 2 ^ 64)
    (hsig : verify secp event.pubkey event.computedId event.sig = true) :
    verifyEvent secp now event req receiver = .ok ⟨event.pubkey, event.id⟩
      ↔ (req.op = .upload → verifyLfsAuthBinding event req = .ok ()) := by
  have htags : event.tags = [["t", actionOf req.op], ["x", binding], ["server", receiver]]
      ++ extraTags ++ [["nonce", nonce], ["expiration", toString (createdAt.toNat + 60)]] := by
    rw [hevent]
    rfl
  have hcreated : event.createdAt = createdAt := by rw [hevent]; rfl
  have hkind : event.kind = 24242 := by rw [hevent]; rfl
  have hnamed : ∀ name, namedTags event name = event.tags.filter (·.head? == some name) :=
    fun _ => rfl
  have hnone : ∀ name ∈ ["server", "x", "expiration"],
      extraTags.filter (fun tag => tag.head? == some name) = [] := by
    intro name hname
    rw [List.filter_eq_nil_iff]
    intro tag htag
    simpa using hextra tag htag name hname
  simp only [List.forall_mem_cons] at hnone
  obtain ⟨hserver, hx, hexpires, -⟩ := hnone
  have hauth : verifyBlossomAuth secp now event (some (actionOf req.op)) = .ok () := by
    simp only [verifyBlossomAuth, seq_eq_ok, require_eq_ok, ifSome_some]
    refine ⟨hkind, ?_, ?_, ?_, checkIdentity_eq_ok_iff.mpr ⟨by rw [hevent]; rfl, hsig⟩⟩
    · rw [checkFreshness_eq_ok_iff, hcreated, saturatingAdd]
      omega
    · have hexpiration : namedTags event "expiration"
          = [["expiration", toString (createdAt.toNat + 60)]] := by
        rw [hnamed, htags]
        simp [hexpires]
      rw [checkExpiration, hexpiration]
      simp only [RustStr.parseUnsigned_toString hrange, require_eq_ok, hcreated, saturatingAdd]
      omega
    · have hcount : event.tags.count ["t", actionOf req.op] = 1 := by
        rw [htags]
        simp [List.count_append, List.count_eq_zero.mpr haction]
      simp only [checkAction, hcount]
  have hbound : ∀ other, requestAuthBinding req = some other →
      namedTags event "server" = [["server", receiver]] ∧ bindingTags event = [["x", other]] := by
    intro other hother
    rw [hbinding, Option.some.injEq] at hother
    subst hother
    rw [bindingTags, hnamed, hnamed, htags]
    simp [hserver, hx]
  rw [verifyEvent_eq_ok_iff]
  constructor
  · exact fun h => h.2.2.2.1
  · exact fun hcontext => ⟨hkind, hauth, hbound, hcontext, rfl⟩

/-- It is accepted while it is fresh. -/
theorem verifyEvent_build {signer : BlossomSigner} {createdAt : UInt64} {nonce : String}
    (hevent : event = buildRequestAuth signer createdAt nonce receiver req)
    (hbinding : requestAuthBinding req = some binding)
    (hcontext : req.lfsPath = "" ∧ req.lfsRepo = "" ∧ req.lfsBase = "" ∧ req.lfsManifest = false)
    (hearly : createdAt.toNat ≤ now + 30) (hlate : now ≤ createdAt.toNat + 60)
    (hrange : createdAt.toNat + 60 < 2 ^ 64)
    (hsig : verify secp event.pubkey event.computedId event.sig = true) :
    verifyEvent secp now event req receiver = .ok ⟨event.pubkey, event.id⟩ := by
  rw [buildRequestAuth, hbinding] at hevent
  refine (verifyEvent_build_iff hevent hbinding (by simp) (by simp) hearly hlate hrange hsig).mpr ?_
  intro _
  have htags : event.tags = [["t", actionOf req.op], ["x", binding], ["server", receiver],
      ["nonce", nonce], ["expiration", toString (createdAt.toNat + 60)]] := by
    rw [hevent]
    rfl
  have hnamed : ∀ name, namedTags event name = event.tags.filter (·.head? == some name) :=
    fun _ => rfl
  obtain ⟨hpath, hrepo, hbase, hmanifest⟩ := hcontext
  have haction : actionOf req.op ≠ "lfs" := by
    cases req.op <;> decide
  refine verifyLfsAuthBinding_eq_ok_iff.mpr ⟨?_, ?_, ?_, ?_, ?_⟩
  · rw [lfsTags, htags, hpath, hrepo]
    simp [haction]
  · rw [uniqueTag_eq_ok_iff, hnamed, htags, hpath]
    simp [nonempty]
  · rw [uniqueTag_eq_ok_iff, hnamed, htags, hrepo]
    simp [nonempty]
  · rw [uniqueTag_eq_ok_iff, hnamed, htags, hbase]
    simp [nonempty]
  · rw [htags, hmanifest]
    simp

/-- The operations on locks that are bound to their parameters. -/
def IsLockChange (op : Op) : Prop :=
  op = .lockCreate ∨ op = .lockDelete ∨ op = .lockVerify

@[simp] theorem isLockChange_lockCreate : IsLockChange .lockCreate :=
  Or.inl rfl

@[simp] theorem isLockChange_lockDelete : IsLockChange .lockDelete :=
  Or.inr (Or.inl rfl)

@[simp] theorem isLockChange_lockVerify : IsLockChange .lockVerify :=
  Or.inr (Or.inr rfl)

/-- **One event, one set of parameters.**  An event that is accepted for two requests of one
operation was accepted for the same parameters, and it is accepted for one lock operation at most. -/
theorem accepted_requests_agree (ext : Externals) (event : NostrEvent) (receiver : String)
    (header header' : String) (req req' : Request) (now now' : Nat) (auth auth' : VerifiedAuth)
    (hevent : decodeAuth ext header = .ok event) (hevent' : decodeAuth ext header' = .ok event)
    (haccepted : verifyAuth ext now header req receiver = .ok auth)
    (haccepted' : verifyAuth ext now' header' req' receiver = .ok auth')
    (hfree : ∀ tuple tuple', lockTuple req = some tuple → lockTuple req' = some tuple' →
      Sha256.CollisionFreeOn (· ∈ [tupleText tuple, tupleText tuple'])) :
    (req.op = req'.op → SameParameters req req')
      ∧ (IsLockChange req.op → IsLockChange req'.op → req.op = req'.op) := by
  rw [verifyAuth, hevent, ok_bind] at haccepted
  rw [verifyAuth, hevent', ok_bind] at haccepted'
  have htuple : ∀ {tuple tuple'}, lockTuple req = some tuple → lockTuple req' = some tuple' →
      IsLockChange req.op → IsLockChange req'.op → tuple = tuple' := by
    intro tuple tuple' ht ht' hop hop'
    have hbinding : ∀ {r : Request} {t : List Json}, lockTuple r = some t → IsLockChange r.op →
        requestAuthBinding r = some (sha256Hex (tupleText t)) := by
      intro r t ht hop
      rcases hop with hop | hop | hop <;> simp [requestAuthBinding, hop, ht]
    exact tuple_eq haccepted haccepted' (hbinding ht hop) (hbinding ht' hop') (hfree _ _ ht ht')
  constructor
  · intro hsame
    unfold SameParameters
    cases hop : req.op with
    | upload => exact upload_parameters haccepted haccepted' hop (hsame ▸ hop)
    | delete =>
      exact binding_eq haccepted haccepted' (by rw [requestAuthBinding, hop])
        (by rw [requestAuthBinding, ← hsame, hop])
    | lockCreate =>
      have hop' : req'.op = .lockCreate := hsame ▸ hop
      have htuples := htuple (by rw [lockTuple, hop]) (by rw [lockTuple, hop']) (by simp [hop])
        (by simp [hop'])
      simpa using htuples
    | lockDelete =>
      have hop' : req'.op = .lockDelete := hsame ▸ hop
      have htuples := htuple (by rw [lockTuple, hop]) (by rw [lockTuple, hop']) (by simp [hop])
        (by simp [hop'])
      simpa using htuples
    | lockVerify =>
      have hop' : req'.op = .lockVerify := hsame ▸ hop
      have htuples := htuple (by rw [lockTuple, hop]) (by rw [lockTuple, hop']) (by simp [hop])
        (by simp [hop'])
      simpa [UInt32.toNat_inj] using htuples
    | get | head | list | lockList => trivial
  · intro hlock hlock'
    -- the operation is the first entry of its tuple
    rcases hlock with hop | hop | hop <;> rcases hlock' with hop' | hop' | hop' <;>
      first
      | exact hop.trans hop'.symm
      | (have htuples := htuple (by rw [lockTuple, hop]) (by rw [lockTuple, hop']) (by simp [hop])
          (by simp [hop'])
         simp at htuples)

/-- A request to remove a lock.  The path of a lock has no meaning here. -/
def unlockRequest (lockPath : String) : Request :=
  { Request.of .lockDelete with
    repoId := "org/repo", lockId := "7", force := true, lockPath := lockPath }

/-- The event of a request to a peer; the signature was computed beforehand. -/
def peerEvent (sig : Nat × Nat) (req : Request) : NostrEvent :=
  buildRequestAuth ⟨testKey, fun _ => signatureHex sig⟩ 1700000000 "n" "iroh://peer" req

def unlockEvent : NostrEvent :=
  peerEvent (0x2a3a68b1629308640265adf51a9dedabe507f9c4ce533cade491cb18d7234a3a,
    0xf1ebfcc666760f55393bfbdf9a48e136f8c1fcb329923cf487b9add9e39d7f3b)
    (unlockRequest "")

/-- Externals that know some events. -/
def Externals.knowing (events : List NostrEvent) : Externals where
  toExternals := .knowing events
  eventError _ := "expected value at line 1 column 1"

/-- A header is read back as the event that it was made from. -/
theorem decodeAuth_of_parse {ext : Externals}
    (hparse : ext.parser.parse (RustStr.asBytes event.toJson.print) = some event) :
    decodeAuth ext (authHeaderValue event) = .ok event := by
  have hlength : "Nostr ".toList.length = 6 := by decide
  simp only [decodeAuth, authHeaderValue, RustStr.startsWith_append, if_true,
    RustStr.dropChars_append hlength, base64urlDecode_base64urlEncode, hparse]

theorem decodeAuth_authHeaderValue {events : List NostrEvent} (hmem : event ∈ events) :
    decodeAuth (.knowing events) (authHeaderValue event) = .ok event :=
  decodeAuth_of_parse (Server.parse_knowing hmem)

/-- It is accepted while it is fresh, by a check that knows its signature. -/
theorem verifyAuth_peerEvent {events : List NostrEvent} {sig : Nat × Nat} (hmem : event ∈ events)
    (hevent : event = peerEvent sig req) (hbinding : requestAuthBinding req = some binding)
    (hcontext : req.lfsPath = "" ∧ req.lfsRepo = "" ∧ req.lfsBase = "" ∧ req.lfsManifest = false)
    (now : Nat) (hearly : 1700000000 ≤ now + 30) (hlate : now ≤ 1700000060) :
    verifyAuth (.knowing events) now (authHeaderValue event) req "iroh://peer"
      = .ok ⟨event.pubkey, event.id⟩ := by
  have hsig : verify (.knowing events) event.pubkey event.computedId event.sig = true :=
    verify_testKey hmem (by rw [hevent]; rfl) (by rw [hevent]; rfl)
  rw [verifyAuth, decodeAuth_authHeaderValue hmem, ok_bind]
  exact verifyEvent_build hevent hbinding hcontext hearly hlate (by decide) hsig

/-- One event is accepted at two times for requests that differ where the operation does not look,
and they agree where it does. -/
theorem unlockEvent_accepted_twice :
    verifyAuth (.knowing [unlockEvent]) 1699999970 (authHeaderValue unlockEvent)
        (unlockRequest "a") "iroh://peer" = .ok ⟨unlockEvent.pubkey, unlockEvent.id⟩
      ∧ verifyAuth (.knowing [unlockEvent]) 1700000060 (authHeaderValue unlockEvent)
        (unlockRequest "b") "iroh://peer" = .ok ⟨unlockEvent.pubkey, unlockEvent.id⟩
      ∧ SameParameters (unlockRequest "a") (unlockRequest "b") := by
  have hunlock : ∀ lockPath now, 1700000000 ≤ now + 30 → now ≤ 1700000060 →
      verifyAuth (.knowing [unlockEvent]) now (authHeaderValue unlockEvent) (unlockRequest lockPath)
        "iroh://peer" = .ok ⟨unlockEvent.pubkey, unlockEvent.id⟩ := fun lockPath now =>
    verifyAuth_peerEvent (List.mem_singleton_self _) rfl rfl ⟨rfl, rfl, rfl, rfl⟩ now
  have hfirst := hunlock "a" 1699999970 (by decide) (by decide)
  have hsecond := hunlock "b" 1700000060 (by decide) (by decide)
  have hevent := decodeAuth_authHeaderValue (List.mem_singleton_self unlockEvent)
  refine ⟨hfirst, hsecond, ?_⟩
  refine (accepted_requests_agree _ unlockEvent _ _ _ _ _ _ _ _ _ hevent hevent hfirst hsecond
    ?_).1 rfl
  intro tuple tuple' htuple htuple' x y hx hy _
  obtain rfl : tuple = tuple' := Option.some.inj (htuple.symm.trans htuple')
  simp only [List.mem_cons, List.not_mem_nil, or_false, or_self] at hx hy
  rw [hx, hy]

end BlossomRs.Transport

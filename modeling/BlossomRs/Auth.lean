import BlossomRs.Lib.Checks
import BlossomRs.Protocol

/-!
# Verifying authorization events

The two verifiers of a signed event (`kind:24242` bearer events and `kind:27235` HTTP events) and
the dispatch between them that every HTTP handler goes through.

Clock readings are arguments, in whole seconds.  The curve arithmetic behind a signature check is a
parameter; decoding of the key and the signature around it is the code's own.

The lemmas say what an accepted event must contain: every binding check succeeds exactly when the
tags of that name are one tag with the expected value, which is what makes an event unusable for
a second request.
-/

namespace BlossomRs.Auth

open Protocol Checks

/-- Signature arithmetic: parse an x-only key and check a 64-byte signature of a digest. -/
structure Secp256k1 where
  verifySchnorr : Bytes → Sha256.Digest → Bytes → Bool

/-- Errors of event verification. -/
inductive AuthError where
  | wrongKind (kind : UInt32)
  | expired
  | futureDated
  | missingTag (name : String)
  | duplicateTag (name : String)
  | malformedTag (name : String)
  | wrongAction
  | wrongServer
  | wrongResource
  | invalidEventId
  | invalidSignature
  | replay
deriving DecidableEq, Repr

/-- The text of an error, as it is put in a response. -/
def AuthError.message : AuthError → String
  | .wrongKind kind => "wrong event kind: expected 24242, got " ++ toString kind.toNat
  | .expired => "auth event has expired"
  | .futureDated => "auth event is dated too far in the future"
  | .missingTag name => "missing required auth tag: " ++ name
  | .duplicateTag name => "duplicate auth tag: " ++ name
  | .malformedTag name => "malformed auth tag: " ++ name
  | .wrongAction => "action tag does not match expected action"
  | .wrongServer => "auth event is for a different server"
  | .wrongResource => "auth event is for a different resource"
  | .invalidEventId => "event ID does not match computed hash"
  | .invalidSignature => "BIP-340 signature verification failed"
  | .replay => "authorization event has already been used"

/-- A reading of the system clock, in whole seconds since the epoch.  The clock itself counts seconds
in a signed 64-bit number. -/
structure SystemTime where
  secs : Nat
  secs_lt : secs < 2 ^ 63

/-- `u64::saturating_add`. -/
def saturatingAdd (a b : Nat) : Nat :=
  min (a + b) (2 ^ 64 - 1)

/-- `Signer::verify`. -/
def verify (secp : Secp256k1) (pubkeyHex : String) (message : Sha256.Digest) (sigHex : String) :
    Bool :=
  match Hex.decode pubkeyHex, Hex.decode sigHex with
  | some pub, some sig =>
    pub.length == 32 && sig.length == 64 && secp.verifySchnorr pub message sig
  | _, _ => false

/-- The tags whose first entry is `name`. -/
def namedTags (event : NostrEvent) (name : String) : List (List String) :=
  event.tags.filter fun tag => tag.head? == some name

/-- The creation time lies in the window both verifiers accept. -/
def checkFreshness (now : Nat) (event : NostrEvent) : Except AuthError Unit := do
  require (event.createdAt.toNat ≤ saturatingAdd now 30) .futureDated
  require (now - event.createdAt.toNat ≤ 60) .expired

/-- The id is the digest of the fields, and the signature is one of that digest. -/
def checkIdentity (secp : Secp256k1) (event : NostrEvent) : Except AuthError Unit := do
  require (Hex.encode event.computedId.toList = event.id) .invalidEventId
  require (verify secp event.pubkey event.computedId event.sig = true) .invalidSignature

/-- Exactly one expiration tag, well formed, not past and not too far ahead. -/
def checkExpiration (now : Nat) (event : NostrEvent) : Except AuthError Unit :=
  match namedTags event "expiration" with
  | [] => .error (.missingTag "expiration")
  | [[_, value]] =>
    match RustStr.parseUnsigned 64 value with
    | none => .error (.malformedTag "expiration")
    | some expiration =>
      require (now ≤ expiration ∧ expiration ≤ saturatingAdd event.createdAt.toNat 120)
        .expired
  | [_] => .error (.malformedTag "expiration")
  | _ => .error (.duplicateTag "expiration")

/-- Exactly one `t` tag carries the expected action; other `t` tags may stand beside it. -/
def checkAction (event : NostrEvent) (expected : String) : Except AuthError Unit :=
  match event.tags.count ["t", expected] with
  | 1 => .ok ()
  | 0 => .error (if (namedTags event "t").isEmpty then .missingTag "t" else .wrongAction)
  | _ => .error (.duplicateTag "t")

/-- `verify_blossom_auth`. -/
def verifyBlossomAuth (secp : Secp256k1) (now : Nat) (event : NostrEvent)
    (expectedAction : Option String) : Except AuthError Unit := do
  require (event.kind = 24242) (.wrongKind event.kind)
  checkFreshness now event
  checkExpiration now event
  ifSome expectedAction (checkAction event)
  checkIdentity secp event

/-- `verify_unique_tag`. -/
def verifyUniqueTag (event : NostrEvent) (name expected : String) (mismatch : AuthError) :
    Except AuthError Unit :=
  match namedTags event name with
  | [] => .error (.missingTag name)
  | [[_, value]] => require (value = expected) mismatch
  | [_] => .error (.malformedTag name)
  | _ => .error (.duplicateTag name)

/-- `verify_blossom_auth_bound`. -/
def verifyBlossomAuthBound (secp : Secp256k1) (now : Nat) (event : NostrEvent)
    (expectedAction expectedServer expectedUrl expectedMethod : String)
    (expectedHash : Option String) : Except AuthError Unit := do
  verifyBlossomAuth secp now event (some expectedAction)
  verifyUniqueTag event "server" expectedServer .wrongServer
  verifyUniqueTag event "u" expectedUrl .wrongResource
  verifyUniqueTag event "method" (RustStr.toAsciiUppercase expectedMethod) .wrongAction
  ifSome expectedHash fun hash => verifyUniqueTag event "x" hash .wrongResource

/-- One tag of the name, with one value that passes. -/
def checkSingleTag (event : NostrEvent) (name : String) (passes : String → Bool) :
    Except AuthError Unit :=
  match namedTags event name with
  | [[_, value]] => require (passes value = true) .wrongAction
  | _ => .error .wrongAction

/-- `verify_nip98_auth_with_payload`. -/
def verifyNip98AuthWithPayload (secp : Secp256k1) (now : Nat) (event : NostrEvent)
    (expectedUrl expectedMethod expectedPayload : Option String) : Except AuthError Unit := do
  require (event.kind = 27235) (.wrongKind event.kind)
  checkFreshness now event
  ifSome expectedUrl fun url => checkSingleTag event "u" (· == url)
  ifSome expectedMethod fun method =>
    checkSingleTag event "method" (RustStr.eqIgnoreAsciiCase · method)
  ifSome expectedPayload fun payload => checkSingleTag event "payload" (· == payload)
  checkIdentity secp event

/-- The methods whose body a `kind:27235` event can be bound to. -/
def bindsPayload (method : String) : Bool :=
  method == "POST" || method == "PUT" || method == "PATCH"

/-- The server part of the base URL. -/
def serverOf (baseUrl : String) : String :=
  RustStr.trimEndMatches '/' baseUrl

/-- `verify_auth_event_claims`. -/
def verifyAuthEventClaims (secp : Secp256k1) (now : Nat) (event : NostrEvent)
    (expectedAction baseUrl path method : String) (expectedHash : Option String) :
    Except AuthError Unit :=
  let server := serverOf baseUrl
  let requestUrl := server ++ path
  if event.kind = 24242 then
    verifyBlossomAuthBound secp now event expectedAction server requestUrl method expectedHash
  else if event.kind = 27235 then
    verifyNip98AuthWithPayload secp now event (some requestUrl) (some method)
      (if bindsPayload method then expectedHash else none)
  else .error (.wrongKind event.kind)

/-! ### What an accepted event contains -/

variable {event : NostrEvent} {name : String} {u : Unit} {now : Nat} {secp : Secp256k1}

/-- A tag found by its name starts with that name. -/
theorem namedTags_pair {first value : String} (h : namedTags event name = [[first, value]]) :
    first = name := by
  have hmem : [first, value] ∈ event.tags.filter fun tag => tag.head? == some name := by
    change [first, value] ∈ namedTags event name
    simp [h]
  simpa using (List.mem_filter.mp hmem).2

/-- A unique-tag check passes exactly when the tags of the name are one pair with the value. -/
theorem verifyUniqueTag_eq_ok_iff {expected : String} {mismatch : AuthError} :
    verifyUniqueTag event name expected mismatch = .ok u
      ↔ namedTags event name = [[name, expected]] := by
  unfold verifyUniqueTag
  split
  case h_2 first value htags =>
    obtain rfl := namedTags_pair htags
    simp [htags]
  all_goals simp_all

/-- The looser check of HTTP events also fixes the tags of the name. -/
theorem checkSingleTag_eq_ok_iff {passes : String → Bool} :
    checkSingleTag event name passes = .ok u
      ↔ ∃ value, namedTags event name = [[name, value]] ∧ passes value = true := by
  unfold checkSingleTag
  split
  case h_1 first value htags =>
    obtain rfl := namedTags_pair htags
    simp [htags]
  case h_2 hother =>
    simp only [reduceCtorEq, false_iff, not_exists, not_and]
    intro value htags
    exact absurd htags (hother name value)

theorem checkFreshness_eq_ok_iff :
    checkFreshness now event = .ok u
      ↔ event.createdAt.toNat ≤ saturatingAdd now 30 ∧ now - event.createdAt.toNat ≤ 60 := by
  simp [checkFreshness]

theorem checkIdentity_eq_ok_iff :
    checkIdentity secp event = .ok u
      ↔ Hex.encode event.computedId.toList = event.id
        ∧ verify secp event.pubkey event.computedId event.sig = true := by
  simp [checkIdentity]

/-- What a bearer event must contain to be accepted for a request. -/
theorem verifyBlossomAuthBound_eq_ok_iff {action server url method : String} {hash : Option String} :
    verifyBlossomAuthBound secp now event action server url method hash = .ok u
      ↔ (event.kind = 24242 ∧ checkFreshness now event = .ok ()
          ∧ checkExpiration now event = .ok () ∧ checkAction event action = .ok ()
          ∧ checkIdentity secp event = .ok ())
        ∧ namedTags event "server" = [["server", server]] ∧ namedTags event "u" = [["u", url]]
        ∧ namedTags event "method" = [["method", RustStr.toAsciiUppercase method]]
        ∧ ∀ x, hash = some x → namedTags event "x" = [["x", x]] := by
  simp only [verifyBlossomAuthBound, verifyBlossomAuth, seq_eq_ok, require_eq_ok, ifSome_some,
    verifyUniqueTag_eq_ok_iff, ifSome_eq_ok]

/-- What an HTTP event must contain to be accepted for a request. -/
theorem verifyNip98AuthWithPayload_eq_ok_iff {url method : String} {payload : Option String} :
    verifyNip98AuthWithPayload secp now event (some url) (some method) payload = .ok u
      ↔ event.kind = 27235 ∧ checkFreshness now event = .ok ()
        ∧ namedTags event "u" = [["u", url]]
        ∧ (∃ value, namedTags event "method" = [["method", value]]
          ∧ RustStr.eqIgnoreAsciiCase value method = true)
        ∧ (∀ x, payload = some x → namedTags event "payload" = [["payload", x]])
        ∧ checkIdentity secp event = .ok () := by
  simp only [verifyNip98AuthWithPayload, seq_eq_ok, require_eq_ok, ifSome_some,
    checkSingleTag_eq_ok_iff, ifSome_eq_ok, beq_iff_eq]
  simp

/-- What a handler expects of the event of a request. -/
structure Expectation where
  action : String
  path : String
  method : String
  hash : Option String
deriving DecidableEq, Repr

/-- The event passes for a request at the given time. -/
def Accepts (secp : Secp256k1) (baseUrl : String) (event : NostrEvent) (request : Expectation)
    (now : Nat) : Prop :=
  verifyAuthEventClaims secp now event request.action baseUrl request.path request.method
    request.hash = .ok ()

instance (secp : Secp256k1) (baseUrl : String) (event : NostrEvent) (request : Expectation)
    (now : Nat) : Decidable (Accepts secp baseUrl event request now) :=
  match h : verifyAuthEventClaims secp now event request.action baseUrl request.path request.method
      request.hash with
  | .ok () => .isTrue h
  | .error _ => .isFalse (by unfold Accepts; rw [h]; exact nofun)

end BlossomRs.Auth

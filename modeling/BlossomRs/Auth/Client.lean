import BlossomRs.Auth

/-!
# Building authorization events

The client's side: an event is built from the request it is meant for, signed, and put in a header.

`accepts_buildBlossomAuth` ties the two sides together: the server accepts a built event for the
request it was built for, as long as it is fresh and its signature is valid.
-/

namespace BlossomRs.Auth

open Protocol Checks

/-- `BlossomSigner`. -/
structure BlossomSigner where
  publicKeyHex : String
  signSchnorr : Sha256.Digest → String

/-- `build_blossom_auth_with_extra_tags`, with the clock reading and the nonce it draws. -/
def buildBlossomAuthWithExtraTags (signer : BlossomSigner) (createdAt : UInt64)
    (nonce action : String) (blobSha256 serverUrl : Option String) (content : String)
    (extraTags : List (List String)) : NostrEvent :=
  let pubkey := signer.publicKeyHex
  let tags := [["t", action]] ++ (blobSha256.map fun hash => ["x", hash]).toList
    ++ (serverUrl.map fun url => ["server", url]).toList ++ extraTags
    ++ [["nonce", nonce], ["expiration", toString (createdAt.toNat + 60)]]
  let idBytes := computeEventId pubkey createdAt 24242 tags content
  { id := Hex.encode idBytes.toList
    pubkey := pubkey
    createdAt := createdAt
    kind := 24242
    tags := tags
    content := content
    sig := signer.signSchnorr idBytes }

/-- `build_blossom_auth_for_request_with_extra_tags`. -/
def buildBlossomAuthForRequestWithExtraTags (signer : BlossomSigner) (createdAt : UInt64)
    (nonce action : String) (blobSha256 : Option String)
    (serverUrl requestUrl method content : String) (extraTags : List (List String)) :
    NostrEvent :=
  buildBlossomAuthWithExtraTags signer createdAt nonce action blobSha256
    (some (RustStr.trimEndMatches '/' serverUrl)) content
    ([["u", requestUrl], ["method", RustStr.toAsciiUppercase method]] ++ extraTags)

/-- `auth_header_value`. -/
def authHeaderValue (event : NostrEvent) : String :=
  "Nostr " ++ base64urlEncode (RustStr.asBytes event.toJson.print)

theorem authHeaderValue_ne_empty (event : NostrEvent) : authHeaderValue event ≠ "" := by
  intro hempty
  have hchars : ("Nostr " ++ base64urlEncode (RustStr.asBytes event.toJson.print)).toList = [] :=
    congrArg String.toList hempty
  rw [String.toList_append] at hchars
  exact absurd (List.append_eq_nil_iff.mp hchars).1 (by decide)

/-- A signature check that knows the signatures of some events and accepts nothing else. -/
def Secp256k1.knowing (events : List NostrEvent) : Secp256k1 :=
  ⟨fun pub digest sig => events.any fun event =>
    Hex.decode event.pubkey == some pub && event.computedId == digest
      && Hex.decode event.sig == some sig⟩

variable {events : List NostrEvent} {event : NostrEvent} {sig : Nat × Nat}
    {extraTags : List (List String)}

theorem verify_knowing (hmem : event ∈ events) {pub sig : Bytes}
    (hpub : Hex.decode event.pubkey = some pub) (hpublen : pub.length = 32)
    (hsig : Hex.decode event.sig = some sig) (hsiglen : sig.length = 64) :
    verify (.knowing events) event.pubkey event.computedId event.sig = true := by
  have hknown : (Secp256k1.knowing events).verifySchnorr pub event.computedId sig = true := by
    rw [Secp256k1.knowing, List.any_eq_true]
    exact ⟨event, hmem, by simp [hpub, hsig]⟩
  simp [verify, hpub, hsig, hpublen, hsiglen, hknown]

/-- The names of the tags that bind an event to a request. -/
def boundNames : List String :=
  ["server", "u", "method", "x", "expiration"]

section Accepted

variable {signer : BlossomSigner} {createdAt : UInt64} {nonce action content : String}
  {blobSha256 : Option String} {serverUrl requestUrl method : String}

/-- The tags of a bound name in a built event are the one the builder makes. -/
theorem namedTags_build {event : NostrEvent}
    (hevent : event = buildBlossomAuthForRequestWithExtraTags signer createdAt nonce action
      blobSha256 serverUrl requestUrl method content extraTags)
    (hextra : ∀ tag ∈ extraTags, ∀ name ∈ boundNames, tag.head? ≠ some name) :
    namedTags event "server" = [["server", serverOf serverUrl]]
      ∧ namedTags event "u" = [["u", requestUrl]]
      ∧ namedTags event "method" = [["method", RustStr.toAsciiUppercase method]]
      ∧ namedTags event "expiration" = [["expiration", toString (createdAt.toNat + 60)]]
      ∧ namedTags event "x" = (blobSha256.map fun hash => ["x", hash]).toList := by
  have hnone : ∀ name ∈ boundNames, extraTags.filter (fun tag => tag.head? == some name) = [] := by
    intro name hname
    rw [List.filter_eq_nil_iff]
    intro tag htag
    simpa using hextra tag htag name hname
  simp only [boundNames, List.forall_mem_cons] at hnone
  obtain ⟨hserver, hu, hmethod, hx, hexpiration, -⟩ := hnone
  subst hevent
  cases blobSha256 <;>
    simp [namedTags, buildBlossomAuthForRequestWithExtraTags, buildBlossomAuthWithExtraTags,
      hserver, hu, hmethod, hx, hexpiration, serverOf]

theorem checkAction_build (hextra : ["t", action] ∉ extraTags) :
    checkAction (buildBlossomAuthForRequestWithExtraTags signer createdAt nonce action blobSha256
      serverUrl requestUrl method content extraTags) action = .ok () := by
  have hcount : (buildBlossomAuthForRequestWithExtraTags signer createdAt nonce action blobSha256
      serverUrl requestUrl method content extraTags).tags.count ["t", action] = 1 := by
    cases blobSha256 <;>
      simp [buildBlossomAuthForRequestWithExtraTags, buildBlossomAuthWithExtraTags,
        List.count_append, List.count_eq_zero.mpr hextra]
  simp only [checkAction, hcount]

/-- **A built event is accepted for its request** while it is fresh, if its signature is valid and
the extra tags do not bind it a second time.  Trailing slashes of the server do not matter. -/
theorem accepts_build {secp : Secp256k1} {baseUrl path : String} {hash : Option String} {now : Nat}
    {event : NostrEvent}
    (hevent : event = buildBlossomAuthForRequestWithExtraTags signer createdAt nonce action
      blobSha256 serverUrl (serverOf serverUrl ++ path) method content extraTags)
    (hserverUrl : serverOf baseUrl = serverOf serverUrl)
    (hextra : ∀ tag ∈ extraTags, ∀ name ∈ boundNames, tag.head? ≠ some name)
    (haction : ["t", action] ∉ extraTags)
    (hhash : ∀ x, hash = some x → blobSha256 = some x)
    (hearly : createdAt.toNat ≤ now + 30) (hlate : now ≤ createdAt.toNat + 60)
    (hrange : createdAt.toNat + 60 < 2 ^ 64)
    (hsig : verify secp event.pubkey event.computedId event.sig = true) :
    Accepts secp baseUrl event ⟨action, path, method, hash⟩ now := by
  obtain ⟨hserver, hu, hmethod, hexpiration, hx⟩ := namedTags_build hevent hextra
  have hkind : event.kind = 24242 := by rw [hevent]; rfl
  have hcreated : event.createdAt = createdAt := by rw [hevent]; rfl
  unfold Accepts verifyAuthEventClaims
  rw [if_pos hkind, hserverUrl]
  refine verifyBlossomAuthBound_eq_ok_iff.mpr ⟨⟨hkind, ?_, ?_, ?_, ?_⟩, hserver, hu, hmethod, ?_⟩
  · rw [checkFreshness_eq_ok_iff, hcreated, saturatingAdd]
    omega
  · rw [checkExpiration, hexpiration]
    simp only [RustStr.parseUnsigned_toString hrange,
      require_eq_ok, hcreated, saturatingAdd]
    omega
  · rw [hevent]
    exact checkAction_build haction
  · exact checkIdentity_eq_ok_iff.mpr ⟨by rw [hevent]; rfl, hsig⟩
  · intro x hexpected
    rw [hx, hhash x hexpected]
    rfl

end Accepted

/-! ### Signatures made beforehand -/

/-- The public key of the signature standard's first test vector. -/
def testKey : String :=
  "f9308a019258c31049344f85f89d5229b531c845836f99b08601f113bce036f9"

/-- The thirty-two big-endian bytes of a number. -/
def bigEndianBytes (n : Nat) : Bytes :=
  (List.range 32).map fun i => UInt8.ofNat (n / 256 ^ (31 - i))

/-- The text of a signature given by its two numbers. -/
def signatureHex (sig : Nat × Nat) : String :=
  Hex.encode (bigEndianBytes sig.1 ++ bigEndianBytes sig.2)

/-- The built event of a request, signed with that key; the signature was computed beforehand. -/
def testEvent (sig : Nat × Nat) (createdAt : UInt64) (nonce action : String) (hash : Option String)
    (baseUrl path method : String) (extraTags : List (List String)) : NostrEvent :=
  buildBlossomAuthForRequestWithExtraTags ⟨testKey, fun _ => signatureHex sig⟩ createdAt nonce
    action hash baseUrl (serverOf baseUrl ++ path) method "" extraTags

/-- A check that knows an event of that key accepts its signature. -/
theorem verify_testKey (hmem : event ∈ events) (hpubkey : event.pubkey = testKey)
    (hsig : event.sig = signatureHex sig) :
    verify (.knowing events) event.pubkey event.computedId event.sig = true := by
  have hkey : ∃ pub, Hex.decode testKey = some pub ∧ pub.length = 32 := by
    refine ⟨(Hex.decode testKey).getD [], ?_, ?_⟩ <;> decide
  obtain ⟨pub, hpub, hpublen⟩ := hkey
  have hdecoded : Hex.decode event.sig
      = some (bigEndianBytes sig.1 ++ bigEndianBytes sig.2) := by
    rw [hsig, signatureHex, Hex.decode_encode]
  exact verify_knowing hmem (by rw [hpubkey]; exact hpub) hpublen hdecoded
    (by simp [bigEndianBytes])

theorem verify_testEvent {createdAt : UInt64} {nonce action : String} {hash : Option String}
    {baseUrl path method : String}
    (hevent : event = testEvent sig createdAt nonce action hash baseUrl path method extraTags)
    (hmem : event ∈ events) :
    verify (.knowing events) event.pubkey event.computedId event.sig = true :=
  verify_testKey hmem (by rw [hevent]; rfl) (by rw [hevent]; rfl)

/-- An event made beforehand is accepted for its request by a check that knows its signature. -/
theorem accepts_testEvent {createdAt : UInt64} {nonce action : String} {blobSha256 : Option String}
    {baseUrl path method : String} {hash : Option String} {now : Nat}
    (hevent : event = testEvent sig createdAt nonce action blobSha256 baseUrl path method extraTags)
    (hmem : event ∈ events) (hextra : ∀ tag ∈ extraTags, ∀ name ∈ boundNames, tag.head? ≠ some name)
    (haction : ["t", action] ∉ extraTags) (hhash : ∀ x, hash = some x → blobSha256 = some x)
    (hearly : createdAt.toNat ≤ now + 30) (hlate : now ≤ createdAt.toNat + 60)
    (hrange : createdAt.toNat + 60 < 2 ^ 64) :
    Accepts (.knowing events) baseUrl event ⟨action, path, method, hash⟩ now :=
  accepts_build hevent rfl hextra haction hhash hearly hlate hrange (verify_testEvent hevent hmem)

end BlossomRs.Auth

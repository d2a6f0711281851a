import BlossomRs.Access
import BlossomRs.Auth.Client

/-!
# Spellings of a key

Signatures are checked against the bytes a key's text stands for, and reading those bytes ignores
letter case.  Everything else goes by the text: who is allowed, who owns a blob, whose quota and whose
rate limit it is.

A key has one text, the one it is written with (`Hex.encode`), as long as it is spelled in lowercase
or as an `npub`.  A spelling with uppercase letters passes both checks and is kept as it is
(`one_spelling_iff_lowercase`).
-/

namespace BlossomRs.Access

open Protocol Auth

/-- A text without uppercase letters. -/
def InLowercase (text : String) : Prop :=
  RustStr.toAsciiLowercase text = text

instance (text : String) : Decidable (InLowercase text) :=
  inferInstanceAs (Decidable (_ = _))

/-- A text in the bech32 form. -/
def IsNpub (text : String) : Prop :=
  RustStr.startsWith (RustStr.trim text) "npub1" = true

instance (text : String) : Decidable (IsNpub text) :=
  inferInstanceAs (Decidable (_ = _))

/-- A text stands for a key, in either form. -/
inductive Denotes (bech32 : Bech32) (text : String) (key : Bytes) : Prop where
  | npub (hform : IsNpub text) (hlength : key.length = 32)
      (hdecode : bech32.decode (RustStr.trim text) = some ("npub", key))
  | hex (hform : ¬ IsNpub text) (hlength : key.length = 32)
      (hdecode : Hex.decode (RustStr.trim text) = some key)

/-- The signature of an event is one of a key, and its text stands for the key. -/
def VerifiesUnder (secp : Secp256k1) (event : NostrEvent) (key : Bytes) : Prop :=
  Hex.decode event.pubkey = some key
    ∧ ∃ sig, Hex.decode event.sig = some sig ∧ secp.verifySchnorr key event.computedId sig = true

variable {text : String} {bytes : Bytes}

section

variable (h : Hex.decode text = some bytes)
include h

theorem encode_of_decode :
    Hex.encode bytes = RustStr.toAsciiLowercase text := by
  rw [Hex.encode, Hex.encodeChars_of_decodeChars h, RustStr.toAsciiLowercase]

/-- The text of a key is the one it is written with exactly when it is in lowercase. -/
theorem eq_encode_iff :
    text = Hex.encode bytes ↔ InLowercase text := by
  rw [encode_of_decode h, InLowercase, eq_comm]

/-- A text that can be read has two digits for each byte. -/
theorem digits_of_decode :
    text.toList.length = 2 * bytes.length ∧ text.toList.all isAsciiHexdigit = true := by
  constructor
  · rw [← Hex.length_encodeChars, Hex.encodeChars_of_decodeChars h, List.length_map]
  · unfold Hex.decode at h
    generalize text.toList = chars at h ⊢
    fun_induction Hex.decodeChars chars generalizing bytes with
    | case1 => rfl
    | case2 => cases h
    | case3 high low rest hv lv tail hrest hlow hhigh ih =>
      simp [isAsciiHexdigit, hhigh, hlow, ih hrest]
    | case4 => cases h

end

theorem normalizePubkey_eq (bech32 : Bech32) (text : String) :
    normalizePubkey bech32 text = if IsNpub text then
        match bech32.decode (RustStr.trim text) with
        | some (hrp, data) =>
          if hrp = "npub" ∧ data.length = 32 then some (Hex.encode data) else none
        | none => none
      else if (RustStr.trim text).toList.length = 64
          ∧ (RustStr.trim text).toList.all isAsciiHexdigit = true then some (RustStr.trim text)
      else none :=
  rfl

/-- What a text that stands for a key is normalized to. -/
theorem normalizePubkey_of_denotes {bech32 : Bech32} {key : Bytes} (h : Denotes bech32 text key) :
    normalizePubkey bech32 text
      = some (if IsNpub text then Hex.encode key else RustStr.trim text) := by
  rw [normalizePubkey_eq]
  cases h with
  | npub hform hlength hdecode =>
    rw [if_pos hform, if_pos hform, hdecode]
    simp [hlength]
  | hex hform hlength hdecode =>
    obtain ⟨hcount, hdigits⟩ := digits_of_decode hdecode
    rw [if_neg hform, if_neg hform, if_pos ⟨by omega, hdigits⟩]

/-- Digits can be read, when there is an even number of them. -/
theorem decode_of_digits (count : Nat) (hcount : text.toList.length = 2 * count)
    (hdigits : text.toList.all isAsciiHexdigit = true) :
    ∃ bytes, Hex.decode text = some bytes ∧ bytes.length = count := by
  unfold Hex.decode
  generalize text.toList = chars at hcount hdigits ⊢
  induction count generalizing chars with
  | zero =>
    obtain rfl := List.length_eq_zero_iff.mp hcount
    exact ⟨[], rfl, rfl⟩
  | succ count ih =>
    match chars with
    | high :: low :: rest =>
      simp only [List.all_cons, Bool.and_eq_true, isAsciiHexdigit,
        Option.isSome_iff_exists] at hdigits
      obtain ⟨⟨h, hhigh⟩, ⟨l, hlow⟩, hrest⟩ := hdigits
      simp only [List.length_cons] at hcount
      obtain ⟨bytes, hbytes, hlength⟩ := ih rest (by omega) hrest
      exact ⟨_ :: bytes, by rw [Hex.decodeChars, hhigh, hlow, hbytes], by simp [hlength]⟩

/-- Every event that is accepted verifies under a key. -/
theorem verifiesUnder_of_accepts {secp : Secp256k1} {baseUrl : String} {event : NostrEvent}
    {request : Expectation} {now : Nat} (h : Accepts secp baseUrl event request now) :
    ∃ key, key.length = 32 ∧ VerifiesUnder secp event key := by
  have hidentity : checkIdentity secp event = .ok () := by
    unfold Accepts verifyAuthEventClaims at h
    dsimp only at h
    split at h
    · exact (verifyBlossomAuthBound_eq_ok_iff.mp h).1.2.2.2.2
    · split at h
      · exact (verifyNip98AuthWithPayload_eq_ok_iff.mp h).2.2.2.2.2
      · cases h
  obtain ⟨-, hverify⟩ := checkIdentity_eq_ok_iff.mp hidentity
  unfold verify at hverify
  split at hverify
  · rename_i key sig hkey hsig
    simp only [Bool.and_eq_true, beq_iff_eq] at hverify
    exact ⟨key, hverify.1.1, hkey, sig, hsig, hverify.2⟩
  · cases hverify

/-- **Spellings.**  The text of an accepted event is the one its key is written with exactly when it
is in lowercase; and a text is normalized to that one exactly when it is an `npub` or in lowercase. -/
theorem one_spelling_iff_lowercase (bech32 : Bech32) (key : Bytes) :
    (∀ secp baseUrl event request now, Accepts secp baseUrl event request now →
        VerifiesUnder secp event key →
        (event.pubkey = Hex.encode key ↔ InLowercase event.pubkey))
      ∧ ∀ text, Denotes bech32 text key →
        (normalizePubkey bech32 text = some (Hex.encode key)
          ↔ IsNpub text ∨ InLowercase (RustStr.trim text)) := by
  constructor
  · intro secp baseUrl event request now _ hkey
    exact eq_encode_iff hkey.1
  · intro text h
    rw [normalizePubkey_of_denotes h, Option.some.injEq]
    cases h with
    | npub hform _ _ => simp [hform]
    | hex hform _ hdecode =>
      rw [if_neg hform, eq_encode_iff hdecode]
      simp [hform]

/-! ### Two spellings of one key -/

/-- An event of a key with the given text, for an upload without a known hash. -/
def spelledEvent (pubkey : String) (sig : Nat × Nat) : NostrEvent :=
  buildBlossomAuthForRequestWithExtraTags ⟨pubkey, fun _ => signatureHex sig⟩ 1700000000 "n" "upload"
    none "http://h" "http://h/upload" "PUT" "" []

theorem accepts_spelledEvent {pubkey : String} (sig : Nat × Nat) {key : Bytes}
    (hkey : Hex.decode pubkey = some key) (hlength : key.length = 32) :
    Accepts (.knowing [spelledEvent pubkey sig]) "http://h" (spelledEvent pubkey sig)
      ⟨"upload", "/upload", "PUT", none⟩ 1700000001 := by
  have hsig : Hex.decode (spelledEvent pubkey sig).sig
      = some (bigEndianBytes sig.1 ++ bigEndianBytes sig.2) := Hex.decode_encode _
  have hverify := verify_knowing (List.mem_singleton_self (spelledEvent pubkey sig)) hkey hlength
    hsig (by simp [bigEndianBytes])
  exact accepts_build rfl rfl (by simp) (by simp) (by simp) (by decide) (by decide) (by decide) hverify

/-- The key of the test vectors. -/
def sampleKey : Bytes :=
  (Hex.decode testKey).getD []

/-- Its text in uppercase. -/
def shoutedKey : String :=
  RustStr.toAsciiUppercase testKey

/-- A signature of the event under the text in lowercase. -/
def plainSignature : Nat × Nat :=
  (0x190c66da1896289f67308281ba1d03abfedd6d919cf48fc155541f8e0e342853,
    0x03792df3e26ccbef09780b2b77f13c91342f07905c12a79378748b499d8f06b5)

/-- A signature of the event under the text in uppercase. -/
def shoutedSignature : Nat × Nat :=
  (0x0fca8272497e0b74be0a61abfdaa2d47746db506ec65a50abde39ae7deee531f,
    0x295378d6eed7e9c5cb52acef2510e4fce738fb4e5681024d7bf2469405fb3fe9)

theorem decode_testKey : Hex.decode testKey = some sampleKey ∧ sampleKey.length = 32 := by
  decide

theorem decode_shoutedKey : Hex.decode shoutedKey = some sampleKey := by
  decide

/-- In lowercase the text of an accepted event is the one its key is written with. -/
theorem testKey_is_its_spelling :
    Accepts (.knowing [spelledEvent testKey plainSignature]) "http://h"
        (spelledEvent testKey plainSignature) ⟨"upload", "/upload", "PUT", none⟩ 1700000001
      ∧ testKey = Hex.encode sampleKey
      ∧ normalizePubkey ⟨fun _ => none⟩ testKey = some (Hex.encode sampleKey) := by
  obtain ⟨hkey, hlength⟩ := decode_testKey
  have haccepts := accepts_spelledEvent plainSignature hkey hlength
  have hverifies : VerifiesUnder (.knowing [spelledEvent testKey plainSignature])
      (spelledEvent testKey plainSignature) sampleKey := by
    obtain ⟨key, -, hdecode, hsig⟩ := verifiesUnder_of_accepts haccepts
    obtain rfl : key = sampleKey := Option.some.inj (hdecode.symm.trans hkey)
    exact ⟨hdecode, hsig⟩
  have hdenotes : Denotes ⟨fun _ => none⟩ testKey sampleKey :=
    .hex (by decide) hlength (by decide)
  obtain ⟨hevents, htexts⟩ := one_spelling_iff_lowercase ⟨fun _ => none⟩ sampleKey
  exact ⟨haccepts, (hevents _ _ _ _ _ haccepts hverifies).mpr (by decide),
    (htexts testKey hdenotes).mpr (Or.inr (by decide))⟩

/-- An event with the same key in uppercase is accepted as well.  Its text is another one: it is not
on a whitelist that has the key, and normalizing does not bring it there. -/
theorem shoutedKey_is_another_identity :
    Accepts (.knowing [spelledEvent shoutedKey shoutedSignature]) "http://h"
        (spelledEvent shoutedKey shoutedSignature) ⟨"upload", "/upload", "PUT", none⟩ 1700000001
      ∧ Hex.decode shoutedKey = some sampleKey
      ∧ shoutedKey ≠ Hex.encode sampleKey
      ∧ normalizePubkey ⟨fun _ => none⟩ shoutedKey = some shoutedKey
      ∧ (Whitelist.mk [Hex.encode sampleKey]).isAllowed shoutedKey .upload = false :=
  ⟨accepts_spelledEvent shoutedSignature decode_shoutedKey decode_testKey.2, decode_shoutedKey,
    by decide, by decide, by decide⟩

end BlossomRs.Access

import BlossomRs.Lib.Hex
import BlossomRs.Lib.Json
import BlossomRs.Lib.RustStr
import BlossomRs.Lib.Sha256

/-!
# Protocol types

Signed events, blob descriptors, and the base64url text that carries an event in an
`Authorization` header.

An event's id is the SHA-256 digest of the compact JSON text of `[0, pubkey, created_at, kind,
tags, content]`.  That text determines the five fields (`eventText_injective`), so on inputs where
the digest has no collision the id does as well.
-/

namespace BlossomRs.Protocol

abbrev Bytes := List UInt8

/-- A signed event, reduced to what authorization reads. -/
structure NostrEvent where
  id : String
  pubkey : String
  createdAt : UInt64
  kind : UInt32
  tags : List (List String)
  content : String
  sig : String
deriving DecidableEq, Repr

/-- What the server answers after storing a blob. -/
structure BlobDescriptor where
  sha256 : String
  size : Nat
  contentType : Option String
  url : Option String
  uploaded : Option Nat
deriving DecidableEq, Repr

/-- The JSON tuple an event id commits to. -/
def eventTuple (pubkey : String) (createdAt : UInt64) (kind : UInt32) (tags : List (List String))
    (content : String) : Json :=
  .arr [.num 0, .str pubkey, .num createdAt.toNat, .num kind.toNat,
    .arr (tags.map fun tag => .arr (tag.map .str)), .str content]

/-- The bytes that are hashed into an event id. -/
def eventText (pubkey : String) (createdAt : UInt64) (kind : UInt32) (tags : List (List String))
    (content : String) : Bytes :=
  RustStr.asBytes (eventTuple pubkey createdAt kind tags content).print

/-- `compute_event_id`. -/
def computeEventId (pubkey : String) (createdAt : UInt64) (kind : UInt32)
    (tags : List (List String)) (content : String) : Sha256.Digest :=
  Sha256.sha256 (eventText pubkey createdAt kind tags content)

/-- The hashed bytes of an event's own fields. -/
def NostrEvent.text (event : NostrEvent) : Bytes :=
  eventText event.pubkey event.createdAt event.kind event.tags event.content

/-- The id an event should carry. -/
def NostrEvent.computedId (event : NostrEvent) : Sha256.Digest :=
  computeEventId event.pubkey event.createdAt event.kind event.tags event.content

theorem strArr_injective : Function.Injective fun tag : List String => Json.arr (tag.map .str) := by
  intro tag tag' h
  exact List.map_injective_iff.mpr (fun s t hst => Json.str.inj hst) (Json.arr.inj h)

/-- The hashed text determines every hashed field. -/
theorem eventText_injective {pubkey pubkey' : String} {createdAt createdAt' : UInt64}
    {kind kind' : UInt32} {tags tags' : List (List String)} {content content' : String}
    (h : eventText pubkey createdAt kind tags content
      = eventText pubkey' createdAt' kind' tags' content') :
    pubkey = pubkey' ∧ createdAt = createdAt' ∧ kind = kind' ∧ tags = tags'
      ∧ content = content' := by
  have hvalue := Json.print_injective (RustStr.asBytes_injective h)
  simp only [eventTuple, Json.arr.injEq, List.cons.injEq, Json.str.injEq, Json.num.injEq,
    Nat.cast_inj, true_and, and_true] at hvalue
  obtain ⟨hpubkey, hcreated, hkind, htags, hcontent⟩ := hvalue
  exact ⟨hpubkey, UInt64.toNat_inj.mp hcreated, UInt32.toNat_inj.mp hkind,
    List.map_injective_iff.mpr strArr_injective htags, hcontent⟩

/-- `sha256_hex`: the digest as sixty-four lowercase digits. -/
def sha256Hex (data : Bytes) : String :=
  Hex.encode (Sha256.sha256 data).toList

theorem toList_sha256Hex (data : Bytes) :
    (sha256Hex data).toList = Hex.encodeChars (Sha256.sha256 data).toList := by
  rw [sha256Hex, Hex.encode, String.toList_ofList]

theorem length_toList_sha256Hex (data : Bytes) : (sha256Hex data).toList.length = 64 := by
  rw [toList_sha256Hex, Hex.length_encodeChars, List.Vector.toList_length]

theorem isLowerDigit_of_mem_sha256Hex {data : Bytes} {c : Char}
    (hc : c ∈ (sha256Hex data).toList) : Hex.IsLowerDigit c = true := by
  rw [toList_sha256Hex] at hc
  exact Hex.isLowerDigit_of_mem_encodeChars _ c hc

theorem sha256_eq_of_sha256Hex_eq {x y : Bytes} (h : sha256Hex x = sha256Hex y) :
    Sha256.sha256 x = Sha256.sha256 y :=
  List.Vector.toList_injective (Hex.encode_injective h)

/-- The JSON object of an event. -/
def NostrEvent.toJson (event : NostrEvent) : Json :=
  .obj [("id", .str event.id), ("pubkey", .str event.pubkey),
    ("created_at", .num event.createdAt.toNat), ("kind", .num event.kind.toNat),
    ("tags", .arr (event.tags.map fun tag => .arr (tag.map .str))),
    ("content", .str event.content), ("sig", .str event.sig)]

theorem NostrEvent.toJson_injective : Function.Injective NostrEvent.toJson := by
  intro event event' h
  simp only [toJson, Json.obj.injEq, List.cons.injEq, Prod.mk.injEq, Json.str.injEq, Json.num.injEq,
    Json.arr.injEq, Nat.cast_inj, true_and, and_true] at h
  obtain ⟨hid, hpubkey, hcreated, hkind, htags, hcontent, hsig⟩ := h
  cases event
  cases event'
  simp only [NostrEvent.mk.injEq]
  exact ⟨hid, hpubkey, UInt64.toNat_inj.mp hcreated, UInt32.toNat_inj.mp hkind,
    List.map_injective_iff.mpr strArr_injective htags, hcontent, hsig⟩

/-! ### base64url -/

/-- The character of a six-bit value, after the two replacements of the encoder. -/
def base64urlChar (value : Nat) : Char :=
  if value < 26 then Char.ofNat (65 + value)
  else if value < 52 then Char.ofNat (71 + value)
  else if value < 62 then Char.ofNat (value - 4)
  else if value = 62 then '-'
  else '_'

/-- Up to four characters for a chunk of up to three bytes. -/
def base64urlEncodeChars : Bytes → List Char
  | b0 :: b1 :: b2 :: rest =>
    let triple := b0.toNat * 65536 + b1.toNat * 256 + b2.toNat
    base64urlChar (triple / 262144 % 64) :: base64urlChar (triple / 4096 % 64)
      :: base64urlChar (triple / 64 % 64) :: base64urlChar (triple % 64)
      :: base64urlEncodeChars rest
  | [b0, b1] =>
    let triple := b0.toNat * 65536 + b1.toNat * 256
    [base64urlChar (triple / 262144 % 64), base64urlChar (triple / 4096 % 64),
      base64urlChar (triple / 64 % 64)]
  | [b0] =>
    let triple := b0.toNat * 65536
    [base64urlChar (triple / 262144 % 64), base64urlChar (triple / 4096 % 64)]
  | [] => []

/-- `base64url_encode`. -/
def base64urlEncode (data : Bytes) : String :=
  String.ofList (base64urlEncodeChars data)

/-- The value of one byte of padded base64 text; padding counts as zero. -/
def base64Value (b : UInt8) : Option Nat :=
  let n := b.toNat
  if 65 ≤ n ∧ n ≤ 90 then some (n - 65)
  else if 97 ≤ n ∧ n ≤ 122 then some (n - 71)
  else if 48 ≤ n ∧ n ≤ 57 then some (n + 4)
  else if n = 43 then some 62
  else if n = 47 then some 63
  else if n = 61 then some 0
  else none

/-- Decode whole groups of four; padding in the third or fourth place drops that byte. -/
def base64DecodeGroups : Bytes → Except String Bytes
  | c0 :: c1 :: c2 :: c3 :: rest =>
    match base64Value c0, base64Value c1, base64Value c2, base64Value c3 with
    | some v0, some v1, some v2, some v3 =>
      let triple := v0 * 262144 + v1 * 4096 + v2 * 64 + v3
      let out := [UInt8.ofNat (triple / 65536)]
        ++ (if c2 = 61 then [] else [UInt8.ofNat (triple / 256)])
        ++ (if c3 = 61 then [] else [UInt8.ofNat triple])
      match base64DecodeGroups rest with
      | .ok tail => .ok (out ++ tail)
      | .error e => .error e
    | _, _, _, _ => .error "invalid base64 character"
  | _ => .ok []

/-- The two replacements of the decoder. -/
def toStandardByte (b : UInt8) : UInt8 :=
  if b = 45 then 43 else if b = 95 then 47 else b

/-- `base64url_decode`. -/
def base64urlDecode (s : String) : Except String Bytes :=
  let standard := (RustStr.asBytes s).map toStandardByte
  match standard.length % 4 with
  | 0 => base64DecodeGroups standard
  | 2 => base64DecodeGroups (standard ++ [61, 61])
  | 3 => base64DecodeGroups (standard ++ [61])
  | _ => .error "invalid base64url length"

/-- Each of the sixty-four characters is one byte with the value it stands for. -/
theorem base64urlChar_spec : ∀ value < 64, ∃ b : UInt8,
    String.utf8EncodeChar (base64urlChar value) = [b]
      ∧ base64Value (toStandardByte b) = some value ∧ toStandardByte b ≠ 61 := by
  intro value hvalue
  have hall : ∀ value : Fin 64, ((String.utf8EncodeChar (base64urlChar value)).length = 1
      ∧ base64Value (toStandardByte (String.utf8EncodeChar (base64urlChar value)).head!)
        = some value.val
      ∧ toStandardByte (String.utf8EncodeChar (base64urlChar value)).head! ≠ 61) := by
    decide
  obtain ⟨hlength, hval, hpad⟩ := hall ⟨value, hvalue⟩
  obtain ⟨b, hb⟩ := List.length_eq_one_iff.mp hlength
  rw [hb] at hval hpad
  exact ⟨b, hb, hval, hpad⟩

/-- The standard bytes of encoded data, before padding. -/
def standardBytes (data : Bytes) : Bytes :=
  ((base64urlEncodeChars data).flatMap String.utf8EncodeChar).map toStandardByte

/-- The padding the decoder adds. -/
def base64Padding (data : Bytes) : Bytes :=
  match data.length % 3 with
  | 0 => []
  | 1 => [61, 61]
  | _ => [61]

theorem ofNat_eq_of_toNat {b : UInt8} {n : Nat} (h : n % 256 = b.toNat) : UInt8.ofNat n = b := by
  apply UInt8.toNat_inj.mp
  rw [UInt8.toNat_ofNat', h]

/-- Groups with their padding are read back.  The cases are the chunks the encoder makes. -/
theorem decodeGroups_standardBytes (data : Bytes) :
    base64DecodeGroups (standardBytes data ++ base64Padding data) = .ok data := by
  induction data using base64urlEncodeChars.induct with
  | case1 b0 b1 b2 rest ih =>
    have h0 := b0.toNat_lt
    have h1 := b1.toNat_lt
    have h2 := b2.toNat_lt
    generalize ht : b0.toNat * 65536 + b1.toNat * 256 + b2.toNat = triple
    obtain ⟨c0, hc0, hv0, -⟩ := base64urlChar_spec (triple / 262144 % 64) (by omega)
    obtain ⟨c1, hc1, hv1, -⟩ := base64urlChar_spec (triple / 4096 % 64) (by omega)
    obtain ⟨c2, hc2, hv2, hp2⟩ := base64urlChar_spec (triple / 64 % 64) (by omega)
    obtain ⟨c3, hc3, hv3, hp3⟩ := base64urlChar_spec (triple % 64) (by omega)
    have hpad : base64Padding (b0 :: b1 :: b2 :: rest) = base64Padding rest := by
      have h : (rest.length + 1 + 1 + 1) % 3 = rest.length % 3 := by omega
      simp [base64Padding, h]
    have hstd : standardBytes (b0 :: b1 :: b2 :: rest)
        = toStandardByte c0 :: toStandardByte c1 :: toStandardByte c2 :: toStandardByte c3
          :: standardBytes rest := by
      simp [standardBytes, base64urlEncodeChars, ht, hc0, hc1, hc2, hc3]
    simp only [hpad, hstd, List.cons_append, base64DecodeGroups, hv0, hv1, hv2, hv3, ih,
      if_neg hp2, if_neg hp3, List.nil_append]
    rw [ofNat_eq_of_toNat (b := b0) (by omega), ofNat_eq_of_toNat (b := b1) (by omega),
      ofNat_eq_of_toNat (b := b2) (by omega)]
  | case2 b0 b1 =>
    have h0 := b0.toNat_lt
    have h1 := b1.toNat_lt
    generalize ht : b0.toNat * 65536 + b1.toNat * 256 = triple
    obtain ⟨c0, hc0, hv0, -⟩ := base64urlChar_spec (triple / 262144 % 64) (by omega)
    obtain ⟨c1, hc1, hv1, -⟩ := base64urlChar_spec (triple / 4096 % 64) (by omega)
    obtain ⟨c2, hc2, hv2, hp2⟩ := base64urlChar_spec (triple / 64 % 64) (by omega)
    have hstd : standardBytes [b0, b1] ++ base64Padding [b0, b1]
        = [toStandardByte c0, toStandardByte c1, toStandardByte c2, 61] := by
      simp [standardBytes, base64urlEncodeChars, base64Padding, ht, hc0, hc1, hc2]
    have hzero : base64Value 61 = some 0 := by decide
    simp only [hstd, base64DecodeGroups, hv0, hv1, hv2, hzero, if_neg hp2, if_true,
      List.cons_append, List.nil_append]
    rw [ofNat_eq_of_toNat (b := b0) (by omega), ofNat_eq_of_toNat (b := b1) (by omega)]
  | case3 b0 =>
    have h0 := b0.toNat_lt
    generalize ht : b0.toNat * 65536 = triple
    obtain ⟨c0, hc0, hv0, -⟩ := base64urlChar_spec (triple / 262144 % 64) (by omega)
    obtain ⟨c1, hc1, hv1, -⟩ := base64urlChar_spec (triple / 4096 % 64) (by omega)
    have hstd : standardBytes [b0] ++ base64Padding [b0]
        = [toStandardByte c0, toStandardByte c1, 61, 61] := by
      simp [standardBytes, base64urlEncodeChars, base64Padding, ht, hc0, hc1]
    have hzero : base64Value 61 = some 0 := by decide
    simp only [hstd, base64DecodeGroups, hv0, hv1, hzero, if_true, List.cons_append,
      List.nil_append]
    rw [ofNat_eq_of_toNat (b := b0) (by omega)]
  | case4 => rfl

theorem length_base64urlChar (n : Nat) :
    (String.utf8EncodeChar (base64urlChar (n % 64))).length = 1 := by
  obtain ⟨b, hb, -⟩ := base64urlChar_spec (n % 64) (by omega)
  rw [hb]
  rfl

/-- Four characters for three bytes, rounded up. -/
theorem length_standardBytes (data : Bytes) :
    (standardBytes data).length = (4 * data.length + 2) / 3 := by
  induction data using base64urlEncodeChars.induct with
  | case1 b0 b1 b2 rest ih =>
    have hstd : (standardBytes (b0 :: b1 :: b2 :: rest)).length
        = (standardBytes rest).length + 4 := by
      simp only [standardBytes, base64urlEncodeChars, List.flatMap_cons, List.length_map,
        List.length_append, length_base64urlChar]
      omega
    rw [hstd, ih]
    simp only [List.length_cons]
    omega
  | case2 b0 b1 =>
    simp only [standardBytes, base64urlEncodeChars, List.flatMap_cons, List.length_map,
      List.length_append, length_base64urlChar, List.flatMap_nil, List.length_cons, List.length_nil]
  | case3 b0 =>
    simp only [standardBytes, base64urlEncodeChars, List.flatMap_cons, List.length_map,
      List.length_append, length_base64urlChar, List.flatMap_nil, List.length_cons, List.length_nil]
  | case4 => rfl

theorem standardBytes_eq (data : Bytes) :
    (RustStr.asBytes (base64urlEncode data)).map toStandardByte = standardBytes data := by
  rw [base64urlEncode, RustStr.asBytes_ofList]
  rfl

/-- **The text of an encoded byte string decodes to it.** -/
theorem base64urlDecode_base64urlEncode (data : Bytes) :
    base64urlDecode (base64urlEncode data) = .ok data := by
  have hgroups := decodeGroups_standardBytes data
  have hlength := length_standardBytes data
  unfold base64urlDecode
  rw [standardBytes_eq]
  have hcases : (data.length % 3 = 0 ∧ (standardBytes data).length % 4 = 0)
      ∨ (data.length % 3 = 1 ∧ (standardBytes data).length % 4 = 2)
      ∨ (data.length % 3 = 2 ∧ (standardBytes data).length % 4 = 3) := by
    obtain h | h | h : data.length % 3 = 0 ∨ data.length % 3 = 1 ∨ data.length % 3 = 2 := by
      omega
    all_goals omega
  rcases hcases with ⟨h, hmod⟩ | ⟨h, hmod⟩ | ⟨h, hmod⟩ <;>
    simp only [hmod, base64Padding, h, List.append_nil] at hgroups ⊢ <;> exact hgroups

/-- Each of the sixty-four characters is a letter, a digit, `-` or `_`. -/
theorem base64urlChar_alphabet (n : Nat) :
    let c := base64urlChar (n % 64)
    c.isAlphanum = true ∨ c = '-' ∨ c = '_' := by
  have hall : ∀ value : Fin 64, (base64urlChar value).isAlphanum = true
      ∨ base64urlChar value = '-' ∨ base64urlChar value = '_' := by
    decide
  exact hall ⟨n % 64, Nat.mod_lt n (by decide)⟩

theorem base64urlEncodeChars_alphabet (data : Bytes) :
    ∀ c ∈ base64urlEncodeChars data, c.isAlphanum = true ∨ c = '-' ∨ c = '_' := by
  induction data using base64urlEncodeChars.induct with
  | case1 b0 b1 b2 rest ih =>
    simp only [base64urlEncodeChars, List.forall_mem_cons]
    exact ⟨base64urlChar_alphabet _, base64urlChar_alphabet _, base64urlChar_alphabet _,
      base64urlChar_alphabet _, ih⟩
  | case2 b0 b1 =>
    simp only [base64urlEncodeChars, List.forall_mem_cons]
    exact ⟨base64urlChar_alphabet _, base64urlChar_alphabet _, base64urlChar_alphabet _, nofun⟩
  | case3 b0 =>
    simp only [base64urlEncodeChars, List.forall_mem_cons]
    exact ⟨base64urlChar_alphabet _, base64urlChar_alphabet _, nofun⟩
  | case4 => exact nofun

/-- **base64url.**  Encoded data decodes to itself; its text has no other characters than letters,
digits, `-` and `_`, and four bytes for three of the data, rounded up. -/
theorem base64url_roundtrip (data : Bytes) :
    base64urlDecode (base64urlEncode data) = .ok data
      ∧ (∀ c ∈ (base64urlEncode data).toList, c.isAlphanum = true ∨ c = '-' ∨ c = '_')
      ∧ (RustStr.asBytes (base64urlEncode data)).length = (4 * data.length + 2) / 3 := by
  refine ⟨base64urlDecode_base64urlEncode data, ?_, ?_⟩
  · rw [base64urlEncode, String.toList_ofList]
    exact base64urlEncodeChars_alphabet data
  · rw [← length_standardBytes, ← standardBytes_eq, List.length_map]

example : base64urlDecode (base64urlEncode [104, 105, 255, 62]) = .ok [104, 105, 255, 62] := by
  decide

end BlossomRs.Protocol

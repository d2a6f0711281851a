import Mathlib.Data.List.TakeWhile
import BlossomRs.Auth.Client
import BlossomRs.Lib.Checks
import BlossomRs.Storage

/-!
# Requests and responses

The parts of HTTP the handlers work with: request headers and bodies with the limits under which a
body is buffered, responses, and the small functions on hashes and media types.

Reading a header can meet bytes that are not text, so a header that is present has an optional text.
JSON parsing of an event is a parameter.
-/

namespace BlossomRs.Server

open Protocol Auth Storage

inductive StatusCode where
  | ok
  | created
  | badRequest
  | unauthorized
  | forbidden
  | notFound
  | requestTimeout
  | conflict
  | payloadTooLarge
  | unsupportedMediaType
  | unprocessableEntity
  | tooManyRequests
  | internalServerError
  | notImplemented
  | badGateway
  | serviceUnavailable
  | insufficientStorage
deriving DecidableEq, Repr

/-- What a response carries. -/
inductive ResponseBody where
  | empty
  | json (value : Json)
  | blob (contentType : String) (data : Bytes)
  | head (contentLength : Nat) (contentType : String)

structure Response where
  status : StatusCode
  body : ResponseBody

/-- The bytes of a response that carries a blob. -/
def Response.blob? (response : Response) : Option Bytes :=
  match response.body with
  | .blob _ data => some data
  | _ => none

/-- `error_json`. -/
def errorJson (status : StatusCode) (message : String) : Response where
  status := status
  body := .json (.obj [("error", .str message)])

/-- A header: absent, or present with its text when it has one. -/
abbrev Header := Option (Option String)

/-- The headers the handlers read. -/
structure HeaderMap where
  authorization : Header
  contentLength : Header
  contentType : Header

/-- A request body: its bytes, the exact size when the transport knows it, and whether the stream
breaks off with an error. -/
structure RequestBody where
  data : Bytes
  exactHint : Option Nat
  broken : Bool

/-- `serde_json` on the bytes of an event. -/
structure EventParser where
  parse : Bytes → Option NostrEvent

/-- `extract_auth_event`.  Every failure is reported as a bad signature. -/
def extractAuthEvent (parser : EventParser) (headers : HeaderMap) : Except AuthError NostrEvent :=
  match headers.authorization with
  | some (some header) =>
    if RustStr.startsWith header "Nostr " then
      match base64urlDecode (RustStr.dropChars 6 header) with
      | .ok json => (parser.parse json).elim (.error .invalidSignature) .ok
      | .error _ => .error .invalidSignature
    else .error .invalidSignature
  | _ => .error .invalidSignature

theorem authorization_of_extractAuthEvent {parser : EventParser} {headers : HeaderMap}
    {event : NostrEvent} (h : extractAuthEvent parser headers = .ok event) :
    headers.authorization.isSome := by
  unfold extractAuthEvent at h
  split at h
  · simp [*]
  · cases h

/-- A header made from an event carries that event. -/
theorem extractAuthEvent_authHeaderValue {parser : EventParser} {headers : HeaderMap}
    {event : NostrEvent} (hheader : headers.authorization = some (some (authHeaderValue event)))
    (hparse : parser.parse (RustStr.asBytes event.toJson.print) = some event) :
    extractAuthEvent parser headers = .ok event := by
  have hlength : "Nostr ".toList.length = 6 := by decide
  simp only [extractAuthEvent, hheader, authHeaderValue, RustStr.startsWith_append, if_true,
    RustStr.dropChars_append hlength, base64urlDecode_base64urlEncode, hparse]
  rfl

/-- `MAX_BUFFERED_BODY_BYTES`. -/
def maxBufferedBodyBytes : Nat :=
  256 * 1024 * 1024

/-- `BODY_BUFFER_UNIT_BYTES`. -/
def bodyBufferUnitBytes : Nat :=
  1024 * 1024

/-- The permits a buffer of the given size takes. -/
def bodyPermits (reservation : Nat) : Nat :=
  (max reservation 1 + bodyBufferUnitBytes - 1) / bodyBufferUnitBytes

/-- `declared_body_len`. -/
def declaredBodyLen (headers : HeaderMap) : Option Nat :=
  match headers.contentLength with
  | some (some text) => RustStr.parseUnsigned 64 text
  | _ => none

/-- The permits that a call of `read_body_limited` takes, unless it is refused before. -/
def bodyReservation (body : RequestBody) (limit : Nat) (declaredLen : Option Nat) :
    Except Response Nat :=
  if maxBufferedBodyBytes < limit then
    .error (errorJson .payloadTooLarge
      "configured request body limit exceeds the safe buffered ceiling")
  else if declaredLen.any (limit < ·) then
    .error (errorJson .payloadTooLarge "request body exceeds configured limit")
  else
    let permits := bodyPermits ((declaredLen.orElse fun _ => body.exactHint).getD limit)
    if 2 ^ 32 ≤ permits then .error (errorJson .payloadTooLarge "request body limit is too large")
    else .ok permits

/-- What `to_bytes` makes of the body. -/
def collectBody (body : RequestBody) (limit : Nat) : Except Response Bytes :=
  if body.broken ∨ limit < body.data.length then
    .error (errorJson .payloadTooLarge "request body exceeds configured limit")
  else .ok body.data

/-- `read_body_limited`, with the permits that are free when the call takes its own.  The permits it
takes are released when the request is done. -/
def readBodyLimited (freePermits : Nat) (body : RequestBody) (limit : Nat)
    (declaredLen : Option Nat) : Except Response Bytes :=
  match bodyReservation body limit declaredLen with
  | .error response => .error response
  | .ok permits =>
    if freePermits < permits then
      .error (errorJson .serviceUnavailable "request body capacity exhausted")
    else collectBody body limit

/-- `is_valid_sha256`.  Where every character is a digit, bytes and characters count the same. -/
def isValidSha256 (s : String) : Bool :=
  s.toList.length == 64 && s.toList.all Hex.IsLowerDigit

/-- `extract_content_type`: the generic type counts as none. -/
def extractContentType (headers : HeaderMap) : Option String :=
  match headers.contentType with
  | some (some text) => if text = octetStream then none else some text
  | _ => none

/-- `detect_mime`. -/
def detectMime (data : Bytes) : String :=
  match data with
  | 0x89 :: 0x50 :: 0x4e :: 0x47 :: _ => "image/png"
  | 0xff :: 0xd8 :: 0xff :: _ :: _ => "image/jpeg"
  | 0x47 :: 0x49 :: 0x46 :: 0x38 :: _ => "image/gif"
  | 0x25 :: 0x50 :: 0x44 :: 0x46 :: _ => "application/pdf"
  | 0x50 :: 0x4b :: 0x03 :: 0x04 :: _ => "application/zip"
  | 0x1f :: 0x8b :: _ :: _ :: _ => "application/gzip"
  | _ =>
    if 12 < data.length ∧ data.take 4 = [0x52, 0x49, 0x46, 0x46]
        ∧ (data.drop 8).take 4 = [0x57, 0x45, 0x42, 0x50] then "image/webp"
    else if 8 < data.length ∧ (data.drop 4).take 4 = [0x66, 0x74, 0x79, 0x70] then "video/mp4"
    else octetStream

/-- Upload constraints. -/
structure UploadRequirements where
  maxSize : Option Nat
  allowedTypes : List String
  requireAuth : Bool
deriving DecidableEq, Repr

/-- `mime_allowed`. -/
def mimeAllowed (requirements : UploadRequirements) (mime : String) : Bool :=
  let normalized := RustStr.toAsciiLowercase (RustStr.trim (RustStr.splitFirst ';' mime))
  requirements.allowedTypes.isEmpty
    || requirements.allowedTypes.any fun allowed =>
      RustStr.eqIgnoreAsciiCase (RustStr.trim allowed) normalized

/-- The JSON text fields of a descriptor, absent ones left out. -/
def descriptorFields (descriptor : BlobDescriptor) : List (String × Json) :=
  [("sha256", .str descriptor.sha256), ("size", .num descriptor.size)]
    ++ (descriptor.contentType.map fun mime => ("type", Json.str mime)).toList
    ++ (descriptor.url.map fun url => ("url", Json.str url)).toList
    ++ (descriptor.uploaded.map fun time => ("uploaded", Json.num time)).toList

/-- `to_json_response` of a descriptor. -/
def descriptorResponse (descriptor : BlobDescriptor) : Response where
  status := .ok
  body := .json (.obj (descriptorFields descriptor))

/-! ### Hashes the server computes are hashes it accepts -/

theorem isValidSha256_sha256Hex (data : Bytes) : isValidSha256 (sha256Hex data) = true := by
  have hlength := length_toList_sha256Hex data
  have hdigits : (sha256Hex data).toList.all Hex.IsLowerDigit = true := by
    rw [List.all_eq_true]
    intro c hc
    exact isLowerDigit_of_mem_sha256Hex hc
  simp [isValidSha256, hlength, hdigits]

/-- A path that is a hash has no extension to cut off. -/
theorem splitFirst_of_isValidSha256 {hash : String} (h : isValidSha256 hash = true) :
    RustStr.splitFirst '.' hash = hash := by
  have hdigits : ∀ c ∈ hash.toList, Hex.IsLowerDigit c = true := by
    rw [isValidSha256, Bool.and_eq_true] at h
    exact List.all_eq_true.mp h.2
  have hall : hash.toList.takeWhile (· ≠ '.') = hash.toList := by
    rw [List.takeWhile_eq_self_iff]
    intro c hc
    have hdigit := hdigits c hc
    rw [decide_eq_true_eq]
    rintro rfl
    exact absurd hdigit (by decide)
  rw [RustStr.splitFirst, hall, String.ofList_toList]

end BlossomRs.Server

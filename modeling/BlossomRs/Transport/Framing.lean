import BlossomRs.Lib.Chunks
import BlossomRs.Lib.Utf8
import BlossomRs.Protocol
import BlossomRs.Transport.Wire

/-!
# Frames on a stream

A frame is a line of JSON and the body after it.  Fields that have their default are left out of the
line where they are texts, and come back through the defaults.

The server reads the line one byte at a time, up to a limit, and then as many bytes as the request
announces.  The client reads in blocks, so a block may end anywhere, also behind the line; what is left
of the block is the beginning of the body.  `wire_roundtrip`: both get back what was sent, however the
stream is split into reads.
-/

namespace BlossomRs.Transport

open Protocol Json

/-! ### Values of fields -/

/-- A text is left out when it is empty. -/
def textField (text : String) : Option Json :=
  if text = "" then none else some (.str text)

def readText : Json → Option String
  | .str text => some text
  | _ => none

def readBool : Json → Option Bool
  | .bool flag => some flag
  | _ => none

/-- A number that is in range of an unsigned type of so many bits. -/
def readUnsigned (width : Nat) : Json → Option Nat
  | .num n => if 0 ≤ n ∧ n.toNat < 2 ^ width then some n.toNat else none
  | _ => none

/-- An optional value: `null` stands for its absence. -/
def readOptional : Json → Option (Option Json)
  | .null => some none
  | value => some (some value)

theorem elim_textField (text : String) : (textField text).elim (some "") readText = some text := by
  unfold textField
  split
  · rename_i hempty
    rw [hempty]
    rfl
  · rfl

theorem readUnsigned_natCast {width n : Nat} (h : n < 2 ^ width) :
    readUnsigned width (.num n) = some n := by
  rw [readUnsigned, Int.toNat_natCast, if_pos ⟨Int.natCast_nonneg n, h⟩]

/-! ### Operations and states -/

/-- The name of an operation: its words in lower case, without a blank. -/
def Op.name : Op → String
  | .get => "get"
  | .head => "head"
  | .upload => "upload"
  | .delete => "delete"
  | .list => "list"
  | .lockCreate => "lockcreate"
  | .lockDelete => "lockdelete"
  | .lockList => "locklist"
  | .lockVerify => "lockverify"

def Op.all : List Op :=
  [.get, .head, .upload, .delete, .list, .lockCreate, .lockDelete, .lockList, .lockVerify]

def readOp (value : Json) : Option Op :=
  (readText value).bind fun text => Op.all.find? (·.name == text)

theorem readOp_name (op : Op) : readOp (.str op.name) = some op := by
  cases op <;> decide

/-- The name of a status: its words in lower case, with `_` between them. -/
def Status.name : Status → String
  | .ok => "ok"
  | .notFound => "not_found"
  | .unauthorized => "unauthorized"
  | .forbidden => "forbidden"
  | .conflict => "conflict"
  | .error => "error"

def Status.all : List Status :=
  [.ok, .notFound, .unauthorized, .forbidden, .conflict, .error]

def readStatus (value : Json) : Option Status :=
  (readText value).bind fun text => Status.all.find? (·.name == text)

theorem readStatus_name (status : Status) : readStatus (.str status.name) = some status := by
  cases status <;> decide

/-! ### Requests -/

namespace Request

/-- The fields of a request, with those that are left out. -/
def table (request : Request) : List (String × Option Json) :=
  [("op", some (.str request.op.name)), ("sha256", textField request.sha256),
    ("pubkey", textField request.pubkey), ("auth", textField request.auth),
    ("content_type", textField request.contentType),
    ("body_len", some (.num request.bodyLen.toNat)), ("repo_id", textField request.repoId),
    ("lock_id", textField request.lockId), ("lock_path", textField request.lockPath),
    ("force", some (.bool request.force)), ("cursor", textField request.cursor),
    ("limit", some (.num request.limit.toNat)), ("lfs_path", textField request.lfsPath),
    ("lfs_repo", textField request.lfsRepo), ("lfs_base", textField request.lfsBase),
    ("lfs_manifest", some (.bool request.lfsManifest))]

def toJson (request : Request) : Json :=
  .obj (fieldsOf request.table)

def ofJson : Json → Option Request
  | .obj fields => do
      let op ← field fields "op" readOp none
      let sha256 ← field fields "sha256" readText (some "")
      let pubkey ← field fields "pubkey" readText (some "")
      let auth ← field fields "auth" readText (some "")
      let contentType ← field fields "content_type" readText (some "")
      let bodyLen ← field fields "body_len" (readUnsigned 64) (some 0)
      let repoId ← field fields "repo_id" readText (some "")
      let lockId ← field fields "lock_id" readText (some "")
      let lockPath ← field fields "lock_path" readText (some "")
      let force ← field fields "force" readBool (some false)
      let cursor ← field fields "cursor" readText (some "")
      let limit ← field fields "limit" (readUnsigned 32) (some 0)
      let lfsPath ← field fields "lfs_path" readText (some "")
      let lfsRepo ← field fields "lfs_repo" readText (some "")
      let lfsBase ← field fields "lfs_base" readText (some "")
      let lfsManifest ← field fields "lfs_manifest" readBool (some false)
      some ⟨op, sha256, pubkey, auth, contentType, UInt64.ofNat bodyLen, repoId, lockId, lockPath,
        force, cursor, UInt32.ofNat limit, lfsPath, lfsRepo, lfsBase, lfsManifest⟩
  | _ => none

theorem nodup_names (request : Request) : (request.table.map Prod.fst).Nodup := by
  show ["op", "sha256", "pubkey", "auth", "content_type", "body_len", "repo_id", "lock_id",
    "lock_path", "force", "cursor", "limit", "lfs_path", "lfs_repo", "lfs_base",
    "lfs_manifest"].Nodup
  decide

/-- Every request is read back from its object. -/
theorem ofJson_toJson (request : Request) : ofJson request.toJson = some request := by
  have hbody := readUnsigned_natCast (show request.bodyLen.toNat < 2 ^ 64 from request.bodyLen.toNat_lt)
  have hlimit := readUnsigned_natCast (show request.limit.toNat < 2 ^ 32 from request.limit.toNat_lt)
  rw [toJson, ofJson]
  -- each field is found under its name, whatever was left out
  have hfields : ∀ entry ∈ request.table, ∀ {α : Type} (read : Json → Option α) (missing : Option α),
      field (fieldsOf request.table) entry.1 read missing = entry.2.elim missing read :=
    fun _ hentry _ read missing => field_fieldsOf request.nodup_names hentry read missing
  generalize fieldsOf request.table = fields at hfields ⊢
  simp only [table, List.forall_mem_cons, List.not_mem_nil, false_implies, implies_true,
    and_true] at hfields
  obtain ⟨hop, hsha256, hpubkey, hauth, htype, hlength, hrepo, hid, hpath, hforce, hcursor, hcount,
    hlfsPath, hlfsRepo, hlfsBase, hmanifest⟩ := hfields
  simp only [hop, hsha256, hpubkey, hauth, htype, hlength, hrepo, hid, hpath, hforce, hcursor, hcount,
    hlfsPath, hlfsRepo, hlfsBase, hmanifest, elim_textField, Option.elim_some, readOp_name, hbody,
    hlimit, readBool, Option.bind_eq_bind, Option.bind_some, UInt64.ofNat_toNat, UInt32.ofNat_toNat]

end Request

/-! ### Responses -/

namespace Response

/-- The fields of a response, with those that are left out. -/
def table (response : Response) : List (String × Option Json) :=
  [("status", some (.str response.status.name)), ("body_len", some (.num response.bodyLen)),
    ("content_type", textField response.contentType), ("error", textField response.error),
    ("descriptor", response.descriptor)]

def toJson (response : Response) : Json :=
  .obj (fieldsOf response.table)

def ofJson : Json → Option Response
  | .obj fields => do
      let status ← field fields "status" readStatus none
      let bodyLen ← field fields "body_len" (readUnsigned 64) (some 0)
      let contentType ← field fields "content_type" readText (some "")
      let error ← field fields "error" readText (some "")
      let descriptor ← field fields "descriptor" readOptional (some none)
      some ⟨status, bodyLen, contentType, error, descriptor⟩
  | _ => none

theorem nodup_names (response : Response) : (response.table.map Prod.fst).Nodup := by
  show ["status", "body_len", "content_type", "error", "descriptor"].Nodup
  decide

theorem elim_descriptor {descriptor : Option Json} (h : descriptor ≠ some .null) :
    descriptor.elim (some none) readOptional = some descriptor := by
  match descriptor with
  | none => rfl
  | some .null => exact absurd rfl h
  | some (.bool _) => rfl
  | some (.num _) => rfl
  | some (.str _) => rfl
  | some (.arr _) => rfl
  | some (.obj _) => rfl

/-- A response is read back from its object, unless its descriptor is `null`: that is read as none. -/
theorem ofJson_toJson {response : Response} (hlength : response.bodyLen < 2 ^ 64)
    (hdescriptor : response.descriptor ≠ some .null) :
    ofJson response.toJson = some response := by
  rw [toJson, ofJson]
  have hfields : ∀ entry ∈ response.table, ∀ {α : Type} (read : Json → Option α)
      (missing : Option α),
      field (fieldsOf response.table) entry.1 read missing = entry.2.elim missing read :=
    fun _ hentry _ read missing => field_fieldsOf response.nodup_names hentry read missing
  generalize fieldsOf response.table = fields at hfields ⊢
  simp only [table, List.forall_mem_cons, List.not_mem_nil, false_implies, implies_true,
    and_true] at hfields
  obtain ⟨hstatus, hbody, htype, herror, hdesc⟩ := hfields
  simp only [hstatus, hbody, htype, herror, hdesc, elim_textField, Option.elim_some, readStatus_name,
    readUnsigned_natCast hlength, elim_descriptor hdescriptor, Option.bind_eq_bind, Option.bind_some]

end Response

/-! ### Lines -/

/-- The line break, as a byte. -/
def newline : UInt8 :=
  10

/-- The text of a value and a line break. -/
def encodeLine (value : Json) : Bytes :=
  RustStr.asBytes value.print ++ [newline]

/-- `encode_request`. -/
def encodeRequest (request : Request) : Bytes :=
  encodeLine request.toJson

/-- `encode_response`. -/
def encodeResponse (response : Response) : Bytes :=
  encodeLine response.toJson

/-- `serde_json::from_slice`, down to a value, with its error texts. -/
structure JsonReader where
  parse : Bytes → Option Json
  error : Bytes → String

/-- What was printed is read back. -/
def JsonReader.ReadsBack (reader : JsonReader) : Prop :=
  ∀ value : Json, reader.parse (RustStr.asBytes value.print) = some value

/-- `decode_line`: the value, and how many bytes it took with the line break. -/
def decodeLine {T : Type} (reader : JsonReader) (ofJson : Json → Option T) (buf : Bytes) :
    Except String (T × Nat) :=
  match buf.findIdx? (· == newline) with
  | none => .error "no newline found in buffer"
  | some pos =>
    match (reader.parse (buf.take pos)).bind ofJson with
    | none => .error ("parse JSON line: " ++ reader.error (buf.take pos))
    | some value => .ok (value, pos + 1)

theorem newline_notMem_print (value : Json) : newline ∉ RustStr.asBytes value.print :=
  RustStr.newline_notMem_asBytes value.newline_notMem_render

variable {reader : JsonReader} {body : Bytes} {pieces : List Bytes}

/-- A line is decoded to what was printed, whatever follows it. -/
theorem decodeLine_line {T : Type} (hreader : reader.ReadsBack) {ofJson : Json → Option T}
    {value : Json} {t : T} (h : ofJson value = some t) (rest : Bytes) :
    decodeLine reader ofJson (RustStr.asBytes value.print ++ newline :: rest)
      = .ok (t, (RustStr.asBytes value.print).length + 1) := by
  have hpos : (RustStr.asBytes value.print ++ newline :: rest).findIdx? (· == newline)
      = some (RustStr.asBytes value.print).length := by
    have hnone : (RustStr.asBytes value.print).findIdx? (· == newline) = none := by
      rw [List.findIdx?_eq_none_iff]
      intro byte hbyte
      simp only [beq_eq_false_iff_ne]
      rintro rfl
      exact newline_notMem_print value hbyte
    rw [List.findIdx?_append, hnone]
    simp [List.findIdx?_cons]
  unfold decodeLine
  rw [hpos]
  dsimp only
  rw [List.take_left' rfl, hreader value, Option.bind_some, h]

/-! ### The server -/

/-- `MAX_WIRE_HEADER`. -/
def maxWireHeader : Nat :=
  16 * 1024

/-- What `handle_stream` reads first: the request, and what is still to come.  A stream whose line is too
long is dropped. -/
def readRequest (reader : JsonReader) (pieces : List Bytes) :
    Option (Except String Request × List Bytes) :=
  (Chunks.readLine newline maxWireHeader [] pieces).map fun read =>
    ((decodeLine reader Request.ofJson read.1).map Prod.fst, read.2)

/-- The body of an upload.  A stream that ends before is dropped. -/
def readUploadBody (request : Request) (pieces : List Bytes) : Option Bytes :=
  (Chunks.readExact request.bodyLen.toNat pieces).map Prod.fst

/-! ### The client -/

/-- The size of the client's blocks. -/
def blockSize : Nat :=
  4096

/-- `read_response`: the response, the bytes read past its line, and what is still to come. -/
def readResponse (reader : JsonReader) (pieces : List Bytes) :
    Except String (Response × Bytes × List Bytes) :=
  let (buf, rest) := Chunks.readBlocks newline blockSize (by decide) [] pieces
  match decodeLine reader Response.ofJson buf with
  | .error e => .error e
  | .ok (response, consumed) => .ok (response, buf.drop consumed, rest)

/-- The body of a response: the bytes read past the line and as many more as are missing, cut at the
announced length; none when the stream ends before. -/
def readBody (response : Response) (leftover : Bytes) (pieces : List Bytes) : Option Bytes :=
  let remaining := response.bodyLen - leftover.length
  let data := if 0 < remaining then
      (Chunks.readExact remaining pieces).map fun read => leftover ++ read.1
    else some leftover
  data.map (·.take response.bodyLen)

/-! ### Round trips -/

/-- The server gets the request, and leaves what follows the line. -/
theorem readRequest_encode (hreader : reader.ReadsBack) {request : Request}
    (hlimit : (encodeRequest request).length ≤ maxWireHeader)
    (h : pieces.flatten = encodeRequest request ++ body) :
    ∃ rest, readRequest reader pieces = some (.ok request, rest) ∧ rest.flatten = body := by
  rw [encodeRequest, encodeLine, List.append_assoc, List.singleton_append] at h
  rw [encodeRequest, encodeLine, List.length_append, List.length_singleton] at hlimit
  obtain ⟨rest, hline, hrest⟩ := Chunks.readLine_line (newline_notMem_print request.toJson)
    (show ([] : Bytes).length + (RustStr.asBytes request.toJson.print).length < maxWireHeader by
      rw [List.length_nil]
      omega) h
  refine ⟨rest, ?_, hrest⟩
  rw [readRequest, hline, Option.map_some, List.nil_append]
  dsimp only
  rw [decodeLine_line hreader request.ofJson_toJson]
  rfl

/-- The client gets the response, and has or still gets the body. -/
theorem readResponse_encode (hreader : reader.ReadsBack) {response : Response}
    (hlength : response.bodyLen < 2 ^ 64) (hdescriptor : response.descriptor ≠ some .null)
    (h : pieces.flatten = encodeResponse response ++ body) :
    ∃ leftover rest, readResponse reader pieces = .ok (response, leftover, rest)
      ∧ leftover ++ rest.flatten = body := by
  rw [encodeResponse, encodeLine, List.append_assoc, List.singleton_append] at h
  obtain ⟨leftover, hbuf, hrest⟩ := Chunks.readBlocks_line (show 0 < blockSize by decide)
    (newline_notMem_print response.toJson) h
  refine ⟨leftover, (Chunks.readBlocks newline blockSize (by decide) [] pieces).2, ?_, hrest⟩
  unfold readResponse
  dsimp only
  rw [hbuf, decodeLine_line hreader (Response.ofJson_toJson hlength hdescriptor)]
  dsimp only
  rw [List.drop_append, List.drop_of_length_le (by omega), List.nil_append, Nat.add_sub_cancel_left]
  rfl

/-- As many bytes as the length says are put together from both parts. -/
theorem readBody_of_length {response : Response} {leftover : Bytes}
    (h : leftover ++ pieces.flatten = body) (hlength : response.bodyLen = body.length) :
    readBody response leftover pieces = some body := by
  have hsum := congrArg List.length h
  rw [List.length_append] at hsum
  unfold readBody
  dsimp only
  by_cases hmore : 0 < response.bodyLen - leftover.length
  · have hcount : response.bodyLen - leftover.length = pieces.flatten.length := by omega
    obtain ⟨rest, hread, -⟩ := Chunks.readExact_of_le hcount.le
    rw [if_pos hmore, hread, Option.map_some, Option.map_some, hcount, List.take_length, h, hlength,
      List.take_length]
  · have hnone : pieces.flatten = [] := List.length_eq_zero_iff.mp (by omega)
    rw [hnone, List.append_nil] at h
    rw [if_neg hmore, Option.map_some, h, hlength, List.take_length]

/-- **What is sent is received.**  However a stream is split into reads, the server gets the request
and the body of an upload back, and the client the response and its body. -/
theorem wire_roundtrip (reader : JsonReader) (hreader : reader.ReadsBack) :
    (∀ (request : Request) (body : Bytes) (pieces : List Bytes),
        (encodeRequest request).length ≤ maxWireHeader →
        (request.op = .upload → body.length = request.bodyLen.toNat) →
        pieces.flatten = encodeRequest request ++ body →
        ∃ rest, readRequest reader pieces = some (.ok request, rest)
          ∧ (request.op = .upload → readUploadBody request rest = some body))
      ∧ ∀ (response : Response) (body : Bytes) (pieces : List Bytes),
        response.descriptor ≠ some .null → response.bodyLen < 2 ^ 64 →
        body.length = response.bodyLen →
        pieces.flatten = encodeResponse response ++ body →
        ∃ leftover rest, readResponse reader pieces = .ok (response, leftover, rest)
          ∧ readBody response leftover rest = some body := by
  constructor
  · intro request body pieces hlimit hlength hpieces
    obtain ⟨rest, hread, hrest⟩ := readRequest_encode hreader hlimit hpieces
    refine ⟨rest, hread, fun hupload => ?_⟩
    have hcount : request.bodyLen.toNat = rest.flatten.length := by
      rw [hrest, hlength hupload]
    obtain ⟨after, hbody, -⟩ := Chunks.readExact_of_le hcount.le
    rw [readUploadBody, hbody, Option.map_some, hcount, List.take_length, hrest]
  · intro response body pieces hdescriptor hrange hlength hpieces
    obtain ⟨leftover, rest, hread, hrest⟩ := readResponse_encode hreader hrange hdescriptor hpieces
    exact ⟨leftover, rest, hread, readBody_of_length hrest hlength.symm⟩

/-- A reader of exactly the texts that are printed. -/
noncomputable def JsonReader.ofPrinted : JsonReader where
  parse bytes := Function.partialInv (fun value : Json => RustStr.asBytes value.print) bytes
  error _ := "expected value at line 1 column 1"

theorem readsBack_ofPrinted : JsonReader.ofPrinted.ReadsBack := fun value =>
  Function.partialInv_left (RustStr.asBytes_injective.comp Json.print_injective) value

/-- An upload of three bytes. -/
def smallUpload : Request :=
  { Request.of .upload with bodyLen := 3 }

/-- A blob of two line breaks is read after a response whose line ends in the middle of a block, and an
upload whose line and body come in one piece. -/
theorem line_breaks_roundtrip :
    (∃ rest, readRequest .ofPrinted [encodeRequest smallUpload ++ [10, 0, 10]]
        = some (.ok smallUpload, rest) ∧ readUploadBody smallUpload rest = some [10, 0, 10])
      ∧ ∃ leftover rest, readResponse .ofPrinted
          [encodeResponse ⟨.ok, 2, "", "", none⟩ ++ [10], [10]]
          = .ok (⟨.ok, 2, "", "", none⟩, leftover, rest)
        ∧ readBody ⟨.ok, 2, "", "", none⟩ leftover rest = some [10, 10] := by
  obtain ⟨hrequest, hresponse⟩ := wire_roundtrip .ofPrinted readsBack_ofPrinted
  constructor
  · obtain ⟨rest, hread, hbody⟩ := hrequest smallUpload [10, 0, 10]
      [encodeRequest smallUpload ++ [10, 0, 10]] (by decide) (fun _ => rfl) (by simp)
    exact ⟨rest, hread, hbody rfl⟩
  · exact hresponse ⟨.ok, 2, "", "", none⟩ [10, 10] _ nofun (by decide) rfl (by simp)

end BlossomRs.Transport

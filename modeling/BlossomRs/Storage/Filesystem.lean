import BlossomRs.Lib.Assoc
import BlossomRs.Lib.Checks
import BlossomRs.Lib.RustStr
import BlossomRs.Storage

/-!
# Filesystem storage

Blobs are the files `<hash>.blob` of one directory, next to an index of sizes in memory.  Every write
goes to a temporary file first, which is renamed over the blob's file at the end: a write that fails
leaves the directory as it was.  The temporary files have names of their own that neither the scan at
the start nor a lookup ever reads, and are left out here.

The index is filled by the calls, with the sizes they are told, and by the scan of `new`, with the
sizes it finds.  A lookup reads the directory.  Reading a file and a directory is taken to succeed.
-/

namespace BlossomRs.Storage

open Protocol

/-! ### The directory -/

inductive DirEntry where
  | file (data : Bytes)
  | directory
deriving DecidableEq, Repr

/-- The entries of the data directory under their names, as they are listed. -/
abbrev Directory := AList fun _ : String => DirEntry

namespace Directory

/-- The bytes of a regular file. -/
def fileAt (dir : Directory) (name : String) : Option Bytes :=
  match dir.lookup name with
  | some (.file data) => some data
  | _ => none

/-- `fs::rename` of a finished temporary file. -/
def rename (dir : Directory) (name : String) (data : Bytes) : Except String Directory :=
  match dir.lookup name with
  | some .directory => .error "Is a directory (os error 21)"
  | _ => .ok (dir.insert name (.file data))

/-- `fs::remove_file`. -/
def removeFile (dir : Directory) (name : String) : Except String Directory :=
  match dir.lookup name with
  | some (.file _) => .ok (dir.erase name)
  | some .directory => .error "Is a directory (os error 21)"
  | none => .error "No such file or directory (os error 2)"

end Directory

/-! ### Streams -/

/-- What one `read` returns.  An empty read is the end of the stream. -/
inductive ReadResult where
  | bytes (chunk : Bytes)
  | interrupted
  | failed (error : String)
deriving DecidableEq, Repr

def readErrorText (error : String) : String :=
  "read stream: " ++ error

/-- `Read::read_to_end`: an interrupted read is tried again. -/
def readToEnd (data : Bytes) : List ReadResult → Except String Bytes
  | [] => .ok data
  | .bytes [] :: _ => .ok data
  | .bytes (byte :: chunk) :: reads => readToEnd (data ++ byte :: chunk) reads
  | .interrupted :: reads => readToEnd data reads
  | .failed error :: _ => .error error

/-- `insert_stream` as the trait has it.  The room it reserves for the announced size is left out. -/
def MemoryBackend.insertStream (store : MemoryBackend) (reads : List ReadResult) (baseUrl : String)
    (now : Nat) : Except String BlobDescriptor × MemoryBackend :=
  match readToEnd [] reads with
  | .error error => (.error (readErrorText error), store)
  | .ok data => ((store.insert data baseUrl now).map .ok id)

/-- The incremental digest, by the bytes it has seen. -/
structure Hasher where
  message : Bytes

namespace Hasher

def new : Hasher :=
  ⟨[]⟩

def update (hasher : Hasher) (chunk : Bytes) : Hasher :=
  ⟨hasher.message ++ chunk⟩

def finalizeHex (hasher : Hasher) : String :=
  sha256Hex hasher.message

end Hasher

/-! ### The backend -/

/-- The calls of the operating system that may fail. -/
inductive FileCall where
  | createTempBlob
  | writeTempBlob
  | syncTempBlob
  | commitBlob
  | createTemp
  | writeTemp
  | flushTemp
  | renameTemp
  | deleteBlob
deriving DecidableEq, Repr

/-- The words before the error of a call. -/
def FileCall.text : FileCall → String
  | .createTempBlob => "create temp blob: "
  | .writeTempBlob => "write temp blob: "
  | .syncTempBlob => "sync temp blob: "
  | .commitBlob => "commit blob: "
  | .createTemp => "create temp: "
  | .writeTemp => "write temp: "
  | .flushTemp => "flush temp: "
  | .renameTemp => "rename temp to blob: "
  | .deleteBlob => "delete blob: "

/-- The directory and the index, and what calls of each kind fail with, if they fail. -/
structure FilesystemBackend where
  dir : Directory
  index : AList fun _ : String => Nat
  outage : FileCall → Option String

namespace FilesystemBackend

/-- `valid_hash`. -/
def validHash (sha256 : String) : Bool :=
  sha256.toList.length == 64 && sha256.toList.all Hex.IsLowerDigit

/-- The hash a file is listed under at the start. -/
def listedHash (name : String) : Option String :=
  if RustStr.endsWith name ".blob" then
    let hash := RustStr.trimEndText ".blob" name
    if validHash hash then some hash else none
  else none

/-- One round of the scan: only regular files are listed. -/
def scanEntry (index : AList fun _ : String => Nat) (entry : (_ : String) × DirEntry) :
    AList fun _ : String => Nat :=
  match listedHash entry.1, entry.2 with
  | some hash, .file data => index.insert hash data.length
  | _, _ => index

/-- The index `new` builds. -/
def scan (dir : Directory) : AList fun _ : String => Nat :=
  dir.entries.foldl scanEntry ∅

/-- `FilesystemBackend::new`. -/
def new (dir : Directory) (outage : FileCall → Option String) : FilesystemBackend where
  dir := dir
  index := scan dir
  outage := outage

/-- The file name of a hash. -/
def blobName (sha256 : String) : String :=
  sha256 ++ ".blob"

/-- `blob_path`. -/
def blobPath (sha256 : String) : Option String :=
  if validHash sha256 then some (blobName sha256) else none

/-- `blob_path(..).ok_or_else(..)`. -/
def pathOr (sha256 : String) (error : String) : Except String String :=
  match blobPath sha256 with
  | some name => .ok name
  | none => .error error

/-- Make a call of the operating system. -/
def performing {α : Type} (fs : FilesystemBackend) (call : FileCall) (result : Except String α) :
    Except String α :=
  match fs.outage call with
  | some error => .error (call.text ++ error)
  | none => result.mapError (call.text ++ ·)

def invalidKey : String :=
  "invalid SHA256 storage key"

/-- `atomic_write`: the directory afterwards. -/
def atomicWrite (fs : FilesystemBackend) (hash : String) (data : Bytes) :
    Except String Directory := do
  let name ← pathOr hash invalidKey
  fs.performing .createTempBlob (.ok ())
  fs.performing .writeTempBlob (.ok ())
  fs.performing .syncTempBlob (.ok ())
  fs.performing .commitBlob (fs.dir.rename name data)

/-- A write, and the entry of the index that follows it. -/
def writeBlob (fs : FilesystemBackend) (hash : String) (size : Nat) (data : Bytes) :
    Except String FilesystemBackend :=
  match fs.atomicWrite hash data with
  | .error error => .error error
  | .ok dir => .ok { fs with dir := dir, index := fs.index.insert hash size }

/-- `insert`: a failed write is only logged. -/
def insert (fs : FilesystemBackend) (data : Bytes) (baseUrl : String) (now : Nat) :
    BlobDescriptor × FilesystemBackend :=
  let descriptor := makeDescriptor data baseUrl now
  match fs.writeBlob descriptor.sha256 descriptor.size data with
  | .error _ => (descriptor, fs)
  | .ok fs' => (descriptor, fs')

/-- `try_insert`. -/
def tryInsert (fs : FilesystemBackend) (data : Bytes) (baseUrl : String) (now : Nat) :
    Except String BlobDescriptor × FilesystemBackend :=
  let descriptor := makeDescriptor data baseUrl now
  match fs.writeBlob descriptor.sha256 descriptor.size data with
  | .error error => (.error error, fs)
  | .ok fs' => (.ok descriptor, fs')

/-- `insert_with_hash`. -/
def insertWithHash (fs : FilesystemBackend) (data : Bytes) (hash : String) (originalSize : Nat)
    (baseUrl : String) (now : Nat) : BlobDescriptor × FilesystemBackend :=
  let descriptor := makeDescriptorFromHash hash originalSize baseUrl now
  match fs.writeBlob descriptor.sha256 descriptor.size data with
  | .error _ => (descriptor, fs)
  | .ok fs' => (descriptor, fs')

/-- `try_insert_with_hash`. -/
def tryInsertWithHash (fs : FilesystemBackend) (data : Bytes) (hash : String) (originalSize : Nat)
    (baseUrl : String) (now : Nat) : Except String BlobDescriptor × FilesystemBackend :=
  let descriptor := makeDescriptorFromHash hash originalSize baseUrl now
  match fs.writeBlob hash descriptor.size data with
  | .error error => (.error error, fs)
  | .ok fs' => (.ok descriptor, fs')

/-- `get`. -/
def get (fs : FilesystemBackend) (sha256 : String) : Option Bytes :=
  (blobPath sha256).bind fs.dir.fileAt

/-- `exists`. -/
def existsBlob (fs : FilesystemBackend) (sha256 : String) : Bool :=
  (fs.index.lookup sha256).isSome || (get fs sha256).isSome

/-- `try_delete`. -/
def tryDelete (fs : FilesystemBackend) (sha256 : String) : Except String Bool × FilesystemBackend :=
  match blobPath sha256 with
  | none => (.error invalidKey, fs)
  | some name =>
    if (fs.index.lookup sha256).isSome || (fs.dir.fileAt name).isSome then
      match fs.performing .deleteBlob (fs.dir.removeFile name) with
      | .error error => (.error error, fs)
      | .ok dir => (.ok true, { fs with dir := dir, index := fs.index.erase sha256 })
    else (.ok false, fs)

/-- `delete`. -/
def delete (fs : FilesystemBackend) (sha256 : String) : Bool × FilesystemBackend :=
  match fs.tryDelete sha256 with
  | (.ok existed, fs') => (existed, fs')
  | (.error _, fs') => (false, fs')

/-- The variables of the streaming loop: the digest, the temporary file and the count. -/
structure Streaming where
  hasher : Hasher
  file : Bytes
  total : Nat

/-- The loop of `insert_stream`.  Here an interrupted read ends the call. -/
def streamLoop (fs : FilesystemBackend) (acc : Streaming) :
    List ReadResult → Except String Streaming
  | [] => .ok acc
  | .bytes [] :: _ => .ok acc
  | .bytes (byte :: chunk) :: reads =>
    match fs.performing .writeTemp (.ok ()) with
    | .error error => .error error
    | .ok () => fs.streamLoop ⟨acc.hasher.update (byte :: chunk), acc.file ++ byte :: chunk,
        acc.total + (byte :: chunk).length⟩ reads
  | .interrupted :: _ => .error (readErrorText "Interrupted system call (os error 4)")
  | .failed error :: _ => .error (readErrorText error)

/-- Everything `insert_stream` does before its descriptor is made: the hash, the size and the
backend afterwards. -/
def receiveStream (fs : FilesystemBackend) (reads : List ReadResult) :
    Except String (String × Nat × FilesystemBackend) := do
  fs.performing .createTemp (.ok ())
  let acc ← fs.streamLoop ⟨.new, [], 0⟩ reads
  fs.performing .flushTemp (.ok ())
  let hash := acc.hasher.finalizeHex
  let name ← pathOr hash "invalid computed SHA256"
  let dir ← fs.performing .renameTemp (fs.dir.rename name acc.file)
  return (hash, acc.total, { fs with dir := dir, index := fs.index.insert hash acc.total })

/-- `insert_stream`. -/
def insertStream (fs : FilesystemBackend) (reads : List ReadResult) (baseUrl : String) (now : Nat) :
    Except String BlobDescriptor × FilesystemBackend :=
  match fs.receiveStream reads with
  | .error error => (.error error, fs)
  | .ok (hash, total, fs') => (.ok (makeDescriptorFromHash hash total baseUrl now), fs')

instance : BlobBackend FilesystemBackend where
  tryInsert := tryInsert
  tryInsertWithHash := tryInsertWithHash
  get := get
  existsBlob := existsBlob
  tryDelete := tryDelete
  len fs := fs.index.keys.length
  totalBytes fs := (fs.index.entries.map fun entry => entry.2).sum

/-! ### What the calls do -/

/-- The file and the entry of a blob. -/
def putFile (fs : FilesystemBackend) (hash : String) (size : Nat) (data : Bytes) :
    FilesystemBackend :=
  { fs with
    dir := fs.dir.insert (blobName hash) (.file data)
    index := fs.index.insert hash size }

/-- Without the file and the entry of a blob. -/
def dropFile (fs : FilesystemBackend) (hash : String) : FilesystemBackend :=
  { fs with
    dir := fs.dir.erase (blobName hash)
    index := fs.index.erase hash }

theorem blobName_injective : Function.Injective blobName := by
  intro hash hash' h
  have htext := congrArg String.toList h
  rw [blobName, blobName, String.toList_append, String.toList_append] at htext
  exact String.toList_injective (List.append_cancel_right htext)

variable {fs fs' : FilesystemBackend} {hash : String} {size : Nat} {data : Bytes}

theorem performing_eq_ok {α : Type} {call : FileCall} {result : Except String α} {a : α} :
    fs.performing call result = .ok a ↔ fs.outage call = none ∧ result = .ok a := by
  unfold performing
  cases fs.outage call <;> cases result <;> simp [Except.mapError]

variable {name : String} {reads : List ReadResult} {chunks : List Bytes}

theorem blobPath_eq_some :
    blobPath hash = some name ↔ validHash hash = true ∧ name = blobName hash := by
  unfold blobPath
  split
  · rename_i hvalid
    simp [hvalid, eq_comm]
  · rename_i hvalid
    simp [hvalid]

theorem pathOr_eq_ok {error : String} :
    pathOr hash error = .ok name ↔ validHash hash = true ∧ name = blobName hash := by
  rw [← blobPath_eq_some]
  unfold pathOr
  cases blobPath hash <;> simp

theorem validHash_sha256Hex (data : Bytes) : validHash (sha256Hex data) = true := by
  have hdigits : (sha256Hex data).toList.all Hex.IsLowerDigit = true := by
    rw [List.all_eq_true]
    intro c hc
    exact isLowerDigit_of_mem_sha256Hex hc
  rw [validHash, length_toList_sha256Hex, hdigits]
  rfl

theorem rename_eq_ok {dir dir' : Directory} :
    dir.rename name data = .ok dir'
      ↔ dir.lookup name ≠ some .directory ∧ dir' = dir.insert name (.file data) := by
  unfold Directory.rename
  split <;> simp_all [eq_comm]

theorem removeFile_eq_ok {dir dir' : Directory} :
    dir.removeFile name = .ok dir' ↔ (dir.fileAt name).isSome ∧ dir' = dir.erase name := by
  unfold Directory.removeFile Directory.fileAt
  cases dir.lookup name with
  | none => simp
  | some entry => cases entry <;> simp [eq_comm]

/-- A write goes through when the hash is one, no call fails and no directory is in the way. -/
theorem writeBlob_eq_ok : fs.writeBlob hash size data = .ok fs' ↔
    validHash hash = true
      ∧ (∀ call ∈ [FileCall.createTempBlob, .writeTempBlob, .syncTempBlob, .commitBlob],
        fs.outage call = none)
      ∧ fs.dir.lookup (blobName hash) ≠ some .directory
      ∧ fs' = fs.putFile hash size data := by
  have hwrite : ∀ dir, fs.atomicWrite hash data = .ok dir ↔
      validHash hash = true
        ∧ (∀ call ∈ [FileCall.createTempBlob, .writeTempBlob, .syncTempBlob, .commitBlob],
          fs.outage call = none)
        ∧ fs.dir.lookup (blobName hash) ≠ some .directory
        ∧ dir = fs.dir.insert (blobName hash) (.file data) := by
    intro dir
    unfold atomicWrite
    simp only [Checks.bind_eq_ok, performing_eq_ok, rename_eq_ok, pathOr_eq_ok]
    constructor
    · rintro ⟨name, ⟨hvalid, rfl⟩, _, ⟨h₁, -⟩, _, ⟨h₂, -⟩, _, ⟨h₃, -⟩, h₄, hdir, rfl⟩
      exact ⟨hvalid, by simp [h₁, h₂, h₃, h₄], hdir, rfl⟩
    · rintro ⟨hvalid, hcalls, hdir, rfl⟩
      simp only [List.mem_cons, List.not_mem_nil, or_false, forall_eq_or_imp, forall_eq] at hcalls
      obtain ⟨h₁, h₂, h₃, h₄⟩ := hcalls
      exact ⟨_, ⟨hvalid, rfl⟩, (), ⟨h₁, trivial⟩, (), ⟨h₂, trivial⟩, (), ⟨h₃, trivial⟩, h₄, hdir,
        rfl⟩
  unfold writeBlob
  split
  · rename_i error herror
    constructor
    · rintro ⟨⟩
    · rintro ⟨hvalid, hcalls, hdir, -⟩
      cases herror.symm.trans ((hwrite _).mpr ⟨hvalid, hcalls, hdir, rfl⟩)
  · rename_i dir hdir
    obtain ⟨hvalid, hcalls, hname, rfl⟩ := (hwrite dir).mp hdir
    constructor
    · intro h
      exact ⟨hvalid, hcalls, hname, (Except.ok.inj h).symm⟩
    · rintro ⟨-, -, -, rfl⟩
      rfl

/-- The loop keeps the digest, the file and the count of the same bytes, those of the stream. -/
theorem streamLoop_eq_ok {acc : Streaming} (written : Bytes)
    (h : fs.streamLoop ⟨⟨written⟩, written, written.length⟩ reads = .ok acc) :
    ∃ stream, readToEnd written reads = .ok stream
      ∧ acc = ⟨⟨stream⟩, stream, stream.length⟩ := by
  induction reads generalizing written with
  | nil => exact ⟨written, rfl, (Except.ok.inj h).symm⟩
  | cons read reads ih =>
    match read with
    | .bytes [] => exact ⟨written, rfl, (Except.ok.inj h).symm⟩
    | .interrupted => cases h
    | .failed error => cases h
    | .bytes (byte :: chunk) =>
      rw [streamLoop] at h
      split at h
      · cases h
      · rw [← List.length_append] at h
        exact ih _ h

/-- Reads that succeed give the loop the whole stream. -/
theorem streamLoop_chunks (houtage : fs.outage .writeTemp = none) (hchunks : [] ∉ chunks)
    (written : Bytes) :
    fs.streamLoop ⟨⟨written⟩, written, written.length⟩ (chunks.map .bytes)
      = .ok ⟨⟨written ++ chunks.flatten⟩, written ++ chunks.flatten,
        (written ++ chunks.flatten).length⟩ := by
  induction chunks generalizing written with
  | nil => simp [streamLoop]
  | cons chunk chunks ih =>
    rw [List.mem_cons, not_or] at hchunks
    have hwrite : fs.performing .writeTemp (.ok ()) = .ok () :=
      performing_eq_ok.mpr ⟨houtage, rfl⟩
    have hrest := ih hchunks.2 (written ++ chunk)
    match chunk with
    | [] => exact absurd rfl hchunks.1
    | byte :: chunk =>
      rw [List.map_cons, streamLoop, hwrite]
      rw [List.flatten_cons, ← List.append_assoc, ← hrest, List.length_append]
      rfl

theorem receiveStream_eq_ok {total : Nat} (h : fs.receiveStream reads = .ok (hash, total, fs')) :
    ∃ stream, readToEnd [] reads = .ok stream ∧ hash = sha256Hex stream ∧ total = stream.length
      ∧ fs' = fs.putFile (sha256Hex stream) stream.length stream := by
  unfold receiveStream at h
  simp only [Checks.bind_eq_ok, performing_eq_ok, rename_eq_ok, pathOr_eq_ok] at h
  obtain ⟨_, -, acc, hloop, _, -, _, ⟨-, rfl⟩, _, ⟨-, -, rfl⟩, hreturn⟩ := h
  obtain ⟨stream, hstream, rfl⟩ := streamLoop_eq_ok [] hloop
  obtain ⟨rfl, hrest⟩ := Prod.mk.inj (Except.ok.inj hreturn)
  cases hrest
  exact ⟨stream, hstream, rfl, rfl, rfl⟩

/-- A stream that is read to its end is stored, when no call fails. -/
theorem receiveStream_chunks (houtage : ∀ call, fs.outage call = none) (hchunks : [] ∉ chunks)
    (hdir : fs.dir.lookup (blobName (sha256Hex chunks.flatten)) ≠ some .directory) :
    fs.receiveStream (chunks.map .bytes) = .ok (sha256Hex chunks.flatten, chunks.flatten.length,
      fs.putFile (sha256Hex chunks.flatten) chunks.flatten.length chunks.flatten) := by
  unfold receiveStream
  simp only [Checks.bind_eq_ok, performing_eq_ok, rename_eq_ok, pathOr_eq_ok]
  exact ⟨(), ⟨houtage _, trivial⟩, _, streamLoop_chunks (houtage _) hchunks [], (),
    ⟨houtage _, trivial⟩, _, ⟨validHash_sha256Hex _, rfl⟩, _, ⟨houtage _, hdir, rfl⟩, rfl⟩

theorem readToEnd_chunks (hchunks : [] ∉ chunks) (data : Bytes) :
    readToEnd data (chunks.map .bytes) = .ok (data ++ chunks.flatten) := by
  induction chunks generalizing data with
  | nil => simp [readToEnd]
  | cons chunk chunks ih =>
    rw [List.mem_cons, not_or] at hchunks
    match chunk with
    | [] => exact absurd rfl hchunks.1
    | byte :: chunk =>
      rw [List.map_cons, readToEnd, ih hchunks.2, List.flatten_cons, List.append_assoc]

/-- A delete reports whether the blob was there, and drops it if so; one that fails changes
nothing. -/
theorem tryDelete_spec {result : Except String Bool} (h : fs.tryDelete hash = (result, fs')) :
    match result with
    | .error _ => fs' = fs
    | .ok false => fs' = fs ∧ fs.index.lookup hash = none ∧ fs.get hash = none
    | .ok true => fs' = fs.dropFile hash ∧ validHash hash = true ∧ (fs.get hash).isSome := by
  unfold tryDelete at h
  split at h
  · cases h
    rfl
  · rename_i name hname
    have hget : fs.get hash = fs.dir.fileAt name := by rw [get, hname, Option.bind_some]
    obtain ⟨hvalid, rfl⟩ := blobPath_eq_some.mp hname
    split at h
    · split at h
      · cases h
        rfl
      · rename_i dir hremove
        obtain ⟨-, hfile⟩ := performing_eq_ok.mp hremove
        obtain ⟨hsome, rfl⟩ := removeFile_eq_ok.mp hfile
        cases h
        exact ⟨rfl, hvalid, hget ▸ hsome⟩
    · rename_i habsent
      cases h
      rw [Bool.or_eq_true, not_or, ← hget] at habsent
      exact ⟨rfl, by simpa using habsent.1, by simpa using habsent.2⟩

/-- A fallible write either stores the blob or changes nothing. -/
theorem tryInsertWithHash_spec {baseUrl : String} {now : Nat}
    {result : Except String BlobDescriptor}
    (h : fs.tryInsertWithHash data hash size baseUrl now = (result, fs')) :
    match result with
    | .error _ => fs' = fs
    | .ok descriptor => fs' = fs.putFile hash size data ∧ validHash hash = true
        ∧ descriptor = makeDescriptorFromHash hash size baseUrl now := by
  unfold tryInsertWithHash at h
  dsimp only at h
  split at h
  · cases h
    rfl
  · rename_i hwrite
    cases h
    obtain ⟨hvalid, -, -, hfs⟩ := writeBlob_eq_ok.mp hwrite
    exact ⟨hfs, hvalid, rfl⟩

/-- A write without a hash is a write under the hash of the data. -/
theorem tryInsert_eq (fs : FilesystemBackend) (data : Bytes) (baseUrl : String) (now : Nat) :
    fs.tryInsert data baseUrl now
      = fs.tryInsertWithHash data (sha256Hex data) data.length baseUrl now := by
  unfold tryInsert tryInsertWithHash makeDescriptor
  -- the digest stays closed: the two sides are the same for any hash
  generalize sha256Hex data = hash
  rfl

theorem insert_eq (fs : FilesystemBackend) (data : Bytes) (baseUrl : String) (now : Nat) :
    fs.insert data baseUrl now
      = fs.insertWithHash data (sha256Hex data) data.length baseUrl now := by
  unfold insert insertWithHash makeDescriptor
  generalize sha256Hex data = hash
  rfl

/-! ### What a lookup reads afterwards -/

theorem get_eq_of_validHash (h : validHash hash = true) :
    fs.get hash = fs.dir.fileAt (blobName hash) := by
  rw [get, blobPath_eq_some.mpr ⟨h, rfl⟩, Option.bind_some]

theorem get_eq_none (h : validHash hash = false) : fs.get hash = none := by
  rw [get, blobPath, if_neg (by simp [h]), Option.bind_none]

section

variable (hvalid : validHash hash = true)
include hvalid

/-- Two directories that differ in the file of one hash. -/
theorem get_eq_update {data? : Option Bytes} (hat : fs'.dir.fileAt (blobName hash) = data?)
    (hother : ∀ name, name ≠ blobName hash → fs'.dir.fileAt name = fs.dir.fileAt name) :
    fs'.get = Function.update fs.get hash data? := by
  funext other
  by_cases h : other = hash
  · rw [h, Function.update_self, get_eq_of_validHash hvalid, hat]
  · rw [Function.update_of_ne h]
    cases hother' : validHash other with
    | false => rw [get_eq_none hother', get_eq_none hother']
    | true =>
      rw [get_eq_of_validHash hother', get_eq_of_validHash hother',
        hother _ (fun heq => h (blobName_injective heq))]

theorem get_putFile :
    (fs.putFile hash size data).get = Function.update fs.get hash (some data) := by
  refine get_eq_update hvalid ?_ fun name hname => ?_
  · simp [putFile, Directory.fileAt]
  · simp [putFile, Directory.fileAt, AList.lookup_insert_ne hname]

theorem get_dropFile :
    (fs.dropFile hash).get = Function.update fs.get hash none := by
  refine get_eq_update hvalid ?_ fun name hname => ?_
  · simp [dropFile, Directory.fileAt]
  · simp [dropFile, Directory.fileAt, AList.lookup_erase_ne hname]

end

/-! ### A filesystem whose index lists its files -/

/-- The index lists the hashes that have a file. -/
def Indexed (fs : FilesystemBackend) : Prop :=
  ∀ hash, (fs.index.lookup hash).isSome = (fs.get hash).isSome

section

variable (h : Indexed fs)
include h

theorem Indexed.putFile (hvalid : validHash hash = true) :
    Indexed (fs.putFile hash size data) := by
  intro other
  rw [get_putFile hvalid]
  rw [FilesystemBackend.putFile, Assoc.lookup_insert_eq, Function.update_apply]
  split
  · rfl
  · exact h other

theorem Indexed.dropFile (hvalid : validHash hash = true) :
    Indexed (fs.dropFile hash) := by
  intro other
  rw [get_dropFile hvalid]
  rw [FilesystemBackend.dropFile, Assoc.lookup_erase_eq, Function.update_apply]
  split
  · rfl
  · exact h other

theorem existsBlob_eq (hash : String) :
    fs.existsBlob hash = (fs.get hash).isSome := by
  rw [existsBlob, h hash, Bool.or_self]

theorem Indexed.tryInsertWithHash (data : Bytes) (hash : String) (size : Nat) (baseUrl : String)
    (now : Nat) :
    Indexed (fs.tryInsertWithHash data hash size baseUrl now).2 := by
  obtain ⟨result, fs', hcall⟩ :
      ∃ result fs', fs.tryInsertWithHash data hash size baseUrl now = (result, fs') := ⟨_, _, rfl⟩
  have hspec := tryInsertWithHash_spec hcall
  rw [hcall]
  cases result with
  | error e => exact hspec ▸ h
  | ok descriptor => exact hspec.1 ▸ h.putFile hspec.2.1

theorem Indexed.tryInsert (data : Bytes) (baseUrl : String) (now : Nat) :
    Indexed (fs.tryInsert data baseUrl now).2 := by
  rw [tryInsert_eq]
  exact h.tryInsertWithHash _ _ _ _ _

theorem Indexed.tryDelete (hash : String) : Indexed (fs.tryDelete hash).2 := by
  obtain ⟨result, fs', hcall⟩ : ∃ result fs', fs.tryDelete hash = (result, fs') := ⟨_, _, rfl⟩
  have hspec := tryDelete_spec hcall
  rw [hcall]
  match result with
  | .error e => exact hspec ▸ h
  | .ok false => exact hspec.1 ▸ h
  | .ok true => exact hspec.1 ▸ h.dropFile hspec.2.1

end

end FilesystemBackend

/-- A filesystem backend with an index that lists its files. -/
structure IndexedFilesystem where
  backend : FilesystemBackend
  indexed : backend.Indexed

namespace IndexedFilesystem

instance : BlobBackend IndexedFilesystem where
  tryInsert store data baseUrl now :=
    ((store.backend.tryInsert data baseUrl now).1,
      ⟨(store.backend.tryInsert data baseUrl now).2, store.indexed.tryInsert data baseUrl now⟩)
  tryInsertWithHash store data hash originalSize baseUrl now :=
    ((store.backend.tryInsertWithHash data hash originalSize baseUrl now).1,
      ⟨(store.backend.tryInsertWithHash data hash originalSize baseUrl now).2,
        store.indexed.tryInsertWithHash data hash originalSize baseUrl now⟩)
  get store := store.backend.get
  existsBlob store := store.backend.existsBlob
  tryDelete store hash :=
    ((store.backend.tryDelete hash).1,
      ⟨(store.backend.tryDelete hash).2, store.indexed.tryDelete hash⟩)
  len store := BlobBackend.len store.backend
  totalBytes store := BlobBackend.totalBytes store.backend

variable {store store' : IndexedFilesystem}

theorem get_tryInsertWithHash {data : Bytes} {hash baseUrl : String} {originalSize now : Nat}
    {result : Except String BlobDescriptor}
    (h : BlobBackend.tryInsertWithHash store data hash originalSize baseUrl now
      = (result, store')) :
    match result with
    | .error _ => BlobBackend.get store' = BlobBackend.get store
    | .ok descriptor => descriptor = makeDescriptorFromHash hash originalSize baseUrl now
        ∧ BlobBackend.get store' = Function.update (BlobBackend.get store) hash (some data) := by
  obtain ⟨hresult, rfl⟩ := Prod.mk.inj h
  have hcall : store.backend.tryInsertWithHash data hash originalSize baseUrl now = (result, _) :=
    Prod.ext hresult rfl
  have hspec := FilesystemBackend.tryInsertWithHash_spec hcall
  cases result with
  | error e => exact congrArg FilesystemBackend.get hspec
  | ok descriptor =>
    obtain ⟨hfs, hvalid, hdescriptor⟩ := hspec
    exact ⟨hdescriptor, (congrArg FilesystemBackend.get hfs).trans
      (FilesystemBackend.get_putFile hvalid)⟩

theorem get_tryDelete {hash : String} {result : Except String Bool}
    (h : BlobBackend.tryDelete store hash = (result, store')) :
    match result with
    | .error _ => BlobBackend.get store' = BlobBackend.get store
    | .ok existed => existed = (BlobBackend.get store hash).isSome
        ∧ BlobBackend.get store' = Function.update (BlobBackend.get store) hash none := by
  obtain ⟨hresult, rfl⟩ := Prod.mk.inj h
  have hcall : store.backend.tryDelete hash = (result, _) := Prod.ext hresult rfl
  have hspec := FilesystemBackend.tryDelete_spec hcall
  match result with
  | .error e => exact congrArg FilesystemBackend.get hspec
  | .ok false =>
    obtain ⟨hsame, -, hnone⟩ := hspec
    have habsent : BlobBackend.get store hash = none := hnone
    refine ⟨by rw [habsent]; rfl, (congrArg FilesystemBackend.get hsame).trans ?_⟩
    exact (Function.update_eq_self_iff.mpr hnone.symm).symm
  | .ok true =>
    obtain ⟨hfs, hvalid, hsome⟩ := hspec
    exact ⟨hsome.symm, (congrArg FilesystemBackend.get hfs).trans
      (FilesystemBackend.get_dropFile hvalid)⟩

theorem tryInsert_eq (store : IndexedFilesystem) (data : Bytes) (baseUrl : String) (now : Nat) :
    BlobBackend.tryInsert store data baseUrl now
      = BlobBackend.tryInsertWithHash store data (sha256Hex data) data.length baseUrl now := by
  simp only [BlobBackend.tryInsert, BlobBackend.tryInsertWithHash, FilesystemBackend.tryInsert_eq]

/-- Calls may fail, and those that do change nothing. -/
instance : LawfulBlobBackend IndexedFilesystem where
  existsBlob_eq store hash := FilesystemBackend.existsBlob_eq store.indexed hash
  get_tryInsert h := get_tryInsertWithHash (tryInsert_eq _ _ _ _ ▸ h)
  get_tryInsert_error h := get_tryInsertWithHash (tryInsert_eq _ _ _ _ ▸ h)
  get_tryInsertWithHash h := (get_tryInsertWithHash h).2
  get_tryInsertWithHash_error h := get_tryInsertWithHash h
  get_tryDelete h := get_tryDelete h
  get_tryDelete_error h := get_tryDelete h

end IndexedFilesystem

end BlossomRs.Storage

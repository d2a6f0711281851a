import BlossomRs.Lib.Runs
import BlossomRs.Storage.Filesystem

/-!
# The two backends side by side

`MemoryBackend` and a filesystem backend on an empty directory are given the same calls.  As long as
the operating system does its part they answer alike and hold the same blobs
(`filesystem_answers_as_memory`).  The relation between them is not that of equal sizes: both indexes
hold the size a call gave, which need not be that of the bytes.
-/

namespace BlossomRs.Storage

open Protocol Runs

/-- A stream as a sequence of reads.  None of them is empty, since an empty read ends a stream. -/
structure Reads (stream : Bytes) where
  chunks : List Bytes
  nil_notMem : [] ∉ chunks
  flatten_chunks : chunks.flatten = stream

/-- What `read` returns, one call after the other. -/
def Reads.results {stream : Bytes} (reads : Reads stream) : List ReadResult :=
  reads.chunks.map .bytes

/-- A call that writes to a backend.  The two backends may read one stream in different portions. -/
inductive BackendCall where
  | insert (data : Bytes) (baseUrl : String) (now : Nat)
  | tryInsert (data : Bytes) (baseUrl : String) (now : Nat)
  | insertWithHash (data : Bytes) (hash : String) (originalSize : Nat) (baseUrl : String) (now : Nat)
  | tryInsertWithHash (data : Bytes) (hash : String) (originalSize : Nat) (baseUrl : String)
      (now : Nat)
  | insertStream (stream : Bytes) (diskReads memoryReads : Reads stream) (baseUrl : String)
      (now : Nat)
  | delete (hash : String)
  | tryDelete (hash : String)

inductive BackendAnswer where
  | descriptor (descriptor : BlobDescriptor)
  | inserted (result : Except String BlobDescriptor)
  | existed (existed : Bool)
  | deleted (result : Except String Bool)

namespace BackendCall

/-- The hash a call writes or deletes. -/
def target : BackendCall → String
  | insert data _ _ => sha256Hex data
  | tryInsert data _ _ => sha256Hex data
  | insertWithHash _ hash _ _ _ => hash
  | tryInsertWithHash _ hash _ _ _ => hash
  | insertStream stream _ _ _ _ => sha256Hex stream
  | delete hash => hash
  | tryDelete hash => hash

/-- Make a call of a filesystem backend. -/
def onDisk (fs : FilesystemBackend) : BackendCall → BackendAnswer × FilesystemBackend
  | insert data baseUrl now => (fs.insert data baseUrl now).map .descriptor id
  | tryInsert data baseUrl now => (fs.tryInsert data baseUrl now).map .inserted id
  | insertWithHash data hash originalSize baseUrl now =>
    (fs.insertWithHash data hash originalSize baseUrl now).map .descriptor id
  | tryInsertWithHash data hash originalSize baseUrl now =>
    (fs.tryInsertWithHash data hash originalSize baseUrl now).map .inserted id
  | insertStream _ diskReads _ baseUrl now =>
    (fs.insertStream diskReads.results baseUrl now).map .inserted id
  | delete hash => (fs.delete hash).map .existed id
  | tryDelete hash => (fs.tryDelete hash).map .deleted id

/-- Make a call of a backend in memory. -/
def inMemory (store : MemoryBackend) : BackendCall → BackendAnswer × MemoryBackend
  | insert data baseUrl now => (store.insert data baseUrl now).map .descriptor id
  | tryInsert data baseUrl now => (BlobBackend.tryInsert store data baseUrl now).map .inserted id
  | insertWithHash data hash originalSize baseUrl now =>
    (store.insertWithHash data hash originalSize baseUrl now).map .descriptor id
  | tryInsertWithHash data hash originalSize baseUrl now =>
    (BlobBackend.tryInsertWithHash store data hash originalSize baseUrl now).map .inserted id
  | insertStream _ _ memoryReads baseUrl now =>
    (store.insertStream memoryReads.results baseUrl now).map .inserted id
  | delete hash => (store.delete hash).map .existed id
  | tryDelete hash => (BlobBackend.tryDelete store hash).map .deleted id

end BackendCall

open BackendCall FilesystemBackend

/-! ### The same calls on both -/

/-- A filesystem that works holds the blobs of a memory backend. -/
structure SameBlobs (fs : FilesystemBackend) (store : MemoryBackend) : Prop where
  outage : ∀ call, fs.outage call = none
  notDirectory : ∀ hash, fs.dir.lookup (blobName hash) ≠ some .directory
  index_eq : fs.index = store.index
  get_eq : fs.get = store.blobs.lookup

section Simulation

variable {fs : FilesystemBackend} {store : MemoryBackend} {hash : String}

section

variable (h : SameBlobs fs store)
include h

theorem SameBlobs.indexed : fs.Indexed := by
  intro hash
  rw [h.index_eq, h.get_eq]
  exact store.lookup_index_isSome hash

section

variable (hvalid : validHash hash = true)
include hvalid

theorem SameBlobs.putFile (size : Nat) (data : Bytes) :
    SameBlobs (fs.putFile hash size data) (store.put hash size data) where
  outage := h.outage
  notDirectory other := by
    rw [FilesystemBackend.putFile, Assoc.lookup_insert_eq]
    split
    · simp
    · exact h.notDirectory other
  index_eq := by rw [FilesystemBackend.putFile, MemoryBackend.put, h.index_eq]
  get_eq := by
    rw [get_putFile hvalid, h.get_eq]
    exact (MemoryBackend.get_put store hash size data).symm

/-- A write under a hash. -/
theorem SameBlobs.writeBlob (size : Nat) (data : Bytes) :
    fs.writeBlob hash size data = .ok (fs.putFile hash size data) :=
  writeBlob_eq_ok.mpr ⟨hvalid, fun call _ => h.outage call, h.notDirectory hash, rfl⟩

theorem SameBlobs.dropFile :
    SameBlobs (fs.dropFile hash) (store.delete hash).2 where
  outage := h.outage
  notDirectory other := by
    rw [FilesystemBackend.dropFile, Assoc.lookup_erase_eq]
    split
    · simp
    · exact h.notDirectory other
  index_eq := congrArg (AList.erase hash) h.index_eq
  get_eq := by
    rw [get_dropFile hvalid, h.get_eq]
    exact (MemoryBackend.get_delete store hash).symm

end

/-- Deleting what is not there changes nothing in memory either. -/
theorem SameBlobs.delete_absent (habsent : fs.index.lookup hash = none) :
    SameBlobs fs (store.delete hash).2 where
  outage := h.outage
  notDirectory := h.notDirectory
  index_eq := by
    rw [h.index_eq] at habsent ⊢
    have hkeys : hash ∉ store.index.entries.keys := AList.lookup_eq_none.mp habsent
    exact AList.ext (List.kerase_of_notMem_keys hkeys).symm
  get_eq := by
    have hnone : store.blobs.lookup hash = none := by
      have hindexed := h.indexed hash
      rw [habsent, h.get_eq] at hindexed
      simpa using hindexed.symm
    rw [h.get_eq]
    refine ((MemoryBackend.get_delete store hash).trans ?_).symm
    exact Function.update_eq_self_iff.mpr hnone.symm

section

variable (hvalid : validHash hash = true)
include hvalid

theorem SameBlobs.tryDelete :
    (fs.tryDelete hash).1 = .ok (store.delete hash).1
      ∧ SameBlobs (fs.tryDelete hash).2 (store.delete hash).2 := by
  have hexisted : (store.delete hash).1 = (fs.get hash).isSome := by
    rw [← h.indexed hash, h.index_eq]
    rfl
  have hget : fs.get hash = fs.dir.fileAt (blobName hash) := get_eq_of_validHash hvalid
  rw [hexisted, FilesystemBackend.tryDelete, blobPath_eq_some.mpr ⟨hvalid, rfl⟩]
  dsimp only
  rw [← hget, h.indexed hash, Bool.or_self]
  cases hsome : (fs.get hash).isSome with
  | false =>
    have habsent := (h.indexed hash).trans hsome
    exact ⟨rfl, h.delete_absent (by simpa using habsent)⟩
  | true =>
    have hremove : fs.performing .deleteBlob (fs.dir.removeFile (blobName hash))
        = .ok (fs.dir.erase (blobName hash)) :=
      performing_eq_ok.mpr ⟨h.outage _, removeFile_eq_ok.mpr ⟨hget ▸ hsome, rfl⟩⟩
    rw [if_pos rfl, hremove]
    exact ⟨rfl, h.dropFile hvalid⟩

theorem SameBlobs.insertWithHash (data : Bytes) (originalSize : Nat) (baseUrl : String) (now : Nat) :
    fs.insertWithHash data hash originalSize baseUrl now
      = (makeDescriptorFromHash hash originalSize baseUrl now,
        fs.putFile hash originalSize data) := by
  unfold FilesystemBackend.insertWithHash makeDescriptorFromHash
  dsimp only
  rw [h.writeBlob hvalid]

theorem SameBlobs.tryInsertWithHash (data : Bytes) (originalSize : Nat) (baseUrl : String)
    (now : Nat) :
    fs.tryInsertWithHash data hash originalSize baseUrl now
      = (.ok (makeDescriptorFromHash hash originalSize baseUrl now),
        fs.putFile hash originalSize data) := by
  unfold FilesystemBackend.tryInsertWithHash makeDescriptorFromHash
  dsimp only
  rw [h.writeBlob hvalid]

end

/-- A stream is stored under its hash, however it is read. -/
theorem SameBlobs.insertStream {stream : Bytes} (reads : Reads stream) (baseUrl : String)
    (now : Nat) :
    fs.insertStream reads.results baseUrl now
      = (.ok (makeDescriptorFromHash (sha256Hex stream) stream.length baseUrl now),
        fs.putFile (sha256Hex stream) stream.length stream) := by
  obtain ⟨chunks, hnil, rfl⟩ := reads
  have hreceive := receiveStream_chunks h.outage hnil (h.notDirectory _)
  rw [FilesystemBackend.insertStream, Reads.results, hreceive]

end

theorem insertStream_inMemory (store : MemoryBackend) {stream : Bytes} (reads : Reads stream)
    (baseUrl : String) (now : Nat) :
    store.insertStream reads.results baseUrl now = (store.insert stream baseUrl now).map .ok id := by
  obtain ⟨chunks, hnil, rfl⟩ := reads
  rw [MemoryBackend.insertStream, Reads.results, readToEnd_chunks hnil, List.nil_append]

/-- One call. -/
theorem SameBlobs.call (h : SameBlobs fs store) (call : BackendCall)
    (hvalid : validHash call.target = true) :
    (call.onDisk fs).1 = (call.inMemory store).1
      ∧ SameBlobs (call.onDisk fs).2 (call.inMemory store).2 := by
  cases call with
  | insert data baseUrl now =>
    have hvalid := validHash_sha256Hex data
    rw [onDisk, FilesystemBackend.insert_eq, h.insertWithHash hvalid]
    exact ⟨rfl, h.putFile hvalid _ _⟩
  | tryInsert data baseUrl now =>
    have hvalid := validHash_sha256Hex data
    rw [onDisk, FilesystemBackend.tryInsert_eq, h.tryInsertWithHash hvalid]
    exact ⟨rfl, h.putFile hvalid _ _⟩
  | insertWithHash data hash originalSize baseUrl now =>
    change validHash hash = true at hvalid
    rw [onDisk, h.insertWithHash hvalid]
    exact ⟨rfl, h.putFile hvalid _ _⟩
  | tryInsertWithHash data hash originalSize baseUrl now =>
    change validHash hash = true at hvalid
    rw [onDisk, h.tryInsertWithHash hvalid]
    exact ⟨rfl, h.putFile hvalid _ _⟩
  | insertStream stream diskReads memoryReads baseUrl now =>
    rw [onDisk, inMemory, h.insertStream, insertStream_inMemory]
    exact ⟨rfl, h.putFile hvalid _ _⟩
  | delete hash =>
    change validHash hash = true at hvalid
    obtain ⟨hresult, hnext⟩ := h.tryDelete hvalid
    obtain ⟨existed, fs', hcall⟩ : ∃ existed fs', fs.tryDelete hash = (.ok existed, fs') :=
      ⟨_, _, Prod.ext hresult rfl⟩
    rw [hcall] at hresult hnext
    rw [onDisk, FilesystemBackend.delete, hcall]
    exact ⟨congrArg BackendAnswer.existed (Except.ok.inj hresult), hnext⟩
  | tryDelete hash =>
    obtain ⟨hresult, hnext⟩ := h.tryDelete hvalid
    exact ⟨congrArg BackendAnswer.deleted hresult, hnext⟩

end Simulation

/-- An empty directory, and an operating system that does its part. -/
def emptyDisk : FilesystemBackend :=
  .new ∅ fun _ => none

theorem sameBlobs_new : SameBlobs emptyDisk MemoryBackend.new where
  outage _ := rfl
  notDirectory hash := nofun
  index_eq := rfl
  get_eq := by
    funext hash
    cases hvalid : validHash hash with
    | false => exact get_eq_none hvalid
    | true => exact get_eq_of_validHash hvalid

theorem sameBlobs_after {calls : List BackendCall}
    (hvalid : ∀ call ∈ calls, validHash call.target = true) :
    SameBlobs (after onDisk emptyDisk calls) (after inMemory MemoryBackend.new calls) :=
  after_of_simulates sameBlobs_new fun _ _ h call hmem => (h.call call (hvalid call hmem)).2

/-- **The filesystem backend behaves as the one in memory.**  Both answer every call alike and hold
the same blobs afterwards, and a stream is described by its own digest and length. -/
theorem filesystem_answers_as_memory {calls : List BackendCall}
    (hvalid : ∀ call ∈ calls, validHash call.target = true) :
    let fs := after onDisk emptyDisk calls
    let store := after inMemory MemoryBackend.new calls
    log onDisk emptyDisk calls = log inMemory MemoryBackend.new calls
      ∧ (∀ hash, BlobBackend.get fs hash = BlobBackend.get store hash)
      ∧ (∀ hash, BlobBackend.existsBlob fs hash = BlobBackend.existsBlob store hash)
      ∧ BlobBackend.len fs = BlobBackend.len store
      ∧ BlobBackend.totalBytes fs = BlobBackend.totalBytes store
      ∧ ∀ stream (diskReads memoryReads : Reads stream) baseUrl now,
        (onDisk fs (.insertStream stream diskReads memoryReads baseUrl now)).1
          = .inserted (.ok (makeDescriptorFromHash (sha256Hex stream) stream.length baseUrl now)) := by
  intro fs store
  have h : SameBlobs fs store := sameBlobs_after hvalid
  refine ⟨?_, congrFun h.get_eq, fun hash => ?_, ?_, ?_, fun stream reads reads' baseUrl now => ?_⟩
  · refine log_eq_of_simulates sameBlobs_new fun pre call post hsplit hpre => ?_
    exact hpre.call call (hvalid call (by rw [hsplit]; simp))
  · calc fs.existsBlob hash = (fs.get hash).isSome := existsBlob_eq h.indexed hash
      _ = (store.blobs.lookup hash).isSome := by rw [h.get_eq]
      _ = (store.index.lookup hash).isSome := (store.lookup_index_isSome hash).symm
  · exact congrArg (fun index => index.keys.length) h.index_eq
  · exact congrArg (fun index => (index.entries.map fun entry => entry.2).sum) h.index_eq
  · rw [onDisk, h.insertStream]
    rfl

/-- A hash for small runs. -/
def sampleHash : String :=
  String.ofList (List.replicate 64 'a')

theorem validHash_ofList (chars : List Char) : validHash (String.ofList chars)
    = (chars.length == 64 && chars.all Hex.IsLowerDigit) := by
  rw [validHash, String.toList_ofList]

theorem validHash_sampleHash : validHash sampleHash = true :=
  (validHash_ofList _).trans (by decide)

/-- Two bytes stored under a hash with the size they had before compression, and deleted. -/
theorem compressed_blob_answers_as_memory :
    let calls : List BackendCall :=
      [.tryInsertWithHash [1, 2] sampleHash 5 "http://h" 0, .tryDelete sampleHash]
    log onDisk emptyDisk calls = log inMemory MemoryBackend.new calls := by
  refine (filesystem_answers_as_memory ?_).1
  intro call hmem
  have htarget : call.target = sampleHash := by
    rcases List.mem_cons.mp hmem with rfl | hmem
    · rfl
    · obtain rfl := List.mem_singleton.mp hmem
      rfl
  rw [htarget]
  exact validHash_sampleHash

end BlossomRs.Storage

import Mathlib.Data.List.AList
import BlossomRs.Protocol

/-!
# Blob storage backends

`BlobBackend` is the storage interface every handler goes through; the calls that write return the
backend after the call, whether they succeed or fail.

`LawfulBlobBackend` says what a handler may rely on, in terms of what `get` returns afterwards: a
successful write replaces exactly one entry, a failed one replaces none.  `MemoryBackend` keeps its
bytes and its size index in two maps and carries the fact that they list the same hashes.
-/

namespace BlossomRs.Storage

open Protocol

/-- The media type a descriptor gives before anything is known about the bytes. -/
def octetStream : String :=
  "application/octet-stream"

/-- `make_descriptor_from_hash`. -/
def makeDescriptorFromHash (hash : String) (size : Nat) (baseUrl : String) (now : Nat) :
    BlobDescriptor where
  sha256 := hash
  size := size
  contentType := some octetStream
  url := some (baseUrl ++ "/" ++ hash)
  uploaded := some now

/-- `make_descriptor`. -/
def makeDescriptor (data : Bytes) (baseUrl : String) (now : Nat) : BlobDescriptor :=
  makeDescriptorFromHash (sha256Hex data) data.length baseUrl now

/-- The storage interface.  `now` is the clock reading a call puts in its descriptor. -/
class BlobBackend (β : Type) where
  tryInsert (store : β) (data : Bytes) (baseUrl : String) (now : Nat) :
    Except String BlobDescriptor × β
  tryInsertWithHash (store : β) (data : Bytes) (hash : String) (originalSize : Nat)
    (baseUrl : String) (now : Nat) : Except String BlobDescriptor × β
  get (store : β) (sha256 : String) : Option Bytes
  existsBlob (store : β) (sha256 : String) : Bool
  tryDelete (store : β) (sha256 : String) : Except String Bool × β
  len (store : β) : Nat
  totalBytes (store : β) : Nat

open BlobBackend

/-- A backend whose contents change as its calls report. -/
class LawfulBlobBackend (β : Type) [BlobBackend β] : Prop where
  existsBlob_eq (store : β) (hash : String) : existsBlob store hash = (get store hash).isSome
  get_tryInsert {store store' : β} {data : Bytes} {baseUrl : String} {now : Nat}
    {descriptor : BlobDescriptor}
    (h : tryInsert store data baseUrl now = (.ok descriptor, store')) :
    descriptor = makeDescriptor data baseUrl now
      ∧ get store' = Function.update (get store) (sha256Hex data) (some data)
  get_tryInsert_error {store store' : β} {data : Bytes} {baseUrl : String} {now : Nat}
    {error : String} (h : tryInsert store data baseUrl now = (.error error, store')) :
    get store' = get store
  get_tryInsertWithHash {store store' : β} {data : Bytes} {hash baseUrl : String}
    {originalSize now : Nat} {descriptor : BlobDescriptor}
    (h : tryInsertWithHash store data hash originalSize baseUrl now = (.ok descriptor, store')) :
    get store' = Function.update (get store) hash (some data)
  get_tryInsertWithHash_error {store store' : β} {data : Bytes} {hash baseUrl : String}
    {originalSize now : Nat} {error : String}
    (h : tryInsertWithHash store data hash originalSize baseUrl now = (.error error, store')) :
    get store' = get store
  get_tryDelete {store store' : β} {hash : String} {existed : Bool}
    (h : tryDelete store hash = (.ok existed, store')) :
    existed = (get store hash).isSome ∧ get store' = Function.update (get store) hash none
  get_tryDelete_error {store store' : β} {hash : String} {error : String}
    (h : tryDelete store hash = (.error error, store')) : get store' = get store

/-- In-memory storage: the bytes of each hash and the size it was inserted with. -/
structure MemoryBackend where
  blobs : AList fun _ : String => Bytes
  index : AList fun _ : String => Nat
  index_keys : ∀ hash, hash ∈ index ↔ hash ∈ blobs

namespace MemoryBackend

/-- `MemoryBackend::new`. -/
def new : MemoryBackend where
  blobs := ∅
  index := ∅
  index_keys := by intro hash; simp

/-- Both maps receive the entry. -/
def put (store : MemoryBackend) (hash : String) (size : Nat) (data : Bytes) : MemoryBackend where
  blobs := store.blobs.insert hash data
  index := store.index.insert hash size
  index_keys := by
    intro other
    simp [AList.mem_insert, store.index_keys other]

/-- `MemoryBackend::insert`. -/
def insert (store : MemoryBackend) (data : Bytes) (baseUrl : String) (now : Nat) :
    BlobDescriptor × MemoryBackend :=
  let descriptor := makeDescriptor data baseUrl now
  (descriptor, store.put descriptor.sha256 descriptor.size data)

/-- `MemoryBackend::insert_with_hash`. -/
def insertWithHash (store : MemoryBackend) (data : Bytes) (hash : String) (originalSize : Nat)
    (baseUrl : String) (now : Nat) : BlobDescriptor × MemoryBackend :=
  let descriptor := makeDescriptorFromHash hash originalSize baseUrl now
  (descriptor, store.put descriptor.sha256 descriptor.size data)

/-- `MemoryBackend::delete`. -/
def delete (store : MemoryBackend) (hash : String) : Bool × MemoryBackend :=
  ((store.index.lookup hash).isSome,
    { blobs := store.blobs.erase hash
      index := store.index.erase hash
      index_keys := by
        intro other
        simp [AList.mem_erase, store.index_keys other] })

/-- The fallible calls are the trait's defaults, which never fail here. -/
instance : BlobBackend MemoryBackend where
  tryInsert store data baseUrl now :=
    let (descriptor, store') := store.insert data baseUrl now
    (.ok descriptor, store')
  tryInsertWithHash store data hash originalSize baseUrl now :=
    let (descriptor, store') := store.insertWithHash data hash originalSize baseUrl now
    (.ok descriptor, store')
  get store hash := store.blobs.lookup hash
  existsBlob store hash := (store.index.lookup hash).isSome
  tryDelete store hash :=
    let (existed, store') := store.delete hash
    (.ok existed, store')
  len store := store.index.keys.length
  totalBytes store := (store.index.entries.map fun entry => entry.2).sum

section

variable (store : MemoryBackend) (hash : String)

theorem get_eq :
    BlobBackend.get store hash = store.blobs.lookup hash :=
  rfl

theorem get_put (size : Nat) (data : Bytes) :
    BlobBackend.get (store.put hash size data)
      = Function.update (BlobBackend.get store) hash (some data) := by
  funext other
  by_cases h : other = hash <;> simp [get_eq, put, h]

theorem lookup_index_isSome :
    (store.index.lookup hash).isSome = (store.blobs.lookup hash).isSome := by
  rw [Bool.eq_iff_iff, AList.lookup_isSome, AList.lookup_isSome]
  exact store.index_keys hash

theorem get_delete :
    BlobBackend.get (store.delete hash).2
      = Function.update (BlobBackend.get store) hash none := by
  funext other
  by_cases h : other = hash <;> simp [get_eq, delete, h]

end

instance : LawfulBlobBackend MemoryBackend where
  existsBlob_eq store hash := store.lookup_index_isSome hash
  get_tryInsert h := by
    obtain ⟨hdesc, rfl⟩ := Prod.mk.inj h
    exact ⟨(Except.ok.inj hdesc).symm, get_put _ _ _ _⟩
  get_tryInsert_error h := nomatch (Prod.mk.inj h).1
  get_tryInsertWithHash h := by
    cases h
    exact get_put _ _ _ _
  get_tryInsertWithHash_error h := nomatch (Prod.mk.inj h).1
  get_tryDelete h := by
    obtain ⟨hexisted, rfl⟩ := Prod.mk.inj h
    refine ⟨?_, get_delete _ _⟩
    rw [← Except.ok.inj hexisted]
    exact lookup_index_isSome _ _
  get_tryDelete_error h := nomatch (Prod.mk.inj h).1

end MemoryBackend

end BlossomRs.Storage

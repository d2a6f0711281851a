import BlossomRs.Lib.Assoc
import BlossomRs.Storage.FilesystemRuns

/-!
# Restarts of the filesystem backend

A restart keeps the directory and builds a new index from it.  The old index has the sizes the calls
gave, the new one the sizes of the files.  They are the same as long as every call keeps the account
(`restart_shows_same_blobs`): the size given with a hash is the number of bytes to store, and no stray
file `<hash>.blob.blob` is listed for a hash that is written or deleted.
-/

namespace BlossomRs.Storage

open Protocol Runs BackendCall FilesystemBackend

variable {hash : String} {fs : FilesystemBackend}

/-- The file of a hash is listed under it. -/
theorem listedHash_blobName (hvalid : validHash hash = true) :
    listedHash (blobName hash) = some hash := by
  have hnotSuffix : ".blob".toList.isSuffixOf hash.toList = false := by
    rw [Bool.eq_false_iff, ne_eq, List.isSuffixOf_iff_suffix]
    intro hsuffix
    -- a hash has no letter beyond `f`
    have hmem : 'o' ∈ hash.toList := hsuffix.subset (by decide)
    rw [validHash, Bool.and_eq_true, List.all_eq_true] at hvalid
    exact absurd (hvalid.2 'o' hmem) (by decide)
  rw [listedHash, blobName, RustStr.endsWith_append, if_pos rfl]
  dsimp only
  rw [RustStr.trimEndText_append (by decide) hnotSuffix, if_pos hvalid]

/-- The size under which the scan lists a file for a hash, if it does. -/
def listedSize (hash : String) (entry : (_ : String) × DirEntry) : Option Nat :=
  match listedHash entry.1, entry.2 with
  | some listed, .file data => if listed = hash then some data.length else none
  | _, _ => none

theorem lookup_scanEntry (index : AList fun _ : String => Nat) (entry : (_ : String) × DirEntry)
    (hash : String) :
    (scanEntry index entry).lookup hash = (listedSize hash entry).or (index.lookup hash) := by
  obtain ⟨name, entry⟩ := entry
  unfold scanEntry listedSize
  cases listedHash name with
  | none => rfl
  | some listed =>
    cases entry with
    | directory => rfl
    | file data =>
      dsimp only
      by_cases h : listed = hash
      · simp [h]
      · simp [h, Ne.symm h]

/-- The last file listed for a hash gives its size. -/
theorem lookup_scan (entries : List ((_ : String) × DirEntry)) (hash : String) :
    (entries.foldl scanEntry ∅).lookup hash = entries.reverse.findSome? (listedSize hash) := by
  induction entries using List.reverseRecOn with
  | nil => rfl
  | append_singleton entries entry ih =>
    rw [List.foldl_append, List.foldl_cons, List.foldl_nil, lookup_scanEntry, ih,
      List.reverse_append, List.reverse_singleton, List.singleton_append, List.findSome?_cons]
    cases listedSize hash entry <;> rfl

/-- No two files are listed under one hash. -/
def ListedOnce (dir : Directory) : Prop :=
  ∀ hash, ∀ entry ∈ dir.entries, ∀ other ∈ dir.entries,
    (listedSize hash entry).isSome → (listedSize hash other).isSome → entry = other

/-- There the scan finds the file of each hash, whatever the order of the listing. -/
theorem lookup_scan_eq_some {dir : Directory} (honce : ListedOnce dir) {size : Nat} :
    (scan dir).lookup hash = some size
      ↔ ∃ entry ∈ dir.entries, listedSize hash entry = some size := by
  rw [scan, lookup_scan]
  constructor
  · intro h
    obtain ⟨entry, hmem, hsize⟩ := List.exists_of_findSome?_eq_some h
    exact ⟨entry, List.mem_reverse.mp hmem, hsize⟩
  · rintro ⟨entry, hmem, hsize⟩
    cases hfound : dir.entries.reverse.findSome? (listedSize hash) with
    | none =>
      have hnone := List.findSome?_eq_none_iff.mp hfound entry (List.mem_reverse.mpr hmem)
      exact nomatch hnone.symm.trans hsize
    | some size' =>
      obtain ⟨other, hother, hsize'⟩ := List.exists_of_findSome?_eq_some hfound
      obtain rfl := honce hash entry hmem other (List.mem_reverse.mp hother) (by simp [hsize])
        (by simp [hsize'])
      exact hsize'.symm.trans hsize

/-- Opening the directory again, with its entries listed in any order, shows the same blobs. -/
def SurvivesRestart (fs : FilesystemBackend) : Prop :=
  ∀ dir : Directory, dir.entries.Perm fs.dir.entries →
    let fs' := FilesystemBackend.new dir fs.outage
    BlobBackend.len fs' = BlobBackend.len fs
      ∧ (∀ hash, BlobBackend.existsBlob fs' hash = BlobBackend.existsBlob fs hash)
      ∧ (∀ hash, BlobBackend.get fs' hash = BlobBackend.get fs hash)
      ∧ BlobBackend.totalBytes fs' = BlobBackend.totalBytes fs

/-- The index has the files of the directory with their sizes. -/
structure Accounted (fs : FilesystemBackend) : Prop where
  once : ListedOnce fs.dir
  sizes : ∀ hash size, fs.index.lookup hash = some size
    ↔ ∃ entry ∈ fs.dir.entries, listedSize hash entry = some size

theorem accounted_new {dir : Directory} (honce : ListedOnce dir)
    (outage : FileCall → Option String) : Accounted (.new dir outage) where
  once := honce
  sizes _ _ := lookup_scan_eq_some honce

theorem Accounted.survivesRestart (h : Accounted fs) :
    SurvivesRestart fs := by
  intro dir hperm fs'
  have honce : ListedOnce dir := fun hash entry hentry other hother =>
    h.once hash entry (hperm.mem_iff.mp hentry) other (hperm.mem_iff.mp hother)
  have hlookup : ∀ hash, fs'.index.lookup hash = fs.index.lookup hash := by
    intro hash
    refine Option.ext fun size => ?_
    change (scan dir).lookup hash = some size ↔ fs.index.lookup hash = some size
    rw [lookup_scan_eq_some honce, h.sizes]
    exact exists_congr fun entry => and_congr_left fun _ => hperm.mem_iff
  have hindex : fs'.index.entries.Perm fs.index.entries :=
    List.lookup_ext fs'.index.nodupKeys fs.index.nodupKeys fun hash size => by
      change fs'.index.lookup hash = some size ↔ fs.index.lookup hash = some size
      rw [hlookup]
  have hget : ∀ hash, fs'.get hash = fs.get hash := by
    intro hash
    have hfile : fs'.dir.fileAt = fs.dir.fileAt := by
      funext name
      have hname : fs'.dir.lookup name = fs.dir.lookup name := AList.perm_lookup hperm
      rw [Directory.fileAt, Directory.fileAt, hname]
    rw [FilesystemBackend.get, FilesystemBackend.get, hfile]
  refine ⟨(hindex.map _).length_eq, fun hash => ?_, hget, (hindex.map _).sum_eq⟩
  change fs'.existsBlob hash = fs.existsBlob hash
  rw [existsBlob, existsBlob, hlookup, hget]

section Replace

variable {fs' : FilesystemBackend}

/-- The only file that may be listed under a hash is its own. -/
def OnlyOwnFile (dir : Directory) (hash : String) : Prop :=
  ∀ entry ∈ dir.entries, (listedSize hash entry).isSome → entry.1 = blobName hash

theorem listedSize_blobName (hvalid : validHash hash = true) (data : Bytes) (other : String) :
    listedSize other ⟨blobName hash, .file data⟩
      = if hash = other then some data.length else none := by
  rw [listedSize, listedHash_blobName hvalid]

/-- What is listed after the file of one hash changed: for the hash its new file, for any other hash
what was listed before. -/
theorem listed_after_change {dir dir' : Directory} {data? : Option Bytes}
    (hvalid : validHash hash = true) (hown : OnlyOwnFile dir hash)
    (hentries : ∀ entry, entry ∈ dir'.entries
      ↔ (∃ data, data? = some data ∧ entry = ⟨blobName hash, .file data⟩)
        ∨ (entry ∈ dir.entries ∧ entry.1 ≠ blobName hash))
    (other : String) (entry : (_ : String) × DirEntry) (size : Nat) :
    (entry ∈ dir'.entries ∧ listedSize other entry = some size)
      ↔ if other = hash then
          ∃ data, data? = some data ∧ entry = ⟨blobName hash, .file data⟩ ∧ size = data.length
        else entry ∈ dir.entries ∧ listedSize other entry = some size := by
  rw [hentries]
  by_cases hother : other = hash
  · subst hother
    rw [if_pos rfl]
    constructor
    · rintro ⟨⟨data, hdata, rfl⟩ | ⟨hentry, hname⟩, hsize⟩
      · rw [listedSize_blobName hvalid, if_pos rfl] at hsize
        exact ⟨data, hdata, rfl, (Option.some.inj hsize).symm⟩
      · exact absurd (hown entry hentry (by simp [hsize])) hname
    · rintro ⟨data, hdata, rfl, rfl⟩
      exact ⟨Or.inl ⟨data, hdata, rfl⟩, by rw [listedSize_blobName hvalid, if_pos rfl]⟩
  · rw [if_neg hother]
    constructor
    · rintro ⟨⟨data, hdata, rfl⟩ | ⟨hentry, -⟩, hsize⟩
      · rw [listedSize_blobName hvalid, if_neg (Ne.symm hother)] at hsize
        cases hsize
      · exact ⟨hentry, hsize⟩
    · rintro ⟨hentry, hsize⟩
      refine ⟨Or.inr ⟨hentry, fun hname => ?_⟩, hsize⟩
      -- the file of the hash is not listed for another
      rw [listedSize, hname, listedHash_blobName hvalid] at hsize
      split at hsize
      · rename_i listed data heq _
        rw [if_neg (fun heq' => hother (heq'.symm.trans (Option.some.inj heq).symm))] at hsize
        cases hsize
      · cases hsize

section

variable (h : Accounted fs) (hvalid : validHash hash = true) (hown : OnlyOwnFile fs.dir hash)
include h hvalid hown

/-- A change of the file of one hash, and of its entry of the index. -/
theorem Accounted.change (data? : Option Bytes) (hentries : ∀ entry, entry ∈ fs'.dir.entries
      ↔ (∃ data, data? = some data ∧ entry = ⟨blobName hash, .file data⟩)
        ∨ (entry ∈ fs.dir.entries ∧ entry.1 ≠ blobName hash))
    (hindex : ∀ other, fs'.index.lookup other
      = if other = hash then data?.map List.length else fs.index.lookup other) :
    Accounted fs' := by
  have hlisted := listed_after_change hvalid hown hentries
  constructor
  · intro other entry hentry entry' hentry' hsome hsome'
    obtain ⟨size, hsize⟩ := Option.isSome_iff_exists.mp hsome
    obtain ⟨size', hsize'⟩ := Option.isSome_iff_exists.mp hsome'
    have hbefore := (hlisted other entry size).mp ⟨hentry, hsize⟩
    have hbefore' := (hlisted other entry' size').mp ⟨hentry', hsize'⟩
    by_cases hother : other = hash
    · rw [if_pos hother] at hbefore hbefore'
      obtain ⟨data, hdata, rfl, -⟩ := hbefore
      obtain ⟨data', hdata', rfl, -⟩ := hbefore'
      rw [Option.some.inj (hdata.symm.trans hdata')]
    · rw [if_neg hother] at hbefore hbefore'
      exact h.once other entry hbefore.1 entry' hbefore'.1 hsome hsome'
  · intro other size
    rw [hindex]
    simp only [hlisted]
    by_cases hother : other = hash
    · simp only [if_pos hother, Option.map_eq_some_iff]
      constructor
      · rintro ⟨data, hdata, rfl⟩
        exact ⟨_, data, hdata, rfl, rfl⟩
      · rintro ⟨entry, data, hdata, -, rfl⟩
        exact ⟨data, hdata, rfl⟩
    · simp only [if_neg hother]
      exact h.sizes other size

theorem Accounted.putFile (data : Bytes) :
    Accounted (fs.putFile hash data.length data) := by
  refine h.change hvalid hown (some data) (fun entry => ?_) (fun other => ?_)
  · refine Assoc.mem_entries_insert.trans (or_congr_left ?_)
    constructor
    · rintro rfl
      exact ⟨data, rfl, rfl⟩
    · rintro ⟨data', hdata, rfl⟩
      rw [Option.some.inj hdata]
  · exact Assoc.lookup_insert_eq _ _ _ _

theorem Accounted.dropFile : Accounted (fs.dropFile hash) := by
  refine h.change hvalid hown none (fun entry => ?_) (fun other => ?_)
  · rw [FilesystemBackend.dropFile, Assoc.mem_entries_erase]
    simp
  · exact Assoc.lookup_erase_eq _ _ _

end

end Replace

section States

variable (fs : FilesystemBackend) (data : Bytes) (hash : String) (size : Nat) (baseUrl : String)
  (now : Nat)

theorem insertWithHash_state :
    (fs.insertWithHash data hash size baseUrl now).2 = fs
      ∨ (validHash hash = true
        ∧ (fs.insertWithHash data hash size baseUrl now).2 = fs.putFile hash size data) := by
  unfold FilesystemBackend.insertWithHash
  dsimp only
  split
  · exact Or.inl rfl
  · rename_i hwrite
    obtain ⟨hvalid, -, -, hput⟩ := writeBlob_eq_ok.mp hwrite
    exact Or.inr ⟨hvalid, hput⟩

theorem tryInsertWithHash_state :
    (fs.tryInsertWithHash data hash size baseUrl now).2 = fs
      ∨ (validHash hash = true
        ∧ (fs.tryInsertWithHash data hash size baseUrl now).2 = fs.putFile hash size data) := by
  obtain ⟨result, fs', hcall⟩ :
      ∃ result fs', fs.tryInsertWithHash data hash size baseUrl now = (result, fs') := ⟨_, _, rfl⟩
  have hspec := tryInsertWithHash_spec hcall
  rw [hcall]
  cases result with
  | error e => exact Or.inl hspec
  | ok descriptor => exact Or.inr ⟨hspec.2.1, hspec.1⟩

theorem insertStream_state {chunks : List Bytes} (hnil : [] ∉ chunks) :
    (fs.insertStream (chunks.map .bytes) baseUrl now).2 = fs
      ∨ (fs.insertStream (chunks.map .bytes) baseUrl now).2
        = fs.putFile (sha256Hex chunks.flatten) chunks.flatten.length chunks.flatten := by
  unfold FilesystemBackend.insertStream
  split
  · exact Or.inl rfl
  · rename_i hreceive
    obtain ⟨stream, hstream, -, -, hput⟩ := receiveStream_eq_ok hreceive
    rw [readToEnd_chunks hnil] at hstream
    obtain rfl : chunks.flatten = stream := Except.ok.inj hstream
    exact Or.inr hput

theorem tryDelete_state :
    (fs.tryDelete hash).2 = fs
      ∨ (validHash hash = true ∧ (fs.tryDelete hash).2 = fs.dropFile hash) := by
  obtain ⟨result, fs', hcall⟩ : ∃ result fs', fs.tryDelete hash = (result, fs') := ⟨_, _, rfl⟩
  have hspec := tryDelete_spec hcall
  rw [hcall]
  match result with
  | .error e => exact Or.inl hspec
  | .ok false => exact Or.inl hspec.1
  | .ok true => exact Or.inr ⟨hspec.2.1, hspec.1⟩

end States

namespace BackendCall

/-- The size given with a hash is the number of bytes to store. -/
def SizeOfData : BackendCall → Prop
  | insertWithHash data _ originalSize _ _ => originalSize = data.length
  | tryInsertWithHash data _ originalSize _ _ => originalSize = data.length
  | _ => True

/-- All a call can do: nothing, store a file under its hash, or drop that file. -/
theorem onDisk_spec (fs : FilesystemBackend) (call : BackendCall) :
    (onDisk fs call).2 = fs
      ∨ (validHash call.target = true ∧ ((∃ size data, (call.SizeOfData → size = data.length)
          ∧ (onDisk fs call).2 = fs.putFile call.target size data)
        ∨ (onDisk fs call).2 = fs.dropFile call.target)) := by
  cases call with
  | insert data baseUrl now =>
    rw [onDisk, insert_eq, Prod.map_snd, id]
    rcases insertWithHash_state fs data (sha256Hex data) data.length baseUrl now with
      hsame | ⟨hvalid, hput⟩
    · exact Or.inl hsame
    · exact Or.inr ⟨hvalid, Or.inl ⟨data.length, data, fun _ => rfl, hput⟩⟩
  | tryInsert data baseUrl now =>
    rw [onDisk, tryInsert_eq, Prod.map_snd, id]
    rcases tryInsertWithHash_state fs data (sha256Hex data) data.length baseUrl now with
      hsame | ⟨hvalid, hput⟩
    · exact Or.inl hsame
    · exact Or.inr ⟨hvalid, Or.inl ⟨data.length, data, fun _ => rfl, hput⟩⟩
  | insertWithHash data hash originalSize baseUrl now =>
    exact (insertWithHash_state fs data _ _ baseUrl now).imp_right
      (And.imp_right fun hput => Or.inl ⟨_, data, id, hput⟩)
  | tryInsertWithHash data hash originalSize baseUrl now =>
    exact (tryInsertWithHash_state fs data _ _ baseUrl now).imp_right
      (And.imp_right fun hput => Or.inl ⟨_, data, id, hput⟩)
  | insertStream stream diskReads memoryReads baseUrl now =>
    obtain ⟨chunks, hnil, rfl⟩ := diskReads
    exact (insertStream_state fs baseUrl now hnil).imp_right fun hput =>
      ⟨validHash_sha256Hex _, Or.inl ⟨chunks.flatten.length, chunks.flatten, fun _ => rfl, hput⟩⟩
  | delete hash =>
    have hstate : (fs.delete hash).2 = (fs.tryDelete hash).2 := by
      unfold FilesystemBackend.delete
      split <;> rename_i hcall <;> rw [hcall]
    rw [onDisk]
    exact hstate ▸ (tryDelete_state fs hash).imp_right (And.imp_right Or.inr)
  | tryDelete hash =>
    exact (tryDelete_state fs hash).imp_right (And.imp_right Or.inr)

end BackendCall

/-- The sizes given with hashes are those of the data, and no stray file is listed for a hash that is
written or deleted. -/
def KeepsAccount (fs : FilesystemBackend) (call : BackendCall) : Prop :=
  call.SizeOfData ∧ OnlyOwnFile fs.dir call.target

theorem Accounted.call (h : Accounted fs) {call : BackendCall} (hkeeps : KeepsAccount fs call) :
    Accounted (onDisk fs call).2 := by
  obtain ⟨hsize, hown⟩ := hkeeps
  rcases onDisk_spec fs call with hsame | ⟨hvalid, ⟨size, data, hdata, hput⟩ | hdrop⟩
  · rw [hsame]
    exact h
  · rw [hput, hdata hsize]
    exact h.putFile hvalid hown data
  · rw [hdrop]
    exact h.dropFile hvalid hown

/-- **Restarts.**  Where every call keeps the account, opening the directory again shows the same
blobs, their number and their total size, after any calls. -/
theorem restart_shows_same_blobs {dir : Directory} {outage : FileCall → Option String}
    {calls : List BackendCall} (honce : ListedOnce dir)
    (hkeeps : ∀ pre call post, calls = pre ++ call :: post →
      KeepsAccount (after onDisk (.new dir outage) pre) call) :
    ∀ pre post, calls = pre ++ post → SurvivesRestart (after onDisk (.new dir outage) pre) := by
  intro pre post hsplit
  have haccounted := run_invariant (P := fun _ fs => Accounted fs) (accounted_new honce outage)
    fun pre call post hsplit h => h.call (hkeeps pre call post hsplit)
  exact (haccounted pre post hsplit).survivesRestart

/-- Two bytes under a hash, on an empty directory. -/
theorem stored_blob_survives_restart :
    SurvivesRestart (after onDisk emptyDisk
      [.tryInsertWithHash [1, 2] sampleHash 2 "http://h" 0]) := by
  refine restart_shows_same_blobs ?_ ?_ _ [] (List.append_nil _).symm
  · nofun
  · rw [forall_split_cons, forall_split_nil, and_true]
    exact ⟨rfl, nofun⟩

/-- The total with one file, before and after a restart. -/
theorem totalBytes_one_file (hvalid : validHash hash = true) (size : Nat) (data : Bytes) :
    BlobBackend.totalBytes (emptyDisk.putFile hash size data) = size
      ∧ BlobBackend.totalBytes (FilesystemBackend.new (emptyDisk.putFile hash size data).dir
        (emptyDisk.putFile hash size data).outage) = data.length := by
  refine ⟨rfl, ?_⟩
  have hscan : scan (emptyDisk.putFile hash size data).dir
      = scanEntry ∅ ⟨blobName hash, .file data⟩ := rfl
  rw [scanEntry, listedHash_blobName hvalid] at hscan
  change ((scan (emptyDisk.putFile hash size data).dir).entries.map fun entry => entry.2).sum = _
  rw [hscan]
  rfl

/-- With another size the total is different after a restart. -/
theorem total_changes_at_restart :
    let fs := after onDisk emptyDisk [.tryInsertWithHash [1, 2] sampleHash 5 "http://h" 0]
    BlobBackend.totalBytes fs = 5
      ∧ BlobBackend.totalBytes (FilesystemBackend.new fs.dir fs.outage) = 2 := by
  intro fs
  have hstored : fs = emptyDisk.putFile sampleHash 5 [1, 2] :=
    congrArg Prod.snd (sameBlobs_new.tryInsertWithHash validHash_sampleHash [1, 2] 5 "http://h" 0)
  rw [hstored]
  exact totalBytes_one_file validHash_sampleHash 5 [1, 2]

end BlossomRs.Storage

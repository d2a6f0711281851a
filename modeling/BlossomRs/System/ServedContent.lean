import BlossomRs.Transport.Handlers

/-!
# What is served for a version

`GET /{sha256}` and the get of a stream load a blob in the same way: they decode its bytes as the
version record says and fall back to the bytes themselves when that fails.  Neither looks at the hash
of what it serves.

`served_intact_iff` says which states are served intact, by the links of the version: a frame that
decodes, the records, bytes and deltas on the way down from a delta, or the first link that is broken.
The results hold for any backend and any record store, including one whose lookups fail.
-/

namespace BlossomRs.System

open Protocol Storage Database Lfs Server

variable {β δ ν κ : Type}

section

variable (codecs : Codecs) (lookup : VersionLookup) (fetch : Fetch)

/-- What the stored bytes of a version stand for: the data of a frame, or what the links of a delta
resolve to. -/
inductive Decodes (version : LfsFileVersion) (raw : Bytes) : Bytes → Prop
  | frame {content : Bytes} (hstorage : version.storage = .compressed)
      (hframe : codecs.decompress raw = .ok content) : Decodes version raw content
  | links {content : Bytes} (hstorage : version.storage = .delta)
      (hlinks : Resolves codecs lookup fetch maxDeltaChainDepth version.sha256 content) :
      Decodes version raw content

/-- They stand for nothing, or for themselves: they are no frame, the links of a delta break off, or
the version is stored raw. -/
inductive Undecoded (version : LfsFileVersion) (raw : Bytes) : Prop
  | noFrame {e : String} (hstorage : version.storage = .compressed)
      (herror : codecs.decompress raw = .error e)
  | broken (hstorage : version.storage = .delta)
      (hbreaks : Breaks codecs lookup fetch maxDeltaChainDepth version.sha256)
  | raw (hstorage : version.storage = .raw)

end

variable {codecs : Codecs} {lookup : VersionLookup} {fetch : Fetch} {version : LfsFileVersion}
    {raw content : Bytes}

/-- Loading decodes. -/
theorem Decodes.loadStored_eq (h : Decodes codecs lookup fetch version raw content) :
    loadStored codecs lookup fetch version raw = content := by
  cases h with
  | frame hstorage hframe => simp only [loadStored, hstorage, Codecs.decompressOr, hframe]
  | links hstorage hlinks =>
    simp only [loadStored, hstorage, reconstructBlob_eq_chase, hlinks.chase_eq]

/-- Otherwise it returns the bytes as they are. -/
theorem Undecoded.loadStored_eq (h : Undecoded codecs lookup fetch version raw) :
    loadStored codecs lookup fetch version raw = raw := by
  cases h with
  | noFrame hstorage herror => simp only [loadStored, hstorage, Codecs.decompressOr, herror]
  | broken hstorage hbreaks =>
    obtain ⟨e, he⟩ := hbreaks.chase_error
    simp only [loadStored, hstorage, reconstructBlob_eq_chase, he]
  | raw hstorage => simp only [loadStored, hstorage]

theorem decodes_or_undecoded (codecs : Codecs) (lookup : VersionLookup) (fetch : Fetch)
    (version : LfsFileVersion) (raw : Bytes) :
    (∃ content, Decodes codecs lookup fetch version raw content)
      ∨ Undecoded codecs lookup fetch version raw := by
  cases hstorage : version.storage with
  | raw => exact Or.inr (.raw hstorage)
  | compressed =>
    cases hframe : codecs.decompress raw with
    | ok content => exact Or.inl ⟨content, .frame hstorage hframe⟩
    | error e => exact Or.inr (.noFrame hstorage hframe)
  | delta =>
    rcases resolves_or_breaks codecs lookup fetch maxDeltaChainDepth version.sha256 with
      ⟨content, hlinks⟩ | hbreaks
    · exact Or.inl ⟨content, .links hstorage hlinks⟩
    · exact Or.inr (.broken hstorage hbreaks)

/-- The stored bytes decode to the content of the hash; or they do not decode, and are the content
of the hash as they are. -/
def Intact (codecs : Codecs) (lookup : VersionLookup) (fetch : Fetch) (hash : String)
    (version : LfsFileVersion) (raw : Bytes) : Prop :=
  (∃ content, Decodes codecs lookup fetch version raw content ∧ sha256Hex content = hash)
    ∨ Undecoded codecs lookup fetch version raw ∧ sha256Hex raw = hash

/-- That is what loading asks for. -/
theorem intact_iff {hash : String} :
    Intact codecs lookup fetch hash version raw
      ↔ sha256Hex (loadStored codecs lookup fetch version raw) = hash := by
  constructor
  · rintro (⟨content, hdecodes, hhash⟩ | ⟨hundecoded, hhash⟩)
    · rwa [hdecodes.loadStored_eq]
    · rwa [hundecoded.loadStored_eq]
  · intro hhash
    rcases decodes_or_undecoded codecs lookup fetch version raw with ⟨content, hdecodes⟩ | hundecoded
    · rw [hdecodes.loadStored_eq] at hhash
      exact Or.inl ⟨content, hdecodes, hhash⟩
    · rw [hundecoded.loadStored_eq] at hhash
      exact Or.inr ⟨hundecoded, hhash⟩

variable [BlobBackend β] [BlobDatabase δ] [LfsVersionDatabase ν]

/-- Both transports answer a request for the hash with its content or with an error. -/
structure ServedIntact (ext : Transport.Externals) (s : ServerState β δ ν κ) (hash : String) :
    Prop where
  http : ∀ call seen path, RustStr.splitFirst '.' path = hash →
    (handleGetBlob ext.toExternals call path ⟨s, seen⟩).1.status = .ok →
    ∃ body, (handleGetBlob ext.toExternals call path ⟨s, seen⟩).1.blob? = some body
      ∧ sha256Hex body = hash
  stream : (Transport.handleGet ext hash s).header.status = .ok →
    sha256Hex (Transport.handleGet ext hash s).body = hash

omit [BlobDatabase δ] in
theorem loadBlob_of_version (ext : Server.Externals) {s : ServerState β δ ν κ} {db : ν}
    {hash : String} (hdb : s.lfsVersionDb = some db)
    (hversion : LfsVersionDatabase.getBySha256 db hash = .ok (some version)) :
    loadBlob ext s hash = (BlobBackend.get s.backend hash).map
      (loadStored ext.codecs (LfsVersionDatabase.getBySha256 db) (BlobBackend.get s.backend)
        version) := by
  simp only [loadBlob, hdb, hversion]

/-- **What is served for a version.**  Both transports serve the content of the hash or an error
exactly when the stored bytes are intact, in whichever form they are stored. -/
theorem served_intact_iff (ext : Transport.Externals) (s : ServerState β δ ν κ) {db : ν}
    (hdb : s.lfsVersionDb = some db) {hash : String} {version : LfsFileVersion}
    (hversion : LfsVersionDatabase.getBySha256 db hash = .ok (some version)) :
    ServedIntact ext s hash
      ↔ ∀ raw, BlobBackend.get s.backend hash = some raw →
        Intact ext.codecs (LfsVersionDatabase.getBySha256 db) (BlobBackend.get s.backend) hash
          version raw := by
  have hload := loadBlob_of_version ext.toExternals hdb hversion
  cases hraw : BlobBackend.get s.backend hash with
  | none =>
    rw [hraw, Option.map_none] at hload
    refine iff_of_true ⟨?_, ?_⟩ nofun
    · rintro call seen path rfl hok
      unfold handleGetBlob at hok
      dsimp only at hok
      rw [hload] at hok
      split at hok
      · exact nomatch hok
      · exact nomatch hok
    · intro hok
      rw [Transport.handleGet, hload] at hok
      exact nomatch hok
  | some raw =>
    rw [hraw, Option.map_some] at hload
    have hstream : (Transport.handleGet ext hash s).header.status = .ok
        ∧ (Transport.handleGet ext hash s).body = loadStored ext.codecs
          (LfsVersionDatabase.getBySha256 db) (BlobBackend.get s.backend) version raw := by
      rw [Transport.handleGet, hload]
      exact ⟨rfl, rfl⟩
    constructor
    · rintro ⟨-, hserved⟩ raw' hraw'
      obtain rfl : raw = raw' := Option.some.inj hraw'
      rw [hstream.2] at hserved
      exact intact_iff.mpr (hserved hstream.1)
    · intro hintact
      have hhash := intact_iff.mp (hintact raw rfl)
      refine ⟨?_, ?_⟩
      · rintro call seen path rfl hok
        unfold handleGetBlob at hok ⊢
        dsimp only at hok ⊢
        split at hok
        · rw [if_pos ‹_›, hload]
          exact ⟨_, rfl, hhash⟩
        · exact nomatch hok
      · intro _
        rw [hstream.2]
        exact hhash

/-- A version of one byte. -/
def byteVersion (hash : String) (storage : LfsStorageType) (base : Option String) :
    LfsFileVersion where
  repoId := "org/repo"
  path := "model.bin"
  version := 1
  sha256 := hash
  baseSha256 := base
  storage := storage
  deltaAlgo := none
  originalSize := 1
  storedSize := 1
  createdAt := 0

/-- A server with one blob and one version of it. -/
def oneVersion (version : LfsFileVersion) (raw : Bytes) :
    ServerState MemoryBackend MemoryDatabase MemoryLfsVersionDatabase Unit :=
  { ServerState.new (ν := MemoryLfsVersionDatabase)
      (MemoryBackend.new.put version.sha256 raw.length raw) "" with
    lfsVersionDb := some ⟨[version]⟩ }

/-- Three versions of a file with their stored bytes: a frame, and two deltas on top of it. -/
def linkedBlobs : List (LfsFileVersion × Bytes) := [
  (byteVersion (sha256Hex [1, 0]) .compressed none, RawFrame.encode [1, 0]),
  (byteVersion (sha256Hex [2, 0]) .delta (some (sha256Hex [1, 0])),
    RawFrame.encode (SpliceDelta.encode [1, 0] [2, 0])),
  (byteVersion (sha256Hex [3, 0]) .delta (some (sha256Hex [2, 0])),
    RawFrame.encode (SpliceDelta.encode [2, 0] [3, 0]))]

def linkedVersions : ServerState MemoryBackend MemoryDatabase MemoryLfsVersionDatabase Unit :=
  { ServerState.new (ν := MemoryLfsVersionDatabase) (linkedBlobs.foldl (fun backend blob =>
      MemoryBackend.put backend blob.1.sha256 blob.2.length blob.2) .new) "" with
    lfsVersionDb := some ⟨linkedBlobs.map (·.1)⟩ }

/-- The last of them is served intact, from the deltas and the frame below it. -/
theorem linked_version_served :
    (Transport.handleGet (.knowing []) (sha256Hex [3, 0]) linkedVersions).header.status = .ok
      ∧ ServedIntact (.knowing []) linkedVersions (sha256Hex [3, 0]) := by
  have hfound : ∀ blob ∈ linkedBlobs,
      LfsVersionDatabase.getBySha256 (MemoryLfsVersionDatabase.mk (linkedBlobs.map (·.1)))
          blob.1.sha256 = .ok (some blob.1)
        ∧ BlobBackend.get linkedVersions.backend blob.1.sha256 = some blob.2 := by
    decide +kernel
  simp only [linkedBlobs, List.forall_mem_cons, List.not_mem_nil, false_implies, implies_true,
    and_true] at hfound
  obtain ⟨⟨hfull, hframe⟩, ⟨hlower, hlowerDelta⟩, hupper, hupperDelta⟩ := hfound
  refine ⟨by decide +kernel, (served_intact_iff (.knowing []) linkedVersions rfl hupper).mpr ?_⟩
  intro raw _
  have hunframed : Codecs.reference.decompress (RawFrame.encode [1, 0]) = .ok [1, 0] := by
    decide +kernel
  have hdecodes : Codecs.reference.decodeDelta [1, 0] (Codecs.reference.decompressOr
        (RawFrame.encode (SpliceDelta.encode [1, 0] [2, 0]))) = .ok [2, 0]
      ∧ Codecs.reference.decodeDelta [2, 0] (Codecs.reference.decompressOr
        (RawFrame.encode (SpliceDelta.encode [2, 0] [3, 0]))) = .ok [3, 0] := by
    decide +kernel
  -- down two deltas to the frame
  have hbottom := Resolves.full (n := 7) hfull (by decide) (.frame hframe hfull rfl hunframed)
  have hlinks := (hbottom.link hlower rfl hlowerDelta hdecodes.1).link hupper rfl hupperDelta hdecodes.2
  exact Or.inl ⟨[3, 0], .links rfl hlinks, rfl⟩

/-- A compressed version whose bytes do not decompress, and a delta whose base is missing: both
transports answer with success and the stored bytes. -/
theorem undecoded_versions_served :
    sha256Hex [2] ≠ sha256Hex [1] ∧ ∀ version ∈ [byteVersion (sha256Hex [1]) .compressed none,
        byteVersion (sha256Hex [1]) .delta (some (sha256Hex [3]))],
      LfsVersionDatabase.getBySha256 (MemoryLfsVersionDatabase.mk [version]) (sha256Hex [1])
          = .ok (some version)
        ∧ (version.storage = .compressed ∨ version.storage = .delta)
        ∧ (∀ call seen, (handleGetBlob (.knowing []) call (sha256Hex [1])
            ⟨oneVersion version [2], seen⟩).1.blob? = some [2])
        ∧ (Transport.handleGet (.knowing []) (sha256Hex [1]) (oneVersion version [2])).header.status
          = .ok
        ∧ (Transport.handleGet (.knowing []) (sha256Hex [1]) (oneVersion version [2])).body = [2] := by
  have hserved : ∀ version : LfsFileVersion,
      (oneVersion version [2]).view.read .reference (sha256Hex [1]) = some [2] →
      ∀ call seen, (handleGetBlob (.knowing []) call (sha256Hex [1])
        ⟨oneVersion version [2], seen⟩).1.blob? = some [2] := fun version hread call seen =>
    (get_eq_read _ call (isValidSha256_sha256Hex [1]) ⟨_, seen⟩).1.trans hread
  refine ⟨by decide, ?_⟩
  intro version hversion
  simp only [List.mem_cons, List.not_mem_nil, or_false] at hversion
  rcases hversion with rfl | rfl
  · exact ⟨by decide +kernel, Or.inl rfl, hserved _ (by decide +kernel), by decide +kernel, by decide +kernel⟩
  · exact ⟨by decide +kernel, Or.inr rfl, hserved _ (by decide +kernel), by decide +kernel, by decide +kernel⟩

end BlossomRs.System

import BlossomRs.System.ServedContent
import BlossomRs.System.VersionNumbers

/-!
# `HEAD` beside `GET`

A `GET` computes its answer from the stored bytes.  A `HEAD` predicts it from what is recorded: the
length from the version record, the type from the upload record.  Without a version record the HTTP
handler takes the number of stored bytes, and the one of the streams takes zero.  Neither looks at
the bytes for the type, where a `GET` does.

Along any run of sections, each version record has the length of the body that was uploaded under its
hash (`RecordsBodies`).  From it `heads_agree_iff`: which stored contents both transports describe as
they serve them.
-/

namespace BlossomRs.System

open Protocol Storage Database Lfs Locks Server RustInt

variable {β δ ν κ : Type}

/-! ### The sizes in the records -/

section Records

variable [BlobBackend β] [LfsVersionDatabase ν] [LawfulLfsVersionDatabase ν]

/-- Each version record has the hash and the length of one of the bodies. -/
def RecordsBodies (bodies : List Bytes) (s : ServerState β δ ν κ) : Prop :=
  ∀ v ∈ outlines s, ∃ body ∈ bodies, v.sha256 = sha256Hex body ∧ v.originalSize = body.length

variable {bodies : List Bytes} {s : ServerState β δ ν κ}

theorem RecordsBodies.mono {bodies' : List Bytes} (h : RecordsBodies bodies s)
    (hsub : bodies ⊆ bodies') : RecordsBodies bodies' s := by
  intro v hv
  obtain ⟨body, hbody, hrecord⟩ := h v hv
  exact ⟨body, hsub hbody, hrecord⟩

/-- The record of a content has its length. -/
theorem RecordsBodies.originalSize_eq (h : RecordsBodies bodies s) {content : Bytes}
    (hfree : Sha256.CollisionFreeOn (· ∈ content :: bodies)) {v : LfsFileVersion}
    (hfind : s.view.find (sha256Hex content) = some v) : v.originalSize = content.length := by
  have hmem : outline v ∈ outlines s := List.mem_map_of_mem (List.mem_of_find?_eq_some hfind)
  have hhash : v.sha256 = sha256Hex content := by simpa using List.find?_some hfind
  obtain ⟨body, hbody, hsha, hsize⟩ := h (outline v) hmem
  have hsame : content = body := hfree _ _ List.mem_cons_self (List.mem_cons_of_mem _ hbody)
    (sha256_eq_of_sha256Hex_eq (hhash.symm.trans hsha))
  rw [hsame]
  exact hsize

variable [LawfulBlobBackend β] [BlobDatabase δ] [LockDatabase κ]

/-- **One section**: what it records has the length of what it stores. -/
theorem RecordsBodies.run (h : RecordsBodies bodies s) (ext : Transport.Externals) (part : Section) :
    RecordsBodies (bodies ++ part.stores.toList) (part.run ext s).2 := by
  have hkept : RecordsBodies (bodies ++ part.stores.toList) s :=
    h.mono (List.subset_append_left _ _)
  intro v hv
  rcases records_run ext part s with hsame | ⟨w, data, _, _, hcontent, hnew, hrecords⟩
    | ⟨hash, -, -, hdropped⟩
  · rw [hsame] at hv
    exact hkept v hv
  · rw [outlines, hrecords, List.map_append, List.mem_append] at hv
    rcases hv with hv | hv
    · exact hkept v hv
    · obtain rfl : v = outline w := by simpa using hv
      refine ⟨data, by simp [hcontent], ?_, ?_⟩
      · exact (Store.newRecord_eq_some hnew).2.2.1
      · exact (Store.sizes_newRecord hnew).1
  · rw [hdropped] at hv
    exact hkept v (List.mem_of_mem_filter hv)

/-- **Along a run** every record has the length of a body the run stores under its hash. -/
theorem RecordsBodies.after (h : RecordsBodies bodies s) (ext : Transport.Externals)
    (parts : List Section) :
    RecordsBodies (bodies ++ parts.filterMap Section.stores) (afterSections ext s parts) := by
  induction parts generalizing s bodies with
  | nil =>
    rw [List.filterMap_nil, List.append_nil]
    exact h
  | cons part parts ih =>
    have hnext := ih (h.run ext part)
    rw [List.append_assoc] at hnext
    refine hnext.mono ?_
    cases hcontent : part.stores <;> simp [hcontent]

end Records

/-! ### What is stored -/

/-- What is stored under a hash stands for a content: as it is where there is no version record, else
as the record says.  Bytes that cannot be decoded stand for themselves. -/
def StandsFor (codecs : Codecs) (s : Store) (hash : String) (content : Bytes) : Prop :=
  ∃ raw, s.blobs hash = some raw
    ∧ match s.find hash with
      | none => raw = content
      | some v => Decodes codecs s.lookup s.blobs v raw content
          ∨ Undecoded codecs s.lookup s.blobs v raw ∧ raw = content

variable {hash : String}

/-- It is what is read. -/
theorem StandsFor.read_eq {codecs : Codecs} {s : Store} {content : Bytes}
    (h : StandsFor codecs s hash content) : s.read codecs hash = some content := by
  obtain ⟨raw, hraw, hform⟩ := h
  unfold Store.read
  cases hfind : s.find hash with
  | none =>
    rw [hfind] at hform
    simp [hraw, hform]
  | some v =>
    rw [hfind] at hform
    rcases hform with hdecodes | ⟨hundecoded, rfl⟩
    · simp [hraw, hdecodes.loadStored_eq]
    · simp [hraw, hundecoded.loadStored_eq]

theorem standsFor_of_read {codecs : Codecs} {s : Store} {content : Bytes}
    (h : s.read codecs hash = some content) : StandsFor codecs s hash content := by
  obtain ⟨raw, hraw, hloaded⟩ := Option.map_eq_some_iff.mp h
  refine ⟨raw, hraw, ?_⟩
  cases hfind : s.find hash with
  | none =>
    rw [hfind] at hloaded
    exact hloaded
  | some v =>
    rw [hfind] at hloaded
    rcases decodes_or_undecoded codecs s.lookup s.blobs v raw with ⟨found, hdecodes⟩ | hundecoded
    · obtain rfl := hdecodes.loadStored_eq.symm.trans hloaded
      exact Or.inl hdecodes
    · exact Or.inr ⟨hundecoded, hundecoded.loadStored_eq.symm.trans hloaded⟩

/-- The upload record of a hash names a type that says something. -/
def TypeRecorded [BlobDatabase δ] (database : δ) (hash : String) : Prop :=
  ∃ record, BlobDatabase.getUpload database hash = .ok record ∧ record.mimeType ≠ ""
    ∧ record.mimeType ≠ octetStream

theorem storedContentType_of_recorded [BlobDatabase δ] {database : δ}
    (h : TypeRecorded database hash) (data data' : Option Bytes) :
    storedContentType database hash data = storedContentType database hash data' := by
  obtain ⟨record, hrecord, hnonempty, htells⟩ := h
  have hnot : ¬ (record.mimeType = "" ∨ record.mimeType = octetStream) := by
    rintro (hempty | hoctet)
    · exact hnonempty hempty
    · exact htells hoctet
  simp only [storedContentType, hrecord, if_neg hnot]

theorem storedContentType_of_not_recorded [BlobDatabase δ] {database : δ}
    (h : ¬ TypeRecorded database hash) (data : Option Bytes) :
    storedContentType database hash data = (data.map detectMime).getD octetStream := by
  unfold storedContentType
  cases hrecord : BlobDatabase.getUpload database hash with
  | error e => rfl
  | ok record =>
    have hsilent : record.mimeType = "" ∨ record.mimeType = octetStream := by
      by_contra hnot
      rw [not_or] at hnot
      exact h ⟨record, hrecord, hnot⟩
    exact if_pos hsilent

/-- The type without the bytes is the one with them when it is recorded, or the bytes do not show
any. -/
theorem storedContentType_eq_iff [BlobDatabase δ] (database : δ) (hash : String) (content : Bytes) :
    storedContentType database hash none = storedContentType database hash (some content)
      ↔ TypeRecorded database hash ∨ detectMime content = octetStream := by
  by_cases htype : TypeRecorded database hash
  · exact iff_of_true (storedContentType_of_recorded htype _ _) (Or.inl htype)
  · rw [storedContentType_of_not_recorded htype, storedContentType_of_not_recorded htype]
    constructor
    · intro heq
      exact Or.inr heq.symm
    · rintro (hrecorded | hdetected)
      · exact absurd hrecorded htype
      · exact hdetected.symm

/-! ### Both handlers -/

/-- Both transports say of a hash, before they serve it, what they serve: HTTP the type and the
length of the body, streams the length. -/
structure HeadsAgree [BlobBackend β] [BlobDatabase δ] [LfsVersionDatabase ν]
    (ext : Transport.Externals) (s : ServerState β δ ν κ) (hash : String) : Prop where
  http : ∀ call seen path, RustStr.splitFirst '.' path = hash → ∃ type body,
    (handleGetBlob ext.toExternals call path ⟨s, seen⟩).1 = ⟨.ok, .blob type body⟩
      ∧ (handleHeadBlob path ⟨s, seen⟩).1 = ⟨.ok, .head body.length type⟩
  stream : (Transport.handleHead hash s).header.bodyLen
    = (Transport.handleGet ext hash s).header.bodyLen

section Handlers

variable [BlobBackend β] [LfsVersionDatabase ν] [LawfulLfsVersionDatabase ν]
  {s : ServerState β δ ν κ}

/-- What a `HEAD` looks up: nothing without a record store, else the record of the view. -/
theorem lookedUp_cases (s : ServerState β δ ν κ) (hash : String) :
    s.lfsVersionDb.map (LfsVersionDatabase.getBySha256 · hash) = none ∧ s.view.find hash = none
      ∨ s.lfsVersionDb.map (LfsVersionDatabase.getBySha256 · hash)
        = some (.ok (s.view.find hash)) := by
  cases hdb : s.lfsVersionDb with
  | none => exact Or.inl ⟨rfl, by simp [Store.find, Store.records, ServerState.view, hdb]⟩
  | some db =>
    refine Or.inr ?_
    rw [Option.map_some, ServerState.getBySha256_eq_lookup hdb, Store.lookup]

/-- What a `HEAD` of HTTP answers. -/
theorem head_eq [BlobDatabase δ] (hvalid : isValidSha256 hash = true) {raw : Bytes}
    (hraw : s.view.blobs hash = some raw) {path : String}
    (hpath : RustStr.splitFirst '.' path = hash) (seen : ReplayCache) :
    (handleHeadBlob path ⟨s, seen⟩).1
      = ⟨.ok, .head (((s.view.find hash).map (·.originalSize.toNat)).getD raw.length)
        (storedContentType s.database hash none)⟩ := by
  have hget : BlobBackend.get s.backend hash = some raw := hraw
  unfold handleHeadBlob
  dsimp only
  rw [hpath, if_pos hvalid, hget]
  rcases lookedUp_cases s hash with ⟨hnone, hfind⟩ | hfound
  · rw [hnone, hfind]
    rfl
  · rw [hfound]
    cases s.view.find hash <;> rfl

variable {content : Bytes}

/-- What a `GET` of HTTP answers. -/
theorem get_eq [BlobDatabase δ] (ext : Server.Externals) (hvalid : isValidSha256 hash = true)
    (hread : s.view.read ext.codecs hash = some content) {path : String}
    (hpath : RustStr.splitFirst '.' path = hash) (call : Call) (seen : ReplayCache) :
    (handleGetBlob ext call path ⟨s, seen⟩).1
      = ⟨.ok, .blob (storedContentType s.database hash (some content)) content⟩ := by
  unfold handleGetBlob
  dsimp only
  rw [hpath, if_pos hvalid, loadBlob_eq_read, hread]

/-- What a head on a stream answers. -/
theorem bodyLen_handleHead [LawfulBlobBackend β] {raw : Bytes}
    (hraw : s.view.blobs hash = some raw) :
    (Transport.handleHead hash s).header.bodyLen
      = ((s.view.find hash).map fun v => asU64 v.originalSize).getD 0 := by
  have hexists : BlobBackend.existsBlob s.backend hash = true := by
    rw [LawfulBlobBackend.existsBlob_eq]
    exact Option.isSome_iff_exists.mpr ⟨raw, hraw⟩
  unfold Transport.handleHead
  rw [if_pos hexists]
  dsimp only
  rcases lookedUp_cases s hash with ⟨hnone, hfind⟩ | hfound
  · rw [hnone, hfind]
    rfl
  · rw [hfound]
    cases s.view.find hash <;> rfl

/-- What a get on a stream answers. -/
theorem bodyLen_handleGet (ext : Transport.Externals)
    (hread : s.view.read ext.codecs hash = some content) :
    (Transport.handleGet ext hash s).header.bodyLen = content.length := by
  rw [Transport.handleGet, loadBlob_eq_read, hread]

variable [BlobDatabase δ] [LawfulBlobBackend β]

/-- **One stored content.**  Where its record has its length, both transports describe it as they
serve it exactly when its type is recorded or cannot be told from the bytes, and there is a record
unless it is empty. -/
theorem headsAgree_iff (ext : Transport.Externals) (hlength : content.length < 2 ^ 63)
    (hstands : StandsFor ext.codecs s.view (sha256Hex content) content)
    (hsize : ∀ v, s.view.find (sha256Hex content) = some v → v.originalSize = content.length) :
    HeadsAgree ext s (sha256Hex content)
      ↔ (TypeRecorded s.database (sha256Hex content) ∨ detectMime content = octetStream)
        ∧ ((s.view.find (sha256Hex content)).isSome ∨ content = []) := by
  have hvalid := isValidSha256_sha256Hex content
  have hread := hstands.read_eq
  obtain ⟨raw, hraw, hform⟩ := hstands
  -- the length HTTP announces is right either way
  have hannounced : ((s.view.find (sha256Hex content)).map (·.originalSize.toNat)).getD raw.length
      = content.length := by
    cases hfind : s.view.find (sha256Hex content) with
    | none =>
      rw [hfind] at hform
      simp [hform]
    | some v => simp [hsize v hfind]
  have hstream : (Transport.handleHead (sha256Hex content) s).header.bodyLen
        = (Transport.handleGet ext (sha256Hex content) s).header.bodyLen
      ↔ (s.view.find (sha256Hex content)).isSome ∨ content = [] := by
    rw [bodyLen_handleHead hraw, bodyLen_handleGet ext hread]
    cases hfind : s.view.find (sha256Hex content) with
    | none => simp [eq_comm]
    | some v =>
      have hkept := @asU64_of_nonneg v.originalSize (by simp [hsize v hfind])
        (by simpa [hsize v hfind] using Int.ofNat_lt.mpr hlength)
      refine iff_of_true ?_ (Or.inl rfl)
      rw [hsize v hfind] at hkept
      simpa [hsize v hfind] using Int.ofNat.inj hkept
  rw [← storedContentType_eq_iff, ← hstream]
  constructor
  · rintro ⟨hhttp, hlen⟩
    refine ⟨?_, hlen⟩
    have hpath := splitFirst_of_isValidSha256 hvalid
    obtain ⟨type, body, hget, hhead⟩ := hhttp ⟨fun _ => 0, 0, 0⟩ (.new 0 0) _ hpath
    rw [get_eq ext.toExternals hvalid hread hpath] at hget
    rw [head_eq hvalid hraw hpath] at hhead
    simp only [Response.mk.injEq, ResponseBody.blob.injEq, ResponseBody.head.injEq, true_and] at hget hhead
    rw [hhead.2, hget.1]
  · rintro ⟨htype, hlen⟩
    refine ⟨?_, hlen⟩
    intro call seen path hpath
    refine ⟨_, content, get_eq ext.toExternals hvalid hread hpath call seen, ?_⟩
    rw [head_eq hvalid hraw hpath, hannounced, htype]

end Handlers

/-! ### Runs -/

variable [BlobBackend β] [LawfulBlobBackend β] [BlobDatabase δ] [LfsVersionDatabase ν]
  [LawfulLfsVersionDatabase ν] [LockDatabase κ]

/-- **What is announced is what is served.**  After any run from a server without version records,
for every stored content: both transports describe it as they serve it exactly when its type is
recorded or cannot be told from the bytes, and there is a version record unless it is empty. -/
theorem heads_agree_iff (ext : Transport.Externals) {s : ServerState β δ ν κ}
    (hrecords : s.view.records = []) (parts : List Section) {content : Bytes}
    (hlength : content.length < 2 ^ 63)
    (hfree : Sha256.CollisionFreeOn (· ∈ content :: parts.filterMap Section.stores))
    (hstands : StandsFor ext.codecs (afterSections ext s parts).view (sha256Hex content) content) :
    HeadsAgree ext (afterSections ext s parts) (sha256Hex content)
      ↔ (TypeRecorded (afterSections ext s parts).database (sha256Hex content)
          ∨ detectMime content = octetStream)
        ∧ (((afterSections ext s parts).view.find (sha256Hex content)).isSome ∨ content = []) := by
  have hinit : RecordsBodies [] s := by
    intro v hv
    rw [outlines, hrecords] at hv
    cases hv
  have hafter := hinit.after ext parts
  exact headsAgree_iff ext hlength hstands fun v hfind => hafter.originalSize_eq hfree hfind

/-- The upload of a manifest, on a stream: it is recorded, and stored as it is. -/
def uploadManifest (data : Bytes) : Section :=
  .stream ⟨fun _ => 0, 0, 0⟩ "" { Transport.Request.of .upload with
    sha256 := sha256Hex data, lfsRepo := "org/repo", lfsPath := "model.bin", lfsManifest := true }
    (some "admin") data

/-- The upload of a version as a delta, on a stream. -/
def uploadDelta (base data : Bytes) : Section :=
  .stream ⟨fun _ => 0, 0, 0⟩ "" { Transport.Request.of .upload with
    sha256 := sha256Hex data, lfsRepo := "org/repo", lfsPath := "model.bin",
    lfsBase := sha256Hex base } (some "admin") data

/-- Two bodies of seventeen bytes. -/
def longBody (first : UInt8) : Bytes :=
  first :: List.replicate 16 0

/-- A manifest is uploaded, then a version as a delta on it, and the delta is deleted. -/
def deltaRun : List Section :=
  [uploadManifest (longBody 1), uploadDelta (longBody 1) (longBody 2), deleteVersion (longBody 2)]

/-- A manifest is uploaded, and a version as a delta on it: both transports describe it as they serve
it. -/
theorem delta_heads_agree :
    (afterSections (.knowing []) versionedServer (deltaRun.take 2)).view.parent
        (sha256Hex (longBody 2)) = some (sha256Hex (longBody 1))
      ∧ HeadsAgree (.knowing []) (afterSections (.knowing []) versionedServer (deltaRun.take 2))
        (sha256Hex (longBody 2)) := by
  have hfree : Sha256.CollisionFreeOn
      (· ∈ longBody 2 :: (deltaRun.take 2).filterMap Section.stores) := by
    have hdistinct : ∀ a ∈ longBody 2 :: (deltaRun.take 2).filterMap Section.stores,
        ∀ b ∈ longBody 2 :: (deltaRun.take 2).filterMap Section.stores,
        Sha256.sha256 a = Sha256.sha256 b → a = b := by
      decide +kernel
    exact fun a b ha hb => hdistinct a ha b hb
  have hread : (afterSections (.knowing []) versionedServer (deltaRun.take 2)).view.read
      .reference (sha256Hex (longBody 2)) = some (longBody 2) := by
    decide +kernel
  exact ⟨by decide +kernel, (heads_agree_iff (.knowing []) rfl (deltaRun.take 2) (by decide) hfree
    (standsFor_of_read hread)).mpr ⟨Or.inr (by decide +kernel), Or.inl (by decide +kernel)⟩⟩

/-- The upload of a blob that is no version of a file, on a stream. -/
def uploadPlain (data : Bytes) : Section :=
  .stream ⟨fun _ => 0, 0, 0⟩ "" { Transport.Request.of .upload with sha256 := sha256Hex data }
    (some "admin") data

/-- The first bytes of a PNG file. -/
def pngBytes : Bytes :=
  [0x89, 0x50, 0x4e, 0x47]

/-- A server to which such an image was uploaded. -/
def imageServer :
    ServerState MemoryBackend MemoryDatabase MemoryLfsVersionDatabase MemoryLockDatabase :=
  afterSections (.knowing []) versionedServer [uploadPlain pngBytes]

/-- An image is uploaded without being a version of a file.  A head on a stream announces no bytes
and the get has four; the `HEAD` of HTTP announces bytes of no known type and the `GET` serves an
image. -/
theorem plain_image_heads_differ :
    (Transport.handleHead (sha256Hex pngBytes) imageServer).header.bodyLen = 0
      ∧ (Transport.handleGet (.knowing []) (sha256Hex pngBytes) imageServer).header.bodyLen = 4
      ∧ (handleHeadBlob (sha256Hex pngBytes) ⟨imageServer, .new 0 0⟩).1 = ⟨.ok, .head 4 octetStream⟩
      ∧ (handleGetBlob (Transport.Externals.knowing []).toExternals ⟨fun _ => 0, 0, 0⟩
        (sha256Hex pngBytes) ⟨imageServer, .new 0 0⟩).1 = ⟨.ok, .blob "image/png" pngBytes⟩ := by
  exact ⟨by decide +kernel, by decide +kernel, rfl, rfl⟩

end BlossomRs.System

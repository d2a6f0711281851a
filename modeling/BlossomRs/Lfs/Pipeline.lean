import BlossomRs.Lfs.Reconstruct

/-!
# Choosing the stored form of an upload

Before an upload is written, the server decides from its context in which form: as it is,
compressed, or as a compressed delta against a base it already has.  After the write it makes a
version record when the context names a repository and a path.

Both transports run this pipeline; like `reconstructBlob` it sees the stores through lookups.
-/

namespace BlossomRs.Lfs

open Protocol

/-- The bytes to store, with the form and base the record will name. -/
structure Prepared where
  storedData : Bytes
  storage : LfsStorageType
  baseSha256 : Option String
deriving DecidableEq

variable (codecs : Codecs)

/-- The whole body, compressed if the compressor accepts it. -/
def prepareCompressed (data : Bytes) : Prepared :=
  ⟨codecs.compressOr data, .compressed, none⟩

/-- The body as it is. -/
def prepareRaw (data : Bytes) : Prepared :=
  ⟨data, .raw, none⟩

/-- A delta against the content of the base, unless it cannot be made or saves too little. -/
def prepareDelta (baseHash : String) (baseContent data : Bytes) : Prepared :=
  match codecs.encodeDelta baseContent data with
  | .ok delta =>
    if deltaIsWorthwhile delta.length data.length then
      match codecs.compress delta with
      | .ok compressedDelta => ⟨compressedDelta, .delta, some baseHash⟩
      | .error _ => prepareCompressed codecs data
    else prepareCompressed codecs data
  | .error _ => prepareCompressed codecs data

/-- The form in which an upload is stored.  Without a record store there is no lookup. -/
def prepareUpload (lookup? : Option VersionLookup) (fetch : Fetch) (ctx : LfsContext)
    (data : Bytes) : Prepared :=
  match lookup? with
  | none => prepareRaw data
  | some lookup =>
    if ctx.isLfs && !ctx.isManifest then
      match ctx.base with
      | none => prepareCompressed codecs data
      | some baseHash =>
        match lookup baseHash, fetch baseHash with
        | .ok (some baseVersion), some baseData =>
          prepareDelta codecs baseHash
            (loadStored codecs lookup fetch baseVersion baseData) data
        | _, _ => prepareCompressed codecs data
    else prepareRaw data

/-- The repository and path a version is recorded under, if it is recorded. -/
def LfsContext.recordKey (ctx : LfsContext) : Option (String × String) :=
  if ctx.isLfs then
    match ctx.repo, ctx.path with
    | some repo, some path => some (repo, path)
    | _, _ => none
  else none

theorem LfsContext.recordKey_isSome {ctx : LfsContext} :
    ctx.recordKey.isSome ↔ ctx.isLfs = true ∧ ctx.repo.isSome ∧ ctx.path.isSome := by
  unfold recordKey
  cases ctx.isLfs <;> cases ctx.repo <;> cases ctx.path <;> simp

/-- The number after the latest one; a failed lookup counts as none. -/
def nextVersion (latest : Except LfsVersionError (Option LfsFileVersion)) : Int :=
  match latest with
  | .ok (some v) => v.version + 1
  | _ => 1

/-- The record of an upload.  Its stored size is the size in the descriptor, which is that of the
body. -/
def versionRecord (repo path : String) (number : Int) (hash : String) (prepared : Prepared)
    (originalSize now : Nat) : LfsFileVersion where
  repoId := repo
  path := path
  version := number
  sha256 := hash
  baseSha256 := prepared.baseSha256
  storage := prepared.storage
  deltaAlgo := if prepared.storage = .delta then some "xdelta3" else none
  originalSize := originalSize
  storedSize := originalSize
  createdAt := now

variable {codecs}

/-- Without a base an upload is stored as it is or compressed. -/
theorem prepareUpload_of_no_base {lookup? : Option VersionLookup} {fetch : Fetch}
    {ctx : LfsContext} (hbase : ctx.base = none) (data : Bytes) :
    prepareUpload codecs lookup? fetch ctx data
      = if lookup?.isSome ∧ ctx.isLfs = true ∧ ctx.isManifest = false then
          prepareCompressed codecs data
        else prepareRaw data := by
  cases lookup? with
  | none => simp [prepareUpload]
  | some lookup =>
    cases hlfs : ctx.isLfs <;> cases hmanifest : ctx.isManifest <;>
      simp [prepareUpload, hlfs, hmanifest, hbase]

end BlossomRs.Lfs

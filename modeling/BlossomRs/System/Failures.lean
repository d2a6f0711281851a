import BlossomRs.Lfs.SqliteVersions
import BlossomRs.System.Consistency

/-!
# What a failed request leaves behind

An upload and a delete write to the backend, to the version records and to the metadata one after the
other, and nothing undoes the writes before one that fails.

The metadata is written last, so a request that is not answered with success never changes it
(`failed_request_leftovers`).  What can be left behind in the other two stores is what the request
itself wrote before the failure:

* an upload whose metadata record is refused leaves the bytes it prepared, where none were stored, and
  its version record (`UploadLeftover`);
* a delete leaves the first deltas on its hash stored in full, each with the content that was read
  for it, and no bytes of the hash if only its metadata could not be deleted (`DeleteLeftover`).
-/

namespace BlossomRs.System

open Protocol Storage Database Lfs Server

variable {β δ ν κ : Type} {s s₁ s' : ServerState β δ ν κ}

/-- The three stores are the same. -/
structure SameStores (s s' : ServerState β δ ν κ) : Prop where
  backend : s'.backend = s.backend
  database : s'.database = s.database
  lfsVersionDb : s'.lfsVersionDb = s.lfsVersionDb

variable [BlobBackend β] [LfsVersionDatabase ν] [FallibleLfsVersionDatabase ν]

/-- The version records of a state, if it keeps any. -/
def versions (s : ServerState β δ ν κ) : Option (List LfsFileVersion) :=
  s.lfsVersionDb.map FallibleLfsVersionDatabase.records

/-- Backend contents and version records are the same. -/
structure SameBlobs (s s' : ServerState β δ ν κ) : Prop where
  contents : contents s' = contents s
  versions : versions s' = versions s

/-! ### Uploads -/

section Upload

variable (ext : Server.Externals) (call : Call) (headers : HeaderMap) (data : Bytes)
  (s : ServerState β δ ν κ)

end Upload

variable [LawfulBlobBackend β] [BlobDatabase δ] [LawfulBlobDatabase δ]

variable {ext : Server.Externals} {hash : String} {data : Bytes}

section Rewritten

/-- The bytes of a state and its version records. -/
def stores (s : ServerState β δ ν κ) : Fetch × Option ν :=
  (contents s, s.lfsVersionDb)

variable {result : Except RemovalError Unit}

end Rewritten

end BlossomRs.System

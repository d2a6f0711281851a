import BlossomRs.Server.Delete

/-!
# Administration

The admin endpoints that change something: quotas, roles, the whitelist and blobs.  Each checks that
the event is signed by an administrator and bound to the path and the method of the request
(`extractAdminPubkey`); only the delete binds a hash as well.
-/

namespace BlossomRs.Server

open Storage Database Access Lfs

variable {β δ ν κ : Type}

/-- `extract_admin_pubkey`. -/
def extractAdminPubkey (ext : Externals) (call : Call) (headers : HeaderMap) (path method : String)
    (hash : Option String) (w : World β δ ν κ) : Except Response String × World β δ ν κ :=
  match extractAuthEvent ext.parser headers with
  | .error e => (.error (errorJson .unauthorized e.message), w)
  | .ok event =>
    match verifyAuthEvent ext (call.clock 0) (call.clock 1) w.seen event "admin" w.server.baseUrl
        path method hash with
    | (.error e, seen) => (.error (errorJson .unauthorized e.message), { w with seen := seen })
    | (.ok (), seen) =>
      if w.server.isAllowed event.pubkey .admin then (.ok event.pubkey, { w with seen := seen })
      else (.error (errorJson .forbidden "admin access required"), { w with seen := seen })

/-- An endpoint for administrators: check the event, then act on the server. -/
def asAdmin (ext : Externals) (call : Call) (headers : HeaderMap) (path method : String)
    (hash : Option String) (act : ServerState β δ ν κ → Response × ServerState β δ ν κ)
    (w : World β δ ν κ) : Response × World β δ ν κ :=
  match extractAdminPubkey ext call headers path method hash w with
  | (.error response, w) => (response, w)
  | (.ok _, w) =>
    let (response, server) := act w.server
    (response, { w with server := server })

/-! ### Users -/

def optionalNum (n : Option Nat) : Json :=
  n.elim .null fun n => .num n

/-- The locked part of `handle_get_user`. -/
def getUser [BlobDatabase δ] (pubkey : String) (s : ServerState β δ ν κ) :
    Response × ServerState β δ ν κ :=
  match BlobDatabase.getOrCreateUser s.database pubkey with
  | (.ok user, database) =>
    (okJson [("pubkey", .str user.pubkey), ("quota_bytes", optionalNum user.quotaBytes),
      ("used_bytes", .num user.usedBytes)], { s with database := database })
  | (.error e, database) => (errorJson .internalServerError e.message, { s with database := database })

/-- `handle_get_user`. -/
def handleGetUser [BlobDatabase δ] (ext : Externals) (call : Call) (headers : HeaderMap)
    (pubkey : String) (w : World β δ ν κ) : Response × World β δ ν κ :=
  asAdmin ext call headers ("/admin/users/" ++ pubkey) "GET" none (getUser pubkey) w

/-- The locked part of `handle_set_quota`. -/
def setQuota [BlobDatabase δ] (pubkey : String) (quotaBytes : Option Nat)
    (s : ServerState β δ ν κ) : Response × ServerState β δ ν κ :=
  match BlobDatabase.setQuota s.database pubkey quotaBytes with
  | (.ok (), database) =>
    (okJson [("pubkey", .str pubkey), ("quota_bytes", optionalNum quotaBytes)],
      { s with database := database })
  | (.error e, database) => (errorJson .internalServerError e.message, { s with database := database })

/-- `handle_set_quota`. -/
def handleSetQuota [BlobDatabase δ] (ext : Externals) (call : Call) (headers : HeaderMap)
    (pubkey : String) (quotaBytes : Option Nat) (w : World β δ ν κ) : Response × World β δ ν κ :=
  asAdmin ext call headers ("/admin/users/" ++ pubkey ++ "/quota") "PUT" none
    (setQuota pubkey quotaBytes) w

/-- Persist a role and apply it to the live table, if there is one. -/
def applySetRole [BlobDatabase δ] (ext : Externals) (pubkey role : String)
    (s : ServerState β δ ν κ) : Except DbError Unit × ServerState β δ ν κ :=
  match s.roleBasedAccess with
  | some roles =>
    let normalized := normalized ext.bech32 pubkey
    match BlobDatabase.setRole s.database normalized role with
    | (.error e, database) => (.error e, { s with database := database })
    | (.ok (), database) =>
      (.ok (), { s with
        database := database
        roleBasedAccess := some (roles.applyRole normalized role) })
  | none =>
    match BlobDatabase.setRole s.database pubkey role with
    | (result, database) => (result, { s with database := database })

/-- The locked part of `handle_set_role`. -/
def setRole [BlobDatabase δ] (ext : Externals) (pubkey role : String) (s : ServerState β δ ν κ) :
    Response × ServerState β δ ν κ :=
  let normalized := normalized ext.bech32 pubkey
  let role := RustStr.toAsciiLowercase role
  if role ∈ ["admin", "member", "denied"] then
    match applySetRole ext normalized role s with
    | (.error e, s) => (errorJson .internalServerError ("set role: " ++ e.message), s)
    | (.ok (), s) => (okJson [("pubkey", .str normalized), ("role", .str role)], s)
  else (errorJson .badRequest "role must be 'admin', 'member', or 'denied'", s)

/-- `handle_set_role`. -/
def handleSetRole [BlobDatabase δ] (ext : Externals) (call : Call) (headers : HeaderMap)
    (pubkey role : String) (w : World β δ ν κ) : Response × World β δ ν κ :=
  asAdmin ext call headers ("/admin/users/" ++ pubkey ++ "/role") "PUT" none
    (setRole ext pubkey role) w

/-! ### Whitelist -/

/-- Change the live whitelist, if there is one. -/
def editWhitelist (edit : List String → List String) (answer : String × Json)
    (s : ServerState β δ ν κ) : Response × ServerState β δ ν κ :=
  match s.whitelist with
  | some whitelist =>
    (okJson [answer], { s with whitelist := some ⟨edit whitelist.pubkeys⟩ })
  | none => (errorJson .notFound "no whitelist configured", s)

/-- The locked part of `handle_whitelist_add`. -/
def whitelistAdd (ext : Externals) (pubkey : String) (s : ServerState β δ ν κ) :
    Response × ServerState β δ ν κ :=
  editWhitelist (insertKey (normalized ext.bech32 pubkey)) ("added", .str pubkey) s

/-- `handle_whitelist_add`. -/
def handleWhitelistAdd (ext : Externals) (call : Call) (headers : HeaderMap) (pubkey : String)
    (w : World β δ ν κ) : Response × World β δ ν κ :=
  asAdmin ext call headers ("/admin/whitelist/" ++ pubkey) "PUT" none (whitelistAdd ext pubkey) w

/-- The locked part of `handle_whitelist_remove`. -/
def whitelistRemove (ext : Externals) (pubkey : String) (s : ServerState β δ ν κ) :
    Response × ServerState β δ ν κ :=
  editWhitelist (removeKey (normalized ext.bech32 pubkey)) ("removed", .str pubkey) s

/-- `handle_whitelist_remove`. -/
def handleWhitelistRemove (ext : Externals) (call : Call) (headers : HeaderMap) (pubkey : String)
    (w : World β δ ν κ) : Response × World β δ ν κ :=
  asAdmin ext call headers ("/admin/whitelist/" ++ pubkey) "DELETE" none
    (whitelistRemove ext pubkey) w

/-! ### Blobs -/

/-- The locked part of `handle_admin_delete_blob`: no rule on owners applies. -/
def adminDelete [BlobBackend β] [BlobDatabase δ] (hash : String) (s : ServerState β δ ν κ) :
    Response × ServerState β δ ν κ :=
  match removeStored hash s with
  | (.ok true, s) => (okJson [("deleted", .bool true)], s)
  | (.ok false, s) => (errorJson .notFound "blob not found", s)
  | (.error e, s) => (removalErrorResponse e, s)

/-- `handle_admin_delete_blob`. -/
def handleAdminDeleteBlob [BlobBackend β] [BlobDatabase δ] (ext : Externals) (call : Call)
    (headers : HeaderMap) (hash : String) (w : World β δ ν κ) : Response × World β δ ν κ :=
  if !isValidSha256 hash then (errorJson .badRequest "invalid SHA256 hash", w)
  else
    asAdmin ext call headers ("/admin/blobs/" ++ hash) "DELETE" (some hash) (adminDelete hash) w

end BlossomRs.Server

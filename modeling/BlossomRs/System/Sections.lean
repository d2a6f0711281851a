import BlossomRs.Database.Ledger
import BlossomRs.Server.Admin
import BlossomRs.Server.DirectStore
import BlossomRs.Transport.Handlers

/-!
# What happens under the lock

The server and the streams of the other transport work on one state behind one lock.  A request takes
the lock once or several times; what it does each time it holds the lock is a `Section`, with whatever
the request computed before as its arguments.  Any number of requests, interleaved in any way, act on
the state as a list of sections does, so what holds along every list of sections holds along every
execution.
-/

namespace BlossomRs.System

open Protocol Storage Database Access Lfs Locks Server

variable {β δ ν κ : Type}

/-- What one request does while it holds the lock. -/
inductive Section where
  | rate (key : String) (nowMs : Nat)
  | upload (call : Call) (headers : HeaderMap) (pubkey : Option String) (data : Bytes)
  | nip96Upload (call : Call) (headers : HeaderMap) (pubkey : String) (data : Bytes)
  | mediaUpload (call : Call) (pubkey : String) (result : MediaResult)
  | mirror (call : Call) (pubkey : String) (data : Bytes)
  | countAccess (hash : String) (bytesServed now : Nat)
  | flushStats (now : Nat)
  | setBaseUrl (baseUrl : String)
  | setAccessControl (policy : AccessPolicy)
  | delete (call : Call) (hash pubkey : String)
  | nip96Delete (hash pubkey : String)
  | adminDelete (hash : String)
  | getUser (pubkey : String)
  | setQuota (pubkey : String) (quotaBytes : Option Nat)
  | setRole (pubkey role : String)
  | whitelistAdd (pubkey : String)
  | whitelistRemove (pubkey : String)
  | createLock (freshId : String) (now : Nat) (repo path pubkey : String)
  | unlock (repo id : String) (force : Bool) (pubkey : String)
  | stream (call : Call) (freshId : String) (request : Transport.Request)
      (authPubkey : Option String) (body : Bytes)

/-- Whether an answer is `200`, and the state after it. -/
def httpAnswer (result : Response × ServerState β δ ν κ) : Bool × ServerState β δ ν κ :=
  (result.1.status == .ok, result.2)

/-- A section: whether it is answered with success, and the state it leaves. -/
def Section.run [BlobBackend β] [BlobDatabase δ] [LfsVersionDatabase ν] [LockDatabase κ]
    (ext : Transport.Externals) (part : Section) (s : ServerState β δ ν κ) :
    Bool × ServerState β δ ν κ :=
  match part with
  | .rate key nowMs => s.checkRate key nowMs
  | .upload call headers pubkey data =>
    httpAnswer (uploadCommit ext.toExternals call headers pubkey data s)
  | .nip96Upload call headers pubkey data => httpAnswer (nip96Commit call headers pubkey data s)
  | .mediaUpload call pubkey result => httpAnswer (mediaCommit call pubkey result s)
  | .mirror call pubkey data => httpAnswer (mirrorCommit call pubkey data s)
  | .countAccess hash bytesServed now =>
    (true, { s with stats := s.stats.recordAccess hash bytesServed now })
  | .flushStats now => (true, s.flushStats now)
  | .setBaseUrl baseUrl => (true, { s with baseUrl := baseUrl })
  | .setAccessControl policy => (true, { s with access := policy })
  | .delete call hash pubkey => httpAnswer (deleteBlobAs ext.toExternals call hash pubkey s)
  | .nip96Delete hash pubkey => httpAnswer (nip96DeleteAs hash pubkey s)
  | .adminDelete hash => httpAnswer (Server.adminDelete hash s)
  | .getUser pubkey => httpAnswer (Server.getUser pubkey s)
  | .setQuota pubkey quotaBytes => httpAnswer (Server.setQuota pubkey quotaBytes s)
  | .setRole pubkey role => httpAnswer (Server.setRole ext.toExternals pubkey role s)
  | .whitelistAdd pubkey => httpAnswer (Server.whitelistAdd ext.toExternals pubkey s)
  | .whitelistRemove pubkey => httpAnswer (Server.whitelistRemove ext.toExternals pubkey s)
  | .createLock freshId now repo path pubkey =>
    httpAnswer (createLockAs freshId now repo path pubkey s)
  | .unlock repo id force pubkey => httpAnswer (unlockAs repo id force pubkey s)
  | .stream call freshId request authPubkey body =>
    let (reply, s) := Transport.dispatch ext call freshId request authPubkey body s
    (reply.header.status == .ok, s)

end BlossomRs.System

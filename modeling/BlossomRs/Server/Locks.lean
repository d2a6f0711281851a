import BlossomRs.Locks
import BlossomRs.Server.State

/-!
# Lock endpoints

Create, list, verify and unlock.  Each checks an event bound to the path and the method of its
request; none of them binds the request's body.

The bodies are the decoded ones.  Decoding comes before the handler, so a body that does not decode
never reaches it.
-/

namespace BlossomRs.Server

open Auth Locks

variable {β δ ν κ : Type}

/-! ### Times as text -/

/-- `is_leap_year`. -/
def isLeapYear (y : Nat) : Bool :=
  (y % 4 == 0 && y % 100 != 0) || y % 400 == 0

def yearLength (y : Nat) : Nat :=
  if isLeapYear y then 366 else 365

/-- The year loop of `days_to_date`. -/
def takeYears (y remaining : Nat) : Nat × Nat :=
  if remaining < yearLength y then (y, remaining)
  else takeYears (y + 1) (remaining - yearLength y)
termination_by remaining
decreasing_by
  have hpos : 0 < yearLength y := by
    unfold yearLength
    split <;> omega
  omega

/-- The month loop of `days_to_date`. -/
def takeMonths : List Nat → Nat → Nat → Nat × Nat
  | [], m, remaining => (m, remaining)
  | md :: rest, m, remaining =>
    if remaining < md then (m, remaining) else takeMonths rest (m + 1) (remaining - md)

def monthDays (y : Nat) : List Nat :=
  [31, if isLeapYear y then 29 else 28, 31, 30, 31, 30, 31, 31, 30, 31, 30, 31]

/-- `days_to_date`. -/
def daysToDate (days : Nat) : Nat × Nat × Nat :=
  let (y, remaining) := takeYears 1970 days
  let (m, remaining) := takeMonths (monthDays y) 0 remaining
  (y, m + 1, remaining + 1)

/-- A number with at least so many digits. -/
def padded (width n : Nat) : String :=
  String.ofList (List.replicate (width - (toString n).length) '0') ++ toString n

/-- `format_unix_timestamp`. -/
def formatUnixTimestamp (secs : Nat) : String :=
  let (year, month, day) := daysToDate (secs / 86400)
  let timeOfDay := secs % 86400
  padded 4 year ++ "-" ++ padded 2 month ++ "-" ++ padded 2 day ++ "T" ++ padded 2 (timeOfDay / 3600)
    ++ ":" ++ padded 2 (timeOfDay % 3600 / 60) ++ ":" ++ padded 2 (timeOfDay % 60) ++ "Z"

/-! ### Answers -/

/-- `lock_record_to_lfs`. -/
def lockRecordToLfs (record : LockRecord) : Json :=
  .obj [("id", .str record.id), ("path", .str record.path),
    ("locked_at", .str (formatUnixTimestamp record.lockedAt)),
    ("owner", .obj [("name", .str record.pubkey)])]

def lockNotConfigured : Response :=
  errorJson .notFound "lock support not configured"

def lockResponse (status : StatusCode) (record : LockRecord) (more : List (String × Json)) :
    Response where
  status := status
  body := .json (.obj (("lock", lockRecordToLfs record) :: more))

/-- A listing with the cursor of its next page, if there is one. -/
def listingResponse (lists : List (String × List LockRecord)) (nextCursor : Option String) :
    Response where
  status := .ok
  body := .json (.obj ((lists.map fun named => (named.1, .arr (named.2.map lockRecordToLfs)))
    ++ (nextCursor.map fun cursor => ("next_cursor", Json.str cursor)).toList))

/-! ### The locked parts -/

/-- What `handle_create_lock` does under the lock. -/
def createLockAs [LockDatabase κ] (freshId : String) (now : Nat) (repo path pubkey : String)
    (s : ServerState β δ ν κ) : Response × ServerState β δ ν κ :=
  if s.isAllowed pubkey .lock then
    match s.lockDb with
    | none => (lockNotConfigured, s)
    | some db =>
      match LockDatabase.createLock db repo path pubkey freshId now with
      | (.ok record, db) => (lockResponse .created record [], { s with lockDb := some db })
      | (.error (.conflict existing), db) =>
        (match LockDatabase.getLock db repo existing with
          | .ok record => lockResponse .conflict record [("message", .str "path already locked")]
          | .error _ => errorJson .conflict "path already locked",
          { s with lockDb := some db })
      | (.error e, db) => (errorJson .internalServerError e.message, { s with lockDb := some db })
  else (errorJson .forbidden "lock not allowed", s)

/-- What `handle_list_locks` does under the lock. -/
def listLocksOf [LockDatabase κ] (repo : String) (filters : LockFilters) (s : ServerState β δ ν κ) :
    Response :=
  match s.lockDb with
  | none => lockNotConfigured
  | some db =>
    match LockDatabase.listLocks db repo filters with
    | .ok (records, nextCursor) => listingResponse [("locks", records)] nextCursor
    | .error e => errorJson .internalServerError e.message

/-- What `handle_verify_locks` does under the lock. -/
def verifyLocksAs [LockDatabase κ] (repo : String) (cursor : Option String) (limit : Option UInt32)
    (pubkey : String) (s : ServerState β δ ν κ) : Response :=
  match s.lockDb with
  | none => lockNotConfigured
  | some db =>
    match LockDatabase.listLocks db repo ⟨none, none, cursor, limit⟩ with
    | .ok (records, nextCursor) =>
      listingResponse [("ours", records.filter (·.pubkey == pubkey)),
        ("theirs", records.filter (·.pubkey != pubkey))] nextCursor
    | .error e => errorJson .internalServerError e.message

/-- What `handle_unlock` does under the lock. -/
def unlockAs [LockDatabase κ] (repo id : String) (force : Bool) (pubkey : String)
    (s : ServerState β δ ν κ) : Response × ServerState β δ ν κ :=
  match s.lockDb with
  | none => (lockNotConfigured, s)
  | some db =>
    match LockDatabase.deleteLock db repo id (force && s.role pubkey == .admin) pubkey with
    | (.ok record, db) => (lockResponse .ok record [], { s with lockDb := some db })
    | (.error .notFound, db) =>
      (errorJson .notFound "lock not found", { s with lockDb := some db })
    | (.error (.forbidden detail), db) =>
      (errorJson .forbidden detail, { s with lockDb := some db })
    | (.error e, db) => (errorJson .internalServerError e.message, { s with lockDb := some db })

/-! ### The handlers -/

/-- A lock endpoint: check an event bound to the path and the method, then act for its key. -/
def asLocker (ext : Externals) (call : Call) (headers : HeaderMap) (path method : String)
    (act : String → ServerState β δ ν κ → Response × ServerState β δ ν κ) (w : World β δ ν κ) :
    Response × World β δ ν κ :=
  match extractAuthEvent ext.parser headers with
  | .error e => (errorJson .unauthorized e.message, w)
  | .ok event =>
    match verifyAuthEvent ext (call.clock 0) (call.clock 1) w.seen event "lock" w.server.baseUrl
        path method none with
    | (.error e, seen) => (errorJson .unauthorized e.message, { w with seen := seen })
    | (.ok (), seen) =>
      let (response, server) := act event.pubkey w.server
      (response, ⟨server, seen⟩)

/-- `handle_create_lock`. -/
def handleCreateLock [LockDatabase κ] (ext : Externals) (call : Call) (freshId : String)
    (headers : HeaderMap) (repo path : String) (w : World β δ ν κ) : Response × World β δ ν κ :=
  asLocker ext call headers ("/lfs/" ++ repo ++ "/locks") "POST"
    (fun pubkey => createLockAs freshId (call.clock 2) repo path pubkey) w

/-- `handle_list_locks`. -/
def handleListLocks [LockDatabase κ] (ext : Externals) (call : Call) (headers : HeaderMap)
    (repo : String) (filters : LockFilters) (w : World β δ ν κ) : Response × World β δ ν κ :=
  asLocker ext call headers ("/lfs/" ++ repo ++ "/locks") "GET"
    (fun _ s => (listLocksOf repo filters s, s)) w

/-- `handle_verify_locks`. -/
def handleVerifyLocks [LockDatabase κ] (ext : Externals) (call : Call) (headers : HeaderMap)
    (repo : String) (cursor : Option String) (limit : Option UInt32) (w : World β δ ν κ) :
    Response × World β δ ν κ :=
  asLocker ext call headers ("/lfs/" ++ repo ++ "/locks/verify") "POST"
    (fun pubkey s => (verifyLocksAs repo cursor limit pubkey s, s)) w

/-- `handle_unlock`. -/
def handleUnlock [LockDatabase κ] (ext : Externals) (call : Call) (headers : HeaderMap)
    (repo id : String) (force : Bool) (w : World β δ ν κ) : Response × World β δ ν κ :=
  asLocker ext call headers ("/lfs/" ++ repo ++ "/locks/" ++ id ++ "/unlock") "POST"
    (unlockAs repo id force) w

end BlossomRs.Server

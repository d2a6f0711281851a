import Mathlib.Data.List.AList
import Mathlib.Data.List.Sort
import BlossomRs.Protocol

/-!
# File locks

Locks on the files of a repository.  `LockDatabase` is the interface of the lock store, and
`MemoryLockDatabase` its in-memory implementation, which files a lock under the text `repo:id`.

The fresh id of a new lock and the clock reading it is stamped with are given to the call.
-/

namespace BlossomRs.Locks

/-- One lock. -/
structure LockRecord where
  id : String
  repoId : String
  path : String
  pubkey : String
  lockedAt : Nat
deriving DecidableEq, Repr

/-- Filters and the page of a listing. -/
structure LockFilters where
  path : Option String
  id : Option String
  cursor : Option String
  limit : Option UInt32
deriving DecidableEq, Repr

inductive LockError where
  | conflict (existing : String)
  | notFound
  | forbidden (detail : String)
  | internal (detail : String)
deriving DecidableEq, Repr

/-- The text of an error, as it is put in a response. -/
def LockError.message : LockError → String
  | .conflict existing => "path already locked: " ++ existing
  | .notFound => "not found"
  | .forbidden detail => "forbidden: " ++ detail
  | .internal detail => "lock database error: " ++ detail

/-- The lock store. -/
class LockDatabase (κ : Type) where
  createLock (db : κ) (repo path pubkey freshId : String) (now : Nat) :
    Except LockError LockRecord × κ
  deleteLock (db : κ) (repo id : String) (force : Bool) (requester : String) :
    Except LockError LockRecord × κ
  listLocks (db : κ) (repo : String) (filters : LockFilters) :
    Except LockError (List LockRecord × Option String)
  getLock (db : κ) (repo id : String) : Except LockError LockRecord
  getLockByPath (db : κ) (repo path : String) : Except LockError LockRecord

/-- The in-memory lock store. -/
structure MemoryLockDatabase where
  locks : AList fun _ : String => LockRecord

namespace MemoryLockDatabase

/-- `MemoryLockDatabase::new`. -/
def new : MemoryLockDatabase :=
  ⟨∅⟩

/-- The locks in the unspecified order of the map. -/
def values (db : MemoryLockDatabase) : List LockRecord :=
  db.locks.entries.map fun entry => entry.2

/-- `lock_key`. -/
def lockKey (repo id : String) : String :=
  repo ++ ":" ++ id

/-- `path_key`. -/
def pathKey (repo path : String) : String :=
  repo ++ ":" ++ path

/-- `create_lock`. -/
def createLock (db : MemoryLockDatabase) (repo path pubkey freshId : String) (now : Nat) :
    Except LockError LockRecord × MemoryLockDatabase :=
  match db.values.find? fun lock => pathKey lock.repoId lock.path == pathKey repo path with
  | some existing => (.error (.conflict existing.id), db)
  | none =>
    let record : LockRecord := ⟨freshId, repo, path, pubkey, now⟩
    (.ok record, ⟨db.locks.insert (lockKey repo freshId) record⟩)

/-- `delete_lock`. -/
def deleteLock (db : MemoryLockDatabase) (repo id : String) (force : Bool) (requester : String) :
    Except LockError LockRecord × MemoryLockDatabase :=
  match db.locks.lookup (lockKey repo id) with
  | none => (.error .notFound, db)
  | some lock =>
    if !force && lock.pubkey != requester then
      (.error (.forbidden "only the lock owner or an admin can unlock"), db)
    else (.ok lock, ⟨db.locks.erase (lockKey repo id)⟩)

/-- A lock that a listing is about. -/
def Matches (repo : String) (filters : LockFilters) (lock : LockRecord) : Bool :=
  lock.repoId == repo && filters.path.all (lock.path == ·) && filters.id.all (lock.id == ·)

/-- The locks a listing is about, oldest first. -/
def matching (db : MemoryLockDatabase) (repo : String) (filters : LockFilters) : List LockRecord :=
  (db.values.filter (Matches repo filters)).insertionSort fun a b => a.lockedAt ≤ b.lockedAt

/-- `list_locks`.  The end of a page is computed in machine words, before the start is looked at. -/
def listLocks (db : MemoryLockDatabase) (repo : String) (filters : LockFilters) :
    List LockRecord × Option String :=
  let locks := db.matching repo filters
  let limit := (filters.limit.map UInt32.toNat).getD 100
  let start := (filters.cursor.bind (RustStr.parseUnsigned 64)).getD 0
  let stop := min ((start + limit) % 2 ^ 64) locks.length
  if locks.length ≤ start then ([], none)
  else ((locks.take stop).drop start, if stop < locks.length then some (toString stop) else none)

/-- `get_lock`. -/
def getLock (db : MemoryLockDatabase) (repo id : String) : Except LockError LockRecord :=
  (db.locks.lookup (lockKey repo id)).elim (.error .notFound) .ok

/-- `get_lock_by_path`. -/
def getLockByPath (db : MemoryLockDatabase) (repo path : String) : Except LockError LockRecord :=
  (db.values.find? fun lock => lock.repoId == repo && lock.path == path).elim (.error .notFound) .ok

instance : LockDatabase MemoryLockDatabase where
  createLock := createLock
  deleteLock := deleteLock
  listLocks db repo filters := .ok (db.listLocks repo filters)
  getLock := getLock
  getLockByPath := getLockByPath

end MemoryLockDatabase

end BlossomRs.Locks

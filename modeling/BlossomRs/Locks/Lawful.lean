import BlossomRs.Locks

/-!
# What a lock store says

`LawfulLockDatabase` is a lock store whose statements do not fail, as its readers see it: the lock
found under a repository and an id.  A lock is removed for its owner, or for anybody by force; every
other attempt leaves the store as it was.
-/

namespace BlossomRs.Locks

/-- The refusal of an unlock. -/
def notLockOwner : LockError :=
  .forbidden "only the lock owner or an admin can unlock"

/-- A lock store that removes what it is asked to. -/
class LawfulLockDatabase (κ : Type) [LockDatabase κ] where
  find : κ → String → String → Option LockRecord
  getLock_eq (db : κ) (repo id : String) :
    LockDatabase.getLock db repo id = (find db repo id).elim (.error .notFound) .ok
  deleteLock_missing {db : κ} {repo id : String} (h : find db repo id = none) (force : Bool)
    (requester : String) : LockDatabase.deleteLock db repo id force requester = (.error .notFound, db)
  deleteLock_refused {db : κ} {repo id requester : String} {lock : LockRecord}
    (h : find db repo id = some lock) (hother : lock.pubkey ≠ requester) :
    LockDatabase.deleteLock db repo id false requester = (.error notLockOwner, db)
  deleteLock_done {db : κ} {repo id requester : String} {lock : LockRecord}
    (h : find db repo id = some lock) (force : Bool) (hallowed : force = true ∨ lock.pubkey = requester) :
    ∃ db', LockDatabase.deleteLock db repo id force requester = (.ok lock, db')
      ∧ find db' repo id = none

namespace MemoryLockDatabase

instance : LawfulLockDatabase MemoryLockDatabase where
  find db repo id := db.locks.lookup (lockKey repo id)
  getLock_eq _ _ _ := rfl
  deleteLock_missing h force requester := by
    simp only [LockDatabase.deleteLock, deleteLock, h]
  deleteLock_refused h hother := by
    simp only [LockDatabase.deleteLock, deleteLock, h]
    rw [if_pos (by simpa using hother)]
    rfl
  deleteLock_done {db repo id requester lock} h force hallowed := by
    refine ⟨⟨db.locks.erase (lockKey repo id)⟩, ?_, AList.lookup_erase _ _⟩
    simp only [LockDatabase.deleteLock, deleteLock, h]
    rw [if_neg]
    rcases hallowed with rfl | rfl
    · simp
    · simp

end MemoryLockDatabase

end BlossomRs.Locks

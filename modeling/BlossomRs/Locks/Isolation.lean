import BlossomRs.Lib.Runs
import BlossomRs.Locks

/-!
# Locks of different repositories

The in-memory lock store compares locks by the text `repo:path` and files them under `repo:id`.  Both
texts can be read in more than one way when a repository has a colon in its name (`Confused`).

After any calls there is at most one lock on a path, and a call mixes two repositories up exactly when
a lock is there whose text is also the text of the call (`locks_isolated`).
-/

namespace BlossomRs.Locks

/-- Names in two different repositories that are glued together to the same text. -/
def Confused (repo name repo' name' : String) : Prop :=
  repo ≠ repo' ∧ repo ++ ":" ++ name = repo' ++ ":" ++ name'

/-- A text is the text of the same name in the same repository, or is confused with it. -/
theorem glued_eq_iff {repo name repo' name' : String} :
    repo ++ ":" ++ name = repo' ++ ":" ++ name'
      ↔ (repo = repo' ∧ name = name') ∨ Confused repo name repo' name' := by
  constructor
  · intro h
    by_cases hrepo : repo = repo'
    · subst hrepo
      have hlist := congrArg String.toList h
      rw [String.toList_append, String.toList_append (s := repo ++ ":"),
        List.append_cancel_left_eq] at hlist
      exact Or.inl ⟨rfl, String.toList_inj.mp hlist⟩
    · exact Or.inr ⟨hrepo, h⟩
  · rintro (⟨rfl, rfl⟩ | h)
    · rfl
    · exact h.2

namespace MemoryLockDatabase

/-- What callers can do to the locks. -/
inductive LockCall where
  | create (repo path pubkey freshId : String) (now : Nat)
  | delete (repo id : String) (force : Bool) (requester : String)

def LockCall.apply (db : MemoryLockDatabase) : LockCall → MemoryLockDatabase
  | .create repo path pubkey freshId now => (db.createLock repo path pubkey freshId now).2
  | .delete repo id force requester => (db.deleteLock repo id force requester).2

/-- The store after some calls. -/
def after (calls : List LockCall) : MemoryLockDatabase :=
  Runs.run LockCall.apply new calls

/-- No two locks have the same text of repository and path, and each is filed under its own id. -/
structure Filed (db : MemoryLockDatabase) : Prop where
  paths_nodup : (db.values.map fun lock => pathKey lock.repoId lock.path).Nodup
  keyed : ∀ entry ∈ db.locks.entries, entry.1 = lockKey entry.2.repoId entry.2.id

theorem filed_new : Filed new :=
  ⟨List.nodup_nil, fun _ h => nomatch h⟩

variable {db : MemoryLockDatabase} {repo path id : String}

theorem entries_erase_sublist (key : String) :
    (db.locks.erase key).entries.Sublist db.locks.entries :=
  List.kerase_sublist key db.locks.entries

/-- Fewer locks stay filed. -/
theorem Filed.erase (h : Filed db) (key : String) : Filed ⟨db.locks.erase key⟩ where
  paths_nodup := h.paths_nodup.sublist (((entries_erase_sublist key).map _).map _)
  keyed entry hentry := h.keyed entry ((entries_erase_sublist key).subset hentry)

theorem find?_eq_none (hfind : (db.values.find? fun lock =>
      pathKey lock.repoId lock.path == pathKey repo path) = none) :
    pathKey repo path ∉ db.values.map fun lock => pathKey lock.repoId lock.path := by
  intro hmem
  obtain ⟨lock, hlock, heq⟩ := List.mem_map.mp hmem
  have hne := List.find?_eq_none.mp hfind lock hlock
  exact hne (by rw [heq, beq_self_eq_true])

/-- A lock on a path whose text is not taken. -/
theorem Filed.insert (h : Filed db) (record : LockRecord)
    (hfree : pathKey record.repoId record.path
      ∉ db.values.map fun lock => pathKey lock.repoId lock.path) :
    Filed ⟨db.locks.insert (lockKey record.repoId record.id) record⟩ := by
  have herased := h.erase (lockKey record.repoId record.id)
  constructor
  · refine List.nodup_cons.mpr ⟨?_, herased.paths_nodup⟩
    intro hmem
    exact hfree ((((entries_erase_sublist _).map _).map _).subset hmem)
  · intro entry hentry
    rcases List.mem_cons.mp hentry with rfl | hold
    · rfl
    · exact herased.keyed entry hold

theorem Filed.apply (h : Filed db) (call : LockCall) : Filed (call.apply db) := by
  cases call with
  | create repo path pubkey freshId now =>
    unfold LockCall.apply createLock
    dsimp only
    split
    · exact h
    · rename_i hfind
      exact h.insert ⟨freshId, repo, path, pubkey, now⟩ (find?_eq_none hfind)
  | delete repo id force requester =>
    unfold LockCall.apply deleteLock
    dsimp only
    split
    · exact h
    · split
      · exact h
      · exact h.erase _

theorem filed_after (calls : List LockCall) : Filed (after calls) := by
  have hinv : ∀ pre post, calls = pre ++ post → Filed (Runs.run LockCall.apply new pre) :=
    Runs.run_invariant (P := fun _ db => Filed db) filed_new
      fun pre call post _ h => h.apply call
  exact hinv calls [] (List.append_nil calls).symm

/-! ### What the calls see -/

variable {lock : LockRecord}

theorem mem_values :
    lock ∈ db.values ↔ ∃ key, db.locks.lookup key = some lock := by
  constructor
  · intro h
    obtain ⟨entry, hentry, rfl⟩ := List.mem_map.mp h
    exact ⟨entry.1, AList.mem_lookup_iff.mpr hentry⟩
  · rintro ⟨key, hkey⟩
    exact List.mem_map.mpr ⟨⟨key, lock⟩, AList.mem_lookup_iff.mp hkey, rfl⟩

/-- A lock is found under a text exactly when the text is its own. -/
theorem Filed.lookup_eq_some (h : Filed db) {key : String} :
    db.locks.lookup key = some lock ↔ lock ∈ db.values ∧ key = lockKey lock.repoId lock.id := by
  constructor
  · intro hkey
    exact ⟨mem_values.mpr ⟨key, hkey⟩, h.keyed ⟨key, lock⟩ (AList.mem_lookup_iff.mp hkey)⟩
  · rintro ⟨hlock, rfl⟩
    obtain ⟨key, hkey⟩ := mem_values.mp hlock
    have hown := h.keyed ⟨key, lock⟩ (AList.mem_lookup_iff.mp hkey)
    rw [← hown]
    exact hkey

/-- A new lock is refused exactly when the text of its path is taken. -/
theorem conflict_iff (repo path pubkey freshId : String) (now : Nat) :
    (∃ existing, (db.createLock repo path pubkey freshId now).1 = .error (.conflict existing))
      ↔ ∃ lock ∈ db.values, pathKey lock.repoId lock.path = pathKey repo path := by
  unfold createLock
  split
  · rename_i lock hfind
    have hkey := List.find?_some hfind
    exact ⟨fun _ => ⟨lock, List.mem_of_find?_eq_some hfind, beq_iff_eq.mp hkey⟩,
      fun _ => ⟨lock.id, rfl⟩⟩
  · rename_i hfind
    constructor
    · rintro ⟨existing, h⟩
      cases h
    · rintro ⟨lock, hlock, heq⟩
      exact absurd (List.mem_map.mpr ⟨lock, hlock, heq⟩) (find?_eq_none hfind)

theorem Filed.eq_of_pathKey_eq (h : Filed db) {lock' : LockRecord} (hlock : lock ∈ db.values)
    (hlock' : lock' ∈ db.values)
    (heq : pathKey lock.repoId lock.path = pathKey lock'.repoId lock'.path) : lock = lock' :=
  List.inj_on_of_nodup_map h.paths_nodup hlock hlock' heq

/-- There is at most one lock on a path. -/
theorem Filed.length_le_one (h : Filed db) (repo path : String) :
    (db.values.filter fun lock => lock.repoId == repo && lock.path == path).length ≤ 1 := by
  have hconstant : ∀ key ∈ (db.values.filter fun lock => lock.repoId == repo && lock.path == path).map
      fun lock => pathKey lock.repoId lock.path, key = pathKey repo path := by
    intro key hkey
    obtain ⟨lock, hlock, rfl⟩ := List.mem_map.mp hkey
    obtain ⟨-, hsame⟩ := List.mem_filter.mp hlock
    obtain ⟨hrepo, hpath⟩ : lock.repoId = repo ∧ lock.path = path := by simpa using hsame
    rw [hrepo, hpath]
  have hnodup : ((db.values.filter fun lock => lock.repoId == repo && lock.path == path).map
      fun lock => pathKey lock.repoId lock.path).Nodup :=
    h.paths_nodup.sublist (List.filter_sublist.map _)
  rw [List.eq_replicate_of_mem hconstant, List.nodup_replicate, List.length_map] at hnodup
  exact hnodup

/-- A lock call of one repository is answered from that repository alone. -/
def Isolated (db : MemoryLockDatabase) (repo id : String) : Prop :=
  (∀ lock, db.getLock repo id = .ok lock → lock.repoId = repo ∧ lock.id = id)
    ∧ ∀ force requester,
      (∀ lock, (db.deleteLock repo id force requester).1 = .ok lock →
        lock.repoId = repo ∧ lock.id = id)
      ∧ ∀ lock ∈ db.values, lock ∉ (db.deleteLock repo id force requester).2.values →
        lock.repoId = repo ∧ lock.id = id

theorem getLock_eq_ok :
    db.getLock repo id = .ok lock ↔ db.locks.lookup (lockKey repo id) = some lock := by
  unfold getLock
  cases db.locks.lookup (lockKey repo id) <;> simp

/-- Only the lock found under the text of a call can go. -/
theorem lookup_of_removed {force : Bool} {requester : String} (hlock : lock ∈ db.values)
    (hgone : lock ∉ (db.deleteLock repo id force requester).2.values) :
    db.locks.lookup (lockKey repo id) = some lock := by
  obtain ⟨key, hkey⟩ := mem_values.mp hlock
  unfold deleteLock at hgone
  split at hgone
  · exact absurd hlock hgone
  · split at hgone
    · exact absurd hlock hgone
    · by_cases hsame : key = lockKey repo id
      · rw [← hsame]
        exact hkey
      · refine absurd (mem_values.mpr ⟨key, ?_⟩) hgone
        exact (AList.lookup_erase_ne hsame).trans hkey

theorem lookup_of_deleted {force : Bool} {requester : String}
    (h : (db.deleteLock repo id force requester).1 = .ok lock) :
    db.locks.lookup (lockKey repo id) = some lock := by
  unfold deleteLock at h
  split at h
  · cases h
  · rename_i found hfound
    split at h
    · cases h
    · rw [hfound, Except.ok.inj h]

theorem Filed.isolated_iff (h : Filed db) (repo id : String) :
    Isolated db repo id ↔ ∀ lock ∈ db.values, ¬ Confused lock.repoId lock.id repo id := by
  constructor
  · rintro ⟨hget, -⟩ lock hlock hconfused
    have hfound := h.lookup_eq_some.mpr ⟨hlock, hconfused.2.symm⟩
    exact hconfused.1 (hget lock (getLock_eq_ok.mpr hfound)).1
  · intro hapart
    have hown : ∀ lock, db.locks.lookup (lockKey repo id) = some lock →
        lock.repoId = repo ∧ lock.id = id := by
      intro lock hfound
      obtain ⟨hlock, hkey⟩ := h.lookup_eq_some.mp hfound
      exact (glued_eq_iff.mp hkey.symm).resolve_right (hapart lock hlock)
    refine ⟨fun lock hget => hown lock (getLock_eq_ok.mp hget), fun force requester => ⟨?_, ?_⟩⟩
    · intro lock hdeleted
      exact hown lock (lookup_of_deleted hdeleted)
    · intro lock hlock hgone
      exact hown lock (lookup_of_removed hlock hgone)

/-- A new lock is refused exactly when there is a lock on the same path of the same repository. -/
def ConflictsExactly (db : MemoryLockDatabase) (repo path : String) : Prop :=
  ∀ pubkey freshId now,
    (∃ existing, (db.createLock repo path pubkey freshId now).1 = .error (.conflict existing))
      ↔ ∃ lock ∈ db.values, lock.repoId = repo ∧ lock.path = path

theorem Filed.conflictsExactly_iff (h : Filed db) (repo path : String) :
    ConflictsExactly db repo path
      ↔ ∀ lock ∈ db.values, ¬ Confused lock.repoId lock.path repo path := by
  constructor
  · intro hexact lock hlock hconfused
    -- the confused lock refuses a new one, so the path itself is locked, by that very lock
    obtain ⟨lock', hlock', rfl, rfl⟩ := (hexact "" "" 0).mp
      ((conflict_iff repo path "" "" 0).mpr ⟨lock, hlock, hconfused.2⟩)
    have hsame := h.eq_of_pathKey_eq hlock hlock' hconfused.2
    exact hconfused.1 (by rw [hsame])
  · intro hapart pubkey freshId now
    rw [conflict_iff]
    constructor
    · rintro ⟨lock, hlock, hkey⟩
      exact ⟨lock, hlock, (glued_eq_iff.mp hkey).resolve_right (hapart lock hlock)⟩
    · rintro ⟨lock, hlock, rfl, rfl⟩
      exact ⟨lock, hlock, rfl⟩

/-- **What keeps repositories apart.**  After any calls, there is at most one lock on a path.  A new
lock is refused for the right reason, and a lock is read and removed by its own repository only,
exactly as long as no lock of another repository has the text of the call. -/
theorem locks_isolated (calls : List LockCall) :
    (∀ repo path, ((after calls).values.filter fun lock =>
        lock.repoId == repo && lock.path == path).length ≤ 1)
      ∧ (∀ repo path, ConflictsExactly (after calls) repo path
        ↔ ∀ lock ∈ (after calls).values, ¬ Confused lock.repoId lock.path repo path)
      ∧ ∀ repo id, Isolated (after calls) repo id
        ↔ ∀ lock ∈ (after calls).values, ¬ Confused lock.repoId lock.id repo id :=
  have h := filed_after calls
  ⟨h.length_le_one, h.conflictsExactly_iff, h.isolated_iff⟩

/-- The id of a lock. -/
def firstId : String :=
  "00000000-0000-4000-8000-000000000001"

/-- One lock on a path of a repository with a colon in its name refuses a lock in another repository,
and can be read and removed there. -/
theorem colon_mixes_repositories :
    let db := after [.create "a:b" "c" "alice" firstId 0]
    (∀ lock ∈ db.values, lock.repoId ≠ "a")
      ∧ (db.createLock "a" "b:c" "bob" "00000000-0000-4000-8000-000000000002" 0).1
        = .error (.conflict firstId)
      ∧ db.getLock "a" ("b:" ++ firstId) = .ok ⟨firstId, "a:b", "c", "alice", 0⟩
      ∧ (db.deleteLock "a" ("b:" ++ firstId) true "bob").2.values = [] := by
  decide

end MemoryLockDatabase

end BlossomRs.Locks

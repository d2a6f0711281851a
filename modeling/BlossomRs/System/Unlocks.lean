import BlossomRs.System.LockAgreement

/-!
# Removing locks

A lock may be removed by its owner and by an admin.  The preflight of a stream asks for nothing else,
but both handlers pass force on to the store only when the request has it set, so an admin who does not
ask for force is refused (`unlock_rule_iff`).
-/

namespace BlossomRs.System

open Protocol Auth Storage Database Lfs Locks Server

variable {β δ ν κ : Type}

/-- The lock is gone, and every other one is as it was. -/
def RemovesOnly (db db' : MemoryLockDatabase) (repo id : String) : Prop :=
  ∀ key, db'.locks.lookup key
    = if key = MemoryLockDatabase.lockKey repo id then none else db.locks.lookup key

/-- A key may remove a lock when it owns it or is an admin. -/
def OwnerOrAdmin (s : ServerState β δ ν κ) (lock : LockRecord) (key : String) : Prop :=
  lock.pubkey = key ∨ s.role key = .admin

/-- What an unlock is to do: remove the lock, and only that, for its owner and for admins, and leave
the locks alone for anybody else. -/
structure FollowsRule (s : ServerState β δ ν MemoryLockDatabase) (db : MemoryLockDatabase)
    (lock : LockRecord) (repo id key : String) (lockDb : Option MemoryLockDatabase) : Prop where
  removes : OwnerOrAdmin s lock key → ∃ db', lockDb = some db' ∧ RemovesOnly db db' repo id
  keeps : ¬ OwnerOrAdmin s lock key → lockDb = some db

section Memory

variable {db : MemoryLockDatabase} {repo id key : String} {lock : LockRecord}

theorem removesOnly_erase :
    RemovesOnly db ⟨db.locks.erase (MemoryLockDatabase.lockKey repo id)⟩ repo id := by
  exact fun other => Assoc.lookup_erase_eq _ _ other

/-- The store follows the rule exactly when an admin asks for force. -/
theorem deleteLock_rule_iff {s : ServerState β δ ν MemoryLockDatabase}
    (hlock : db.locks.lookup (MemoryLockDatabase.lockKey repo id) = some lock) (force : Bool) :
    FollowsRule s db lock repo id key
        (some (db.deleteLock repo id (force && s.role key == .admin) key).2)
      ↔ lock.pubkey = key ∨ s.role key ≠ .admin ∨ force = true := by
  have hdelete : (db.deleteLock repo id (force && s.role key == .admin) key).2
      = if lock.pubkey = key ∨ (s.role key = .admin ∧ force = true) then
          ⟨db.locks.erase (MemoryLockDatabase.lockKey repo id)⟩
        else db := by
    unfold MemoryLockDatabase.deleteLock
    rw [hlock]
    dsimp only
    by_cases howner : lock.pubkey = key
    · simp [howner]
    · by_cases hforce : s.role key = .admin ∧ force = true
      · simp [hforce.1, hforce.2]
      · have hweak : (force && s.role key == .admin) = false := by
          rw [Bool.and_eq_false_iff, beq_eq_false_iff_ne]
          by_contra h
          push Not at h
          exact hforce ⟨h.2, by simpa using h.1⟩
        simp [hweak, howner, hforce]
  rw [hdelete]
  by_cases hremoves : lock.pubkey = key ∨ (s.role key = .admin ∧ force = true)
  · rw [if_pos hremoves]
    refine iff_of_true ⟨fun _ => ⟨_, rfl, removesOnly_erase⟩, fun hnot => ?_⟩ ?_
    · exact absurd (hremoves.imp_right And.left) hnot
    · rcases hremoves with howner | ⟨-, hforce⟩
      · exact Or.inl howner
      · exact Or.inr (Or.inr hforce)
  · rw [if_neg hremoves]
    push Not at hremoves
    constructor
    · intro hrule
      refine Or.inr (Or.inl fun hadmin => ?_)
      -- an admin was to remove a lock that is still there
      obtain ⟨db', hsame, honly⟩ := hrule.removes (Or.inr hadmin)
      obtain rfl := Option.some.inj hsame
      have hgone := honly (MemoryLockDatabase.lockKey repo id)
      rw [if_pos rfl, hlock] at hgone
      cases hgone
    · intro hcond
      refine ⟨fun hmay => ?_, fun _ => rfl⟩
      rcases hcond with howner | hrole | hforce
      · exact absurd howner hremoves.1
      · exact absurd hmay (not_or.mpr ⟨hremoves.1, hrole⟩)
      · rcases hmay with howner | hadmin
        · exact absurd howner hremoves.1
        · exact absurd hforce (hremoves.2 hadmin)

end Memory

/-! ### Both transports -/

section Transports

variable {ext : Transport.Externals} {repo id key : String} {force : Bool}
  {w : Transport.Shared β δ ν κ}

/-- Over HTTP, an unlock with a valid event does what the handler does for its key. -/
theorem lockDb_handleUnlock [LockDatabase κ] {http : HttpLockCall} {w : World β δ ν κ}
    (hkey : http.principal ext.toExternals (.unlock repo id force) w = some key) :
    ((LockOperation.unlock repo id force).handle ext.toExternals http w).2.server.lockDb
      = (unlockAs repo id force key w.server).2.lockDb :=
  congrArg ServerState.lockDb (server_handle hkey)

/-- The event of a stream with a principal. -/
theorem exists_verified {stream : StreamLockCall} (hkey : stream.principal ext w = some key) :
    ∃ auth, stream.request.auth ≠ "" ∧ stream.verified ext = .ok auth ∧ auth.pubkey = key
      ∧ (w.seen.commit auth.eventId auth.pubkey stream.committed.now.secs).1 = true := by
  unfold StreamLockCall.principal at hkey
  by_cases hauth : stream.request.auth = ""
  · rw [if_pos hauth] at hkey
    cases hkey
  rw [if_neg hauth] at hkey
  cases hverified : stream.verified ext with
  | error e =>
    rw [hverified] at hkey
    cases hkey
  | ok auth =>
    rw [hverified] at hkey
    obtain ⟨hfresh, hkey⟩ := Option.ite_none_right_eq_some.mp hkey
    exact ⟨auth, hauth, rfl, Option.some.inj hkey, hfresh⟩

/-- A key that the preflight turns away is one that the store would refuse. -/
theorem unlockAs_of_not_allowed [LockDatabase κ] [LawfulLockDatabase κ]
    {request : Transport.Request} {s : ServerState β δ ν κ} (hop : request.op = .lockDelete) (h : Transport.unlockAllowed request key s ≠ true)
    (force : Bool) :
    (unlockAs request.repoId request.lockId force key s).2.lockDb = s.lockDb := by
  unfold Transport.unlockAllowed at h
  rw [hop] at h
  rw [lockDb_unlockAs]
  cases hdb : s.lockDb with
  | none => rfl
  | some db =>
    rw [hdb] at h
    dsimp only at h
    rw [LawfulLockDatabase.getLock_eq] at h
    cases hfind : LawfulLockDatabase.find db request.repoId request.lockId with
    | none =>
      rw [hfind] at h
      exact absurd rfl h
    | some lock =>
      rw [hfind] at h
      simp only [Option.elim_some, ne_eq, Bool.or_eq_true, beq_iff_eq, not_or] at h
      have hforce : (force && s.role key == .admin) = false := by simp [h.2]
      rw [Option.map_some, hforce, LawfulLockDatabase.deleteLock_refused hfind h.1]

variable [BlobBackend β] [BlobDatabase δ] [LfsVersionDatabase ν] [LockDatabase κ]
  [LawfulLockDatabase κ]

/-- Over a stream, an unlock with a valid event of a key that passes the gate does the same. -/
theorem lockDb_answer_unlock {stream : StreamLockCall}
    (hop : (LockOperation.unlock repo id force).Requested stream.request)
    (hkey : stream.principal ext w = some key) (hgate : LockGate w.server key stream.checked.nowMs) :
    (stream.answer ext w).2.server.lockDb = (unlockAs repo id force key w.server).2.lockDb := by
  obtain ⟨auth, hauth, hverified, rfl, hfresh⟩ := exists_verified hkey
  obtain ⟨hdelete, rfl, rfl, rfl⟩ := hop
  have hbound : Bound stream.request := Or.inr (Or.inl hdelete)
  have hallowed : Transport.mutationAllowed stream.request auth.pubkey w.server = true := by
    rw [mutationAllowed_bound hbound]
    exact hgate.1
  unfold StreamLockCall.answer answerStream
  rw [openStream_lock ext (Or.inl hbound), if_neg hauth, hverified]
  dsimp only
  by_cases howner : Transport.unlockAllowed stream.request auth.pubkey w.server = true
  · rcases finish_bound ext hbound w auth with
      ⟨-, limiter, shared, hfinish, hserver⟩ | ⟨hnot, -⟩
    · rw [hfinish, hserver, lockDb_unlockAs]
      unfold StreamLockCall.serve Transport.dispatch
      rw [hdelete]
      refine (congrArg ServerState.lockDb
        (handleLockDelete_spec stream.request auth.pubkey _).2).trans ?_
      rw [lockDb_unlockAs]
      rfl
    · exact absurd ⟨hallowed, howner, hgate.2, hfresh⟩ hnot
  · -- the preflight ends the stream and changes nothing
    obtain ⟨hupload, hbinding⟩ := bound_binding hbound
    rw [unlockAs_of_not_allowed hdelete howner, finishStream, Transport.advance, if_neg hupload,
      if_pos hbinding]
    dsimp only
    rw [Transport.preflight, Transport.preflightMutation]
    dsimp only
    rw [Checks.require, if_pos hallowed, Checks.ok_bind, Checks.require, if_neg howner]
    rfl

end Transports

/-- **Unlocks follow the rule** over both transports exactly when the key owns the lock, is no admin,
or asks for force. -/
theorem unlock_rule_iff [BlobBackend β] [BlobDatabase δ] [LfsVersionDatabase ν]
    (ext : Transport.Externals) (site : Site β δ ν MemoryLockDatabase) (repo id key : String)
    (force : Bool) (http : HttpLockCall) (stream : StreamLockCall)
    (hhttp : http.principal ext.toExternals (.unlock repo id force) site.http = some key)
    (hrequested : (LockOperation.unlock repo id force).Requested stream.request)
    (hstream : stream.principal ext site.streams = some key)
    (hgate : LockGate site.server key stream.checked.nowMs) (db : MemoryLockDatabase)
    (hdb : site.server.lockDb = some db) (lock : LockRecord)
    (hlock : db.locks.lookup (MemoryLockDatabase.lockKey repo id) = some lock) :
    (FollowsRule site.server db lock repo id key
        ((LockOperation.unlock repo id force).handle ext.toExternals http site.http).2.server.lockDb
      ∧ FollowsRule site.server db lock repo id key
        (stream.answer ext site.streams).2.server.lockDb)
      ↔ lock.pubkey = key ∨ site.server.role key ≠ .admin ∨ force = true := by
  have heffect : (unlockAs repo id force key site.server).2.lockDb
      = some (db.deleteLock repo id (force && site.server.role key == .admin) key).2 := by
    rw [lockDb_unlockAs, hdb]
    rfl
  rw [lockDb_handleUnlock hhttp, lockDb_answer_unlock hrequested hstream hgate]
  rw [show site.http.server = site.server from rfl, show site.streams.server = site.server from rfl,
    heffect, and_self]
  exact deleteLock_rule_iff hlock force

/-! ### An admin and a lock of somebody else -/

/-- A lock of another key. -/
def foreignLock : LockRecord :=
  ⟨"7", "r", "a", "other", 0⟩

def foreignLocks : MemoryLockDatabase :=
  ⟨AList.insert (MemoryLockDatabase.lockKey "r" "7") foreignLock ∅⟩

/-- A server where everybody is an admin. -/
def adminSite : Site MemoryBackend MemoryDatabase MemoryLfsVersionDatabase MemoryLockDatabase :=
  let server : ServerState MemoryBackend MemoryDatabase MemoryLfsVersionDatabase MemoryLockDatabase :=
    .new MemoryBackend.new serverUrl
  ⟨{ server with
      access := .fixed (fun _ _ => true) (fun _ => .admin)
      lockDb := some foreignLocks }, seenAuthEvents, .new 10000 256, 0⟩

/-- The unlock as a stream asks for it. -/
def unlockRequest (force : Bool) : Transport.Request :=
  { Transport.Request.of .lockDelete with repoId := "r", lockId := "7", force := force }

def unlockEvent (force : Bool) : NostrEvent :=
  Transport.peerEvent (if force then
      (0x3b5bab5ce53354cc5ba892b4d50716d1322b94d294cc15c668f757a034e7564f,
        0x897b9a3cd741ab25e956bd428c46929256eb39e6f238e2bd219d64ffe57a2fef)
    else
      (0x1da6caa55e2fff745645b57e47469df8c3064219bb2ab22069126bfa4a19b602,
        0xed88b1e581c87e287705b130b2d26fa18864ac5f0d88cc69cc8b411ae4d26d28))
    (unlockRequest force)

def unlockBothExternals (force : Bool) : Transport.Externals :=
  .knowing [(unlockSigned "7").event, unlockEvent force]

def unlockHttp : HttpLockCall :=
  ⟨(unlockSigned "7").call, (unlockSigned "7").headers, ""⟩

theorem unlockTime_lt : 1700000000 < 2 ^ 63 := by
  decide

def unlockStream (force : Bool) : StreamLockCall :=
  let moment : Transport.Moment := ⟨⟨1700000000, unlockTime_lt⟩, 0, "", none⟩
  { receiver := "iroh://peer"
    request := { unlockRequest force with auth := authHeaderValue (unlockEvent force) }
    opened := moment.now
    checked := moment
    committed := moment
    served := moment }

theorem verified_unlockStream (force : Bool) :
    (unlockStream force).verified (unlockBothExternals force)
      = .ok ⟨(unlockEvent force).pubkey, (unlockEvent force).id⟩ := by
  have hmem : unlockEvent force ∈ [(unlockSigned "7").event, unlockEvent force] :=
    List.mem_cons_of_mem _ (List.mem_singleton_self _)
  refine Transport.verifyAuth_peerEvent hmem rfl rfl ⟨rfl, rfl, rfl, rfl⟩ _ ?_ ?_
  · show 1700000000 ≤ 1700000000 + 30
    decide
  · show 1700000000 ≤ 1700000000 + 60
    decide

theorem principal_unlockHttp (force : Bool) :
    unlockHttp.principal (unlockBothExternals force).toExternals (.unlock "r" "7" force)
      adminSite.http = some testKey :=
  principal_signed (wellFormed_unlockSigned "7") List.mem_cons_self rfl rfl rfl rfl rfl ""

theorem principal_unlockStream (force : Bool) :
    (unlockStream force).principal (unlockBothExternals force) adminSite.streams = some testKey :=
  principal_verified (authHeaderValue_ne_empty _) (verified_unlockStream force) rfl

theorem find_foreignLocks :
    foreignLocks.locks.lookup (MemoryLockDatabase.lockKey "r" "7") = some foreignLock :=
  AList.lookup_insert _

/-- An admin who asks for force removes the lock over both transports. -/
theorem forced_unlock_follows_rule :
    FollowsRule adminSite.server foreignLocks foreignLock "r" "7" testKey
        ((LockOperation.unlock "r" "7" true).handle (unlockBothExternals true).toExternals unlockHttp
          adminSite.http).2.server.lockDb
      ∧ FollowsRule adminSite.server foreignLocks foreignLock "r" "7" testKey
        ((unlockStream true).answer (unlockBothExternals true) adminSite.streams).2.server.lockDb :=
  (unlock_rule_iff (unlockBothExternals true) adminSite "r" "7" testKey true unlockHttp
    (unlockStream true) (principal_unlockHttp true) ⟨rfl, rfl, rfl, rfl⟩ (principal_unlockStream true)
    ⟨rfl, rfl⟩ foreignLocks rfl foreignLock find_foreignLocks).mpr (Or.inr (Or.inr rfl))

/-- An admin who does not ask for force removes it over neither. -/
theorem plain_unlock_of_admin_fails :
    adminSite.server.role testKey = .admin
      ∧ foreignLocks.locks.lookup (MemoryLockDatabase.lockKey "r" "7") = some foreignLock
      ∧ unlockHttp.principal (unlockBothExternals false).toExternals (.unlock "r" "7" false)
          adminSite.http = some testKey
      ∧ (unlockStream false).principal (unlockBothExternals false) adminSite.streams = some testKey
      ∧ LockGate adminSite.server testKey (unlockStream false).checked.nowMs
      ∧ ((LockOperation.unlock "r" "7" false).handle (unlockBothExternals false).toExternals
          unlockHttp adminSite.http).2.server.lockDb = some foreignLocks
      ∧ ((unlockStream false).answer (unlockBothExternals false) adminSite.streams).2.server.lockDb
          = some foreignLocks := by
  have hkept : (unlockAs "r" "7" false testKey adminSite.server).2.lockDb = some foreignLocks := by
    rw [lockDb_unlockAs]
    have hrefused : LockDatabase.deleteLock foreignLocks "r" "7" false testKey
        = (.error notLockOwner, foreignLocks) :=
      LawfulLockDatabase.deleteLock_refused find_foreignLocks (by decide)
    exact congrArg (fun result => some result.2) hrefused
  refine ⟨rfl, find_foreignLocks, principal_unlockHttp false, principal_unlockStream false, ⟨rfl, rfl⟩,
    ?_, ?_⟩
  · exact (lockDb_handleUnlock (principal_unlockHttp false)).trans hkept
  · exact (lockDb_answer_unlock ⟨rfl, rfl, rfl, rfl⟩ (principal_unlockStream false) ⟨rfl, rfl⟩).trans
      hkept

end BlossomRs.System

import BlossomRs.System.Denied

/-!
# Requests with a body

Five endpoints act on what the body of a request says: the creation of a lock, the unlock, the
verification of locks, and the quota and the role of a user.  Each of them checks its event against the
path and the method of the request and against nothing else, where the uploads bind the hash of the
body as well.

## Main results

* `BodyRequest.accepted_of_admitted`: an event that holds for the path and the method of a request is
  taken for it, whatever the body says, as long as its key may do what the body asks for.
* `every_body_accepted`: so an event never stands for one body alone.  Of two requests that differ in
  their bodies only both are carried out with it, in any two runs in which its claims hold and the
  replay cache has not seen it.

The bodies are the decoded ones, so two of them differ in what they say and not in how it is written.
-/

namespace BlossomRs.System

open Protocol Auth Storage Database Lfs Locks Server

variable {β δ ν κ : Type}

/-- What the body of a request says. -/
inductive JsonBody where
  | lockPath (path : String)
  | force (force : Bool)
  | page (cursor : Option String) (limit : Option UInt32)
  | quota (quotaBytes : Option Nat)
  | role (role : String)
deriving DecidableEq, Repr

/-- A request with a body, for one of the five endpoints. -/
inductive BodyRequest where
  | createLock (repo path : String)
  | unlock (repo id : String) (force : Bool)
  | verifyLocks (repo : String) (cursor : Option String) (limit : Option UInt32)
  | setQuota (pubkey : String) (quotaBytes : Option Nat)
  | setRole (pubkey role : String)
deriving DecidableEq, Repr

/-- A run in which a request is handled: the readings of the clock, the id of a new lock, the headers
and the server. -/
structure BodyRun (β δ ν κ : Type) where
  call : Call
  freshId : String
  headers : HeaderMap
  world : World β δ ν κ

/-- The headers carry an event whose claims hold for an action, a path and a method, no hash asked for,
and which the replay cache does not remember. -/
structure BodyRun.Admits (run : BodyRun β δ ν κ) (ext : Server.Externals) (event : NostrEvent)
    (action path method : String) : Prop where
  carried : extractAuthEvent ext.parser run.headers = .ok event
  claims : verifyAuthEventClaims ext.secp (run.call.clock 0) event action run.world.server.baseUrl path
    method none = .ok ()
  unseen : event.id ∉ (run.world.seen.pruneExpired (run.call.clock 1)).entries

namespace BodyRequest

def body : BodyRequest → JsonBody
  | createLock _ path => .lockPath path
  | unlock _ _ force => .force force
  | verifyLocks _ cursor limit => .page cursor limit
  | setQuota _ quotaBytes => .quota quotaBytes
  | setRole _ role => .role role

def path : BodyRequest → String
  | createLock repo _ => "/lfs/" ++ repo ++ "/locks"
  | unlock repo id _ => "/lfs/" ++ repo ++ "/locks/" ++ id ++ "/unlock"
  | verifyLocks repo _ _ => "/lfs/" ++ repo ++ "/locks/verify"
  | setQuota pubkey _ => "/admin/users/" ++ pubkey ++ "/quota"
  | setRole pubkey _ => "/admin/users/" ++ pubkey ++ "/role"

def method : BodyRequest → String
  | setQuota _ _ | setRole _ _ => "PUT"
  | _ => "POST"

/-- The action the event must name. -/
def action : BodyRequest → String
  | setQuota _ _ | setRole _ _ => "admin"
  | _ => "lock"

section Handle

variable [BlobDatabase δ] [LockDatabase κ] (ext : Server.Externals) (run : BodyRun β δ ν κ)

def handle : BodyRequest → Response × World β δ ν κ
  | createLock repo path =>
    handleCreateLock ext run.call run.freshId run.headers repo path run.world
  | unlock repo id force => handleUnlock ext run.call run.headers repo id force run.world
  | verifyLocks repo cursor limit =>
    handleVerifyLocks ext run.call run.headers repo cursor limit run.world
  | setQuota pubkey quotaBytes => handleSetQuota ext run.call run.headers pubkey quotaBytes run.world
  | setRole pubkey role => handleSetRole ext run.call run.headers pubkey role run.world

/-- The request is carried out. -/
def Accepted (request : BodyRequest) : Prop :=
  (request.handle ext run).1.status ∈ [StatusCode.ok, .created]

/-- A key may do what the request asks for, and the stores do it. -/
def Granted (key : String) : BodyRequest → Prop
  | createLock repo path => run.world.server.isAllowed key .lock = true
    ∧ ∃ db record db', run.world.server.lockDb = some db
      ∧ LockDatabase.createLock db repo path key run.freshId (run.call.clock 2) = (.ok record, db')
  | unlock repo id force => ∃ db record db', run.world.server.lockDb = some db
    ∧ LockDatabase.deleteLock db repo id (force && run.world.server.role key == .admin) key
      = (.ok record, db')
  | verifyLocks repo cursor limit => ∃ db page, run.world.server.lockDb = some db
    ∧ LockDatabase.listLocks db repo ⟨none, none, cursor, limit⟩ = .ok page
  | setQuota pubkey quotaBytes => run.world.server.isAllowed key .admin = true
    ∧ ∃ db', BlobDatabase.setQuota run.world.server.database pubkey quotaBytes = (.ok (), db')
  | setRole pubkey role => run.world.server.isAllowed key .admin = true
    ∧ RustStr.toAsciiLowercase role ∈ ["admin", "member", "denied"]
    ∧ ∃ s', applySetRole ext (Access.normalized ext.bech32 pubkey) (RustStr.toAsciiLowercase role)
      run.world.server = (.ok (), s')

end Handle

end BodyRequest

/-! ### Endpoints that check an event and act -/

section Admitted

variable {ext : Server.Externals} {run : BodyRun β δ ν κ} {event : NostrEvent} {path method : String}

/-- Claims that hold and an id that is not remembered make an event pass. -/
theorem BodyRun.Admits.verified {action : String} (h : run.Admits ext event action path method) :
    ∃ seen, verifyAuthEvent ext (run.call.clock 0) (run.call.clock 1) run.world.seen event action
      run.world.server.baseUrl path method none = (.ok (), seen) := by
  refine ⟨_, Prod.ext ?_ rfl⟩
  rw [verifyAuthEvent, h.claims]
  simp only [markAuthEventOnce, ReplayCache.checkAndInsert, if_neg h.unseen, if_true]

theorem asLocker_of_admitted (h : run.Admits ext event "lock" path method)
    (act : String → ServerState β δ ν κ → Response × ServerState β δ ν κ) :
    (asLocker ext run.call run.headers path method act run.world).1
      = (act event.pubkey run.world.server).1 := by
  obtain ⟨seen, hverified⟩ := h.verified
  simp only [asLocker, h.carried, hverified]

theorem asAdmin_of_admitted (h : run.Admits ext event "admin" path method)
    (hadmin : run.world.server.isAllowed event.pubkey .admin = true)
    (act : ServerState β δ ν κ → Response × ServerState β δ ν κ) :
    (asAdmin ext run.call run.headers path method none act run.world).1
      = (act run.world.server).1 := by
  obtain ⟨seen, hverified⟩ := h.verified
  simp only [asAdmin, extractAdminPubkey, h.carried, hverified, hadmin, if_true]

end Admitted

section EveryBody

variable [BlobDatabase δ] [LockDatabase κ]

namespace BodyRequest

/-- **The event decides, and the body does not.** -/
theorem accepted_of_admitted {ext : Server.Externals} {run : BodyRun β δ ν κ} {event : NostrEvent}
    {request : BodyRequest} (h : run.Admits ext event request.action request.path request.method)
    (hgranted : request.Granted ext run event.pubkey) : request.Accepted ext run := by
  unfold Accepted handle
  cases request with
  | createLock repo path =>
    obtain ⟨hallowed, db, record, db', hdb, hcreated⟩ := hgranted
    dsimp only [action, BodyRequest.path, method] at h
    dsimp only [handleCreateLock]
    rw [asLocker_of_admitted h]
    simp [createLockAs, hallowed, hdb, hcreated, lockResponse]
  | unlock repo id force =>
    obtain ⟨db, record, db', hdb, hdeleted⟩ := hgranted
    dsimp only [action, BodyRequest.path, method] at h
    dsimp only [handleUnlock]
    rw [asLocker_of_admitted h]
    simp [unlockAs, hdb, hdeleted, lockResponse]
  | verifyLocks repo cursor limit =>
    obtain ⟨db, page, hdb, hlisted⟩ := hgranted
    dsimp only [action, BodyRequest.path, method] at h
    dsimp only [handleVerifyLocks]
    rw [asLocker_of_admitted h]
    simp [verifyLocksAs, hdb, hlisted, listingResponse]
  | setQuota pubkey quotaBytes =>
    obtain ⟨hadmin, db', hset⟩ := hgranted
    dsimp only [action, BodyRequest.path, method] at h
    dsimp only [handleSetQuota]
    rw [asAdmin_of_admitted h hadmin]
    simp [Server.setQuota, hset, okJson]
  | setRole pubkey role =>
    obtain ⟨hadmin, hrole, s', hset⟩ := hgranted
    dsimp only [action, BodyRequest.path, method] at h
    dsimp only [handleSetRole]
    rw [asAdmin_of_admitted h hadmin]
    simp only [Server.setRole, if_pos hrole, hset]
    simp [okJson]

/-- The methods of the two families differ, so the method tells the action. -/
theorem action_eq {request request' : BodyRequest} (h : request.method = request'.method) :
    request.action = request'.action := by
  cases request <;> cases request' <;> simp_all [action, method]

end BodyRequest

/-- **An event is never for one body alone.**  Two requests for one path and method with different
bodies are both carried out with an event whose claims hold in both runs and which neither cache has
seen, if its key may do what each of them asks for. -/
theorem every_body_accepted (ext : Server.Externals) (event : NostrEvent)
    (request request' : BodyRequest) (hpath : request.path = request'.path)
    (hmethod : request.method = request'.method) (_ : request.body ≠ request'.body)
    (run run' : BodyRun β δ ν κ)
    (hadmits : run.Admits ext event request.action request.path request.method)
    (hadmits' : run'.Admits ext event request.action request.path request.method)
    (hgranted : request.Granted ext run event.pubkey)
    (hgranted' : request'.Granted ext run' event.pubkey) :
    request.Accepted ext run ∧ request'.Accepted ext run' := by
  rw [BodyRequest.action_eq hmethod, hpath, hmethod] at hadmits'
  exact ⟨BodyRequest.accepted_of_admitted hadmits hgranted,
    BodyRequest.accepted_of_admitted hadmits' hgranted'⟩

end EveryBody

/-! ### Two bodies with one event -/

/-- A server without restrictions that keeps locks. -/
def lockWorld : World MemoryBackend MemoryDatabase MemoryLfsVersionDatabase MemoryLockDatabase :=
  let server : ServerState MemoryBackend MemoryDatabase MemoryLfsVersionDatabase MemoryLockDatabase :=
    .new MemoryBackend.new serverUrl
  ⟨{ server with lockDb := some .new }, seenAuthEvents⟩

/-- A request for the role of a key. -/
def roleSigned : SignedRequest where
  sig := (0xebdfed807c3798efd2ad0f22aee5cf9e3e76f9bf0300e92ed820fbd959b18162,
    0x09d8452d8e8f0a184ce119a99c4e22ac7b9a1ee56771cd78cfd6c1c42e7553ba)
  time := 1700000000
  action := "admin"
  hash := none
  path := "/admin/users/k/role"
  method := "PUT"
  tags := []

/-- The run in which a signed request is made. -/
def signedRun (r : SignedRequest) :
    BodyRun MemoryBackend MemoryDatabase MemoryLfsVersionDatabase MemoryLockDatabase :=
  ⟨r.call, "id", r.headers, lockWorld⟩

theorem admits_signedRun {r : SignedRequest} (hr : r.WellFormed) :
    (signedRun r).Admits (.knowing [r.event]) r.event r.action r.path r.method where
  carried := SignedRequest.extractAuthEvent_headers (List.mem_singleton_self _)
  claims := SignedRequest.accepts hr (List.mem_singleton_self _) (by simp)
  unseen := by
    show r.event.id ∉ (ReplayCache.pruneExpired seenAuthEvents _).entries
    exact AList.notMem_empty _

/-- One event makes a key a member and an administrator. -/
theorem one_event_for_two_roles :
    (BodyRequest.setRole "k" "member").Accepted (.knowing [roleSigned.event]) (signedRun roleSigned)
      ∧ (BodyRequest.setRole "k" "admin").Accepted (.knowing [roleSigned.event])
        (signedRun roleSigned) := by
  have hr : roleSigned.WellFormed := by decide
  exact every_body_accepted (.knowing [roleSigned.event]) roleSigned.event (.setRole "k" "member")
    (.setRole "k" "admin") rfl rfl (by decide) (signedRun roleSigned) (signedRun roleSigned)
    (admits_signedRun hr) (admits_signedRun hr) ⟨rfl, by decide, _, rfl⟩ ⟨rfl, by decide, _, rfl⟩

/-- One event is taken for the locks of two files. -/
theorem one_event_for_two_locks :
    (BodyRequest.createLock "r" "a").body ≠ (BodyRequest.createLock "r" "b").body
      ∧ (BodyRequest.createLock "r" "a").Accepted (.knowing [lockSigned.event]) (signedRun lockSigned)
      ∧ (BodyRequest.createLock "r" "b").Accepted (.knowing [lockSigned.event])
        (signedRun lockSigned) := by
  have hr : lockSigned.WellFormed := by decide
  exact ⟨by decide, BodyRequest.accepted_of_admitted (admits_signedRun hr) ⟨rfl, _, _, _, rfl, rfl⟩,
    BodyRequest.accepted_of_admitted (admits_signedRun hr) ⟨rfl, _, _, _, rfl, rfl⟩⟩

end BlossomRs.System

import BlossomRs.System.Denied
import BlossomRs.System.UploadPaths
import BlossomRs.Transport.StreamRuns

/-!
# Lock operations over both transports

Both transports work on one lock store.  Over HTTP a handler checks the event and, for a new lock only,
the access policy.  A stream asks the policy and the rate limiter before it uses its event up, for the
operations that are bound to their parameters; a listing is not, and needs no event at all.

`lock_operations_agree_iff` says when an operation is authorized over one transport exactly when it is
over the other, with the same effect.
-/

namespace BlossomRs.System

open Protocol Auth Storage Database Lfs Locks Server

variable {β δ ν κ : Type}

/-- An operation on locks, with its parameters. -/
inductive LockOperation where
  | create (repo path : String)
  | list (repo : String) (filters : LockFilters)
  | verify (repo : String) (cursor : Option String) (limit : Option UInt32)
  | unlock (repo id : String) (force : Bool)

/-- A lock operation as HTTP gets it, with the id a new lock would have. -/
structure HttpLockCall where
  call : Call
  headers : HeaderMap
  freshId : String

/-- A lock operation as an endpoint for streams gets it, with the moments its stretches run at. -/
structure StreamLockCall where
  receiver : String
  request : Transport.Request
  opened : SystemTime
  checked : Transport.Moment
  committed : Transport.Moment
  served : Transport.Moment

namespace LockOperation

/-- The path an event over HTTP is bound to. -/
def path : LockOperation → String
  | create repo _ => "/lfs/" ++ repo ++ "/locks"
  | list repo _ => "/lfs/" ++ repo ++ "/locks"
  | verify repo _ _ => "/lfs/" ++ repo ++ "/locks/verify"
  | unlock repo id _ => "/lfs/" ++ repo ++ "/locks/" ++ id ++ "/unlock"

def method : LockOperation → String
  | create _ _ => "POST"
  | list _ _ => "GET"
  | verify _ _ _ => "POST"
  | unlock _ _ _ => "POST"

/-- The operation in a request of a stream. -/
def Requested (request : Transport.Request) : LockOperation → Prop
  | create repo path => request.op = .lockCreate ∧ request.repoId = repo ∧ request.lockPath = path
  | list repo filters => request.op = .lockList ∧ request.repoId = repo
      ∧ Transport.pageFilters request = { filters with path := none, id := none }
  | verify repo cursor limit => request.op = .lockVerify ∧ request.repoId = repo
      ∧ Transport.pageFilters request = ⟨none, none, cursor, limit⟩
  | unlock repo id force => request.op = .lockDelete ∧ request.repoId = repo ∧ request.lockId = id
      ∧ request.force = force

/-- The handler of an operation. -/
def handle [LockDatabase κ] (ext : Server.Externals) (http : HttpLockCall) (w : World β δ ν κ) :
    LockOperation → Server.Response × World β δ ν κ
  | create repo path => handleCreateLock ext http.call http.freshId http.headers repo path w
  | list repo filters => handleListLocks ext http.call http.headers repo filters w
  | verify repo cursor limit => handleVerifyLocks ext http.call http.headers repo cursor limit w
  | unlock repo id force => handleUnlock ext http.call http.headers repo id force w

/-- What a handler does for a key, under the lock. -/
def actAs [LockDatabase κ] (http : HttpLockCall) (pubkey : String) (s : ServerState β δ ν κ) :
    LockOperation → Server.Response × ServerState β δ ν κ
  | create repo path => createLockAs http.freshId (http.call.clock 2) repo path pubkey s
  | list repo filters => (listLocksOf repo filters s, s)
  | verify repo cursor limit => (verifyLocksAs repo cursor limit pubkey s, s)
  | unlock repo id force => unlockAs repo id force pubkey s

theorem handle_eq [LockDatabase κ] (ext : Server.Externals) (http : HttpLockCall)
    (w : World β δ ν κ) (op : LockOperation) :
    op.handle ext http w = asLocker ext http.call http.headers op.path op.method
      (fun pubkey s => op.actAs http pubkey s) w := by
  cases op <;> rfl

end LockOperation

/-! ### Who asks -/

/-- The key whose event an HTTP call carries, if the event is valid for the operation. -/
def HttpLockCall.principal (ext : Server.Externals) (http : HttpLockCall) (op : LockOperation)
    (w : World β δ ν κ) : Option String :=
  match extractAuthEvent ext.parser http.headers with
  | .error _ => none
  | .ok event =>
    match (verifyAuthEvent ext (http.call.clock 0) (http.call.clock 1) w.seen event "lock"
        w.server.baseUrl op.path op.method none).1 with
    | .error _ => none
    | .ok () => some event.pubkey

namespace StreamLockCall

/-- What the check of a stream's event comes to. -/
def verified (ext : Transport.Externals) (stream : StreamLockCall) :
    Except String Transport.VerifiedAuth :=
  Transport.verifyAuth ext stream.opened.secs stream.request.auth stream.request stream.receiver

/-- The key whose event a stream carries, if the event is valid for the request and was not used. -/
def principal (ext : Transport.Externals) (stream : StreamLockCall) (w : Transport.Shared β δ ν κ) :
    Option String :=
  if stream.request.auth = "" then none
  else
    match stream.verified ext with
    | .error _ => none
    | .ok auth =>
      if (w.seen.commit auth.eventId auth.pubkey stream.committed.now.secs).1 then
        some auth.pubkey
      else none

/-- A stream with no event, or with one that passes its check. -/
def Admissible (ext : Transport.Externals) (stream : StreamLockCall) : Prop :=
  stream.request.auth = "" ∨ ∃ auth, stream.verified ext = .ok auth

def answer [BlobBackend β] [BlobDatabase δ] [LfsVersionDatabase ν] [LockDatabase κ]
    (ext : Transport.Externals) (stream : StreamLockCall) (w : Transport.Shared β δ ν κ) :
    Option Transport.Reply × Transport.Shared β δ ν κ :=
  answerStream ext stream.receiver stream.request stream.opened
    [stream.checked, stream.committed, stream.served] w

end StreamLockCall

/-! ### Who is turned away -/

/-- An answer that refuses the caller. -/
def HttpRefused (response : Server.Response) : Prop :=
  response.status = .unauthorized ∨ response.status = .forbidden

/-- A reply that refuses the caller: it is not authorized, or it asks too often. -/
def StreamRefused (reply : Transport.Reply) : Prop :=
  reply.header.status = .unauthorized ∨ reply.header.status = .forbidden
    ∨ reply.header = .failure .error "rate limit exceeded"

/-- The key may remove the lock, if there is such a lock. -/
def MayUnlock [LockDatabase κ] [LawfulLockDatabase κ] (s : ServerState β δ ν κ) (repo id : String)
    (force : Bool) (pubkey : String) : Prop :=
  ∀ db lock, s.lockDb = some db → LawfulLockDatabase.find db repo id = some lock →
    lock.pubkey = pubkey ∨ (force = true ∧ s.role pubkey = .admin)

theorem append_ne_of_head? {s t : String} {c d : Char} (hs : s.toList.head? = some c)
    (ht : t.toList.head? = some d) (hne : c ≠ d) (rest : String) : s ++ rest ≠ t := by
  rintro rfl
  rw [String.toList_append, List.head?_append, hs, Option.some_or, Option.some.injEq] at ht
  exact hne ht

theorem message_ne_rate (e : LockError) : e.message ≠ "rate limit exceeded" := by
  have hrate : "rate limit exceeded".toList.head? = some 'r' := by decide
  cases e with
  | conflict existing => exact append_ne_of_head? (c := 'p') (by decide) hrate (by decide) existing
  | notFound => exact (by decide : "not found" ≠ "rate limit exceeded")
  | forbidden detail => exact append_ne_of_head? (c := 'f') (by decide) hrate (by decide) detail
  | internal detail => exact append_ne_of_head? (c := 'l') (by decide) hrate (by decide) detail

section Answers

variable [LockDatabase κ]

theorem failure_not_refused {status : Transport.Status} (message : String)
    (hstatus : status = .notFound ∨ status = .conflict) :
    ¬ StreamRefused ⟨.failure status message, []⟩ := by
  rcases hstatus with rfl | rfl <;>
  · rintro (h | h | h)
    · cases h
    · cases h
    · cases congrArg Transport.Response.status h

theorem lockError_not_refused (e : LockError) :
    ¬ StreamRefused ⟨.failure .error e.message, []⟩ := by
  rintro (h | h | h)
  · cases h
  · cases h
  · exact message_ne_rate e (congrArg Transport.Response.error h)

theorem descriptor_not_refused (descriptor : Option Json) :
    ¬ StreamRefused ⟨⟨.ok, 0, "", "", descriptor⟩, []⟩ := by
  rintro (h | h | h)
  · cases h
  · cases h
  · cases congrArg Transport.Response.status h

theorem lockListing_not_refused (request : Transport.Request)
    (lists : List LockRecord → List (String × Json)) (s : ServerState β δ ν κ) :
    ¬ StreamRefused ⟨Transport.lockListing request lists s, []⟩ := by
  unfold Transport.lockListing
  cases s.lockDb with
  | none => exact failure_not_refused _ (Or.inl rfl)
  | some db =>
    dsimp only
    split
    · exact descriptor_not_refused _
    · exact lockError_not_refused _

theorem listLocksOf_not_refused (repo : String) (filters : LockFilters) (s : ServerState β δ ν κ) :
    ¬ HttpRefused (listLocksOf repo filters s) := by
  unfold listLocksOf HttpRefused
  repeat' split
  all_goals simp [lockNotConfigured, listingResponse, errorJson]

theorem verifyLocksAs_not_refused (repo : String) (cursor : Option String) (limit : Option UInt32)
    (pubkey : String) (s : ServerState β δ ν κ) :
    ¬ HttpRefused (verifyLocksAs repo cursor limit pubkey s) := by
  unfold verifyLocksAs HttpRefused
  repeat' split
  all_goals simp [lockNotConfigured, listingResponse, errorJson]

/-- A new lock is refused to keys that the policy does not allow to lock. -/
theorem createLockAs_refused_iff (freshId : String) (now : Nat) (repo path pubkey : String)
    (s : ServerState β δ ν κ) :
    HttpRefused (createLockAs freshId now repo path pubkey s).1
      ↔ s.isAllowed pubkey .lock = false := by
  unfold createLockAs HttpRefused
  cases hallowed : s.isAllowed pubkey .lock with
  | false => simp [errorJson]
  | true =>
    rw [if_pos rfl]
    cases s.lockDb with
    | none => simp [lockNotConfigured, errorJson]
    | some db =>
      dsimp only
      split
      · simp [lockResponse]
      · dsimp only
        split
        · simp [lockResponse]
        · simp [errorJson]
      · simp [errorJson]

/-- What is left of the locks after an attempt to make one. -/
theorem lockDb_createLockAs (freshId : String) (now : Nat) (repo path pubkey : String)
    (s : ServerState β δ ν κ) :
    (createLockAs freshId now repo path pubkey s).2.lockDb
      = if s.isAllowed pubkey .lock then
          s.lockDb.map fun db => (LockDatabase.createLock db repo path pubkey freshId now).2
        else s.lockDb := by
  unfold createLockAs
  split
  · cases hdb : s.lockDb with
    | none => exact hdb
    | some db =>
      dsimp only [Option.map_some]
      split
      case h_1 heq => rw [heq]
      case h_2 heq => rw [heq]
      case h_3 heq => rw [heq]
  · rfl

/-- And after an attempt to remove one. -/
theorem lockDb_unlockAs (repo id : String) (force : Bool) (pubkey : String)
    (s : ServerState β δ ν κ) :
    (unlockAs repo id force pubkey s).2.lockDb
      = s.lockDb.map fun db =>
        (LockDatabase.deleteLock db repo id (force && s.role pubkey == .admin) pubkey).2 := by
  unfold unlockAs
  cases hdb : s.lockDb with
  | none => exact hdb
  | some db =>
    dsimp only [Option.map_some]
    split
    case h_1 heq => rw [heq]
    case h_2 heq => rw [heq]
    case h_3 heq => rw [heq]
    case h_4 heq => rw [heq]

variable {s : ServerState β δ ν κ}

/-- A stream does for an allowed key what `createLockAs` does. -/
theorem handleLockCreate_of_allowed {freshId : String} {now : Nat} {request : Transport.Request}
    {pubkey : String} (hallowed : s.isAllowed pubkey .lock = true) :
    ¬ StreamRefused ⟨(Transport.handleLockCreate freshId now request (some pubkey) s).1, []⟩
      ∧ (Transport.handleLockCreate freshId now request (some pubkey) s).2
        = (createLockAs freshId now request.repoId request.lockPath pubkey s).2 := by
  unfold Transport.handleLockCreate createLockAs
  dsimp only
  rw [if_pos hallowed, if_pos hallowed]
  cases s.lockDb with
  | none => exact ⟨failure_not_refused _ (Or.inl rfl), rfl⟩
  | some db =>
    dsimp only
    rcases LockDatabase.createLock db request.repoId request.lockPath pubkey freshId now with
      ⟨result, db'⟩
    cases result with
    | ok record => exact ⟨descriptor_not_refused _, rfl⟩
    | error e =>
      cases e with
      | conflict existing => exact ⟨failure_not_refused _ (Or.inr rfl), rfl⟩
      | notFound => exact ⟨lockError_not_refused _, rfl⟩
      | forbidden detail => exact ⟨lockError_not_refused _, rfl⟩
      | internal detail => exact ⟨lockError_not_refused _, rfl⟩

/-- What a lock store does with an unlock. -/
theorem unlock_cases [LawfulLockDatabase κ] {db : κ} (hdb : s.lockDb = some db) (repo id : String)
    (force : Bool) (pubkey : String) :
    (MayUnlock s repo id force pubkey
        ∧ ((∃ db', LockDatabase.deleteLock db repo id (force && s.role pubkey == .admin) pubkey
            = (.error .notFound, db'))
          ∨ ∃ lock db', LockDatabase.deleteLock db repo id (force && s.role pubkey == .admin) pubkey
            = (.ok lock, db')))
      ∨ (¬ MayUnlock s repo id force pubkey
        ∧ LockDatabase.deleteLock db repo id (force && s.role pubkey == .admin) pubkey
          = (.error notLockOwner, db)) := by
  cases hfind : LawfulLockDatabase.find db repo id with
  | none =>
    refine Or.inl ⟨?_, Or.inl ⟨db, LawfulLockDatabase.deleteLock_missing hfind _ _⟩⟩
    intro db' lock hdb' hlock
    obtain rfl : db = db' := Option.some.inj (hdb.symm.trans hdb')
    rw [hfind] at hlock
    cases hlock
  | some lock =>
    by_cases hallowed : lock.pubkey = pubkey ∨ (force = true ∧ s.role pubkey = .admin)
    · refine Or.inl ⟨?_, Or.inr ?_⟩
      · intro db' lock' hdb' hlock
        obtain rfl : db = db' := Option.some.inj (hdb.symm.trans hdb')
        obtain rfl : lock = lock' := Option.some.inj (hfind.symm.trans hlock)
        exact hallowed
      · obtain ⟨db', hdone, -⟩ := LawfulLockDatabase.deleteLock_done hfind
          (force && s.role pubkey == .admin)
          (hallowed.symm.imp_left fun h => by simp [h.1, h.2])
        exact ⟨lock, db', hdone⟩
    · obtain ⟨hother, hforce⟩ := not_or.mp hallowed
      refine Or.inr ⟨fun h => hallowed (h db lock hdb hfind), ?_⟩
      have hflag : (force && s.role pubkey == .admin) = false := by
        simpa using hforce
      rw [hflag]
      exact LawfulLockDatabase.deleteLock_refused hfind hother

theorem unlockAs_refused_iff [LawfulLockDatabase κ] (repo id : String) (force : Bool)
    (pubkey : String) (s : ServerState β δ ν κ) :
    HttpRefused (unlockAs repo id force pubkey s).1 ↔ ¬ MayUnlock s repo id force pubkey := by
  unfold unlockAs HttpRefused
  cases hdb : s.lockDb with
  | none =>
    refine iff_of_false (by simp [lockNotConfigured, errorJson]) (not_not.mpr ?_)
    intro db lock hsome
    rw [hdb] at hsome
    cases hsome
  | some db =>
    dsimp only
    rcases unlock_cases hdb repo id force pubkey with
      ⟨hmay, ⟨db', hdelete⟩ | ⟨lock, db', hdelete⟩⟩ | ⟨hnot, hdelete⟩
    · rw [hdelete]
      exact iff_of_false (by simp [errorJson]) (not_not.mpr hmay)
    · rw [hdelete]
      exact iff_of_false (by simp [lockResponse]) (not_not.mpr hmay)
    · rw [hdelete]
      exact iff_of_true (by simp [notLockOwner, errorJson]) hnot

/-- A stream refuses an unlock to the same keys, and does the same for the others. -/
theorem handleLockDelete_spec [LawfulLockDatabase κ] (request : Transport.Request) (pubkey : String)
    (s : ServerState β δ ν κ) :
    (StreamRefused ⟨(Transport.handleLockDelete request (some pubkey) s).1, []⟩
        ↔ ¬ MayUnlock s request.repoId request.lockId request.force pubkey)
      ∧ (Transport.handleLockDelete request (some pubkey) s).2
        = (unlockAs request.repoId request.lockId request.force pubkey s).2 := by
  unfold Transport.handleLockDelete unlockAs
  dsimp only
  cases hdb : s.lockDb with
  | none =>
    refine ⟨iff_of_false (failure_not_refused _ (Or.inl rfl)) (not_not.mpr ?_), rfl⟩
    intro db lock hsome
    rw [hdb] at hsome
    cases hsome
  | some db =>
    dsimp only
    rcases unlock_cases hdb request.repoId request.lockId request.force pubkey with
      ⟨hmay, ⟨db', hdelete⟩ | ⟨lock, db', hdelete⟩⟩ | ⟨hnot, hdelete⟩
    · rw [hdelete]
      exact ⟨iff_of_false (failure_not_refused _ (Or.inl rfl)) (not_not.mpr hmay), rfl⟩
    · rw [hdelete]
      exact ⟨iff_of_false (descriptor_not_refused _) (not_not.mpr hmay), rfl⟩
    · rw [hdelete]
      exact ⟨iff_of_true (Or.inr (Or.inl rfl)) hnot, rfl⟩

end Answers

/-! ### Over HTTP -/

/-- What a handler asks of a key. -/
def LockOperation.HttpAllows [LockDatabase κ] [LawfulLockDatabase κ] (s : ServerState β δ ν κ)
    (pubkey : String) : LockOperation → Prop
  | create _ _ => s.isAllowed pubkey .lock = true
  | list _ _ => True
  | verify _ _ _ => True
  | unlock repo id force => MayUnlock s repo id force pubkey

section Http

variable [LockDatabase κ] {ext : Server.Externals} {http : HttpLockCall} {op : LockOperation}
  {w : World β δ ν κ}

/-- With a valid event a handler acts for the key of the event, and without one it refuses. -/
theorem handle_cases (ext : Server.Externals) (http : HttpLockCall) (op : LockOperation)
    (w : World β δ ν κ) :
    (∃ key, http.principal ext op w = some key
        ∧ (op.handle ext http w).1 = (op.actAs http key w.server).1
        ∧ (op.handle ext http w).2.server = (op.actAs http key w.server).2)
      ∨ (http.principal ext op w = none ∧ HttpRefused (op.handle ext http w).1) := by
  rw [LockOperation.handle_eq, asLocker, HttpLockCall.principal]
  cases extractAuthEvent ext.parser http.headers with
  | error e => exact Or.inr ⟨rfl, Or.inl rfl⟩
  | ok event =>
    dsimp only
    rcases verifyAuthEvent ext (http.call.clock 0) (http.call.clock 1) w.seen event "lock"
      w.server.baseUrl op.path op.method none with ⟨result, seen⟩
    cases result with
    | error e => exact Or.inr ⟨rfl, Or.inl rfl⟩
    | ok u => exact Or.inl ⟨event.pubkey, rfl, rfl, rfl⟩

theorem server_handle {key : String} (h : http.principal ext op w = some key) :
    (op.handle ext http w).2.server = (op.actAs http key w.server).2 := by
  rcases handle_cases ext http op w with ⟨key', hkey, -, hserver⟩ | ⟨hnone, -⟩
  · rwa [Option.some.inj (h.symm.trans hkey)]
  · cases h.symm.trans hnone

theorem actAs_refused_iff [LawfulLockDatabase κ] (key : String) (s : ServerState β δ ν κ) :
    HttpRefused (op.actAs http key s).1 ↔ ¬ op.HttpAllows s key := by
  cases op with
  | create repo path =>
    refine (createLockAs_refused_iff _ _ repo path key s).trans ?_
    rw [LockOperation.HttpAllows, Bool.not_eq_true]
  | list repo filters =>
    exact iff_of_false (listLocksOf_not_refused repo filters s) (not_not.mpr trivial)
  | verify repo cursor limit =>
    exact iff_of_false (verifyLocksAs_not_refused repo cursor limit key s) (not_not.mpr trivial)
  | unlock repo id force => exact unlockAs_refused_iff repo id force key s

/-- **HTTP authorizes** the keys that the handler allows, and nobody without a valid event. -/
theorem http_authorized_iff [LawfulLockDatabase κ] :
    ¬ HttpRefused (op.handle ext http w).1
      ↔ ∃ key, http.principal ext op w = some key ∧ op.HttpAllows w.server key := by
  rcases handle_cases ext http op w with ⟨key, hkey, hresponse, -⟩ | ⟨hnone, hrefused⟩
  · rw [hresponse, actAs_refused_iff, not_not, hkey]
    constructor
    · intro hallows
      exact ⟨key, rfl, hallows⟩
    · rintro ⟨_, ⟨⟩, hallows⟩
      exact hallows
  · refine iff_of_false (not_not.mpr hrefused) ?_
    rintro ⟨key, hkey, -⟩
    cases hnone.symm.trans hkey

end Http

/-! ### Over streams -/

section Streams

variable {ext : Transport.Externals} {stream : StreamLockCall} {w : Transport.Shared β δ ν κ}
  {s : ServerState β δ ν κ} {op : LockOperation}

/-- The operations of streams on locks that are bound to their parameters. -/
def Bound (request : Transport.Request) : Prop :=
  request.op = .lockCreate ∨ request.op = .lockDelete ∨ request.op = .lockVerify

theorem bound_binding (h : Bound stream.request) :
    stream.request.op ≠ .upload ∧ (Transport.requestAuthBinding stream.request).isSome = true := by
  unfold Transport.requestAuthBinding Transport.lockTuple
  rcases h with h | h | h <;> rw [h] <;> exact ⟨by decide, rfl⟩

theorem mutationAllowed_bound [BlobDatabase δ] (h : Bound stream.request) (key : String)
    (s : ServerState β δ ν κ) :
    Transport.mutationAllowed stream.request key s = s.isAllowed key .lock := by
  unfold Transport.mutationAllowed
  rcases h with h | h | h <;> rw [h]

theorem handleLockCreate_of_denied [LockDatabase κ] {freshId : String} {now : Nat}
    {request : Transport.Request} {pubkey : String} (hdenied : ¬ s.isAllowed pubkey .lock = true) :
    StreamRefused ⟨(Transport.handleLockCreate freshId now request (some pubkey) s).1, []⟩ := by
  unfold Transport.handleLockCreate
  dsimp only
  rw [if_neg hdenied]
  exact Or.inr (Or.inl rfl)

/-- Whom the handler lets unlock, the preflight does too. -/
theorem unlockAllowed_of_allows [LockDatabase κ] [LawfulLockDatabase κ] (hop : op.Requested stream.request)
    {key : String} (hallows : op.HttpAllows s key) :
    Transport.unlockAllowed stream.request key s = true := by
  unfold Transport.unlockAllowed
  cases op with
  | create repo path => rw [hop.1]
  | list repo filters => rw [hop.1]
  | verify repo cursor limit => rw [hop.1]
  | unlock repo id force =>
    obtain ⟨hop, rfl, rfl, rfl⟩ := hop
    rw [hop]
    cases hdb : s.lockDb with
    | none => rfl
    | some db =>
      dsimp only
      rw [LawfulLockDatabase.getLock_eq]
      cases hfind : LawfulLockDatabase.find db stream.request.repoId stream.request.lockId with
      | none => rfl
      | some lock =>
        rcases hallows db lock hdb hfind with howner | ⟨-, hadmin⟩
        · simp [howner]
        · simp [hadmin]

/-- The handlers do not look at the rate limiter. -/
theorem lockDb_actAs [LockDatabase κ] (op : LockOperation) (http : HttpLockCall) (key : String)
    (s : ServerState β δ ν κ) (limiter : Option RateLimit.RateLimiter) :
    (op.actAs http key { s with rateLimiter := limiter }).2.lockDb
      = (op.actAs http key s).2.lockDb := by
  cases op with
  | create repo path =>
    refine (lockDb_createLockAs _ _ repo path key _).trans ?_
    exact (lockDb_createLockAs http.freshId (http.call.clock 2) repo path key s).symm
  | list repo filters => rfl
  | verify repo cursor limit => rfl
  | unlock repo id force =>
    refine (lockDb_unlockAs repo id force key _).trans ?_
    exact (lockDb_unlockAs repo id force key s).symm

/-- The preflight lets a key through that may change what it asks for and has not asked too often. -/
theorem preflightMutation_cases [BlobDatabase δ] [LockDatabase κ] (request : Transport.Request)
    (auth : Transport.VerifiedAuth) (nowMs : Nat) (s : ServerState β δ ν κ) :
    ((Transport.mutationAllowed request auth.pubkey s = true
          ∧ Transport.unlockAllowed request auth.pubkey s = true
          ∧ (s.checkRate auth.pubkey nowMs).1 = true)
        ∧ ∃ limiter, Transport.preflightMutation request auth nowMs s
          = (.ok (), { s with rateLimiter := limiter }))
      ∨ (¬ (Transport.mutationAllowed request auth.pubkey s = true
          ∧ Transport.unlockAllowed request auth.pubkey s = true
          ∧ (s.checkRate auth.pubkey nowMs).1 = true)
        ∧ ∃ response s', Transport.preflightMutation request auth nowMs s = (.error response, s')
          ∧ StreamRefused ⟨response, []⟩) := by
  unfold Transport.preflightMutation
  dsimp only
  by_cases hallowed : Transport.mutationAllowed request auth.pubkey s = true
  · rw [Checks.require, if_pos hallowed, Checks.ok_bind]
    by_cases howner : Transport.unlockAllowed request auth.pubkey s = true
    · rw [Checks.require, if_pos howner, Transport.thenRateLimit, Transport.checkRateLimit]
      cases hresult : s.checkRate auth.pubkey nowMs with
      | mk within s' =>
        cases within with
        | true =>
          obtain ⟨limiter, hlimiter⟩ := checkRate_eq (congrArg Prod.fst hresult)
          refine Or.inl ⟨⟨hallowed, howner, rfl⟩, limiter, ?_⟩
          rw [← (Prod.mk.inj (hresult.symm.trans hlimiter)).2]
        | false =>
          exact Or.inr ⟨fun h => absurd h.2.2 Bool.false_ne_true, _, s', rfl,
            Or.inr (Or.inr rfl)⟩
    · rw [Checks.require, if_neg howner]
      exact Or.inr ⟨fun h => howner h.2.1, _, s, rfl, Or.inr (Or.inl rfl)⟩
  · rw [Checks.require, if_neg hallowed]
    exact Or.inr ⟨fun h => hallowed h.1, _, s, rfl, Or.inr (Or.inl rfl)⟩

variable [BlobBackend β] [BlobDatabase δ] [LfsVersionDatabase ν] [LockDatabase κ]

/-- What the gate of a stream asks of an event that passed its check. -/
structure Gate (stream : StreamLockCall) (w : Transport.Shared β δ ν κ)
    (auth : Transport.VerifiedAuth) : Prop where
  allowed : Transport.mutationAllowed stream.request auth.pubkey w.server = true
  owner : Transport.unlockAllowed stream.request auth.pubkey w.server = true
  rate : (w.server.checkRate auth.pubkey stream.checked.nowMs).1 = true
  fresh : (w.seen.commit auth.eventId auth.pubkey stream.committed.now.secs).1 = true

/-- The operation of a stream for a key, under the lock. -/
def StreamLockCall.serve (ext : Transport.Externals) (stream : StreamLockCall) (pubkey : Option String)
    (s : ServerState β δ ν κ) : Transport.Reply × ServerState β δ ν κ :=
  Transport.dispatch ext stream.served.call stream.served.freshId stream.request pubkey [] s

/-- A stream that gets through the gate runs its operation, and any other one is refused. -/
theorem finish_bound (ext : Transport.Externals) (hbound : Bound stream.request)
    (w : Transport.Shared β δ ν κ) (auth : Transport.VerifiedAuth) :
    (Gate stream w auth ∧ ∃ limiter shared,
        finishStream ext [stream.checked, stream.committed, stream.served]
            ⟨stream.request, some auth, stream.opened, .verified⟩ w
          = (some (stream.serve ext (some auth.pubkey)
              { w.server with rateLimiter := limiter }).1, shared)
        ∧ shared.server = (stream.serve ext (some auth.pubkey)
          { w.server with rateLimiter := limiter }).2)
      ∨ (¬ Gate stream w auth ∧ ∃ reply shared,
        finishStream ext [stream.checked, stream.committed, stream.served]
            ⟨stream.request, some auth, stream.opened, .verified⟩ w = (some reply, shared)
        ∧ StreamRefused reply) := by
  obtain ⟨hop, hbinding⟩ := bound_binding hbound
  rw [finishStream, Transport.advance, if_neg hop, if_pos hbinding]
  dsimp only
  rw [Transport.preflight]
  rcases preflightMutation_cases stream.request auth stream.checked.nowMs w.server with
    ⟨⟨hallowed, howner, hrate⟩, limiter, hpreflight⟩ | ⟨hnot, response, s', hpreflight, hrefused⟩
  · rw [hpreflight]
    dsimp only
    rw [finishStream, Transport.advance, if_neg hop, if_pos hbinding]
    dsimp only
    rw [Transport.commitStream]
    dsimp only
    cases hcommit : w.seen.commit auth.eventId auth.pubkey stream.committed.now.secs with
    | mk fresh seen =>
      cases fresh with
      | true =>
        refine Or.inl ⟨⟨hallowed, howner, hrate, by rw [hcommit]⟩, limiter, ?_⟩
        dsimp only
        rw [finishStream, Transport.advance, if_neg hop, if_pos hbinding]
        exact ⟨_, rfl, rfl⟩
      | false =>
        refine Or.inr ⟨fun h => ?_, _, _, rfl, Or.inl rfl⟩
        have hfresh := h.fresh
        rw [hcommit] at hfresh
        cases hfresh
  · rw [hpreflight]
    exact Or.inr ⟨fun h => hnot ⟨h.allowed, h.owner, h.rate⟩, _, _, rfl, hrefused⟩

/-- Under the lock a stream refuses whom the handler refuses. -/
theorem serve_refused_iff [LawfulLockDatabase κ] (hop : op.Requested stream.request) (key : String)
    (s : ServerState β δ ν κ) :
    StreamRefused (stream.serve ext (some key) s).1 ↔ ¬ op.HttpAllows s key := by
  unfold StreamLockCall.serve Transport.dispatch
  cases op with
  | create repo path =>
    rw [hop.1]
    by_cases hallowed : s.isAllowed key .lock = true
    · exact iff_of_false (handleLockCreate_of_allowed hallowed).1 (not_not.mpr hallowed)
    · exact iff_of_true (handleLockCreate_of_denied hallowed) hallowed
  | list repo filters =>
    rw [hop.1]
    exact iff_of_false (lockListing_not_refused _ _ s) (not_not.mpr trivial)
  | verify repo cursor limit =>
    rw [hop.1]
    exact iff_of_false (lockListing_not_refused _ _ s) (not_not.mpr trivial)
  | unlock repo id force =>
    obtain ⟨hop, rfl, rfl, rfl⟩ := hop
    rw [hop]
    exact (handleLockDelete_spec stream.request key s).1

/-- Under the lock a stream does to the locks what the handler does. -/
theorem lockDb_serve [LawfulLockDatabase κ] {http : HttpLockCall}
    (hop : op.Requested stream.request) (hid : http.freshId = stream.served.freshId)
    (hclock : http.call.clock 2 = stream.served.now.secs) {key : String}
    (hallows : op.HttpAllows s key) :
    (stream.serve ext (some key) s).2.lockDb = (op.actAs http key s).2.lockDb := by
  unfold StreamLockCall.serve Transport.dispatch
  cases op with
  | create repo path =>
    obtain ⟨hop, rfl, rfl⟩ := hop
    rw [hop, LockOperation.actAs, hid, hclock]
    exact congrArg ServerState.lockDb (handleLockCreate_of_allowed hallows).2
  | list repo filters =>
    rw [hop.1]
    rfl
  | verify repo cursor limit =>
    rw [hop.1]
    rfl
  | unlock repo id force =>
    obtain ⟨hop, rfl, rfl, rfl⟩ := hop
    rw [hop]
    exact congrArg ServerState.lockDb (handleLockDelete_spec stream.request key s).2

/-- The stream is answered, and not refused. -/
def StreamLockCall.Authorized (ext : Transport.Externals) (stream : StreamLockCall)
    (w : Transport.Shared β δ ν κ) : Prop :=
  ∃ reply, (stream.answer ext w).1 = some reply ∧ ¬ StreamRefused reply

theorem not_authorized_of_refused {reply : Transport.Reply} (h : (stream.answer ext w).1 = some reply)
    (hrefused : StreamRefused reply) : ¬ stream.Authorized ext w := by
  rintro ⟨reply', hreply, hnot⟩
  obtain rfl : reply = reply' := Option.some.inj (h.symm.trans hreply)
  exact hnot hrefused

/-- A stream with a lock operation is opened unless its event fails the check. -/
theorem openStream_lock (ext : Transport.Externals)
    (h : Bound stream.request ∨ stream.request.op = .lockList) :
    Transport.openStream ext stream.receiver stream.request stream.opened
      = if stream.request.auth = "" then
          .ok ⟨stream.request, none, stream.opened, .verified⟩
        else
          match stream.verified ext with
          | .error e => .error (.failure .unauthorized e)
          | .ok auth => .ok ⟨stream.request, some auth, stream.opened, .verified⟩ := by
  unfold Transport.openStream
  rw [if_neg]
  · rfl
  · rintro ⟨hmem, -⟩
    rcases h with (h | h | h) | h <;> rw [h] at hmem <;> exact absurd hmem (by decide)

/-- What a stream asks of a key for a bound operation. -/
structure StreamAllows [LawfulLockDatabase κ] (stream : StreamLockCall) (op : LockOperation)
    (s : ServerState β δ ν κ) (key : String) : Prop where
  policy : s.isAllowed key .lock = true
  rate : (s.checkRate key stream.checked.nowMs).1 = true
  handler : op.HttpAllows s key

/-- A bound operation acts for a key with a valid event that it allows, and is refused otherwise. -/
theorem answer_bound_cases [LawfulLockDatabase κ] (ext : Transport.Externals)
    (hop : op.Requested stream.request) (hbound : Bound stream.request)
    (w : Transport.Shared β δ ν κ) :
    (∃ key limiter, stream.principal ext w = some key ∧ StreamAllows stream op w.server key
        ∧ (stream.answer ext w).1
          = some (stream.serve ext (some key) { w.server with rateLimiter := limiter }).1
        ∧ (stream.answer ext w).2.server
          = (stream.serve ext (some key) { w.server with rateLimiter := limiter }).2)
      ∨ ((∀ key, stream.principal ext w = some key → ¬ StreamAllows stream op w.server key)
        ∧ ∃ reply, (stream.answer ext w).1 = some reply ∧ StreamRefused reply) := by
  have hopen := openStream_lock ext (Or.inl hbound)
  unfold StreamLockCall.answer answerStream StreamLockCall.principal
  rw [hopen]
  by_cases hauth : stream.request.auth = ""
  · -- no event
    rw [if_pos hauth, if_pos hauth]
    obtain ⟨hupload, hbinding⟩ := bound_binding hbound
    refine Or.inr ⟨(by rintro _ ⟨⟩), .failure .unauthorized "auth required", ?_, Or.inl rfl⟩
    dsimp only
    rw [finishStream, Transport.advance, if_neg hupload, if_pos hbinding]
  · rw [if_neg hauth, if_neg hauth]
    cases hverified : stream.verified ext with
    | error e => exact Or.inr ⟨(by rintro _ ⟨⟩), _, rfl, Or.inl rfl⟩
    | ok auth =>
      dsimp only
      rcases finish_bound ext hbound w auth with
        ⟨hgate, limiter, shared, hfinish, hserver⟩ | ⟨hnot, reply, shared, hfinish, hrefused⟩
      · rw [hfinish, if_pos hgate.fresh]
        have hpolicy : w.server.isAllowed auth.pubkey .lock = true := by
          rw [← mutationAllowed_bound hbound]
          exact hgate.allowed
        by_cases hallows : op.HttpAllows w.server auth.pubkey
        · exact Or.inl ⟨auth.pubkey, limiter, rfl, ⟨hpolicy, hgate.rate, hallows⟩, rfl, hserver⟩
        · refine Or.inr ⟨?_, _, rfl, (serve_refused_iff hop auth.pubkey _).mpr hallows⟩
          rintro _ ⟨⟩ hstream
          exact hallows hstream.handler
      · rw [hfinish]
        refine Or.inr ⟨?_, reply, rfl, hrefused⟩
        intro key hkey hstream
        obtain ⟨hfresh, hkey⟩ := Option.ite_none_right_eq_some.mp hkey
        obtain rfl := Option.some.inj hkey
        refine hnot ⟨?_, unlockAllowed_of_allows hop hstream.handler, hstream.rate, hfresh⟩
        rw [mutationAllowed_bound hbound]
        exact hstream.policy

/-- **A bound operation of a stream is authorized** for the keys with a valid event that it allows. -/
theorem stream_authorized_iff [LawfulLockDatabase κ] (hop : op.Requested stream.request)
    (hbound : Bound stream.request) :
    stream.Authorized ext w
      ↔ ∃ key, stream.principal ext w = some key ∧ StreamAllows stream op w.server key := by
  rcases answer_bound_cases ext hop hbound w with
    ⟨key, limiter, hkey, hallows, hreply, -⟩ | ⟨hnot, reply, hreply, hrefused⟩
  · refine iff_of_true ⟨_, hreply, ?_⟩ ⟨key, hkey, hallows⟩
    exact fun hrefused => (serve_refused_iff hop key _).mp hrefused hallows.handler
  · refine iff_of_false (not_authorized_of_refused hreply hrefused) ?_
    rintro ⟨key, hkey, hallows⟩
    exact hnot key hkey hallows

/-- A listing changes nothing and refuses nobody. -/
theorem finish_list (ext : Transport.Externals) (hop : stream.request.op = .lockList)
    (w : Transport.Shared β δ ν κ) (auth : Option Transport.VerifiedAuth) :
    ∃ shared, finishStream ext [stream.checked, stream.committed, stream.served]
        ⟨stream.request, auth, stream.opened, .verified⟩ w
        = (some ⟨Transport.handleLockList stream.request w.server, []⟩, shared)
      ∧ shared.server = w.server := by
  have hupload : stream.request.op ≠ .upload := by
    rw [hop]
    decide
  have hbinding : ¬ (Transport.requestAuthBinding stream.request).isSome = true := by
    unfold Transport.requestAuthBinding Transport.lockTuple
    rw [hop]
    exact Bool.false_ne_true
  rw [finishStream, Transport.advance, if_neg hupload, if_neg hbinding, Transport.runStream,
    Transport.dispatch, hop]
  exact ⟨_, rfl, rfl⟩

/-- A listing needs no event.  One that is there must pass its check. -/
theorem stream_list_spec (ext : Transport.Externals) (hop : stream.request.op = .lockList)
    (w : Transport.Shared β δ ν κ) :
    (stream.Authorized ext w ↔ stream.Admissible ext)
      ∧ (stream.answer ext w).2.server = w.server := by
  unfold StreamLockCall.Authorized StreamLockCall.answer answerStream StreamLockCall.Admissible
  rw [openStream_lock ext (Or.inr hop)]
  by_cases hauth : stream.request.auth = ""
  · rw [if_pos hauth]
    obtain ⟨shared, hfinish, hserver⟩ := finish_list ext hop w none
    dsimp only
    rw [hfinish]
    exact ⟨iff_of_true ⟨_, rfl, lockListing_not_refused _ _ _⟩ (Or.inl hauth), hserver⟩
  · rw [if_neg hauth]
    cases hverified : stream.verified ext with
    | error e =>
      refine ⟨iff_of_false ?_ ?_, rfl⟩
      · rintro ⟨reply, hreply, hnot⟩
        obtain rfl := Option.some.inj hreply
        exact hnot (Or.inl rfl)
      · rintro (hempty | ⟨auth, hok⟩)
        · exact hauth hempty
        · cases hok
    | ok auth =>
      obtain ⟨shared, hfinish, hserver⟩ := finish_list ext hop w (some auth)
      dsimp only
      rw [hfinish]
      exact ⟨iff_of_true ⟨_, rfl, lockListing_not_refused _ _ _⟩ (Or.inr ⟨auth, rfl⟩), hserver⟩

end Streams

/-! ### Both -/

section Both

variable [BlobBackend β] [BlobDatabase δ] [LfsVersionDatabase ν] [LockDatabase κ]

/-- Over HTTP the caller is not refused. -/
def HttpLockCall.Authorized (ext : Server.Externals) (http : HttpLockCall) (op : LockOperation)
    (w : World β δ ν κ) : Prop :=
  ¬ HttpRefused (op.handle ext http w).1

/-- One operation with the same parameters, sent over both transports by one principal: a key with an
event that is valid there, or somebody without a valid event.  A new lock would get the same id and the
same time. -/
structure SameLockCall (ext : Transport.Externals) (site : Site β δ ν κ) (op : LockOperation)
    (principal : Option String) (http : HttpLockCall) (stream : StreamLockCall) : Prop where
  requested : op.Requested stream.request
  sentHttp : http.principal ext.toExternals op site.http = principal
  sentStream : stream.principal ext site.streams = principal
  freshId : http.freshId = stream.served.freshId
  clock : http.call.clock 2 = stream.served.now.secs

/-- The transports authorize the same calls, of principals with a valid event only, and an authorized
call has the same effect on the locks. -/
structure TransportsAgree (ext : Transport.Externals) (site : Site β δ ν κ) (op : LockOperation)
    (principal : Option String) (http : HttpLockCall) (stream : StreamLockCall) : Prop where
  authorized : http.Authorized ext.toExternals op site.http ↔ stream.Authorized ext site.streams
  valid : stream.Authorized ext site.streams → principal.isSome = true
  effect : http.Authorized ext.toExternals op site.http →
    (op.handle ext.toExternals http site.http).2.server.lockDb
      = (stream.answer ext site.streams).2.server.lockDb

/-- The policy lets a key lock, and the key has not asked too often. -/
def LockGate (s : ServerState β δ ν κ) (key : String) (nowMs : Nat) : Prop :=
  s.isAllowed key .lock = true ∧ (s.checkRate key nowMs).1 = true

/-- Where the two gates come to the same. -/
def LockOperation.GatesAgree [LawfulLockDatabase κ] (ext : Transport.Externals) (site : Site β δ ν κ)
    (principal : Option String) (stream : StreamLockCall) : LockOperation → Prop
  | create _ _ => ∀ key, principal = some key → site.server.isAllowed key .lock = true →
      (site.server.checkRate key stream.checked.nowMs).1 = true
  | list _ _ => principal = none → ¬ stream.Admissible ext
  | verify _ _ _ => ∀ key, principal = some key →
      LockGate site.server key stream.checked.nowMs
  | unlock repo id force => ∀ key, principal = some key → MayUnlock site.server repo id force key →
      LockGate site.server key stream.checked.nowMs

variable {ext : Transport.Externals} {site : Site β δ ν κ} {op : LockOperation}
  {principal : Option String} {http : HttpLockCall} {stream : StreamLockCall}

section

variable (h : SameLockCall ext site op principal http stream)
include h

omit [BlobBackend β] [BlobDatabase δ] [LfsVersionDatabase ν] in
theorem SameLockCall.http_iff [LawfulLockDatabase κ] :
    http.Authorized ext.toExternals op site.http
      ↔ ∃ key, principal = some key ∧ op.HttpAllows site.server key := by
  rw [← h.sentHttp]
  exact http_authorized_iff

/-- When an authorized bound operation has the same effect over both transports: always. -/
theorem SameLockCall.effect [LawfulLockDatabase κ] (hbound : Bound stream.request)
    (hauthorized : stream.Authorized ext site.streams) :
    (op.handle ext.toExternals http site.http).2.server.lockDb
      = (stream.answer ext site.streams).2.server.lockDb := by
  rcases answer_bound_cases ext h.requested hbound site.streams with
    ⟨key, limiter, hkey, hallows, -, hserver⟩ | ⟨-, reply, hreply, hrefused⟩
  · have hprincipal : http.principal ext.toExternals op site.http = some key := by
      rw [h.sentHttp, ← h.sentStream, hkey]
    calc (op.handle ext.toExternals http site.http).2.server.lockDb
        = (op.actAs http key site.server).2.lockDb :=
          congrArg ServerState.lockDb (server_handle hprincipal)
      _ = (op.actAs http key { site.server with rateLimiter := limiter }).2.lockDb :=
          (lockDb_actAs op http key site.server limiter).symm
      _ = (stream.serve ext (some key) { site.server with rateLimiter := limiter }).2.lockDb :=
          (lockDb_serve (s := { site.server with rateLimiter := limiter }) h.requested h.freshId
            h.clock hallows.handler).symm
      _ = (stream.answer ext site.streams).2.server.lockDb :=
          (congrArg ServerState.lockDb hserver).symm
  · exact absurd hauthorized (not_authorized_of_refused hreply hrefused)

/-- For a bound operation the gate of the stream must let through whom the handler allows. -/
theorem SameLockCall.agree_bound_iff [LawfulLockDatabase κ] (hbound : Bound stream.request) :
    TransportsAgree ext site op principal http stream
      ↔ ∀ key, principal = some key → op.HttpAllows site.server key →
        LockGate site.server key stream.checked.nowMs := by
  have hhttp := h.http_iff
  have hstream : stream.Authorized ext site.streams
      ↔ ∃ key, principal = some key ∧ StreamAllows stream op site.server key := by
    rw [← h.sentStream]
    exact stream_authorized_iff h.requested hbound
  constructor
  · intro hagree key hkey hallows
    obtain ⟨key', hkey', hgate⟩ := hstream.mp (hagree.authorized.mp (hhttp.mpr ⟨key, hkey, hallows⟩))
    obtain rfl : key = key' := Option.some.inj (hkey.symm.trans hkey')
    exact ⟨hgate.policy, hgate.rate⟩
  · intro hgates
    have hauthorized : http.Authorized ext.toExternals op site.http
        ↔ stream.Authorized ext site.streams := by
      rw [hhttp, hstream]
      constructor
      · rintro ⟨key, hkey, hallows⟩
        obtain ⟨hpolicy, hrate⟩ := hgates key hkey hallows
        exact ⟨key, hkey, hpolicy, hrate, hallows⟩
      · rintro ⟨key, hkey, hallows⟩
        exact ⟨key, hkey, hallows.handler⟩
    refine ⟨hauthorized, ?_, fun hhttp => h.effect hbound (hauthorized.mp hhttp)⟩
    intro hsome
    obtain ⟨key, hkey, -⟩ := hstream.mp hsome
    rw [hkey]
    rfl

end

/-- A listing is authorized over HTTP with a valid event, and over a stream also without any event. -/
theorem SameLockCall.agree_list_iff [LawfulLockDatabase κ] {repo : String} {filters : LockFilters}
    (h : SameLockCall ext site (.list repo filters) principal http stream) :
    TransportsAgree ext site (.list repo filters) principal http stream
      ↔ (principal = none → ¬ stream.Admissible ext) := by
  obtain ⟨hstream, hserver⟩ := stream_list_spec ext h.requested.1 site.streams
  have hhttp := h.http_iff
  cases hprincipal : principal with
  | none =>
    rw [hprincipal] at hhttp
    have hnot : ¬ http.Authorized ext.toExternals (.list repo filters) site.http := by
      intro hauthorized
      obtain ⟨key, hkey, -⟩ := hhttp.mp hauthorized
      cases hkey
    constructor
    · intro hagree _ hadmissible
      exact hnot (hagree.authorized.mpr (hstream.mpr hadmissible))
    · intro hnone
      have hrefused := mt hstream.mp (hnone rfl)
      exact ⟨iff_of_false hnot hrefused, fun hs => absurd hs hrefused, fun hh => absurd hh hnot⟩
  | some key =>
    have hkey : http.principal ext.toExternals (.list repo filters) site.http = some key := by
      rw [h.sentHttp, hprincipal]
    have hadmissible : stream.Admissible ext := by
      have hsent := h.sentStream
      unfold StreamLockCall.principal at hsent
      rw [hprincipal] at hsent
      split at hsent
      · cases hsent
      · split at hsent
        · cases hsent
        · exact Or.inr ⟨_, by assumption⟩
    refine iff_of_true ⟨?_, fun _ => rfl, fun _ => ?_⟩ nofun
    · exact iff_of_true (hhttp.mpr ⟨key, hprincipal, trivial⟩) (hstream.mpr hadmissible)
    · rw [hserver, server_handle hkey]
      rfl

/-- **Lock operations over both transports** are authorized alike, with the same effect, exactly where
the gates of the two transports come to the same. -/
theorem lock_operations_agree_iff [LawfulLockDatabase κ]
    (h : SameLockCall ext site op principal http stream) :
    TransportsAgree ext site op principal http stream
      ↔ op.GatesAgree ext site principal stream := by
  cases op with
  | create repo path =>
    rw [h.agree_bound_iff (Or.inl h.requested.1)]
    refine forall₂_congr fun key _ => ?_
    exact ⟨fun hgate hallowed => (hgate hallowed).2, fun hrate hallowed =>
      ⟨hallowed, hrate hallowed⟩⟩
  | list repo filters => exact h.agree_list_iff
  | verify repo cursor limit =>
    rw [h.agree_bound_iff (Or.inr (Or.inr h.requested.1))]
    exact forall₂_congr fun key _ => ⟨fun hgate => hgate trivial, fun hgate _ => hgate⟩
  | unlock repo id force => exact h.agree_bound_iff (Or.inr (Or.inl h.requested.1))

end Both

/-! ### A lock that both make, and a listing for anybody -/

/-- An open server with a lock store. -/
def openLocks : Site MemoryBackend MemoryDatabase MemoryLfsVersionDatabase MemoryLockDatabase :=
  let server : ServerState MemoryBackend MemoryDatabase MemoryLfsVersionDatabase MemoryLockDatabase :=
    .new MemoryBackend.new serverUrl
  ⟨{ server with lockDb := some .new }, seenAuthEvents, .new 10000 256, 0⟩

/-- A signed call is made by the key that signed it. -/
theorem principal_signed {r : SignedRequest} (hr : r.WellFormed) {events : List NostrEvent}
    (hmem : r.event ∈ events) (haction : r.action = "lock") {op : LockOperation}
    (hpath : r.path = op.path) (hmethod : r.method = op.method) {w : World β δ ν κ}
    (hbase : w.server.baseUrl = serverUrl) (hseen : w.seen = seenAuthEvents) (freshId : String) :
    HttpLockCall.principal (.knowing events) ⟨r.call, r.headers, freshId⟩ op w
      = some r.event.pubkey := by
  have hnone : ∀ x, none = some x → r.hash = some x := by simp
  obtain ⟨seen, hverified⟩ := SignedRequest.verifies hr hmem hnone (lapsed_seenAuthEvents r.time)
  rw [haction, hpath, hmethod, ← hbase, ← hseen] at hverified
  unfold HttpLockCall.principal
  dsimp only
  rw [SignedRequest.extractAuthEvent_headers hmem]
  dsimp only
  rw [show r.call.clock 0 = r.time from rfl, show r.call.clock 1 = r.time from rfl, hverified]

theorem principal_verified {ext : Transport.Externals} {stream : StreamLockCall}
    {auth : Transport.VerifiedAuth} (hauth : stream.request.auth ≠ "")
    (hverified : stream.verified ext = .ok auth) {w : Transport.Shared β δ ν κ}
    (hseen : w.seen = .new 10000 256) : stream.principal ext w = some auth.pubkey := by
  have hfresh := Transport.call_new ⟨auth.pubkey, auth.eventId, stream.committed.now.secs⟩
  unfold StreamLockCall.principal
  rw [if_neg hauth, hverified, hseen]
  exact if_pos hfresh

/-- A new lock on a file of the repository, for a stream. -/
def createRequest : Transport.Request :=
  { Transport.Request.of .lockCreate with repoId := "r", lockPath := "a" }

def createEvent : NostrEvent :=
  Transport.peerEvent
    (0x106da829a77eddd698bbc70b3a0ff229dc4adc056fa48fc55b5dee2def59c9a7,
      0x246d3ef525fa47aefd445c434e15a5b3d44f683a0af035e1756a6a74113f6a97)
    createRequest

def createExternals : Transport.Externals :=
  .knowing [lockSigned.event, createEvent]

def createHttp : HttpLockCall :=
  ⟨lockSigned.call, lockSigned.headers, "7"⟩

def createStream : StreamLockCall :=
  let moment : Transport.Moment := ⟨⟨1700000000, by decide⟩, 0, "7", none⟩
  { receiver := "iroh://peer"
    request := { createRequest with auth := authHeaderValue createEvent }
    opened := moment.now
    checked := moment
    committed := moment
    served := moment }

theorem verified_createStream :
    createStream.verified createExternals = .ok ⟨createEvent.pubkey, createEvent.id⟩ := by
  have hmem : createEvent ∈ [lockSigned.event, createEvent] :=
    List.mem_cons_of_mem _ (List.mem_singleton_self _)
  exact Transport.verifyAuth_peerEvent hmem rfl rfl ⟨rfl, rfl, rfl, rfl⟩ _ (by decide) (by decide)

theorem sameLockCall_create :
    SameLockCall createExternals openLocks (.create "r" "a") (some testKey) createHttp createStream where
  requested := ⟨rfl, rfl, rfl⟩
  sentHttp := principal_signed (by decide) List.mem_cons_self rfl rfl rfl rfl rfl "7"
  sentStream := principal_verified (authHeaderValue_ne_empty createEvent) verified_createStream rfl
  freshId := rfl
  clock := rfl

/-- Both transports make the lock, for a key that may lock. -/
theorem new_lock_over_both :
    TransportsAgree createExternals openLocks (.create "r" "a") (some testKey) createHttp
      createStream := by
  refine (lock_operations_agree_iff sameLockCall_create).mpr ?_
  intro key _ _
  rfl

theorem epoch_lt : 0 < 2 ^ 63 := by
  decide

/-- A listing without an event. -/
def plainListing : StreamLockCall :=
  let moment : Transport.Moment := ⟨⟨0, epoch_lt⟩, 0, "", none⟩
  ⟨"", Transport.Request.of .lockList, moment.now, moment, moment, moment⟩

/-- Anybody lists the locks of a repository over a stream.  Over HTTP nobody does without an event. -/
theorem anonymous_listing :
    SameLockCall (.knowing []) openLocks (.list "" ⟨none, none, none, none⟩) none
        ⟨⟨fun _ => 0, 0, 0⟩, ⟨none, none, none⟩, ""⟩ plainListing
      ∧ ¬ TransportsAgree (.knowing []) openLocks (.list "" ⟨none, none, none, none⟩) none
        ⟨⟨fun _ => 0, 0, 0⟩, ⟨none, none, none⟩, ""⟩ plainListing := by
  have hsame : SameLockCall (.knowing []) openLocks (.list "" ⟨none, none, none, none⟩) none
      ⟨⟨fun _ => 0, 0, 0⟩, ⟨none, none, none⟩, ""⟩ plainListing :=
    ⟨⟨rfl, rfl, rfl⟩, rfl, rfl, rfl, rfl⟩
  refine ⟨hsame, fun hagree => ?_⟩
  have hnone := hagree.valid ((stream_list_spec _ rfl _).1.mpr (Or.inl rfl))
  cases hnone

end BlossomRs.System

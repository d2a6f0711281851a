import BlossomRs.Locks.Lawful
import BlossomRs.System.Revocation
import BlossomRs.System.Roles
import BlossomRs.Transport.Stream

/-!
# Keys without access

A key whose role is `Denied` has no access at all.  Each handler sees to that by itself, with a check
of its own before it changes anything.  `denied_changes_nothing_iff` goes through all of them: a request
signed by a denied key leaves the server as it was, unless it is an unlock over HTTP of a lock the key
took before it was denied.  That handler asks for the role only to tell administrators apart.
-/

namespace BlossomRs.System

open Protocol Auth Storage Database Access Lfs Locks Server

variable {β δ ν κ : Type}

/-! ### Policies -/

/-- A policy under which denied keys may do nothing.  The policies of this server are of this kind;
another implementation has to see to it. -/
def DeniesAll : AccessPolicy → Prop
  | .fixed isAllowed role =>
    ∀ pubkey, role pubkey = .denied → ∀ action, isAllowed pubkey action = false
  | _ => True

variable {s : ServerState β δ ν κ} {events : List NostrEvent} {repo id pubkey : String}

theorem isAllowed_of_denied (hpolicy : DeniesAll s.access) (hdenied : s.role pubkey = .denied)
    (action : Action) : s.isAllowed pubkey action = false := by
  unfold ServerState.role at hdenied
  unfold ServerState.isAllowed
  cases hcase : s.access with
  | openAccess =>
    rw [hcase] at hdenied
    cases hdenied
  | liveWhitelist =>
    rw [hcase] at hdenied
    cases hlist : s.whitelist with
    | none => rfl
    | some whitelist =>
      simp only [hlist, AccessPolicy.role, Option.map_some, Option.getD_some,
        Whitelist.role] at hdenied
      split at hdenied
      · cases hdenied
      · -- the list makes no difference between actions
        rename_i hnot
        exact Bool.eq_false_iff.mpr hnot
  | liveRoles =>
    rw [hcase] at hdenied
    cases hroles : s.roleBasedAccess with
    | none => rfl
    | some roles =>
      have hrole : roles.role pubkey = .denied := by
        simpa only [hroles, AccessPolicy.role, Option.map_some, Option.getD_some] using hdenied
      simp only [AccessPolicy.isAllowed, Option.any_some, RoleBasedAccess.isAllowed, hrole]
  | fixed isAllowed role =>
    rw [hcase] at hdenied hpolicy
    exact hpolicy pubkey hdenied action

/-! ### Requests over HTTP -/

/-- A request that can change something, with what the environment supplies to it. -/
inductive HttpRequest where
  | store (request : StoringRequest)
  | delete (call : Call) (headers : HeaderMap) (hash : String)
  | nip96Delete (call : Call) (headers : HeaderMap) (hash : String)
  | createLock (call : Call) (freshId : String) (headers : HeaderMap) (repo path : String)
  | unlock (call : Call) (headers : HeaderMap) (repo id : String) (force : Bool)
  | getUser (call : Call) (headers : HeaderMap) (pubkey : String)
  | setQuota (call : Call) (headers : HeaderMap) (pubkey : String) (quotaBytes : Option Nat)
  | setRole (call : Call) (headers : HeaderMap) (pubkey role : String)
  | whitelistAdd (call : Call) (headers : HeaderMap) (pubkey : String)
  | whitelistRemove (call : Call) (headers : HeaderMap) (pubkey : String)
  | adminDelete (call : Call) (headers : HeaderMap) (hash : String)

def storingHeaders : StoringRequest → HeaderMap
  | .upload _ headers _ | .nip96 _ headers _ | .media _ _ headers _ | .mirror _ _ headers _ => headers

def HttpRequest.headers : HttpRequest → HeaderMap
  | .store request => storingHeaders request
  | .delete _ headers _ | .nip96Delete _ headers _ | .createLock _ _ headers _ _
  | .unlock _ headers _ _ _ | .getUser _ headers _ | .setQuota _ headers _ _
  | .setRole _ headers _ _ | .whitelistAdd _ headers _ | .whitelistRemove _ headers _
  | .adminDelete _ headers _ => headers

/-- The handler of a request. -/
def HttpRequest.handle [BlobBackend β] [BlobDatabase δ] [LfsVersionDatabase ν] [LockDatabase κ]
    (ext : Server.Externals) : HttpRequest → World β δ ν κ → Server.Response × World β δ ν κ
  | .store request => request.handle ext
  | .delete call headers hash => handleDeleteBlob ext call headers hash
  | .nip96Delete call headers hash => handleNip96Delete ext call headers hash
  | .createLock call freshId headers repo path => handleCreateLock ext call freshId headers repo path
  | .unlock call headers repo id force => handleUnlock ext call headers repo id force
  | .getUser call headers pubkey => handleGetUser ext call headers pubkey
  | .setQuota call headers pubkey quotaBytes => handleSetQuota ext call headers pubkey quotaBytes
  | .setRole call headers pubkey role => handleSetRole ext call headers pubkey role
  | .whitelistAdd call headers pubkey => handleWhitelistAdd ext call headers pubkey
  | .whitelistRemove call headers pubkey => handleWhitelistRemove ext call headers pubkey
  | .adminDelete call headers hash => handleAdminDeleteBlob ext call headers hash

section Http

variable {ext : Server.Externals} {w : World β δ ν κ} {event : NostrEvent}

/-- A denied key does not get past the checks before the body. -/
theorem signedPreflight_of_denied (ext : Server.Externals) (call : Call) (endpoint : StoreEndpoint)
    (hpolicy : DeniesAll s.access) (hdenied : s.role event.pubkey = .denied) :
    ∃ response, signedPreflight ext call endpoint event s = (.error response, s) := by
  unfold Server.signedPreflight
  split
  · exact ⟨_, rfl⟩
  · rw [isAllowed_of_denied hpolicy hdenied]
    exact ⟨_, rfl⟩

theorem server_store [BlobBackend β] [BlobDatabase δ] [LfsVersionDatabase ν]
    (request : StoringRequest)
    (hevent : extractAuthEvent ext.parser (storingHeaders request) = .ok event)
    (hpolicy : DeniesAll w.server.access) (hdenied : w.server.role event.pubkey = .denied) :
    (request.handle ext w).2.server = w.server := by
  cases request with
  | upload call headers body =>
    have hauth : optionalAuthEvent ext headers = .ok (some event) := by
      have hevent : extractAuthEvent ext.parser headers = .ok event := hevent
      simp [optionalAuthEvent, authorization_of_extractAuthEvent hevent, hevent, Except.map]
    obtain ⟨response, hpre⟩ := signedPreflight_of_denied ext call uploadEndpoint hpolicy hdenied
    simp only [StoringRequest.handle, handleUpload, hauth, Server.uploadPreflight, hpre]
  | nip96 call headers body =>
    have hevent : extractAuthEvent ext.parser headers = .ok event := hevent
    obtain ⟨response, hpre⟩ := signedPreflight_of_denied ext call nip96Endpoint hpolicy hdenied
    simp only [StoringRequest.handle, handleNip96Upload, hevent, hpre]
  | media processor call headers body =>
    have hevent : extractAuthEvent ext.parser headers = .ok event := hevent
    obtain ⟨response, hpre⟩ := signedPreflight_of_denied ext call mediaEndpoint hpolicy hdenied
    simp only [StoringRequest.handle, handleMediaUpload, hevent, hpre]
  | mirror remote call headers body =>
    have hevent : extractAuthEvent ext.parser headers = .ok event := hevent
    obtain ⟨response, hpre⟩ := signedPreflight_of_denied ext call mirrorEndpoint hpolicy hdenied
    simp only [StoringRequest.handle, handleMirror, hevent, hpre]

/-- The rule on owners turns a denied key away first. -/
theorem deleteAs_of_denied [BlobDatabase δ] {endpoint : DeleteEndpoint}
    {remove : ServerState β δ ν κ → Except RemovalError Bool × ServerState β δ ν κ} {hash : String}
    (hdenied : s.role pubkey = .denied) :
    (deleteAs endpoint remove hash pubkey s).2 = s := by
  simp only [deleteAs, ownerDecision, hdenied]

section

variable (call : Call) (headers : HeaderMap) (hash : String)
    (hevent : extractAuthEvent ext.parser headers = .ok event)
    (hdenied : w.server.role event.pubkey = .denied)
include hevent hdenied

theorem server_delete [BlobBackend β] [BlobDatabase δ] [LfsVersionDatabase ν] :
    (handleDeleteBlob ext call headers hash w).2.server = w.server := by
  unfold handleDeleteBlob
  split
  · rfl
  · simp only [hevent]
    split
    · rfl
    · exact deleteAs_of_denied hdenied

theorem server_nip96Delete [BlobBackend β] [BlobDatabase δ] :
    (handleNip96Delete ext call headers hash w).2.server = w.server := by
  unfold handleNip96Delete
  split
  · rfl
  · simp only [hevent]
    split
    · rfl
    · exact deleteAs_of_denied hdenied

end

/-- A lock endpoint that does nothing for the key. -/
theorem server_asLocker {call : Call} {headers : HeaderMap} {path method : String}
    {act : String → ServerState β δ ν κ → Server.Response × ServerState β δ ν κ}
    (hevent : extractAuthEvent ext.parser headers = .ok event)
    (hact : (act event.pubkey w.server).2 = w.server) :
    (asLocker ext call headers path method act w).2.server = w.server := by
  unfold asLocker
  simp only [hevent]
  split
  · rfl
  · exact hact

theorem createLockAs_of_denied [LockDatabase κ] (freshId : String) (now : Nat) (repo path : String)
    (hpolicy : DeniesAll s.access) (hdenied : s.role pubkey = .denied) :
    (createLockAs freshId now repo path pubkey s).2 = s := by
  unfold createLockAs
  rw [isAllowed_of_denied hpolicy hdenied]
  rfl

/-- No endpoint for administrators acts for a denied key. -/
theorem server_asAdmin {call : Call} {headers : HeaderMap} {path method : String}
    {hash : Option String} {act : ServerState β δ ν κ → Server.Response × ServerState β δ ν κ}
    (hevent : extractAuthEvent ext.parser headers = .ok event)
    (hpolicy : DeniesAll w.server.access) (hdenied : w.server.role event.pubkey = .denied) :
    (asAdmin ext call headers path method hash act w).2.server = w.server := by
  have hforbidden := isAllowed_of_denied hpolicy hdenied .admin
  have hextract : ∃ response seen, extractAdminPubkey ext call headers path method hash w
      = (.error response, { w with seen := seen }) := by
    unfold extractAdminPubkey
    simp only [hevent]
    split
    · exact ⟨_, _, rfl⟩
    · rw [hforbidden]
      exact ⟨_, _, rfl⟩
  obtain ⟨response, seen, hextract⟩ := hextract
  rw [asAdmin, hextract]

end Http

/-! ### Unlocking -/

section Unlock

variable [LockDatabase κ] [LawfulLockDatabase κ]

/-- A lock of the key is found under the repository and the id. -/
def OwnsLock (s : ServerState β δ ν κ) (repo id pubkey : String) : Prop :=
  ∃ db lock, s.lockDb = some db ∧ LawfulLockDatabase.find db repo id = some lock
    ∧ lock.pubkey = pubkey

theorem unlockAs_of_owner (force : Bool) (h : OwnsLock s repo id pubkey) :
    (unlockAs repo id force pubkey s).2.lockDb ≠ s.lockDb := by
  obtain ⟨db, lock, hdb, hlock, rfl⟩ := h
  obtain ⟨db', hdelete, hgone⟩ := LawfulLockDatabase.deleteLock_done hlock
    (force && s.role lock.pubkey == .admin) (Or.inr rfl)
  simp only [unlockAs, hdb, hdelete]
  intro hsame
  obtain rfl := Option.some.inj hsame
  rw [hlock] at hgone
  cases hgone

theorem unlockAs_of_not_owner (force : Bool) (hdenied : s.role pubkey = .denied)
    (h : ¬ OwnsLock s repo id pubkey) :
    (unlockAs repo id force pubkey s).2 = s := by
  have hforce : (force && s.role pubkey == .admin) = false := by
    rw [hdenied]
    exact Bool.and_false force
  unfold unlockAs
  cases hdb : s.lockDb with
  | none => rfl
  | some db =>
    dsimp only
    cases hlock : LawfulLockDatabase.find db repo id with
    | none =>
      rw [LawfulLockDatabase.deleteLock_missing hlock]
      simp only [← hdb]
    | some lock =>
      have hother : lock.pubkey ≠ pubkey := fun hsame => h ⟨db, lock, hdb, hlock, hsame⟩
      rw [hforce, LawfulLockDatabase.deleteLock_refused hlock hother, notLockOwner]
      simp only [← hdb]

end Unlock

/-! ### Streams -/

section Streams

variable {request : Transport.Request} {auth : Transport.VerifiedAuth}
  {w : Transport.Shared β δ ν κ} {stream : Transport.Stream}

section

variable (hpolicy : DeniesAll s.access) (hdenied : s.role auth.pubkey = .denied)
include hpolicy hdenied

theorem preflightUpload_of_denied [BlobDatabase δ] {nowMs : Nat} :
    ∃ response, Transport.preflightUpload request (some auth) nowMs s = (.error response, s) := by
  have hforbidden : ¬ s.isAllowed (Transport.principalOf (some auth)) .upload = true := by
    rw [Transport.principalOf, Option.map_some, Option.getD_some,
      isAllowed_of_denied hpolicy hdenied]
    exact Bool.false_ne_true
  unfold Transport.preflightUpload
  dsimp only
  cases Checks.require (s.requirements.requireAuth = false ∨ (some auth).isSome = true)
      (Transport.Response.failure .unauthorized "auth required for upload") with
  | error response => exact ⟨response, rfl⟩
  | ok _ =>
    rw [Checks.ok_bind, Checks.require, if_neg hforbidden]
    exact ⟨_, rfl⟩

theorem preflightMutation_of_denied [BlobDatabase δ] [LockDatabase κ] {nowMs : Nat}
    (hop : request.op ∈ [.delete, .lockCreate, .lockDelete, .lockVerify]) :
    ∃ response, Transport.preflightMutation request auth nowMs s = (.error response, s) := by
  have hforbidden : ¬ Transport.mutationAllowed request auth.pubkey s = true := by
    unfold Transport.mutationAllowed
    simp only [List.mem_cons, List.not_mem_nil, or_false] at hop
    rcases hop with hop | hop | hop | hop
    · simp [hop, hdenied]
    all_goals
      simp [hop, isAllowed_of_denied hpolicy hdenied]
  unfold Transport.preflightMutation
  dsimp only
  rw [Checks.require, if_neg hforbidden]
  exact ⟨_, rfl⟩

end

/-- A stream that is turned away by its preflight. -/
theorem server_preflight (stream : Transport.Stream)
    {check : ServerState β δ ν κ → Except Transport.Response Unit × ServerState β δ ν κ}
    (h : ∃ response, check w.server = (.error response, w.server)) :
    ∃ reply, Transport.preflight stream check w = (.finished reply, w) := by
  obtain ⟨response, hcheck⟩ := h
  rw [Transport.preflight, hcheck]
  exact ⟨_, rfl⟩

variable [BlobBackend β] [BlobDatabase δ] [LfsVersionDatabase ν] [LockDatabase κ]

/-- The stretches of a stream that nothing comes between, with the reply at its end. -/
def finishStream (ext : Transport.Externals) : List Transport.Moment → Transport.Stream →
    Transport.Shared β δ ν κ → Option Transport.Reply × Transport.Shared β δ ν κ
  | [], _, w => (none, w)
  | moment :: moments, stream, w =>
    match Transport.advance ext moment stream w with
    | (.next stream, w) => finishStream ext moments stream w
    | (.finished reply, w) => (some reply, w)
    | (.aborted, w) => (none, w)

/-- A request to an endpoint, from its request line to the reply. -/
def answerStream (ext : Transport.Externals) (receiver : String) (request : Transport.Request)
    (now : SystemTime) (moments : List Transport.Moment) (w : Transport.Shared β δ ν κ) :
    Option Transport.Reply × Transport.Shared β δ ν κ :=
  match Transport.openStream ext receiver request now with
  | .error reply => (some reply, w)
  | .ok stream => finishStream ext moments stream w

/-- An operation that needs no event leaves the server alone. -/
theorem server_dispatch (ext : Transport.Externals) (call : Call) (freshId : String)
    (authPubkey : Option String) (body : Bytes) (s : ServerState β δ ν κ)
    (hop : request.op ∈ [.get, .head, .list, .lockList]) :
    (Transport.dispatch ext call freshId request authPubkey body s).2 = s := by
  simp only [List.mem_cons, List.not_mem_nil, or_false] at hop
  rcases hop with hop | hop | hop | hop
  all_goals
    simp only [Transport.dispatch, hop]

/-- The operations are uploads, changes that need an event, and reading ones. -/
theorem op_cases (request : Transport.Request) :
    request.op = .upload
      ∨ (request.op ∈ [.delete, .lockCreate, .lockDelete, .lockVerify]
        ∧ (Transport.requestAuthBinding request).isSome = true)
      ∨ (request.op ∈ [.get, .head, .list, .lockList]
        ∧ (Transport.requestAuthBinding request).isSome = false) := by
  unfold Transport.requestAuthBinding Transport.lockTuple
  cases request.op <;> simp

/-- The first stretches of a stream of a denied key end it, and change nothing. -/
theorem server_finishStream (ext : Transport.Externals) (moments : List Transport.Moment)
    (hauth : stream.auth = some auth) (hstage : stream.stage = .verified)
    (hpolicy : DeniesAll w.server.access) (hdenied : w.server.role auth.pubkey = .denied) :
    (finishStream ext moments stream w).2.server = w.server := by
  obtain ⟨request, _, verifiedAt, _⟩ := stream
  obtain rfl : _ = some auth := hauth
  obtain rfl : _ = Transport.Stage.verified := hstage
  cases moments with
  | nil => rfl
  | cons moment moments =>
    rw [finishStream]
    rcases op_cases request with hop | ⟨hop, hbound⟩ | ⟨hop, hbound⟩
    · -- the size is looked at first, and the key next
      simp only [Transport.advance, hop, if_true, Transport.checkBodyLen]
      split_ifs
      · rfl
      · rfl
      · cases moments with
        | nil => rfl
        | cons later moments =>
          have hpre : ∃ response, Transport.preflightUpload request (some auth) later.nowMs
              w.server = (.error response, w.server) :=
            preflightUpload_of_denied hpolicy hdenied
          obtain ⟨reply, hturned⟩ :=
            server_preflight ⟨request, some auth, verifiedAt, .sized⟩ hpre
          simp only [finishStream, Transport.advance, hop, if_true, hturned]
    · have hpre : ∃ response, Transport.preflightMutation request auth moment.nowMs w.server
          = (.error response, w.server) := preflightMutation_of_denied hpolicy hdenied hop
      obtain ⟨reply, hturned⟩ :=
        server_preflight ⟨request, some auth, verifiedAt, .verified⟩ hpre
      have hnot : request.op ≠ .upload := by
        intro hupload
        rw [hupload] at hop
        simp at hop
      simp only [Transport.advance, if_neg hnot, hbound, if_true, hturned]
    · have hnot : request.op ≠ .upload := by
        intro hupload
        rw [hupload] at hop
        simp at hop
      simp only [Transport.advance, if_neg hnot, hbound, Bool.false_eq_true, if_false,
        Transport.runStream]
      exact server_dispatch ext _ _ _ _ w.server hop

/-- The key of a stream is the key of its event. -/
theorem auth_openStream {ext : Transport.Externals} {receiver : String} {now : SystemTime}
    {event : NostrEvent} (h : Transport.openStream ext receiver request now = .ok stream)
    (hsigned : request.auth ≠ "") (hevent : Transport.decodeAuth ext request.auth = .ok event) :
    stream.stage = .verified ∧ ∃ auth, stream.auth = some auth ∧ auth.pubkey = event.pubkey := by
  unfold Transport.openStream at h
  split_ifs at h
  split at h
  · cases h
  · rename_i auth hverified
    obtain rfl := Except.ok.inj h
    obtain ⟨decoded, hdecoded, hverified⟩ := Checks.bind_eq_ok.mp hverified
    obtain rfl : event = decoded := Except.ok.inj (hevent.symm.trans hdecoded)
    obtain ⟨-, -, -, -, hauth⟩ := Transport.verifyEvent_eq_ok_iff.mp hverified
    exact ⟨rfl, auth, rfl, by rw [hauth]⟩

end Streams

/-! ### Any request -/

/-- The server with what the two transports keep beside it. -/
structure Site (β δ ν κ : Type) where
  server : ServerState β δ ν κ
  seen : Server.ReplayCache
  streamsSeen : Transport.ReplayCache
  freeBytes : Nat

inductive AnyRequest where
  | http (request : HttpRequest)
  | stream (receiver : String) (request : Transport.Request) (now : SystemTime)
      (moments : List Transport.Moment)

/-- The request carries an event of the key. -/
def AnyRequest.SignedBy (ext : Transport.Externals) (pubkey : String) : AnyRequest → Prop
  | .http request => ∃ event, extractAuthEvent ext.parser request.headers = .ok event
      ∧ event.pubkey = pubkey
  | .stream _ request _ _ => request.auth ≠ ""
      ∧ ∃ event, Transport.decodeAuth ext request.auth = .ok event ∧ event.pubkey = pubkey

/-- What a request may not touch: blobs, uploads with their owners and quotas, roles and locks, and
also the version records. -/
structure Untouched (s s' : ServerState β δ ν κ) : Prop where
  backend : s'.backend = s.backend
  database : s'.database = s.database
  access : s'.access = s.access
  roles : s'.roleBasedAccess = s.roleBasedAccess
  whitelist : s'.whitelist = s.whitelist
  lockDb : s'.lockDb = s.lockDb
  lfsVersionDb : s'.lfsVersionDb = s.lfsVersionDb

theorem Untouched.of_eq {s' : ServerState β δ ν κ} (h : s' = s) : Untouched s s' := by
  subst h
  exact ⟨rfl, rfl, rfl, rfl, rfl, rfl, rfl⟩

section Any

variable [LockDatabase κ] [LawfulLockDatabase κ]

/-- An unlock over HTTP, with an event that is accepted, of a lock of the key. -/
def AnyRequest.ReleasesOwnLock (ext : Transport.Externals) (site : Site β δ ν κ) (pubkey : String) :
    AnyRequest → Prop
  | .http (.unlock call headers repo id _) => OwnsLock site.server repo id pubkey
      ∧ ∃ event, extractAuthEvent ext.parser headers = .ok event
        ∧ (verifyAuthEvent ext.toExternals (call.clock 0) (call.clock 1) site.seen event "lock"
          site.server.baseUrl ("/lfs/" ++ repo ++ "/locks/" ++ id ++ "/unlock") "POST" none).1
            = .ok ()
  | _ => False

variable {ext : Server.Externals}

/-- An unlock with an event of a denied key. -/
theorem untouched_unlock_iff {call : Call} {headers : HeaderMap} (force : Bool) {w : World β δ ν κ}
    {event : NostrEvent} (hevent : extractAuthEvent ext.parser headers = .ok event)
    (hdenied : w.server.role event.pubkey = .denied) :
    Untouched w.server (handleUnlock ext call headers repo id force w).2.server
      ↔ ¬ (OwnsLock w.server repo id event.pubkey
        ∧ (verifyAuthEvent ext (call.clock 0) (call.clock 1) w.seen event "lock" w.server.baseUrl
          ("/lfs/" ++ repo ++ "/locks/" ++ id ++ "/unlock") "POST" none).1 = .ok ()) := by
  unfold handleUnlock asLocker
  simp only [hevent]
  cases hverified : verifyAuthEvent ext (call.clock 0) (call.clock 1) w.seen event "lock"
      w.server.baseUrl ("/lfs/" ++ repo ++ "/locks/" ++ id ++ "/unlock") "POST" none with
  | mk result seen =>
    cases result with
    | error e =>
      refine iff_of_true (.of_eq rfl) ?_
      rintro ⟨-, hok⟩
      cases hok
    | ok _ =>
      constructor
      · rintro huntouched ⟨howner, -⟩
        exact unlockAs_of_owner force howner huntouched.lockDb
      · -- without force the store keeps the locks of others
        intro hnot
        exact .of_eq (unlockAs_of_not_owner force hdenied fun howner => hnot ⟨howner, rfl⟩)

/-- An accepted event of the owner releases the lock, whatever role the owner has. -/
theorem unlock_of_owner {call : Call} {headers : HeaderMap} {repo id : String} (force : Bool)
    {w : World β δ ν κ} {event : NostrEvent} {seen : Server.ReplayCache}
    (hevent : extractAuthEvent ext.parser headers = .ok event)
    (hverified : verifyAuthEvent ext (call.clock 0) (call.clock 1) w.seen event "lock"
      w.server.baseUrl ("/lfs/" ++ repo ++ "/locks/" ++ id ++ "/unlock") "POST" none = (.ok (), seen))
    (howner : OwnsLock w.server repo id event.pubkey) :
    (handleUnlock ext call headers repo id force w).2.server.lockDb ≠ w.server.lockDb := by
  simp only [handleUnlock, asLocker, hevent, hverified]
  exact unlockAs_of_owner force howner

variable [BlobBackend β] [BlobDatabase δ] [LfsVersionDatabase ν]

/-- The server after a request that nothing came between. -/
def AnyRequest.serverAfter (ext : Transport.Externals) (site : Site β δ ν κ) :
    AnyRequest → ServerState β δ ν κ
  | .http request => (request.handle ext.toExternals ⟨site.server, site.seen⟩).2.server
  | .stream receiver request now moments =>
    (answerStream ext receiver request now moments
      ⟨site.server, site.streamsSeen, site.freeBytes⟩).2.server

/-- **A denied key changes nothing**, over either transport, and with any request but the unlock over
HTTP of a lock of its own. -/
theorem denied_changes_nothing_iff (ext : Transport.Externals) (site : Site β δ ν κ)
    (request : AnyRequest) (pubkey : String) (hsigned : request.SignedBy ext pubkey)
    (hpolicy : DeniesAll site.server.access) (hdenied : site.server.role pubkey = .denied) :
    Untouched site.server (request.serverAfter ext site)
      ↔ ¬ request.ReleasesOwnLock ext site pubkey := by
  cases request with
  | stream receiver request now moments =>
    obtain ⟨hnonempty, event, hevent, rfl⟩ := hsigned
    refine iff_of_true (.of_eq ?_) not_false
    simp only [AnyRequest.serverAfter, answerStream]
    split
    · rfl
    · rename_i stream hopen
      obtain ⟨hstage, auth, hauth, hpubkey⟩ := auth_openStream hopen hnonempty hevent
      rw [← hpubkey] at hdenied
      have hdriven := server_finishStream ext moments
        (w := ⟨site.server, site.streamsSeen, site.freeBytes⟩) hauth hstage hpolicy hdenied
      exact hdriven
  | http request =>
    obtain ⟨event, hevent, rfl⟩ := hsigned
    cases request with
    | unlock call headers repo id force =>
      have hevent : extractAuthEvent ext.parser headers = .ok event := hevent
      refine (untouched_unlock_iff force (w := ⟨site.server, site.seen⟩) hevent hdenied).trans
        (not_congr ?_)
      constructor
      · rintro ⟨howner, hverified⟩
        exact ⟨howner, event, hevent, hverified⟩
      · rintro ⟨howner, other, hother, hverified⟩
        obtain rfl : event = other := Except.ok.inj (hevent.symm.trans hother)
        exact ⟨howner, hverified⟩
    | store request =>
      exact iff_of_true (.of_eq (server_store request hevent hpolicy hdenied)) not_false
    | delete call headers hash =>
      exact iff_of_true (.of_eq (server_delete call headers hash hevent hdenied)) not_false
    | nip96Delete call headers hash =>
      exact iff_of_true (.of_eq (server_nip96Delete call headers hash hevent hdenied)) not_false
    | createLock call freshId headers repo path =>
      exact iff_of_true (.of_eq (server_asLocker hevent
        (createLockAs_of_denied freshId _ repo path hpolicy hdenied))) not_false
    | adminDelete call headers hash =>
      refine iff_of_true (.of_eq ?_) not_false
      simp only [AnyRequest.serverAfter, HttpRequest.handle, handleAdminDeleteBlob]
      split
      · rfl
      · exact server_asAdmin hevent hpolicy hdenied
    | _ => exact iff_of_true (.of_eq (server_asAdmin hevent hpolicy hdenied)) not_false

end Any

/-! ### A lock taken before its owner was denied -/

/-- A server with live roles and a lock store. -/
def lockingServer : ServerState MemoryBackend MemoryDatabase MemoryLfsVersionDatabase
    MemoryLockDatabase :=
  let server : ServerState MemoryBackend MemoryDatabase MemoryLfsVersionDatabase
    MemoryLockDatabase := .new MemoryBackend.new serverUrl
  { server with
    access := .liveRoles
    roleBasedAccess := some (RoleBasedAccess.loadFromDatabase MemoryDatabase.new)
    lockDb := some .new }

/-- A member takes a lock and is denied afterwards. -/
def deniedOwner : ServerState MemoryBackend MemoryDatabase MemoryLfsVersionDatabase
    MemoryLockDatabase :=
  Runs.run (RoleStep.run (.knowing [])) lockingServer
    [.demoteToMember testKey, .serve (.createLock "7" 0 "r" "a" testKey), .setRole testKey "denied"]

def deniedSite : Site MemoryBackend MemoryDatabase MemoryLfsVersionDatabase MemoryLockDatabase :=
  ⟨deniedOwner, seenAuthEvents, .new 0 0, 0⟩

/-- A new lock in the repository. -/
def lockSigned : SignedRequest where
  sig := (0x56752662d0971226a1b4775d90cf81344a654e4e08e994dd406b986ef7409696,
    0xce7605715505eb0ebbc8363fab8a880a6af6923669e4ebc9ba121046ead2778b)
  time := 1700000000
  action := "lock"
  hash := none
  path := "/lfs/r/locks"
  method := "POST"
  tags := []

/-- An unlock of one of two locks of the repository. -/
def unlockSigned (id : String) : SignedRequest where
  sig := if id = "7" then
      (0x9fb98a2c25d1630ea344b94746ae374c543a7e55fcbb402906d76cdfd014b98c,
        0x2f9964d1194f0e9e6bedd48a7f959b14f6e8ddc8b807563eab269eca96d96df8)
    else
      (0x568b0f25b9e874153637c7da56accbc7572e86925689387bfa08143108271be8,
        0xe75ec9fca27a4243c81ebc93feff79d1d13ae80e0c218e0ff40c3d8100ff4e2c)
  time := 1700000000
  action := "lock"
  hash := none
  path := "/lfs/r/locks/" ++ id ++ "/unlock"
  method := "POST"
  tags := []

def unlockOf (id : String) : AnyRequest :=
  .http (.unlock (unlockSigned id).call (unlockSigned id).headers "r" id false)

def unlockExternals (id : String) : Transport.Externals :=
  .knowing [(unlockSigned id).event]

/-- The lock the member took. -/
def deniedLocks : MemoryLockDatabase :=
  ⟨AList.insert (MemoryLockDatabase.lockKey "r" "7") ⟨"7", "r", "a", testKey, 0⟩ ∅⟩

theorem deniedOwner_lockDb : deniedOwner.lockDb = some deniedLocks :=
  rfl

theorem find_deniedLocks (id : String) : LawfulLockDatabase.find deniedLocks "r" id
    = if MemoryLockDatabase.lockKey "r" id = MemoryLockDatabase.lockKey "r" "7" then
        some ⟨"7", "r", "a", testKey, 0⟩ else none := by
  exact Assoc.lookup_insert_eq _ _ _ _

theorem deniedOwner_denied : deniedOwner.role testKey = .denied := by
  decide

theorem signedBy_unlockOf (id : String) : (unlockOf id).SignedBy (unlockExternals id) testKey :=
  ⟨(unlockSigned id).event, SignedRequest.extractAuthEvent_headers (List.mem_singleton_self _), rfl⟩

theorem wellFormed_unlockSigned (id : String) : (unlockSigned id).WellFormed := by
  refine ⟨fun tag htag => ?_, ?_⟩
  · exact absurd htag List.not_mem_nil
  · show 1700000000 < 2 ^ 63
    decide

/-- A signed request of the owner releases the lock. -/
theorem unlock_of_signedRequest {κ : Type} [LockDatabase κ] [LawfulLockDatabase κ]
    {r : SignedRequest} (hr : r.WellFormed) (hmem : r.event ∈ events) (haction : r.action = "lock")
    (hmethod : r.method = "POST")
    (hpath : r.path = "/lfs/" ++ repo ++ "/locks/" ++ id ++ "/unlock") (force : Bool)
    {s : ServerState MemoryBackend MemoryDatabase MemoryLfsVersionDatabase κ}
    (hbase : s.baseUrl = serverUrl) (howner : OwnsLock s repo id testKey) :
    (handleUnlock (Externals.knowing events) r.call r.headers repo id force
      ⟨s, seenAuthEvents⟩).2.server.lockDb ≠ s.lockDb := by
  have hnone : ∀ x, none = some x → r.hash = some x := by simp
  obtain ⟨seen, hverified⟩ := SignedRequest.verifies hr hmem hnone (lapsed_seenAuthEvents r.time)
  rw [haction, hmethod, hpath, ← hbase] at hverified
  exact unlock_of_owner force (w := ⟨s, seenAuthEvents⟩)
    (SignedRequest.extractAuthEvent_headers hmem) hverified howner

theorem path_unlockSigned (id : String) :
    (unlockSigned id).path = "/lfs/" ++ "r" ++ "/locks/" ++ id ++ "/unlock" := by
  have hstart : "/lfs/" ++ "r" ++ "/locks/" = "/lfs/r/locks/" := by decide
  rw [hstart, unlockSigned]

/-- The owner of a lock releases it at a site that has seen no event yet. -/
theorem lockDb_unlockOf (id : String)
    {site : Site MemoryBackend MemoryDatabase MemoryLfsVersionDatabase MemoryLockDatabase}
    (hbase : site.server.baseUrl = serverUrl) (hseen : site.seen = seenAuthEvents)
    (howner : OwnsLock site.server "r" id testKey) :
    ((unlockOf id).serverAfter (unlockExternals id) site).lockDb ≠ site.server.lockDb := by
  have hknowing : (unlockExternals id).toExternals = .knowing [(unlockSigned id).event] := rfl
  rw [unlockOf, AnyRequest.serverAfter, HttpRequest.handle, hknowing, hseen]
  exact unlock_of_signedRequest (wellFormed_unlockSigned id) (List.mem_singleton_self _) rfl rfl
    (path_unlockSigned id) false hbase howner

/-- A denied key that tries to release a lock that is not there changes nothing. -/
theorem denied_unlock_of_missing_lock :
    Untouched deniedOwner ((unlockOf "8").serverAfter (unlockExternals "8") deniedSite) := by
  refine (denied_changes_nothing_iff (unlockExternals "8") deniedSite (unlockOf "8") testKey
    (signedBy_unlockOf "8") trivial deniedOwner_denied).mpr ?_
  rintro ⟨⟨db, lock, hdb, hlock, -⟩, -⟩
  obtain rfl : deniedLocks = db := Option.some.inj (deniedOwner_lockDb.symm.trans hdb)
  rw [find_deniedLocks, if_neg (by decide)] at hlock
  cases hlock

/-- A denied key releases a lock it took before. -/
theorem denied_owner_releases_lock :
    deniedOwner.role testKey = .denied
      ∧ (unlockOf "7").SignedBy (unlockExternals "7") testKey
      ∧ ((unlockOf "7").serverAfter (unlockExternals "7") deniedSite).lockDb ≠ deniedOwner.lockDb := by
  have howner : OwnsLock deniedOwner "r" "7" testKey := by
    refine ⟨deniedLocks, ⟨"7", "r", "a", testKey, 0⟩, deniedOwner_lockDb, ?_, rfl⟩
    rw [find_deniedLocks, if_pos rfl]
  exact ⟨deniedOwner_denied, signedBy_unlockOf "7", lockDb_unlockOf "7" rfl rfl howner⟩

end BlossomRs.System

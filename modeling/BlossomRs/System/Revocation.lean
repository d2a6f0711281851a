import BlossomRs.Server.Presigned
import BlossomRs.Server.Stretches
import BlossomRs.System.Effects

/-!
# Rights that are taken away

Uploads side by side with everything else that happens under the lock.  An upload asks whether its key
is allowed before it reads its body and not again when it commits, unlike the streams of the other
transport.  So an upload is recorded for an allowed key only as long as nobody takes away a right on
which an upload under way relies (`recorded_for_allowed_key`); a key that is removed from the
whitelist while its body is on the way still stores it (`recorded_for_removed_key`).
-/

namespace BlossomRs.System

open Protocol Auth Storage Database Access Lfs Locks Server

variable {β δ ν κ : Type}

/-! ### Stretches and the policy -/

section Stretches

variable {ext : Server.Externals} {call : Call}

variable {s s' : ServerState β δ ν κ} {preflight : Except Response Unit × ServerState β δ ν κ}
    {receive : ServerState β δ ν κ → Except Response Flight} {w : World β δ ν κ} {flight : Flight}

/-- A signed request is only let through for a key that is allowed. -/
theorem isAllowed_of_signedPreflight {endpoint : StoreEndpoint} {event : NostrEvent}
    (h : signedPreflight ext call endpoint event s = (.ok (), s')) :
    s.isAllowed event.pubkey endpoint.action = true := by
  unfold Server.signedPreflight at h
  split at h
  · cases h
  · split at h
    · assumption
    · cases h

theorem isAllowed_of_uploadPreflight {event : NostrEvent} {pubkey : Option String}
    (h : uploadPreflight ext call (some event) s = (.ok pubkey, s')) :
    s.isAllowed event.pubkey .upload = true := by
  simp only [Server.uploadPreflight] at h
  split at h
  · cases h
  · rename_i heq
    exact isAllowed_of_signedPreflight heq

theorem arriveAfter_eq_waits (h : (arriveAfter preflight receive w).1 = .waits flight) :
    preflight.1 = .ok () ∧ receive preflight.2 = .ok flight := by
  unfold arriveAfter at h
  split at h
  · cases h
  · split at h
    · cases h
    · rename_i hreceive
      obtain rfl := Progress.waits.inj h
      exact ⟨rfl, hreceive⟩

theorem arriveSigned_eq_waits {endpoint : StoreEndpoint} {headers : HeaderMap}
    {receive : NostrEvent → ServerState β δ ν κ → Except Response Flight}
    (h : (arriveSigned ext call endpoint headers receive w).1 = .waits flight) :
    ∃ event s, w.server.isAllowed event.pubkey endpoint.action = true
      ∧ receive event s = .ok flight := by
  unfold arriveSigned at h
  split at h
  · cases h
  · rename_i event _
    obtain ⟨hpreflight, hreceive⟩ := arriveAfter_eq_waits h
    exact ⟨event, _, isAllowed_of_signedPreflight (Prod.ext hpreflight rfl), hreceive⟩

/-- A request that waits after it arrived is made for a key that is allowed. -/
theorem isAllowed_of_arrive {request : StoringRequest} {pubkey : String} {action : Action}
    (h : (request.arrive ext w).1 = .waits flight)
    (hprincipal : flight.principal = some (pubkey, action)) :
    w.server.isAllowed pubkey action = true := by
  cases request with
  | upload call headers body =>
    simp only [StoringRequest.arrive] at h
    split at h
    · cases h
    · rename_i authEvent _
      obtain ⟨hpreflight, hreceive⟩ := arriveAfter_eq_waits h
      obtain ⟨data, -, rfl⟩ := Checks.map_eq_ok.mp hreceive
      obtain ⟨event, rfl, hkey⟩ := Option.map_eq_some_iff.mp hprincipal
      cases hkey
      rcases hchecked : Server.uploadPreflight ext call (some event) w.server with
        ⟨response | checked, server⟩
      · rw [hchecked] at hpreflight
        cases hpreflight
      · exact isAllowed_of_uploadPreflight hchecked
  | nip96 call headers body =>
    obtain ⟨event, s, hallowed, hreceive⟩ := arriveSigned_eq_waits h
    obtain ⟨data, -, rfl⟩ := Checks.map_eq_ok.mp hreceive
    obtain ⟨rfl, rfl⟩ := Prod.mk.inj (Option.some.inj hprincipal)
    exact hallowed
  | media processor call headers body =>
    obtain ⟨event, s, hallowed, hreceive⟩ := arriveSigned_eq_waits h
    obtain ⟨-, -, hreceive⟩ := Checks.bind_eq_ok.mp hreceive
    obtain ⟨data, -, rfl⟩ := Checks.map_eq_ok.mp hreceive
    obtain ⟨rfl, rfl⟩ := Prod.mk.inj (Option.some.inj hprincipal)
    exact hallowed
  | mirror remote call headers body =>
    obtain ⟨event, s, hallowed, hreceive⟩ := arriveSigned_eq_waits h
    obtain ⟨url, -, rfl⟩ := Checks.map_eq_ok.mp hreceive
    obtain ⟨rfl, rfl⟩ := Prod.mk.inj (Option.some.inj hprincipal)
    exact hallowed

theorem bindSigned_spec (endpoint : StoreEndpoint) (event : NostrEvent) (hash : String)
    (next : Flight) (w : World β δ ν κ) :
    (bindSigned ext call endpoint event hash next w).2.server = w.server
      ∧ ∀ flight, (bindSigned ext call endpoint event hash next w).1 = .waits flight →
        flight = next := by
  unfold bindSigned
  split
  · refine ⟨rfl, ?_⟩
    intro flight h
    cases h
  · exact ⟨rfl, fun flight h => (Progress.waits.inj h).symm⟩

variable [BlobBackend β] [BlobDatabase δ] [LfsVersionDatabase ν]

/-- A request goes on for the same key. -/
theorem principal_advance {next : Flight} (h : (flight.advance ext w).1 = .waits next) :
    next.principal = flight.principal := by
  cases flight with
  | uploadBind call headers authEvent data =>
    cases authEvent with
    | none =>
      obtain rfl := Progress.waits.inj h
      rfl
    | some event =>
      obtain rfl := (bindSigned_spec _ _ _ _ w).2 next h
      rfl
  | uploadCommit call headers pubkey data => cases h
  | nip96Bind call headers event data =>
    obtain rfl := (bindSigned_spec _ _ _ _ w).2 next h
    rfl
  | nip96Commit call headers pubkey data => cases h
  | mediaBind processor call event data =>
    obtain rfl := (bindSigned_spec _ _ _ _ w).2 next h
    rfl
  | mediaProcess processor call pubkey data =>
    simp only [Flight.advance] at h
    split at h
    · cases h
    · obtain rfl := Progress.waits.inj h
      rfl
  | mediaCommit call pubkey result => cases h
  | mirrorBind remote call event data url =>
    obtain rfl := (bindSigned_spec _ _ _ _ w).2 next h
    rfl
  | mirrorFetch remote call pubkey url =>
    simp only [Flight.advance] at h
    split at h
    · cases h
    · obtain rfl := Progress.waits.inj h
      rfl
  | mirrorCommit call pubkey data => cases h

end Stretches

/-! ### Stretches as sections -/

section Sections

variable [BlobBackend β] [BlobDatabase δ] [LfsVersionDatabase ν] [LockDatabase κ]

/-- At most one section is run, and it neither removes anything nor changes the policy. -/
def Moves (ext : Transport.Externals) (s s' : ServerState β δ ν κ) : Prop :=
  s' = s ∨ ∃ part : Section, (part.removes = none ∧ ¬ part.ChangesPolicy)
    ∧ s' = (part.run ext s).2

variable {ext : Transport.Externals} {s s' : ServerState β δ ν κ} {call : Call}

theorem Moves.samePolicy (h : Moves ext s s') : SamePolicy s s' := by
  rcases h with rfl | ⟨part, ⟨-, hpolicy⟩, rfl⟩
  · exact .refl _
  · exact samePolicy_run ext part s hpolicy

theorem moves_checkRate (key : String) (nowMs : Nat) : Moves ext s (s.checkRate key nowMs).2 :=
  Or.inr ⟨.rate key nowMs, ⟨rfl, id⟩, rfl⟩

theorem moves_signedPreflight (endpoint : StoreEndpoint) (event : NostrEvent) :
    Moves ext s (signedPreflight ext.toExternals call endpoint event s).2 := by
  have hrate : Moves ext s (s.checkRate event.pubkey call.clockMs).2 := moves_checkRate _ _
  unfold Server.signedPreflight
  split
  · exact Or.inl rfl
  · split
    · split <;> rename_i heq <;> rwa [heq] at hrate
    · exact Or.inl rfl

theorem moves_uploadPreflight (authEvent : Option NostrEvent) :
    Moves ext s (uploadPreflight ext.toExternals call authEvent s).2 := by
  cases authEvent with
  | none =>
    have hrate : Moves ext s (s.checkRate "anonymous" call.clockMs).2 := moves_checkRate _ _
    simp only [Server.uploadPreflight]
    split
    · exact Or.inl rfl
    · split <;> rename_i heq <;> rwa [heq] at hrate
  | some event =>
    have hsigned : Moves ext s (signedPreflight ext.toExternals call uploadEndpoint event s).2 :=
      moves_signedPreflight _ _
    simp only [Server.uploadPreflight]
    split <;> rename_i heq <;> rwa [heq] at hsigned

variable {w : World β δ ν κ}

theorem Moves.arriveAfter {preflight : Except Response Unit × ServerState β δ ν κ}
    {receive : ServerState β δ ν κ → Except Response Flight} (h : Moves ext w.server preflight.2) :
    Moves ext w.server (arriveAfter preflight receive w).2.server := by
  unfold Server.arriveAfter
  split
  · exact h
  · split <;> exact h

theorem moves_arriveSigned (endpoint : StoreEndpoint) (headers : HeaderMap)
    (receive : NostrEvent → ServerState β δ ν κ → Except Response Flight) :
    Moves ext w.server
      (arriveSigned ext.toExternals call endpoint headers receive w).2.server := by
  unfold Server.arriveSigned
  split
  · exact Or.inl rfl
  · exact .arriveAfter (moves_signedPreflight endpoint _)

/-- A request that arrives asks the rate limiter at most. -/
theorem moves_arrive (request : StoringRequest) :
    Moves ext w.server (request.arrive ext.toExternals w).2.server := by
  cases request with
  | upload call headers body =>
    simp only [StoringRequest.arrive]
    split
    · exact Or.inl rfl
    · exact .arriveAfter (moves_uploadPreflight _)
  | nip96 | media | mirror => exact moves_arriveSigned _ _ _

/-- One that goes on commits at most. -/
theorem moves_advance (flight : Flight) :
    Moves ext w.server (flight.advance ext.toExternals w).2.server := by
  have hbind : ∀ (call : Call) endpoint event hash next,
      Moves ext w.server (bindSigned ext.toExternals call endpoint event hash next w).2.server :=
    fun _ _ _ _ _ => Or.inl (bindSigned_spec _ _ _ _ w).1
  cases flight with
  | uploadBind call headers authEvent data =>
    cases authEvent with
    | none => exact Or.inl rfl
    | some event => exact hbind call uploadEndpoint event (sha256Hex data) _
  | uploadCommit call headers pubkey data =>
    exact Or.inr ⟨.upload call headers pubkey data, ⟨rfl, id⟩, rfl⟩
  | nip96Bind call headers event data => exact hbind call nip96Endpoint event (sha256Hex data) _
  | nip96Commit call headers pubkey data =>
    exact Or.inr ⟨.nip96Upload call headers pubkey data, ⟨rfl, id⟩, rfl⟩
  | mediaBind processor call event data => exact hbind call mediaEndpoint event (sha256Hex data) _
  | mediaProcess processor call pubkey data =>
    simp only [Flight.advance]
    split <;> exact Or.inl rfl
  | mediaCommit call pubkey result => exact Or.inr ⟨.mediaUpload call pubkey result, ⟨rfl, id⟩, rfl⟩
  | mirrorBind remote call event data url =>
    exact hbind call mirrorEndpoint event (mirrorHash event data url) _
  | mirrorFetch remote call pubkey url =>
    simp only [Flight.advance]
    split <;> exact Or.inl rfl
  | mirrorCommit call pubkey data => exact Or.inr ⟨.mirror call pubkey data, ⟨rfl, id⟩, rfl⟩

end Sections

/-! ### Requests side by side -/

/-- The server with the uploads that are under way. -/
structure Desk (β δ ν κ : Type) where
  world : World β δ ν κ
  flights : Nat → Option Flight

/-- What can happen next.  A client may go away at any time; `other` is anything else that is done
under the lock. -/
inductive DeskEvent where
  | arrive (id : Nat) (request : StoringRequest)
  | resume (id : Nat)
  | drop (id : Nat)
  | other (part : Section)

/-- Keep a request that waits and forget one that is answered. -/
def Desk.place (desk : Desk β δ ν κ) (id : Nat) (result : Progress × World β δ ν κ) :
    Desk β δ ν κ where
  world := result.2
  flights := Function.update desk.flights id <|
    match result.1 with
    | .waits flight => some flight
    | .answered _ => none

/-- Every upload under way is made for a key that is allowed at the moment. -/
def Desk.Authorized (desk : Desk β δ ν κ) : Prop :=
  ∀ id flight pubkey action, desk.flights id = some flight →
    flight.principal = some (pubkey, action) →
    desk.world.server.isAllowed pubkey action = true

/-- A stretch that keeps the policy and waits only for an allowed key. -/
theorem Desk.Authorized.place {desk : Desk β δ ν κ} (h : desk.Authorized) {id : Nat}
    {result : Progress × World β δ ν κ} (hpolicy : SamePolicy desk.world.server result.2.server)
    (hwaits : ∀ flight pubkey action, result.1 = .waits flight →
      flight.principal = some (pubkey, action) →
      desk.world.server.isAllowed pubkey action = true) :
    (desk.place id result).Authorized := by
  intro other flight pubkey action hflight hprincipal
  change result.2.server.isAllowed pubkey action = true
  rw [hpolicy.isAllowed_eq]
  by_cases hother : other = id
  · subst hother
    have hplaced : (match result.1 with
        | .waits flight => some flight
        | .answered _ => none) = some flight := by
      simpa [Desk.place] using hflight
    split at hplaced
    · rename_i hresult
      obtain rfl := Option.some.inj hplaced
      exact hwaits _ pubkey action hresult hprincipal
    · cases hplaced
  · have hkept : desk.flights other = some flight := by
      simpa [Desk.place, Function.update_of_ne hother] using hflight
    exact h other flight pubkey action hkept hprincipal

section Runs

variable [BlobBackend β] [BlobDatabase δ] [LfsVersionDatabase ν] [LockDatabase κ]

def deskStep (ext : Transport.Externals) (desk : Desk β δ ν κ) : DeskEvent → Desk β δ ν κ
  | .arrive id request => desk.place id (request.arrive ext.toExternals desk.world)
  | .resume id =>
    match desk.flights id with
    | some flight => desk.place id (flight.advance ext.toExternals desk.world)
    | none => desk
  | .drop id => { desk with flights := Function.update desk.flights id none }
  | .other part =>
    { desk with world := { desk.world with server := (part.run ext desk.world.server).2 } }

/-- An event goes on with a signed upload and is answered with success, or leaves other metadata. -/
def RecordsFor (ext : Transport.Externals) (desk : Desk β δ ν κ) (event : DeskEvent)
    (pubkey : String) (action : Action) : Prop :=
  ∃ id flight, event = .resume id ∧ desk.flights id = some flight
    ∧ flight.principal = some (pubkey, action)
    ∧ ((∃ response, (flight.advance ext.toExternals desk.world).1 = .answered response
          ∧ response.status = .ok)
      ∨ (flight.advance ext.toExternals desk.world).2.server.database ≠ desk.world.server.database)

/-- No right on which an upload under way relies is taken away. -/
def KeepsRights (ext : Transport.Externals) (desk : Desk β δ ν κ) : DeskEvent → Prop
  | .other part => ∀ id flight pubkey action, desk.flights id = some flight →
      flight.principal = some (pubkey, action) →
      desk.world.server.isAllowed pubkey action = true →
      (part.run ext desk.world.server).2.isAllowed pubkey action = true
  | _ => True

/-- One event. -/
theorem Desk.Authorized.step {ext : Transport.Externals} {desk : Desk β δ ν κ}
    (h : desk.Authorized) {event : DeskEvent} (hkept : KeepsRights ext desk event) :
    (deskStep ext desk event).Authorized := by
  cases event with
  | arrive id request =>
    exact h.place (moves_arrive request).samePolicy fun flight pubkey action =>
      isAllowed_of_arrive
  | resume id =>
    unfold deskStep
    dsimp only
    split
    · rename_i flight hflight
      refine h.place (moves_advance flight).samePolicy ?_
      intro next pubkey action hnext hprincipal
      rw [principal_advance hnext] at hprincipal
      exact h id flight pubkey action hflight hprincipal
    · exact h
  | drop id =>
    intro other flight pubkey action hflight hprincipal
    by_cases hother : other = id
    · subst hother
      simp [deskStep] at hflight
    · have hkept : desk.flights other = some flight := by
        simpa [deskStep, Function.update_of_ne hother] using hflight
      exact h other flight pubkey action hkept hprincipal
  | other part =>
    intro id flight pubkey action hflight hprincipal
    exact hkept id flight pubkey action hflight hprincipal (h id flight pubkey action hflight hprincipal)

/-- **Uploads are recorded for allowed keys**, in any interleaving in which no event takes away a
right on which an upload under way relies. -/
theorem recorded_for_allowed_key (ext : Transport.Externals) (desk : Desk β δ ν κ)
    (hquiet : ∀ id, desk.flights id = none) (events : List DeskEvent)
    (hkept : ∀ pre event post, events = pre ++ event :: post →
      KeepsRights ext (Runs.run (deskStep ext) desk pre) event)
    (pre : List DeskEvent) (event : DeskEvent) (post : List DeskEvent)
    (hsplit : events = pre ++ event :: post) (pubkey : String) (action : Action)
    (hrecords : RecordsFor ext (Runs.run (deskStep ext) desk pre) event pubkey action) :
    (Runs.run (deskStep ext) desk pre).world.server.isAllowed pubkey action = true := by
  have hstart : desk.Authorized := by
    intro id flight pubkey action hflight
    rw [hquiet id] at hflight
    exact nomatch hflight
  have hinv : ∀ pre post, events = pre ++ post →
      (Runs.run (deskStep ext) desk pre).Authorized :=
    Runs.run_invariant (P := fun _ (desk : Desk β δ ν κ) => desk.Authorized) hstart
      fun pre event post hsplit h => h.step (hkept pre event post hsplit)
  obtain ⟨id, flight, rfl, hflight, hprincipal, -⟩ := hrecords
  exact hinv pre (.resume id :: post) hsplit id flight pubkey action hflight hprincipal

end Runs

/-! ### A key that loses its place on the whitelist -/

def memberExternals : Transport.Externals :=
  .knowing [memberUpload.event]

def memberRequest : StoringRequest :=
  .upload memberUpload.request.call memberUpload.request.headers memberUpload.request.body

/-- A server for the keys of a whitelist. -/
def listedServer (keys : List String) :
    ServerState MemoryBackend MemoryDatabase MemoryLfsVersionDatabase MemoryLockDatabase :=
  { ServerState.new MemoryBackend.new serverUrl with
    access := .liveWhitelist
    whitelist := some ⟨keys⟩ }

def membersDesk : Desk MemoryBackend MemoryDatabase MemoryLfsVersionDatabase MemoryLockDatabase :=
  ⟨⟨listedServer [testKey], seenAuthEvents⟩, fun _ => none⟩

/-- The upload arrives, a key is removed from the whitelist, and the upload goes on to its commit. -/
def removalMeanwhile (removed : String) : List DeskEvent :=
  [.arrive 0 memberRequest, .other (.whitelistRemove removed), .resume 0]

/-- The keys left on the whitelist. -/
def keysWithout (removed : String) : List String :=
  removeKey (normalized memberExternals.toExternals.bech32 removed) [testKey]

theorem arrive_memberRequest :
    memberRequest.arrive memberExternals.toExternals membersDesk.world
      = (.waits (.uploadBind memberUpload.request.call memberUpload.request.headers
          (some memberUpload.event) memberUpload.data), membersDesk.world) := by
  have hmem : memberUpload.event ∈ [memberUpload.event] := List.mem_singleton_self _
  have hevent : extractAuthEvent memberExternals.parser memberUpload.request.headers
      = .ok memberUpload.event := SignedRequest.extractAuthEvent_headers hmem
  have haccepts : Accepts memberExternals.secp serverUrl memberUpload.event
      ⟨"upload", "/upload", "PUT", none⟩ 1700000000 :=
    SignedRequest.accepts (r := memberUpload.signed) (by decide) hmem (by simp)
  have hallowed : (listedServer [testKey]).isAllowed memberUpload.event.pubkey .upload = true :=
    decide_eq_true (List.mem_singleton_self testKey)
  have hpre : signedPreflight memberExternals.toExternals memberUpload.request.call uploadEndpoint
      memberUpload.event (listedServer [testKey]) = (.ok (), listedServer [testKey]) :=
    Server.signedPreflight_eq haccepts hallowed rfl
  have hbody : readBodyLimited 256 memberUpload.request.body (256 * 1024 * 1024)
      (declaredBodyLen memberUpload.request.headers) = .ok memberUpload.data :=
    readBodyLimited_of_length (by decide) rfl
  exact arrive_upload hevent hpre hbody rfl

/-- The upload stands before its commit, whatever key was removed from the whitelist. -/
theorem run_removalMeanwhile (removed : String) :
    ∃ seen, Runs.run (deskStep memberExternals) membersDesk (removalMeanwhile removed)
      = ⟨⟨listedServer (keysWithout removed), seen⟩, Function.update (fun _ => none) 0
          (some (.uploadCommit memberUpload.request.call memberUpload.request.headers
            (some testKey) memberUpload.data))⟩ := by
  have hmem : memberUpload.event ∈ [memberUpload.event] := List.mem_singleton_self _
  obtain ⟨seen, hverified⟩ : ∃ seen, verifyAuthEvent memberExternals.toExternals
      (memberUpload.request.call.clock 1) (memberUpload.request.call.clock 2) seenAuthEvents
      memberUpload.event "upload" (listedServer (keysWithout removed)).baseUrl uploadEndpoint.path
      uploadEndpoint.method (some (sha256Hex memberUpload.data)) = (.ok (), seen) :=
    SignedRequest.verifies (r := memberUpload.signed) (by decide) hmem (fun _ h => h)
      (lapsed_seenAuthEvents 1700000000)
  have hremoved : ((Section.whitelistRemove removed).run memberExternals
      membersDesk.world.server).2 = listedServer (keysWithout removed) := rfl
  have hseen : membersDesk.world.seen = seenAuthEvents := rfl
  refine ⟨seen, ?_⟩
  simp only [removalMeanwhile, Runs.run_cons, Runs.run_nil, deskStep, arrive_memberRequest,
    Desk.place, Function.update_self, hremoved, hseen, Flight.advance, bindSigned, hverified,
    Function.update_idem]
  rfl

/-- The whitelist plays no part in a commit. -/
theorem status_commit_listedServer (ext : Server.Externals) (call : Call) (headers : HeaderMap)
    (keys : List String) :
    (Server.uploadCommit ext call headers (some testKey) [1] (listedServer keys)).1.status = .ok :=
  rfl

theorem records_removalMeanwhile (removed : String) :
    RecordsFor memberExternals
      (Runs.run (deskStep memberExternals) membersDesk (removalMeanwhile removed)) (.resume 0)
      testKey .upload := by
  obtain ⟨seen, hrun⟩ := run_removalMeanwhile removed
  rw [hrun]
  exact ⟨0, .uploadCommit memberUpload.request.call memberUpload.request.headers (some testKey)
    memberUpload.data, rfl, rfl, rfl, Or.inl ⟨_, rfl, status_commit_listedServer _ _ _ _⟩⟩

/-- The upload is recorded for a key that stays on the whitelist when another one is removed. -/
theorem recorded_for_kept_key :
    RecordsFor memberExternals
        (Runs.run (deskStep memberExternals) membersDesk (removalMeanwhile "")) (.resume 0)
        testKey .upload
      ∧ (Runs.run (deskStep memberExternals) membersDesk
        (removalMeanwhile "")).world.server.isAllowed testKey .upload = true := by
  refine ⟨records_removalMeanwhile "", recorded_for_allowed_key memberExternals membersDesk
    (fun _ => rfl) (removalMeanwhile "" ++ [.resume 0]) ?_ (removalMeanwhile "") (.resume 0) [] rfl
    testKey .upload (records_removalMeanwhile "")⟩
  change ∀ pre event post, _ :: _ :: _ :: _ :: [] = pre ++ event :: post → _
  simp only [Runs.forall_split_cons, Runs.forall_split_nil, and_true]
  refine ⟨trivial, ?_, trivial, trivial⟩
  intro id flight pubkey action _ _ hallowed
  have hworld : (Runs.run (deskStep memberExternals) membersDesk
      [.arrive 0 memberRequest]).world = membersDesk.world := by
    simp only [Runs.run_cons, Runs.run_nil, deskStep, arrive_memberRequest, Desk.place]
  rw [hworld] at hallowed ⊢
  have hmember : pubkey ∈ [testKey] := of_decide_eq_true hallowed
  obtain rfl := List.mem_singleton.mp hmember
  change decide (testKey ∈ keysWithout "") = true
  decide

/-- The upload is recorded for a key that was removed from the whitelist while it was under way. -/
theorem recorded_for_removed_key :
    RecordsFor memberExternals
        (Runs.run (deskStep memberExternals) membersDesk (removalMeanwhile testKey)) (.resume 0)
        testKey .upload
      ∧ (Runs.run (deskStep memberExternals) membersDesk
        (removalMeanwhile testKey)).world.server.isAllowed testKey .upload = false := by
  refine ⟨records_removalMeanwhile testKey, ?_⟩
  obtain ⟨seen, hrun⟩ := run_removalMeanwhile testKey
  rw [hrun]
  change decide (testKey ∈ keysWithout testKey) = false
  have hkey : normalized memberExternals.toExternals.bech32 testKey = testKey := by
    decide
  rw [keysWithout, hkey]
  decide

end BlossomRs.System

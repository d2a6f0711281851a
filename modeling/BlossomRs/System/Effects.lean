import Mathlib.Logic.Relation
import BlossomRs.System.Commits

/-!
# What a section can do

A section calls the metadata database, writes blobs and version records, edits the access policy, or
does something that none of these shows: it counts, takes a token of the rate limiter, moves a lock.
`effects_run` says which of these each section can do, and whom its calls can name.  The other results
read it: nothing but four sections of administrators changes the policy (`samePolicy_run`), and a
property of databases that survives each call of a section holds along every run (`calls_run`).
-/

namespace BlossomRs.System

open Protocol Storage Database Access Lfs Locks Server

variable {β δ ν κ : Type}

/-! ### Sections by what they are for -/

/-- The hash a section may remove. -/
def Section.removes : Section → Option String
  | .delete _ hash _ => some hash
  | .nip96Delete hash _ => some hash
  | .adminDelete hash => some hash
  | .stream _ _ request _ _ => if request.op = .delete then some request.sha256 else none
  | _ => none

/-- The key a delete is made for. -/
def Section.deleter : Section → Option String
  | .delete _ _ pubkey => some pubkey
  | .nip96Delete _ pubkey => some pubkey
  | .stream _ _ _ authPubkey _ => authPubkey
  | _ => none

/-- Deletes that store the deltas on the hash in full first. -/
def Section.rebases : Section → Bool
  | .delete _ _ _ => true
  | .stream _ _ _ _ _ => true
  | _ => false

/-- The section deletes the bytes of a hash: it is a delete of the hash that the rule on owners lets
through, or an administrator's. -/
def Section.Deletes [BlobDatabase δ] (hash : String) (s : ServerState β δ ν κ) : Section → Prop
  | .delete _ target pubkey => target = hash ∧ (ownerDecision hash pubkey s).1 = .proceed
  | .nip96Delete target pubkey => target = hash ∧ (ownerDecision hash pubkey s).1 = .proceed
  | .adminDelete target => target = hash
  | .stream _ _ request authPubkey _ => request.op = .delete ∧ request.sha256 = hash
      ∧ ∃ pubkey, authPubkey = some pubkey ∧ (ownerDecision hash pubkey s).1 = .proceed
  | _ => False

/-- What a section that deletes bytes does with them. -/
def Section.removal [BlobBackend β] [BlobDatabase δ] [LfsVersionDatabase ν] (ext : Server.Externals)
    (hash : String) : Section → ServerState β δ ν κ → Except RemovalError Bool × ServerState β δ ν κ
  | .delete call _ _ => removeRebased ext (fun i => call.clock (i + 2)) hash
  | .stream call _ _ _ _ => removeRebased ext call.clock hash
  | _ => removeStored hash

/-- The sections of administrators that change who may do what. -/
def Section.ChangesPolicy : Section → Prop
  | .setAccessControl _ | .setRole _ _ | .whitelistAdd _ | .whitelistRemove _ => True
  | _ => False

/-- The policy and the handles it reads are the same. -/
structure SamePolicy (s s₁ : ServerState β δ ν κ) : Prop where
  access : s₁.access = s.access
  roles : s₁.roleBasedAccess = s.roleBasedAccess
  whitelist : s₁.whitelist = s.whitelist

namespace SamePolicy

theorem refl (s : ServerState β δ ν κ) : SamePolicy s s :=
  ⟨rfl, rfl, rfl⟩

theorem isAllowed_eq {s s' : ServerState β δ ν κ} (h : SamePolicy s s') (pubkey : String)
    (action : Action) : s'.isAllowed pubkey action = s.isAllowed pubkey action := by
  simp only [ServerState.isAllowed, h.access, h.roles, h.whitelist]

end SamePolicy

section Locks

variable [LockDatabase κ]

/-- The lock operations change nothing but the locks. -/
theorem createLockAs_frame (freshId : String) (now : Nat) (repo path pubkey : String)
    (s : ServerState β δ ν κ) :
    ∃ lockDb, (createLockAs freshId now repo path pubkey s).2 = { s with lockDb := lockDb } := by
  unfold createLockAs
  split
  · split
    · exact ⟨s.lockDb, rfl⟩
    · split <;> exact ⟨_, rfl⟩
  · exact ⟨s.lockDb, rfl⟩

theorem unlockAs_frame (repo id : String) (force : Bool) (pubkey : String)
    (s : ServerState β δ ν κ) :
    ∃ lockDb, (unlockAs repo id force pubkey s).2 = { s with lockDb := lockDb } := by
  unfold unlockAs
  split
  · exact ⟨s.lockDb, rfl⟩
  · split <;> exact ⟨_, rfl⟩

theorem handleLockCreate_frame (freshId : String) (now : Nat) (request : Transport.Request)
    (authPubkey : Option String) (s : ServerState β δ ν κ) :
    ∃ lockDb, (Transport.handleLockCreate freshId now request authPubkey s).2
      = { s with lockDb := lockDb } := by
  unfold Transport.handleLockCreate
  split
  · exact ⟨s.lockDb, rfl⟩
  · split
    · split
      · exact ⟨s.lockDb, rfl⟩
      · split <;> exact ⟨_, rfl⟩
    · exact ⟨s.lockDb, rfl⟩

theorem handleLockDelete_frame (request : Transport.Request) (authPubkey : Option String)
    (s : ServerState β δ ν κ) :
    ∃ lockDb, (Transport.handleLockDelete request authPubkey s).2 = { s with lockDb := lockDb } := by
  unfold Transport.handleLockDelete
  split
  · exact ⟨s.lockDb, rfl⟩
  · split
    · exact ⟨s.lockDb, rfl⟩
    · split <;> exact ⟨_, rfl⟩

end Locks

/-! ### Calls of the database -/

/-- What the writing calls may be given. -/
structure CallScope where
  record : UploadRecord → Prop
  release : String → Prop
  user : String → Prop
  role : Prop

/-- What the calls of a section are given. -/
def Section.scope (part : Section) : CallScope where
  record record := part.names = some record.pubkey
    ∧ ∃ data, part.stores = some data ∧ record.size = data.length
  release hash := part.removes = some hash
  user pubkey := part.names = some pubkey
  role := ∃ pubkey role, part = .setRole pubkey role

variable [BlobDatabase δ]

/-- A writing call of the interface within a scope, whatever it answers. -/
inductive DbCall (scope : CallScope) : δ → δ → Prop
  | recordUpload (db : δ) (record : UploadRecord) (h : scope.record record) :
      DbCall scope db (BlobDatabase.recordUpload db record).2
  | deleteUpload (db : δ) (hash : String) (h : scope.release hash) :
      DbCall scope db (BlobDatabase.deleteUpload db hash).2
  | deleteUploadOwner (db : δ) (hash pubkey : String) (h : scope.release hash) :
      DbCall scope db (BlobDatabase.deleteUploadOwner db hash pubkey).2
  | getOrCreateUser (db : δ) (pubkey : String) (h : scope.user pubkey) :
      DbCall scope db (BlobDatabase.getOrCreateUser db pubkey).2
  | setQuota (db : δ) (pubkey : String) (quotaBytes : Option Nat) (h : scope.user pubkey) :
      DbCall scope db (BlobDatabase.setQuota db pubkey quotaBytes).2
  | setRole (db : δ) (pubkey role : String) (h : scope.role) :
      DbCall scope db (BlobDatabase.setRole db pubkey role).2
  | recordAccess (db : δ) (hash : String) (bytesServed now : Nat) :
      DbCall scope db (BlobDatabase.recordAccess db hash bytesServed now).2

/-- Any number of calls within a scope. -/
abbrev Calls (scope : CallScope) : δ → δ → Prop :=
  Relation.ReflTransGen (DbCall scope)

/-! ### Effects -/

/-- What may be done: which calls, and whether to the blobs or to the policy. -/
structure Reach extends CallScope where
  blobs : Prop
  policy : Prop

/-- What a section may do.  The size it records is what the backend says it is, which only a lawful
one says rightly. -/
def Section.reach (β : Type) [BlobBackend β] (part : Section) : Reach where
  record record := part.names = some record.pubkey
    ∧ ∃ data, part.stores = some data ∧ (LawfulBlobBackend β → record.size = data.length)
  release hash := part.removes = some hash
  user pubkey := part.names = some pubkey
  role := ∃ pubkey role, part = .setRole pubkey role
  blobs := part.stores.isSome ∨ part.removes.isSome
  policy := part.ChangesPolicy

/-- References may be released, and nothing else. -/
def Reach.releases : Reach :=
  ⟨⟨fun _ => False, fun _ => True, fun _ => False, False⟩, False, False⟩

/-- One change of the state. -/
inductive Effect (reach : Reach) : ServerState β δ ν κ → ServerState β δ ν κ → Prop
  | call (s : ServerState β δ ν κ) {database : δ}
      (h : DbCall reach.toCallScope s.database database) :
      Effect reach s { s with database := database }
  | blobs (s : ServerState β δ ν κ) (backend : β) (versions : Option ν) (h : reach.blobs) :
      Effect reach s { s with backend := backend, lfsVersionDb := versions }
  | policy (s : ServerState β δ ν κ) (access : AccessPolicy) (roles : Option RoleBasedAccess)
      (whitelist : Option Whitelist) (h : reach.policy) :
      Effect reach s
        { s with access := access, roleBasedAccess := roles, whitelist := whitelist }
  | aside (s : ServerState β δ ν κ) (limiter : Option RateLimit.RateLimiter) (stats : StatsAccumulator)
      (lockDb : Option κ) (baseUrl : String) :
      Effect reach s
        { s with rateLimiter := limiter, stats := stats, lockDb := lockDb, baseUrl := baseUrl }

/-- Any number of changes. -/
abbrev Effects (reach : Reach) : ServerState β δ ν κ → ServerState β δ ν κ → Prop :=
  Relation.ReflTransGen (Effect reach)

variable {reach : Reach} {s s' : ServerState β δ ν κ} {hash pubkey : String} {data : Bytes}

/-- One call, by what it returned. -/
theorem DbCall.effects {database after : δ} (h : DbCall reach.toCallScope s.database database)
    (heq : database = after) : Effects reach s { s with database := after } := by
  subst heq
  exact .single (.call s h)

theorem SamePolicy.of_effects (h : Effects reach s s') (hpolicy : ¬ reach.policy) :
    SamePolicy s s' := by
  induction h with
  | refl => exact .refl s
  | tail _ heffect ih =>
    cases heffect with
    | policy _ _ _ hchanges => exact absurd hchanges hpolicy
    | _ => exact ⟨ih.access, ih.roles, ih.whitelist⟩

theorem effects_checkRate (key : String) (nowMs : Nat) :
    Effects reach s (s.checkRate key nowMs).2 := by
  unfold ServerState.checkRate
  split
  · exact .refl
  · exact .single (.aside s _ _ _ _)

theorem effects_flushStats (now : Nat) : Effects reach s (s.flushStats now) := by
  have hfold : ∀ (entries : List (String × Nat × Nat)) (s : ServerState β δ ν κ),
      Effects reach s { s with database := entries.foldl (fun db entry =>
        (BlobDatabase.recordAccess db entry.1 entry.2.1 now).2) s.database } := by
    intro entries
    induction entries with
    | nil => exact fun _ => .refl
    | cons entry entries ih =>
      intro s
      exact Relation.ReflTransGen.head (.call s (.recordAccess _ _ _ _)) (ih _)
  exact (hfold _ s).tail (.aside _ _ .new _ _)

/-! ### Administration -/

theorem effects_getUser (huser : reach.user pubkey) : Effects reach s (getUser pubkey s).2 := by
  unfold getUser
  split
  case h_1 heq => exact (DbCall.getOrCreateUser _ _ huser).effects (by rw [heq])
  case h_2 heq => exact (DbCall.getOrCreateUser _ _ huser).effects (by rw [heq])

theorem effects_setQuota (quotaBytes : Option Nat) (huser : reach.user pubkey) :
    Effects reach s (setQuota pubkey quotaBytes s).2 := by
  unfold setQuota
  split
  case h_1 heq => exact (DbCall.setQuota _ _ _ huser).effects (by rw [heq])
  case h_2 heq => exact (DbCall.setQuota _ _ _ huser).effects (by rw [heq])

theorem effects_applySetRole (ext : Server.Externals) (pubkey role : String) (hrole : reach.role)
    (hpolicy : reach.policy) : Effects reach s (applySetRole ext pubkey role s).2 := by
  unfold applySetRole
  split
  · rename_i access _
    -- the live handle follows once the database has answered
    have hboth : ∀ (database : δ) (roles : Option RoleBasedAccess),
        (BlobDatabase.setRole s.database (normalized ext.bech32 pubkey) role).2 = database →
        Effects reach s { s with database := database, roleBasedAccess := roles } := by
      intro database roles heq
      exact ((DbCall.setRole _ _ _ hrole).effects heq).tail (.policy _ _ roles _ hpolicy)
    dsimp only
    split
    case h_1 heq => exact hboth _ _ (by rw [heq])
    case h_2 heq => exact hboth _ _ (by rw [heq])
  · exact (DbCall.setRole _ _ _ hrole).effects rfl

theorem effects_setRole (ext : Server.Externals) (pubkey role : String) (hrole : reach.role)
    (hpolicy : reach.policy) : Effects reach s (setRole ext pubkey role s).2 := by
  unfold setRole
  dsimp only
  split
  · have hdone : Effects reach s (applySetRole ext (normalized ext.bech32 pubkey)
        (RustStr.toAsciiLowercase role) s).2 := effects_applySetRole ext _ _ hrole hpolicy
    split
    case h_1 heq => rwa [heq] at hdone
    case h_2 heq => rwa [heq] at hdone
  · exact .refl

theorem effects_editWhitelist (edit : List String → List String) (answer : String × Json)
    (hpolicy : reach.policy) : Effects reach s (editWhitelist edit answer s).2 := by
  unfold editWhitelist
  split
  · exact .single (.policy s _ _ _ hpolicy)
  · exact .refl

/-! ### Deletes -/

theorem effects_ownerDecision (pubkey : String) (hrelease : reach.release hash) :
    Effects reach s (ownerDecision hash pubkey s).2 := by
  unfold ownerDecision
  split
  · exact .refl
  · exact .refl
  · split
    · split
      · exact .refl
      · split
        · unfold releaseReference
          split
          case h_1 heq => exact (DbCall.deleteUploadOwner _ _ _ hrelease).effects (by rw [heq])
          case h_2 heq => exact (DbCall.deleteUploadOwner _ _ _ hrelease).effects (by rw [heq])
        · exact .refl
    · exact .refl

theorem ownerDecision_of_proceed (h : (ownerDecision hash pubkey s).1 = .proceed) :
    ownerDecision hash pubkey s = (.proceed, s) := by
  have heq : ownerDecision hash pubkey s = (.proceed, (ownerDecision hash pubkey s).2) :=
    Prod.ext h rfl
  rwa [eq_of_proceed heq] at heq

/-- A delete over HTTP that goes on answers as its removal went. -/
theorem deleteAs_of_proceed {endpoint : DeleteEndpoint}
    {remove : ServerState β δ ν κ → Except RemovalError Bool × ServerState β δ ν κ}
    (hdeleted : endpoint.deleted.status = .ok) (h : (ownerDecision hash pubkey s).1 = .proceed) :
    (httpAnswer (deleteAs endpoint remove hash pubkey s)).2 = (remove s).2
      ∧ ((httpAnswer (deleteAs endpoint remove hash pubkey s)).1 = true
        ↔ (remove s).1 = .ok true) := by
  simp only [httpAnswer, deleteAs, ownerDecision_of_proceed h]
  rcases hremove : remove s with ⟨result, s'⟩
  cases result with
  | error e =>
    refine ⟨rfl, iff_of_false ?_ nofun⟩
    cases e <;> simp [removalErrorResponse, errorJson]
  | ok existed =>
    cases existed with
    | false => exact ⟨rfl, iff_of_false (by simp [errorJson]) (by simp)⟩
    | true => exact ⟨rfl, iff_of_true (by simp [hdeleted]) rfl⟩

/-- One that does not go on ends where the rule on owners left it. -/
theorem deleteAs_of_stopped {endpoint : DeleteEndpoint}
    {remove : ServerState β δ ν κ → Except RemovalError Bool × ServerState β δ ν κ}
    (h : (ownerDecision hash pubkey s).1 ≠ .proceed) :
    (deleteAs endpoint remove hash pubkey s).2 = (ownerDecision hash pubkey s).2 := by
  unfold deleteAs
  split
  case h_6 heq => exact absurd (by rw [heq]) h
  all_goals
    rename_i heq
    rw [heq]

theorem effects_of_locks (h : ∃ lockDb, s' = { s with lockDb := lockDb }) :
    Effects reach s s' := by
  obtain ⟨lockDb, rfl⟩ := h
  exact .single (.aside s _ _ lockDb _)

theorem Effects.calls (h : Effects reach s s') :
    Calls reach.toCallScope s.database s'.database := by
  induction h with
  | refl => exact .refl
  | tail _ heffect ih =>
    cases heffect with
    | call hcall => exact ih.tail hcall
    | _ => exact ih

/-- A property that survives each call survives any number of them. -/
theorem Calls.invariant {scope : CallScope} {P : δ → Prop}
    (hstep : ∀ db db', P db → DbCall scope db db' → P db') {before after : δ}
    (h : Calls scope before after) (hbefore : P before) : P after := by
  induction h with
  | refl => exact hbefore
  | tail _ hcall ih => exact hstep _ _ ih hcall

variable [BlobBackend β]

theorem effects_removeStored (hrelease : reach.release hash) (hblobs : reach.blobs) :
    Effects reach s (removeStored hash s).2 := by
  have hbytes : ∀ backend, Effects reach s { s with backend := backend } :=
    fun backend => .single (.blobs s backend _ hblobs)
  unfold removeStored
  split
  · exact hbytes _
  · exact hbytes _
  · split
    case h_1 heq => exact (hbytes _).trans ((DbCall.deleteUpload _ _ hrelease).effects (by rw [heq]))
    case h_2 heq => exact (hbytes _).trans ((DbCall.deleteUpload _ _ hrelease).effects (by rw [heq]))

theorem effects_storeWhole (now : Nat) (hblobs : reach.blobs) :
    Effects reach s (storeWhole data now s).2 := by
  unfold storeWhole
  split <;> exact .single (.blobs s _ _ hblobs)

theorem Commit.effects {checked : Prop}
    {store : ServerState β δ ν κ → Except String Unit × ServerState β δ ν κ} {owner : String}
    {ok : Bool} (h : Commit checked store owner data s ok s')
    (hstore : Effects reach s (store s).2)
    (hrecord : ∀ record : UploadRecord, record.pubkey = owner →
      (LawfulBlobBackend β → record.size = data.length) → reach.record record) :
    Effects reach s s' := by
  cases h with
  | refused => exact .refl
  | unstored _ hfailed => rwa [hfailed] at hstore
  | recorded _ hstored howner hblob hcall _ =>
    rw [hstored] at hstore
    have hscope := hrecord _ howner fun hlawful => (hblob hlawful).2
    exact hstore.trans ((DbCall.recordUpload _ _ hscope).effects (by rw [hcall]))

variable [LfsVersionDatabase ν]

theorem effects_rebaseDeltas (ext : Server.Externals) (deltas : List LfsFileVersion)
    (clock : Nat → Nat) (s : ServerState β δ ν κ) (hblobs : reach.blobs) :
    Effects reach s (rebaseDeltas ext clock deltas s).2 := by
  refine rebaseDeltas_invariant (P := Effects reach s) ?_ clock deltas .refl
  intro now db delta s₁ _ h
  refine h.trans ?_
  unfold rebaseDelta
  split
  · exact .refl
  · split
    · exact .single (.blobs s₁ _ _ hblobs)
    · split <;> exact .single (.blobs s₁ _ _ hblobs)

theorem effects_removeRebased (ext : Server.Externals) (clock : Nat → Nat)
    (hrelease : reach.release hash) (hblobs : reach.blobs) : Effects reach s (removeRebased ext clock hash s).2 := by
  have hrebased := effects_rebaseDeltas ext (deltasToRebase hash s) clock s hblobs
  unfold removeRebased
  split
  case h_1 heq => rwa [heq] at hrebased
  case h_2 s₁ heq =>
    rw [heq] at hrebased
    have hremoved := hrebased.trans (effects_removeStored hrelease hblobs)
    split
    case h_1 hresult =>
      rw [hresult] at hremoved
      exact hremoved.tail (.blobs _ _ _ hblobs)
    case h_2 hresult => rwa [hresult] at hremoved

theorem effects_removal (ext : Server.Externals) (part : Section)
    (hrelease : reach.release hash) (hblobs : reach.blobs) : Effects reach s (part.removal ext hash s).2 := by
  cases part with
  | delete | stream => exact effects_removeRebased ext _ hrelease hblobs
  | _ => exact effects_removeStored hrelease hblobs

/-- **A section that deletes the bytes of a hash is its removal.** -/
theorem run_of_deletes [LockDatabase κ] (ext : Transport.Externals) {part : Section}
    (hdeletes : part.Deletes hash s) :
    (part.run ext s).2 = (part.removal ext.toExternals hash s).2
      ∧ ((part.run ext s).1 = true ↔ (part.removal ext.toExternals hash s).1 = .ok true) := by
  cases part with
  | delete call target pubkey =>
    obtain ⟨rfl, hproceed⟩ := hdeletes
    exact deleteAs_of_proceed rfl hproceed
  | nip96Delete target pubkey =>
    obtain ⟨rfl, hproceed⟩ := hdeletes
    exact deleteAs_of_proceed rfl hproceed
  | adminDelete target =>
    obtain rfl : target = hash := hdeletes
    simp only [Section.run, httpAnswer, adminDelete, Section.removal]
    rcases hremove : removeStored target s with ⟨result, s'⟩
    cases result with
    | error e =>
      refine ⟨rfl, iff_of_false ?_ (by rintro ⟨⟩)⟩
      cases e <;> simp [removalErrorResponse, errorJson]
    | ok existed =>
      cases existed with
      | false => exact ⟨rfl, iff_of_false (by simp [errorJson]) (by simp)⟩
      | true => exact ⟨rfl, iff_of_true (by simp [okJson]) rfl⟩
  | stream call freshId request authPubkey body =>
    obtain ⟨hop, rfl, pubkey, rfl, hproceed⟩ := hdeletes
    simp only [Section.run, Transport.dispatch, hop, Transport.handleDelete, Transport.deleteAs,
      ownerDecision_of_proceed hproceed, Section.removal]
    rcases hremove : removeRebased ext.toExternals call.clock request.sha256 s with ⟨result, s'⟩
    cases result with
    | error e =>
      refine ⟨rfl, iff_of_false ?_ (by rintro ⟨⟩)⟩
      cases e <;> simp [Transport.removalFailure, Transport.Response.failure]
    | ok existed =>
      cases existed with
      | false =>
        exact ⟨rfl, iff_of_false (by simp [Transport.Response.failure]) (by simp)⟩
      | true => exact ⟨rfl, iff_of_true (by simp [Transport.Response.failure]) rfl⟩
  | _ => exact hdeletes.elim

/-- A section that may remove a hash deletes its bytes, or leaves what the rule on owners leaves if it
is made for a key. -/
theorem run_of_removes [LockDatabase κ] (ext : Transport.Externals) {part : Section}
    (hremoves : part.removes = some hash) (s : ServerState β δ ν κ) :
    part.Deletes hash s ∨ (part.run ext s).2 = s
      ∨ ∃ pubkey, part.deleter = some pubkey
        ∧ (part.run ext s).2 = (ownerDecision hash pubkey s).2 := by
  refine or_iff_not_imp_left.mpr fun hnot => ?_
  cases part with
  | delete call target pubkey =>
    obtain rfl : target = hash := Option.some.inj hremoves
    exact Or.inr ⟨pubkey, rfl, deleteAs_of_stopped fun h => hnot ⟨rfl, h⟩⟩
  | nip96Delete target pubkey =>
    obtain rfl : target = hash := Option.some.inj hremoves
    exact Or.inr ⟨pubkey, rfl, deleteAs_of_stopped fun h => hnot ⟨rfl, h⟩⟩
  | adminDelete target => exact absurd (Option.some.inj hremoves) hnot
  | stream call freshId request authPubkey body =>
    by_cases hop : request.op = .delete
    · obtain rfl : request.sha256 = hash := by simpa [Section.removes, hop] using hremoves
      simp only [Section.run, Transport.dispatch, hop]
      cases authPubkey with
      | none => exact Or.inl rfl
      | some pubkey =>
        refine Or.inr ⟨pubkey, rfl, ?_⟩
        simp only [Transport.handleDelete, Transport.deleteAs]
        split
        case h_6 heq => exact absurd ⟨hop, rfl, pubkey, rfl, by rw [heq]⟩ hnot
        all_goals
          rename_i heq
          rw [heq]
    · simp [Section.removes, hop] at hremoves
  | _ => cases hremoves

/-- If it does not delete the bytes, it releases a reference at most. -/
theorem deletes_of_removes [LockDatabase κ] (ext : Transport.Externals) {part : Section}
    (hremoves : part.removes = some hash) (s : ServerState β δ ν κ) :
    part.Deletes hash s
      ∨ ∀ reach : Reach, reach.release hash → Effects reach s (part.run ext s).2 := by
  rcases run_of_removes ext hremoves s with hdeletes | hsame | ⟨pubkey, -, hrule⟩
  · exact Or.inl hdeletes
  · exact Or.inr fun reach _ => hsame.symm ▸ .refl
  · exact Or.inr fun reach hrelease => hrule ▸ effects_ownerDecision pubkey hrelease

/-! ### Uploads -/

theorem effects_storeUpload (ext : Server.Externals) (ctx : LfsContext) (insertNow recordNow : Nat)
    (hblobs : reach.blobs) :
    Effects reach s (storeUpload ext ctx hash data insertNow recordNow s).2 := by
  unfold storeUpload
  dsimp only
  split <;> exact .single (.blobs s _ _ hblobs)

theorem effects_store (ext : Server.Externals) (part : Section) (hblobs : reach.blobs) :
    Effects reach s (part.store ext s).2 := by
  cases part with
  | upload | stream => exact effects_storeUpload ext _ _ _ hblobs
  | nip96Upload | mediaUpload | mirror => exact effects_storeWhole _ hblobs
  | _ => exact .refl

/-! ### All sections -/

variable [LockDatabase κ]

/-- **A section does what it may do** and nothing else. -/
theorem effects_run (ext : Transport.Externals) (part : Section) (s : ServerState β δ ν κ) :
    Effects (part.reach β) s (part.run ext s).2 := by
  -- the sections that store a blob all end the same way
  rcases hstores : part.stores with _ | data
  case some =>
    obtain ⟨owner, hnames, hcommit⟩ := commit_run ext hstores s
    refine hcommit.effects (effects_store ext.toExternals part (Or.inl (by rw [hstores]; rfl))) ?_
    intro record howner hsize
    exact ⟨by rw [hnames, howner], data, hstores, hsize⟩
  -- those that may remove one delete its bytes, or do less
  rcases hremoves : part.removes with _ | hash
  case some =>
    rcases deletes_of_removes ext hremoves s with hdeletes | heffects
    · rw [(run_of_deletes ext hdeletes).1]
      exact effects_removal ext.toExternals part hremoves (Or.inr (by rw [hremoves]; rfl))
    · exact heffects _ hremoves
  cases part with
  | rate key nowMs => exact effects_checkRate key nowMs
  | countAccess hash bytesServed now => exact .single (.aside s _ _ _ _)
  | flushStats now => exact effects_flushStats now
  | setBaseUrl baseUrl => exact .single (.aside s _ _ _ baseUrl)
  | setAccessControl policy => exact .single (.policy s policy _ _ trivial)
  | getUser pubkey => exact effects_getUser rfl
  | setQuota pubkey quotaBytes => exact effects_setQuota quotaBytes rfl
  | setRole pubkey role => exact effects_setRole _ pubkey role ⟨pubkey, role, rfl⟩ trivial
  | whitelistAdd pubkey => exact effects_editWhitelist _ _ trivial
  | whitelistRemove pubkey => exact effects_editWhitelist _ _ trivial
  | createLock freshId now repo path pubkey =>
    exact effects_of_locks (createLockAs_frame _ _ _ _ _ s)
  | unlock repo id force pubkey => exact effects_of_locks (unlockAs_frame _ _ _ _ s)
  | stream call freshId request authPubkey body =>
    simp only [Section.run, Transport.dispatch]
    cases hop : request.op with
    | upload => simp [Section.stores, hop] at hstores
    | delete => simp [Section.removes, hop] at hremoves
    | lockCreate => exact effects_of_locks (handleLockCreate_frame _ _ _ _ s)
    | lockDelete => exact effects_of_locks (handleLockDelete_frame _ _ s)
    | _ => exact .refl
  | upload | nip96Upload | mediaUpload | mirror => cases hstores
  | delete | nip96Delete | adminDelete => cases hremoves

/-! ### The policy -/

/-- **Only administrators change the policy.** -/
theorem samePolicy_run (ext : Transport.Externals) (part : Section) (s : ServerState β δ ν κ)
    (h : ¬ part.ChangesPolicy) : SamePolicy s (part.run ext s).2 :=
  .of_effects (effects_run ext part s) h

/-! ### The metadata database -/

variable [LawfulBlobBackend β]

/-- **A section writes to the database through its interface**, and within its scope. -/
theorem calls_run (ext : Transport.Externals) (part : Section) (s : ServerState β δ ν κ) :
    Calls part.scope s.database (part.run ext s).2.database := by
  have hscope : (part.reach β).toCallScope = part.scope := by
    simp only [Section.reach, Section.scope, forall_prop_of_true ‹LawfulBlobBackend β›]
  exact hscope ▸ (effects_run ext part s).calls

end BlossomRs.System

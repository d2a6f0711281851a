import BlossomRs.Access.Roles
import BlossomRs.System.Effects

/-!
# Roles across a restart

A server that is started anew loads its roles from the role column of the user table.  Between two
starts the live roles are kept in memory, and the column is written by the methods that change a role,
but also by every call that has to find a user.

`RolesAgree` says that the column and the live roles tell the same.  It holds after a start, and a step
keeps it as long as no user is named who has no row yet, and nobody is removed who has a role: a new
row says `member` of a user whom the live roles deny, and a removal is not written to the column.
-/

namespace BlossomRs.System

open Storage Database Access Lfs Locks Server LawfulRoles

variable {β δ ν κ : Type} [BlobDatabase δ]

/-- A step of a server with live roles: a method of the live handle on the server's database, or what
a request does under the lock. -/
inductive RoleStep where
  | setRole (pubkey role : String)
  | promoteAdmin (pubkey : String)
  | demoteToMember (pubkey : String)
  | remove (pubkey : String)
  | serve (part : Section)

/-- Call a method of the live handle, if there is one, on the server's database. -/
def withRoles (method : RoleBasedAccess → δ → RoleBasedAccess × δ) (s : ServerState β δ ν κ) :
    ServerState β δ ν κ :=
  match s.roleBasedAccess with
  | some access => { s with
      roleBasedAccess := some (method access s.database).1
      database := (method access s.database).2 }
  | none => s

def RoleStep.run [BlobBackend β] [LfsVersionDatabase ν] [LockDatabase κ] (ext : Transport.Externals)
    (s : ServerState β δ ν κ) : RoleStep → ServerState β δ ν κ
  | .setRole pubkey role =>
    withRoles (fun access db => (access.setRole ext.bech32 pubkey role db).2) s
  | .promoteAdmin pubkey =>
    withRoles (fun access db => (access.promoteAdmin ext.bech32 pubkey db).2) s
  | .demoteToMember pubkey =>
    withRoles (fun access db => (access.demoteToMember ext.bech32 pubkey db).2) s
  | .remove pubkey => withRoles (fun access db => (access.remove ext.bech32 pubkey, db)) s
  | .serve part => (part.run ext s).2

/-- The role the live handle gives a key. -/
def liveRole (s : ServerState β δ ν κ) (pubkey : String) : Role :=
  (s.roleBasedAccess.map (·.role pubkey)).getD .denied

/-- Live roles that tell the same as the role column. -/
structure RolesAgree [LawfulRoles δ] (access : RoleBasedAccess) (db : δ) : Prop where
  filed : Filed db
  role_eq : ∀ pubkey, access.role pubkey = Role.ofRow (rowRole db pubkey)

/-! ### Methods of the live handle -/

section Methods

variable [LawfulRoles δ] {access : RoleBasedAccess} {db : δ}

section

variable (h : RolesAgree access db)
include h

/-- A method that writes the role it sets. -/
theorem RolesAgree.persist (key text : String) {changed : RoleBasedAccess}
    (hrole : changed.role = Function.update access.role key (Role.ofRow (some text))) :
    RolesAgree (access.persist key text changed db).2.1 (access.persist key text changed db).2.2 := by
  unfold RoleBasedAccess.persist
  split
  case h_1 e db' heq =>
    obtain ⟨hfiled, hrows⟩ := setRole_error heq h.filed
    exact ⟨hfiled, fun pubkey => hrows ▸ h.role_eq pubkey⟩
  case h_2 db' heq =>
    obtain ⟨hfiled, hrows⟩ := setRole_ok heq h.filed
    refine ⟨hfiled, fun pubkey => ?_⟩
    dsimp only
    rw [hrole, hrows]
    by_cases hsame : pubkey = key
    · rw [hsame, Function.update_self, Function.update_self]
    · rw [Function.update_of_ne hsame, Function.update_of_ne hsame, h.role_eq]

theorem RolesAgree.setRole (bech32 : Bech32) (pubkey role : String) :
    RolesAgree (access.setRole bech32 pubkey role db).2.1
      (access.setRole bech32 pubkey role db).2.2 :=
  h.persist _ _ (RoleBasedAccess.role_applyRole _ _)

section

variable (bech32 : Bech32) (pubkey : String)

theorem RolesAgree.promoteAdmin :
    RolesAgree (access.promoteAdmin bech32 pubkey db).2.1
      (access.promoteAdmin bech32 pubkey db).2.2 :=
  h.persist _ _ (RoleBasedAccess.role_promoted _)

theorem RolesAgree.demoteToMember :
    RolesAgree (access.demoteToMember bech32 pubkey db).2.1
      (access.demoteToMember bech32 pubkey db).2.2 :=
  h.persist _ _ (RoleBasedAccess.role_demoted _)

/-- Removing a key that has no role changes no role. -/
theorem RolesAgree.remove
    (hdenied : access.role (normalized bech32 pubkey) = .denied) :
    RolesAgree (access.remove bech32 pubkey) db where
  filed := h.filed
  role_eq other := by
    rw [RoleBasedAccess.role_remove, ← hdenied, Function.update_eq_self, h.role_eq]

end

end

end Methods

/-! ### Requests -/

variable {s : ServerState β δ ν κ} {access : RoleBasedAccess}

section

variable (h : s.roleBasedAccess = some access) (ext : Server.Externals)
include h

/-- What the locked part of a role change does is the method of the live handle. -/
theorem applySetRole_eq (pubkey role : String) :
    (applySetRole ext pubkey role s).2 =
      withRoles (fun access db => (access.setRole ext.bech32 pubkey role db).2) s := by
  simp only [applySetRole, withRoles, h, RoleBasedAccess.setRole, RoleBasedAccess.persist,
    normalized]
  cases hset : BlobDatabase.setRole s.database ((normalizePubkey ext.bech32 pubkey).getD pubkey) role
    with
  | mk result database =>
    cases result with
    | error e => simp only [← h]
    | ok _ => rfl

/-- A role change through the endpoint does nothing, or is the method of the live handle. -/
theorem state_setRole (pubkey role : String) :
    (Server.setRole ext pubkey role s).2 = s ∨ ∃ key text, (Server.setRole ext pubkey role s).2
      = withRoles (fun access db => (access.setRole ext.bech32 key text db).2) s := by
  unfold Server.setRole
  dsimp only
  split
  · refine Or.inr ⟨normalized ext.bech32 pubkey, RustStr.toAsciiLowercase role, ?_⟩
    rw [← applySetRole_eq h]
    split
    case h_1 heq => rw [heq]
    case h_2 heq => rw [heq]
  · exact Or.inl rfl

end

/-- Calls that name only users with a row leave the role column as it was. -/
theorem rows_of_calls [LawfulRoles δ] {scope : CallScope} {db db' : δ} (h : Calls scope db db')
    (hfiled : Filed db) (hrole : ¬ scope.role)
    (huser : ∀ pubkey, scope.user pubkey → (rowRole db pubkey).isSome)
    (hrecord : ∀ record, scope.record record → (rowRole db record.pubkey).isSome) :
    Filed db' ∧ rowRole db' = rowRole db := by
  -- a user that has a row is only found by these calls
  have hfound : ∀ {pubkey : String} {rows : String → Option String},
      (rowRole db pubkey).isSome →
      rows = rowRole db ∨ rows = nameUser (rowRole db) pubkey → rows = rowRole db := by
    rintro pubkey rows hsome (hsame | hnamed)
    · exact hsame
    · obtain ⟨role, hrow⟩ := Option.isSome_iff_exists.mp hsome
      rw [hnamed, nameUser_of_some hrow]
  induction h with
  | refl => exact ⟨hfiled, rfl⟩
  | tail _ hcall ih =>
    obtain ⟨hfiled', hrows⟩ := ih
    cases hcall with
    | recordUpload record h =>
      obtain ⟨hdone, hcases⟩ := recordUpload_rows _ record hfiled'
      rw [hrows] at hcases
      exact ⟨hdone, hfound (hrecord record h) hcases⟩
    | deleteUpload hash =>
      obtain ⟨hdone, hsame⟩ := deleteUpload_rows _ hash hfiled'
      exact ⟨hdone, hsame.trans hrows⟩
    | deleteUploadOwner hash pubkey =>
      obtain ⟨hdone, hsame⟩ := deleteUploadOwner_rows _ hash pubkey hfiled'
      exact ⟨hdone, hsame.trans hrows⟩
    | getOrCreateUser pubkey h =>
      obtain ⟨hdone, hcases⟩ := getOrCreateUser_rows _ pubkey hfiled'
      rw [hrows] at hcases
      exact ⟨hdone, hfound (huser pubkey h) hcases⟩
    | setQuota pubkey quotaBytes h =>
      obtain ⟨hdone, hcases⟩ := setQuota_rows _ pubkey quotaBytes hfiled'
      rw [hrows] at hcases
      exact ⟨hdone, hfound (huser pubkey h) hcases⟩
    | setRole pubkey role h => exact absurd h hrole
    | recordAccess hash bytesServed now =>
      obtain ⟨hdone, hsame⟩ := recordAccess_rows _ hash bytesServed now hfiled'
      exact ⟨hdone, hsame.trans hrows⟩

section Steps

variable [BlobBackend β] [LfsVersionDatabase ν] [LockDatabase κ]

/-- Only a role change touches the live roles. -/
theorem roleBasedAccess_run (ext : Transport.Externals) (part : Section) (s : ServerState β δ ν κ)
    (h : ∀ pubkey role, part ≠ .setRole pubkey role) :
    (part.run ext s).2.roleBasedAccess = s.roleBasedAccess := by
  by_cases hpolicy : part.ChangesPolicy
  · cases part with
    | setAccessControl policy => rfl
    | setRole pubkey role => exact absurd rfl (h pubkey role)
    | whitelistAdd pubkey =>
      simp only [Section.run, httpAnswer, Server.whitelistAdd, editWhitelist]
      split <;> rfl
    | whitelistRemove pubkey =>
      simp only [Section.run, httpAnswer, Server.whitelistRemove, editWhitelist]
      split <;> rfl
    | _ => exact absurd hpolicy id
  · exact (samePolicy_run ext part s hpolicy).roles

variable [LawfulRoles δ]

/-- The live handle is there, and tells the same as the role column. -/
def Agreeing (s : ServerState β δ ν κ) : Prop :=
  ∃ access, s.roleBasedAccess = some access ∧ RolesAgree access s.database

/-- A step that names only users with a row, and removes only keys without a role. -/
def RoleStep.Persistent (ext : Transport.Externals) (s : ServerState β δ ν κ) : RoleStep → Prop
  | .remove pubkey => liveRole s (normalized ext.bech32 pubkey) = .denied
  | .serve part => ∀ pubkey, part.names = some pubkey → (rowRole s.database pubkey).isSome
  | _ => True

omit [BlobBackend β] [LfsVersionDatabase ν] [LockDatabase κ] in
theorem Agreeing.withRoles (h : Agreeing s) {method : RoleBasedAccess → δ → RoleBasedAccess × δ}
    (hmethod : ∀ access, s.roleBasedAccess = some access → RolesAgree access s.database →
      RolesAgree (method access s.database).1 (method access s.database).2) :
    Agreeing (withRoles method s) := by
  obtain ⟨access, hlive, hagree⟩ := h
  refine ⟨(method access s.database).1, ?_, ?_⟩
  · simp only [System.withRoles, hlive]
  · simp only [System.withRoles, hlive]
    exact hmethod access hlive hagree

omit [BlobBackend β] [LfsVersionDatabase ν] [LockDatabase κ] in
theorem Agreeing.setRole (h : Agreeing s) (ext : Server.Externals) (pubkey role : String) :
    Agreeing (Server.setRole ext pubkey role s).2 := by
  obtain ⟨access, hlive, hagree⟩ := h
  rcases state_setRole hlive ext pubkey role with heq | ⟨key, text, heq⟩
  · rw [heq]
    exact ⟨access, hlive, hagree⟩
  · rw [heq]
    exact Agreeing.withRoles ⟨access, hlive, hagree⟩ fun access _ hagree => hagree.setRole _ _ _

variable [LawfulBlobBackend β]

theorem Agreeing.run (h : Agreeing s) (ext : Transport.Externals) (part : Section)
    (hnames : ∀ pubkey, part.names = some pubkey → (rowRole s.database pubkey).isSome) :
    Agreeing (part.run ext s).2 := by
  by_cases hset : ∃ pubkey role, part = .setRole pubkey role
  · obtain ⟨pubkey, role, rfl⟩ := hset
    exact h.setRole ext.toExternals pubkey role
  obtain ⟨access, hlive, hagree⟩ := h
  obtain ⟨hfiled, hrows⟩ := rows_of_calls (calls_run ext part s) hagree.filed hset hnames
    fun record hrecord => hnames _ hrecord.1
  have hsame := roleBasedAccess_run ext part s fun pubkey role heq => hset ⟨pubkey, role, heq⟩
  refine ⟨access, hsame.trans hlive, hfiled, fun pubkey => ?_⟩
  rw [hrows, hagree.role_eq]

theorem RoleStep.agreeing_run (h : Agreeing s) (ext : Transport.Externals) (step : RoleStep)
    (hstep : step.Persistent ext s) : Agreeing (step.run ext s) := by
  cases step with
  | setRole pubkey role => exact h.withRoles fun access _ hagree => hagree.setRole _ _ _
  | promoteAdmin pubkey => exact h.withRoles fun access _ hagree => hagree.promoteAdmin _ _
  | demoteToMember pubkey => exact h.withRoles fun access _ hagree => hagree.demoteToMember _ _
  | remove pubkey =>
    refine h.withRoles fun access hlive hagree => hagree.remove _ _ ?_
    rwa [RoleStep.Persistent, liveRole, hlive] at hstep
  | serve part => exact h.run ext part hstep

/-- **Restarting changes no role** in a run that names only users with a row and removes only keys
without a role.  The server starts with the roles of its database. -/
theorem rebuilt_roles_eq_live (ext : Transport.Externals) (s : ServerState β δ ν κ)
    (hfiled : Filed s.database)
    (hlisted : ∀ role, ∃ users, BlobDatabase.listUsersByRole s.database role = .ok users)
    (hloaded : s.roleBasedAccess = some (RoleBasedAccess.loadFromDatabase s.database))
    (steps : List RoleStep)
    (hsteps : ∀ pre step post, steps = pre ++ step :: post →
      step.Persistent ext (Runs.run (RoleStep.run ext) s pre))
    (hrelisted : ∀ role, ∃ users, BlobDatabase.listUsersByRole
      (Runs.run (RoleStep.run ext) s steps).database role = .ok users) (pubkey : String) :
    (RoleBasedAccess.loadFromDatabase (Runs.run (RoleStep.run ext) s steps).database).role pubkey
      = liveRole (Runs.run (RoleStep.run ext) s steps) pubkey := by
  have hstart : Agreeing s := ⟨_, hloaded, hfiled, role_loadFromDatabase hfiled hlisted⟩
  have hrun : Agreeing (Runs.run (RoleStep.run ext) s steps) :=
    Runs.run_invariant (P := fun _ s => Agreeing s) hstart
      (fun pre step post hsplit h => RoleStep.agreeing_run h ext step (hsteps pre step post hsplit))
      steps [] (List.append_nil steps).symm
  obtain ⟨access, hlive, hagree⟩ := hrun
  rw [role_loadFromDatabase hagree.filed hrelisted, ← hagree.role_eq, liveRole, hlive]
  rfl

end Steps

/-- A new server that has loaded its roles from a new database. -/
def newWithRoles : ServerState MemoryBackend MemoryDatabase MemoryLfsVersionDatabase
    MemoryLockDatabase :=
  { ServerState.new MemoryBackend.new "" with
    access := .liveRoles
    roleBasedAccess := some (RoleBasedAccess.loadFromDatabase MemoryDatabase.new) }

/-- A promoted key that is looked up by an administrator is an administrator after a restart. -/
theorem promoted_key_survives_restart :
    (RoleBasedAccess.loadFromDatabase (Runs.run (RoleStep.run (.knowing [])) newWithRoles
        [.promoteAdmin "alice", .serve (.getUser "alice")]).database).role "alice"
      = liveRole (Runs.run (RoleStep.run (.knowing [])) newWithRoles
        [.promoteAdmin "alice", .serve (.getUser "alice")]) "alice" := by
  refine rebuilt_roles_eq_live (.knowing []) newWithRoles MemoryDatabase.usersFiled_new
    (fun _ => ⟨_, rfl⟩) rfl _ ?_ (fun _ => ⟨_, rfl⟩) "alice"
  rw [Runs.forall_split_cons, Runs.forall_split_cons, Runs.forall_split_nil]
  refine ⟨trivial, ?_, trivial⟩
  rintro pubkey hnames
  obtain rfl := Option.some.inj hnames
  rfl

/-- An administrator who looks up a key that nobody gave a role makes it a member after the next
restart, and a member who was removed is a member again. -/
theorem restart_changes_roles :
    (liveRole (RoleStep.run (.knowing []) newWithRoles (.serve (.getUser "mallory"))) "mallory"
        = .denied
      ∧ (RoleBasedAccess.loadFromDatabase (RoleStep.run (.knowing []) newWithRoles
        (.serve (.getUser "mallory"))).database).role "mallory" = .member)
    ∧ liveRole (Runs.run (RoleStep.run (.knowing [])) newWithRoles
        [.demoteToMember "alice", .remove "alice"]) "alice" = .denied
      ∧ (RoleBasedAccess.loadFromDatabase (Runs.run (RoleStep.run (.knowing [])) newWithRoles
        [.demoteToMember "alice", .remove "alice"]).database).role "alice" = .member := by
  decide

end BlossomRs.System

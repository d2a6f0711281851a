import BlossomRs.Access
import BlossomRs.Database.Sql

/-!
# Roles in memory and in the database

`RoleBasedAccess` keeps its two sets in memory.  Three of its methods write the role column of the
user's row first and the sets afterwards; `remove` changes the sets only.  `load_from_database` fills
the sets from the column.

`LawfulRoles` says what the calls of a metadata database do to that column.  A call that only has to
find a user creates the row when there is none, with the role `member`.
-/

namespace BlossomRs
namespace Access

open Database

variable {δ : Type}

namespace RoleBasedAccess

/-- Persist a role, then change the sets; nothing happens to them when the database refuses. -/
def persist [BlobDatabase δ] (access : RoleBasedAccess) (pubkey role : String)
    (apply : RoleBasedAccess) (db : δ) : Except DbError Unit × RoleBasedAccess × δ :=
  match BlobDatabase.setRole db pubkey role with
  | (.error e, db) => (.error e, access, db)
  | (.ok (), db) => (.ok (), apply, db)

/-- `promote_admin`. -/
def promoteAdmin [BlobDatabase δ] (bech32 : Bech32) (access : RoleBasedAccess) (pubkey : String)
    (db : δ) : Except DbError Unit × RoleBasedAccess × δ :=
  let key := normalized bech32 pubkey
  access.persist key "admin" ⟨insertKey key access.admins, removeKey key access.members⟩ db

/-- `demote_to_member`. -/
def demoteToMember [BlobDatabase δ] (bech32 : Bech32) (access : RoleBasedAccess) (pubkey : String)
    (db : δ) : Except DbError Unit × RoleBasedAccess × δ :=
  let key := normalized bech32 pubkey
  access.persist key "member" ⟨removeKey key access.admins, insertKey key access.members⟩ db

/-- `set_role`. -/
def setRole [BlobDatabase δ] (bech32 : Bech32) (access : RoleBasedAccess) (pubkey role : String)
    (db : δ) : Except DbError Unit × RoleBasedAccess × δ :=
  let key := normalized bech32 pubkey
  access.persist key role (access.applyRole key role) db

/-- `remove`.  There is no database to tell. -/
def remove (bech32 : Bech32) (access : RoleBasedAccess) (pubkey : String) : RoleBasedAccess :=
  let key := normalized bech32 pubkey
  ⟨removeKey key access.admins, removeKey key access.members⟩

/-- `load_from_database`.  A listing that fails counts as an empty one. -/
def loadFromDatabase [BlobDatabase δ] (db : δ) : RoleBasedAccess :=
  let pubkeys role := match BlobDatabase.listUsersByRole db role with
    | .ok users => users.map (·.pubkey)
    | .error _ => []
  ⟨pubkeys "admin", pubkeys "member"⟩

end RoleBasedAccess

/-! ### Roles after a change of the sets -/

@[simp] theorem mem_insertKey {key other : String} {keys : List String} :
    other ∈ insertKey key keys ↔ other = key ∨ other ∈ keys := by
  unfold insertKey
  split
  · rename_i hmem
    constructor
    · exact Or.inr
    · rintro (rfl | h)
      · exact hmem
      · exact h
  · exact List.mem_cons

@[simp] theorem mem_removeKey {key other : String} {keys : List String} :
    other ∈ removeKey key keys ↔ other ≠ key ∧ other ∈ keys := by
  simp [removeKey, and_comm]

/-- The role a text of the role column stands for once it is loaded. -/
def Role.ofRow : Option String → Role
  | some role => if role = "admin" then .admin else if role = "member" then .member else .denied
  | none => .denied

namespace RoleBasedAccess

variable {access : RoleBasedAccess}

/-- `set_role` gives one key the role its text stands for, and leaves the others alone. -/
theorem role_applyRole (key text : String) :
    (access.applyRole key text).role = Function.update access.role key (Role.ofRow (some text)) := by
  funext other
  by_cases h : other = key
  · subst h
    rw [Function.update_self]
    unfold applyRole Role.ofRow
    dsimp only
    split
    · simp [role]
    · split <;> simp [role]
  · rw [Function.update_of_ne h]
    unfold applyRole
    dsimp only
    split
    · simp [role, h]
    · split <;> simp [role, h]

theorem role_promoted (key : String) :
    role ⟨insertKey key access.admins, removeKey key access.members⟩
      = Function.update access.role key .admin := by
  funext other
  by_cases h : other = key
  · subst h
    simp [role]
  · simp [role, h]

theorem role_demoted (key : String) :
    role ⟨removeKey key access.admins, insertKey key access.members⟩
      = Function.update access.role key .member := by
  funext other
  by_cases h : other = key
  · subst h
    simp [role]
  · simp [role, h]

theorem role_remove (bech32 : Bech32) (pubkey : String) :
    (access.remove bech32 pubkey).role
      = Function.update access.role (normalized bech32 pubkey) .denied := by
  funext other
  by_cases h : other = normalized bech32 pubkey
  · subst h
    simp [role, remove]
  · simp [role, remove, h]

end RoleBasedAccess

/-! ### The role column -/

/-- The column after a call that only has to find the user. -/
def nameUser (rows : String → Option String) (pubkey : String) : String → Option String :=
  Function.update rows pubkey (some ((rows pubkey).getD "member"))

/-- Naming a user who has a row changes nothing. -/
theorem nameUser_of_some {rows : String → Option String} {pubkey role : String}
    (h : rows pubkey = some role) : nameUser rows pubkey = rows := by
  rw [nameUser, h, Option.getD_some, ← h, Function.update_eq_self]

/-- A metadata database with a role column.  `Filed` is what its calls keep of the user table. -/
class LawfulRoles (δ : Type) [BlobDatabase δ] where
  rowRole : δ → String → Option String
  Filed : δ → Prop
  listUsersByRole_ok {db : δ} {role : String} {users : List UserRecord} (hfiled : Filed db)
    (h : BlobDatabase.listUsersByRole db role = .ok users) (pubkey : String) :
    pubkey ∈ users.map (·.pubkey) ↔ rowRole db pubkey = some role
  setRole_ok {db db' : δ} {pubkey role : String}
    (h : BlobDatabase.setRole db pubkey role = (.ok (), db')) (hfiled : Filed db) :
    Filed db' ∧ rowRole db' = Function.update (rowRole db) pubkey (some role)
  setRole_error {db db' : δ} {pubkey role : String} {e : DbError}
    (h : BlobDatabase.setRole db pubkey role = (.error e, db')) (hfiled : Filed db) :
    Filed db' ∧ rowRole db' = rowRole db
  recordUpload_rows (db : δ) (record : UploadRecord) (hfiled : Filed db) :
    Filed (BlobDatabase.recordUpload db record).2
      ∧ (rowRole (BlobDatabase.recordUpload db record).2 = rowRole db
        ∨ rowRole (BlobDatabase.recordUpload db record).2 = nameUser (rowRole db) record.pubkey)
  getOrCreateUser_rows (db : δ) (pubkey : String) (hfiled : Filed db) :
    Filed (BlobDatabase.getOrCreateUser db pubkey).2
      ∧ (rowRole (BlobDatabase.getOrCreateUser db pubkey).2 = rowRole db
        ∨ rowRole (BlobDatabase.getOrCreateUser db pubkey).2 = nameUser (rowRole db) pubkey)
  setQuota_rows (db : δ) (pubkey : String) (quotaBytes : Option Nat) (hfiled : Filed db) :
    Filed (BlobDatabase.setQuota db pubkey quotaBytes).2
      ∧ (rowRole (BlobDatabase.setQuota db pubkey quotaBytes).2 = rowRole db
        ∨ rowRole (BlobDatabase.setQuota db pubkey quotaBytes).2 = nameUser (rowRole db) pubkey)
  deleteUpload_rows (db : δ) (hash : String) (hfiled : Filed db) :
    Filed (BlobDatabase.deleteUpload db hash).2
      ∧ rowRole (BlobDatabase.deleteUpload db hash).2 = rowRole db
  deleteUploadOwner_rows (db : δ) (hash pubkey : String) (hfiled : Filed db) :
    Filed (BlobDatabase.deleteUploadOwner db hash pubkey).2
      ∧ rowRole (BlobDatabase.deleteUploadOwner db hash pubkey).2 = rowRole db
  recordAccess_rows (db : δ) (hash : String) (bytesServed now : Nat) (hfiled : Filed db) :
    Filed (BlobDatabase.recordAccess db hash bytesServed now).2
      ∧ rowRole (BlobDatabase.recordAccess db hash bytesServed now).2 = rowRole db

open LawfulRoles in
/-- **What is loaded is what the column says.** -/
theorem role_loadFromDatabase [BlobDatabase δ] [LawfulRoles δ] {db : δ} (hfiled : Filed db)
    (hlisted : ∀ role, ∃ users, BlobDatabase.listUsersByRole db role = .ok users)
    (pubkey : String) :
    (RoleBasedAccess.loadFromDatabase db).role pubkey = Role.ofRow (rowRole db pubkey) := by
  obtain ⟨admins, hadmins⟩ := hlisted "admin"
  obtain ⟨members, hmembers⟩ := hlisted "member"
  have hadmin := listUsersByRole_ok hfiled hadmins pubkey
  have hmember := listUsersByRole_ok hfiled hmembers pubkey
  simp only [RoleBasedAccess.loadFromDatabase, hadmins, hmembers, RoleBasedAccess.role, hadmin,
    hmember]
  cases rowRole db pubkey with
  | none => rfl
  | some role => simp only [Option.some.injEq, Role.ofRow]

end Access

/-! ### The in-memory database -/

namespace Database
namespace MemoryDatabase

open Access

variable {db : MemoryDatabase} {pubkey : String}

/-- The role in a user's record, if there is one. -/
def rowRole (db : MemoryDatabase) (pubkey : String) : Option String :=
  (db.users.lookup pubkey).map (·.role)

/-- Every user's record is filed under the user's key. -/
def UsersFiled (db : MemoryDatabase) : Prop :=
  ∀ pubkey user, db.users.lookup pubkey = some user → user.pubkey = pubkey

theorem usersFiled_new : new.UsersFiled := by
  intro pubkey user h
  simp [new] at h

theorem UsersFiled.user (h : db.UsersFiled) (pubkey : String) : (db.user pubkey).pubkey = pubkey := by
  unfold MemoryDatabase.user
  cases hlookup : db.users.lookup pubkey with
  | none => rfl
  | some user => exact h pubkey user hlookup

theorem role_user (db : MemoryDatabase) (pubkey : String) :
    (db.user pubkey).role = (db.rowRole pubkey).getD "member" := by
  unfold MemoryDatabase.user rowRole
  cases db.users.lookup pubkey <;> rfl

theorem rowRole_modifyUser (f : UserRecord → UserRecord) :
    (db.modifyUser pubkey f).rowRole
      = Function.update db.rowRole pubkey (some (f (db.user pubkey)).role) := by
  funext other
  rw [rowRole, modifyUser, Assoc.lookup_insert_eq, Function.update_apply]
  split <;> rfl

variable {f : UserRecord → UserRecord}

theorem UsersFiled.modifyUser (h : db.UsersFiled)
    (hf : (f (db.user pubkey)).pubkey = (db.user pubkey).pubkey) :
    (db.modifyUser pubkey f).UsersFiled := by
  intro other
  exact Assoc.forall_lookup_insert _ _ other h (hf.trans (h.user pubkey))

/-- Writing to a user without touching key and role only names the user. -/
theorem modifyUser_rows (h : db.UsersFiled) (pubkey : String) (f : UserRecord → UserRecord)
    (hpubkey : (f (db.user pubkey)).pubkey = (db.user pubkey).pubkey)
    (hrole : (f (db.user pubkey)).role = (db.user pubkey).role) :
    (db.modifyUser pubkey f).UsersFiled
      ∧ (db.modifyUser pubkey f).rowRole = nameUser db.rowRole pubkey := by
  refine ⟨h.modifyUser hpubkey, ?_⟩
  rw [rowRole_modifyUser, hrole, role_user]
  rfl

theorem modifyExistingUser_rows (db : MemoryDatabase) (h : db.UsersFiled)
    (hpubkey : ∀ user, (f user).pubkey = user.pubkey) (hrole : ∀ user, (f user).role = user.role) :
    (db.modifyExistingUser pubkey f).UsersFiled
      ∧ (db.modifyExistingUser pubkey f).rowRole = db.rowRole := by
  unfold modifyExistingUser
  split
  · rename_i record hrecord
    have huser : db.user pubkey = record := by rw [MemoryDatabase.user, hrecord, Option.getD_some]
    -- there is a row, so this is the write that only names the user
    obtain ⟨hfiled, hrows⟩ := modifyUser_rows h pubkey f (hpubkey _) (hrole _)
    rw [modifyUser, huser] at hfiled hrows
    have hrow : db.rowRole pubkey = some record.role := by rw [rowRole, hrecord, Option.map_some]
    exact ⟨hfiled, hrows.trans (nameUser_of_some hrow)⟩
  · exact ⟨h, rfl⟩

theorem dropOwner_rows (h : db.UsersFiled) (key : String × String) :
    (db.dropOwner key).UsersFiled ∧ (db.dropOwner key).rowRole = db.rowRole := by
  unfold dropOwner
  split
  · rename_i record hrecord
    exact modifyExistingUser_rows { db with owners := db.owners.erase key } h
      (fun _ => rfl) fun _ => rfl
  · exact ⟨h, rfl⟩

theorem foldl_dropOwner_rows (keys : List (String × String)) (db : MemoryDatabase)
    (h : db.UsersFiled) :
    (keys.foldl dropOwner db).UsersFiled ∧ (keys.foldl dropOwner db).rowRole = db.rowRole := by
  induction keys generalizing db with
  | nil => exact ⟨h, rfl⟩
  | cons key keys ih =>
    obtain ⟨hfiled, hrows⟩ := dropOwner_rows h key
    obtain ⟨hfiled', hrows'⟩ := ih _ hfiled
    exact ⟨hfiled', hrows'.trans hrows⟩

section

variable (h : db.UsersFiled)
include h

theorem deleteUpload_rows (hash : String) :
    (db.deleteUpload hash).2.UsersFiled ∧ (db.deleteUpload hash).2.rowRole = db.rowRole := by
  unfold deleteUpload
  split
  · exact foldl_dropOwner_rows (db.ownerKeys hash) { db with uploads := db.uploads.erase hash } h
  · exact ⟨h, rfl⟩

theorem deleteUploadOwner_rows (hash pubkey : String) :
    (db.deleteUploadOwner hash pubkey).2.UsersFiled
      ∧ (db.deleteUploadOwner hash pubkey).2.rowRole = db.rowRole := by
  unfold deleteUploadOwner
  split
  · exact modifyExistingUser_rows { db with owners := db.owners.erase (hash, pubkey) } h
      (fun _ => rfl) fun _ => rfl
  · exact ⟨h, rfl⟩

/-- A refused record names its owner as well. -/
theorem recordUpload_rows (record : UploadRecord) :
    (db.recordUpload record).2.UsersFiled
      ∧ ((db.recordUpload record).2.rowRole = db.rowRole
        ∨ (db.recordUpload record).2.rowRole = nameUser db.rowRole record.pubkey) := by
  rcases db.recordUpload_cases record with ⟨-, heq⟩ | ⟨-, -, heq⟩ | ⟨-, -, e, heq⟩
  · rw [heq]
    exact ⟨h, Or.inl rfl⟩
  · rw [heq]
    obtain ⟨hfiled, hrows⟩ := modifyUser_rows h record.pubkey
      (fun user => { user with usedBytes := user.usedBytes + record.size }) rfl rfl
    exact ⟨hfiled, Or.inr hrows⟩
  · rw [heq]
    obtain ⟨hfiled, hrows⟩ := modifyUser_rows h record.pubkey id rfl rfl
    exact ⟨hfiled, Or.inr hrows⟩

theorem mem_listUsersByRole (role pubkey : String) :
    pubkey ∈ ((db.users.entries.map fun entry => entry.2).filter (·.role == role)).map (·.pubkey)
      ↔ db.rowRole pubkey = some role := by
  simp only [List.mem_map, List.mem_filter, beq_iff_eq, rowRole, Option.map_eq_some_iff]
  constructor
  · rintro ⟨user, ⟨⟨⟨key, _⟩, hmem, rfl⟩, hrole⟩, rfl⟩
    have hlookup := AList.mem_lookup_iff.mpr hmem
    rw [← h key _ hlookup] at hlookup
    exact ⟨_, hlookup, hrole⟩
  · rintro ⟨user, hlookup, hrole⟩
    exact ⟨user, ⟨⟨⟨pubkey, user⟩, AList.mem_lookup_iff.mp hlookup, rfl⟩, hrole⟩,
      h pubkey user hlookup⟩

end

instance : LawfulRoles MemoryDatabase where
  rowRole := rowRole
  Filed := UsersFiled
  listUsersByRole_ok hfiled h pubkey := by
    obtain rfl := Except.ok.inj h
    exact mem_listUsersByRole hfiled _ pubkey
  setRole_ok h hfiled := by
    obtain rfl := (Prod.mk.inj h).2
    exact ⟨hfiled.modifyUser rfl, rowRole_modifyUser _⟩
  setRole_error h := nomatch (Prod.mk.inj h).1
  recordUpload_rows db record hfiled := recordUpload_rows hfiled record
  getOrCreateUser_rows db pubkey hfiled := by
    obtain ⟨hdone, hrows⟩ := modifyUser_rows hfiled pubkey id rfl rfl
    exact ⟨hdone, Or.inr hrows⟩
  setQuota_rows db pubkey quotaBytes hfiled := by
    obtain ⟨hdone, hrows⟩ := modifyUser_rows hfiled pubkey
      (fun user => { user with quotaBytes := quotaBytes }) rfl rfl
    exact ⟨hdone, Or.inr hrows⟩
  deleteUpload_rows db hash hfiled := deleteUpload_rows hfiled hash
  deleteUploadOwner_rows db hash pubkey hfiled := deleteUploadOwner_rows hfiled hash pubkey
  recordAccess_rows db hash bytesServed now hfiled := ⟨hfiled, rfl⟩

end MemoryDatabase

/-! ### The SQL databases -/

namespace SqlTables

open Access

variable {db : SqlTables} {pubkey : String}

/-- The role column of a user's row, if there is one. -/
def rowRole (db : SqlTables) (pubkey : String) : Option String :=
  (db.users.lookup pubkey).map (·.role)

theorem rowRole_upsertUser (f : UserRow → UserRow) :
    (db.upsertUser pubkey f).rowRole
      = Function.update db.rowRole pubkey (some (f (db.user pubkey)).role) := by
  funext other
  rw [rowRole, upsertUser, Assoc.lookup_insert_eq, Function.update_apply]
  split <;> rfl

theorem upsertUser_rows {f : UserRow → UserRow}
    (hrole : (f (db.user pubkey)).role = (db.user pubkey).role) :
    (db.upsertUser pubkey f).rowRole = nameUser db.rowRole pubkey := by
  rw [rowRole_upsertUser, hrole, nameUser, SqlTables.user, rowRole]
  cases db.users.lookup pubkey <;> rfl

theorem giveBack_rows (db : SqlTables) (size : Int) (pubkey : String) :
    (db.giveBack size pubkey).rowRole = db.rowRole := by
  unfold giveBack updateUser
  split
  · rename_i row hrow
    funext other
    rcases eq_or_ne other pubkey with rfl | h <;> simp [rowRole, *]
  · rfl

theorem foldl_giveBack_rows (db : SqlTables) (size : Int) (pubkeys : List String) :
    (pubkeys.foldl (giveBack size) db).rowRole = db.rowRole := by
  induction pubkeys generalizing db with
  | nil => rfl
  | cons pubkey pubkeys ih => exact (ih _).trans (db.giveBack_rows size pubkey)

theorem deleteUpload_rows (hash : String) : (db.deleteUpload hash).2.rowRole = db.rowRole := by
  unfold deleteUpload
  split
  · rename_i row hrow
    exact (db.eraseUpload hash).foldl_giveBack_rows row.size _
  · rfl

theorem deleteUploadOwner_rows (hash : String) :
    (db.deleteUploadOwner hash pubkey).2.rowRole = db.rowRole := by
  unfold deleteUploadOwner
  split
  · split
    · exact (db.eraseOwner hash pubkey).giveBack_rows _ pubkey
    · rfl
  · rfl

theorem recordUpload_rows (record : UploadRecord) :
    (db.recordUpload record).2.rowRole = db.rowRole
      ∨ (db.recordUpload record).2.rowRole = nameUser db.rowRole record.pubkey := by
  rcases db.recordUpload_cases record with ⟨-, heq⟩ | ⟨-, used, -, heq⟩ | ⟨e, heq⟩
  · rw [heq]
    exact Or.inl rfl
  · rw [heq]
    exact Or.inr (upsertUser_rows (f := fun user => { user with usedBytes := used }) rfl)
  · rw [heq]
    exact Or.inl rfl

theorem setQuota_rows (quotaBytes : Option Nat) :
    (db.setQuota pubkey quotaBytes).2.rowRole = db.rowRole
      ∨ (db.setQuota pubkey quotaBytes).2.rowRole = nameUser db.rowRole pubkey := by
  unfold setQuota
  split
  · exact Or.inl rfl
  · exact Or.inr
      (upsertUser_rows (f := fun user => { user with quotaBytes := quotaBytes.map Int.ofNat }) rfl)

theorem recordAccess_rows (hash : String) (bytesServed now : Nat) :
    (db.recordAccess hash bytesServed now).2.rowRole = db.rowRole := by
  unfold recordAccess
  dsimp only
  split <;> rfl

theorem mem_listUsersByRole (db : SqlTables) (role pubkey : String) :
    pubkey ∈ ((db.users.entries.map fun entry => userRecord entry.1 entry.2).filter
        (·.role == role)).map (·.pubkey)
      ↔ db.rowRole pubkey = some role := by
  simp only [List.mem_map, List.mem_filter, beq_iff_eq, rowRole, Option.map_eq_some_iff]
  constructor
  · rintro ⟨user, ⟨⟨⟨key, row⟩, hmem, rfl⟩, hrole⟩, rfl⟩
    exact ⟨row, AList.mem_lookup_iff.mpr hmem, hrole⟩
  · rintro ⟨row, hlookup, hrole⟩
    exact ⟨userRecord pubkey row, ⟨⟨⟨pubkey, row⟩, AList.mem_lookup_iff.mp hlookup, rfl⟩, hrole⟩,
      rfl⟩

end SqlTables

namespace SqlDatabase

open Access

variable {dialect : SqlDialect} {db : SqlDatabase dialect} {α : Type} {call : SqlCall}

/-- The tables after a writing call are those before it, or those the call makes. -/
theorem tables_writing (db : SqlDatabase dialect) (call : SqlCall)
    (write : SqlTables → Except DbError α × SqlTables) :
    (db.writing call write).2.tables = db.tables
      ∨ (db.writing call write).2.tables = (write db.tables).2 := by
  unfold writing
  split
  · exact Or.inl rfl
  · exact Or.inr rfl

variable {write : SqlTables → Except DbError α × SqlTables}

theorem rows_writing (h : (write db.tables).2.rowRole = db.tables.rowRole) :
    (db.writing call write).2.tables.rowRole = db.tables.rowRole := by
  rcases db.tables_writing call write with heq | heq
  · rw [heq]
  · rw [heq, h]

theorem names_writing {pubkey : String} (h : (write db.tables).2.rowRole = db.tables.rowRole
      ∨ (write db.tables).2.rowRole = nameUser db.tables.rowRole pubkey) :
    (db.writing call write).2.tables.rowRole = db.tables.rowRole
      ∨ (db.writing call write).2.tables.rowRole = nameUser db.tables.rowRole pubkey := by
  rcases db.tables_writing call write with heq | heq
  · exact Or.inl (by rw [heq])
  · rwa [heq]

/-- `set_role` reports whether the column was written. -/
theorem setRole_rows (pubkey role : String) :
    (∃ e, BlobDatabase.setRole db pubkey role = (.error e, db))
      ∨ ∃ db', BlobDatabase.setRole db pubkey role = (.ok (), db')
        ∧ db'.tables.rowRole = Function.update db.tables.rowRole pubkey (some role) := by
  simp only [BlobDatabase.setRole, writing]
  cases db.outage .setRole with
  | some detail => exact Or.inl ⟨_, rfl⟩
  | none => exact Or.inr ⟨_, rfl, SqlTables.rowRole_upsertUser _⟩

instance : LawfulRoles (SqlDatabase dialect) where
  rowRole db := db.tables.rowRole
  Filed _ := True
  listUsersByRole_ok {db role users} _ h pubkey := by
    simp only [BlobDatabase.listUsersByRole, reading] at h
    split at h
    · cases h
    · obtain rfl := Except.ok.inj h
      exact db.tables.mem_listUsersByRole role pubkey
  setRole_ok {db db' pubkey role} h _ := by
    rcases db.setRole_rows pubkey role with ⟨e, heq⟩ | ⟨after, heq, hrows⟩
    · rw [heq] at h
      cases h
    · rw [heq] at h
      obtain rfl := (Prod.mk.inj h).2
      exact ⟨trivial, hrows⟩
  setRole_error {db db' pubkey role e} h _ := by
    rcases db.setRole_rows pubkey role with ⟨e, heq⟩ | ⟨after, heq, -⟩
    · rw [heq] at h
      obtain rfl := (Prod.mk.inj h).2
      exact ⟨trivial, rfl⟩
    · rw [heq] at h
      cases h
  recordUpload_rows db record _ := ⟨trivial, names_writing (db.tables.recordUpload_rows record)⟩
  getOrCreateUser_rows db pubkey _ :=
    ⟨trivial, names_writing (Or.inr (SqlTables.upsertUser_rows rfl))⟩
  setQuota_rows db pubkey quotaBytes _ :=
    ⟨trivial, names_writing (SqlTables.setQuota_rows quotaBytes)⟩
  deleteUpload_rows db hash _ := ⟨trivial, rows_writing (SqlTables.deleteUpload_rows hash)⟩
  deleteUploadOwner_rows db hash pubkey _ :=
    ⟨trivial, rows_writing (SqlTables.deleteUploadOwner_rows hash)⟩
  recordAccess_rows db hash bytesServed now _ :=
    ⟨trivial, rows_writing (SqlTables.recordAccess_rows hash bytesServed now)⟩

end SqlDatabase
end Database
end BlossomRs

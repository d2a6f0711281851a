import BlossomRs.Database.Ledger
import BlossomRs.Lib.RustInt

/-!
# The SQL databases

The databases over SQLite and PostgreSQL keep the same tables and send the same statements, up to the
spelling of each dialect, so one model serves both.  Columns hold signed integers of 64 bits, and what
goes in or comes out is cast.

The model ends where a sum leaves the range of a column, which takes a total of `2 ^ 63` bytes.  The
statement fails there, as it does in PostgreSQL.  SQLite would go on with a floating-point number, which
no call of the interface can read back as a count.

Owners reference uploads: the foreign key is a field of the tables, and deleting an upload takes its
owners with it.  Writes of more than one statement are transactions.

The connection can fail at any call.  `outage` is what the environment does to each kind of call; a
call that fails has not changed the tables.
-/

namespace BlossomRs.Database

open RustInt

structure UploadRow where
  size : Int
  mimeType : String
  pubkey : String
  createdAt : Int
deriving DecidableEq, Repr

structure UserRow where
  quotaBytes : Option Int
  usedBytes : Int
  role : String
deriving DecidableEq, Repr

structure StatsRow where
  egressBytes : Int
  lastAccessed : Int
deriving DecidableEq, Repr

/-- The tables `uploads`, `upload_owners` (with the time of the upload), `users` and `file_stats`. -/
structure SqlTables where
  uploads : AList fun _ : String => UploadRow
  owners : AList fun _ : String × String => Int
  users : AList fun _ : String => UserRow
  stats : AList fun _ : String => StatsRow
  owners_references : ∀ key ∈ owners, key.1 ∈ uploads

namespace SqlTables

/-- The tables after the migrations. -/
def new : SqlTables where
  uploads := ∅
  owners := ∅
  users := ∅
  stats := ∅
  owners_references := by intro key hkey; simp at hkey

/-- The row a user gets when first named. -/
def newUser : UserRow where
  quotaBytes := none
  usedBytes := 0
  role := "member"

/-- The user's row, with the defaults of a new one. -/
def user (db : SqlTables) (pubkey : String) : UserRow :=
  (db.users.lookup pubkey).getD newUser

/-- `INSERT INTO users … ON CONFLICT DO UPDATE`. -/
def upsertUser (db : SqlTables) (pubkey : String) (f : UserRow → UserRow) : SqlTables :=
  { db with users := db.users.insert pubkey (f (db.user pubkey)) }

/-- `UPDATE users … WHERE pubkey = ?`. -/
def updateUser (db : SqlTables) (pubkey : String) (f : UserRow → UserRow) : SqlTables :=
  match db.users.lookup pubkey with
  | some row => { db with users := db.users.insert pubkey (f row) }
  | none => db

/-- A sum that stays in the range of a column.  Beyond it the two dialects differ, and only the failure
of PostgreSQL is modelled. -/
def addColumn (a b : Int) : Option Int :=
  if -2 ^ 63 ≤ a + b ∧ a + b < 2 ^ 63 then some (a + b) else none

def outOfRange : String :=
  "integer out of range"

/-- `INSERT OR IGNORE INTO uploads`. -/
def insertUpload (db : SqlTables) (record : UploadRecord) : SqlTables where
  uploads := match db.uploads.lookup record.sha256 with
    | some _ => db.uploads
    | none => db.uploads.insert record.sha256
        ⟨asI64 record.size, record.mimeType, record.pubkey, asI64 record.createdAt⟩
  owners := db.owners
  users := db.users
  stats := db.stats
  owners_references := by
    intro key hkey
    have hold := db.owners_references key hkey
    split
    · exact hold
    · exact (AList.mem_insert _).mpr (Or.inr hold)

theorem mem_insertUpload (db : SqlTables) (record : UploadRecord) :
    record.sha256 ∈ (db.insertUpload record).uploads := by
  simp only [insertUpload]
  split
  · rename_i row hrow
    rw [← AList.lookup_isSome, hrow]
    rfl
  · exact (AList.mem_insert _).mpr (Or.inl rfl)

/-- `INSERT OR IGNORE INTO upload_owners`, for a pair that is not there. -/
def insertOwner (db : SqlTables) (sha256 pubkey : String) (createdAt : Int)
    (h : sha256 ∈ db.uploads) : SqlTables where
  uploads := db.uploads
  owners := db.owners.insert (sha256, pubkey) createdAt
  users := db.users
  stats := db.stats
  owners_references := by
    intro key hkey
    rcases (AList.mem_insert _).mp hkey with rfl | hkey
    · exact h
    · exact db.owners_references key hkey

/-- `record_upload`.  Nothing here looks at the quota. -/
def recordUpload (db : SqlTables) (record : UploadRecord) : Except DbError Unit × SqlTables :=
  if (record.sha256, record.pubkey) ∈ db.owners then (.ok (), db.insertUpload record)
  else
    match addColumn (db.user record.pubkey).usedBytes (asI64 record.size) with
    | none => (.error (.internal ("upsert user: " ++ outOfRange)), db)
    | some used =>
      let db := (db.insertUpload record).insertOwner record.sha256 record.pubkey
        (asI64 record.createdAt) (db.mem_insertUpload record)
      (.ok (), db.upsertUser record.pubkey fun user => { user with usedBytes := used })

/-- A row of `uploads` as a record. -/
def uploadRecord (sha256 : String) (row : UploadRow) : UploadRecord where
  sha256 := sha256
  size := asU64 row.size
  mimeType := row.mimeType
  pubkey := row.pubkey
  createdAt := asU64 row.createdAt
  phash := none

/-- `list_uploads_by_pubkey`: the owner and the time are those of the ownership. -/
def listUploadsByPubkey (db : SqlTables) (pubkey : String) : List UploadRecord :=
  let owned := (db.owners.entries.filter fun entry => entry.1.2 == pubkey).insertionSort
    fun a b => b.2 ≤ a.2
  owned.filterMap fun entry => (db.uploads.lookup entry.1.1).map fun row =>
    { uploadRecord entry.1.1 row with pubkey := entry.1.2, createdAt := asU64 entry.2 }

/-- The ownership keys of a hash. -/
def ownerKeys (db : SqlTables) (sha256 : String) : List (String × String) :=
  db.owners.keys.filter fun key => key.1 == sha256

/-- `used_bytes = MAX(0, used_bytes - ?)`. -/
def giveBack (size : Int) (db : SqlTables) (pubkey : String) : SqlTables :=
  db.updateUser pubkey fun user => { user with usedBytes := max 0 (user.usedBytes - size) }

/-- `DELETE FROM uploads`, and from `upload_owners` by the foreign key. -/
def eraseUpload (db : SqlTables) (sha256 : String) : SqlTables where
  uploads := db.uploads.erase sha256
  owners := Assoc.filterKeys (fun key => key.1 != sha256) db.owners
  users := db.users
  stats := db.stats
  owners_references := by
    intro key hkey
    obtain ⟨hne, hkey⟩ := Assoc.mem_filterKeys.mp hkey
    exact AList.mem_erase.mpr ⟨by simpa using hne, db.owners_references key hkey⟩

/-- `delete_upload`: every owner gets the size of the upload back. -/
def deleteUpload (db : SqlTables) (sha256 : String) : Bool × SqlTables :=
  match db.uploads.lookup sha256 with
  | some row =>
    let owners := (db.ownerKeys sha256).map Prod.snd
    let db := owners.foldl (giveBack row.size) (db.eraseUpload sha256)
    (true, { db with stats := db.stats.erase sha256 })
  | none => (false, { db with stats := db.stats.erase sha256 })

/-- `DELETE FROM upload_owners`. -/
def eraseOwner (db : SqlTables) (sha256 pubkey : String) : SqlTables where
  uploads := db.uploads
  owners := db.owners.erase (sha256, pubkey)
  users := db.users
  stats := db.stats
  owners_references := by
    intro key hkey
    exact db.owners_references key (AList.mem_erase.mp hkey).2

/-- `delete_upload_owner`. -/
def deleteUploadOwner (db : SqlTables) (sha256 pubkey : String) : Bool × SqlTables :=
  if (sha256, pubkey) ∈ db.owners then
    match db.uploads.lookup sha256 with
    | some row => (true, (db.eraseOwner sha256 pubkey).giveBack row.size pubkey)
    | none => (false, db)
  else (false, db)

/-- A row of `users` as a record. -/
def userRecord (pubkey : String) (row : UserRow) : UserRecord where
  pubkey := pubkey
  role := row.role
  quotaBytes := row.quotaBytes.map asU64
  usedBytes := asU64 row.usedBytes

/-- `set_quota`. -/
def setQuota (db : SqlTables) (pubkey : String) (quotaBytes : Option Nat) :
    Except DbError Unit × SqlTables :=
  if quotaBytes.any (2 ^ 63 ≤ ·) then (.error (.internal "quota exceeds database range"), db)
  else
    (.ok (), db.upsertUser pubkey fun user =>
      { user with quotaBytes := quotaBytes.map Int.ofNat })

/-- `check_quota`.  The sum wraps around. -/
def checkQuota (db : SqlTables) (pubkey : String) (additionalBytes : Nat) : Except DbError Unit :=
  match db.users.lookup pubkey with
  | some ⟨some limit, used, _⟩ =>
    if asU64 limit < (asU64 used + additionalBytes) % 2 ^ 64 then
      .error (.quotaExceeded (asU64 used) additionalBytes (asU64 limit))
    else .ok ()
  | _ => .ok ()

/-- `record_access`. -/
def recordAccess (db : SqlTables) (sha256 : String) (bytesServed now : Nat) :
    Except DbError Unit × SqlTables :=
  let egress := ((db.stats.lookup sha256).map (·.egressBytes)).getD 0
  match addColumn egress (asI64 bytesServed) with
  | none => (.error (.internal ("record access: " ++ outOfRange)), db)
  | some egress => (.ok (), { db with stats := db.stats.insert sha256 ⟨egress, asI64 now⟩ })

end SqlTables

/-! ### Connections -/

inductive SqlDialect where
  | sqlite
  | postgres
deriving DecidableEq, Repr

/-- The calls of the interface that go to the server. -/
inductive SqlCall where
  | recordUpload
  | getUpload
  | listUploadsByPubkey
  | deleteUpload
  | isUploadOwner
  | uploadOwnerCount
  | deleteUploadOwner
  | getOrCreateUser
  | setQuota
  | checkQuota
  | updateUsedBytes
  | recordAccess
  | getStats
  | uploadCount
  | userCount
  | setRole
  | getRole
  | listUsersByRole
deriving DecidableEq, Repr

/-- The tables behind a connection, and how each kind of call fails at present, if it does. -/
structure SqlDatabase (dialect : SqlDialect) where
  tables : SqlTables
  outage : SqlCall → Option String

abbrev SqliteDatabase := SqlDatabase .sqlite

namespace SqlDatabase

variable {dialect : SqlDialect}

/-- A new database on a connection that works. -/
def new (dialect : SqlDialect) : SqlDatabase dialect where
  tables := .new
  outage _ := none

/-- A call that only reads. -/
def reading {α : Type} (db : SqlDatabase dialect) (call : SqlCall)
    (read : SqlTables → Except DbError α) : Except DbError α :=
  match db.outage call with
  | some detail => .error (.internal detail)
  | none => read db.tables

/-- A call that writes. -/
def writing {α : Type} (db : SqlDatabase dialect) (call : SqlCall)
    (write : SqlTables → Except DbError α × SqlTables) :
    Except DbError α × SqlDatabase dialect :=
  match db.outage call with
  | some detail => (.error (.internal detail), db)
  | none =>
    let (result, tables) := write db.tables
    (result, { db with tables := tables })

instance : BlobDatabase (SqlDatabase dialect) where
  recordUpload db record := db.writing .recordUpload (·.recordUpload record)
  getUpload db sha256 := db.reading .getUpload fun tables =>
    ((tables.uploads.lookup sha256).map (SqlTables.uploadRecord sha256)).elim (.error .notFound) .ok
  listUploadsByPubkey db pubkey := db.reading .listUploadsByPubkey fun tables =>
    .ok (tables.listUploadsByPubkey pubkey)
  deleteUpload db sha256 := db.writing .deleteUpload fun tables =>
    let (existed, tables) := tables.deleteUpload sha256
    (.ok existed, tables)
  isUploadOwner db sha256 pubkey := db.reading .isUploadOwner fun tables =>
    .ok (decide ((sha256, pubkey) ∈ tables.owners))
  uploadOwnerCount db sha256 := db.reading .uploadOwnerCount fun tables =>
    .ok (tables.ownerKeys sha256).length
  deleteUploadOwner db sha256 pubkey := db.writing .deleteUploadOwner fun tables =>
    let (existed, tables) := tables.deleteUploadOwner sha256 pubkey
    (.ok existed, tables)
  getOrCreateUser db pubkey := db.writing .getOrCreateUser fun tables =>
    (.ok (SqlTables.userRecord pubkey (tables.user pubkey)), tables.upsertUser pubkey id)
  setQuota db pubkey quotaBytes := db.writing .setQuota (·.setQuota pubkey quotaBytes)
  checkQuota db pubkey additionalBytes := db.reading .checkQuota
    (·.checkQuota pubkey additionalBytes)
  updateUsedBytes db pubkey usedBytes := db.writing .updateUsedBytes fun tables =>
    (.ok (), tables.updateUser pubkey fun user => { user with usedBytes := asI64 usedBytes })
  recordAccess db sha256 bytesServed now := db.writing .recordAccess
    (·.recordAccess sha256 bytesServed now)
  getStats db sha256 := db.reading .getStats fun tables =>
    ((tables.stats.lookup sha256).map fun row =>
      (⟨sha256, asU64 row.egressBytes, asU64 row.lastAccessed⟩ : FileStats)).elim
        (.error .notFound) .ok
  uploadCount db := match db.outage .uploadCount with
    | some _ => 0
    | none => db.tables.uploads.keys.length
  userCount db := match db.outage .userCount with
    | some _ => 0
    | none => db.tables.users.keys.length
  setRole db pubkey role := db.writing .setRole fun tables =>
    (.ok (), tables.upsertUser pubkey fun user => { user with role := role })
  getRole db pubkey := match db.outage .getRole with
    | some _ => "member"
    | none => ((db.tables.users.lookup pubkey).map (·.role)).getD "member"
  listUsersByRole db role := db.reading .listUsersByRole fun tables =>
    .ok ((tables.users.entries.map fun entry => SqlTables.userRecord entry.1 entry.2).filter
      (·.role == role))

end SqlDatabase

/-! ### The ledger of the tables -/

namespace SqlTables

/-- The tables as a ledger. -/
def toLedger (db : SqlTables) : Ledger where
  uploads sha256 := (db.uploads.lookup sha256).map (uploadRecord sha256)
  owners := Assoc.fibre db.owners
  used pubkey := asU64 (db.user pubkey).usedBytes
  quota pubkey := (db.user pubkey).quotaBytes.map asU64

variable {db : SqlTables}

theorem uploads_toLedger (sha256 : String) :
    db.toLedger.uploads sha256 = (db.uploads.lookup sha256).map (uploadRecord sha256) :=
  rfl

theorem user_upsertUser (pubkey other : String) (f : UserRow → UserRow) :
    (db.upsertUser pubkey f).user other
      = if other = pubkey then f (db.user pubkey) else db.user other := by
  rw [user, upsertUser, Assoc.lookup_insert_eq]
  split <;> rfl

variable {pubkey : String} {record : UploadRecord}

theorem user_updateUser_ne {other : String} (h : other ≠ pubkey) (f : UserRow → UserRow) :
    (db.updateUser pubkey f).user other = db.user other := by
  unfold updateUser
  split
  · simp [user, AList.lookup_insert_ne h]
  · rfl

/-- Giving bytes back changes nothing but a count. -/
theorem giveBack_frame (db : SqlTables) (size : Int) (pubkey : String) :
    (db.giveBack size pubkey).uploads = db.uploads ∧ (db.giveBack size pubkey).owners = db.owners
      ∧ ∀ other, ((db.giveBack size pubkey).user other).quotaBytes = (db.user other).quotaBytes := by
  unfold giveBack updateUser
  split
  · rename_i row hrow
    refine ⟨rfl, rfl, ?_⟩
    intro other
    rcases eq_or_ne other pubkey with rfl | h <;> simp [user, *]
  · exact ⟨rfl, rfl, fun _ => rfl⟩

theorem foldl_giveBack_frame (size : Int) (pubkeys : List String) (db : SqlTables) :
    (pubkeys.foldl (giveBack size) db).uploads = db.uploads
      ∧ (pubkeys.foldl (giveBack size) db).owners = db.owners
      ∧ ∀ other, ((pubkeys.foldl (giveBack size) db).user other).quotaBytes
        = (db.user other).quotaBytes := by
  induction pubkeys generalizing db with
  | nil => exact ⟨rfl, rfl, fun _ => rfl⟩
  | cons pubkey pubkeys ih =>
    obtain ⟨huploads, howners, hquota⟩ := ih (db.giveBack size pubkey)
    obtain ⟨huploads', howners', hquota'⟩ := db.giveBack_frame size pubkey
    exact ⟨huploads.trans huploads', howners.trans howners',
      fun other => (hquota other).trans (hquota' other)⟩

theorem lookup_insertUpload (record : UploadRecord) :
    ((db.insertUpload record).uploads.lookup record.sha256).isSome
      ∧ ∀ other, other ≠ record.sha256 ∨ (db.uploads.lookup other).isSome →
        (db.insertUpload record).uploads.lookup other = db.uploads.lookup other := by
  simp only [insertUpload]
  cases hknown : db.uploads.lookup record.sha256 with
  | some row => exact ⟨by rw [hknown]; rfl, fun _ _ => rfl⟩
  | none =>
    refine ⟨by rw [AList.lookup_insert]; rfl, ?_⟩
    intro other hother
    have hne : other ≠ record.sha256 := by
      rintro rfl
      simp [hknown] at hother
    exact AList.lookup_insert_ne hne

theorem lookup_isSome_of_owner {sha256 : String} (h : (sha256, pubkey) ∈ db.owners) :
    (db.uploads.lookup sha256).isSome :=
  AList.lookup_isSome.mpr (db.owners_references _ h)

/-- An upload that is known stays as it is. -/
theorem insertUpload_of_isSome (h : (db.uploads.lookup record.sha256).isSome) :
    db.insertUpload record = db := by
  obtain ⟨row, hrow⟩ := Option.isSome_iff_exists.mp h
  simp only [insertUpload, hrow]

/-- What `record_upload` does: nothing for a known owner, a new ownership where the count stays in
range, and nothing where it does not. -/
theorem recordUpload_cases (db : SqlTables) (record : UploadRecord) :
    ((record.sha256, record.pubkey) ∈ db.owners ∧ db.recordUpload record = (.ok (), db))
      ∨ ((record.sha256, record.pubkey) ∉ db.owners ∧ ∃ used,
        addColumn (db.user record.pubkey).usedBytes (asI64 record.size) = some used
        ∧ db.recordUpload record = (.ok (), ((db.insertUpload record).insertOwner record.sha256
          record.pubkey (asI64 record.createdAt) (db.mem_insertUpload record)).upsertUser
            record.pubkey fun user => { user with usedBytes := used }))
      ∨ ∃ e, db.recordUpload record = (.error e, db) := by
  by_cases howner : (record.sha256, record.pubkey) ∈ db.owners
  · refine Or.inl ⟨howner, ?_⟩
    rw [recordUpload, if_pos howner, insertUpload_of_isSome (lookup_isSome_of_owner howner)]
  · rw [recordUpload, if_neg howner]
    split
    · exact Or.inr (Or.inr ⟨_, rfl⟩)
    · rename_i used hused
      exact Or.inr (Or.inl ⟨howner, used, hused, rfl⟩)

theorem toLedger_upsertUser (pubkey : String) (f : UserRow → UserRow)
    (hused : (f (db.user pubkey)).usedBytes = (db.user pubkey).usedBytes)
    (hquota : (f (db.user pubkey)).quotaBytes = (db.user pubkey).quotaBytes) :
    (db.upsertUser pubkey f).toLedger = db.toLedger := by
  have husers : ∀ other, ((db.upsertUser pubkey f).user other).usedBytes = (db.user other).usedBytes
      ∧ ((db.upsertUser pubkey f).user other).quotaBytes = (db.user other).quotaBytes := by
    intro other
    rw [user_upsertUser]
    split
    · rename_i hother
      rw [hother]
      exact ⟨hused, hquota⟩
    · exact ⟨rfl, rfl⟩
  refine Ledger.ext rfl rfl ?_ ?_
  · funext other
    simp only [toLedger, husers]
  · funext other
    simp only [toLedger, husers]

theorem ledger_recordUpload {db' : SqlTables} (h : db.recordUpload record = (.ok (), db')) :
    db'.toLedger.owners = Function.update db.toLedger.owners record.sha256
        (insert record.pubkey (db.toLedger.owners record.sha256))
      ∧ (record.pubkey ∉ db.toLedger.owners record.sha256 →
        (db'.toLedger.uploads record.sha256).isSome)
      ∧ (∀ other, other ≠ record.sha256 ∨ (db.toLedger.uploads other).isSome →
        db'.toLedger.uploads other = db.toLedger.uploads other)
      ∧ db'.toLedger.quota = db.toLedger.quota := by
  rcases db.recordUpload_cases record with ⟨howner, heq⟩ | ⟨-, used, -, heq⟩ | ⟨e, heq⟩
  · obtain ⟨-, rfl⟩ := Prod.mk.inj (heq.symm.trans h)
    have hmem : record.pubkey ∈ db.toLedger.owners record.sha256 := Assoc.mem_fibre.mpr howner
    refine ⟨?_, fun hnew => absurd hmem hnew, fun _ _ => rfl, rfl⟩
    rw [Finset.insert_eq_of_mem hmem, Function.update_eq_self]
  · obtain ⟨-, rfl⟩ := Prod.mk.inj (heq.symm.trans h)
    obtain ⟨hsome, hothers⟩ := db.lookup_insertUpload record
    refine ⟨Assoc.fibre_insert _, fun _ => ?_, ?_, ?_⟩
    · rw [uploads_toLedger, Option.isSome_map]
      exact hsome
    · intro other hother
      rw [uploads_toLedger, Option.isSome_map] at hother
      rw [uploads_toLedger, uploads_toLedger]
      exact congrArg (Option.map (uploadRecord other)) (hothers other hother)
    · funext pubkey
      simp only [toLedger, user_upsertUser]
      split
      · rename_i hsame
        rw [hsame]
        rfl
      · rfl
  · cases heq.symm.trans h

theorem ledger_deleteUpload (db : SqlTables) (sha256 : String) :
    (db.deleteUpload sha256).2.toLedger.uploads = Function.update db.toLedger.uploads sha256 none
      ∧ (db.deleteUpload sha256).2.toLedger.owners = (if (db.toLedger.uploads sha256).isSome then
          Function.update db.toLedger.owners sha256 ∅ else db.toLedger.owners)
      ∧ (db.deleteUpload sha256).2.toLedger.quota = db.toLedger.quota := by
  cases hrow : db.uploads.lookup sha256 with
  | none =>
    have hnone : db.toLedger.uploads sha256 = none := by rw [uploads_toLedger, hrow]; rfl
    rw [deleteUpload, hrow, hnone]
    refine ⟨?_, rfl, rfl⟩
    rw [← hnone, Function.update_eq_self]
    rfl
  | some row =>
    have hsome : (db.toLedger.uploads sha256).isSome := by rw [uploads_toLedger, hrow]; rfl
    obtain ⟨huploads, howners, hquota⟩ := foldl_giveBack_frame row.size
      ((db.ownerKeys sha256).map Prod.snd) (db.eraseUpload sha256)
    rw [if_pos hsome, deleteUpload, hrow]
    refine ⟨?_, ?_, ?_⟩
    · funext other
      simp only [toLedger, huploads]
      rw [eraseUpload, Assoc.lookup_erase_eq, Function.update_apply]
      split <;> rfl
    · simp only [toLedger, howners]
      apply Assoc.fibre_eq_update_empty
      intro key
      simp [eraseUpload, Assoc.mem_filterKeys]
    · funext pubkey
      exact congrArg (Option.map asU64) (hquota pubkey)

theorem ledger_deleteUploadOwner (db : SqlTables) (sha256 pubkey : String) :
    (db.deleteUploadOwner sha256 pubkey).2.toLedger.owners
        = Function.update db.toLedger.owners sha256 ((db.toLedger.owners sha256).erase pubkey)
      ∧ (db.deleteUploadOwner sha256 pubkey).2.toLedger.uploads = db.toLedger.uploads
      ∧ (∀ other, other ≠ pubkey →
        (db.deleteUploadOwner sha256 pubkey).2.toLedger.used other = db.toLedger.used other)
      ∧ (db.deleteUploadOwner sha256 pubkey).2.toLedger.quota = db.toLedger.quota := by
  unfold deleteUploadOwner
  by_cases howner : (sha256, pubkey) ∈ db.owners
  · obtain ⟨row, hrow⟩ := Option.isSome_iff_exists.mp (lookup_isSome_of_owner howner)
    obtain ⟨huploads, howners, hquota⟩ :=
      (db.eraseOwner sha256 pubkey).giveBack_frame row.size pubkey
    rw [if_pos howner, hrow]
    refine ⟨?_, ?_, ?_, ?_⟩
    · simp only [toLedger, howners]
      exact Assoc.fibre_erase
    · simp only [toLedger, huploads]
      rfl
    · intro other hother
      simp only [toLedger, giveBack, user_updateUser_ne hother]
      rfl
    · funext other
      exact congrArg (Option.map asU64) (hquota other)
  · have herase : (db.toLedger.owners sha256).erase pubkey = db.toLedger.owners sha256 :=
      Finset.erase_eq_of_notMem fun h => howner (Assoc.mem_fibre.mp h)
    rw [if_neg howner, herase, Function.update_eq_self]
    exact ⟨rfl, rfl, fun _ _ => rfl, rfl⟩

theorem ledger_setQuota {db' : SqlTables} {quotaBytes : Option Nat}
    (h : db.setQuota pubkey quotaBytes = (.ok (), db')) :
    db'.toLedger = { db.toLedger with
      quota := Function.update db.toLedger.quota pubkey quotaBytes } := by
  unfold setQuota at h
  split at h
  · cases h
  rename_i hrange
  cases h
  -- what fits the column comes out as it went in
  have hcast : (quotaBytes.map Int.ofNat).map asU64 = quotaBytes := by
    cases quotaBytes with
    | none => rfl
    | some n =>
      have hn : n < 2 ^ 63 := by simpa using hrange
      have hkept : (asU64 (Int.ofNat n) : Int) = n :=
        asU64_of_nonneg (Int.natCast_nonneg n) (by simpa using Int.ofNat_lt.mpr hn)
      exact congrArg some (Int.ofNat_inj.mp hkept)
  refine Ledger.ext rfl rfl ?_ ?_
  · funext other
    simp only [toLedger, user_upsertUser]
    split
    · rename_i hother
      rw [hother]
    · rfl
  · funext other
    simp only [toLedger, user_upsertUser]
    by_cases hother : other = pubkey
    · subst hother
      simp [hcast]
    · simp [hother]

/-! ### Columns that hold sizes -/

/-- Byte counts and sizes are what they were before they were cast. -/
structure InRange (db : SqlTables) : Prop where
  used : ∀ pubkey row, db.users.lookup pubkey = some row → 0 ≤ row.usedBytes ∧ row.usedBytes < 2 ^ 63
  size : ∀ sha256 row, db.uploads.lookup sha256 = some row → 0 ≤ row.size

theorem inRange_new : new.InRange where
  used pubkey row h := by simp [new] at h
  size sha256 row h := by simp [new] at h

theorem InRange.user (h : db.InRange) (pubkey : String) :
    0 ≤ (db.user pubkey).usedBytes ∧ (db.user pubkey).usedBytes < 2 ^ 63 := by
  unfold SqlTables.user
  cases hrow : db.users.lookup pubkey with
  | none => decide
  | some row => exact h.used pubkey row hrow

theorem InRange.upsertUser (h : db.InRange) (pubkey : String) (f : UserRow → UserRow)
    (hf : 0 ≤ (f (db.user pubkey)).usedBytes ∧ (f (db.user pubkey)).usedBytes < 2 ^ 63) :
    (db.upsertUser pubkey f).InRange where
  used other := Assoc.forall_lookup_insert _ _ other h.used hf
  size := h.size

theorem InRange.giveBack (h : db.InRange) {size : Int} (hsize : 0 ≤ size) (pubkey : String) :
    (db.giveBack size pubkey).InRange := by
  unfold SqlTables.giveBack updateUser
  split
  · rename_i row hrow
    obtain ⟨hnonneg, hlt⟩ := h.used pubkey row hrow
    refine ⟨fun other => Assoc.forall_lookup_insert _ _ other h.used ?_, h.size⟩
    dsimp only
    omega
  · exact h

theorem InRange.foldl_giveBack {size : Int} (hsize : 0 ≤ size) (pubkeys : List String)
    (h : db.InRange) : (pubkeys.foldl (SqlTables.giveBack size) db).InRange := by
  induction pubkeys generalizing db with
  | nil => exact h
  | cons pubkey pubkeys ih => exact ih (h.giveBack hsize pubkey)

section

variable (h : db.InRange)
include h

theorem InRange.recordUpload (hsize : record.size < 2 ^ 63) :
    (db.recordUpload record).2.InRange := by
  rcases db.recordUpload_cases record with ⟨-, heq⟩ | ⟨-, used, hused, heq⟩ | ⟨e, heq⟩
  · rwa [heq]
  · rw [asI64_of_lt hsize] at hused
    have hinserted : ((db.insertUpload record).insertOwner record.sha256 record.pubkey
        (asI64 record.createdAt) (db.mem_insertUpload record)).InRange := by
      refine ⟨h.used, ?_⟩
      intro sha256
      simp only [insertOwner, insertUpload]
      split
      · exact h.size sha256
      · refine Assoc.forall_lookup_insert _ _ sha256 h.size ?_
        rw [asI64_of_lt hsize]
        exact Int.natCast_nonneg _
    rw [heq]
    refine hinserted.upsertUser record.pubkey (fun user => { user with usedBytes := used }) ?_
    have hnonneg := (h.user record.pubkey).1
    unfold addColumn at hused
    split at hused
    · rename_i hrange
      obtain rfl := Option.some.inj hused
      dsimp only
      omega
    · cases hused
  · rwa [heq]

theorem InRange.deleteUpload (sha256 : String) :
    (db.deleteUpload sha256).2.InRange := by
  unfold SqlTables.deleteUpload
  split
  · rename_i row hrow
    have herased : (db.eraseUpload sha256).InRange :=
      ⟨h.used, fun other => Assoc.forall_lookup_erase _ _ other h.size⟩
    have hdone := InRange.foldl_giveBack (h.size sha256 row hrow)
      ((db.ownerKeys sha256).map Prod.snd) herased
    exact ⟨hdone.used, hdone.size⟩
  · exact ⟨h.used, h.size⟩

theorem InRange.deleteUploadOwner (sha256 pubkey : String) :
    (db.deleteUploadOwner sha256 pubkey).2.InRange := by
  unfold SqlTables.deleteUploadOwner
  split
  · split
    · rename_i row hrow
      have herased : (db.eraseOwner sha256 pubkey).InRange := ⟨h.used, h.size⟩
      exact herased.giveBack (h.size sha256 row hrow) pubkey
    · exact h
  · exact h

theorem InRange.setQuota (pubkey : String) (quotaBytes : Option Nat) :
    (db.setQuota pubkey quotaBytes).2.InRange := by
  unfold SqlTables.setQuota
  split
  · exact h
  · exact h.upsertUser pubkey (fun user => { user with quotaBytes := quotaBytes.map Int.ofNat })
      (h.user pubkey)

theorem InRange.recordAccess (sha256 : String) (bytesServed now : Nat) :
    (db.recordAccess sha256 bytesServed now).2.InRange := by
  unfold SqlTables.recordAccess
  dsimp only
  split
  · exact h
  · exact ⟨h.used, h.size⟩

end

end SqlTables

namespace SqlDatabase

variable {dialect : SqlDialect} {α : Type} {db db' : SqlDatabase dialect} {call : SqlCall}

theorem reading_eq_ok {read : SqlTables → Except DbError α} {a : α}
    (h : db.reading call read = .ok a) : read db.tables = .ok a := by
  unfold reading at h
  split at h
  · cases h
  · exact h

variable {write : SqlTables → Except DbError α × SqlTables}

/-- A call that succeeds has reached the tables. -/
theorem writing_eq_ok {a : α} (h : db.writing call write = (.ok a, db')) :
    write db.tables = (.ok a, db'.tables) := by
  unfold writing at h
  split at h
  · cases h
  · obtain ⟨hresult, rfl⟩ := Prod.mk.inj h
    exact Prod.ext hresult rfl

/-- A call that fails has either not reached the tables or failed there. -/
theorem writing_eq_error {e : DbError} (h : db.writing call write = (.error e, db')) :
    db'.tables = db.tables ∨ write db.tables = (.error e, db'.tables) := by
  unfold writing at h
  split at h
  · cases h
    exact Or.inl rfl
  · obtain ⟨hresult, rfl⟩ := Prod.mk.inj h
    exact Or.inr (Prod.ext hresult rfl)

/-- A call that leaves the ledger of any tables alone leaves that of the database alone. -/
theorem toLedger_writing (h : ∀ tables, (write tables).2.toLedger = tables.toLedger) :
    (db.writing call write).2.tables.toLedger = db.tables.toLedger := by
  unfold writing
  split
  · rfl
  · exact h _

instance : LawfulBlobDatabase (SqlDatabase dialect) where
  ledger db := db.tables.toLedger
  isUploadOwner_eq {db hash pubkey owner} h := by
    change db.reading .isUploadOwner _ = .ok owner at h
    have hread := reading_eq_ok h
    rw [← Except.ok.inj hread]
    exact decide_eq_decide.mpr Assoc.mem_fibre.symm
  uploadOwnerCount_eq {db hash count} h := by
    change db.reading .uploadOwnerCount _ = .ok count at h
    have hread := reading_eq_ok h
    rw [← Except.ok.inj hread]
    exact (Assoc.card_fibre db.tables.owners hash).symm
  recordUpload_ok h := SqlTables.ledger_recordUpload (writing_eq_ok h)
  deleteUpload_ok {db db' hash existed} h := by
    change db.writing .deleteUpload _ = (.ok existed, db') at h
    have hwrite := writing_eq_ok h
    have htables : (db.tables.deleteUpload hash).2 = db'.tables := (Prod.mk.inj hwrite).2
    rw [← htables]
    exact SqlTables.ledger_deleteUpload db.tables hash
  deleteUploadOwner_ok {db db' hash pubkey existed} h := by
    change db.writing .deleteUploadOwner _ = (.ok existed, db') at h
    have hwrite := writing_eq_ok h
    have htables : (db.tables.deleteUploadOwner hash pubkey).2 = db'.tables := (Prod.mk.inj hwrite).2
    rw [← htables]
    exact SqlTables.ledger_deleteUploadOwner db.tables hash pubkey
  setQuota_ok h := SqlTables.ledger_setQuota (writing_eq_ok h)
  recordUpload_error {db db' record e} h := by
    rcases writing_eq_error h with hsame | hwrite
    · rw [hsame]
    · rcases db.tables.recordUpload_cases record with ⟨-, heq⟩ | ⟨-, used, -, heq⟩ | ⟨e', heq⟩
      · exact nomatch (Prod.mk.inj (heq.symm.trans hwrite)).1
      · exact nomatch (Prod.mk.inj (heq.symm.trans hwrite)).1
      · rw [← (Prod.mk.inj (heq.symm.trans hwrite)).2]
  deleteUpload_error {db db' hash e} h := by
    rcases writing_eq_error h with hsame | hwrite
    · rw [hsame]
    · cases hwrite
  deleteUploadOwner_error {db db' hash pubkey e} h := by
    rcases writing_eq_error h with hsame | hwrite
    · rw [hsame]
    · cases hwrite
  setQuota_error {db db' pubkey quotaBytes e} h := by
    rcases writing_eq_error h with hsame | hwrite
    · rw [hsame]
    · unfold SqlTables.setQuota at hwrite
      split at hwrite
      · rw [← (Prod.mk.inj hwrite).2]
      · cases hwrite
  setRole_eq db pubkey role := toLedger_writing fun tables =>
    SqlTables.toLedger_upsertUser pubkey _ rfl rfl
  getOrCreateUser_eq db pubkey := toLedger_writing fun tables =>
    SqlTables.toLedger_upsertUser pubkey _ rfl rfl
  recordAccess_eq db hash bytesServed now := toLedger_writing fun tables => by
    unfold SqlTables.recordAccess
    dsimp only
    split <;> rfl

end SqlDatabase

end BlossomRs.Database

import BlossomRs.Database.Sql

/-!
# The tables of the in-memory database and of SQLite

Both implement one interface.  The in-memory database keeps the whole record of each owner; SQLite
keeps one row for each hash, and of each owner only the time.  `SameTables` says that the two hold the
same.  It is kept by every call that writes, as long as each later owner of a hash records the size and
the type of the first one.
-/

namespace BlossomRs.Database

open RustInt MemoryDatabase

/-- A record as a row of `uploads`. -/
def uploadRow (record : UploadRecord) : UploadRow where
  size := asI64 record.size
  mimeType := record.mimeType
  pubkey := record.pubkey
  createdAt := asI64 record.createdAt

/-- A record as a row of `users`. -/
def userRow (user : UserRecord) : UserRow where
  quotaBytes := user.quotaBytes.map Int.ofNat
  usedBytes := user.usedBytes
  role := user.role

/-- User tables with the same contents, and byte counts below the sign bit. -/
structure SameUsers (db : MemoryDatabase) (tables : SqlTables) : Prop where
  lookup : ∀ pubkey, tables.users.lookup pubkey = (db.users.lookup pubkey).map userRow
  inRange : ∀ pubkey user, db.users.lookup pubkey = some user → user.pubkey = pubkey
    ∧ user.usedBytes < 2 ^ 63 ∧ ∀ limit, user.quotaBytes = some limit → limit < 2 ^ 63

/-- Tables with the same contents. -/
structure SameTables (db : MemoryDatabase) (tables : SqlTables) : Prop where
  accounted : db.Accounted
  users : SameUsers db tables
  uploads : ∀ sha256, tables.uploads.lookup sha256 = (db.uploads.lookup sha256).map uploadRow
  owners : ∀ key, tables.owners.lookup key
    = (db.owners.lookup key).map fun record => asI64 record.createdAt
  /-- The first record of a hash is one SQLite can hold. -/
  upload : ∀ sha256 record, db.uploads.lookup sha256 = some record → record.sha256 = sha256
    ∧ record.size < 2 ^ 63 ∧ record.createdAt < 2 ^ 64 ∧ record.phash = none
  /-- The records of the owners are what the row of the hash and their time make of them. -/
  owner : ∀ key record, db.owners.lookup key = some record → record.createdAt < 2 ^ 64
    ∧ ∃ first, db.uploads.lookup key.1 = some first ∧ record.size = first.size
      ∧ record.mimeType = first.mimeType
  /-- The times of one owner are on one side of the sign bit. -/
  side : ∀ key record key' record', db.owners.lookup key = some record →
    db.owners.lookup key' = some record' → key.2 = key'.2 →
    (record.createdAt < 2 ^ 63 ↔ record'.createdAt < 2 ^ 63)

theorem sameTables_new : SameTables .new .new where
  accounted := accounted_new
  users := ⟨fun _ => rfl, fun _ _ h => nomatch h⟩
  uploads _ := rfl
  owners _ := rfl
  upload _ _ h := nomatch h
  owner _ _ h := nomatch h
  side _ _ _ _ h := nomatch h

/-! ### Users -/

namespace SameUsers

variable {db : MemoryDatabase} {tables : SqlTables}

section

variable (h : SameUsers db tables) (pubkey : String)
include h

theorem user :
    tables.user pubkey = userRow (db.user pubkey) := by
  rw [SqlTables.user, MemoryDatabase.user, h.lookup]
  cases db.users.lookup pubkey <;> rfl

theorem user_inRange :
    (db.user pubkey).pubkey = pubkey ∧ (db.user pubkey).usedBytes < 2 ^ 63
      ∧ ∀ limit, (db.user pubkey).quotaBytes = some limit → limit < 2 ^ 63 := by
  unfold MemoryDatabase.user
  cases hlookup : db.users.lookup pubkey with
  | none => exact ⟨rfl, Nat.two_pow_pos 63, nofun⟩
  | some user => exact h.inRange pubkey user hlookup

/-- The same change to a user on both sides. -/
theorem modifyUser {f : UserRecord → UserRecord} {g : UserRow → UserRow}
    (hrow : g (userRow (db.user pubkey)) = userRow (f (db.user pubkey)))
    (hpubkey : (f (db.user pubkey)).pubkey = (db.user pubkey).pubkey)
    (hused : (f (db.user pubkey)).usedBytes < 2 ^ 63)
    (hquota : ∀ limit, (f (db.user pubkey)).quotaBytes = some limit → limit < 2 ^ 63) :
    SameUsers (db.modifyUser pubkey f) (tables.upsertUser pubkey g) where
  lookup other := by
    rw [MemoryDatabase.modifyUser, SqlTables.upsertUser, Assoc.lookup_insert_eq,
      Assoc.lookup_insert_eq, h.user, hrow]
    split
    · rfl
    · exact h.lookup other
  inRange other := Assoc.forall_lookup_insert _ _ other h.inRange
    ⟨hpubkey.trans (h.user_inRange pubkey).1, hused, hquota⟩

end

/-- Only the user tables matter. -/
theorem congr {db' : MemoryDatabase} {tables' : SqlTables} (h : SameUsers db tables)
    (husers : db'.users = db.users) (husers' : tables'.users = tables.users) :
    SameUsers db' tables' where
  lookup pubkey := by rw [husers, husers', h.lookup]
  inRange pubkey user hlookup := h.inRange pubkey user (husers ▸ hlookup)

end SameUsers

/-- A user's record with some bytes given back. -/
def debited (size : Nat) (user : UserRecord) : UserRecord :=
  { user with usedBytes := user.usedBytes - size }

theorem userRow_debited {size : Nat} (user : UserRecord) :
    userRow (debited size user)
      = { userRow user with usedBytes := max 0 ((userRow user).usedBytes - size) } := by
  simp only [userRow, debited, UserRow.mk.injEq, true_and, and_true]
  omega

/-- Bytes given back to the same users on both sides. -/
theorem SameUsers.debit {db db' : MemoryDatabase} {tables tables' : SqlTables}
    (h : SameUsers db tables) (size : Nat) (left : String → Prop) [DecidablePred left]
    (hdb : ∀ pubkey, db'.users.lookup pubkey
      = if left pubkey then (db.users.lookup pubkey).map (debited size)
        else db.users.lookup pubkey)
    (htables : ∀ pubkey, tables'.users.lookup pubkey
      = if left pubkey then (tables.users.lookup pubkey).map fun user =>
          { user with usedBytes := max 0 (user.usedBytes - size) }
        else tables.users.lookup pubkey) : SameUsers db' tables' where
  lookup pubkey := by
    rw [hdb, htables, h.lookup]
    split
    · cases db.users.lookup pubkey with
      | none => rfl
      | some user => exact congrArg some (userRow_debited user).symm
    · rfl
  inRange pubkey user hlookup := by
    rw [hdb] at hlookup
    split at hlookup
    · obtain ⟨old, hold, rfl⟩ := Option.map_eq_some_iff.mp hlookup
      obtain ⟨hpubkey, hused, hquota⟩ := h.inRange pubkey old hold
      exact ⟨hpubkey, lt_of_le_of_lt (Nat.sub_le _ _) hused, hquota⟩
    · exact h.inRange pubkey user hlookup

namespace MemoryDatabase

/-- The user table after bytes were given back to one owner. -/
theorem lookup_users_giveBack (db : MemoryDatabase) (key : String × String) (size : Nat)
    (pubkey : String) :
    (db.giveBack key size).users.lookup pubkey
      = if pubkey = key.2 then (db.users.lookup pubkey).map (debited size)
        else db.users.lookup pubkey := by
  unfold giveBack modifyExistingUser
  rcases eq_or_ne pubkey key.2 with rfl | hne
  · split <;> simp [*, debited]
  · split <;> simp [hne]

/-- The user table after every owner of a hash got the same number of bytes back. -/
theorem lookup_users_dropOwners (keys : List (String × String)) (db : MemoryDatabase) {size : Nat}
    (hnodup : (keys.map Prod.snd).Nodup)
    (hrecord : ∀ key ∈ keys, ∃ record, db.owners.lookup key = some record
      ∧ key = (record.sha256, record.pubkey) ∧ record.size = size) (pubkey : String) :
    (db.dropOwners keys).users.lookup pubkey
      = if pubkey ∈ keys.map Prod.snd then (db.users.lookup pubkey).map (debited size)
        else db.users.lookup pubkey := by
  induction keys generalizing db with
  | nil => rfl
  | cons key rest ih =>
    obtain ⟨record, hlookup, hfiled, rfl⟩ := hrecord key List.mem_cons_self
    rw [List.map_cons, List.nodup_cons] at hnodup
    -- the keys behind this one keep their records
    have hrest : ∀ other ∈ rest, ∃ found, (db.giveBack key record.size).owners.lookup other
        = some found ∧ other = (found.sha256, found.pubkey) ∧ found.size = record.size := by
      intro other hother
      have hne : other ≠ key := by
        rintro rfl
        exact hnodup.1 (List.mem_map_of_mem hother)
      rw [owners_giveBack, AList.lookup_erase_ne hne]
      exact hrecord other (List.mem_cons_of_mem _ hother)
    have hfold : db.dropOwners (key :: rest) = (db.giveBack key record.size).dropOwners rest := by
      rw [← dropOwner_eq hfiled hlookup]
      rfl
    rw [hfold, ih _ hnodup.2 hrest, lookup_users_giveBack, List.map_cons]
    by_cases hsame : pubkey = key.2
    · subst hsame
      rw [if_neg hnodup.1, if_pos rfl, if_pos List.mem_cons_self]
    · rw [if_neg hsame]
      simp only [List.mem_cons, hsame, false_or]

theorem nodup_ownerKeys (keys : List (String × String)) (sha256 : String) (hnodup : keys.Nodup) :
    ((keys.filter fun key => key.1 == sha256).map Prod.snd).Nodup := by
  refine List.Nodup.map_on ?_ (hnodup.filter _)
  intro x hx y hy hsnd
  have hx := (List.mem_filter.mp hx).2
  have hy := (List.mem_filter.mp hy).2
  rw [beq_iff_eq] at hx hy
  exact Prod.ext (hx.trans hy.symm) hsnd

end MemoryDatabase

namespace SqlTables

theorem lookup_users_giveBack (db : SqlTables) (size : Int) (pubkey other : String) :
    (db.giveBack size pubkey).users.lookup other
      = if other = pubkey then (db.users.lookup other).map fun user =>
          { user with usedBytes := max 0 (user.usedBytes - size) }
        else db.users.lookup other := by
  unfold giveBack updateUser
  rcases eq_or_ne other pubkey with rfl | hne
  · split <;> simp [*]
  · split <;> simp [hne]

theorem lookup_users_foldl_giveBack (size : Int) (pubkeys : List String) (db : SqlTables)
    (hnodup : pubkeys.Nodup) (pubkey : String) :
    (pubkeys.foldl (giveBack size) db).users.lookup pubkey
      = if pubkey ∈ pubkeys then (db.users.lookup pubkey).map fun user =>
          { user with usedBytes := max 0 (user.usedBytes - size) }
        else db.users.lookup pubkey := by
  induction pubkeys generalizing db with
  | nil => rfl
  | cons first rest ih =>
    rw [List.nodup_cons] at hnodup
    rw [List.foldl_cons, ih _ hnodup.2, lookup_users_giveBack]
    by_cases hsame : pubkey = first
    · subst hsame
      rw [if_neg hnodup.1, if_pos rfl, if_pos List.mem_cons_self]
    · rw [if_neg hsame]
      simp only [List.mem_cons, hsame, false_or]

end SqlTables

/-! ### Calls that write -/

namespace SameTables

variable {db : MemoryDatabase} {tables : SqlTables}

theorem mem_owners (h : SameTables db tables) (key : String × String) :
    key ∈ tables.owners ↔ key ∈ db.owners := by
  rw [← AList.lookup_isSome, ← AList.lookup_isSome, h.owners, Option.isSome_map]

variable {record : UploadRecord} {tables' : SqlTables}

section

variable (h : SameTables db tables)
include h

theorem filed {key : String × String} (hlookup : db.owners.lookup key = some record) :
    key = (record.sha256, record.pubkey) :=
  h.accounted.filed key record hlookup

theorem size_uploadRow {sha256 : String} {first : UploadRecord}
    (hfirst : db.uploads.lookup sha256 = some first) : (uploadRow first).size = first.size := by
  rw [uploadRow, asI64_of_lt (h.upload sha256 first hfirst).2.1]

/-- A change to the users only. -/
theorem withUsers {db' : MemoryDatabase} (haccounted : db'.Accounted)
    (husers : SameUsers db' tables') (huploads : db'.uploads = db.uploads)
    (howners : db'.owners = db.owners) (huploads' : tables'.uploads = tables.uploads)
    (howners' : tables'.owners = tables.owners) : SameTables db' tables' where
  accounted := haccounted
  users := husers
  uploads := by rw [huploads, huploads']; exact h.uploads
  owners := by rw [howners, howners']; exact h.owners
  upload := by rw [huploads]; exact h.upload
  owner := by rw [howners, huploads]; exact h.owner
  side := by rw [howners]; exact h.side

/-- Fewer owners, and the users one gets by giving bytes back to those that left. -/
theorem restrict {db' : MemoryDatabase} (haccounted : db'.Accounted)
    (husers : SameUsers db' tables')
    (huploads : ∀ sha256, db'.uploads.lookup sha256 = db.uploads.lookup sha256
      ∨ (db'.uploads.lookup sha256 = none ∧ ∀ pubkey, (sha256, pubkey) ∉ db'.owners))
    (huploads' : ∀ sha256, tables'.uploads.lookup sha256
      = (db'.uploads.lookup sha256).map uploadRow)
    (howners : ∀ key record, db'.owners.lookup key = some record → db.owners.lookup key = some record)
    (howners' : ∀ key, tables'.owners.lookup key
      = (db'.owners.lookup key).map fun record => asI64 record.createdAt) :
    SameTables db' tables' where
  accounted := haccounted
  users := husers
  uploads := huploads'
  owners := howners'
  upload sha256 record hlookup := by
    rcases huploads sha256 with hsame | ⟨hnone, -⟩
    · exact h.upload sha256 record (hsame ▸ hlookup)
    · rw [hnone] at hlookup
      cases hlookup
  owner key record hlookup := by
    obtain ⟨htime, first, hfirst, hshape⟩ := h.owner key record (howners key record hlookup)
    refine ⟨htime, first, ?_, hshape⟩
    rcases huploads key.1 with hsame | ⟨-, hnone⟩
    · rw [hsame, hfirst]
    · have hmem : key ∈ db'.owners := AList.lookup_isSome.mp (by rw [hlookup]; rfl)
      exact absurd hmem (hnone key.2)
  side key record key' record' hlookup hlookup' :=
    h.side key record key' record' (howners _ _ hlookup) (howners _ _ hlookup')

end

/-! #### Recording -/

/-- What the handlers see to before an upload is recorded: its owner has it already, or the quota was
checked; and the values fit their columns. -/
def Admitted (db : MemoryDatabase) (record : UploadRecord) : Prop :=
  record.size < 2 ^ 63 ∧ record.createdAt < 2 ^ 64
    ∧ ((record.sha256, record.pubkey) ∈ db.owners
      ∨ (db.checkQuota record.pubkey record.size = .ok ()
        ∧ (db.user record.pubkey).usedBytes + record.size < 2 ^ 63))

/-- A record that SQLite can tell from the row of its hash: a new hash comes without a perceptual
hash, a new owner of a known hash gives its size and its type, and the times of an owner stay on one
side of the sign bit. -/
def Shared (db : MemoryDatabase) (record : UploadRecord) : Prop :=
  (record.sha256, record.pubkey) ∉ db.owners →
    (db.uploads.lookup record.sha256 = none → record.phash = none)
    ∧ (∀ first, db.uploads.lookup record.sha256 = some first →
      record.size = first.size ∧ record.mimeType = first.mimeType)
    ∧ ∀ key other, db.owners.lookup key = some other → key.2 = record.pubkey →
      (other.createdAt < 2 ^ 63 ↔ record.createdAt < 2 ^ 63)

theorem fits_of_checkQuota (h : db.checkQuota record.pubkey record.size = .ok ())
    (hused : (db.user record.pubkey).usedBytes + record.size < 2 ^ 63) : db.Fits record := by
  refine ⟨by omega, ?_⟩
  intro limit hlimit
  unfold MemoryDatabase.user at hlimit ⊢
  cases hlookup : db.users.lookup record.pubkey with
  | none =>
    rw [hlookup] at hlimit
    cases hlimit
  | some user =>
    obtain ⟨pubkey, role, quota, used⟩ := user
    rw [hlookup] at hlimit
    obtain rfl : quota = some limit := hlimit
    simp only [checkQuota, hlookup] at h
    split at h
    · cases h
    · rename_i hnot
      rw [Option.getD_some]
      exact not_lt.mp fun hlt => hnot (Or.inr hlt)

/-- The uploads after a new owner was added. -/
theorem lookup_uploads_addOwner (record : UploadRecord) (sha256 : String) :
    (db.addOwner record).uploads.lookup sha256
      = if sha256 = record.sha256 then some ((db.uploads.lookup sha256).getD record)
        else db.uploads.lookup sha256 := by
  simp only [addOwner, uploads_modifyUser]
  by_cases hsame : sha256 = record.sha256
  · subst hsame
    split <;> simp [*]
  · split <;> simp [hsame]

theorem lookup_owners_addOwner (record : UploadRecord) (key : String × String) :
    (db.addOwner record).owners.lookup key
      = if key = (record.sha256, record.pubkey) then some record else db.owners.lookup key := by
  rw [addOwner, owners_modifyUser, Assoc.lookup_insert_eq]

/-- The row is inserted where the record is. -/
theorem lookup_uploads_insertUpload (h : SameTables db tables) (record : UploadRecord)
    (sha256 : String) : (tables.insertUpload record).uploads.lookup sha256
      = ((db.addOwner record).uploads.lookup sha256).map uploadRow := by
  rw [lookup_uploads_addOwner]
  simp only [SqlTables.insertUpload]
  have hrow := h.uploads record.sha256
  by_cases hsame : sha256 = record.sha256
  · subst hsame
    cases hlookup : db.uploads.lookup record.sha256 with
    | none =>
      rw [hlookup, Option.map_none] at hrow
      rw [if_pos rfl, hrow, AList.lookup_insert]
      rfl
    | some first =>
      rw [hlookup, Option.map_some] at hrow
      rw [if_pos rfl, hrow]
      exact hrow
  · rw [if_neg hsame, ← h.uploads]
    split
    · rfl
    · rw [AList.lookup_insert_ne hsame]

theorem addOwner (h : SameTables db tables) (hnew : (record.sha256, record.pubkey) ∉ db.owners)
    (hsize : record.size < 2 ^ 63) (htime : record.createdAt < 2 ^ 64)
    (hused : (db.user record.pubkey).usedBytes + record.size < 2 ^ 63) (hshared : Shared db record)
    (huploads' : tables'.uploads = (tables.insertUpload record).uploads) (howners' : tables'.owners
      = tables.owners.insert (record.sha256, record.pubkey) (asI64 record.createdAt))
    (husers' : tables'.users = (tables.upsertUser record.pubkey fun user =>
      { user with usedBytes := user.usedBytes + record.size }).users) :
    SameTables (db.addOwner record) tables' := by
  obtain ⟨hphash, hshape, hside⟩ := hshared hnew
  refine ⟨h.accounted.addOwner hnew, ?_, ?_, ?_, ?_, ?_, ?_⟩
  · have hcharged := h.users.modifyUser record.pubkey
      (f := fun user => { user with usedBytes := user.usedBytes + record.size })
      (g := fun user => { user with usedBytes := user.usedBytes + record.size })
      (by simp only [userRow, Nat.cast_add]) rfl hused (h.users.user_inRange record.pubkey).2.2
    exact hcharged.congr rfl husers'
  · intro sha256
    rw [huploads', h.lookup_uploads_insertUpload]
  · intro key
    rw [howners', lookup_owners_addOwner, Assoc.lookup_insert_eq, h.owners]
    split <;> rfl
  · intro sha256 found hlookup
    rw [lookup_uploads_addOwner] at hlookup
    split at hlookup
    · rename_i hsame
      subst hsame
      cases hfirst : db.uploads.lookup record.sha256 with
      | none =>
        rw [hfirst] at hlookup
        obtain rfl : record = found := Option.some.inj hlookup
        exact ⟨rfl, hsize, htime, hphash hfirst⟩
      | some first =>
        rw [hfirst] at hlookup
        obtain rfl : first = found := Option.some.inj hlookup
        exact h.upload _ _ hfirst
    · exact h.upload sha256 found hlookup
  · intro key found hlookup
    rw [lookup_owners_addOwner] at hlookup
    rw [lookup_uploads_addOwner]
    split at hlookup
    · rename_i hsame
      obtain rfl : record = found := Option.some.inj hlookup
      subst hsame
      refine ⟨htime, _, if_pos rfl, ?_⟩
      cases hfirst : db.uploads.lookup record.sha256 with
      | none => exact ⟨rfl, rfl⟩
      | some first => exact hshape first hfirst
    · obtain ⟨hfound, first, hfirst, hsame⟩ := h.owner key found hlookup
      refine ⟨hfound, first, ?_, hsame⟩
      rw [hfirst]
      split <;> rfl
  · -- the times of the new owner's other uploads are on the side of the new one
    have hnewSide : ∀ key other, (db.addOwner record).owners.lookup key = some other →
        key.2 = record.pubkey → (other.createdAt < 2 ^ 63 ↔ record.createdAt < 2 ^ 63) := by
      intro key other hlookup hpubkey
      rw [lookup_owners_addOwner] at hlookup
      split at hlookup
      · obtain rfl : record = other := Option.some.inj hlookup
        exact Iff.rfl
      · exact hside key other hlookup hpubkey
    intro key found key' found' hlookup hlookup' hpubkey
    by_cases howner : key.2 = record.pubkey
    · exact (hnewSide key found hlookup howner).trans
        (hnewSide key' found' hlookup' (hpubkey ▸ howner)).symm
    · have hne : ∀ other : String × String, other.2 ≠ record.pubkey →
          other ≠ (record.sha256, record.pubkey) := by
        rintro other hother rfl
        exact hother rfl
      rw [lookup_owners_addOwner, if_neg (hne key howner)] at hlookup
      rw [lookup_owners_addOwner, if_neg (hne key' (hpubkey ▸ howner))] at hlookup'
      exact h.side key found key' found' hlookup hlookup' hpubkey

theorem recordUpload (h : SameTables db tables) (hadmitted : Admitted db record)
    (hshared : Shared db record) :
    SameTables (db.recordUpload record).2 (tables.recordUpload record).2 := by
  obtain ⟨hsize, htime, hchecked⟩ := hadmitted
  by_cases howner : (record.sha256, record.pubkey) ∈ db.owners
  · have howner' := (h.mem_owners _).mpr howner
    rw [MemoryDatabase.recordUpload, if_pos howner, SqlTables.recordUpload, if_pos howner',
      SqlTables.insertUpload_of_isSome (SqlTables.lookup_isSome_of_owner howner')]
    exact h
  · obtain ⟨hquota, hused⟩ := hchecked.resolve_left howner
    have hfits := fits_of_checkQuota hquota hused
    have hmemory : db.recordUpload record = (.ok (), db.addOwner record) := by
      rcases db.recordUpload_cases record with ⟨hmem, -⟩ | ⟨-, -, heq⟩ | ⟨-, hnot, -⟩
      · exact absurd hmem howner
      · exact heq
      · exact absurd hfits hnot
    have hcolumn : SqlTables.addColumn (tables.user record.pubkey).usedBytes (asI64 record.size)
        = some ((db.user record.pubkey).usedBytes + record.size : Int) := by
      rw [h.users.user, asI64_of_lt hsize, SqlTables.addColumn, if_pos]
      · rfl
      · simp only [userRow]
        omega
    rw [hmemory, SqlTables.recordUpload, if_neg (mt (h.mem_owners _).mp howner), hcolumn]
    refine h.addOwner howner hsize htime hused hshared rfl rfl ?_
    simp only [SqlTables.upsertUser, SqlTables.insertOwner, SqlTables.insertUpload, SqlTables.user]
    congr 2
    have huser := h.users.user record.pubkey
    rw [SqlTables.user] at huser
    rw [huser]
    rfl

/-! #### Deleting -/

theorem deleteUploadOwner (h : SameTables db tables) (sha256 pubkey : String) :
    SameTables (db.deleteUploadOwner sha256 pubkey).2 (tables.deleteUploadOwner sha256 pubkey).2 := by
  cases hlookup : db.owners.lookup (sha256, pubkey) with
  | none =>
    have hnot : (sha256, pubkey) ∉ db.owners := AList.lookup_eq_none.mp hlookup
    rw [deleteUploadOwner_of_notMem hnot, SqlTables.deleteUploadOwner,
      if_neg (mt (h.mem_owners _).mp hnot)]
    exact h
  | some record =>
    have hmem : (sha256, pubkey) ∈ db.owners := AList.lookup_isSome.mp (by rw [hlookup]; rfl)
    obtain ⟨-, first, hfirst, hsize, -⟩ := h.owner _ record hlookup
    have hrow : tables.uploads.lookup sha256 = some (uploadRow first) := by
      rw [h.uploads, hfirst]
      rfl
    rw [deleteUploadOwner_of_lookup hlookup, SqlTables.deleteUploadOwner,
      if_pos ((h.mem_owners _).mpr hmem), hrow]
    have huploads' : ((tables.eraseOwner sha256 pubkey).giveBack (uploadRow first).size pubkey).uploads
        = tables.uploads := ((tables.eraseOwner sha256 pubkey).giveBack_frame _ pubkey).1
    have howners' : ((tables.eraseOwner sha256 pubkey).giveBack (uploadRow first).size pubkey).owners
        = tables.owners.erase (sha256, pubkey) :=
      ((tables.eraseOwner sha256 pubkey).giveBack_frame _ pubkey).2.1
    refine h.restrict (h.accounted.giveBack hlookup) ?_ ?_ ?_ ?_ ?_
    · refine h.users.debit record.size (fun other => other = pubkey)
        (db.lookup_users_giveBack (sha256, pubkey) record.size) ?_
      intro other
      rw [SqlTables.lookup_users_giveBack, h.size_uploadRow hfirst, ← hsize]
      rfl
    · intro other
      exact Or.inl (by rw [uploads_giveBack])
    · intro other
      rw [huploads', uploads_giveBack, h.uploads]
    · intro key found hfound
      rw [owners_giveBack, Assoc.lookup_erase_eq] at hfound
      split at hfound
      · cases hfound
      · exact hfound
    · intro key
      rw [howners', owners_giveBack, Assoc.lookup_erase_eq, Assoc.lookup_erase_eq, h.owners]
      split <;> rfl

/-- What is left of the ownerships and of the uploads when a hash is deleted. -/
theorem deleteUpload (h : SameTables db tables) (sha256 : String) :
    SameTables (db.deleteUpload sha256).2 (tables.deleteUpload sha256).2 := by
  cases hlookup : db.uploads.lookup sha256 with
  | none =>
    have hrow : tables.uploads.lookup sha256 = none := by rw [h.uploads, hlookup]; rfl
    rw [MemoryDatabase.deleteUpload, hlookup, SqlTables.deleteUpload, hrow]
    exact h.withUsers h.accounted (h.users.congr rfl rfl) rfl rfl rfl rfl
  | some first =>
    have hrow : tables.uploads.lookup sha256 = some (uploadRow first) := by
      rw [h.uploads, hlookup]
      rfl
    have hrecorded : sha256 ∈ db.uploads := AList.lookup_isSome.mp (by rw [hlookup]; rfl)
    obtain ⟨-, -, howners, huploads, -⟩ := deleteUpload_spec h.accounted hrecorded
    obtain ⟨huploads', howners', -⟩ := SqlTables.foldl_giveBack_frame (uploadRow first).size
      ((tables.ownerKeys sha256).map Prod.snd) (tables.eraseUpload sha256)
    have hrows : (tables.deleteUpload sha256).2.uploads = tables.uploads.erase sha256 := by
      rw [SqlTables.deleteUpload, hrow]
      exact huploads'
    have hkept : (tables.deleteUpload sha256).2.owners
        = Assoc.filterKeys (fun key => key.1 != sha256) tables.owners := by
      rw [SqlTables.deleteUpload, hrow]
      exact howners'
    have hmem : ∀ pubkey, pubkey ∈ (db.ownerKeys sha256).map Prod.snd
        ↔ pubkey ∈ (tables.ownerKeys sha256).map Prod.snd := by
      intro pubkey
      simp only [List.mem_map, ownerKeys, SqlTables.ownerKeys, List.mem_filter, ← AList.mem_keys,
        h.mem_owners]
    refine h.restrict (h.accounted.deleteUpload sha256) ?_ ?_ ?_ ?_ ?_
    · refine h.users.debit first.size
        (fun pubkey => pubkey ∈ (db.ownerKeys sha256).map Prod.snd) ?_ ?_
      · intro pubkey
        rw [MemoryDatabase.deleteUpload, hlookup]
        refine lookup_users_dropOwners (db.ownerKeys sha256)
          { db with uploads := db.uploads.erase sha256 } ?_ ?_ pubkey
        · exact nodup_ownerKeys _ sha256 db.owners.keys_nodup
        · intro key hkey
          obtain ⟨hmem, hhash⟩ := mem_ownerKeys.mp hkey
          obtain ⟨record, hrecord⟩ := Option.isSome_iff_exists.mp (AList.lookup_isSome.mpr hmem)
          obtain ⟨-, found, hfound, hsize, -⟩ := h.owner key record hrecord
          rw [hhash, hlookup] at hfound
          obtain rfl := Option.some.inj hfound
          exact ⟨record, hrecord, h.filed hrecord, hsize⟩
      · intro pubkey
        rw [SqlTables.deleteUpload, hrow, ← h.size_uploadRow hlookup]
        have hfold := SqlTables.lookup_users_foldl_giveBack (uploadRow first).size
          ((tables.ownerKeys sha256).map Prod.snd) (tables.eraseUpload sha256)
          (nodup_ownerKeys _ sha256 tables.owners.keys_nodup) pubkey
        simp only [← hmem] at hfold
        exact hfold
    · intro other
      rw [huploads]
      by_cases hother : other = sha256
      · subst hother
        refine Or.inr ⟨by simp, fun pubkey hpubkey => ?_⟩
        rw [← AList.lookup_isSome, howners, if_pos rfl] at hpubkey
        cases hpubkey
      · exact Or.inl (AList.lookup_erase_ne hother)
    · intro other
      rw [hrows, huploads, Assoc.lookup_erase_eq, Assoc.lookup_erase_eq, h.uploads]
      split <;> rfl
    · intro key record hrecord
      rw [howners] at hrecord
      split at hrecord
      · cases hrecord
      · exact hrecord
    · intro key
      rw [hkept, howners, Assoc.lookup_filterKeys, h.owners]
      by_cases hkey : key.1 = sha256 <;> simp [hkey]

end SameTables

end BlossomRs.Database

import BlossomRs.Database
import BlossomRs.Lib.Assoc
import BlossomRs.Lib.Runs

/-!
# Storage accounting

The in-memory database keeps ownership records and a byte count for each user in separate tables.
`Accounted` says how they fit together: a user's count is the total size of the records the user
owns, every record is filed under its own hash and owner, and an owned hash has an upload entry.

Subtraction in the source saturates.  In an accounted database it never has to, because what is
given back is part of the total.
-/

namespace BlossomRs.Database.MemoryDatabase

/-- The bytes a user is charged for: the sizes of all ownership records of that user. -/
def charged (db : MemoryDatabase) (pubkey : String) : Nat :=
  Assoc.weigh (fun entry => if entry.1.2 = pubkey then entry.2.size else 0) db.owners

/-- The tables fit together. -/
structure Accounted (db : MemoryDatabase) : Prop where
  used_eq : ∀ pubkey, (db.user pubkey).usedBytes = db.charged pubkey
  filed : ∀ key record, db.owners.lookup key = some record → key = (record.sha256, record.pubkey)
  recorded : ∀ key, key ∈ db.owners → key.1 ∈ db.uploads

variable {db : MemoryDatabase} {record : UploadRecord} {sha256 : String}

/-! ### The table of users -/

section Users

variable {pubkey : String} {f : UserRecord → UserRecord}

@[simp] theorem owners_modifyUser : (db.modifyUser pubkey f).owners = db.owners :=
  rfl

@[simp] theorem uploads_modifyUser : (db.modifyUser pubkey f).uploads = db.uploads :=
  rfl

theorem user_modifyUser (other : String) :
    (db.modifyUser pubkey f).user other
      = if other = pubkey then f (db.user pubkey) else db.user other := by
  rw [user, modifyUser, Assoc.lookup_insert_eq]
  split <;> rfl

@[simp] theorem owners_modifyExistingUser :
    (db.modifyExistingUser pubkey f).owners = db.owners := by
  unfold modifyExistingUser
  split <;> rfl

@[simp] theorem uploads_modifyExistingUser :
    (db.modifyExistingUser pubkey f).uploads = db.uploads := by
  unfold modifyExistingUser
  split <;> rfl

/-- A user without a record has no bytes to give back. -/
theorem used_giveBack (size : Nat) (other : String) :
    ((db.modifyExistingUser pubkey fun user =>
        { user with usedBytes := user.usedBytes - size }).user other).usedBytes
      = (db.user other).usedBytes - (if other = pubkey then size else 0) := by
  unfold modifyExistingUser
  split
  · rename_i record hrecord
    rcases eq_or_ne other pubkey with rfl | h <;> simp [user, *]
  · rename_i hnone
    rcases eq_or_ne other pubkey with rfl | h <;> simp [user, *, newUser]

end Users

/-- A database whose ownership records and uploads are unchanged, and whose users are charged as
before, stays accounted. -/
theorem Accounted.congr {db' : MemoryDatabase} (h : db.Accounted)
    (howners : db'.owners = db.owners) (huploads : db'.uploads = db.uploads)
    (hused : ∀ pubkey, (db'.user pubkey).usedBytes = (db.user pubkey).usedBytes) :
    db'.Accounted where
  used_eq pubkey := by rw [hused, h.used_eq, charged, charged, howners]
  filed key record hlookup := h.filed key record (howners ▸ hlookup)
  recorded key hkey := huploads ▸ h.recorded key (howners ▸ hkey)

theorem accounted_new : new.Accounted where
  used_eq _ := rfl
  filed key record hlookup := by simp [new] at hlookup
  recorded key hkey := by simp [new] at hkey

/-- Changes of a user's role or quota charge nothing. -/
theorem Accounted.modifyUser {db : MemoryDatabase} (h : db.Accounted) (pubkey : String)
    (f : UserRecord → UserRecord)
    (hf : (f (db.user pubkey)).usedBytes = (db.user pubkey).usedBytes) :
    (db.modifyUser pubkey f).Accounted := by
  refine h.congr rfl rfl ?_
  intro other
  rw [user_modifyUser]
  split
  · rename_i hother
    rw [hother, hf]
  · rfl

/-! ### Recording -/

/-- The record fits: no overflow, and within the quota if the user has one. -/
def Fits (db : MemoryDatabase) (record : UploadRecord) : Prop :=
  (db.user record.pubkey).usedBytes + record.size < 2 ^ 64
    ∧ ∀ limit, (db.user record.pubkey).quotaBytes = some limit →
      (db.user record.pubkey).usedBytes + record.size ≤ limit

/-- The database after a new ownership was recorded. -/
def addOwner (db : MemoryDatabase) (record : UploadRecord) : MemoryDatabase :=
  { db with
    uploads := match db.uploads.lookup record.sha256 with
      | some _ => db.uploads
      | none => db.uploads.insert record.sha256 record
    owners := db.owners.insert (record.sha256, record.pubkey) record }.modifyUser record.pubkey
      fun user => { user with usedBytes := user.usedBytes + record.size }

/-- The tests of `record_upload` on a new owner.  Creating the user first changes nothing, since the
user is written again when the record fits. -/
theorem recordUpload_of_notMem (howner : (record.sha256, record.pubkey) ∉ db.owners) :
    db.recordUpload record
      = if 2 ^ 64 ≤ (db.user record.pubkey).usedBytes + record.size then
          (.error (.internal "used byte count overflow"), db.modifyUser record.pubkey id)
        else if (db.user record.pubkey).quotaBytes.any
            (· < (db.user record.pubkey).usedBytes + record.size) then
          (.error (.quotaExceeded (db.user record.pubkey).usedBytes record.size
            ((db.user record.pubkey).quotaBytes.getD 0)), db.modifyUser record.pubkey id)
        else (.ok (), db.addOwner record) := by
  rw [recordUpload, if_neg howner]
  simp only [getOrCreateUser, addOwner, modifyUser, user, id, AList.lookup_insert,
    AList.insert_insert, Option.getD_some]
  rfl

/-- What `record_upload` does: nothing for a known owner, a new ownership where the record fits, and
at most a new user where it does not. -/
theorem recordUpload_cases (db : MemoryDatabase) (record : UploadRecord) :
    ((record.sha256, record.pubkey) ∈ db.owners ∧ db.recordUpload record = (.ok (), db))
      ∨ ((record.sha256, record.pubkey) ∉ db.owners ∧ db.Fits record
        ∧ db.recordUpload record = (.ok (), db.addOwner record))
      ∨ ((record.sha256, record.pubkey) ∉ db.owners ∧ ¬ db.Fits record
        ∧ ∃ e, db.recordUpload record = (.error e, db.modifyUser record.pubkey id)) := by
  by_cases howner : (record.sha256, record.pubkey) ∈ db.owners
  · exact Or.inl ⟨howner, by rw [recordUpload, if_pos howner]⟩
  refine Or.inr ?_
  rw [recordUpload_of_notMem howner]
  by_cases hoverflow : 2 ^ 64 ≤ (db.user record.pubkey).usedBytes + record.size
  · refine Or.inr ⟨howner, ?_, .internal "used byte count overflow", by rw [if_pos hoverflow]⟩
    intro hfits
    exact absurd hfits.1 (not_lt.mpr hoverflow)
  rw [if_neg hoverflow]
  by_cases hquota : (db.user record.pubkey).quotaBytes.any
      (· < (db.user record.pubkey).usedBytes + record.size) = true
  · refine Or.inr ⟨howner, ?_, _, if_pos hquota⟩
    obtain ⟨limit, hlimit, habove⟩ := (Option.any_eq_true _ _).mp hquota
    intro hfits
    exact absurd (hfits.2 limit hlimit) (not_le.mpr (by simpa using habove))
  · refine Or.inl ⟨howner, ⟨not_le.mp hoverflow, ?_⟩, if_neg hquota⟩
    intro limit hlimit
    simpa [hlimit] using hquota

theorem Accounted.addOwner (h : db.Accounted)
    (howner : (record.sha256, record.pubkey) ∉ db.owners) : (db.addOwner record).Accounted where
  used_eq pubkey := by
    have hcharged : (db.addOwner record).charged pubkey
        = (if record.pubkey = pubkey then record.size else 0) + db.charged pubkey :=
      Assoc.weigh_insert howner
    rw [hcharged, ← h.used_eq, MemoryDatabase.addOwner, user_modifyUser]
    by_cases hsame : pubkey = record.pubkey
    · subst hsame
      simp only [if_true]
      exact Nat.add_comm _ _
    · rw [if_neg hsame, if_neg (Ne.symm hsame), Nat.zero_add]
      rfl
  filed key := Assoc.forall_lookup_insert _ _ key h.filed rfl
  recorded key hkey := by
    have hold : key.1 ∈ db.uploads ∨ key.1 = record.sha256 := by
      rcases (AList.mem_insert _).mp hkey with rfl | hkey
      · exact Or.inr rfl
      · exact Or.inl (h.recorded key hkey)
    simp only [MemoryDatabase.addOwner, uploads_modifyUser]
    split
    · rename_i hknown
      refine hold.elim id ?_
      intro hsame
      rw [hsame, ← AList.lookup_isSome, hknown]
      rfl
    · rw [AList.mem_insert]
      exact hold.symm

theorem Accounted.recordUpload (h : db.Accounted) (record : UploadRecord) :
    (db.recordUpload record).2.Accounted := by
  rcases db.recordUpload_cases record with ⟨-, heq⟩ | ⟨hnew, -, heq⟩ | ⟨-, -, e, heq⟩
  · rwa [heq]
  · rw [heq]
    exact h.addOwner hnew
  · rw [heq]
    exact h.modifyUser _ _ rfl

/-! ### Deleting -/

/-- The database without one ownership, its bytes given back. -/
def giveBack (db : MemoryDatabase) (key : String × String) (size : Nat) : MemoryDatabase :=
  { db with owners := db.owners.erase key }.modifyExistingUser key.2 fun user =>
    { user with usedBytes := user.usedBytes - size }

section GiveBack

variable {key : String × String}

@[simp] theorem owners_giveBack (size : Nat) :
    (db.giveBack key size).owners = db.owners.erase key :=
  owners_modifyExistingUser

@[simp] theorem uploads_giveBack (size : Nat) : (db.giveBack key size).uploads = db.uploads :=
  uploads_modifyExistingUser

theorem used_giveBack_owner (size : Nat) (other : String) :
    ((db.giveBack key size).user other).usedBytes
      = (db.user other).usedBytes - (if other = key.2 then size else 0) :=
  used_giveBack size other

/-- Giving back what an owner was charged keeps the count exact. -/
theorem used_eq_giveBack (hlookup : db.owners.lookup key = some record)
    (hused : ∀ pubkey, (db.user pubkey).usedBytes = db.charged pubkey) (pubkey : String) :
    ((db.giveBack key record.size).user pubkey).usedBytes
      = (db.giveBack key record.size).charged pubkey := by
  have hcharged : db.charged pubkey
      = (if key.2 = pubkey then record.size else 0)
        + (db.giveBack key record.size).charged pubkey := by
    rw [charged, charged, owners_giveBack]
    exact Assoc.weigh_erase hlookup
  rw [used_giveBack_owner, hused, hcharged]
  by_cases hsame : pubkey = key.2
  · subst hsame
    simp
  · simp [hsame, Ne.symm hsame]

end GiveBack

/-- In an accounted database the record of an ownership names its owner, so dropping an ownership
gives the bytes back to the owner in the key. -/
theorem dropOwner_eq {key : String × String} (hfiled : key = (record.sha256, record.pubkey))
    (hlookup : db.owners.lookup key = some record) :
    db.dropOwner key = db.giveBack key record.size := by
  subst hfiled
  rw [dropOwner, hlookup]
  rfl

theorem deleteUploadOwner_of_lookup {pubkey : String}
    (hlookup : db.owners.lookup (sha256, pubkey) = some record) :
    db.deleteUploadOwner sha256 pubkey = (true, db.giveBack (sha256, pubkey) record.size) := by
  rw [deleteUploadOwner, hlookup]
  rfl

theorem deleteUploadOwner_of_notMem {pubkey : String}
    (h : (sha256, pubkey) ∉ db.owners) : db.deleteUploadOwner sha256 pubkey = (false, db) := by
  rw [deleteUploadOwner, AList.lookup_eq_none.mpr h]

theorem Accounted.giveBack (h : db.Accounted) {key : String × String}
    (hlookup : db.owners.lookup key = some record) :
    (db.giveBack key record.size).Accounted where
  used_eq := used_eq_giveBack hlookup h.used_eq
  filed other otherRecord hother :=
    Assoc.forall_lookup_erase _ _ other h.filed otherRecord (owners_giveBack _ ▸ hother)
  recorded other hother := by
    rw [uploads_giveBack]
    exact h.recorded other (AList.mem_erase.mp (owners_giveBack _ ▸ hother)).2

theorem Accounted.deleteUploadOwner (h : db.Accounted) (sha256 pubkey : String) :
    (db.deleteUploadOwner sha256 pubkey).2.Accounted := by
  cases hlookup : db.owners.lookup (sha256, pubkey) with
  | none =>
    rw [deleteUploadOwner_of_notMem (AList.lookup_eq_none.mp hlookup)]
    exact h
  | some record =>
    rw [deleteUploadOwner_of_lookup hlookup]
    exact h.giveBack hlookup

/-- The database without the given ownerships. -/
def dropOwners (db : MemoryDatabase) (keys : List (String × String)) : MemoryDatabase :=
  keys.foldl dropOwner db

/-- What dropping ownerships one after another amounts to, in an accounted table: the counts stay
exact and exactly the given keys are gone. -/
theorem dropOwners_spec (keys : List (String × String)) (db : MemoryDatabase)
    (hused : ∀ pubkey, (db.user pubkey).usedBytes = db.charged pubkey)
    (hfiled : ∀ key record, db.owners.lookup key = some record →
      key = (record.sha256, record.pubkey)) :
    (∀ pubkey, ((db.dropOwners keys).user pubkey).usedBytes = (db.dropOwners keys).charged pubkey)
      ∧ (∀ key, (db.dropOwners keys).owners.lookup key
        = if key ∈ keys then none else db.owners.lookup key)
      ∧ (db.dropOwners keys).uploads = db.uploads
      ∧ ∀ pubkey, (∀ key ∈ keys, key.2 ≠ pubkey) →
        ((db.dropOwners keys).user pubkey).usedBytes = (db.user pubkey).usedBytes := by
  induction keys generalizing db with
  | nil => exact ⟨hused, fun key => by simp [dropOwners], rfl, fun _ _ => rfl⟩
  | cons first rest ih =>
    have hfold : db.dropOwners (first :: rest) = (db.dropOwner first).dropOwners rest := rfl
    rw [hfold]
    cases hlookup : db.owners.lookup first with
    | none =>
      -- a key that is gone already: nothing to give back
      have hsame : db.dropOwner first = db := by rw [dropOwner, hlookup]
      obtain ⟨husedRest, hlookups, huploads, hothers⟩ := ih db hused hfiled
      rw [hsame]
      refine ⟨husedRest, fun key => ?_, huploads, fun pubkey hne => ?_⟩
      · rw [hlookups]
        rcases eq_or_ne key first with rfl | hkey <;> simp [*]
      · exact hothers pubkey fun key hkey => hne key (List.mem_cons_of_mem _ hkey)
    | some record =>
      rw [dropOwner_eq (hfiled first record hlookup) hlookup]
      have hfiledRest : ∀ key other, (db.giveBack first record.size).owners.lookup key
          = some other → key = (other.sha256, other.pubkey) := by
        rw [owners_giveBack]
        exact fun key => Assoc.forall_lookup_erase _ _ key hfiled
      obtain ⟨husedRest, hlookups, huploads, hothers⟩ :=
        ih (db.giveBack first record.size) (used_eq_giveBack hlookup hused) hfiledRest
      refine ⟨husedRest, fun key => ?_, by rw [huploads, uploads_giveBack], fun pubkey hne => ?_⟩
      · rw [hlookups, owners_giveBack]
        by_cases hkey : key = first <;> simp [hkey, Assoc.lookup_erase_eq]
      · rw [hothers pubkey fun key hkey => hne key (List.mem_cons_of_mem _ hkey),
          used_giveBack_owner, if_neg (Ne.symm (hne first List.mem_cons_self)), Nat.sub_zero]

theorem mem_ownerKeys {key : String × String} :
    key ∈ db.ownerKeys sha256 ↔ key ∈ db.owners ∧ key.1 = sha256 := by
  rw [ownerKeys, List.mem_filter, AList.mem_keys, beq_iff_eq]

/-- What `delete_upload` does to a recorded hash in an accounted database. -/
theorem deleteUpload_spec (h : db.Accounted) (hrecorded : sha256 ∈ db.uploads) :
    (db.deleteUpload sha256).1 = true
      ∧ (∀ pubkey, ((db.deleteUpload sha256).2.user pubkey).usedBytes
        = (db.deleteUpload sha256).2.charged pubkey)
      ∧ (∀ key, (db.deleteUpload sha256).2.owners.lookup key
        = if key.1 = sha256 then none else db.owners.lookup key)
      ∧ (db.deleteUpload sha256).2.uploads = db.uploads.erase sha256
      ∧ ∀ pubkey, (sha256, pubkey) ∉ db.owners →
        ((db.deleteUpload sha256).2.user pubkey).usedBytes = (db.user pubkey).usedBytes := by
  obtain ⟨upload, hupload⟩ := Option.isSome_iff_exists.mp (AList.lookup_isSome.mpr hrecorded)
  obtain ⟨hused, hlookups, huploads, hothers⟩ := dropOwners_spec (db.ownerKeys sha256)
    { db with uploads := db.uploads.erase sha256 } h.used_eq h.filed
  rw [deleteUpload, hupload]
  refine ⟨rfl, hused, fun key => ?_, huploads, fun pubkey hnot => hothers pubkey ?_⟩
  · refine (hlookups key).trans ?_
    by_cases hkey : key.1 = sha256
    · rw [if_pos hkey]
      by_cases hmem : key ∈ db.owners
      · rw [if_pos (mem_ownerKeys.mpr ⟨hmem, hkey⟩)]
      · rw [if_neg fun hkeys => hmem (mem_ownerKeys.mp hkeys).1]
        exact AList.lookup_eq_none.mpr hmem
    · rw [if_neg hkey, if_neg fun hkeys => hkey (mem_ownerKeys.mp hkeys).2]
  · intro key hkey hsame
    obtain ⟨hmem, hhash⟩ := mem_ownerKeys.mp hkey
    have hpair : key = (sha256, pubkey) := Prod.ext hhash hsame
    exact hnot (hpair ▸ hmem)

theorem deleteUpload_of_notMem (h : sha256 ∉ db.uploads) :
    db.deleteUpload sha256 = (false, db) := by
  rw [deleteUpload, AList.lookup_eq_none.mpr h]

theorem Accounted.deleteUpload (h : db.Accounted) (sha256 : String) :
    (db.deleteUpload sha256).2.Accounted := by
  by_cases hrecorded : sha256 ∈ db.uploads
  · obtain ⟨-, hused, hlookups, huploads, -⟩ := deleteUpload_spec h hrecorded
    refine ⟨hused, fun key record hlookup => ?_, fun key hkey => ?_⟩
    · rw [hlookups] at hlookup
      split at hlookup
      · cases hlookup
      · exact h.filed key record hlookup
    · rw [← AList.lookup_isSome, hlookups] at hkey
      split at hkey
      · cases hkey
      · rename_i hother
        rw [huploads, AList.mem_erase]
        exact ⟨hother, h.recorded key (AList.lookup_isSome.mp hkey)⟩
  · rw [deleteUpload_of_notMem hrecorded]
    exact h

/-! ### Runs -/

/-- The calls that change ownership or users. -/
inductive Operation where
  | recordUpload (record : UploadRecord)
  | deleteUpload (sha256 : String)
  | deleteUploadOwner (sha256 pubkey : String)
  | getOrCreateUser (pubkey : String)
  | setQuota (pubkey : String) (quotaBytes : Option Nat)
  | setRole (pubkey role : String)

/-- The database after a call. -/
def perform (db : MemoryDatabase) : Operation → MemoryDatabase
  | .recordUpload record => (BlobDatabase.recordUpload db record).2
  | .deleteUpload sha256 => (BlobDatabase.deleteUpload db sha256).2
  | .deleteUploadOwner sha256 pubkey => (BlobDatabase.deleteUploadOwner db sha256 pubkey).2
  | .getOrCreateUser pubkey => (BlobDatabase.getOrCreateUser db pubkey).2
  | .setQuota pubkey quotaBytes => (BlobDatabase.setQuota db pubkey quotaBytes).2
  | .setRole pubkey role => (BlobDatabase.setRole db pubkey role).2

theorem Accounted.perform (h : db.Accounted) (operation : Operation) :
    (db.perform operation).Accounted := by
  cases operation with
  | recordUpload record => exact h.recordUpload record
  | deleteUpload sha256 => exact h.deleteUpload sha256
  | deleteUploadOwner sha256 pubkey => exact h.deleteUploadOwner sha256 pubkey
  | getOrCreateUser pubkey => exact h.modifyUser pubkey id rfl
  | setQuota pubkey quotaBytes =>
    exact h.modifyUser pubkey (fun user => { user with quotaBytes := quotaBytes }) rfl
  | setRole pubkey role => exact h.modifyUser pubkey (fun user => { user with role := role }) rfl

/-- A new database after some calls. -/
def after (operations : List Operation) : MemoryDatabase :=
  Runs.run perform new operations

theorem accounted_after (operations : List Operation) : (after operations).Accounted := by
  refine Runs.run_invariant (P := fun _ => Accounted) accounted_new ?_ operations []
    (List.append_nil _).symm
  intro _ operation _ _ h
  exact h.perform operation

theorem not_fits_iff :
    ¬ db.Fits record ↔ 2 ^ 64 ≤ (db.user record.pubkey).usedBytes + record.size
      ∨ ∃ limit, (db.user record.pubkey).quotaBytes = some limit
        ∧ limit < (db.user record.pubkey).usedBytes + record.size := by
  rw [Fits, not_and_or, not_lt]
  push Not
  rfl

/-- **Accounting.**  After any sequence of calls a user's byte count is the total size of the user's
ownership records, and every ownership has its upload entry; the quota test of the next upload is
exact, and an upload that fails it changes neither table nor any count. -/
theorem accounting_exact (operations : List Operation) :
    (∀ pubkey user, (after operations).users.lookup pubkey = some user →
        user.usedBytes = (after operations).charged pubkey)
      ∧ (∀ sha256 pubkey, (sha256, pubkey) ∈ (after operations).owners →
        sha256 ∈ (after operations).uploads)
      ∧ ∀ record : UploadRecord,
        ((BlobDatabase.recordUpload (after operations) record).1.isOk = false
          ↔ (record.sha256, record.pubkey) ∉ (after operations).owners
            ∧ (2 ^ 64 ≤ ((after operations).user record.pubkey).usedBytes + record.size
              ∨ ∃ limit, ((after operations).user record.pubkey).quotaBytes = some limit
                ∧ limit < ((after operations).user record.pubkey).usedBytes + record.size))
        ∧ ((BlobDatabase.recordUpload (after operations) record).1.isOk = false →
          (BlobDatabase.recordUpload (after operations) record).2.uploads
            = (after operations).uploads
          ∧ (BlobDatabase.recordUpload (after operations) record).2.owners
            = (after operations).owners
          ∧ ∀ pubkey, ((BlobDatabase.recordUpload (after operations) record).2.user pubkey).usedBytes
            = ((after operations).user pubkey).usedBytes) := by
  have h := accounted_after operations
  generalize after operations = db at h
  refine ⟨?_, fun sha256 pubkey hkey => h.recorded _ hkey, ?_⟩
  · intro pubkey user hlookup
    rw [← h.used_eq, MemoryDatabase.user, hlookup]
    rfl
  · intro record
    have hcall : BlobDatabase.recordUpload db record = db.recordUpload record := rfl
    rw [← not_fits_iff, hcall]
    rcases db.recordUpload_cases record with ⟨howner, heq⟩ | ⟨-, hfits, heq⟩ | ⟨hnew, hnot, e, heq⟩
    · rw [heq]
      simp [Except.isOk, Except.toBool, howner]
    · rw [heq]
      simp [Except.isOk, Except.toBool, hfits]
    · rw [heq]
      refine ⟨iff_of_true rfl ⟨hnew, hnot⟩, fun _ => ⟨rfl, rfl, fun pubkey => ?_⟩⟩
      rw [user_modifyUser]
      split
      · rename_i hsame
        rw [hsame]
        rfl
      · rfl

end BlossomRs.Database.MemoryDatabase

import BlossomRs.Lib.Assoc
import Mathlib.Data.List.Sort
import BlossomRs.Protocol

/-!
# Metadata databases

Upload records, ownership, users with quotas and roles, and access statistics.  `BlobDatabase` is
the interface the handlers use; `MemoryDatabase` is the in-memory implementation.

A hash map is an association list here.  Where the source iterates over a map, the order of the
association list stands for the unspecified order of the map.
-/

namespace BlossomRs.Database

/-- Metadata of one uploaded blob. -/
structure UploadRecord where
  sha256 : String
  size : Nat
  mimeType : String
  pubkey : String
  createdAt : Nat
  phash : Option Nat
deriving DecidableEq, Repr

/-- A user's role and quota. -/
structure UserRecord where
  pubkey : String
  role : String
  quotaBytes : Option Nat
  usedBytes : Nat
deriving DecidableEq, Repr

/-- Access statistics of one blob. -/
structure FileStats where
  sha256 : String
  egressBytes : Nat
  lastAccessed : Nat
deriving DecidableEq, Repr

inductive DbError where
  | quotaExceeded (used requested limit : Nat)
  | notFound
  | internal (detail : String)
deriving DecidableEq, Repr

/-- The text of an error, as it is put in a response. -/
def DbError.message : DbError → String
  | .quotaExceeded used requested limit =>
    "quota exceeded: used " ++ toString used ++ " + " ++ toString requested ++ " > limit "
      ++ toString limit
  | .notFound => "not found"
  | .internal detail => "database error: " ++ detail

/-- The metadata interface.  `now` is the clock reading of a call that stores one. -/
class BlobDatabase (δ : Type) where
  recordUpload (db : δ) (record : UploadRecord) : Except DbError Unit × δ
  getUpload (db : δ) (sha256 : String) : Except DbError UploadRecord
  listUploadsByPubkey (db : δ) (pubkey : String) : Except DbError (List UploadRecord)
  deleteUpload (db : δ) (sha256 : String) : Except DbError Bool × δ
  isUploadOwner (db : δ) (sha256 pubkey : String) : Except DbError Bool
  uploadOwnerCount (db : δ) (sha256 : String) : Except DbError Nat
  deleteUploadOwner (db : δ) (sha256 pubkey : String) : Except DbError Bool × δ
  getOrCreateUser (db : δ) (pubkey : String) : Except DbError UserRecord × δ
  setQuota (db : δ) (pubkey : String) (quotaBytes : Option Nat) : Except DbError Unit × δ
  checkQuota (db : δ) (pubkey : String) (additionalBytes : Nat) : Except DbError Unit
  updateUsedBytes (db : δ) (pubkey : String) (usedBytes : Nat) : Except DbError Unit × δ
  recordAccess (db : δ) (sha256 : String) (bytesServed now : Nat) : Except DbError Unit × δ
  getStats (db : δ) (sha256 : String) : Except DbError FileStats
  uploadCount (db : δ) : Nat
  userCount (db : δ) : Nat
  setRole (db : δ) (pubkey role : String) : Except DbError Unit × δ
  getRole (db : δ) (pubkey : String) : String
  listUsersByRole (db : δ) (role : String) : Except DbError (List UserRecord)

/-- In-memory metadata.  `uploads` keeps the first record of each hash, `owners` one record for
each hash and owner. -/
structure MemoryDatabase where
  uploads : AList fun _ : String => UploadRecord
  owners : AList fun _ : String × String => UploadRecord
  users : AList fun _ : String => UserRecord
  stats : AList fun _ : String => FileStats

namespace MemoryDatabase

/-- `MemoryDatabase::new`. -/
def new : MemoryDatabase where
  uploads := ∅
  owners := ∅
  users := ∅
  stats := ∅

/-- The record a user gets when first named. -/
def newUser (pubkey : String) : UserRecord where
  pubkey := pubkey
  role := "member"
  quotaBytes := none
  usedBytes := 0

/-- The user's record, with the defaults of a new one. -/
def user (db : MemoryDatabase) (pubkey : String) : UserRecord :=
  (db.users.lookup pubkey).getD (newUser pubkey)

/-- Change a user's record, creating it first when there is none. -/
def modifyUser (db : MemoryDatabase) (pubkey : String) (f : UserRecord → UserRecord) :
    MemoryDatabase :=
  { db with users := db.users.insert pubkey (f (db.user pubkey)) }

/-- Change a user's record when there is one. -/
def modifyExistingUser (db : MemoryDatabase) (pubkey : String) (f : UserRecord → UserRecord) :
    MemoryDatabase :=
  match db.users.lookup pubkey with
  | some record => { db with users := db.users.insert pubkey (f record) }
  | none => db

/-- `get_or_create_user`. -/
def getOrCreateUser (db : MemoryDatabase) (pubkey : String) : UserRecord × MemoryDatabase :=
  (db.user pubkey, db.modifyUser pubkey id)

/-- `record_upload`. -/
def recordUpload (db : MemoryDatabase) (record : UploadRecord) :
    Except DbError Unit × MemoryDatabase :=
  if (record.sha256, record.pubkey) ∈ db.owners then (.ok (), db)
  else
    let (user, db) := db.getOrCreateUser record.pubkey
    let newUsed := user.usedBytes + record.size
    if 2 ^ 64 ≤ newUsed then (.error (.internal "used byte count overflow"), db)
    else if user.quotaBytes.any (· < newUsed) then
      (.error (.quotaExceeded user.usedBytes record.size (user.quotaBytes.getD 0)), db)
    else
      let db := { db with
        uploads := match db.uploads.lookup record.sha256 with
          | some _ => db.uploads
          | none => db.uploads.insert record.sha256 record
        owners := db.owners.insert (record.sha256, record.pubkey) record }
      (.ok (), db.modifyUser record.pubkey fun user => { user with usedBytes := newUsed })

/-- Give back the bytes one owner was charged for a hash, and drop the ownership. -/
def dropOwner (db : MemoryDatabase) (key : String × String) : MemoryDatabase :=
  match db.owners.lookup key with
  | some record =>
    { db with owners := db.owners.erase key }.modifyExistingUser record.pubkey fun user =>
      { user with usedBytes := user.usedBytes - record.size }
  | none => db

/-- The ownership keys of a hash. -/
def ownerKeys (db : MemoryDatabase) (sha256 : String) : List (String × String) :=
  db.owners.keys.filter fun key => key.1 == sha256

/-- `delete_upload`. -/
def deleteUpload (db : MemoryDatabase) (sha256 : String) : Bool × MemoryDatabase :=
  match db.uploads.lookup sha256 with
  | some _ =>
    let keys := db.ownerKeys sha256
    let db := keys.foldl dropOwner { db with uploads := db.uploads.erase sha256 }
    (true, { db with stats := db.stats.erase sha256 })
  | none => (false, db)

/-- `delete_upload_owner`.  The debited user is the one named in the call. -/
def deleteUploadOwner (db : MemoryDatabase) (sha256 pubkey : String) : Bool × MemoryDatabase :=
  match db.owners.lookup (sha256, pubkey) with
  | some record =>
    (true, { db with owners := db.owners.erase (sha256, pubkey) }.modifyExistingUser pubkey
      fun user => { user with usedBytes := user.usedBytes - record.size })
  | none => (false, db)

/-- `check_quota`. -/
def checkQuota (db : MemoryDatabase) (pubkey : String) (additionalBytes : Nat) :
    Except DbError Unit :=
  match db.users.lookup pubkey with
  | some ⟨_, _, some limit, used⟩ =>
    if 2 ^ 64 ≤ used + additionalBytes ∨ limit < used + additionalBytes then
      .error (.quotaExceeded used additionalBytes limit)
    else .ok ()
  | _ => .ok ()

/-- `list_uploads_by_pubkey`: newest first. -/
def listUploadsByPubkey (db : MemoryDatabase) (pubkey : String) : List UploadRecord :=
  ((db.owners.entries.map fun entry => entry.2).filter (·.pubkey == pubkey)).insertionSort
    fun a b => b.createdAt ≤ a.createdAt

/-- `record_access`. -/
def recordAccess (db : MemoryDatabase) (sha256 : String) (bytesServed now : Nat) :
    MemoryDatabase :=
  let current := (db.stats.lookup sha256).getD ⟨sha256, 0, 0⟩
  let updated := { current with
    egressBytes := current.egressBytes + bytesServed
    lastAccessed := now }
  { db with stats := db.stats.insert sha256 updated }

instance : BlobDatabase MemoryDatabase where
  recordUpload := recordUpload
  getUpload db sha256 := (db.uploads.lookup sha256).elim (.error .notFound) .ok
  listUploadsByPubkey db pubkey := .ok (db.listUploadsByPubkey pubkey)
  deleteUpload db sha256 :=
    let (existed, db) := db.deleteUpload sha256
    (.ok existed, db)
  isUploadOwner db sha256 pubkey := .ok (decide ((sha256, pubkey) ∈ db.owners))
  uploadOwnerCount db sha256 := .ok (db.ownerKeys sha256).length
  deleteUploadOwner db sha256 pubkey :=
    let (existed, db) := db.deleteUploadOwner sha256 pubkey
    (.ok existed, db)
  getOrCreateUser db pubkey :=
    let (user, db) := db.getOrCreateUser pubkey
    (.ok user, db)
  setQuota db pubkey quotaBytes :=
    (.ok (), db.modifyUser pubkey fun user => { user with quotaBytes := quotaBytes })
  checkQuota := checkQuota
  updateUsedBytes db pubkey usedBytes :=
    (.ok (), db.modifyUser pubkey fun user => { user with usedBytes := usedBytes })
  recordAccess db sha256 bytesServed now := (.ok (), db.recordAccess sha256 bytesServed now)
  getStats db sha256 := (db.stats.lookup sha256).elim (.error .notFound) .ok
  uploadCount db := db.uploads.keys.length
  userCount db := db.users.keys.length
  setRole db pubkey role :=
    (.ok (), db.modifyUser pubkey fun user => { user with role := role })
  getRole db pubkey := ((db.users.lookup pubkey).map (·.role)).getD "member"
  listUsersByRole db role :=
    .ok ((db.users.entries.map fun entry => entry.2).filter (·.role == role))

/-! ### Databases without quotas -/

/-- No user has a quota, and none has been charged more than so many bytes. -/
def Roomy (db : MemoryDatabase) (used : Nat) : Prop :=
  ∀ pubkey user, db.users.lookup pubkey = some user →
    user.quotaBytes = none ∧ user.usedBytes ≤ used

theorem roomy_new (used : Nat) : new.Roomy used := by
  intro pubkey user h
  simp [new] at h

variable {db : MemoryDatabase} {used : Nat}

section

variable (h : db.Roomy used) (pubkey : String)
include h

theorem checkQuota_of_roomy (additionalBytes : Nat) :
    db.checkQuota pubkey additionalBytes = .ok () := by
  unfold checkQuota
  split
  · rename_i hlookup
    exact nomatch (h _ _ hlookup).1
  · rfl

theorem user_of_roomy :
    (db.user pubkey).quotaBytes = none ∧ (db.user pubkey).usedBytes ≤ used := by
  unfold user
  cases hlookup : db.users.lookup pubkey with
  | none => exact ⟨rfl, Nat.zero_le _⟩
  | some user => exact h pubkey user hlookup

theorem roomy_modifyUser {f : UserRecord → UserRecord}
    (hf : (f (db.user pubkey)).quotaBytes = none ∧ (f (db.user pubkey)).usedBytes ≤ used) :
    (db.modifyUser pubkey f).Roomy used :=
  fun other => Assoc.forall_lookup_insert _ _ other h hf

end

/-- Without quotas an upload is recorded, until the byte count overflows. -/
theorem recordUpload_of_roomy (h : db.Roomy used) (record : UploadRecord)
    (hroom : used + record.size < 2 ^ 64) :
    (db.recordUpload record).1 = .ok ()
      ∧ (db.recordUpload record).2.Roomy (used + record.size) := by
  have hmore : db.Roomy (used + record.size) := fun pubkey user hlookup =>
    ⟨(h pubkey user hlookup).1, le_trans (h pubkey user hlookup).2 (Nat.le_add_right _ _)⟩
  obtain ⟨hquota, hused⟩ := user_of_roomy h record.pubkey
  have hfits : ¬ 2 ^ 64 ≤ (db.user record.pubkey).usedBytes + record.size := by omega
  unfold recordUpload
  split
  · exact ⟨rfl, hmore⟩
  · simp only [getOrCreateUser, if_neg hfits, hquota, Option.any_none, Bool.false_eq_true, if_false]
    have hcreated : (db.modifyUser record.pubkey id).Roomy (used + record.size) :=
      roomy_modifyUser hmore _ ⟨hquota, by simp only [id]; omega⟩
    refine ⟨trivial, roomy_modifyUser ?_ _ ⟨?_, ?_⟩⟩
    · exact hcreated
    · exact (user_of_roomy hcreated record.pubkey).1
    · simpa using hused

end MemoryDatabase

end BlossomRs.Database

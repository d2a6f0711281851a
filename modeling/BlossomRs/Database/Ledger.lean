import BlossomRs.Database.Accounting

/-!
# What a metadata database says

`Ledger` is a metadata database as its readers see it: the record of each hash, the set of its owners,
and the bytes and the quota of each user.  `LawfulBlobDatabase` says what the calls of the handlers do
to the ledger when they succeed, and that a call that fails leaves it as it was.

The in-memory database is lawful.
-/

namespace BlossomRs.Database

open BlobDatabase

/-- Upload records, owners, byte counts and quotas. -/
@[ext]
structure Ledger where
  uploads : String → Option UploadRecord
  owners : String → Finset String
  used : String → Nat
  quota : String → Option Nat

/-- A database whose ledger changes as its calls report. -/
class LawfulBlobDatabase (δ : Type) [BlobDatabase δ] where
  ledger : δ → Ledger
  isUploadOwner_eq {db : δ} {hash pubkey : String} {owner : Bool}
    (h : isUploadOwner db hash pubkey = .ok owner) :
    owner = decide (pubkey ∈ (ledger db).owners hash)
  uploadOwnerCount_eq {db : δ} {hash : String} {count : Nat}
    (h : uploadOwnerCount db hash = .ok count) : count = ((ledger db).owners hash).card
  recordUpload_ok {db db' : δ} {record : UploadRecord}
    (h : recordUpload db record = (.ok (), db')) :
    (ledger db').owners = Function.update (ledger db).owners record.sha256
        (insert record.pubkey ((ledger db).owners record.sha256))
      ∧ (record.pubkey ∉ (ledger db).owners record.sha256 →
        ((ledger db').uploads record.sha256).isSome)
      ∧ (∀ other, other ≠ record.sha256 ∨ ((ledger db).uploads other).isSome →
        (ledger db').uploads other = (ledger db).uploads other)
      ∧ (ledger db').quota = (ledger db).quota
  deleteUpload_ok {db db' : δ} {hash : String} {existed : Bool}
    (h : deleteUpload db hash = (.ok existed, db')) :
    (ledger db').uploads = Function.update (ledger db).uploads hash none
      ∧ (ledger db').owners = (if ((ledger db).uploads hash).isSome then
          Function.update (ledger db).owners hash ∅ else (ledger db).owners)
      ∧ (ledger db').quota = (ledger db).quota
  deleteUploadOwner_ok {db db' : δ} {hash pubkey : String} {existed : Bool}
    (h : deleteUploadOwner db hash pubkey = (.ok existed, db')) :
    (ledger db').owners = Function.update (ledger db).owners hash
        (((ledger db).owners hash).erase pubkey)
      ∧ (ledger db').uploads = (ledger db).uploads
      ∧ (∀ other, other ≠ pubkey → (ledger db').used other = (ledger db).used other)
      ∧ (ledger db').quota = (ledger db).quota
  setQuota_ok {db db' : δ} {pubkey : String} {quotaBytes : Option Nat}
    (h : setQuota db pubkey quotaBytes = (.ok (), db')) :
    ledger db' = { ledger db with quota := Function.update (ledger db).quota pubkey quotaBytes }
  recordUpload_error {db db' : δ} {record : UploadRecord} {e : DbError}
    (h : recordUpload db record = (.error e, db')) : ledger db' = ledger db
  deleteUpload_error {db db' : δ} {hash : String} {e : DbError}
    (h : deleteUpload db hash = (.error e, db')) : ledger db' = ledger db
  deleteUploadOwner_error {db db' : δ} {hash pubkey : String} {e : DbError}
    (h : deleteUploadOwner db hash pubkey = (.error e, db')) : ledger db' = ledger db
  setQuota_error {db db' : δ} {pubkey : String} {quotaBytes : Option Nat} {e : DbError}
    (h : setQuota db pubkey quotaBytes = (.error e, db')) : ledger db' = ledger db
  setRole_eq (db : δ) (pubkey role : String) : ledger (setRole db pubkey role).2 = ledger db
  getOrCreateUser_eq (db : δ) (pubkey : String) : ledger (getOrCreateUser db pubkey).2 = ledger db
  recordAccess_eq (db : δ) (hash : String) (bytesServed now : Nat) :
    ledger (recordAccess db hash bytesServed now).2 = ledger db

/-! ### The in-memory database -/

namespace MemoryDatabase

/-- The tables as a ledger. -/
def toLedger (db : MemoryDatabase) : Ledger where
  uploads hash := db.uploads.lookup hash
  owners := Assoc.fibre db.owners
  used pubkey := (db.user pubkey).usedBytes
  quota pubkey := (db.user pubkey).quotaBytes

variable {db : MemoryDatabase}

/-- Databases that agree on what the ledger shows have the same ledger. -/
theorem toLedger_congr {db' : MemoryDatabase} (huploads : db'.uploads = db.uploads)
    (howners : db'.owners = db.owners)
    (husers : ∀ pubkey, (db'.user pubkey).usedBytes = (db.user pubkey).usedBytes
      ∧ (db'.user pubkey).quotaBytes = (db.user pubkey).quotaBytes) :
    db'.toLedger = db.toLedger := by
  simp only [toLedger, huploads, howners, husers]

theorem toLedger_modifyUser (db : MemoryDatabase) (pubkey : String) (f : UserRecord → UserRecord)
    (hused : (f (db.user pubkey)).usedBytes = (db.user pubkey).usedBytes)
    (hquota : (f (db.user pubkey)).quotaBytes = (db.user pubkey).quotaBytes) :
    (db.modifyUser pubkey f).toLedger = db.toLedger := by
  refine toLedger_congr rfl rfl ?_
  intro other
  rw [user_modifyUser]
  split
  · rename_i hother
    rw [hother]
    exact ⟨hused, hquota⟩
  · exact ⟨rfl, rfl⟩

/-- Giving bytes back changes no quota. -/
theorem quota_modifyExistingUser (db : MemoryDatabase) (pubkey other : String)
    {f : UserRecord → UserRecord} (hf : ∀ user, (f user).quotaBytes = user.quotaBytes) :
    ((db.modifyExistingUser pubkey f).user other).quotaBytes = (db.user other).quotaBytes := by
  unfold modifyExistingUser
  split
  · rename_i record hrecord
    rcases eq_or_ne other pubkey with rfl | h <;> simp [user, *]
  · rfl

theorem dropOwner_frame (db : MemoryDatabase) (key : String × String) :
    (db.dropOwner key).uploads = db.uploads
      ∧ (∀ other, other ∈ (db.dropOwner key).owners ↔ other ≠ key ∧ other ∈ db.owners)
      ∧ ∀ pubkey, ((db.dropOwner key).user pubkey).quotaBytes = (db.user pubkey).quotaBytes := by
  unfold dropOwner
  split
  · refine ⟨by simp, ?_, ?_⟩
    · intro other
      simp [AList.mem_erase]
    · intro pubkey
      exact quota_modifyExistingUser _ _ _ fun _ => rfl
  · rename_i hnone
    refine ⟨rfl, ?_, fun _ => rfl⟩
    intro other
    have hkey : key ∉ db.owners := AList.lookup_eq_none.mp hnone
    exact ⟨fun h => ⟨fun heq => hkey (heq ▸ h), h⟩, fun h => h.2⟩

theorem dropOwners_frame (keys : List (String × String)) (db : MemoryDatabase) :
    (db.dropOwners keys).uploads = db.uploads
      ∧ (∀ other, other ∈ (db.dropOwners keys).owners ↔ other ∉ keys ∧ other ∈ db.owners)
      ∧ ∀ pubkey, ((db.dropOwners keys).user pubkey).quotaBytes = (db.user pubkey).quotaBytes := by
  induction keys generalizing db with
  | nil => simp [dropOwners]
  | cons key keys ih =>
    obtain ⟨huploads, howners, hquota⟩ := ih (db.dropOwner key)
    obtain ⟨huploads', howners', hquota'⟩ := dropOwner_frame db key
    refine ⟨huploads.trans huploads', ?_, fun pubkey => (hquota pubkey).trans (hquota' pubkey)⟩
    intro other
    refine (howners other).trans ?_
    rw [howners', List.mem_cons]
    tauto

/-- Recording for an owner changes nothing. -/
theorem owners_insert_self {hash pubkey : String} (howner : (hash, pubkey) ∈ db.owners) :
    Function.update db.toLedger.owners hash (insert pubkey (db.toLedger.owners hash))
      = db.toLedger.owners := by
  have hmem : pubkey ∈ db.toLedger.owners hash := Assoc.mem_fibre.mpr howner
  rw [Finset.insert_eq_of_mem hmem, Function.update_eq_self]

theorem owners_addOwner (db : MemoryDatabase) (record : UploadRecord) :
    (db.addOwner record).toLedger.owners = Function.update db.toLedger.owners record.sha256
      (insert record.pubkey (db.toLedger.owners record.sha256)) :=
  Assoc.fibre_insert record

theorem uploads_addOwner (db : MemoryDatabase) (record : UploadRecord) :
    ((db.addOwner record).uploads.lookup record.sha256).isSome
      ∧ ∀ other, other ≠ record.sha256 ∨ (db.uploads.lookup other).isSome →
        (db.addOwner record).uploads.lookup other = db.uploads.lookup other := by
  simp only [addOwner, uploads_modifyUser]
  cases hknown : db.uploads.lookup record.sha256 with
  | some upload => exact ⟨by rw [hknown]; rfl, fun _ _ => rfl⟩
  | none =>
    refine ⟨by rw [AList.lookup_insert]; rfl, ?_⟩
    intro other hother
    have hne : other ≠ record.sha256 := by
      rintro rfl
      simp [hknown] at hother
    exact AList.lookup_insert_ne hne

theorem quota_addOwner (db : MemoryDatabase) (record : UploadRecord) :
    (db.addOwner record).toLedger.quota = db.toLedger.quota := by
  funext pubkey
  simp only [toLedger, addOwner, user_modifyUser]
  split
  · rename_i hsame
    rw [hsame]
    rfl
  · rfl

theorem owners_deleteUpload {hash : String} (h : hash ∈ db.uploads) :
    (db.deleteUpload hash).2.toLedger.owners = Function.update db.toLedger.owners hash ∅ := by
  obtain ⟨upload, hupload⟩ := Option.isSome_iff_exists.mp (AList.lookup_isSome.mpr h)
  obtain ⟨-, howners, -⟩ := dropOwners_frame (db.ownerKeys hash)
    { db with uploads := db.uploads.erase hash }
  rw [deleteUpload, hupload]
  apply Assoc.fibre_eq_update_empty
  intro key
  refine (howners key).trans ?_
  rw [mem_ownerKeys]
  tauto

theorem ledger_deleteUpload (db : MemoryDatabase) (hash : String) :
    (db.deleteUpload hash).2.toLedger.uploads = Function.update db.toLedger.uploads hash none
      ∧ (db.deleteUpload hash).2.toLedger.owners = (if (db.toLedger.uploads hash).isSome then
          Function.update db.toLedger.owners hash ∅ else db.toLedger.owners)
      ∧ (db.deleteUpload hash).2.toLedger.quota = db.toLedger.quota := by
  by_cases hrecorded : hash ∈ db.uploads
  · have hsome : (db.toLedger.uploads hash).isSome := AList.lookup_isSome.mpr hrecorded
    obtain ⟨upload, hupload⟩ := Option.isSome_iff_exists.mp (AList.lookup_isSome.mpr hrecorded)
    obtain ⟨huploads, -, hquota⟩ := dropOwners_frame (db.ownerKeys hash)
      { db with uploads := db.uploads.erase hash }
    rw [if_pos hsome]
    refine ⟨?_, owners_deleteUpload hrecorded, ?_⟩
    · rw [deleteUpload, hupload]
      funext other
      refine (congrArg (AList.lookup other) huploads).trans ?_
      rw [Assoc.lookup_erase_eq, Function.update_apply]
      rfl
    · rw [deleteUpload, hupload]
      exact funext hquota
  · have hnone : db.toLedger.uploads hash = none := AList.lookup_eq_none.mpr hrecorded
    rw [deleteUpload_of_notMem hrecorded]
    refine ⟨?_, by simp [hnone], rfl⟩
    rw [← hnone, Function.update_eq_self]

theorem ledger_deleteUploadOwner (db : MemoryDatabase) (hash pubkey : String) :
    (db.deleteUploadOwner hash pubkey).2.toLedger.owners
        = Function.update db.toLedger.owners hash ((db.toLedger.owners hash).erase pubkey)
      ∧ (db.deleteUploadOwner hash pubkey).2.uploads = db.uploads
      ∧ (∀ other, other ≠ pubkey → ((db.deleteUploadOwner hash pubkey).2.user other).usedBytes
        = (db.user other).usedBytes)
      ∧ ∀ other, ((db.deleteUploadOwner hash pubkey).2.user other).quotaBytes
        = (db.user other).quotaBytes := by
  cases hlookup : db.owners.lookup (hash, pubkey) with
  | none =>
    have hnot : (hash, pubkey) ∉ db.owners := AList.lookup_eq_none.mp hlookup
    rw [deleteUploadOwner_of_notMem hnot]
    refine ⟨?_, rfl, fun _ _ => rfl, fun _ => rfl⟩
    have herase : (db.toLedger.owners hash).erase pubkey = db.toLedger.owners hash :=
      Finset.erase_eq_of_notMem fun h => hnot (Assoc.mem_fibre.mp h)
    rw [herase, Function.update_eq_self]
  | some record =>
    rw [deleteUploadOwner, hlookup]
    refine ⟨?_, by simp, ?_, fun other => quota_modifyExistingUser _ _ _ fun _ => rfl⟩
    · simp only [toLedger, owners_modifyExistingUser, Assoc.fibre_erase]
    · intro other hne
      exact (used_giveBack _ _).trans (by simp [hne]; rfl)

instance : LawfulBlobDatabase MemoryDatabase where
  ledger := toLedger
  isUploadOwner_eq {db hash pubkey owner} h := by
    rw [← Except.ok.inj h]
    exact decide_eq_decide.mpr Assoc.mem_fibre.symm
  uploadOwnerCount_eq {db hash count} h := by
    rw [← Except.ok.inj h]
    exact (Assoc.card_fibre db.owners hash).symm
  recordUpload_ok {db db' record} h := by
    change db.recordUpload record = _ at h
    rcases db.recordUpload_cases record with ⟨howner, heq⟩ | ⟨-, -, heq⟩ | ⟨-, -, e, heq⟩
    · obtain ⟨-, rfl⟩ := Prod.mk.inj (heq.symm.trans h)
      refine ⟨(owners_insert_self howner).symm, ?_, fun _ _ => rfl, rfl⟩
      intro hnew
      exact absurd (Assoc.mem_fibre.mpr howner) hnew
    · obtain ⟨-, rfl⟩ := Prod.mk.inj (heq.symm.trans h)
      exact ⟨owners_addOwner db record, fun _ => (uploads_addOwner db record).1,
        (uploads_addOwner db record).2, quota_addOwner db record⟩
    · exact nomatch (Prod.mk.inj (heq.symm.trans h)).1
  deleteUpload_ok {db db' hash existed} h := by
    obtain rfl : (db.deleteUpload hash).2 = db' := (Prod.mk.inj h).2
    exact ledger_deleteUpload db hash
  deleteUploadOwner_ok {db db' hash pubkey existed} h := by
    obtain rfl : (db.deleteUploadOwner hash pubkey).2 = db' := (Prod.mk.inj h).2
    obtain ⟨howners, huploads, hused, hquota⟩ := ledger_deleteUploadOwner db hash pubkey
    refine ⟨howners, ?_, hused, funext hquota⟩
    simp only [toLedger, huploads]
  setQuota_ok {db db' pubkey quotaBytes} h := by
    cases h
    refine Ledger.ext rfl rfl ?_ ?_
    · funext other
      simp only [toLedger, user_modifyUser]
      split
      · rename_i hother
        rw [hother]
      · rfl
    · funext other
      simp only [toLedger, user_modifyUser]
      by_cases hother : other = pubkey
      · subst hother
        simp
      · simp [hother]
  recordUpload_error {db db' record e} h := by
    change db.recordUpload record = _ at h
    rcases db.recordUpload_cases record with ⟨-, heq⟩ | ⟨-, -, heq⟩ | ⟨-, -, e', heq⟩
    · exact nomatch (Prod.mk.inj (heq.symm.trans h)).1
    · exact nomatch (Prod.mk.inj (heq.symm.trans h)).1
    · obtain ⟨-, rfl⟩ := Prod.mk.inj (heq.symm.trans h)
      exact toLedger_modifyUser db record.pubkey id rfl rfl
  deleteUpload_error h := nomatch (Prod.mk.inj h).1
  deleteUploadOwner_error h := nomatch (Prod.mk.inj h).1
  setQuota_error h := nomatch (Prod.mk.inj h).1
  setRole_eq db pubkey role := toLedger_modifyUser db pubkey _ rfl rfl
  getOrCreateUser_eq db pubkey := toLedger_modifyUser db pubkey _ rfl rfl
  recordAccess_eq _ _ _ _ := rfl

end MemoryDatabase

end BlossomRs.Database

import BlossomRs.Database.Sql

/-!
# Owner records

What a metadata database keeps for each owner of a hash: the in-memory database a copy of the upload
record, the tables a timestamp.  `OwnerRows` says what a recorded upload adds to them, and that the
media type of a record has no part in whether it is recorded and what it costs.
-/

namespace BlossomRs.Database

open BlobDatabase LawfulBlobDatabase

/-- The records a database keeps for the owners of its hashes. -/
class OwnerRows (δ : Type) [BlobDatabase δ] [LawfulBlobDatabase δ] where
  Row : Type
  row : UploadRecord → Row
  find : δ → String × String → Option Row
  find_recordUpload {db db' : δ} {record : UploadRecord}
    (h : recordUpload db record = (.ok (), db')) (key : String × String) :
    find db' key = if key = (record.sha256, record.pubkey) ∧ find db key = none then
      some (row record) else find db key
  result_mimeType (db : δ) (record : UploadRecord) (mimeType : String) :
    (recordUpload db { record with mimeType := mimeType }).1 = (recordUpload db record).1
  used_mimeType (db : δ) (record : UploadRecord) (mimeType : String) :
    (ledger (recordUpload db { record with mimeType := mimeType }).2).used
      = (ledger (recordUpload db record).2).used

section

variable {δ : Type} [BlobDatabase δ] [LawfulBlobDatabase δ] [OwnerRows δ]

/-- A record that differs in its media type is recorded with the same result, owners and bytes. -/
theorem owners_mimeType {db db₁ db₂ : δ} {record : UploadRecord} {mimeType : String}
    (h₁ : recordUpload db { record with mimeType := mimeType } = (.ok (), db₁))
    (h₂ : recordUpload db record = (.ok (), db₂)) :
    (ledger db₁).owners = (ledger db₂).owners ∧ (ledger db₁).used = (ledger db₂).used := by
  have hused := OwnerRows.used_mimeType db record mimeType
  rw [h₁, h₂] at hused
  refine ⟨?_, hused⟩
  rw [(recordUpload_ok h₁).1, (recordUpload_ok h₂).1]

/-- Two records of one upload leave the same owner records, unless the owner is a new one and the
database keeps what they differ in. -/
theorem find_eq_iff {db db₁ db₂ : δ} {record : UploadRecord} {mimeType : String}
    (h₁ : recordUpload db { record with mimeType := mimeType } = (.ok (), db₁))
    (h₂ : recordUpload db record = (.ok (), db₂)) :
    OwnerRows.find db₁ = OwnerRows.find db₂
      ↔ (OwnerRows.find db (record.sha256, record.pubkey) = none →
        (OwnerRows.row { record with mimeType := mimeType } : OwnerRows.Row δ)
          = OwnerRows.row record) := by
  constructor
  · intro hsame hnew
    have hkey := congrFun hsame (record.sha256, record.pubkey)
    rw [OwnerRows.find_recordUpload h₁, OwnerRows.find_recordUpload h₂, if_pos ⟨rfl, hnew⟩,
      if_pos ⟨rfl, hnew⟩] at hkey
    exact Option.some.inj hkey
  · intro hrow
    funext key
    rw [OwnerRows.find_recordUpload h₁, OwnerRows.find_recordUpload h₂]
    by_cases hnew : key = (record.sha256, record.pubkey) ∧ OwnerRows.find db key = none
    · rw [if_pos hnew, if_pos hnew, hrow (hnew.1 ▸ hnew.2)]
    · rw [if_neg hnew, if_neg hnew]

end

/-! ### The two kinds of databases -/

variable {key : String × String}

/-- A pair that is there keeps its record, and one that is not gets the new one. -/
theorem lookup_insert_absent {ρ : Type} {owners : AList fun _ : String × String => ρ}
    (habsent : key ∉ owners) (value : ρ) (other : String × String) :
    (owners.insert key value).lookup other
      = if other = key ∧ owners.lookup other = none then some value else owners.lookup other := by
  have hnone := AList.lookup_eq_none.mpr habsent
  rcases eq_or_ne other key with rfl | hsame <;> simp [*]

theorem lookup_present {ρ : Type} {owners : AList fun _ : String × String => ρ}
    (hpresent : key ∈ owners) (value : ρ) (other : String × String) :
    owners.lookup other
      = if other = key ∧ owners.lookup other = none then some value else owners.lookup other := by
  rw [if_neg]
  rintro ⟨rfl, hnone⟩
  exact AList.lookup_eq_none.mp hnone hpresent

/-- The media type goes to the records of the hash and its owner only. -/
theorem MemoryDatabase.recordUpload_mimeType (db : MemoryDatabase) (record : UploadRecord)
    (mimeType : String) :
    (db.recordUpload { record with mimeType := mimeType }).1 = (db.recordUpload record).1
      ∧ (db.recordUpload { record with mimeType := mimeType }).2.users
        = (db.recordUpload record).2.users := by
  by_cases howner : (record.sha256, record.pubkey) ∈ db.owners
  · rw [MemoryDatabase.recordUpload, MemoryDatabase.recordUpload, if_pos howner, if_pos howner]
    exact ⟨rfl, rfl⟩
  · have hother := @MemoryDatabase.recordUpload_of_notMem db { record with mimeType := mimeType } howner
    rw [MemoryDatabase.recordUpload_of_notMem howner, hother]
    split_ifs
    all_goals exact ⟨rfl, rfl⟩

instance : OwnerRows MemoryDatabase where
  Row := UploadRecord
  row record := record
  find db key := db.owners.lookup key
  find_recordUpload {db db' record} h key := by
    rcases db.recordUpload_cases record with ⟨howner, heq⟩ | ⟨howner, -, heq⟩ | ⟨-, -, e, heq⟩
    · obtain rfl : db = db' := (Prod.mk.inj (heq.symm.trans h)).2
      exact lookup_present howner record key
    · obtain rfl : db.addOwner record = db' := (Prod.mk.inj (heq.symm.trans h)).2
      exact lookup_insert_absent howner record key
    · exact nomatch (Prod.mk.inj (heq.symm.trans h)).1
  result_mimeType db record mimeType := (db.recordUpload_mimeType record mimeType).1
  used_mimeType db record mimeType := by
    have husers := (db.recordUpload_mimeType record mimeType).2
    funext pubkey
    show (MemoryDatabase.user (db.recordUpload _).2 pubkey).usedBytes
      = (MemoryDatabase.user (db.recordUpload _).2 pubkey).usedBytes
    rw [MemoryDatabase.user, MemoryDatabase.user, husers]

/-- Where the tables record a pair, they record it with the time of the upload. -/
theorem SqlTables.lookup_owners_recordUpload {db db' : SqlTables} {record : UploadRecord}
    (h : db.recordUpload record = (.ok (), db')) (key : String × String) :
    db'.owners.lookup key
      = if key = (record.sha256, record.pubkey) ∧ db.owners.lookup key = none then
          some (RustInt.asI64 record.createdAt) else db.owners.lookup key := by
  by_cases howner : (record.sha256, record.pubkey) ∈ db.owners
  · rw [SqlTables.recordUpload, if_pos howner] at h
    obtain rfl := (Prod.mk.inj h).2
    exact lookup_present howner _ key
  · rw [SqlTables.recordUpload, if_neg howner] at h
    split at h
    · cases h
    · obtain rfl := (Prod.mk.inj h).2
      exact lookup_insert_absent howner _ key

/-- The media type goes to the row of the hash only. -/
theorem SqlTables.recordUpload_mimeType (db : SqlTables) (record : UploadRecord) (mimeType : String) :
    (db.recordUpload { record with mimeType := mimeType }).1 = (db.recordUpload record).1
      ∧ (db.recordUpload { record with mimeType := mimeType }).2.users
        = (db.recordUpload record).2.users := by
  unfold SqlTables.recordUpload
  by_cases howner : (record.sha256, record.pubkey) ∈ db.owners
  · rw [if_pos howner, if_pos howner]
    exact ⟨rfl, rfl⟩
  · rw [if_neg howner, if_neg howner]
    cases SqlTables.addColumn (db.user record.pubkey).usedBytes (RustInt.asI64 record.size) with
    | none => exact ⟨rfl, rfl⟩
    | some used => exact ⟨rfl, rfl⟩

instance {dialect : SqlDialect} : OwnerRows (SqlDatabase dialect) where
  Row := Int
  row record := RustInt.asI64 record.createdAt
  find db key := db.tables.owners.lookup key
  find_recordUpload h key := SqlTables.lookup_owners_recordUpload (SqlDatabase.writing_eq_ok h) key
  result_mimeType db record mimeType := by
    show (db.writing .recordUpload _).1 = (db.writing .recordUpload _).1
    unfold SqlDatabase.writing
    split
    · rfl
    · exact (db.tables.recordUpload_mimeType record mimeType).1
  used_mimeType db record mimeType := by
    show (db.writing .recordUpload _).2.tables.toLedger.used
      = (db.writing .recordUpload _).2.tables.toLedger.used
    unfold SqlDatabase.writing
    split
    · rfl
    · have husers := (db.tables.recordUpload_mimeType record mimeType).2
      funext pubkey
      show RustInt.asU64 (SqlTables.user _ pubkey).usedBytes
        = RustInt.asU64 (SqlTables.user _ pubkey).usedBytes
      rw [SqlTables.user, SqlTables.user, husers]

end BlossomRs.Database

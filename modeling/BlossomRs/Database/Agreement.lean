import BlossomRs.Database.SameTables

/-!
# The in-memory database and SQLite

`SameTables` fixes the answers of the calls that read.  So the two databases answer the same after any
sequence of calls that keeps it.
-/

namespace BlossomRs.Database

open RustInt MemoryDatabase
open scoped List

namespace SameTables

variable {db : MemoryDatabase} {tables : SqlTables}

/-! ### Calls that read -/

theorem ownerKeys_length (h : SameTables db tables) (sha256 : String) :
    (tables.ownerKeys sha256).length = (db.ownerKeys sha256).length := by
  have hfibres : Assoc.fibre tables.owners sha256 = Assoc.fibre db.owners sha256 := by
    apply Finset.ext
    intro pubkey
    rw [Assoc.mem_fibre, Assoc.mem_fibre, h.mem_owners]
  have hcard := Assoc.card_fibre tables.owners sha256
  rw [hfibres, Assoc.card_fibre] at hcard
  exact hcard.symm

/-- A row of an upload says what the record says. -/
theorem uploadRecord_uploadRow (h : SameTables db tables) {sha256 : String} {record : UploadRecord}
    (hlookup : db.uploads.lookup sha256 = some record) :
    SqlTables.uploadRecord sha256 (uploadRow record) = record := by
  obtain ⟨hhash, hsize, htime, hphash⟩ := h.upload sha256 record hlookup
  obtain ⟨_, size, mimeType, pubkey, createdAt, phash⟩ := record
  obtain rfl : _ = sha256 := hhash
  obtain rfl : phash = none := hphash
  have hsize' : asU64 (asI64 size) = size := asU64_asI64 (by dsimp only at hsize; omega)
  have htime' : asU64 (asI64 createdAt) = createdAt := asU64_asI64 htime
  simp only [SqlTables.uploadRecord, uploadRow, hsize', htime']

theorem getUpload (h : SameTables db tables) (sha256 : String) :
    (tables.uploads.lookup sha256).map (SqlTables.uploadRecord sha256) = db.uploads.lookup sha256 := by
  rw [h.uploads]
  cases hlookup : db.uploads.lookup sha256 with
  | none => rfl
  | some record => exact congrArg some (h.uploadRecord_uploadRow hlookup)

/-- A row of a user says what the record says. -/
theorem userRecord_userRow {pubkey : String} {user : UserRecord} (hpubkey : user.pubkey = pubkey)
    (hused : user.usedBytes < 2 ^ 63)
    (hquota : ∀ limit, user.quotaBytes = some limit → limit < 2 ^ 63) :
    SqlTables.userRecord pubkey (userRow user) = user := by
  obtain ⟨_, role, quotaBytes, usedBytes⟩ := user
  obtain rfl : _ = pubkey := hpubkey
  have hcast : ∀ n : Nat, n < 2 ^ 63 → asU64 (n : Int) = n := by
    intro n hn
    unfold asU64
    omega
  have hquota' : (quotaBytes.map Int.ofNat).map asU64 = quotaBytes := by
    cases quotaBytes with
    | none => rfl
    | some limit => exact congrArg some (hcast limit (hquota limit rfl))
  simp only [SqlTables.userRecord, userRow, hquota', hcast usedBytes hused]

theorem userRecord_user (h : SameTables db tables) (pubkey : String) :
    SqlTables.userRecord pubkey (tables.user pubkey) = db.user pubkey := by
  obtain ⟨hpubkey, hused, hquota⟩ := h.users.user_inRange pubkey
  rw [h.users.user, userRecord_userRow hpubkey hused hquota]

theorem checkQuota (h : SameTables db tables) (pubkey : String) {additionalBytes : Nat}
    (hbytes : additionalBytes < 2 ^ 63) :
    tables.checkQuota pubkey additionalBytes = db.checkQuota pubkey additionalBytes := by
  unfold SqlTables.checkQuota MemoryDatabase.checkQuota
  rw [h.users.lookup]
  cases hlookup : db.users.lookup pubkey with
  | none => rfl
  | some user =>
    obtain ⟨-, hused, hquota⟩ := h.users.inRange pubkey user hlookup
    obtain ⟨_, role, quotaBytes, usedBytes⟩ := user
    cases quotaBytes with
    | none => rfl
    | some limit =>
      have hlimit : asU64 (limit : Int) = limit := by
        have := hquota limit rfl
        unfold asU64
        omega
      have husedBytes : asU64 (usedBytes : Int) = usedBytes := by
        dsimp only at hused
        unfold asU64
        omega
      -- neither sum leaves the range of the unsigned type
      have hsum : (usedBytes + additionalBytes) % 2 ^ 64 = usedBytes + additionalBytes := by
        dsimp only at hused
        omega
      have hfits : ¬ 2 ^ 64 ≤ usedBytes + additionalBytes := by
        dsimp only at hused
        omega
      simp only [Option.map_some, userRow, Int.ofNat_eq_natCast, hlimit, husedBytes, hsum, hfits,
        false_or]

/-- The users with a role, in any order. -/
theorem listUsersByRole (h : SameTables db tables) (role : String) :
    ((db.users.entries.map fun entry => entry.2).filter (·.role == role)).Perm
      ((tables.users.entries.map fun entry => SqlTables.userRecord entry.1 entry.2).filter
        (·.role == role)) := by
  apply List.Perm.filter
  refine List.Perm.trans ?_ ((Assoc.entries_perm_map h.users.lookup).map _).symm
  rw [List.map_map]
  refine List.Perm.of_eq (List.map_congr_left ?_)
  rintro ⟨pubkey, user⟩ hentry
  obtain ⟨hpubkey, hused, hquota⟩ :=
    h.users.inRange pubkey user (AList.mem_lookup_iff.mpr hentry)
  exact (userRecord_userRow hpubkey hused hquota).symm

/-! #### Listings -/

/-- A record without its perceptual hash. -/
def withoutPhash (record : UploadRecord) : UploadRecord :=
  { record with phash := none }

/-- The newest come first. -/
def NewestFirst (records : List UploadRecord) : Prop :=
  records.Pairwise fun a b => b.createdAt ≤ a.createdAt

/-- Two listings of the same records, the newest first: they differ at most in the order of records
of one time, and in the perceptual hashes. -/
structure SameListing (listing listing' : List UploadRecord) : Prop where
  perm : (listing.map withoutPhash).Perm (listing'.map withoutPhash)
  newestFirst : NewestFirst listing
  newestFirst' : NewestFirst listing'

/-- What SQLite makes of an ownership and the row of its hash. -/
def joined (tables : SqlTables) (entry : Sigma fun _ : String × String => Int) : Option UploadRecord :=
  (tables.uploads.lookup entry.1.1).map fun row =>
    { SqlTables.uploadRecord entry.1.1 row with pubkey := entry.1.2, createdAt := asU64 entry.2 }

/-- The join gives the owner's record back, without its perceptual hash. -/
theorem joined_eq (h : SameTables db tables) {key : String × String} {record : UploadRecord}
    (hlookup : db.owners.lookup key = some record) :
    joined tables ⟨key, asI64 record.createdAt⟩ = some (withoutPhash record) := by
  obtain ⟨htime, first, hfirst, hsize, hmime⟩ := h.owner key record hlookup
  obtain rfl := h.filed hlookup
  have hrow := h.getUpload record.sha256
  rw [hfirst] at hrow
  obtain ⟨row, hrow, hrecord⟩ := Option.map_eq_some_iff.mp hrow
  rw [joined, hrow, Option.map_some, hrecord, asU64_asI64 htime, withoutPhash]
  obtain ⟨hhash, -, -, hphash⟩ := h.upload _ first hfirst
  simp only [hhash, hsize, hmime, hphash]

theorem pairwise_newest (h : SameTables db tables) (pubkey : String) :
    NewestFirst (tables.listUploadsByPubkey pubkey) := by
  unfold NewestFirst SqlTables.listUploadsByPubkey
  dsimp only
  rw [List.pairwise_filterMap]
  refine (List.pairwise_insertionSort _ _).imp_of_mem ?_
  intro a b ha hb hle x hx y hy
  have hfound : ∀ entry ∈ (tables.owners.entries.filter fun entry => entry.1.2 == pubkey).insertionSort
      (fun a b => b.2 ≤ a.2), ∃ record, db.owners.lookup entry.1 = some record
        ∧ entry.2 = asI64 record.createdAt ∧ entry.1.2 = pubkey := by
    rintro ⟨key, time⟩ hentry
    obtain ⟨hentry, howner⟩ := List.mem_filter.mp ((List.mem_insertionSort _).mp hentry)
    have hlookup := AList.mem_lookup_iff.mpr hentry
    rw [Option.mem_def, h.owners] at hlookup
    obtain ⟨record, hrecord, htime⟩ := Option.map_eq_some_iff.mp hlookup
    exact ⟨record, hrecord, htime.symm, by simpa using howner⟩
  obtain ⟨record, hrecord, htime, howner⟩ := hfound a ha
  obtain ⟨record', hrecord', htime', howner'⟩ := hfound b hb
  obtain ⟨row, -, rfl⟩ := Option.map_eq_some_iff.mp hx
  obtain ⟨row', -, rfl⟩ := Option.map_eq_some_iff.mp hy
  have hrange := (h.owner _ record hrecord).1
  have hrange' := (h.owner _ record' hrecord').1
  have hside := h.side _ record' _ record hrecord' hrecord (howner'.trans howner.symm)
  dsimp only
  rw [htime, htime', asU64_asI64 hrange, asU64_asI64 hrange']
  rw [htime, htime'] at hle
  exact (asI64_le_asI64 hrange' hrange hside).mp hle

theorem sameListing (h : SameTables db tables) (pubkey : String) :
    SameListing (db.listUploadsByPubkey pubkey) (tables.listUploadsByPubkey pubkey) where
  newestFirst := by
    unfold NewestFirst MemoryDatabase.listUploadsByPubkey
    exact List.pairwise_insertionSort _ _
  newestFirst' := h.pairwise_newest pubkey
  perm := by
    -- both are what the join makes of the owner's entries, sorted
    have hmemory : ((db.owners.entries.map fun entry => entry.2).filter (·.pubkey == pubkey)).map
        withoutPhash = (db.owners.entries.map fun entry =>
          (⟨entry.1, asI64 entry.2.createdAt⟩ : Sigma fun _ : String × String => Int)).filterMap
            fun entry => if entry.1.2 == pubkey then joined tables entry else none := by
      rw [List.filterMap_map, List.filter_map, List.map_map, ← List.filterMap_eq_map,
        List.filterMap_filter]
      refine List.filterMap_congr ?_
      rintro ⟨key, record⟩ hentry
      have hlookup := AList.mem_lookup_iff.mpr hentry
      have howner : record.pubkey = key.2 := by rw [h.filed hlookup]
      simp only [Function.comp, howner, h.joined_eq hlookup]
    have hsql : (tables.owners.entries.filter fun entry => entry.1.2 == pubkey).filterMap
        (joined tables) = tables.owners.entries.filterMap
          fun entry => if entry.1.2 == pubkey then joined tables entry else none :=
      List.filterMap_filter
    have hplain : ∀ records : List (Sigma fun _ : String × String => Int),
        (records.filterMap (joined tables)).map withoutPhash = records.filterMap (joined tables) := by
      intro records
      rw [List.map_filterMap]
      refine List.filterMap_congr ?_
      intro entry _
      rw [joined, Option.map_map]
      rfl
    calc (db.listUploadsByPubkey pubkey).map withoutPhash
      _ ~ ((db.owners.entries.map fun entry => entry.2).filter (·.pubkey == pubkey)).map
          withoutPhash := (List.perm_insertionSort _ _).map _
      _ = (db.owners.entries.map fun entry =>
          (⟨entry.1, asI64 entry.2.createdAt⟩ : Sigma fun _ : String × String => Int)).filterMap
            fun entry => if entry.1.2 == pubkey then joined tables entry else none := hmemory
      _ ~ tables.owners.entries.filterMap
          fun entry => if entry.1.2 == pubkey then joined tables entry else none :=
        (Assoc.entries_perm_map h.owners).symm.filterMap _
      _ = (tables.owners.entries.filter fun entry => entry.1.2 == pubkey).filterMap
          (joined tables) := hsql.symm
      _ ~ tables.listUploadsByPubkey pubkey := ((List.perm_insertionSort _ _).filterMap _).symm
      _ = (tables.listUploadsByPubkey pubkey).map withoutPhash := (hplain _).symm

end SameTables

/-! ### Runs -/

namespace SqlDatabase

/-- The database after a call. -/
def perform (db : SqliteDatabase) : Operation → SqliteDatabase
  | .recordUpload record => (BlobDatabase.recordUpload db record).2
  | .deleteUpload sha256 => (BlobDatabase.deleteUpload db sha256).2
  | .deleteUploadOwner sha256 pubkey => (BlobDatabase.deleteUploadOwner db sha256 pubkey).2
  | .getOrCreateUser pubkey => (BlobDatabase.getOrCreateUser db pubkey).2
  | .setQuota pubkey quotaBytes => (BlobDatabase.setQuota db pubkey quotaBytes).2
  | .setRole pubkey role => (BlobDatabase.setRole db pubkey role).2

/-- A new SQLite database after some calls. -/
def after (operations : List Operation) : SqliteDatabase :=
  Runs.run perform (.new .sqlite) operations

/-- A writing call on a connection that works. -/
theorem writing_of_working {db : SqliteDatabase} (h : ∀ call, db.outage call = none) {α : Type}
    (call : SqlCall) (write : SqlTables → Except DbError α × SqlTables) :
    (∀ other, (db.writing call write).2.outage other = none)
      ∧ (db.writing call write).2.tables = (write db.tables).2 := by
  rw [writing, h]
  exact ⟨h, rfl⟩

theorem reading_of_working {db : SqliteDatabase} (h : ∀ call, db.outage call = none) {α : Type}
    (call : SqlCall) (read : SqlTables → Except DbError α) : db.reading call read = read db.tables := by
  rw [reading, h]

end SqlDatabase

/-- What a call is given where the databases are used: byte counts fit their columns, and an upload is
recorded behind a quota check. -/
def MemoryDatabase.Operation.Admitted (db : MemoryDatabase) : Operation → Prop
  | .recordUpload record => SameTables.Admitted db record
  | .setQuota _ quotaBytes => ∀ limit, quotaBytes = some limit → limit < 2 ^ 63
  | _ => True

/-- An upload is one that SQLite can tell from the row of its hash. -/
def MemoryDatabase.Operation.Shared (db : MemoryDatabase) : Operation → Prop
  | .recordUpload record => SameTables.Shared db record
  | _ => True

/-- A database on a connection that works, with the same contents. -/
structure SameContents (db : MemoryDatabase) (sql : SqliteDatabase) : Prop where
  working : ∀ call, sql.outage call = none
  tables : SameTables db sql.tables

variable {db : MemoryDatabase} {sql : SqliteDatabase}

/-- A writing call keeps the contents the same if it does so to the tables. -/
theorem SameContents.writing {db' : MemoryDatabase} {α : Type} {call : SqlCall}
    {write : SqlTables → Except DbError α × SqlTables} (h : SameContents db sql)
    (htables : SameTables db' (write sql.tables).2) : SameContents db' (sql.writing call write).2 := by
  obtain ⟨hworking, heq⟩ := SqlDatabase.writing_of_working h.working call write
  exact ⟨hworking, heq ▸ htables⟩

theorem SameContents.perform (h : SameContents db sql) (operation : Operation)
    (hadmitted : operation.Admitted db) (hshared : operation.Shared db) :
    SameContents (db.perform operation) (sql.perform operation) := by
  have htables := h.tables
  have haccounted := htables.accounted.perform operation
  cases operation with
  | recordUpload record => exact h.writing (htables.recordUpload hadmitted hshared)
  | deleteUpload sha256 => exact h.writing (htables.deleteUpload sha256)
  | deleteUploadOwner sha256 pubkey => exact h.writing (htables.deleteUploadOwner sha256 pubkey)
  | getOrCreateUser pubkey =>
    obtain ⟨-, hused, hquota⟩ := htables.users.user_inRange pubkey
    refine h.writing (htables.withUsers haccounted ?_ rfl rfl rfl rfl)
    exact htables.users.modifyUser pubkey rfl rfl hused hquota
  | setQuota pubkey quotaBytes =>
    obtain ⟨-, hused, -⟩ := htables.users.user_inRange pubkey
    have hrange : quotaBytes.any (2 ^ 63 ≤ ·) = false := by
      cases quotaBytes with
      | none => rfl
      | some limit =>
        have hlimit : limit < 2 ^ 63 := hadmitted limit rfl
        simpa using hlimit
    have hset : (sql.tables.setQuota pubkey quotaBytes).2 = sql.tables.upsertUser pubkey
        fun user => { user with quotaBytes := quotaBytes.map Int.ofNat } := by
      rw [SqlTables.setQuota, hrange]
      rfl
    refine h.writing (hset ▸ htables.withUsers haccounted ?_ rfl rfl rfl rfl)
    exact htables.users.modifyUser pubkey (f := fun user => { user with quotaBytes := quotaBytes })
      rfl rfl hused hadmitted
  | setRole pubkey role =>
    obtain ⟨-, hused, hquota⟩ := htables.users.user_inRange pubkey
    refine h.writing (htables.withUsers haccounted ?_ rfl rfl rfl rfl)
    exact htables.users.modifyUser pubkey (f := fun user => { user with role := role })
      (g := fun user => { user with role := role }) rfl rfl hused hquota

/-- The reading calls answer the same; two listings may differ in the order of equal times and in the
perceptual hashes, and the users with a role may come in any order. -/
structure SameAnswers (db : MemoryDatabase) (sql : SqliteDatabase) : Prop where
  getUpload : ∀ sha256, BlobDatabase.getUpload sql sha256 = BlobDatabase.getUpload db sha256
  listUploadsByPubkey : ∀ pubkey, ∃ listing listing',
    BlobDatabase.listUploadsByPubkey db pubkey = .ok listing
      ∧ BlobDatabase.listUploadsByPubkey sql pubkey = .ok listing'
      ∧ SameTables.SameListing listing listing'
  isUploadOwner : ∀ sha256 pubkey,
    BlobDatabase.isUploadOwner sql sha256 pubkey = BlobDatabase.isUploadOwner db sha256 pubkey
  uploadOwnerCount : ∀ sha256,
    BlobDatabase.uploadOwnerCount sql sha256 = BlobDatabase.uploadOwnerCount db sha256
  checkQuota : ∀ pubkey additionalBytes, additionalBytes < 2 ^ 63 →
    BlobDatabase.checkQuota sql pubkey additionalBytes
      = BlobDatabase.checkQuota db pubkey additionalBytes
  getOrCreateUser : ∀ pubkey,
    (BlobDatabase.getOrCreateUser sql pubkey).1 = (BlobDatabase.getOrCreateUser db pubkey).1
  listUsersByRole : ∀ role, ∃ users users', BlobDatabase.listUsersByRole db role = .ok users
    ∧ BlobDatabase.listUsersByRole sql role = .ok users' ∧ users ~ users'

theorem SameContents.sameAnswers (h : SameContents db sql) : SameAnswers db sql where
  getUpload sha256 := by
    refine (SqlDatabase.reading_of_working h.working _ _).trans ?_
    rw [h.tables.getUpload]
    rfl
  listUploadsByPubkey pubkey :=
    ⟨_, _, rfl, SqlDatabase.reading_of_working h.working _ _, h.tables.sameListing pubkey⟩
  isUploadOwner sha256 pubkey := by
    refine (SqlDatabase.reading_of_working h.working _ _).trans ?_
    simp only [h.tables.mem_owners]
    rfl
  uploadOwnerCount sha256 := by
    refine (SqlDatabase.reading_of_working h.working _ _).trans ?_
    rw [h.tables.ownerKeys_length]
    rfl
  checkQuota pubkey additionalBytes hbytes :=
    (SqlDatabase.reading_of_working h.working _ _).trans (h.tables.checkQuota pubkey hbytes)
  getOrCreateUser pubkey := by
    simp only [BlobDatabase.getOrCreateUser, SqlDatabase.writing, h.working,
      MemoryDatabase.getOrCreateUser, h.tables.userRecord_user]
  listUsersByRole role :=
    ⟨_, _, rfl, SqlDatabase.reading_of_working h.working _ _, h.tables.listUsersByRole role⟩

/-- **SQLite answers as the in-memory database does**, after every sequence of calls in which a new
owner of a known hash records its size and type, and the times of an owner stay on one side of the
sign bit. -/
theorem sqlite_answers_as_memory (operations : List Operation)
    (hadmitted : ∀ pre operation post, operations = pre ++ operation :: post →
      operation.Admitted (MemoryDatabase.after pre))
    (hshared : ∀ pre operation post, operations = pre ++ operation :: post →
      operation.Shared (MemoryDatabase.after pre)) :
    SameAnswers (MemoryDatabase.after operations) (SqlDatabase.after operations) := by
  have hstart : SameContents (MemoryDatabase.after []) (.new .sqlite) := ⟨fun _ => rfl, sameTables_new⟩
  refine SameContents.sameAnswers ?_
  refine Runs.run_invariant (P := fun pre sql => SameContents (MemoryDatabase.after pre) sql)
    hstart ?_ operations [] (List.append_nil operations).symm
  intro pre operation post hsplit h
  have hstep : MemoryDatabase.after (pre ++ [operation])
      = (MemoryDatabase.after pre).perform operation := Runs.run_concat pre operation
  rw [hstep]
  exact h.perform operation (hadmitted pre operation post hsplit) (hshared pre operation post hsplit)

/-- One byte of plain text. -/
def oneByteRecord (pubkey mimeType : String) : UploadRecord where
  sha256 := "hash"
  size := 1
  mimeType := mimeType
  pubkey := pubkey
  createdAt := 0
  phash := none

/-- Two owners of one blob with one type. -/
theorem shared_blob_answers_as_memory :
    SameAnswers
      (MemoryDatabase.after [.recordUpload (oneByteRecord "alice" "text/plain"),
        .recordUpload (oneByteRecord "bob" "text/plain")])
      (SqlDatabase.after [.recordUpload (oneByteRecord "alice" "text/plain"),
        .recordUpload (oneByteRecord "bob" "text/plain")]) := by
  refine sqlite_answers_as_memory _ ?_ ?_
  · rw [Runs.forall_split_cons, Runs.forall_split_cons, Runs.forall_split_nil]
    refine ⟨⟨by decide, by decide, Or.inr ⟨rfl, by decide⟩⟩,
      ⟨by decide, by decide, Or.inr ⟨rfl, by decide⟩⟩, trivial⟩
  · rw [Runs.forall_split_cons, Runs.forall_split_cons, Runs.forall_split_nil]
    refine ⟨fun _ => ⟨fun _ => rfl, nofun, nofun⟩, fun _ => ⟨fun _ => rfl, ?_, ?_⟩, trivial⟩
    · intro first hfirst
      obtain rfl : oneByteRecord "alice" "text/plain" = first := Option.some.inj hfirst
      exact ⟨rfl, rfl⟩
    · intro key other hlookup _
      have howners : (MemoryDatabase.after
          [.recordUpload (oneByteRecord "alice" "text/plain")]).owners
          = AList.insert ("hash", "alice") (oneByteRecord "alice" "text/plain") ∅ := rfl
      rw [howners] at hlookup
      by_cases hkey : key = ("hash", "alice")
      · rw [hkey, AList.lookup_insert] at hlookup
        obtain rfl := Option.some.inj hlookup
        exact Iff.rfl
      · rw [AList.lookup_insert_ne hkey] at hlookup
        cases hlookup

/-- A second owner who sends the same bytes with another type is told that type by the in-memory
database, and the type of the first owner by SQLite. -/
theorem second_type_listed_differently :
    (BlobDatabase.listUploadsByPubkey
        (MemoryDatabase.after [.recordUpload (oneByteRecord "alice" "text/plain"),
          .recordUpload (oneByteRecord "bob" "text/html")]) "bob")
      = .ok [oneByteRecord "bob" "text/html"]
    ∧ (BlobDatabase.listUploadsByPubkey
        (SqlDatabase.after [.recordUpload (oneByteRecord "alice" "text/plain"),
          .recordUpload (oneByteRecord "bob" "text/html")]) "bob")
      = .ok [oneByteRecord "bob" "text/plain"] := by
  decide +kernel

end BlossomRs.Database

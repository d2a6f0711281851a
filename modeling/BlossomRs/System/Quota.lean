import BlossomRs.Database.Sql
import BlossomRs.System.Consistency

/-!
# Quotas

Every endpoint that stores a blob for somebody ends in `record_upload`, and most of them ask
`check_quota` before.  What they make of the answer differs: some refuse on every error, two refuse
only when the quota is exceeded, and an upload without an event is not checked at all.  What
`record_upload` itself enforces differs too: the in-memory database refuses a record above the quota,
the SQL databases do not look at it.

`RespectsQuotas` is the property of one section; the theorems below are about every section of a run.
-/

namespace BlossomRs.System

open Protocol Storage Database Lfs Locks Server

variable {β δ ν κ : Type}

/-- A record of so many bytes stays within a user's quota. -/
def WithinQuota (ledger : Ledger) (pubkey : String) (size : Nat) : Prop :=
  ∀ limit, ledger.quota pubkey = some limit → ledger.used pubkey + size ≤ limit

/-- A section that is answered with success makes nobody an owner beyond the quota of the moment. -/
def RespectsQuotas [BlobBackend β] [BlobDatabase δ] [LawfulBlobDatabase δ] [LfsVersionDatabase ν]
    [LockDatabase κ] (ext : Transport.Externals) (part : Section) (s : ServerState β δ ν κ) : Prop :=
  ∀ data hash pubkey, part.stores = some data → (part.run ext s).1 = true →
    pubkey ∉ (ledger s).owners hash → pubkey ∈ (ledger (part.run ext s).2).owners hash →
    WithinQuota (ledger s) pubkey data.length

/-! ### What is checked before a record is made -/

/-- How an endpoint uses `check_quota`. -/
inductive QuotaCheck where
  | unchecked
  | lenient
  | strict
deriving DecidableEq, Repr

def Section.quotaCheck : Section → QuotaCheck
  | .upload _ _ none _ => .unchecked
  | .nip96Upload _ _ _ _ => .lenient
  | .mirror _ _ _ => .lenient
  | _ => .strict

/-- What is known of the quota once an endpoint has made its check. -/
def QuotaCheck.Passed [BlobDatabase δ] (check : QuotaCheck) (database : δ) (hash pubkey : String)
    (size : Nat) : Prop :=
  let answer := BlobDatabase.checkQuota database pubkey (additionalBytes database hash pubkey size)
  match check with
  | .unchecked => pubkey = "anonymous"
  | .lenient => ∀ used requested limit, answer ≠ .error (.quotaExceeded used requested limit)
  | .strict => answer = .ok ()

section Records

variable [BlobDatabase δ]

variable {database : δ} {hash pubkey : String} {size : Nat} {s : ServerState β δ ν κ} {data : Bytes}
    {check : QuotaCheck} {ext : Transport.Externals} {request : Transport.Request}
    {authPubkey : Option String}

theorem passed_of_checkQuotaStrict (h : checkQuotaStrict database hash pubkey size = .ok ()) :
    QuotaCheck.strict.Passed database hash pubkey size := by
  unfold checkQuotaStrict at h
  split at h
  · assumption
  · cases h

theorem passed_of_checkQuotaLenient {text : Nat → Nat → Nat → String}
    (h : checkQuotaLenient database hash pubkey size text = .ok ()) :
    QuotaCheck.lenient.Passed database hash pubkey size := by
  intro used requested limit hexceeded
  simp only [checkQuotaLenient, hexceeded] at h
  cases h

theorem passed_of_checkUploadQuota
    (h : Transport.checkUploadQuota database hash pubkey size = .ok ()) :
    QuotaCheck.strict.Passed database hash pubkey size := by
  unfold Transport.checkUploadQuota at h
  split at h
  · assumption
  · cases h

/-- What a section that stores a blob and reports success has done to the database: one record, made
after the check of its endpoint. -/
structure Recorded (check : QuotaCheck) (data : Bytes) (before after : δ) : Prop where
  exists_record : ∃ record, BlobDatabase.recordUpload before record = (.ok (), after)
    ∧ record.sha256 = sha256Hex data ∧ record.size = data.length
    ∧ check.Passed before record.sha256 record.pubkey data.length

/-- A stream's quota check is made for the hash of its body. -/
theorem passed_of_streamChecks (h : Transport.uploadChecks s request authPubkey data = .ok ()) :
    QuotaCheck.strict.Passed s.database (sha256Hex data) (authPubkey.getD "anonymous")
      data.length := by
  unfold Transport.uploadChecks at h
  obtain ⟨-, h⟩ := Checks.seq_eq_ok.mp h
  obtain ⟨-, h⟩ := Checks.seq_eq_ok.mp h
  obtain ⟨-, h⟩ := Checks.seq_eq_ok.mp h
  obtain ⟨-, h⟩ := Checks.seq_eq_ok.mp h
  obtain ⟨hquota, hhash⟩ := Checks.seq_eq_ok.mp h
  rw [Checks.require_eq_ok.mp hhash]
  exact passed_of_checkUploadQuota hquota

/-- The checks of a section include that of the quota. -/
theorem passed_of_checked {part : Section} (hstores : part.stores = some data)
    (hnames : part.names = some pubkey) (h : part.Checked s) :
    part.quotaCheck.Passed s.database (sha256Hex data) pubkey data.length := by
  cases part with
  | upload call headers owner body =>
    obtain rfl : body = data := Option.some.inj hstores
    obtain rfl : owner.getD "anonymous" = pubkey := Option.some.inj hnames
    cases owner with
    | none => rfl
    | some owner =>
      unfold Section.Checked uploadChecks at h
      obtain ⟨-, h⟩ := Checks.seq_eq_ok.mp h
      exact passed_of_checkQuotaStrict (Checks.seq_eq_ok.mp h).1
  | nip96Upload call headers owner body =>
    obtain rfl : body = data := Option.some.inj hstores
    obtain rfl : owner = pubkey := Option.some.inj hnames
    unfold Section.Checked nip96Checks at h
    obtain ⟨-, h⟩ := Checks.seq_eq_ok.mp h
    exact passed_of_checkQuotaLenient (Checks.seq_eq_ok.mp h).2
  | mediaUpload call owner result =>
    obtain rfl : result.data = data := Option.some.inj hstores
    obtain rfl : owner = pubkey := Option.some.inj hnames
    exact passed_of_checkQuotaStrict h
  | mirror call owner body =>
    obtain rfl : body = data := Option.some.inj hstores
    obtain rfl : owner = pubkey := Option.some.inj hnames
    unfold Section.Checked mirrorChecks at h
    obtain ⟨-, h⟩ := Checks.seq_eq_ok.mp h
    exact passed_of_checkQuotaLenient (Checks.seq_eq_ok.mp h).2
  | stream call freshId request authPubkey body =>
    by_cases hop : request.op = .upload
    · obtain rfl : body = data := by simpa [Section.stores, hop] using hstores
      obtain rfl : authPubkey.getD "anonymous" = pubkey := by simpa [Section.names, hop] using hnames
      exact passed_of_streamChecks h
    · simp [Section.stores, hop] at hstores
  | _ => cases hstores

/-- **What a stored blob leaves in the database**, whichever endpoint stored it. -/
theorem recorded_run [BlobBackend β] [LawfulBlobBackend β] [LfsVersionDatabase ν] [LockDatabase κ]
    {part : Section} (hstores : part.stores = some data) (h : (part.run ext s).1 = true) :
    Recorded part.quotaCheck data s.database (part.run ext s).2.database := by
  obtain ⟨owner, hnames, hcommit⟩ := commit_run ext hstores s
  rw [h] at hcommit
  generalize (part.run ext s).2 = after at hcommit ⊢
  cases hcommit with
  | recorded hchecked hstore howner hblob hrecord hok =>
    obtain ⟨hhash, hsize⟩ := hblob inferInstance
    rw [(store_frame hstores hstore).1, hok rfl] at hrecord
    refine ⟨_, hrecord, hhash, hsize, ?_⟩
    rw [hhash, howner]
    exact passed_of_checked hstores hnames hchecked

end Records

/-! ### Quotas and databases -/

section Ledgers

variable [BlobDatabase δ] [LawfulBlobDatabase δ]

/-- A new owner is the one a record was made for. -/
theorem eq_of_new_owner {before after : δ} {record : UploadRecord} {hash pubkey : String}
    (hrecord : BlobDatabase.recordUpload before record = (.ok (), after))
    (hbefore : pubkey ∉ (LawfulBlobDatabase.ledger before).owners hash)
    (hafter : pubkey ∈ (LawfulBlobDatabase.ledger after).owners hash) :
    hash = record.sha256 ∧ pubkey = record.pubkey := by
  rw [(LawfulBlobDatabase.recordUpload_ok hrecord).1] at hafter
  by_cases hhash : hash = record.sha256
  · subst hhash
    rw [Function.update_self] at hafter
    rcases Finset.mem_insert.mp hafter with hsame | hold
    · exact ⟨rfl, hsame⟩
    · exact absurd hold hbefore
  · rw [Function.update_of_ne hhash] at hafter
    exact absurd hafter hbefore

/-- A new owner is asked for the whole size. -/
theorem additionalBytes_of_notMem {database : δ} {hash pubkey : String} {size : Nat}
    (h : pubkey ∉ (LawfulBlobDatabase.ledger database).owners hash) :
    additionalBytes database hash pubkey size = size := by
  unfold additionalBytes
  split
  · rename_i howner
    have hmem := LawfulBlobDatabase.isUploadOwner_eq howner
    exact absurd (by simpa using hmem.symm) h
  · rfl

end Ledgers

/-- The in-memory database refuses a record above the quota. -/
theorem withinQuota_of_recordUpload {before after : MemoryDatabase} {record : UploadRecord}
    (hrecord : BlobDatabase.recordUpload before record = (.ok (), after))
    (hnew : record.pubkey ∉ before.toLedger.owners record.sha256) :
    WithinQuota before.toLedger record.pubkey record.size := by
  change before.recordUpload record = _ at hrecord
  rcases before.recordUpload_cases record with ⟨howner, -⟩ | ⟨-, hfits, -⟩ | ⟨-, -, e, heq⟩
  · exact absurd (Assoc.mem_fibre.mpr howner) hnew
  · exact hfits.2
  · cases heq.symm.trans hrecord

/-- The SQL databases answer that a sum is within the quota when it is, as long as it stays in the
range of the type. -/
theorem withinQuota_of_checkQuota {db : SqlTables} {pubkey : String} {size : Nat}
    (hcheck : db.checkQuota pubkey size = .ok ())
    (hrange : db.toLedger.used pubkey + size < 2 ^ 64) : WithinQuota db.toLedger pubkey size := by
  intro limit hlimit
  unfold SqlTables.checkQuota at hcheck
  simp only [SqlTables.toLedger, SqlTables.user] at hlimit hrange ⊢
  split at hcheck
  case h_1 limit' used role hlookup =>
    rw [hlookup] at hlimit hrange ⊢
    simp only [Option.getD_some, Option.map_some, Option.some.injEq] at hlimit hrange ⊢
    split at hcheck
    · cases hcheck
    · rename_i hle
      rw [Nat.mod_eq_of_lt hrange] at hle
      omega
  case h_2 hnone =>
    -- without a row, or with a row that has no quota, there is no limit
    cases hlookup : db.users.lookup pubkey with
    | none => simp [hlookup, SqlTables.newUser] at hlimit
    | some row =>
      obtain ⟨quota, used, role⟩ := row
      cases quota with
      | none => simp [hlookup] at hlimit
      | some limit' => exact absurd hlookup (hnone limit' used role)

/-- The tables answer that the quota is exceeded or that it is not. -/
theorem checkQuota_eq_ok {db : SqlTables} {pubkey : String} {size : Nat}
    (h : ∀ used requested limit, db.checkQuota pubkey size ≠ .error (.quotaExceeded used requested limit)) :
    db.checkQuota pubkey size = .ok () := by
  unfold SqlTables.checkQuota at h ⊢
  split
  · split
    · rename_i hlookup hexceeded
      rw [hlookup] at h
      simp only [hexceeded, if_true] at h
      exact absurd rfl (h _ _ _)
    · rfl
  · rfl

/-! ### Runs -/

section Runs

variable [BlobBackend β] [LawfulBlobBackend β] [LfsVersionDatabase ν] [LockDatabase κ]
  {dialect : SqlDialect}

/-- One step on a SQL database: what the connection is like, and a section.  The blobs of a section
are buffers, which have less than `2 ^ 63` bytes. -/
structure SqlStep where
  outage : SqlCall → Option String
  part : Section
  buffered : ∀ data, part.stores = some data → data.length < 2 ^ 63

/-- The state a step finds. -/
def SqlStep.start (step : SqlStep) (s : ServerState β (SqlDatabase dialect) ν κ) :
    ServerState β (SqlDatabase dialect) ν κ :=
  { s with database := { s.database with outage := step.outage } }

def SqlStep.run (ext : Transport.Externals) (s : ServerState β (SqlDatabase dialect) ν κ)
    (step : SqlStep) : ServerState β (SqlDatabase dialect) ν κ :=
  (step.part.run ext (step.start s)).2

/-- What is asked of a step: no upload comes without an event while a quota is set for the uploads
that do, and the connection works when an endpoint checks a quota that passes over other errors. -/
structure SqlStep.Covered (step : SqlStep) (s : ServerState β (SqlDatabase dialect) ν κ) : Prop where
  signed : step.part.quotaCheck = .unchecked → (ledger s).quota "anonymous" = none
  connected : step.part.quotaCheck = .lenient → step.outage .checkQuota = none

/-- The writes of a run keep the columns of the tables in range. -/
theorem inRange_of_dbCall {scope : CallScope}
    (hscope : ∀ record, scope.record record → record.size < 2 ^ 63) {db db' : SqlDatabase dialect}
    (h : db.tables.InRange) (hcall : DbCall scope db db') : db'.tables.InRange := by
  have hwriting : ∀ {α : Type} (call : SqlCall) (write : SqlTables → Except DbError α × SqlTables),
      (write db.tables).2.InRange → (db.writing call write).2.tables.InRange := by
    intro α call write hdone
    unfold SqlDatabase.writing
    split
    · exact h
    · exact hdone
  cases hcall with
  | recordUpload record hrecord => exact hwriting _ _ (h.recordUpload (hscope record hrecord))
  | deleteUpload hash => exact hwriting _ _ (h.deleteUpload hash)
  | deleteUploadOwner hash pubkey => exact hwriting _ _ (h.deleteUploadOwner hash pubkey)
  | getOrCreateUser pubkey => exact hwriting _ _ (h.upsertUser pubkey id (h.user pubkey))
  | setQuota pubkey quotaBytes => exact hwriting _ _ (h.setQuota pubkey quotaBytes)
  | setRole pubkey role =>
    exact hwriting _ _ (h.upsertUser pubkey (fun user => { user with role := role })
      (h.user pubkey))
  | recordAccess hash bytesServed now => exact hwriting _ _ (h.recordAccess hash bytesServed now)

variable {s : ServerState β (SqlDatabase dialect) ν κ}

theorem inRange_run (h : s.database.tables.InRange) (ext : Transport.Externals) (step : SqlStep) :
    (step.run ext s).database.tables.InRange := by
  refine (calls_run ext step.part (step.start s)).invariant (P := fun db => db.tables.InRange)
    (fun _ _ => inRange_of_dbCall ?_) h
  rintro record ⟨-, data, hdata, hlength⟩
  exact hlength ▸ step.buffered data hdata

/-- A SQL database whose connection works refuses a sum above the quota. -/
theorem respectsQuotas_sql (hrange : s.database.tables.InRange) (ext : Transport.Externals)
    {step : SqlStep} (hcovered : step.Covered s) : RespectsQuotas ext step.part (step.start s) := by
  intro data hash pubkey hstores hanswer hbefore hafter
  obtain ⟨record, hrecord, hhash, hsize, hpassed⟩ := (recorded_run hstores hanswer).exists_record
  obtain ⟨rfl, rfl⟩ := eq_of_new_owner hrecord hbefore hafter
  have hused : (ledger s).used record.pubkey + data.length < 2 ^ 64 := by
    have hcount := hrange.user record.pubkey
    have hdata := step.buffered data hstores
    have hkept := RustInt.asU64_of_nonneg hcount.1 hcount.2
    change RustInt.asU64 (s.database.tables.user record.pubkey).usedBytes + data.length < 2 ^ 64
    omega
  simp only [QuotaCheck.Passed, additionalBytes_of_notMem hbefore] at hpassed
  split at hpassed
  case h_1 hcheck =>
    intro limit hlimit
    have hnone := hcovered.signed hcheck
    rw [hpassed] at hlimit
    exact nomatch hnone.symm.trans hlimit
  case h_2 hcheck =>
    -- the connection works, so the answer is the one of the tables
    have hreading : ∀ size, BlobDatabase.checkQuota (step.start s).database record.pubkey size
        = s.database.tables.checkQuota record.pubkey size := by
      intro size
      change (step.start s).database.reading .checkQuota _ = _
      rw [SqlDatabase.reading, SqlStep.start]
      simp only [hcovered.connected hcheck]
    rw [hreading] at hpassed
    exact withinQuota_of_checkQuota (checkQuota_eq_ok hpassed) hused
  case h_3 hcheck =>
    change (step.start s).database.reading .checkQuota _ = .ok () at hpassed
    exact withinQuota_of_checkQuota (SqlDatabase.reading_eq_ok hpassed) hused

/-- The in-memory database enforces quotas itself. -/
theorem respectsQuotas_memory (ext : Transport.Externals) (part : Section)
    (s : ServerState β MemoryDatabase ν κ) : RespectsQuotas ext part s := by
  intro data hash pubkey hstores hanswer hbefore hafter
  obtain ⟨record, hrecord, -, hsize, -⟩ := (recorded_run hstores hanswer).exists_record
  obtain ⟨rfl, rfl⟩ := eq_of_new_owner hrecord hbefore hafter
  rw [← hsize]
  exact withinQuota_of_recordUpload hrecord hbefore

/-- **No owner is added beyond a quota**, along every run on each of the databases: on the in-memory
one in any case, and on the SQL ones if no step is of the kinds that go unchecked. -/
theorem quotas_respected (ext : Transport.Externals) :
    (∀ (s : ServerState β MemoryDatabase ν κ) (parts pre post : List Section) (part : Section),
      parts = pre ++ part :: post →
      RespectsQuotas ext part (Runs.run (fun s part => (part.run ext s).2) s pre))
      ∧ ∀ (dialect : SqlDialect) (s : ServerState β (SqlDatabase dialect) ν κ)
        (steps : List SqlStep), s.database.tables.InRange →
        (∀ pre step post, steps = pre ++ step :: post →
          step.Covered (Runs.run (SqlStep.run ext) s pre)) →
        ∀ pre step post, steps = pre ++ step :: post →
          RespectsQuotas ext step.part (step.start (Runs.run (SqlStep.run ext) s pre)) := by
  constructor
  · intro s parts pre post part _
    exact respectsQuotas_memory ext part _
  · intro dialect s steps hrange hcovered pre step post hsteps
    have hinv : ∀ pre post, steps = pre ++ post →
        (Runs.run (SqlStep.run ext) s pre).database.tables.InRange :=
      Runs.run_invariant
        (P := fun _ (s : ServerState β (SqlDatabase dialect) ν κ) => s.database.tables.InRange) hrange
        fun pre step post _ h => inRange_run h ext step
    exact respectsQuotas_sql (hinv pre (step :: post) hsteps) ext (hcovered pre step post hsteps)

end Runs

/-- A new server on a new SQLite database. -/
def newSqlite : ServerState MemoryBackend SqliteDatabase MemoryLfsVersionDatabase MemoryLockDatabase :=
  { ServerState.new MemoryBackend.new "" with database := .new .sqlite }

/-- One byte, uploaded by nobody in particular or by a key. -/
def oneByte (pubkey : Option String) (byte : UInt8) : Section :=
  .upload ⟨fun _ => 0, 0, 0⟩ ⟨none, none, none⟩ pubkey [byte]

def oneByteStep (pubkey : Option String) (byte : UInt8) : SqlStep where
  outage _ := none
  part := oneByte pubkey byte
  buffered data h := by
    obtain rfl := Option.some.inj h
    exact Nat.one_lt_two_pow (by omega)

def mirrorStep (pubkey : String) (byte : UInt8) : SqlStep where
  outage _ := none
  part := .mirror ⟨fun _ => 0, 0, 0⟩ pubkey [byte]
  buffered data h := by
    obtain rfl := Option.some.inj h
    exact Nat.one_lt_two_pow (by omega)

def quotaStep (pubkey : String) (quotaBytes : Nat) : SqlStep where
  outage _ := none
  part := .setQuota pubkey (some quotaBytes)
  buffered _ h := nomatch h

/-- A key with a quota of two bytes mirrors one, next to an upload without an event. -/
def quotaSteps : List SqlStep :=
  [quotaStep "alice" 2, oneByteStep none 1, mirrorStep "alice" 2]

/-- The key may upload one byte more, and not two. -/
theorem signed_upload_within_quota :
    let before := Runs.run (SqlStep.run (.knowing [])) newSqlite quotaSteps
    let after := (oneByteStep (some "alice") 3).run (.knowing []) before
    RespectsQuotas (.knowing []) (oneByte (some "alice") 3) before
      ∧ ((oneByte (some "alice") 3).run (.knowing []) before).1 = true
      ∧ ((ledger after).used "alice", (ledger after).quota "alice") = (2, some 2)
      ∧ ((oneByte (some "alice") 4).run (.knowing []) after).1 = false := by
  refine ⟨(quotas_respected (.knowing [])).2 .sqlite newSqlite
    (quotaSteps ++ [oneByteStep (some "alice") 3]) SqlTables.inRange_new ?_ quotaSteps
    (oneByteStep (some "alice") 3) [] rfl, by decide +kernel, by decide +kernel, by decide +kernel⟩
  change ∀ pre step post, _ :: _ :: _ :: _ :: [] = pre ++ step :: post → _
  simp only [Runs.forall_split_cons, Runs.forall_split_nil, and_true]
  exact ⟨⟨by rintro ⟨⟩, by rintro ⟨⟩⟩, ⟨fun _ => rfl, fun _ => rfl⟩, ⟨by rintro ⟨⟩, fun _ => rfl⟩,
    by rintro ⟨⟩, by rintro ⟨⟩⟩

/-- With a quota of nothing for uploads without an event, such an upload is stored. -/
theorem unsigned_upload_over_quota :
    ¬ RespectsQuotas (.knowing []) (oneByte none 1)
      ((quotaStep "anonymous" 0).run (.knowing []) newSqlite) := by
  intro h
  have hquota := h [1] (sha256Hex [1]) "anonymous" rfl (by decide +kernel) (by decide +kernel)
    (by decide +kernel) 0 rfl
  exact absurd hquota (by decide +kernel)

end BlossomRs.System

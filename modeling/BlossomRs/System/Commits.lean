import BlossomRs.System.Sections

/-!
# Sections that store a blob

Five sections make their checks, write bytes and then record an owner, in this order, and stop at the
first of the three that fails (`commit_run`).  Uploads over HTTP and on a stream write what the
pipeline makes of the body (`storeUpload`), the others write the content as it is (`storeWhole`).
-/

namespace BlossomRs.System

open Protocol Storage Database Lfs Locks Server

variable {β δ ν κ : Type}

/-- The blob a section stores for somebody, if it does. -/
def Section.stores : Section → Option Bytes
  | .upload _ _ _ data => some data
  | .nip96Upload _ _ _ data => some data
  | .mediaUpload _ _ result => some result.data
  | .mirror _ _ data => some data
  | .stream _ _ request _ body => if request.op = .upload then some body else none
  | _ => none

/-- The user a section names to the database: the owner of an upload, or the user an administrator
asks about. -/
def Section.names : Section → Option String
  | .upload _ _ pubkey _ => some (pubkey.getD "anonymous")
  | .nip96Upload _ _ pubkey _ => some pubkey
  | .mediaUpload _ pubkey _ => some pubkey
  | .mirror _ pubkey _ => some pubkey
  | .getUser pubkey => some pubkey
  | .setQuota pubkey _ => some pubkey
  | .stream _ _ request authPubkey _ =>
    if request.op = .upload then some (authPubkey.getD "anonymous") else none
  | _ => none

/-- Write a content as it is. -/
def storeWhole [BlobBackend β] (data : Bytes) (now : Nat) (s : ServerState β δ ν κ) :
    Except String Unit × ServerState β δ ν κ :=
  match BlobBackend.tryInsert s.backend data s.baseUrl now with
  | (.error e, backend) => (.error e, { s with backend := backend })
  | (.ok _, backend) => (.ok (), { s with backend := backend })

/-- The write of a section that stores a blob. -/
def Section.store [BlobBackend β] [LfsVersionDatabase ν] (ext : Server.Externals) :
    Section → ServerState β δ ν κ → Except String Unit × ServerState β δ ν κ
  | .upload call headers _ data =>
    storeUpload ext (requestContext ext headers) (sha256Hex data) data (call.clock 4) (call.clock 5)
  | .nip96Upload call _ _ data => storeWhole data (call.clock 3)
  | .mediaUpload call _ result => storeWhole result.data (call.clock 3)
  | .mirror call _ data => storeWhole data (call.clock 3)
  | .stream call _ request _ body =>
    storeUpload ext (Transport.parseLfsFromRequest request) (sha256Hex body) body (call.clock 1)
      (call.clock 2)
  | _ => fun s => (.ok (), s)

variable [BlobDatabase δ]

/-- The checks of a section that stores a blob let it pass. -/
def Section.Checked (s : ServerState β δ ν κ) : Section → Prop
  | .upload _ headers pubkey data => uploadChecks s pubkey (sha256Hex data) data
      ((extractContentType headers).getD (detectMime data)) = .ok ()
  | .nip96Upload _ headers pubkey data =>
    nip96Checks s pubkey ((extractContentType headers).getD (detectMime data)) data = .ok ()
  | .mediaUpload _ pubkey result =>
    checkQuotaStrict s.database (sha256Hex result.data) pubkey result.data.length = .ok ()
  | .mirror _ pubkey data => mirrorChecks s pubkey data = .ok ()
  | .stream _ _ request authPubkey body =>
    Transport.uploadChecks s request authPubkey body = .ok ()
  | _ => False

theorem status_of_streamChecks (s : ServerState β δ ν κ) (request : Transport.Request)
    (authPubkey : Option String) (data : Bytes) :
    Checks.FailsWith (·.status ≠ .ok) (Transport.uploadChecks s request authPubkey data) := by
  refine .bind (.require ?_) fun _ => .bind (.require ?_) fun _ => .bind (.require ?_) fun _ =>
    .bind (.ifSome fun _ => .require ?_) fun _ => .bind (fun response hquota => ?_) fun _ =>
    .require ?_
  case refine_5 =>
    unfold Transport.checkUploadQuota at hquota
    split at hquota <;> cases hquota
    simp [Transport.Response.failure]
  all_goals simp [Transport.Response.failure]

variable [BlobBackend β]

/-- How checking, storing and recording end: whether success is reported, and the state.  Hash and
size of the record are what the backend says, which only a lawful one says rightly. -/
inductive Commit (checked : Prop)
    (store : ServerState β δ ν κ → Except String Unit × ServerState β δ ν κ) (owner : String)
    (data : Bytes) (s : ServerState β δ ν κ) : Bool → ServerState β δ ν κ → Prop
  | refused : Commit checked store owner data s false s
  | unstored {e : String} {s₁ : ServerState β δ ν κ} (hchecked : checked)
      (hstore : store s = (.error e, s₁)) : Commit checked store owner data s false s₁
  | recorded {s₁ : ServerState β δ ν κ} {record : UploadRecord} {result : Except DbError Unit}
      {database : δ} {ok : Bool} (hchecked : checked) (hstore : store s = (.ok (), s₁))
      (howner : record.pubkey = owner)
      (hblob : LawfulBlobBackend β → record.sha256 = sha256Hex data ∧ record.size = data.length)
      (hrecord : BlobDatabase.recordUpload s₁.database record = (result, database))
      (hok : ok = true → result = .ok ()) :
      Commit checked store owner data s ok { s₁ with database := database }

theorem commit_insertWhole {checks : Except Response Unit} {now : Nat} {data : Bytes}
    {mimeType : BlobDescriptor → String} {pubkey : String} {phash : Option Nat}
    {respond : BlobDescriptor → Response}
    (hrefused : Checks.FailsWith (·.status ≠ .ok) checks)
    (s : ServerState β δ ν κ) {result : Response × ServerState β δ ν κ}
    (hresult : result = commitChecked checks
      (insertWhole now data mimeType pubkey phash respond) s) :
    Commit (checks = .ok ()) (storeWhole data now) pubkey data s (result.1.status == .ok)
      result.2 := by
  subst hresult
  cases checks with
  | error response =>
    have hstatus : (response.status == .ok) = false := by simpa using hrefused rfl
    rw [commitChecked, hstatus]
    exact .refused
  | ok value =>
    rw [commitChecked, insertWhole]
    split
    case h_1 hinsert => exact .unstored rfl (by rw [storeWhole, hinsert])
    case h_2 descriptor backend hinsert =>
      have hstore : storeWhole data now s = (.ok (), { s with backend := backend }) := by
        rw [storeWhole, hinsert]
      have hblob : LawfulBlobBackend β →
          descriptor.sha256 = sha256Hex data ∧ descriptor.size = data.length := by
        intro _
        obtain ⟨rfl, -⟩ := LawfulBlobBackend.get_tryInsert hinsert
        exact ⟨rfl, rfl⟩
      split
      case h_1 hrecord => exact .recorded rfl hstore rfl hblob hrecord nofun
      case h_2 hrecord => exact .recorded rfl hstore rfl hblob hrecord fun _ => rfl

variable [LfsVersionDatabase ν]

theorem commit_uploadCommit (ext : Server.Externals) (call : Call) (headers : HeaderMap)
    (pubkey : Option String) (data : Bytes) (s : ServerState β δ ν κ) :
    Commit (Section.Checked s (.upload call headers pubkey data))
      (Section.store ext (.upload call headers pubkey data)) (pubkey.getD "anonymous") data s
      ((uploadCommit ext call headers pubkey data s).1.status == .ok)
      (uploadCommit ext call headers pubkey data s).2 := by
  unfold uploadCommit
  dsimp only
  split
  case h_1 response hchecks =>
    have hstatus : (response.status == .ok) = false := by
      simpa using status_of_uploadChecks _ _ _ _ _ hchecks
    rw [hstatus]
    exact .refused
  case h_2 hchecks =>
    split
    case h_1 hstore => exact .unstored hchecks hstore
    case h_2 hstore =>
      split
      case h_1 hrecord => exact .recorded hchecks hstore rfl (fun _ => ⟨rfl, rfl⟩) hrecord nofun
      case h_2 hrecord =>
        exact .recorded hchecks hstore rfl (fun _ => ⟨rfl, rfl⟩) hrecord fun _ => rfl

theorem commit_streamUpload (ext : Transport.Externals) (call : Call) (freshId : String)
    (request : Transport.Request) (authPubkey : Option String) (data : Bytes)
    (s : ServerState β δ ν κ) :
    Commit (Section.Checked s (.stream call freshId request authPubkey data))
      (Section.store ext.toExternals (.stream call freshId request authPubkey data))
      (authPubkey.getD "anonymous") data s
      ((Transport.handleUpload ext call request authPubkey data s).1.status == .ok)
      (Transport.handleUpload ext call request authPubkey data s).2 := by
  unfold Transport.handleUpload
  dsimp only
  split
  case h_1 response hchecks =>
    have hstatus : (response.status == .ok) = false := by
      simpa using status_of_streamChecks _ _ _ _ hchecks
    rw [hstatus]
    exact .refused
  case h_2 hchecks =>
    split
    case h_1 hstore => exact .unstored hchecks hstore
    case h_2 hstore =>
      split
      case h_1 hrecord => exact .recorded hchecks hstore rfl (fun _ => ⟨rfl, rfl⟩) hrecord nofun
      case h_2 hrecord =>
        exact .recorded hchecks hstore rfl (fun _ => ⟨rfl, rfl⟩) hrecord fun _ => rfl

/-- **A section that stores a blob** checks, stores and records it. -/
theorem commit_run [LockDatabase κ] (ext : Transport.Externals) {part : Section} {data : Bytes}
    (hstores : part.stores = some data) (s : ServerState β δ ν κ) :
    ∃ owner, part.names = some owner ∧ Commit (part.Checked s) (part.store ext.toExternals) owner
      data s (part.run ext s).1 (part.run ext s).2 := by
  cases part with
  | upload call headers pubkey body =>
    obtain rfl : body = data := Option.some.inj hstores
    exact ⟨_, rfl, commit_uploadCommit ext.toExternals call headers pubkey body s⟩
  | nip96Upload call headers pubkey body =>
    obtain rfl : body = data := Option.some.inj hstores
    exact ⟨_, rfl, commit_insertWhole (status_of_nip96Checks _ _ _ _) s rfl⟩
  | mediaUpload call pubkey result =>
    obtain rfl : result.data = data := Option.some.inj hstores
    exact ⟨_, rfl, commit_insertWhole (status_of_checkQuotaStrict _ _ _ _) s rfl⟩
  | mirror call pubkey body =>
    obtain rfl : body = data := Option.some.inj hstores
    exact ⟨_, rfl, commit_insertWhole (status_of_mirrorChecks _ _ _) s rfl⟩
  | stream call freshId request authPubkey body =>
    simp only [Section.stores] at hstores
    split at hstores
    · rename_i hop
      obtain rfl : body = data := Option.some.inj hstores
      refine ⟨authPubkey.getD "anonymous", by rw [Section.names, if_pos hop], ?_⟩
      simp only [Section.run, Transport.dispatch, hop]
      exact commit_streamUpload ext call freshId request authPubkey body s
    · cases hstores
  | _ => exact nomatch hstores

end BlossomRs.System

import BlossomRs.System.Ownership
import BlossomRs.System.Revocation

/-!
# Interleaved requests

Requests that store a blob hold the lock in stretches, and anything may happen in between.  Each event
at the desk runs at most one section (`step_cases`), so requests in any interleaving act on the state
as a list of sections does (`interleaved_requests_act_as_sections`), and an invariant of sections is
one of interleavings (`desk_invariant`).

Two invariants: the counts of the in-memory database are exact (`interleaved_accounting_exact`), and an
owner keeps a blob until the owner or an administrator deletes it (`owned_blob_kept`).
-/

namespace BlossomRs.System

open Protocol Auth Storage Database Lfs Locks Server

variable {β δ ν κ : Type}

/-! ### Events as sections -/

section Desk

variable [BlobBackend β] [BlobDatabase δ] [LfsVersionDatabase ν] [LockDatabase κ]

/-- An event runs at most one section, and one that removes something or changes the policy only if it
is that section. -/
theorem step_cases (ext : Transport.Externals) (desk : Desk β δ ν κ) (event : DeskEvent) :
    Moves ext desk.world.server (deskStep ext desk event).world.server
      ∨ ∃ part, event = .other part
        ∧ (deskStep ext desk event).world.server = (part.run ext desk.world.server).2 := by
  cases event with
  | arrive id request => exact Or.inl (moves_arrive request)
  | resume id =>
    unfold deskStep
    dsimp only
    split
    · exact Or.inl (moves_advance _)
    · exact Or.inl (Or.inl rfl)
  | drop id => exact Or.inl (Or.inl rfl)
  | other part => exact Or.inr ⟨part, rfl, rfl⟩

/-- **Interleaved requests act as sections do**, at most one for each event. -/
theorem interleaved_requests_act_as_sections (ext : Transport.Externals) (desk : Desk β δ ν κ)
    (events : List DeskEvent) :
    ∃ parts : List Section, parts.length ≤ events.length
      ∧ (∀ part ∈ parts, part.removes = none ∧ ¬ part.ChangesPolicy
        ∨ DeskEvent.other part ∈ events)
      ∧ (Runs.run (deskStep ext) desk events).world.server
        = Runs.run (fun s part => (part.run ext s).2) desk.world.server parts := by
  induction events generalizing desk with
  | nil => exact ⟨[], le_rfl, by simp, rfl⟩
  | cons event events ih =>
    obtain ⟨parts, hlength, hparts, hrun⟩ := ih (deskStep ext desk event)
    have hlater : ∀ part ∈ parts, part.removes = none ∧ ¬ part.ChangesPolicy
        ∨ DeskEvent.other part ∈ event :: events := fun part hpart =>
      (hparts part hpart).imp_right (List.mem_cons_of_mem event)
    rcases step_cases ext desk event with (hsame | ⟨part, hpart, hnext⟩) | ⟨part, rfl, hnext⟩
    · exact ⟨parts, hlength.trans (Nat.le_succ _), hlater, by rw [Runs.run_cons, hrun, hsame]⟩
    · refine ⟨part :: parts, Nat.succ_le_succ hlength, ?_, ?_⟩
      · exact List.forall_mem_cons.mpr ⟨Or.inl hpart, hlater⟩
      · rw [Runs.run_cons, hrun, hnext, Runs.run_cons]
    · refine ⟨part :: parts, Nat.succ_le_succ hlength, ?_, ?_⟩
      · exact List.forall_mem_cons.mpr ⟨Or.inr List.mem_cons_self, hlater⟩
      · rw [Runs.run_cons, hrun, hnext, Runs.run_cons]

/-- **Invariants of interleavings.**  What sections that remove nothing keep, and what the others keep
in their places, holds after every interleaving. -/
theorem desk_invariant {ext : Transport.Externals} {P : ServerState β δ ν κ → Prop}
    {desk : Desk β δ ν κ} {events : List DeskEvent} (hstart : P desk.world.server)
    (hmoves : ∀ s (part : Section), part.removes = none → P s → P (part.run ext s).2)
    (hother : ∀ pre part post, events = pre ++ .other part :: post →
      P (Runs.run (deskStep ext) desk pre).world.server →
      P (part.run ext (Runs.run (deskStep ext) desk pre).world.server).2) :
    P (Runs.run (deskStep ext) desk events).world.server := by
  refine Runs.run_invariant (P := fun _ (desk : Desk β δ ν κ) => P desk.world.server) hstart ?_
    events [] (List.append_nil events).symm
  intro pre event post hsplit hpre
  rcases step_cases ext (Runs.run (deskStep ext) desk pre) event with
    (hsame | ⟨part, ⟨hremoves, -⟩, hnext⟩) | ⟨part, rfl, hnext⟩
  · rwa [hsame]
  · rw [hnext]
    exact hmoves _ part hremoves hpre
  · rw [hnext]
    exact hother pre part post hsplit hpre

end Desk

/-! ### Byte counts -/

/-- A call keeps the tables of the in-memory database in accord. -/
theorem accounted_of_dbCall {scope : CallScope} {db db' : MemoryDatabase} (h : db.Accounted)
    (hcall : DbCall scope db db') : db'.Accounted := by
  cases hcall with
  | recordUpload record => exact h.perform (.recordUpload record)
  | deleteUpload hash => exact h.perform (.deleteUpload hash)
  | deleteUploadOwner hash pubkey => exact h.perform (.deleteUploadOwner hash pubkey)
  | getOrCreateUser pubkey => exact h.perform (.getOrCreateUser pubkey)
  | setQuota pubkey quotaBytes => exact h.perform (.setQuota pubkey quotaBytes)
  | setRole pubkey role => exact h.perform (.setRole pubkey role)
  | recordAccess hash bytesServed now => exact ⟨h.used_eq, h.filed, h.recorded⟩

/-- **Counts stay exact**: the tables are in accord after every interleaving, so a user's byte count is
the total size of the ownership records of the user. -/
theorem interleaved_accounting_exact [BlobBackend β] [LfsVersionDatabase ν] [LockDatabase κ]
    (ext : Transport.Externals) (desk : Desk β MemoryDatabase ν κ)
    (hstart : desk.world.server.database.Accounted) (events : List DeskEvent) :
    (Runs.run (deskStep ext) desk events).world.server.database.Accounted := by
  have hrun : ∀ s (part : Section), s.database.Accounted →
      ((part.run ext s).2 : ServerState β MemoryDatabase ν κ).database.Accounted := fun s part h =>
    (effects_run ext part s).calls.invariant (fun _ _ => accounted_of_dbCall) h
  exact desk_invariant (P := fun s => s.database.Accounted) hstart (fun s part _ => hrun s part)
    fun _ part _ _ => hrun _ part

/-- While an upload waits for its commit, another key mirrors the same byte. -/
def waitingDesk : Desk MemoryBackend MemoryDatabase MemoryLfsVersionDatabase MemoryLockDatabase :=
  Runs.run (deskStep memberExternals) membersDesk
    (removalMeanwhile "bob" ++ [.other (.mirror ⟨fun _ => 0, 0, 0⟩ "alice" [1])])

/-- The byte counts of the two keys after the upload is committed and other requests are handled. -/
def usedAfter (parts : List Section) : Nat × Nat :=
  let db := (Runs.run (deskStep memberExternals) waitingDesk
    (.resume 0 :: parts.map .other)).world.server.database
  ((db.user testKey).usedBytes, (db.user "alice").usedBytes)

theorem usedAfter_eq (parts : List Section) :
    usedAfter parts = let db := (Runs.run (fun s part => (Section.run memberExternals part s).2)
        (listedServer (keysWithout "bob")) (.mirror ⟨fun _ => 0, 0, 0⟩ "alice" [1]
          :: .upload memberUpload.request.call memberUpload.request.headers (some testKey) [1]
          :: parts)).database
      ((db.user testKey).usedBytes, (db.user "alice").usedBytes) := by
  obtain ⟨seen, hrun⟩ := run_removalMeanwhile "bob"
  have hothers : ∀ desk : Desk MemoryBackend MemoryDatabase MemoryLfsVersionDatabase MemoryLockDatabase,
      (Runs.run (deskStep memberExternals) desk (parts.map .other)).world.server
        = Runs.run (fun s part => (Section.run memberExternals part s).2) desk.world.server parts := by
    induction parts with
    | nil => exact fun _ => rfl
    | cons part parts ih => exact fun desk => ih _
  unfold usedAfter waitingDesk
  rw [Runs.run_append, hrun, Runs.run_cons, hothers]
  rfl

/-- The counts follow the commit of a byte that is on record already, and the deletes. -/
theorem counts_after_commit_and_deletes :
    usedAfter [] = (1, 1)
    ∧ usedAfter [.nip96Delete (sha256Hex [1]) testKey] = (0, 1)
    ∧ usedAfter [.nip96Delete (sha256Hex [1]) testKey, .adminDelete (sha256Hex [1])] = (0, 0)
    ∧ (Runs.run (deskStep memberExternals) waitingDesk [.resume 0,
        .other (.nip96Delete (sha256Hex [1]) testKey),
        .other (.adminDelete (sha256Hex [1]))]).world.server.database.Accounted := by
  have hwaiting : waitingDesk.world.server.database.Accounted :=
    interleaved_accounting_exact memberExternals membersDesk MemoryDatabase.accounted_new _
  simp only [usedAfter_eq]
  exact ⟨by decide +kernel, by decide +kernel, by decide +kernel,
    interleaved_accounting_exact memberExternals waitingDesk hwaiting _⟩

/-! ### Owners -/

section Owners

variable [BlobDatabase δ] [LawfulBlobDatabase δ] {s : ServerState β δ ν κ}
  {hash owner pubkey : String} {part : Section}

/-- An owner of a hash stays one through calls that do not release the hash. -/
theorem owner_of_dbCall {scope : CallScope} {db db' : δ} (hrelease : ¬ scope.release hash)
    (howner : owner ∈ (LawfulBlobDatabase.ledger db).owners hash) (hcall : DbCall scope db db') :
    owner ∈ (LawfulBlobDatabase.ledger db').owners hash := by
  have hother : ∀ {target}, scope.release target → hash ≠ target := by
    rintro target hscope rfl
    exact hrelease hscope
  cases hcall with
  | recordUpload record =>
    rcases hcall : BlobDatabase.recordUpload db record with ⟨e | u, db'⟩
    · rwa [LawfulBlobDatabase.recordUpload_error hcall]
    · rw [(LawfulBlobDatabase.recordUpload_ok hcall).1, Function.update_apply]
      split
      · rename_i heq
        exact Finset.mem_insert_of_mem (heq ▸ howner)
      · exact howner
  | deleteUpload target hscope =>
    rcases hcall : BlobDatabase.deleteUpload db target with ⟨e | u, db'⟩
    · rwa [LawfulBlobDatabase.deleteUpload_error hcall]
    · rw [(LawfulBlobDatabase.deleteUpload_ok hcall).2.1]
      split
      · rwa [Function.update_of_ne (hother hscope)]
      · exact howner
  | deleteUploadOwner target pubkey hscope =>
    rcases hcall : BlobDatabase.deleteUploadOwner db target pubkey with ⟨e | u, db'⟩
    · rwa [LawfulBlobDatabase.deleteUploadOwner_error hcall]
    · rwa [(LawfulBlobDatabase.deleteUploadOwner_ok hcall).1, Function.update_of_ne (hother hscope)]
  | getOrCreateUser pubkey => rwa [LawfulBlobDatabase.getOrCreateUser_eq]
  | setQuota pubkey quotaBytes =>
    rcases hcall : BlobDatabase.setQuota db pubkey quotaBytes with ⟨e | u, db'⟩
    · rwa [LawfulBlobDatabase.setQuota_error hcall]
    · rwa [LawfulBlobDatabase.setQuota_ok hcall]
  | setRole pubkey role => rwa [LawfulBlobDatabase.setRole_eq]
  | recordAccess target bytesServed now => rwa [LawfulBlobDatabase.recordAccess_eq]

/-- A section that may take a blob from an owner: an administrator's delete, or one that is made for
the owner or for a key whose role is admin. -/
def Section.MayDrop (hash owner : String) (s : ServerState β δ ν κ) (part : Section) : Prop :=
  part = .adminDelete hash ∨ part.removes = some hash
    ∧ ∃ pubkey, part.deleter = some pubkey ∧ (pubkey = owner ∨ s.role pubkey = .admin)

/-- The rule on owners lets a delete go on for the last owner and for administrators. -/
theorem eq_or_admin_of_proceed (h : (ownerDecision hash pubkey s).1 = .proceed)
    (howner : owner ∈ (LawfulBlobDatabase.ledger s.database).owners hash) :
    pubkey = owner ∨ s.role pubkey = .admin := by
  unfold ownerDecision at h
  split at h
  · cases h
  · exact Or.inr (by assumption)
  split at h
  · rename_i hisOwner
    split at h
    · cases h
    split at h
    · unfold releaseReference at h
      split at h <;> cases h
    · rename_i count hcount hfew
      have hmem : pubkey ∈ (LawfulBlobDatabase.ledger s.database).owners hash := by
        unfold isOwner at hisOwner
        split at hisOwner
        · rename_i hanswer
          simpa [hisOwner] using LawfulBlobDatabase.isUploadOwner_eq hanswer
        · cases hisOwner
      rw [LawfulBlobDatabase.uploadOwnerCount_eq hcount, not_lt] at hfew
      exact Or.inl (Finset.card_le_one.mp hfew _ hmem _ howner)
  · cases h

theorem mayDrop_of_deletes (h : part.Deletes hash s)
    (howner : owner ∈ (LawfulBlobDatabase.ledger s.database).owners hash) :
    part.MayDrop hash owner s := by
  cases part with
  | delete call target pubkey =>
    obtain ⟨rfl, h⟩ := h
    exact Or.inr ⟨rfl, pubkey, rfl, eq_or_admin_of_proceed h howner⟩
  | nip96Delete target pubkey =>
    obtain ⟨rfl, h⟩ := h
    exact Or.inr ⟨rfl, pubkey, rfl, eq_or_admin_of_proceed h howner⟩
  | adminDelete target => exact Or.inl (congrArg _ h)
  | stream call freshId request authPubkey body =>
    obtain ⟨hop, rfl, pubkey, rfl, h⟩ := h
    exact Or.inr ⟨if_pos hop, pubkey, rfl, eq_or_admin_of_proceed h howner⟩
  | _ => exact h.elim

variable [BlobBackend β] [LfsVersionDatabase ν] [LockDatabase κ]

/-- One section takes a blob from an owner only if it may. -/
theorem owner_of_run (ext : Transport.Externals) (howner : owner ∈ (ledger s).owners hash)
    (hnot : ¬ part.MayDrop hash owner s) : owner ∈ (ledger (part.run ext s).2).owners hash := by
  by_cases hremoves : part.removes = some hash
  · rcases run_of_removes ext hremoves s with hdeletes | hsame | ⟨pubkey, hdeleter, hrule⟩
    · exact absurd (mayDrop_of_deletes hdeletes howner) hnot
    · rwa [hsame]
    · rcases hdecision : ownerDecision hash pubkey s with ⟨decision, s'⟩
      rw [hrule, hdecision]
      obtain ⟨-, -, ⟨-, hledger⟩ | ⟨-, howners, -⟩⟩ := ownerDecision_spec hdecision
      · rwa [hledger]
      · rw [howners, Function.update_self]
        refine Finset.mem_erase.mpr ⟨fun hself => ?_, howner⟩
        exact hnot (Or.inr ⟨hremoves, pubkey, hdeleter, Or.inl hself.symm⟩)
  · exact (effects_run ext part s).calls.invariant
      (P := fun db => owner ∈ (LawfulBlobDatabase.ledger db).owners hash)
      (fun _ _ => owner_of_dbCall hremoves) howner

variable [LawfulBlobBackend β]

/-- **An owner keeps a blob**, bytes and all, through every interleaving in which no section takes it
away that may. -/
theorem owned_blob_kept {ext : Transport.Externals} {desk : Desk β δ ν κ} {events : List DeskEvent}
    (hconsistent : Consistent desk.world.server)
    (howner : owner ∈ (ledger desk.world.server).owners hash)
    (hdeletes : ∀ pre part post, events = pre ++ .other part :: post →
      ∀ target, part.removes = some target →
        MetadataDeletes target (Runs.run (deskStep ext) desk pre).world.server)
    (hkept : ∀ pre part post, events = pre ++ .other part :: post →
      ¬ part.MayDrop hash owner (Runs.run (deskStep ext) desk pre).world.server) :
    owner ∈ (ledger (Runs.run (deskStep ext) desk events).world.server).owners hash
      ∧ (contents (Runs.run (deskStep ext) desk events).world.server hash).isSome := by
  have hfinal := desk_invariant
    (P := fun s => Consistent s ∧ owner ∈ (ledger s).owners hash) ⟨hconsistent, howner⟩
    (fun s part hremoves h => ⟨h.1.run ext part (by simp [hremoves]), owner_of_run ext h.2 ?_⟩)
    fun pre part post hsplit h => ⟨h.1.run ext part (hdeletes pre part post hsplit),
      owner_of_run ext h.2 (hkept pre part post hsplit)⟩
  · exact ⟨hfinal.2, hfinal.1.stored hash ⟨owner, hfinal.2⟩⟩
  · rintro (rfl | ⟨hsome, -⟩)
    · cases hremoves
    · cases hremoves.symm.trans hsome

end Owners

theorem blob_kept_through_other_delete :
    let after := (Runs.run (deskStep (.knowing []))
      ⟨⟨mirrored ["alice", "bob"], seenAuthEvents⟩, fun _ => none⟩
      [.other (.nip96Delete (sha256Hex [1]) "bob")]).world.server
    "alice" ∈ (ledger after).owners (sha256Hex [1]) ∧ (contents after (sha256Hex [1])).isSome := by
  obtain ⟨hreach, haccess⟩ := reachable_mirrored ["alice", "bob"]
  refine owned_blob_kept (consistent_of_reachable hreach) (by decide +kernel)
    (fun _ _ _ _ _ _ => ⟨_, _, rfl⟩) ?_
  rintro pre part post hsplit
  rcases List.singleton_eq_append_iff.mp hsplit with ⟨rfl, h⟩ | ⟨-, h⟩
  · cases h
    rintro (⟨⟨⟩⟩ | ⟨-, _, ⟨⟩, hsame | hadmin⟩)
    · exact absurd hsame (by decide)
    · rw [Runs.run_nil, ServerState.role, haccess] at hadmin
      cases hadmin
  · cases h

end BlossomRs.System

import BlossomRs.System.Consistency

/-!
# Owners of blobs

A blob is held by its owners: a member who deletes drops a reference, and the bytes go with the last
one.  Three endpoints delete for members, each with its own order of calls; what they do to a
consistent state is the same (`MemberDelete`).
-/

namespace BlossomRs.System

open Protocol Storage Database Lfs Locks Server

variable {β δ ν κ : Type} {s s' : ServerState β δ ν κ}

variable [BlobBackend β] [BlobDatabase δ] [LawfulBlobDatabase δ]

/-- The calls a member's delete makes from a state succeed: the lookup of the owner, for an owner the
count, next to other owners the release of the reference, and for the last owner the calls of the
removal, which reports the first one that fails. -/
structure CallsSucceed
    (remove : ServerState β δ ν κ → Except RemovalError Bool × ServerState β δ ν κ)
    (hash pubkey : String) (s : ServerState β δ ν κ) : Prop where
  isUploadOwner : ∃ owner, BlobDatabase.isUploadOwner s.database hash pubkey = .ok owner
  uploadOwnerCount : pubkey ∈ (ledger s).owners hash →
    ∃ count, BlobDatabase.uploadOwnerCount s.database hash = .ok count
  deleteUploadOwner : pubkey ∈ (ledger s).owners hash → 1 < ((ledger s).owners hash).card →
    ∃ existed database,
      BlobDatabase.deleteUploadOwner s.database hash pubkey = (.ok existed, database)
  removal : (ledger s).owners hash = {pubkey} → ∀ error, (remove s).1 ≠ .error error

/-- What a member's delete of a hash does: nothing for somebody who does not own it, one reference
less while others own it, and bytes, record and references gone for the last owner. -/
structure MemberDelete (hash pubkey : String) (s s' : ServerState β δ ν κ) : Prop where
  foreign : pubkey ∉ (ledger s).owners hash → s' = s
  shared : ∀ other ∈ (ledger s).owners hash, other ≠ pubkey → pubkey ∈ (ledger s).owners hash →
    (∃ database, s' = { s with database := database })
      ∧ (ledger s').owners = Function.update (ledger s).owners hash
        (((ledger s).owners hash).erase pubkey)
      ∧ (ledger s').uploads = (ledger s).uploads
      ∧ ∀ user, user ≠ pubkey → (ledger s').used user = (ledger s).used user
  last : (ledger s).owners hash = {pubkey} →
    contents s' hash = none ∧ (ledger s').uploads hash = none ∧ (ledger s').owners hash = ∅

/-- A removal of a hash that went through. -/
def Removed (hash : String) (result : Except RemovalError Bool × ServerState β δ ν κ) : Prop :=
  ∃ after, result = (.ok true, after) ∧ contents after hash = none
    ∧ (ledger after).uploads hash = none ∧ (ledger after).owners hash = ∅

variable {hash pubkey : String}

section

variable {remove : ServerState β δ ν κ → Except RemovalError Bool × ServerState β δ ν κ}
  (hrole : s.role pubkey = .member) (hcalls : CallsSucceed remove hash pubkey s)
include hrole hcalls

omit [BlobBackend β] in
/-- The rule on owners, for a member. -/
theorem ownerDecision_member :
    (pubkey ∉ (ledger s).owners hash ∧ ownerDecision hash pubkey s = (.notOwner, s))
      ∨ (pubkey ∈ (ledger s).owners hash ∧ 1 < ((ledger s).owners hash).card
        ∧ ∃ existed database,
          BlobDatabase.deleteUploadOwner s.database hash pubkey = (.ok existed, database)
          ∧ ownerDecision hash pubkey s = (.released, { s with database := database }))
      ∨ ((ledger s).owners hash = {pubkey} ∧ ownerDecision hash pubkey s = (.proceed, s)) := by
  obtain ⟨owner, howner⟩ := hcalls.isUploadOwner
  have howner_eq := LawfulBlobDatabase.isUploadOwner_eq howner
  have hisOwner : isOwner s.database hash pubkey = owner := by rw [isOwner, howner]
  simp only [ownerDecision, hrole, hisOwner]
  by_cases hmem : pubkey ∈ (ledger s).owners hash
  · have htrue : owner = true := by simpa [howner_eq] using hmem
    obtain ⟨count, hcount⟩ := hcalls.uploadOwnerCount hmem
    have hcount_eq := LawfulBlobDatabase.uploadOwnerCount_eq hcount
    rw [if_pos htrue, hcount]
    dsimp only
    refine Or.inr ?_
    by_cases hmany : 1 < count
    · have hcard : 1 < ((ledger s).owners hash).card := hcount_eq ▸ hmany
      obtain ⟨existed, database, hrelease⟩ := hcalls.deleteUploadOwner hmem hcard
      rw [if_pos hmany, releaseReference, hrelease]
      exact Or.inl ⟨hmem, hcard, existed, database, rfl, rfl⟩
    · rw [if_neg hmany]
      refine Or.inr ⟨?_, rfl⟩
      have hcard : ((ledger s).owners hash).card ≤ 1 := by
        rw [ledger, ← hcount_eq]
        exact not_lt.mp hmany
      exact Finset.eq_singleton_iff_unique_mem.mpr
        ⟨hmem, fun other hother => Finset.card_le_one.mp hcard other hother pubkey hmem⟩
  · have hfalse : ¬ owner = true := by simpa [howner_eq] using hmem
    rw [if_neg hfalse]
    exact Or.inl ⟨hmem, rfl⟩

/-- A delete that follows the rule on owners does what a member's delete should, if its removal
does. -/
theorem memberDelete_of_rule (hforeign : ownerDecision hash pubkey s = (.notOwner, s) → s' = s)
    (hreleased : ∀ database, ownerDecision hash pubkey s
      = (.released, { s with database := database }) → s' = { s with database := database })
    (hproceed : (ledger s).owners hash = {pubkey} →
      ownerDecision hash pubkey s = (.proceed, s) →
      Removed hash (.ok true, s')) :
    MemberDelete hash pubkey s s' := by
  rcases ownerDecision_member hrole hcalls with
    ⟨hnot, hdecision⟩ | ⟨hmem, hmany, existed, database, hrelease, hdecision⟩ | ⟨hlast, hdecision⟩
  · refine ⟨fun _ => hforeign hdecision, fun _ _ _ hmem => absurd hmem hnot, fun hlast => ?_⟩
    exact absurd (hlast ▸ Finset.mem_singleton_self pubkey) hnot
  · obtain rfl := hreleased database hdecision
    obtain ⟨howners, huploads, hused, -⟩ := LawfulBlobDatabase.deleteUploadOwner_ok hrelease
    refine ⟨fun hnot => absurd hmem hnot, fun _ _ _ _ => ⟨⟨database, rfl⟩, howners, huploads, hused⟩,
      fun hlast => ?_⟩
    rw [hlast, Finset.card_singleton] at hmany
    exact absurd hmany (lt_irrefl 1)
  · obtain ⟨after, heq, hgone⟩ := hproceed hlast hdecision
    cases heq
    refine ⟨fun hnot => ?_, fun other hother hne => ?_, fun _ => hgone⟩
    · exact absurd (hlast ▸ Finset.mem_singleton_self pubkey) hnot
    · rw [hlast, Finset.mem_singleton] at hother
      exact absurd hother hne

/-- The HTTP endpoints follow the rule. -/
theorem memberDelete_deleteAs {endpoint : DeleteEndpoint}
    (hremove : (ledger s).owners hash = {pubkey} → Removed hash (remove s)) :
    MemberDelete hash pubkey s (deleteAs endpoint remove hash pubkey s).2 := by
  refine memberDelete_of_rule hrole hcalls (fun h => ?_) (fun database h => ?_) fun hlast h => ?_
  · rw [deleteAs, h]
  · rw [deleteAs, h]
  · obtain ⟨after, hafter, hgone⟩ := hremove hlast
    simp only [deleteAs, h, hafter]
    exact ⟨after, rfl, hgone⟩

/-- So does the delete of a stream. -/
theorem memberDelete_stream [LfsVersionDatabase ν] {ext : Transport.Externals} {call : Call}
    (hremove : (ledger s).owners hash = {pubkey} →
      Removed hash (removeRebased ext.toExternals call.clock hash s)) :
    MemberDelete hash pubkey s (Transport.handleDelete ext call hash (some pubkey) s).2 := by
  refine memberDelete_of_rule hrole hcalls (fun h => ?_) (fun database h => ?_) fun hlast h => ?_
  · rw [Transport.handleDelete, Transport.deleteAs, h]
  · rw [Transport.handleDelete, Transport.deleteAs, h]
  · obtain ⟨after, hafter, hgone⟩ := hremove hlast
    simp only [Transport.handleDelete, Transport.deleteAs, h, hafter]
    exact ⟨after, rfl, hgone⟩

end

variable [LawfulBlobBackend β]

omit [LawfulBlobDatabase δ] in
/-- Stored bytes are removed unless a call fails. -/
theorem removeStored_of_stored (hstored : (contents s hash).isSome)
    (hcalls : ∀ error, (removeStored hash s).1 ≠ .error error) :
    (removeStored hash s).1 = .ok true := by
  cases hresult : (removeStored hash s).1 with
  | error error => exact absurd hresult (hcalls error)
  | ok existed =>
    unfold removeStored at hresult
    split at hresult
    · cases hresult
    · rename_i hdelete
      have hexisted := (LawfulBlobBackend.get_tryDelete hdelete).1
      rw [show (BlobBackend.get s.backend hash).isSome = true from hstored] at hexisted
      cases hexisted
    · split at hresult
      · cases hresult
      · exact hresult.symm ▸ rfl

/-- An owned blob is removed. -/
theorem removed_removeStored (h : Consistent s) (hdone : (removeStored hash s).1 = .ok true) :
    Removed hash (removeStored hash s) := by
  have hdeletes : MetadataDeletes hash s := by
    unfold removeStored at hdone
    split at hdone
    · cases hdone
    · cases hdone
    · split at hdone
      · cases hdone
      · exact ⟨_, _, by assumption⟩
  refine ⟨(removeStored hash s).2, Prod.ext hdone rfl, ?_⟩
  rcases removeStored_spec hdeletes (h.recorded hash) with
    ⟨-, -, hnot⟩ | ⟨-, hcontents, huploads, howners⟩
  · exact absurd hdone hnot
  · rw [hcontents, huploads, howners]
    simp

variable [LfsVersionDatabase ν]

omit [LawfulBlobDatabase δ] in
/-- So they are when the deltas on them are rewritten first. -/
theorem removeRebased_of_stored {ext : Server.Externals} {clock : Nat → Nat}
    (hstored : (contents s hash).isSome)
    (hcalls : ∀ error, (removeRebased ext clock hash s).1 ≠ .error error) :
    ∃ s₁, rebaseDeltas ext clock (deltasToRebase hash s) s = (.ok (), s₁)
      ∧ (removeStored hash s₁).1 = .ok true
      ∧ removeRebased ext clock hash s = (.ok true, forgetVersions hash (removeStored hash s₁).2) := by
  unfold removeRebased at hcalls ⊢
  rcases hrebase : rebaseDeltas ext clock (deltasToRebase hash s) s with ⟨error | _, s₁⟩
  · rw [hrebase] at hcalls
    exact absurd rfl (hcalls error)
  · rw [hrebase] at hcalls
    have hdone : (removeStored hash s₁).1 = .ok true := by
      refine removeStored_of_stored ((rebaseDeltas_frame hrebase).2 hash hstored) fun error herror => ?_
      refine hcalls error ?_
      dsimp only
      split
      · rename_i heq
        rw [heq] at herror
        cases herror
      · rename_i heq
        rw [heq] at herror
        exact herror
    refine ⟨s₁, rfl, hdone, ?_⟩
    obtain ⟨s₂, hs₂⟩ : ∃ s₂, removeStored hash s₁ = (.ok true, s₂) := ⟨_, Prod.ext hdone rfl⟩
    dsimp only
    rw [hs₂]

/-- So it is when the deltas on it are rewritten first. -/
theorem removed_removeRebased (h : Consistent s) {ext : Server.Externals} {clock : Nat → Nat}
    (hcalls : CallsSucceed (removeRebased ext clock hash) hash pubkey s)
    (hlast : (ledger s).owners hash = {pubkey}) : Removed hash (removeRebased ext clock hash s) := by
  have hstored := h.stored hash (hlast ▸ Finset.singleton_nonempty pubkey)
  obtain ⟨s₁, hrebase, hdone, hresult⟩ := removeRebased_of_stored hstored (hcalls.removal hlast)
  obtain ⟨hdatabase, hgrows⟩ := rebaseDeltas_frame hrebase
  have hledger : ledger s₁ = ledger s := by rw [ledger, hdatabase]
  obtain ⟨after, hafter, hgone⟩ := removed_removeStored (h.grow hgrows hledger) hdone
  rw [hresult, hafter]
  exact ⟨forgetVersions hash after, rfl, hgone⟩

variable [LockDatabase κ]

/-- **A member's delete drops the member's reference**, through every endpoint and in every reachable
state, when the calls it makes succeed: nothing changes for somebody who does not own the blob, the
others keep it while there are others, and it is gone with its last owner. -/
theorem member_delete_drops_reference {ext : Transport.Externals} (hreach : Reachable ext s)
    (hrole : s.role pubkey = .member) :
    (∀ (call : Call) (headers : HeaderMap) (seen : ReplayCache) (event : NostrEvent),
      isValidSha256 hash = true → extractAuthEvent ext.parser headers = .ok event →
      event.pubkey = pubkey →
      (verifyAuthEvent ext.toExternals (call.clock 0) (call.clock 1) seen event "delete" s.baseUrl
        ("/" ++ hash) "DELETE" (some hash)).1 = .ok () →
      CallsSucceed (removeRebased ext.toExternals (fun i => call.clock (i + 2)) hash) hash pubkey s →
      MemberDelete hash pubkey s (handleDeleteBlob ext.toExternals call headers hash ⟨s, seen⟩).2.server)
      ∧ (∀ (call : Call) (headers : HeaderMap) (seen : ReplayCache) (event : NostrEvent),
        isValidSha256 hash = true → extractAuthEvent ext.parser headers = .ok event →
        event.pubkey = pubkey →
        (verifyAuthEvent ext.toExternals (call.clock 0) (call.clock 1) seen event "delete"
          s.baseUrl ("/n96/" ++ hash) "DELETE" (some hash)).1 = .ok () →
        CallsSucceed (removeStored hash) hash pubkey s →
        MemberDelete hash pubkey s
          (handleNip96Delete ext.toExternals call headers hash ⟨s, seen⟩).2.server)
      ∧ ∀ call : Call, CallsSucceed (removeRebased ext.toExternals call.clock hash) hash pubkey s →
        MemberDelete hash pubkey s (Transport.handleDelete ext call hash (some pubkey) s).2 := by
  have hconsistent := consistent_of_reachable hreach
  refine ⟨?_, ?_, ?_⟩
  · intro call headers seen event hvalid hevent hpubkey hauth hcalls
    obtain ⟨seen', hverify⟩ : ∃ seen', verifyAuthEvent ext.toExternals (call.clock 0) (call.clock 1)
        seen event "delete" s.baseUrl ("/" ++ hash) "DELETE" (some hash) = (.ok (), seen') :=
      ⟨_, Prod.ext hauth rfl⟩
    subst hpubkey
    simp only [handleDeleteBlob, hvalid, hevent, hverify, Bool.not_true, Bool.false_eq_true, if_false]
    exact memberDelete_deleteAs hrole hcalls (removed_removeRebased hconsistent hcalls)
  · intro call headers seen event hvalid hevent hpubkey hauth hcalls
    obtain ⟨seen', hverify⟩ : ∃ seen', verifyAuthEvent ext.toExternals (call.clock 0) (call.clock 1)
        seen event "delete" s.baseUrl ("/n96/" ++ hash) "DELETE" (some hash) = (.ok (), seen') :=
      ⟨_, Prod.ext hauth rfl⟩
    subst hpubkey
    simp only [handleNip96Delete, hvalid, hevent, hverify, Bool.not_true, Bool.false_eq_true,
      if_false]
    refine memberDelete_deleteAs hrole hcalls fun hlast => ?_
    have hstored := hconsistent.stored hash (hlast ▸ Finset.singleton_nonempty _)
    exact removed_removeStored hconsistent (removeStored_of_stored hstored (hcalls.removal hlast))
  · intro call hcalls
    exact memberDelete_stream hrole hcalls (removed_removeRebased hconsistent hcalls)

omit [BlobDatabase δ] [LawfulBlobDatabase δ] [LockDatabase κ] in
/-- Rewriting deltas in memory does not fail. -/
theorem rebaseDeltas_memory (ext : Server.Externals) (clock : Nat → Nat)
    (deltas : List LfsFileVersion) (s : ServerState MemoryBackend δ MemoryLfsVersionDatabase κ) :
    ∃ s', rebaseDeltas ext clock deltas s = (.ok (), s') := by
  induction deltas generalizing s clock with
  | nil => exact ⟨s, rfl⟩
  | cons delta deltas ih =>
    unfold rebaseDeltas
    cases s.lfsVersionDb with
    | none => exact ⟨s, rfl⟩
    | some db =>
      dsimp only
      unfold rebaseDelta
      cases deltaContent ext db s.backend delta with
      | none => exact ih _ _
      | some content => exact ih _ _

omit [LockDatabase κ] in
/-- The in-memory stores never fail. -/
theorem removal_memory (hash : String)
    (s : ServerState MemoryBackend MemoryDatabase MemoryLfsVersionDatabase κ) :
    (∀ error, (removeStored hash s).1 ≠ .error error)
      ∧ ∀ ext clock error, (removeRebased ext clock hash s).1 ≠ .error error := by
  have hstored : ∀ (s : ServerState MemoryBackend MemoryDatabase MemoryLfsVersionDatabase κ) error,
      (removeStored hash s).1 ≠ .error error := by
    intro s error herror
    unfold removeStored at herror
    split at herror
    · rename_i hfailed
      cases hfailed
    · cases herror
    · split at herror
      · rename_i hfailed
        cases hfailed
      · cases herror
  refine ⟨hstored s, fun ext clock error => ?_⟩
  obtain ⟨s', hrebase⟩ := rebaseDeltas_memory ext clock (deltasToRebase hash s) s
  simp only [removeRebased, hrebase]
  split
  · simp
  · rename_i heq
    have hfails := hstored s' error
    rw [heq] at hfails
    exact hfails

/-- A new server on which the given keys have mirrored a blob of one byte. -/
def mirrored (pubkeys : List String) :
    ServerState MemoryBackend MemoryDatabase MemoryLfsVersionDatabase MemoryLockDatabase :=
  pubkeys.foldl (fun s pubkey =>
    ((Section.mirror ⟨fun _ => 0, 0, 0⟩ pubkey [1]).run (.knowing []) s).2) (.new .new "")

theorem reachable_mirrored (pubkeys : List String) :
    Reachable (.knowing []) (mirrored pubkeys) ∧ (mirrored pubkeys).access = .openAccess := by
  induction pubkeys using List.reverseRecOn with
  | nil =>
    refine ⟨.start _ ?_, rfl⟩
    intro hash
    rfl
  | append_singleton pubkeys pubkey ih =>
    rw [mirrored, List.foldl_append]
    refine ⟨.step _ _ ih.1 (fun hash hremoves => nomatch hremoves), ?_⟩
    exact (samePolicy_run (.knowing []) (.mirror ⟨fun _ => 0, 0, 0⟩ pubkey [1]) (mirrored pubkeys)
      not_false).access.trans ih.2

/-- Two keys own a blob, and one of them deletes it on a stream; the one that is left deletes it for
good. -/
theorem shared_delete_drops_reference :
    MemberDelete (sha256Hex [1]) "alice" (mirrored ["alice", "bob"])
        (Transport.handleDelete (.knowing []) ⟨fun _ => 0, 0, 0⟩ (sha256Hex [1]) (some "alice")
          (mirrored ["alice", "bob"])).2
      ∧ MemberDelete (sha256Hex [1]) "alice" (mirrored ["alice"])
        (Transport.handleDelete (.knowing []) ⟨fun _ => 0, 0, 0⟩ (sha256Hex [1]) (some "alice")
          (mirrored ["alice"])).2 := by
  have hdelete : ∀ pubkeys : List String, MemberDelete (sha256Hex [1]) "alice" (mirrored pubkeys)
      (Transport.handleDelete (.knowing []) ⟨fun _ => 0, 0, 0⟩ (sha256Hex [1]) (some "alice")
        (mirrored pubkeys)).2 := by
    intro pubkeys
    obtain ⟨hreach, haccess⟩ := reachable_mirrored pubkeys
    have hrole : (mirrored pubkeys).role "alice" = .member := by
      rw [ServerState.role, haccess]
      rfl
    exact (member_delete_drops_reference hreach hrole).2.2 _
      ⟨⟨_, rfl⟩, fun _ => ⟨_, rfl⟩, fun _ _ => ⟨_, _, rfl⟩, fun _ => (removal_memory _ _).2 _ _⟩
  exact ⟨hdelete ["alice", "bob"], hdelete ["alice"]⟩

end BlossomRs.System

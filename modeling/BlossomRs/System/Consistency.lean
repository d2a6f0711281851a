import BlossomRs.System.Effects

/-!
# Bytes and references

The references to a blob are rows of the metadata database and its bytes are in the backend.
`Consistent` is what ties them together: what somebody owns is stored and recorded.

Every section keeps a state consistent (`Consistent.run`), whichever of its calls fail, with one
exception: a delete that has removed the bytes must get to remove the metadata.  `Reachable` are the
states of runs in which it does.
-/

namespace BlossomRs.System

open Protocol Storage Database Lfs Locks Server

variable {β δ ν κ : Type} {s s' : ServerState β δ ν κ}

/-! ### Bytes -/

section Contents

variable [BlobBackend β]

/-- The stored bytes of each hash. -/
abbrev contents (s : ServerState β δ ν κ) : String → Option Bytes :=
  BlobBackend.get s.backend

/-- No stored blob is lost. -/
def Grows (s s' : ServerState β δ ν κ) : Prop :=
  ∀ hash, (contents s hash).isSome → (contents s' hash).isSome

theorem grows_of_eq (h : contents s' = contents s) : Grows s s' := by
  intro hash hhash
  rw [h]
  exact hhash

theorem grows_of_update {hash : String} {data : Bytes}
    (h : contents s' = Function.update (contents s) hash (some data)) : Grows s s' := by
  intro other hother
  rw [h]
  by_cases hsame : other = hash
  · subst hsame
    simp
  · rwa [Function.update_of_ne hsame]

variable [LawfulBlobBackend β] [LfsVersionDatabase ν]

variable {ext : Server.Externals} {result : Except RemovalError Unit}

theorem storeUpload_frame {ctx : LfsContext} {hash : String} {data : Bytes}
    {insertNow recordNow : Nat} {result : Except String Unit}
    (h : storeUpload ext ctx hash data insertNow recordNow s = (result, s')) :
    s'.database = s.database ∧ Grows s s' ∧ (result = .ok () → (contents s' hash).isSome) := by
  unfold storeUpload at h
  dsimp only at h
  split at h
  case h_1 hinsert =>
    cases h
    exact ⟨rfl, grows_of_eq (get_insertIfAbsent_error hinsert), fun hok => nomatch hok⟩
  case h_2 hinsert =>
    cases h
    have hget := get_insertIfAbsent hinsert
    by_cases hstored : (BlobBackend.get s.backend hash).isSome
    · rw [if_pos hstored] at hget
      refine ⟨rfl, grows_of_eq hget, fun _ => ?_⟩
      rw [contents, hget]
      exact hstored
    · rw [if_neg hstored] at hget
      refine ⟨rfl, grows_of_update hget, fun _ => ?_⟩
      rw [contents, hget, Function.update_self]
      rfl

omit [LfsVersionDatabase ν] in
theorem storeWhole_frame {data : Bytes} {now : Nat} {result : Except String Unit}
    (h : storeWhole data now s = (result, s')) :
    s'.database = s.database ∧ Grows s s'
      ∧ (result = .ok () → (contents s' (sha256Hex data)).isSome) := by
  unfold storeWhole at h
  split at h
  case h_1 hinsert =>
    cases h
    exact ⟨rfl, grows_of_eq (LawfulBlobBackend.get_tryInsert_error hinsert), fun hok => nomatch hok⟩
  case h_2 hinsert =>
    cases h
    have hget := (LawfulBlobBackend.get_tryInsert hinsert).2
    refine ⟨rfl, grows_of_update hget, fun _ => ?_⟩
    rw [contents, hget, Function.update_self]
    rfl

/-- Whatever a section stores, its bytes are there afterwards. -/
theorem store_frame {part : Section} {data : Bytes} (hstores : part.stores = some data)
    {result : Except String Unit} (h : part.store ext s = (result, s')) :
    s'.database = s.database ∧ Grows s s'
      ∧ (result = .ok () → (contents s' (sha256Hex data)).isSome) := by
  cases part with
  | upload => exact Option.some.inj hstores ▸ storeUpload_frame h
  | stream =>
    simp only [Section.stores] at hstores
    split at hstores
    · exact Option.some.inj hstores ▸ storeUpload_frame h
    · cases hstores
  | nip96Upload | mediaUpload | mirror => exact Option.some.inj hstores ▸ storeWhole_frame h
  | _ => cases hstores

/-- Rewriting a delta stores its hash again. -/
theorem rebaseDelta_frame {now : Nat} {db : ν} {delta : LfsFileVersion}
    (h : rebaseDelta ext now db delta s = (result, s')) :
    s'.database = s.database ∧ Grows s s' := by
  unfold rebaseDelta at h
  split at h
  · cases h
    exact ⟨rfl, grows_of_eq rfl⟩
  · split at h
    case h_1 hinsert =>
      cases h
      exact ⟨rfl, grows_of_eq (LawfulBlobBackend.get_tryInsertWithHash_error hinsert)⟩
    case h_2 hinsert =>
      have hget := LawfulBlobBackend.get_tryInsertWithHash hinsert
      split at h
      · cases h
        exact ⟨rfl, grows_of_update hget⟩
      · cases h
        exact ⟨rfl, grows_of_update hget⟩

theorem rebaseDeltas_frame {clock : Nat → Nat} {deltas : List LfsFileVersion}
    (h : rebaseDeltas ext clock deltas s = (result, s')) :
    s'.database = s.database ∧ Grows s s' := by
  have hloop : (rebaseDeltas ext clock deltas s).2.database = s.database
      ∧ Grows s (rebaseDeltas ext clock deltas s).2 := by
    refine rebaseDeltas_invariant (P := fun s' => s'.database = s.database ∧ Grows s s') ?_ clock
      deltas ⟨rfl, grows_of_eq rfl⟩
    rintro now db delta s₁ - ⟨hdatabase, hgrows⟩
    obtain ⟨hdatabase', hgrows'⟩ := rebaseDelta_frame (Prod.eta (rebaseDelta ext now db delta s₁)).symm
    exact ⟨hdatabase'.trans hdatabase, fun hash hhash => hgrows' hash (hgrows hash hhash)⟩
  rwa [h] at hloop

end Contents

/-! ### References -/

variable [BlobBackend β] [BlobDatabase δ] [LawfulBlobDatabase δ]

/-- The ledger of a state. -/
abbrev ledger (s : ServerState β δ ν κ) : Ledger :=
  LawfulBlobDatabase.ledger s.database

/-- What somebody owns is stored and recorded. -/
structure Consistent (s : ServerState β δ ν κ) : Prop where
  stored : ∀ hash, ((ledger s).owners hash).Nonempty → (contents s hash).isSome
  recorded : ∀ hash, ((ledger s).owners hash).Nonempty → ((ledger s).uploads hash).isSome

section

variable (h : Consistent s)
include h

/-- Storing more and changing no reference keeps a state consistent. -/
theorem Consistent.grow (hgrows : Grows s s') (hledger : ledger s' = ledger s) :
    Consistent s' where
  stored hash hnonempty := hgrows hash (h.stored hash (hledger ▸ hnonempty))
  recorded hash hnonempty := hledger ▸ h.recorded hash (hledger ▸ hnonempty)

/-- Dropping references keeps a state consistent. -/
theorem Consistent.shrink (hcontents : contents s' = contents s)
    (howners : ∀ hash, (ledger s').owners hash ⊆ (ledger s).owners hash)
    (huploads : (ledger s').uploads = (ledger s).uploads) : Consistent s' where
  stored hash hnonempty := by
    rw [hcontents]
    exact h.stored hash (hnonempty.mono (howners hash))
  recorded hash hnonempty := by
    rw [huploads]
    exact h.recorded hash (hnonempty.mono (howners hash))

/-- Dropping a record with all its references keeps a state consistent. -/
theorem Consistent.drop {hash : String}
    (hcontents : ∀ other, other ≠ hash → contents s' other = contents s other)
    (howners : (ledger s').owners = Function.update (ledger s).owners hash ∅)
    (huploads : (ledger s').uploads = Function.update (ledger s).uploads hash none) :
    Consistent s' := by
  have hothers : ∀ other, ((ledger s').owners other).Nonempty →
      other ≠ hash ∧ ((ledger s).owners other).Nonempty := by
    intro other hnonempty
    rw [howners] at hnonempty
    by_cases hsame : other = hash
    · subst hsame
      simp at hnonempty
    · rw [Function.update_of_ne hsame] at hnonempty
      exact ⟨hsame, hnonempty⟩
  constructor
  · intro other hnonempty
    obtain ⟨hne, hold⟩ := hothers other hnonempty
    rw [hcontents other hne]
    exact h.stored other hold
  · intro other hnonempty
    obtain ⟨hne, hold⟩ := hothers other hnonempty
    rw [huploads, Function.update_of_ne hne]
    exact h.recorded other hold

/-- A new reference to stored bytes keeps a state consistent, and so does one that is refused. -/
theorem Consistent.recordUpload {record : UploadRecord} {database : δ}
    {result : Except DbError Unit}
    (hrecord : BlobDatabase.recordUpload s.database record = (result, database))
    (hstored : (contents s record.sha256).isSome) :
    Consistent { s with database := database } := by
  cases result with
  | error e => exact h.grow (grows_of_eq rfl) (LawfulBlobDatabase.recordUpload_error hrecord)
  | ok value =>
    obtain ⟨howners, hnew, hold, -⟩ := LawfulBlobDatabase.recordUpload_ok hrecord
    have hothers : ∀ hash, hash ≠ record.sha256 →
        ((ledger { s with database := database }).owners hash).Nonempty →
        ((ledger s).owners hash).Nonempty := by
      intro hash hne hnonempty
      rwa [ledger, howners, Function.update_of_ne hne] at hnonempty
    constructor
    · intro hash hnonempty
      by_cases hsame : hash = record.sha256
      · exact hsame ▸ hstored
      · exact h.stored hash (hothers hash hsame hnonempty)
    · intro hash hnonempty
      by_cases hsame : hash = record.sha256
      · subst hsame
        by_cases howner : record.pubkey ∈ (ledger s).owners record.sha256
        · -- an owner already: the record was there
          have hsome := h.recorded record.sha256 ⟨_, howner⟩
          rw [ledger, hold _ (Or.inr hsome)]
          exact hsome
        · exact hnew howner
      · rw [ledger, hold hash (Or.inl hsame)]
        exact h.recorded hash (hothers hash hsame hnonempty)

end

variable {hash pubkey : String}

omit [BlobBackend β] in
/-- What the rule on owners leaves behind: the state as it was, or one reference less. -/
theorem ownerDecision_spec {decision : OwnerDecision}
    (h : ownerDecision hash pubkey s = (decision, s')) :
    s'.backend = s.backend ∧ s'.lfsVersionDb = s.lfsVersionDb
      ∧ ((decision ≠ .released ∧ ledger s' = ledger s)
        ∨ (decision = .released
          ∧ (ledger s').owners = Function.update (ledger s).owners hash
            (((ledger s).owners hash).erase pubkey)
          ∧ (ledger s').uploads = (ledger s).uploads
          ∧ ∀ other, other ≠ pubkey → (ledger s').used other = (ledger s).used other)) := by
  unfold ownerDecision at h
  split at h
  · cases h
    exact ⟨rfl, rfl, Or.inl ⟨nofun, rfl⟩⟩
  · cases h
    exact ⟨rfl, rfl, Or.inl ⟨nofun, rfl⟩⟩
  · split at h
    · split at h
      · cases h
        exact ⟨rfl, rfl, Or.inl ⟨nofun, rfl⟩⟩
      · split at h
        · unfold releaseReference at h
          split at h
          case h_1 herror =>
            cases h
            exact ⟨rfl, rfl,
              Or.inl ⟨nofun, LawfulBlobDatabase.deleteUploadOwner_error herror⟩⟩
          case h_2 hok =>
            cases h
            obtain ⟨howners, huploads, hused, -⟩ := LawfulBlobDatabase.deleteUploadOwner_ok hok
            exact ⟨rfl, rfl, Or.inr ⟨rfl, howners, huploads, hused⟩⟩
        · cases h
          exact ⟨rfl, rfl, Or.inl ⟨nofun, rfl⟩⟩
    · cases h
      exact ⟨rfl, rfl, Or.inl ⟨nofun, rfl⟩⟩

omit [BlobBackend β] in
/-- Deleting the record of a hash drops all references to it. -/
theorem owners_of_deleteUpload {existed : Bool} {database : δ}
    (hdelete : BlobDatabase.deleteUpload s.database hash = (.ok existed, database))
    (hrecorded : ((ledger s).owners hash).Nonempty → ((ledger s).uploads hash).isSome) :
    (LawfulBlobDatabase.ledger database).owners = Function.update (ledger s).owners hash ∅ := by
  rw [(LawfulBlobDatabase.deleteUpload_ok hdelete).2.1]
  split
  · rfl
  · -- not recorded, so nobody owned it
    rename_i hnot
    have hempty : (ledger s).owners hash = ∅ :=
      Finset.not_nonempty_iff_eq_empty.mp fun hnonempty => hnot (hrecorded hnonempty)
    exact (Function.update_eq_self_iff.mpr hempty.symm).symm

/-- A call that records nothing keeps a state consistent. -/
theorem Consistent.call (h : Consistent s) {scope : CallScope} {database : δ}
    (hcall : DbCall scope s.database database) (hrecord : ∀ record, ¬ scope.record record) :
    Consistent { s with database := database } := by
  have hsame : ∀ {database : δ}, LawfulBlobDatabase.ledger database = ledger s →
      Consistent { s with database := database } := by
    intro database hledger
    exact h.grow (grows_of_eq rfl) hledger
  cases hcall with
  | recordUpload record hscope => exact absurd hscope (hrecord record)
  | deleteUpload hash =>
    rcases hdelete : BlobDatabase.deleteUpload s.database hash with ⟨e | existed, database⟩
    · exact hsame (LawfulBlobDatabase.deleteUpload_error hdelete)
    · exact h.drop (fun _ _ => rfl) (owners_of_deleteUpload hdelete (h.recorded hash))
        (LawfulBlobDatabase.deleteUpload_ok hdelete).1
  | deleteUploadOwner hash pubkey =>
    rcases hdelete : BlobDatabase.deleteUploadOwner s.database hash pubkey with ⟨e | value, database⟩
    · exact hsame (LawfulBlobDatabase.deleteUploadOwner_error hdelete)
    · obtain ⟨howners, huploads, -⟩ := LawfulBlobDatabase.deleteUploadOwner_ok hdelete
      refine h.shrink rfl (fun other => ?_) huploads
      rw [ledger, howners]
      by_cases hother : other = hash
      · subst hother
        rw [Function.update_self]
        exact Finset.erase_subset _ _
      · rw [Function.update_of_ne hother]
  | getOrCreateUser pubkey => exact hsame (LawfulBlobDatabase.getOrCreateUser_eq _ _)
  | setQuota pubkey quotaBytes =>
    rcases hquota : BlobDatabase.setQuota s.database pubkey quotaBytes with ⟨e | value, database⟩
    · exact hsame (LawfulBlobDatabase.setQuota_error hquota)
    · have hledger := LawfulBlobDatabase.setQuota_ok hquota
      exact h.shrink rfl (fun _ => by rw [ledger, hledger]) (by rw [ledger, hledger])
  | setRole pubkey role => exact hsame (LawfulBlobDatabase.setRole_eq _ _ _)
  | recordAccess hash bytesServed now => exact hsame (LawfulBlobDatabase.recordAccess_eq _ _ _ _)

/-- Effects that neither record nor touch a blob keep a state consistent. -/
theorem Consistent.effects (h : Consistent s) {reach : Reach} (heffects : Effects reach s s')
    (hrecord : ∀ record, ¬ reach.record record) (hblobs : ¬ reach.blobs) : Consistent s' := by
  induction heffects with
  | refl => exact h
  | tail _ heffect ih =>
    cases heffect with
    | call hcall => exact ih.call hcall hrecord
    | blobs _ _ hwrites => exact absurd hwrites hblobs
    | _ => exact ih.grow (grows_of_eq rfl) rfl

variable [LawfulBlobBackend β]

/-- The metadata delete of a hash succeeds. -/
def MetadataDeletes (hash : String) (s : ServerState β δ ν κ) : Prop :=
  ∃ existed database, BlobDatabase.deleteUpload s.database hash = (.ok existed, database)

/-- What removing a blob amounts to: nothing, when it is not stored or the backend fails, or else
bytes, record and references are gone. -/
theorem removeStored_spec (hdeletes : MetadataDeletes hash s)
    (hrecorded : ((ledger s).owners hash).Nonempty → ((ledger s).uploads hash).isSome) :
    (contents (removeStored hash s).2 = contents s ∧ ledger (removeStored hash s).2 = ledger s
        ∧ (removeStored hash s).1 ≠ .ok true)
      ∨ ((removeStored hash s).1 = .ok true
        ∧ contents (removeStored hash s).2 = Function.update (contents s) hash none
        ∧ (ledger (removeStored hash s).2).uploads = Function.update (ledger s).uploads hash none
        ∧ (ledger (removeStored hash s).2).owners = Function.update (ledger s).owners hash ∅) := by
  obtain ⟨existed, database, hdelete⟩ := hdeletes
  unfold removeStored
  split
  case h_1 herror =>
    exact Or.inl ⟨LawfulBlobBackend.get_tryDelete_error herror, rfl, nofun⟩
  case h_2 hfalse =>
    obtain ⟨hexisted, hget⟩ := LawfulBlobBackend.get_tryDelete hfalse
    refine Or.inl ⟨?_, rfl, nofun⟩
    have hnone : BlobBackend.get s.backend hash = none := by simpa using hexisted.symm
    rw [contents, hget, ← hnone, Function.update_eq_self]
  case h_3 htrue =>
    obtain ⟨-, hget⟩ := LawfulBlobBackend.get_tryDelete htrue
    rw [hdelete]
    exact Or.inr ⟨rfl, hget, (LawfulBlobDatabase.deleteUpload_ok hdelete).1,
      owners_of_deleteUpload hdelete hrecorded⟩

theorem Consistent.removeStored (h : Consistent s) (hdeletes : MetadataDeletes hash s) :
    Consistent (removeStored hash s).2 := by
  rcases removeStored_spec hdeletes (h.recorded hash) with
    ⟨hcontents, hledger, -⟩ | ⟨-, hcontents, huploads, howners⟩
  · exact h.grow (grows_of_eq hcontents) hledger
  · refine h.drop (fun other hother => ?_) howners huploads
    rw [hcontents, Function.update_of_ne hother]

variable [LfsVersionDatabase ν]

theorem Consistent.removeRebased (h : Consistent s) (ext : Server.Externals) (clock : Nat → Nat)
    (hdeletes : MetadataDeletes hash s) :
    Consistent (removeRebased ext clock hash s).2 := by
  unfold Server.removeRebased
  split
  case h_1 hrebase =>
    obtain ⟨hdatabase, hgrows⟩ := rebaseDeltas_frame hrebase
    exact h.grow hgrows (by rw [ledger, hdatabase])
  case h_2 s₁ hrebase =>
    obtain ⟨hdatabase, hgrows⟩ := rebaseDeltas_frame hrebase
    have hmid : Consistent s₁ := h.grow hgrows (by rw [ledger, hdatabase])
    have hdeletes₁ : MetadataDeletes hash s₁ := by
      rw [MetadataDeletes, hdatabase]
      exact hdeletes
    have hremoved := hmid.removeStored hdeletes₁
    split
    case h_1 heq =>
      rw [heq] at hremoved
      exact hremoved.grow (grows_of_eq rfl) rfl
    case h_2 heq => rwa [heq] at hremoved

theorem Consistent.removal (h : Consistent s) (ext : Server.Externals) (part : Section)
    (hdeletes : MetadataDeletes hash s) : Consistent (part.removal ext hash s).2 := by
  cases part with
  | delete | stream => exact h.removeRebased ext _ hdeletes
  | _ => exact h.removeStored hdeletes

/-! ### Sections -/

/-- Storing and then recording. -/
theorem Consistent.commit (h : Consistent s) {ext : Server.Externals} {part : Section} {data : Bytes}
    (hstores : part.stores = some data) {checked : Prop} {owner : String} {ok : Bool}
    (hcommit : Commit checked (part.store ext) owner data s ok s') : Consistent s' := by
  have hmid : ∀ {result s₁}, part.store ext s = (result, s₁) → Consistent s₁ := by
    intro result s₁ hstore
    obtain ⟨hdatabase, hgrows, -⟩ := store_frame hstores hstore
    exact h.grow hgrows (by rw [ledger, hdatabase])
  cases hcommit with
  | refused => exact h
  | unstored _ hstore => exact hmid hstore
  | recorded _ hstore _ hblob hrecord _ =>
    have hstored := (store_frame hstores hstore).2.2 rfl
    rw [← (hblob inferInstance).1] at hstored
    exact (hmid hstore).recordUpload hrecord hstored

variable [LockDatabase κ]

/-- **One section keeps a state consistent**, if the metadata of what it removes can be deleted. -/
theorem Consistent.run (h : Consistent s) (ext : Transport.Externals) (part : Section)
    (hdeletes : ∀ hash, part.removes = some hash → MetadataDeletes hash s) :
    Consistent (part.run ext s).2 := by
  rcases hstores : part.stores with _ | data
  case some =>
    obtain ⟨owner, -, hcommit⟩ := commit_run ext hstores s
    exact h.commit hstores hcommit
  rcases hremoves : part.removes with _ | hash
  case none =>
    refine h.effects (effects_run ext part s) ?_ (by simp [Section.reach, hstores, hremoves])
    simp [Section.reach, hstores]
  rcases deletes_of_removes ext hremoves s with hsection | heffects
  · rw [(run_of_deletes ext hsection).1]
    exact h.removal ext.toExternals part (hdeletes hash hremoves)
  · exact h.effects (heffects .releases trivial) (fun _ => id) id

/-- The states that are reached from a server without owners by sections whose metadata deletes
succeed. -/
inductive Reachable (ext : Transport.Externals) : ServerState β δ ν κ → Prop
  | start (s : ServerState β δ ν κ) (hnone : ∀ hash, (ledger s).owners hash = ∅) : Reachable ext s
  | step (s : ServerState β δ ν κ) (part : Section) (hs : Reachable ext s)
      (hdeletes : ∀ hash, part.removes = some hash → MetadataDeletes hash s) :
      Reachable ext (part.run ext s).2

theorem consistent_of_reachable {ext : Transport.Externals} (h : Reachable ext s) :
    Consistent s := by
  induction h with
  | start s hnone =>
    constructor
    · intro hash hnonempty
      simp [hnone hash] at hnonempty
    · intro hash hnonempty
      simp [hnone hash] at hnonempty
  | step s part _ hdeletes ih => exact ih.run ext part hdeletes

end BlossomRs.System

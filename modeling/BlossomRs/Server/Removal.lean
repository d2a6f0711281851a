import BlossomRs.Lfs.Rebase
import BlossomRs.Server.Delete

/-!
# What a removal does to the blob store

`removeStored` and `removeRebased` work on a backend and a record store behind their interfaces.  On
the blob store of the state they are `Store.remove`, and `Store.rebaseAll` followed by `Store.drop`.

An update of a record store is only pinned down where a hash has a single record, so the loop needs
that of every stored hash (`SinglyRecorded`); each of its rounds keeps it.
-/

namespace BlossomRs.Server

open Storage Database Lfs

variable {β δ ν κ : Type}

/-- Each stored hash has at most one version record. -/
def SinglyRecorded (s : Store) : Prop :=
  ∀ hash, s.Stored hash → (s.records.filter (·.sha256 == hash)).length ≤ 1

/-- Storing a delta in full neither adds bytes for a hash nor records. -/
theorem SinglyRecorded.rebase {s : Store} (h : SinglyRecorded s) (codecs : Codecs)
    (hash : String) : SinglyRecorded (s.rebase codecs hash) := by
  unfold Store.rebase
  cases hcontent : s.contentOf codecs hash with
  | none => exact h
  | some content =>
    have hstored : s.Stored hash := Store.stored_of_contentOf hcontent
    intro other hother
    dsimp only
    rw [Store.length_filter_restore]
    exact h other ((Store.stored_put_iff hstored).mp hother)

variable [BlobBackend β] [LfsVersionDatabase ν] [LawfulLfsVersionDatabase ν]
  {s s' : ServerState β δ ν κ} {ext : Externals}

/-- The content of a stored delta is what a read of the view gives. -/
theorem deltaContent_eq {db : ν} (hdb : s.lfsVersionDb = some db) (delta : LfsFileVersion) :
    deltaContent ext db s.backend delta = s.view.contentOf ext.codecs delta.sha256 := by
  have hlookup := ServerState.getBySha256_eq_lookup hdb
  rw [deltaContent, hlookup, reconstructBlob_eq_chase]
  rfl

section Rebase

variable [LawfulBlobBackend β]

/-- One round of the loop: it goes through, or leaves the store alone. -/
theorem view_rebaseDelta (ext : Externals) (now : Nat) {db : ν} (delta : LfsFileVersion)
    (hdb : s.lfsVersionDb = some db) (hsingle : SinglyRecorded s.view) :
    (rebaseDelta ext now db delta s).2.lfsVersionDb.isSome
      ∧ (((rebaseDelta ext now db delta s).1 = .ok ()
          ∧ (rebaseDelta ext now db delta s).2.view = s.view.rebase ext.codecs delta.sha256)
        ∨ ((rebaseDelta ext now db delta s).1 ≠ .ok ()
          ∧ (rebaseDelta ext now db delta s).2.view = s.view)) := by
  unfold rebaseDelta Store.rebase
  rw [deltaContent_eq hdb]
  cases hcontent : s.view.contentOf ext.codecs delta.sha256 with
  | none => exact ⟨by simp [hdb], Or.inl ⟨rfl, rfl⟩⟩
  | some content =>
    dsimp only
    have hstored : s.view.Stored delta.sha256 := Store.stored_of_contentOf hcontent
    have hrecords : s.view.records = FallibleLfsVersionDatabase.records db := by
      simp [Store.records, ServerState.view, hdb]
    have hone := hsingle delta.sha256 hstored
    rw [hrecords] at hone
    obtain ⟨db', hupdate, hafter⟩ := LawfulLfsVersionDatabase.updateVersion_eq db delta.sha256
      .compressed none content.length hone
    rw [hupdate]
    split
    case h_1 hinsert =>
      refine ⟨by simp [hdb], Or.inr ⟨(by rintro ⟨⟩), ?_⟩⟩
      simp [ServerState.view, LawfulBlobBackend.get_tryInsertWithHash_error hinsert]
    case h_2 hinsert =>
      have hget := LawfulBlobBackend.get_tryInsertWithHash hinsert
      refine ⟨rfl, Or.inl ⟨rfl, ?_⟩⟩
      simp [ServerState.view, Store.put, Store.restore, hget, hdb, hafter]

/-- **The loop** stores the first deltas of its list in full, all of them when it goes through. -/
theorem view_rebaseDeltas (ext : Externals) (clock : Nat → Nat) (deltas : List LfsFileVersion)
    (hversions : s.lfsVersionDb.isSome) (hsingle : SinglyRecorded s.view) :
    ∃ done rest, deltas = done ++ rest
      ∧ (rebaseDeltas ext clock deltas s).2.view
        = s.view.rebaseAll ext.codecs (done.map (·.sha256))
      ∧ ((rebaseDeltas ext clock deltas s).1 = .ok () → rest = []) := by
  induction deltas generalizing s clock with
  | nil => exact ⟨[], [], rfl, rfl, fun _ => rfl⟩
  | cons delta deltas ih =>
    obtain ⟨db, hdb⟩ := Option.isSome_iff_exists.mp hversions
    obtain ⟨hversions₁, hview⟩ := view_rebaseDelta ext (clock 0) delta hdb hsingle
    unfold rebaseDeltas
    rw [hdb]
    dsimp only
    rcases hdelta : rebaseDelta ext (clock 0) db delta s with ⟨result, s₁⟩
    rw [hdelta] at hversions₁ hview
    cases result with
    | error e =>
      rcases hview with ⟨hok, -⟩ | ⟨-, hview⟩
      · cases hok
      · exact ⟨[], delta :: deltas, rfl, hview, by simp⟩
    | ok =>
      rcases hview with ⟨-, hview⟩ | ⟨hnot, -⟩
      · obtain ⟨done, rest, hsplit, hafter, hall⟩ := ih (fun i => clock (i + 1)) hversions₁
          (hview ▸ hsingle.rebase ext.codecs delta.sha256)
        refine ⟨delta :: done, rest, by rw [hsplit]; rfl, ?_, hall⟩
        rw [List.map_cons, Store.rebaseAll, Runs.run_cons, ← hview]
        exact hafter
      · exact absurd rfl hnot

end Rebase

variable {hash : String}

/-- The loop is given records of deltas on the hash. -/
theorem isDeltaOn_of_mem_deltasToRebase {v : LfsFileVersion} (h : v ∈ deltasToRebase hash s) :
    v ∈ s.view.records ∧ v.IsDeltaOn hash = true := by
  unfold deltasToRebase at h
  cases hdb : s.lfsVersionDb with
  | none => simp [hdb] at h
  | some db =>
    obtain ⟨deltas, hdeltas, hperm⟩ := LawfulLfsVersionDatabase.getDeltasForBase_eq db hash
    simp only [hdb, hdeltas] at h
    have hmem := List.mem_filter.mp (hperm.subset h)
    simpa [Store.records, ServerState.view, hdb] using hmem

/-- It is given every stored delta on the hash. -/
theorem mem_deltasToRebase {delta : String} (hparent : s.view.parent delta = some hash) :
    delta ∈ (deltasToRebase hash s).map (·.sha256) := by
  obtain ⟨v, hv, hbase⟩ := Store.parent_eq_some_iff.mp hparent
  obtain ⟨hstorage, hsome⟩ := deltaBase_eq_some.mp hbase
  have hmem := Store.mem_records_of_find hv
  cases hdb : s.lfsVersionDb with
  | none => simp [Store.records, ServerState.view, hdb] at hmem
  | some db =>
    obtain ⟨deltas, hdeltas, hperm⟩ := LawfulLfsVersionDatabase.getDeltasForBase_eq db hash
    have hrecord : v ∈ FallibleLfsVersionDatabase.records db := by
      simpa [Store.records, ServerState.view, hdb] using hmem
    rw [deltasToRebase, hdb]
    dsimp only
    rw [hdeltas]
    refine List.mem_map.mpr ⟨v, hperm.symm.subset ?_, Store.sha256_of_find hv⟩
    rw [List.mem_filter]
    exact ⟨hrecord, by simp [LfsFileVersion.IsDeltaOn, hstorage, hsome]⟩

theorem view_forgetVersions (hash : String) : (forgetVersions hash s).view = s.view.forget hash := by
  cases hdb : s.lfsVersionDb with
  | none => simp [forgetVersions, ServerState.view, Store.forget, hdb]
  | some db =>
    obtain ⟨db', hdelete, hrecords⟩ := LawfulLfsVersionDatabase.deleteBySha256_eq db hash
    simp [forgetVersions, ServerState.view, Store.forget, hdb, hdelete, hrecords]

variable [LawfulBlobBackend β] [BlobDatabase δ]

/-- **A removal that leaves the records alone.**  Whatever it reports, only the bytes of the hash can
go; they have gone when it reports success. -/
theorem view_removeStored (hash : String) (s : ServerState β δ ν κ) :
    ((removeStored hash s).2.view = s.view ∧ (removeStored hash s).1 ≠ .ok true)
      ∨ (removeStored hash s).2.view = s.view.remove hash := by
  unfold removeStored
  split
  case h_1 e backend hdelete =>
    refine Or.inl ⟨?_, nofun⟩
    simp [ServerState.view, LawfulBlobBackend.get_tryDelete_error hdelete]
  case h_2 backend hdelete =>
    refine Or.inr ?_
    simp [ServerState.view, Store.remove, (LawfulBlobBackend.get_tryDelete hdelete).2]
  case h_3 backend hdelete =>
    refine Or.inr ?_
    have hget := (LawfulBlobBackend.get_tryDelete hdelete).2
    split <;> simp [ServerState.view, Store.remove, hget]

theorem view_of_removeStored (h : removeStored hash s = (.ok true, s')) :
    s'.view = s.view.remove hash := by
  rcases view_removeStored hash s with ⟨-, hnot⟩ | hview
  · rw [h] at hnot
    exact absurd rfl hnot
  · rwa [h] at hview

omit [BlobDatabase δ] in
/-- The loop as a removal runs it; without records it has nothing to do. -/
theorem view_rebaseDeltasToRebase (ext : Externals) (clock : Nat → Nat) (hash : String)
    (hsingle : SinglyRecorded s.view) :
    ∃ done rest, deltasToRebase hash s = done ++ rest
      ∧ (rebaseDeltas ext clock (deltasToRebase hash s) s).2.view
        = s.view.rebaseAll ext.codecs (done.map (·.sha256))
      ∧ ((rebaseDeltas ext clock (deltasToRebase hash s) s).1 = .ok () → rest = []) := by
  cases hdb : s.lfsVersionDb with
  | none =>
    have hnone : deltasToRebase hash s = [] := by rw [deltasToRebase, hdb]
    rw [hnone]
    exact ⟨[], [], rfl, rfl, fun _ => rfl⟩
  | some db => exact view_rebaseDeltas ext clock _ (by simp [hdb]) hsingle

/-- **A removal that stores the deltas on the hash in full first.** -/
theorem view_of_removeRebased {clock : Nat → Nat} (hsingle : SinglyRecorded s.view)
    (h : removeRebased ext clock hash s = (.ok true, s')) :
    s'.view = (s.view.rebaseAll ext.codecs ((deltasToRebase hash s).map (·.sha256))).drop hash := by
  obtain ⟨done, rest, hsplit, hview, hall⟩ := view_rebaseDeltasToRebase ext clock hash hsingle
  unfold removeRebased at h
  split at h
  case h_1 => exact nomatch (Prod.mk.inj h).1
  case h_2 s₁ hrebase =>
    rw [hrebase] at hview hall
    rw [hsplit, hall rfl, List.append_nil, ← hview]
    split at h
    case h_1 s₂ hremove =>
      cases h
      rw [view_forgetVersions, view_of_removeStored hremove]
      rfl
    case h_2 result s₂ hnot hremove =>
      obtain ⟨hresult, rfl⟩ := Prod.mk.inj h
      exact absurd hresult hnot

end BlossomRs.Server

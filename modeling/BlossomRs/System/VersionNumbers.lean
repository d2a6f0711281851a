import BlossomRs.System.PhysicalDeletes

/-!
# Version numbers

An upload that is recorded as a version of a file gets the number after the greatest one that is
recorded for the file.  Deletes drop records by hash, of any version of any file, so the greatest
recorded number is not always the greatest one given out.

`records_run` says what any section does to the records, apart from the form they name
(`outlines`).  From it,
`numbers_increase`: along a run, the numbers given to a file increase as long as no delete drops the
record with its greatest number.
-/

namespace BlossomRs.System

open Protocol Storage Database Lfs Locks Server

/-- A record without its stored form. -/
def outline (v : LfsFileVersion) : LfsFileVersion :=
  v.restore .raw none 0

/-- What a record says of its file: the file, the number and the hash. -/
def label (v : LfsFileVersion) : String × String × Int × String :=
  (v.repoId, v.path, v.version, v.sha256)

theorem outline_sansForm (hashes : List String) (v : LfsFileVersion) :
    outline (v.sansForm hashes) = outline v := by
  unfold LfsFileVersion.sansForm
  split <;> rfl

theorem outlines_of_sameApartFromForm {hashes : List String} {vs vs' : List LfsFileVersion}
    (h : SameApartFromForm hashes vs vs') : vs'.map outline = vs.map outline := by
  have hmap := congrArg (List.map outline) h
  simpa only [List.map_map, Function.comp_def, outline_sansForm] using hmap

variable {β δ ν κ : Type} [BlobBackend β] [LfsVersionDatabase ν] [LawfulLfsVersionDatabase ν]

/-- The records of a state without their stored forms. -/
def outlines (s : ServerState β δ ν κ) : List LfsFileVersion :=
  s.view.records.map outline

variable {s s' : ServerState β δ ν κ} {part : Section}

theorem outlines_of_view (h : s'.view = s.view) :
    outlines s' = outlines s := by
  rw [outlines, h, outlines]

/-- The labels of the records of a state. -/
def labels (s : ServerState β δ ν κ) : List (String × String × Int × String) :=
  s.view.records.map label

theorem labels_eq (s : ServerState β δ ν κ) : labels s = (outlines s).map label := by
  rw [labels, outlines, List.map_map]
  rfl

/-! ### Deletes -/

section Deletes

/-- Storing a delta in full keeps the outlines, whether or not it goes through. -/
theorem outlines_rebaseDelta (ext : Server.Externals) (now : Nat) {db : ν}
    (delta : LfsFileVersion) {s : ServerState β δ ν κ} (hdb : s.lfsVersionDb = some db) :
    outlines (rebaseDelta ext now db delta s).2 = outlines s := by
  have hupdate : ∀ content : Bytes,
      (FallibleLfsVersionDatabase.records (LfsVersionDatabase.updateVersion db delta.sha256
        .compressed none content.length).2).map outline
      = (FallibleLfsVersionDatabase.records db).map outline := fun content =>
    outlines_of_sameApartFromForm (sameApartFromForm_updateVersion _ _ _ _ _)
  have houtlines : outlines s = (FallibleLfsVersionDatabase.records db).map outline := by
    simp [outlines, Store.records, ServerState.view, hdb]
  unfold rebaseDelta
  split
  · rfl
  · rename_i content _
    have hkept := hupdate content
    split
    · simp [outlines, Store.records, ServerState.view]
    · split
      all_goals
        rename_i hcall
        rw [hcall] at hkept
        rw [houtlines, ← hkept]
        simp [outlines, Store.records, ServerState.view]

theorem outlines_rebaseDeltas (ext : Server.Externals) (clock : Nat → Nat)
    (deltas : List LfsFileVersion) (s : ServerState β δ ν κ) :
    outlines (rebaseDeltas ext clock deltas s).2 = outlines s :=
  rebaseDeltas_invariant (P := fun s' => outlines s' = outlines s)
    (fun now _ delta _ hdb h => (outlines_rebaseDelta ext now delta hdb).trans h) clock deltas rfl

variable [LawfulBlobBackend β] [BlobDatabase δ]

theorem outlines_removeStored (hash : String) (s : ServerState β δ ν κ) :
    outlines (removeStored hash s).2 = outlines s := by
  rcases view_removeStored hash s with ⟨hview, -⟩ | hview
  · exact outlines_of_view hview
  · rw [outlines, hview]
    rfl

/-- A removal that rewrites deltas keeps all outlines, or drops those of its hash. -/
theorem outlines_removeRebased (ext : Server.Externals) (clock : Nat → Nat) (hash : String)
    (s : ServerState β δ ν κ) :
    outlines (removeRebased ext clock hash s).2 = outlines s
      ∨ outlines (removeRebased ext clock hash s).2
        = (outlines s).filter (·.sha256 != hash) := by
  have hrebase := outlines_rebaseDeltas ext clock (deltasToRebase hash s) s
  unfold removeRebased
  split
  case h_1 hcall =>
    rw [hcall] at hrebase
    exact Or.inl hrebase
  case h_2 s₁ hcall =>
    rw [hcall] at hrebase
    have hremove := (outlines_removeStored hash s₁).trans hrebase
    split
    case h_1 s₂ hresult =>
      rw [hresult] at hremove
      refine Or.inr ?_
      rw [← hremove, outlines, view_forgetVersions, outlines]
      cases hdb : s₂.lfsVersionDb with
      | none => simp [Store.records, Store.forget, ServerState.view, hdb]
      | some db =>
        simp only [Store.records, Store.forget, ServerState.view, hdb, Option.map_some,
          Option.getD_some, List.filter_map]
        rfl
    case h_2 hresult =>
      rw [hresult] at hremove
      exact Or.inl hremove

end Deletes

/-! ### Numbers given out -/

/-- A file has a version with at least the given number. -/
def HasNumber (s : ServerState β δ ν κ) (repoId path : String) (number : Int) : Prop :=
  ∃ l ∈ labels s, l.1 = repoId ∧ l.2.1 = path ∧ number ≤ l.2.2.1

/-- A recorded number is below the next one. -/
theorem lt_nextNumber {repoId path : String} {number : Int} (h : HasNumber s repoId path number) :
    number < s.view.nextNumber repoId path := by
  obtain ⟨l, hl, hrepo, hpath, hle⟩ := h
  obtain ⟨u, hu, rfl⟩ := List.mem_map.mp hl
  obtain rfl : u.repoId = repoId := hrepo
  obtain rfl : u.path = path := hpath
  obtain ⟨greatest, hgreatest, hbound⟩ := le_latestNumber hu
  rw [Store.nextNumber, hgreatest]
  exact Int.lt_of_le_of_lt (hle.trans hbound) (Int.lt_succ greatest)

/-! ### All sections -/

variable [BlobDatabase δ]

theorem view_of_effects {reach : Reach} (h : Effects reach s s') (hblobs : ¬ reach.blobs) :
    s'.view = s.view := by
  induction h with
  | refl => rfl
  | tail _ heffect ih =>
    cases heffect with
    | blobs _ _ hwrites => exact absurd hwrites hblobs
    | _ => exact ih

variable [LawfulBlobBackend β] [LockDatabase κ]

omit [LawfulBlobBackend β] in
/-- A section that neither stores nor removes a blob leaves the blob store alone. -/
theorem view_of_bystander (ext : Transport.Externals) (hcontent : part.stores = none)
    (hremoves : part.removes = none) (s : ServerState β δ ν κ) :
    (part.run ext s).2.view = s.view :=
  view_of_effects (effects_run ext part s)
    (by simp [Section.reach, hcontent, hremoves])

/-- The section records a version. -/
def Assigns (ext : Transport.Externals) (part : Section) (s : ServerState β δ ν κ)
    (v : LfsFileVersion) : Prop :=
  (part.run ext s).2.view.records = s.view.records ++ [v]

/-- A delete that drops the records of its hash does not drop the record with the greatest number of
a file. -/
def KeepsLatest (s : ServerState β δ ν κ) (part : Section) : Prop :=
  ∀ hash, part.Deletes hash s → part.rebases = true → ∀ v ∈ s.view.records, v.sha256 = hash →
    ∃ u ∈ s.view.records, u.sha256 ≠ hash ∧ u.repoId = v.repoId ∧ u.path = v.path
      ∧ v.version ≤ u.version

theorem version_newRecord {codecs : Codecs} {s : Store} {ctx : LfsContext} {data : Bytes} {now : Nat}
    {v : LfsFileVersion} (h : s.newRecord codecs ctx data now = some v) :
    v.version = s.nextNumber v.repoId v.path := by
  unfold Store.newRecord at h
  split at h
  · cases h
    rfl
  · cases h

/-- **What a section does to the records**: nothing that shows in their outlines; or it adds the one
of its content, with the next number of the file; or, as a delete, it drops those of its hash. -/
theorem records_run (ext : Transport.Externals) (part : Section) (s : ServerState β δ ν κ) :
    outlines (part.run ext s).2 = outlines s
      ∨ (∃ v data ctx now, part.stores = some data
        ∧ s.view.newRecord ext.codecs ctx data now = some v
        ∧ (part.run ext s).2.view.records = s.view.records ++ [v])
      ∨ ∃ hash, part.Deletes hash s ∧ part.rebases = true
        ∧ outlines (part.run ext s).2 = (outlines s).filter (·.sha256 != hash) := by
  cases hcontent : part.stores with
  | some data =>
    rcases view_of_content ext hcontent s with ⟨hview, -⟩ | hview
    · exact Or.inl (outlines_of_view hview)
    · cases hpipeline : part.pipeline ext.toExternals with
      | none =>
        refine Or.inl ?_
        rw [outlines, hview, Section.effect, hpipeline]
        rfl
      | some run =>
        obtain ⟨ctx, now⟩ := run
        have hrecords : (part.run ext s).2.view.records
            = s.view.records ++ (s.view.newRecord ext.codecs ctx data now).toList := by
          rw [hview, Section.effect, hpipeline]
          exact Store.records_upload ext.codecs ctx data now
        cases hnew : s.view.newRecord ext.codecs ctx data now with
        | none =>
          rw [hnew, Option.toList_none, List.append_nil] at hrecords
          exact Or.inl (by rw [outlines, hrecords, outlines])
        | some v =>
          rw [hnew] at hrecords
          exact Or.inr (Or.inl ⟨v, data, ctx, now, rfl, hnew, hrecords⟩)
  | none =>
    cases hremoves : part.removes with
    | none => exact Or.inl (outlines_of_view (view_of_bystander ext hcontent hremoves s))
    | some hash =>
      rcases deletes_of_removes ext hremoves s with hdeletes | heffects
      · rw [(run_of_deletes ext hdeletes).1]
        cases hrebases : part.rebases with
        | false =>
          rw [removal_of_bare ext.toExternals hrebases]
          exact Or.inl (outlines_removeStored hash s)
        | true =>
          obtain ⟨clock, hremoval⟩ := removal_of_rebases ext.toExternals hrebases hash s
          rw [hremoval]
          rcases outlines_removeRebased ext.toExternals clock hash s with hkept | hdropped
          · exact Or.inl hkept
          · exact Or.inr (Or.inr ⟨hash, hdeletes, rfl, hdropped⟩)
      · exact Or.inl (outlines_of_view (view_of_effects (heffects .releases trivial) id))

/-- A section that keeps the greatest numbers keeps what is known of them. -/
theorem HasNumber.run {repoId path : String} {number : Int} (h : HasNumber s repoId path number)
    (ext : Transport.Externals) (hkeeps : KeepsLatest s part) :
    HasNumber (part.run ext s).2 repoId path number := by
  obtain ⟨l, hl, hrepo, hpath, hle⟩ := h
  rcases records_run ext part s with hsame | ⟨v, _, _, _, -, -, hrecords⟩
    | ⟨hash, hdeletes, hrebases, hdropped⟩
  · refine ⟨l, ?_, hrepo, hpath, hle⟩
    rwa [labels_eq, hsame, ← labels_eq]
  · refine ⟨l, ?_, hrepo, hpath, hle⟩
    rw [labels, hrecords, List.map_append]
    exact List.mem_append_left _ hl
  · obtain ⟨u, hu, rfl⟩ := List.mem_map.mp hl
    -- what stays is what has another hash
    have hstays : ∀ w ∈ s.view.records, w.sha256 ≠ hash → label w ∈ labels (part.run ext s).2 := by
      intro w hw hne
      rw [labels_eq, hdropped]
      refine List.mem_map.mpr ⟨outline w, List.mem_filter.mpr ⟨List.mem_map_of_mem hw, ?_⟩, rfl⟩
      exact bne_iff_ne.mpr hne
    by_cases hhash : u.sha256 = hash
    · -- the record is dropped, and a later one of the same file stays
      obtain ⟨w, hw, hne, hrepo', hpath', hle'⟩ := hkeeps hash hdeletes hrebases u hu hhash
      exact ⟨label w, hstays w hw hne, hrepo'.trans hrepo, hpath'.trans hpath, hle.trans hle'⟩
    · exact ⟨label u, hstays u hu hhash, hrepo, hpath, hle⟩

/-- A recorded number is the next one of its file. -/
theorem version_of_assigns {ext : Transport.Externals} {v : LfsFileVersion}
    (h : Assigns ext part s v) :
    v.version = s.view.nextNumber v.repoId v.path := by
  have hlength : (outlines (part.run ext s).2).length = (outlines s).length + 1 := by
    rw [outlines, h, outlines]
    simp
  rcases records_run ext part s with hsame | ⟨w, _, _, _, -, hnew, hrecords⟩ | ⟨hash, -, -, hdropped⟩
  · rw [hsame] at hlength
    omega
  · obtain rfl : v = w := by simpa using h.symm.trans hrecords
    exact version_newRecord hnew
  · rw [hdropped] at hlength
    have hle := List.length_filter_le (·.sha256 != hash) (outlines s)
    omega

/-- The state after some sections. -/
def afterSections (ext : Transport.Externals) (s : ServerState β δ ν κ) (parts : List Section) :
    ServerState β δ ν κ :=
  Runs.after (fun s part => Section.run ext part s) s parts

/-- **Numbers increase.**  Along a run in which no delete drops the record with the greatest number
of a file, a version that is recorded later has a greater number than one of the same file that was
recorded earlier. -/
theorem numbers_increase (ext : Transport.Externals) (s : ServerState β δ ν κ)
    {parts : List Section}
    (hkeeps : ∀ pre part post, parts = pre ++ part :: post →
      KeepsLatest (afterSections ext s pre) part)
    {pre mid post : List Section} {first second : Section}
    (hsplit : parts = pre ++ first :: (mid ++ second :: post)) {v w : LfsFileVersion}
    (hfirst : Assigns ext first (afterSections ext s pre) v)
    (hsecond : Assigns ext second (afterSections ext s (pre ++ first :: mid)) w)
    (hrepo : w.repoId = v.repoId) (hpath : w.path = v.path) : v.version < w.version := by
  have hrest : ∀ between, afterSections ext s (pre ++ first :: between)
      = afterSections ext (first.run ext (afterSections ext s pre)).2 between :=
    fun between => Runs.after_append pre (first :: between)
  have hstart : HasNumber (first.run ext (afterSections ext s pre)).2 v.repoId v.path v.version := by
    refine ⟨label v, ?_, rfl, rfl, le_rfl⟩
    rw [labels, hfirst, List.map_append]
    exact List.mem_append_right _ (List.mem_singleton_self _)
  -- the number stays on record from the first section to the second
  have hnumber := Runs.run_invariant
    (P := fun _ (t : ServerState β δ ν κ) => HasNumber t v.repoId v.path v.version) hstart
    (fun between part rest hmid h => h.run ext <| hrest between ▸
      hkeeps (pre ++ first :: between) part (rest ++ second :: post) (by rw [hsplit, hmid]; simp))
    mid [] (List.append_nil mid).symm
  rw [version_of_assigns hsecond, hrepo, hpath, hrest]
  exact lt_nextNumber hnumber

/-! ### Two versions of a file -/

/-- An empty server that keeps version records and has an administrator. -/
def versionedServer :
    ServerState MemoryBackend MemoryDatabase MemoryLfsVersionDatabase MemoryLockDatabase :=
  administered { ServerState.new (ν := MemoryLfsVersionDatabase) (κ := Unit) .new "" with
    lfsVersionDb := some .new }

/-- The upload of a version of a file, on a stream. -/
def uploadVersion (data : Bytes) : Section :=
  .stream ⟨fun _ => 0, 0, 0⟩ "" { Transport.Request.of .upload with
    sha256 := sha256Hex data, lfsRepo := "org/repo", lfsPath := "model.bin" } (some "admin") data

/-- The delete of a version, on a stream. -/
def deleteVersion (data : Bytes) : Section :=
  .stream ⟨fun _ => 0, 0, 0⟩ "" { Transport.Request.of .delete with sha256 := sha256Hex data }
    (some "admin") []

/-- The record of such an upload. -/
def uploadedVersion (number : Int) (data : Bytes) : LfsFileVersion :=
  versionRecord "org/repo" "model.bin" number (sha256Hex data)
    (prepareCompressed .reference data) data.length 0

/-- Two versions of a file are uploaded, the first one is deleted, and another one is uploaded. -/
def versionRun : List Section :=
  [uploadVersion [1], uploadVersion [2], deleteVersion [1], uploadVersion [3]]

/-- The version that is uploaded after the delete has a greater number than the one before it. -/
theorem third_version_greater :
    Assigns (.knowing []) (uploadVersion [2])
        (afterSections (.knowing []) versionedServer (versionRun.take 1)) (uploadedVersion 2 [2])
      ∧ Assigns (.knowing []) (uploadVersion [3])
        (afterSections (.knowing []) versionedServer (versionRun.take 3)) (uploadedVersion 3 [3])
      ∧ (uploadedVersion 2 [2]).version < (uploadedVersion 3 [3]).version := by
  have hsecond : Assigns (.knowing []) (uploadVersion [2])
      (afterSections (.knowing []) versionedServer [uploadVersion [1]]) (uploadedVersion 2 [2]) := by
    unfold Assigns
    decide
  have hthird : Assigns (.knowing []) (uploadVersion [3])
      (afterSections (.knowing []) versionedServer
        [uploadVersion [1], uploadVersion [2], deleteVersion [1]]) (uploadedVersion 3 [3]) := by
    unfold Assigns
    decide +kernel
  have hkeeps : ∀ pre part post, versionRun = pre ++ part :: post →
      KeepsLatest (afterSections (.knowing []) versionedServer pre) part := by
    simp only [versionRun, Runs.forall_split_cons, Runs.forall_split_nil, and_true]
    refine ⟨?_, ?_, ?_, ?_⟩
    · exact fun _ hdeletes => by cases hdeletes.1
    · exact fun _ hdeletes => by cases hdeletes.1
    · -- what the delete removes has a later version
      rintro _ ⟨-, rfl, -⟩ -
      decide +kernel
    · exact fun _ hdeletes => by cases hdeletes.1
  have hsplit : versionRun = [uploadVersion [1]]
      ++ uploadVersion [2] :: ([deleteVersion [1]] ++ uploadVersion [3] :: []) := rfl
  exact ⟨hsecond, hthird, numbers_increase (.knowing []) versionedServer hkeeps hsplit hsecond hthird
    rfl rfl⟩

/-- A version of a file is uploaded and deleted, and another one is uploaded: both have the number
one. -/
theorem number_given_twice :
    Assigns (.knowing []) (uploadVersion [1]) versionedServer (uploadedVersion 1 [1])
      ∧ Assigns (.knowing []) (uploadVersion [2])
        (afterSections (.knowing []) versionedServer [uploadVersion [1], deleteVersion [1]])
        (uploadedVersion 1 [2]) := by
  unfold Assigns
  decide

end BlossomRs.System

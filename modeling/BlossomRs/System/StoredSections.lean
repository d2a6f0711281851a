import BlossomRs.System.Quota

/-!
# Sections that store a blob

Five sections write bytes.  Uploads over HTTP and on a stream run the pipeline, which may encode the
body and record a version (`Store.upload`); the others write the content as it is (`Store.put`).
-/

namespace BlossomRs.System

open Protocol Storage Database Lfs Locks Server

variable {β δ ν κ : Type}

/-- The context the pipeline gets, and the time it records, for the sections that run it. -/
def Section.pipeline (ext : Server.Externals) : Section → Option (LfsContext × Nat)
  | .upload call headers _ _ => some (requestContext ext headers, call.clock 5)
  | .stream call _ request _ _ =>
    if request.op = .upload then some (Transport.parseLfsFromRequest request, call.clock 2)
    else none
  | _ => none

/-- What a section that stores a content does to the blob store. -/
def Section.effect (ext : Server.Externals) (part : Section) (s : Store) (data : Bytes) : Store :=
  match part.pipeline ext with
  | some (ctx, now) => s.upload ext.codecs ctx data now
  | none => s.put (sha256Hex data) data

variable [BlobBackend β] [LawfulBlobBackend β] [BlobDatabase δ] [LfsVersionDatabase ν]
  [LawfulLfsVersionDatabase ν] [LockDatabase κ]

section Writing

omit [BlobDatabase δ] [LockDatabase κ]

variable {data : Bytes} {s s₁ : ServerState β δ ν κ}

theorem view_storeWhole {now : Nat} :
    (∀ e, storeWhole data now s = (.error e, s₁) → s₁.view = s.view)
      ∧ (storeWhole data now s = (.ok (), s₁) → s₁.view = s.view.put (sha256Hex data) data) := by
  unfold storeWhole
  split
  case h_1 hinsert =>
    refine ⟨fun e h => ?_, (by rintro ⟨⟩)⟩
    cases h
    simp [ServerState.view, LawfulBlobBackend.get_tryInsert_error hinsert]
  case h_2 hinsert =>
    refine ⟨(by rintro _ ⟨⟩), fun h => ?_⟩
    cases h
    simp [ServerState.view, Store.put, (LawfulBlobBackend.get_tryInsert hinsert).2]

/-- Writing fails and leaves the blob store alone, or has the section's effect. -/
theorem view_store (ext : Server.Externals) {part : Section} (hcontent : part.stores = some data) :
    (∀ e, part.store ext s = (.error e, s₁) → s₁.view = s.view)
      ∧ (part.store ext s = (.ok (), s₁) → s₁.view = part.effect ext s.view data) := by
  cases part with
  | upload call headers pubkey body =>
    obtain rfl : body = data := Option.some.inj hcontent
    exact ⟨fun _ => view_storeUpload_error, view_storeUpload⟩
  | stream call freshId request authPubkey body =>
    by_cases hop : request.op = .upload
    · obtain rfl : body = data := by simpa [Section.stores, hop] using hcontent
      simp only [Section.effect, Section.pipeline, if_pos hop]
      exact ⟨fun _ => view_storeUpload_error, view_storeUpload⟩
    · simp [Section.stores, hop] at hcontent
  | nip96Upload | mediaUpload | mirror =>
    obtain rfl := Option.some.inj hcontent
    exact view_storeWhole
  | _ => cases hcontent

end Writing

/-- **A section that stores a content** leaves the blob store alone and does not report success, or
has its effect. -/
theorem view_of_content (ext : Transport.Externals) {part : Section} {data : Bytes}
    (hcontent : part.stores = some data) (s : ServerState β δ ν κ) :
    ((part.run ext s).2.view = s.view ∧ (part.run ext s).1 ≠ true)
      ∨ (part.run ext s).2.view = part.effect ext.toExternals s.view data := by
  obtain ⟨owner, -, hcommit⟩ := commit_run ext hcontent s
  generalize (part.run ext s).1 = ok, (part.run ext s).2 = after at hcommit ⊢
  cases hcommit with
  | refused => exact Or.inl ⟨rfl, Bool.false_ne_true⟩
  | unstored _ hstore =>
    exact Or.inl ⟨(view_store _ hcontent).1 _ hstore, Bool.false_ne_true⟩
  | recorded _ hstore _ _ _ _ =>
    have hview := (view_store ext.toExternals hcontent).2 hstore
    exact Or.inr hview

/-- A section that reports success has had its effect. -/
theorem view_of_stored (ext : Transport.Externals) {part : Section} {data : Bytes}
    (hcontent : part.stores = some data) {s : ServerState β δ ν κ}
    (hok : (part.run ext s).1 = true) :
    (part.run ext s).2.view = part.effect ext.toExternals s.view data := by
  rcases view_of_content ext hcontent s with ⟨-, hnot⟩ | hview
  · exact absurd hok hnot
  · exact hview

end BlossomRs.System

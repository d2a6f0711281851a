import BlossomRs.Lfs.StoreAgain
import BlossomRs.Server.PlainRuns
import BlossomRs.Server.Stretches
import BlossomRs.Server.TrackedRuns

/-!
# Storing a blob that is there already

The four endpoints that store a blob, on a server that has the blob.  `PUT /upload` leaves its bytes
alone but may add a version record; the others replace the bytes by the content.  In a state that
holds its contents, `stored_again` says when the state goes on holding them and every `GET` is
answered as before.
-/

namespace BlossomRs.Server

open Protocol Storage Database Lfs ParentChain

variable {β δ ν κ : Type}

namespace StoringRequest

/-- The content a request is to store. -/
def content (requirements : UploadRequirements) : StoringRequest → Option Bytes
  | .upload _ _ body => some body.data
  | .mirror remote _ _ body => mirrorContent remote requirements body.data
  | .media processor _ _ body => mediaContent processor body.data
  | .nip96 _ _ body => some body.data

/-- What a successful request does to the blob store. -/
def effect (ext : Externals) (s : Store) (data : Bytes) : StoringRequest → Store
  | .upload call headers _ => s.upload ext.codecs (requestContext ext headers) data (call.clock 5)
  | _ => s.put (sha256Hex data) data

/-- The requests that do no harm: an upload that records safely, or another request for a blob whose
bytes are its content. -/
def Harmless (ext : Externals) (s : Store) (data : Bytes) : StoringRequest → Prop
  | .upload _ headers _ => RecordsSafely s (requestContext ext headers) data
  | _ => s.blobs (sha256Hex data) = some data

end StoringRequest

/-- The state holds contents, each under its own hash. -/
def WellFormed [BlobBackend β] [LfsVersionDatabase ν] [LawfulLfsVersionDatabase ν]
    (ext : Externals) (w : World β δ ν κ) (contents : String → Bytes) : Prop :=
  WellStored ext.codecs w.server.view contents
    ∧ ∀ hash, w.server.view.Stored hash → sha256Hex (contents hash) = hash

/-- The state after a step is well formed with the same contents, and each blob is served as
before. -/
def Unharmed [BlobBackend β] [BlobDatabase δ] [LfsVersionDatabase ν] [LawfulLfsVersionDatabase ν]
    (ext : Externals) (w w' : World β δ ν κ) (contents : String → Bytes) : Prop :=
  WellFormed ext w' contents
    ∧ ∀ call hash, w.server.view.Stored hash →
      (handleGetBlob ext call hash w').1.blob? = (handleGetBlob ext call hash w).1.blob?

section Store

variable [BlobBackend β] [BlobDatabase δ] [LfsVersionDatabase ν] [LawfulLfsVersionDatabase ν]
  {ext : Externals} {contents : String → Bytes}

variable {w : World β δ ν κ}

/-- The same on the blob stores, when the same hashes are stored. -/
theorem unharmed_iff {w' : World β δ ν κ} (hwell : WellFormed ext w contents)
    (hstored : ∀ hash, w'.server.view.Stored hash ↔ w.server.view.Stored hash) :
    Unharmed ext w w' contents
      ↔ Preserves ext.codecs w.server.view w'.server.view contents := by
  have hget : ∀ hash, w.server.view.Stored hash → ∀ call (v : World β δ ν κ),
      (handleGetBlob ext call hash v).1.blob? = v.server.view.read ext.codecs hash := by
    intro hash hhash call v
    have hvalid := isValidSha256_sha256Hex (contents hash)
    rw [hwell.2 hash hhash] at hvalid
    exact (get_eq_read ext call hvalid v).1
  refine ⟨?_, ?_⟩
  · rintro ⟨hafter, hsame⟩
    refine ⟨hafter.1, fun hash hhash => ?_⟩
    have := hsame ⟨fun _ => 0, 0, 0⟩ hash hhash
    rwa [hget hash hhash, hget hash hhash] at this
  · rintro ⟨hafter, hsame⟩
    refine ⟨⟨hafter, fun hash hhash => hwell.2 hash ((hstored hash).mp hhash)⟩, ?_⟩
    intro call hash hhash
    rw [hget hash hhash, hget hash hhash, hsame hash hhash]

variable [LawfulBlobBackend β]

theorem StoringRequest.view_handle {request : StoringRequest} {data : Bytes}
    (hcontent : request.content w.server.requirements = some data)
    (hok : (request.handle ext w).1.status = .ok) :
    (request.handle ext w).2.server.view = request.effect ext w.server.view data := by
  cases request with
  | upload call headers body =>
    obtain rfl : body.data = data := Option.some.inj hcontent
    rcases view_handleUpload ext call headers body w with ⟨-, hstatus⟩ | hview
    · exact absurd hok hstatus
    · exact hview
  | mirror remote call headers body =>
    rcases view_handleMirror ext remote call headers body w with
      ⟨-, hstatus⟩ | ⟨stored, hstored, hview⟩
    · exact absurd hok hstatus
    · obtain rfl : stored = data := Option.some.inj (hstored.symm.trans hcontent)
      exact hview
  | media processor call headers body =>
    rcases view_handleMediaUpload ext processor call headers body w with
      ⟨-, hstatus⟩ | ⟨stored, hstored, hview⟩
    · exact absurd hok hstatus
    · obtain rfl : stored = data := Option.some.inj (hstored.symm.trans hcontent)
      exact hview
  | nip96 call headers body =>
    rcases view_handleNip96Upload ext call headers body w with
      ⟨-, hstatus⟩ | ⟨stored, hstored, hview⟩
    · exact absurd hok hstatus
    · obtain rfl : stored = data := Option.some.inj (hstored.symm.trans hcontent)
      exact hview

/-- A successful request for a stored content stores nothing new. -/
theorem StoringRequest.stored_handle {request : StoringRequest} {data : Bytes}
    (hcontent : request.content w.server.requirements = some data)
    (hok : (request.handle ext w).1.status = .ok) (hpresent : w.server.view.Stored (sha256Hex data))
    (hash : String) :
    (request.handle ext w).2.server.view.Stored hash ↔ w.server.view.Stored hash := by
  have hput : (w.server.view.put (sha256Hex data) data).Stored hash
      ↔ w.server.view.Stored hash := by
    by_cases h : hash = sha256Hex data
    · subst h
      simpa [Store.Stored] using hpresent
    · simp [Store.Stored, Function.update_of_ne h]
  rw [StoringRequest.view_handle hcontent hok]
  cases request with
  | upload =>
    rw [StoringRequest.effect, Store.stored_upload_iff]
    refine ⟨?_, Or.inl⟩
    rintro (h | rfl)
    · exact h
    · exact hpresent
  | mirror => exact hput
  | media => exact hput
  | nip96 => exact hput

/-- **Storing a content again.**  In a well-formed state a successful request for a content that is
stored leaves the state unharmed if the request is harmless; and only then, as long as what is stored
can be decoded and no stored content is an encoded form of itself. -/
theorem stored_again (ext : Externals) {w : World β δ ν κ} (hwell : WellFormed ext w contents)
    (request : StoringRequest) {data : Bytes}
    (hcontent : request.content w.server.requirements = some data)
    (hpresent : w.server.view.Stored (sha256Hex data))
    (hfree : Sha256.CollisionFreeOn (· ∈ [data, contents (sha256Hex data)]))
    (hok : (request.handle ext w).1.status = .ok) :
    (request.Harmless ext w.server.view data →
        Unharmed ext w (request.handle ext w).2 contents)
      ∧ (ext.codecs.ZstdRoundTrips → w.server.view.DeltasDecode ext.codecs contents →
        (∀ hash, w.server.view.Stored hash → ¬ SelfEncoded ext.codecs (contents hash)) →
        Unharmed ext w (request.handle ext w).2 contents →
        request.Harmless ext w.server.view data) := by
  have hsame : contents (sha256Hex data) = data :=
    hfree _ _ (by simp) (by simp) (sha256_eq_of_sha256Hex_eq (hwell.2 _ hpresent))
  have hput := wellStored_put_iff hwell.1 hpresent
  rw [hsame] at hput
  rw [unharmed_iff hwell (StoringRequest.stored_handle hcontent hok hpresent),
    StoringRequest.view_handle hcontent hok]
  cases request with
  | upload call headers body =>
    exact upload_again hwell.1 (call.clock 5) hpresent
  | mirror => exact ⟨hput.mpr, fun _ _ _ => hput.mp⟩
  | media => exact ⟨hput.mpr, fun _ _ _ => hput.mp⟩
  | nip96 => exact ⟨hput.mpr, fun _ _ _ => hput.mp⟩

end Store

/-- An untracked body as a manifest. -/
def manifestB : PresignedUpload where
  sig := (0xc4925b10f2caa8f1197872b80e21db89229930f76adb628e442738d2f60735a5,
    0x8e882a8c4c7bce6723fe317badb690ed55d1d7f322e94d27558a0ca0baf13b2a)
  time := 1700000400
  tags := versionTags ++ [["manifest"]]
  data := letterB

/-- An untracked body is stored as it is. -/
theorem storeAfter_untrackedB :
    storeAfter [untrackedB] = emptyStore.put (sha256Hex letterB) letterB :=
  rfl

theorem find_storeAfter_untrackedB (hash : String) :
    (storeAfter [untrackedB]).find hash = none := by
  rw [storeAfter_untrackedB]
  rfl

theorem wellStored_untrackedB :
    WellStored .reference (storeAfter [untrackedB]) (fun _ => letterB) := by
  have hempty : WellStored .reference emptyStore (fun _ => letterB) :=
    ⟨nofun, nofun, nofun⟩
  rw [storeAfter_untrackedB]
  exact hempty.put_fresh nofun rfl

/-- The upload of a manifest, as a request to store. -/
def manifestRequest : StoringRequest :=
  .upload manifestB.request.call manifestB.request.headers manifestB.request.body

/-- What the server must know for both uploads. -/
def manifestExternals : Externals :=
  presignedExternals [untrackedB, manifestB]

/-- The server after the first one. -/
def manifestWorld : World MemoryBackend MemoryDatabase MemoryLfsVersionDatabase Unit :=
  runUploads manifestExternals emptyWorld ([untrackedB].map (·.request))

theorem presignedRun_manifest : PresignedRun [untrackedB, manifestB] := by
  decide

theorem view_manifestWorld : manifestWorld.server.view = storeAfter [untrackedB] := by
  have hfirst : PresignedRun [untrackedB] := PresignedRun.of_append presignedRun_manifest
  refine hfirst.view ?_
  intro u hu
  exact PresignedRun.event_mem (List.mem_append_left [manifestB] hu)

theorem status_manifestRequest :
    (manifestRequest.handle manifestExternals manifestWorld).1.status = .ok := by
  have haccepted : AllAccepted manifestExternals emptyWorld
      ([untrackedB].map (·.request) ++ manifestB.request :: []) :=
    (presignedRun_manifest.spec fun _ => PresignedRun.event_mem).1
  have hstatus := AllAccepted.status _ haccepted
  have hhandle : manifestRequest.handle manifestExternals manifestWorld
      = upload manifestExternals manifestWorld manifestB.request := rfl
  rw [hhandle, manifestWorld]
  exact hstatus

theorem wellFormed_manifestWorld :
    WellFormed manifestExternals manifestWorld (fun _ => letterB) := by
  refine ⟨by rw [view_manifestWorld]; exact wellStored_untrackedB, ?_⟩
  intro hash hhash
  rw [view_manifestWorld, stored_storeAfter] at hhash
  obtain ⟨u, hu, rfl⟩ := hhash
  rw [List.mem_singleton.mp hu]
  rfl

theorem context_manifestB :
    requestContext manifestExternals manifestB.request.headers = manifestB.context := by
  have hmem : manifestB ∈ [untrackedB, manifestB] := by simp
  exact PresignedRun.context hmem

/-- No delta reads through the body, and it has no record. -/
theorem recordsSafely_manifestB : RecordsSafely manifestWorld.server.view
    (requestContext manifestExternals manifestB.request.headers) letterB := by
  intro _ _
  rw [view_manifestWorld, context_manifestB]
  refine ⟨find_storeAfter_untrackedB _, by decide, ?_⟩
  rintro hash - ⟨i, hpos, -, ha⟩
  obtain ⟨j, rfl⟩ : ∃ j, i = j + 1 := ⟨i - 1, by omega⟩
  have hroot : (storeAfter [untrackedB]).parent hash = none := by
    rw [Store.parent, find_storeAfter_untrackedB]
    rfl
  rw [ancestor_succ_of_root hroot] at ha
  cases ha

/-- A body is uploaded without tracking and then again as a manifest: a record is added, and the
state is unharmed. -/
theorem manifestB_unharmed :
    Unharmed manifestExternals manifestWorld
        (manifestRequest.handle manifestExternals manifestWorld).2 (fun _ => letterB)
      ∧ manifestWorld.server.view.find (sha256Hex letterB) = none
      ∧ (manifestRequest.handle manifestExternals manifestWorld).2.server.view.find
        (sha256Hex letterB) ≠ none := by
  have hpresent : manifestWorld.server.view.Stored (sha256Hex letterB) := by
    rw [view_manifestWorld, stored_storeAfter]
    exact ⟨untrackedB, by simp, rfl⟩
  have hfree : Sha256.CollisionFreeOn (· ∈ [letterB, letterB]) := by
    intro x y hx hy _
    simp only [List.mem_cons, List.not_mem_nil, or_false, or_self] at hx hy
    rw [hx, hy]
  refine ⟨(stored_again manifestExternals wellFormed_manifestWorld manifestRequest rfl hpresent hfree
    status_manifestRequest).1 recordsSafely_manifestB, ?_, ?_⟩
  · rw [view_manifestWorld, find_storeAfter_untrackedB]
  · rw [StoringRequest.view_handle rfl status_manifestRequest, view_manifestWorld]
    have heffect : manifestRequest.effect manifestExternals (storeAfter [untrackedB])
        manifestB.request.body.data
          = (storeAfter [untrackedB]).upload .reference
            (requestContext manifestExternals manifestB.request.headers) letterB 1700000400 := rfl
    rw [heffect, context_manifestB, Store.find_upload_self, find_storeAfter_untrackedB]
    rintro ⟨⟩

/-! ### A delta in the middle of a chain -/

/-- The second version of the chain, through `POST /n96`. -/
def overwrite : SignedRequest where
  sig := (0xc7ed432ddbc5d2d2c1151567ae9b3e874fd968419d35c1674a696dcb5521ca41,
    0xfa73f6e1aa176c970e469841f00e494b9bbb5ce8ba6646ea5ea67b31960c885f)
  time := 1700000600
  action := "upload"
  hash := some (sha256Hex (chainBody 1))
  path := "/n96"
  method := "POST"
  tags := []

def overwriteRequest : StoringRequest :=
  .nip96 overwrite.call overwrite.headers ⟨chainBody 1, some (chainBody 1).length, false⟩

/-- What the server must know for three versions and the overwriting request. -/
def overwriteEvents : List NostrEvent :=
  (chainPrefix 3).map (·.event) ++ [overwrite.event]

/-- The server with three versions, each a delta on the one before. -/
def overwriteWorld : World MemoryBackend MemoryDatabase MemoryLfsVersionDatabase Unit :=
  runUploads (.knowing overwriteEvents) emptyWorld (chainRun 3)

theorem known_overwriteEvents : ∀ u ∈ chainPrefix 3, u.event ∈ overwriteEvents :=
  fun _ hu => List.mem_append_left _ (PresignedRun.event_mem hu)

theorem view_overwriteWorld : overwriteWorld.server.view = storeAfter (chainPrefix 3) :=
  (presignedRun_chainPrefix 3).view known_overwriteEvents

/-- The first versions of the chain make a well-formed state. -/
theorem tracked_chainPrefix :
    Tracked .reference (storeAfter (chainPrefix 3)) (uploadedContent (chainRun 3)) := by
  have htracked := ((trackedRun_chainRun 3).tracked Codecs.reference_zstdRoundTrips
    (Codecs.reference_deltaRoundTrips _) startsEmpty_emptyWorld (baseHasRoom_chainRun le_rfl)).1
  rwa [view_chainRun] at htracked

theorem wellFormed_overwriteWorld :
    WellFormed (.knowing overwriteEvents) overwriteWorld (uploadedContent (chainRun 3)) := by
  refine ⟨by rw [view_overwriteWorld]; exact tracked_chainPrefix.well, ?_⟩
  intro hash hhash
  rw [view_overwriteWorld, stored_storeAfter] at hhash
  obtain ⟨u, hu, rfl⟩ := hhash
  have hmem : u.request ∈ chainRun 3 := List.mem_map_of_mem hu
  have hdata : u.request.body.data = u.data := rfl
  have hcontent := uploadedContent_eq (trackedRun_chainRun 3).collisionFree hmem
  rw [hdata] at hcontent
  rw [hcontent]

theorem status_overwriteRequest :
    (overwriteRequest.handle (.knowing overwriteEvents) overwriteWorld).1.status = .ok := by
  obtain ⟨-, hafter, hurl⟩ := (presignedRun_chainPrefix 3).spec known_overwriteEvents
  have hlapsed : timeAfter 0 (chainPrefix 3) ≤ overwrite.time := by decide
  have hroom : 0 + 1048576 * (chainPrefix 3).length ≤ 3145728 := by decide
  have hsigned : overwrite.WellFormed := by decide
  have hmem : overwrite.event ∈ overwriteEvents := by simp [overwriteEvents]
  have hunrestricted : Unrestricted overwriteWorld overwrite.time 3145728 :=
    hafter.mono hlapsed hroom
  have hbaseUrl : overwriteWorld.server.baseUrl = serverUrl := by
    rw [overwriteWorld, chainRun]
    exact hurl
  rw [overwriteRequest, StoringRequest.handle]
  refine nip96Upload_accepted (.knowing overwriteEvents) overwrite.call overwrite.headers
    ⟨chainBody 1, some (chainBody 1).length, false⟩ hunrestricted
    (SignedRequest.extractAuthEvent_headers hmem) (readBodyLimited_of_length (by decide) rfl)
    (by decide) (by decide) ?_ ?_
  · rw [hbaseUrl]
    exact SignedRequest.accepts hsigned hmem (by simp)
  · rw [hbaseUrl]
    exact SignedRequest.accepts hsigned hmem fun _ hx => hx

/-- Storing the second version again through `POST /n96` succeeds in a well-formed state, and the
third version, a delta on it, is no longer served. -/
theorem overwritten_base_breaks_delta :
    WellFormed (.knowing overwriteEvents) overwriteWorld (uploadedContent (chainRun 3))
      ∧ overwriteWorld.server.view.Stored (sha256Hex (chainBody 1))
      ∧ (overwriteRequest.handle (.knowing overwriteEvents) overwriteWorld).1.status = .ok
      ∧ (handleGetBlob (.knowing overwriteEvents) overwrite.call (sha256Hex (chainBody 2))
        overwriteWorld).1.blob? = some (chainBody 2)
      ∧ (handleGetBlob (.knowing overwriteEvents) overwrite.call (sha256Hex (chainBody 2))
        (overwriteRequest.handle (.knowing overwriteEvents) overwriteWorld).2).1.blob?
          ≠ some (chainBody 2) := by
  refine ⟨wellFormed_overwriteWorld, ?_, status_overwriteRequest, ?_, ?_⟩
  · rw [view_overwriteWorld]
    set_option maxRecDepth 20000 in decide
  · rw [(get_eq_read _ _ (isValidSha256_sha256Hex _) _).1, view_overwriteWorld]
    set_option maxRecDepth 20000 in decide
  · rw [(get_eq_read _ _ (isValidSha256_sha256Hex _) _).1,
      StoringRequest.view_handle rfl status_overwriteRequest, view_overwriteWorld]
    set_option maxRecDepth 20000 in decide

end BlossomRs.Server

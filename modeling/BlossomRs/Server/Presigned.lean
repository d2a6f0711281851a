import BlossomRs.Server.Accept
import BlossomRs.Server.UploadRuns

/-!
# Requests signed beforehand

Requests whose signatures were made beforehand, at times so far apart that each event has lapsed
before the next one.  A server without limits accepts all uploads of this kind
(`presigned_accepted`), so that what a run of them leaves behind is the fold of `Store.upload`
(`PresignedRun.view`).
-/

namespace BlossomRs.Server

open Protocol Auth Storage Database Lfs

variable {ν κ : Type}

/-- The server all of them go to. -/
def serverUrl : String :=
  "http://h"

/-- A signed request: its event, made when the request is made, with some tags of its own. -/
structure SignedRequest where
  sig : Nat × Nat
  time : Nat
  action : String
  hash : Option String
  path : String
  method : String
  tags : List (List String)

namespace SignedRequest

variable (r : SignedRequest)

def event : NostrEvent :=
  testEvent r.sig (UInt64.ofNat r.time) "n" r.action r.hash serverUrl r.path r.method r.tags

def call : Call :=
  ⟨fun _ => r.time, 1000 * r.time, 256⟩

def headers : HeaderMap :=
  ⟨some (some (authHeaderValue r.event)), none, none⟩

/-- The tags do not bind the event a second time, and the time is in range. -/
def WellFormed : Prop :=
  (∀ tag ∈ r.tags, (∀ name ∈ boundNames, tag.head? ≠ some name) ∧ tag ≠ ["t", r.action])
    ∧ r.time < 2 ^ 63

instance : Decidable r.WellFormed :=
  inferInstanceAs (Decidable (_ ∧ _))

variable {r} {events : List NostrEvent}

theorem extractAuthEvent_headers (hmem : r.event ∈ events) :
    extractAuthEvent (Externals.knowing events).parser r.headers = .ok r.event :=
  extractAuthEvent_authHeaderValue rfl (parse_knowing hmem)

/-- The event is accepted for its request, whether or not the hash is asked for. -/
theorem accepts (hr : r.WellFormed) (hmem : r.event ∈ events) {hash : Option String}
    (hhash : ∀ x, hash = some x → r.hash = some x) :
    Accepts (.knowing events) serverUrl r.event ⟨r.action, r.path, r.method, hash⟩ r.time := by
  obtain ⟨htags, htime⟩ := hr
  have hcreated : (UInt64.ofNat r.time).toNat = r.time := by
    rw [UInt64.toNat_ofNat']
    omega
  exact accepts_testEvent rfl hmem (fun tag htag => (htags tag htag).1)
    (fun hmem => (htags _ hmem).2 rfl) hhash (by omega) (by omega) (by omega)

/-- It is used up by the first request, where everything remembered has lapsed. -/
theorem verifies (hr : r.WellFormed) (hmem : r.event ∈ events) {hash : Option String}
    (hhash : ∀ x, hash = some x → r.hash = some x) {seen : ReplayCache} {now : Nat}
    (hlapsed : seen.Lapsed now) :
    ∃ seen', verifyAuthEvent (.knowing events) r.time now seen r.event r.action serverUrl r.path
      r.method hash = (.ok (), seen') := by
  have hclaims : verifyAuthEventClaims (Externals.knowing events).secp r.time r.event r.action
      serverUrl r.path r.method hash = .ok () := accepts hr hmem hhash
  obtain ⟨hfresh, -⟩ := markAuthEventOnce_of_lapsed hlapsed r.event
  refine ⟨_, Prod.ext ?_ rfl⟩
  rw [verifyAuthEvent, hclaims]
  exact hfresh

end SignedRequest

/-- **What the client signs, the server accepts.**  An event built for a request, put in a header and
read back from it, passes the server's check of that request from thirty seconds before it was built
to sixty seconds after, on any spelling of the server with other trailing slashes. -/
theorem built_event_accepted (ext : Externals) (signer : BlossomSigner) (builtAt now : SystemTime)
    (nonce action : String) (hash : Option String) (server path method content : String)
    (extraTags : List (List String)) (baseUrl : String) (headers : HeaderMap) (event : NostrEvent)
    (hevent : event = buildBlossomAuthForRequestWithExtraTags signer (UInt64.ofNat builtAt.secs)
      nonce action hash server (serverOf server ++ path) method content extraTags)
    (hheader : headers.authorization = some (some (authHeaderValue event)))
    (hjson : ext.parser.parse (RustStr.asBytes event.toJson.print) = some event)
    (hsigned : verify ext.secp signer.publicKeyHex event.computedId
      (signer.signSchnorr event.computedId) = true)
    (hextra : ∀ tag ∈ extraTags,
      ∀ name ∈ ["expiration", "server", "u", "method", "x"], tag.head? ≠ some name)
    (haction : ["t", action] ∉ extraTags)
    (hbaseUrl : RustStr.trimEndMatches '/' baseUrl = RustStr.trimEndMatches '/' server)
    (hearly : builtAt.secs ≤ now.secs + 30) (hlate : now.secs ≤ builtAt.secs + 60) :
    extractAuthEvent ext.parser headers = .ok event
      ∧ verifyAuthEventClaims ext.secp now.secs event action baseUrl path method hash = .ok () := by
  refine ⟨extractAuthEvent_authHeaderValue hheader hjson, ?_⟩
  have hrange := builtAt.secs_lt
  have hcreated : (UInt64.ofNat builtAt.secs).toNat = builtAt.secs := by
    rw [UInt64.toNat_ofNat']
    omega
  have hbound : ∀ tag ∈ extraTags, ∀ name ∈ boundNames, tag.head? ≠ some name := by
    intro tag htag name hname
    refine hextra tag htag name ?_
    simp only [boundNames, List.mem_cons, List.not_mem_nil, or_false] at hname ⊢
    tauto
  have hsignature : verify ext.secp event.pubkey event.computedId event.sig = true := by
    have hpubkey : event.pubkey = signer.publicKeyHex := by rw [hevent]; rfl
    have hsig : event.sig = signer.signSchnorr event.computedId := by rw [hevent]; rfl
    rw [hpubkey, hsig]
    exact hsigned
  exact accepts_build hevent hbaseUrl hbound haction (fun _ h => h) (by omega) (by omega)
    (by omega) hsignature

/-- A delete of an empty blob, signed at a given second. -/
def emptyBlobDelete : SignedRequest where
  sig := (0x5c3406ebfa66dfbbf4271c8c8d9568e19628d2aa1534740d9225deba5a59daa1,
    0xf484e0ae7f07b047eca9e62915a98abda8b1f211b1ea13572358a037384cdbb9)
  time := 1700000000
  action := "delete"
  hash := some (sha256Hex [])
  path := "/" ++ sha256Hex []
  method := "delete"
  tags := [["t", "lfs"], ["path", "a"]]

/-- Its event passes to the last second of its life on a base URL with two slashes at the end. -/
theorem emptyBlobDelete_accepted :
    extractAuthEvent (Externals.knowing [emptyBlobDelete.event]).parser emptyBlobDelete.headers
        = .ok emptyBlobDelete.event
      ∧ verifyAuthEventClaims (.knowing [emptyBlobDelete.event]) 1700000060 emptyBlobDelete.event
        "delete" "http://h//" ("/" ++ sha256Hex []) "delete" (some (sha256Hex [])) = .ok () := by
  have hevent : emptyBlobDelete.event = testEvent emptyBlobDelete.sig
      (UInt64.ofNat 1700000000) "n" "delete" (some (sha256Hex [])) serverUrl ("/" ++ sha256Hex []) "delete"
      [["t", "lfs"], ["path", "a"]] := by
    rw [SignedRequest.event, emptyBlobDelete]
  have hheader : emptyBlobDelete.headers.authorization
      = some (some (authHeaderValue emptyBlobDelete.event)) := by
    rw [SignedRequest.headers]
  have hsigned := verify_testEvent hevent (List.mem_singleton_self emptyBlobDelete.event)
  have hpubkey : emptyBlobDelete.event.pubkey = testKey := by
    rw [hevent]
    rfl
  have hsig : emptyBlobDelete.event.sig = signatureHex emptyBlobDelete.sig := by
    rw [hevent]
    rfl
  rw [hpubkey, hsig] at hsigned
  generalize emptyBlobDelete.headers = headers at hheader ⊢
  have hjson := parse_knowing (List.mem_singleton_self emptyBlobDelete.event)
  rw [testEvent] at hevent
  generalize emptyBlobDelete.event = event at *
  exact built_event_accepted (.knowing [event]) ⟨testKey, fun _ => signatureHex emptyBlobDelete.sig⟩
    ⟨1700000000, by decide⟩ ⟨1700000060, by decide⟩ "n" "delete" (some (sha256Hex [])) serverUrl
    ("/" ++ sha256Hex []) "delete" "" [["t", "lfs"], ["path", "a"]] "http://h//" headers event
    hevent hheader hjson hsigned (by decide) (by decide) (by decide) (by decide) (by decide)

/-- An upload to be made at a given time, with the tags and the signature of its event. -/
structure PresignedUpload where
  sig : Nat × Nat
  time : Nat
  tags : List (List String)
  data : Bytes

namespace PresignedUpload

variable (u : PresignedUpload)

def signed : SignedRequest :=
  ⟨u.sig, u.time, "upload", some (sha256Hex u.data), "/upload", "PUT", u.tags⟩

def event : NostrEvent :=
  u.signed.event

def request : UploadRequest where
  call := u.signed.call
  headers := u.signed.headers
  body := ⟨u.data, some u.data.length, false⟩

/-- The context its tags give. -/
def context : LfsContext :=
  u.tags.foldl LfsContext.addTag LfsContext.empty

/-- The event is well formed and the body in range. -/
def WellFormed : Prop :=
  u.signed.WellFormed ∧ u.data ≠ [] ∧ u.data.length ≤ 1048576

instance : Decidable u.WellFormed :=
  inferInstanceAs (Decidable (_ ∧ _))

variable {u} {events : List NostrEvent}

/-- Only the extra tags say anything about tracking. -/
theorem fromEvent_event : LfsContext.fromEvent u.event = u.context := by
  simp [LfsContext.fromEvent, event, SignedRequest.event, signed, testEvent,
    buildBlossomAuthForRequestWithExtraTags, buildBlossomAuthWithExtraTags, LfsContext.addTag,
    context]

theorem context_request (hmem : u.event ∈ events) :
    u.request.context (.knowing events) = u.context := by
  have hextract : extractAuthEvent (Externals.knowing events).parser u.request.headers
      = .ok u.event := SignedRequest.extractAuthEvent_headers hmem
  simp [UploadRequest.context, requestContext, hextract, fromEvent_event]

/-- One of them is accepted. -/
theorem accepted [LfsVersionDatabase ν] (hu : u.WellFormed) (hmem : u.event ∈ events)
    {w : World MemoryBackend MemoryDatabase ν κ} {used : Nat} (h : Unrestricted w u.time used)
    (hbaseUrl : w.server.baseUrl = serverUrl) (hroom : used + u.data.length < 2 ^ 64) :
    (upload (.knowing events) w u.request).1.status = .ok
      ∧ Unrestricted (upload (.knowing events) w u.request).2 (u.time + 120)
        (used + u.data.length)
      ∧ (upload (.knowing events) w u.request).2.server.baseUrl = serverUrl := by
  have hsigned : u.signed.WellFormed := hu.1
  obtain ⟨-, hdata, hlength⟩ := hu
  have hbody : readBodyLimited 256 u.request.body (256 * 1024 * 1024)
      (declaredBodyLen u.request.headers) = .ok u.data := readBodyLimited_of_length hlength rfl
  have hlapse : saturatingAdd u.time 120 = u.time + 120 := by
    have : u.time < 2 ^ 63 := hsigned.2
    unfold saturatingAdd
    omega
  have hok := upload_accepted (.knowing events) u.request.call u.request.headers u.request.body h
    (SignedRequest.extractAuthEvent_headers hmem) hbody (by simpa [request] using hdata) hroom
    (by rw [hbaseUrl]; exact SignedRequest.accepts hsigned hmem nofun)
    (by rw [hbaseUrl]; exact SignedRequest.accepts hsigned hmem (fun _ hx => hx))
  have hupload : upload (.knowing events) w u.request
      = handleUpload (.knowing events) u.request.call u.request.headers u.request.body w := rfl
  rw [← hupload, hbaseUrl, show u.request.call.clock 2 = u.time from rfl, hlapse] at hok
  exact hok

end PresignedUpload

/-- One byte, uploaded by a key that a server lists. -/
def memberUpload : PresignedUpload where
  sig := (0xf35018bd314958b95d67cc9e70e4d29341876470becf9591c33aae04ae7eff97,
    0x4ed5f1f0a0abf3bc76eb5e7514d347be2e659746bcfa440807cf6861ca0a7afb)
  time := 1700000000
  tags := []
  data := [1]

open PresignedUpload

/-- Each upload comes when the one before has lapsed; the first not before the given time. -/
def Apart : Nat → List PresignedUpload → Prop
  | _, [] => True
  | now, u :: rest => now ≤ u.time ∧ Apart (u.time + 120) rest

/-- The time at which the last of some uploads has lapsed. -/
def timeAfter (now : Nat) (us : List PresignedUpload) : Nat :=
  us.foldl (fun _ u => u.time + 120) now

def decApart : (now : Nat) → (us : List PresignedUpload) → Decidable (Apart now us)
  | _, [] => inferInstanceAs (Decidable True)
  | now, u :: rest =>
    have := decApart (u.time + 120) rest
    inferInstanceAs (Decidable (now ≤ u.time ∧ Apart (u.time + 120) rest))

instance (now : Nat) (us : List PresignedUpload) : Decidable (Apart now us) :=
  decApart now us

theorem apart_of_append {now : Nat} {pre post : List PresignedUpload}
    (h : Apart now (pre ++ post)) : Apart now pre := by
  induction pre generalizing now with
  | nil => exact True.intro
  | cons u rest ih => exact ⟨h.1, ih h.2⟩

variable {us : List PresignedUpload}

/-- **All of them are accepted**, one after the other, and the server is without limits after the
last one has lapsed. -/
theorem presigned_accepted [LfsVersionDatabase ν] {events : List NostrEvent}
    (hwell : ∀ u ∈ us, u.WellFormed) (hmem : ∀ u ∈ us, u.event ∈ events) {now : Nat}
    (happart : Apart now us) {w : World MemoryBackend MemoryDatabase ν κ} {used : Nat}
    (h : Unrestricted w now used) (hbaseUrl : w.server.baseUrl = serverUrl)
    (hroom : used + 1048576 * us.length < 2 ^ 64) :
    AllAccepted (.knowing events) w (us.map (·.request))
      ∧ Unrestricted (runUploads (.knowing events) w (us.map (·.request))) (timeAfter now us)
        (used + 1048576 * us.length)
      ∧ (runUploads (.knowing events) w (us.map (·.request))).server.baseUrl = serverUrl := by
  induction us generalizing w now used with
  | nil => exact ⟨True.intro, h.mono le_rfl (Nat.le_add_right _ _), hbaseUrl⟩
  | cons u rest ih =>
    have hu := hwell u List.mem_cons_self
    have hlength : u.data.length ≤ 1048576 := hu.2.2
    rw [List.length_cons] at hroom ⊢
    obtain ⟨hstatus, hafter, hurl⟩ := accepted hu (hmem u List.mem_cons_self)
      (h.mono happart.1 le_rfl) hbaseUrl (by omega)
    obtain ⟨haccepted, hend, hendUrl⟩ := ih (fun v hv => hwell v (List.mem_cons_of_mem u hv))
      (fun v hv => hmem v (List.mem_cons_of_mem u hv)) happart.2 hafter hurl (by omega)
    rw [List.map_cons, allAccepted_cons, runUploads_cons]
    exact ⟨⟨hstatus, haccepted⟩, hend.mono le_rfl (by omega), hendUrl⟩

/-! ### On an empty server -/

/-- An empty server that keeps version records. -/
def emptyWorld : World MemoryBackend MemoryDatabase MemoryLfsVersionDatabase Unit where
  server := { ServerState.new (ν := MemoryLfsVersionDatabase) .new serverUrl with
    lfsVersionDb := some .new }
  seen := seenAuthEvents

/-- A blob store with nothing in it. -/
def emptyStore : Store :=
  ⟨fun _ => none, some []⟩

theorem startsEmpty_emptyWorld : StartsEmpty emptyWorld :=
  ⟨fun _ => rfl, rfl⟩

/-- What the server must know to take some uploads. -/
def presignedExternals (us : List PresignedUpload) : Externals :=
  .knowing (us.map (·.event))

/-- The blob store some uploads leave behind. -/
def storeAfter (us : List PresignedUpload) : Store :=
  us.foldl (fun s u => s.upload .reference u.context u.data u.time) emptyStore

/-- What is stored then is the bodies. -/
theorem stored_storeAfter {hash : String} :
    (storeAfter us).Stored hash ↔ ∃ u ∈ us, hash = sha256Hex u.data := by
  induction us using List.reverseRecOn with
  | nil => simp [storeAfter, Store.Stored, emptyStore]
  | append_singleton us u ih =>
    have hlast : storeAfter (us ++ [u])
        = (storeAfter us).upload .reference u.context u.data u.time := by
      simp [storeAfter]
    rw [hlast, Store.stored_upload_iff, ih]
    simp [or_and_right, exists_or]

/-- Uploads that can be made one after the other. -/
def PresignedRun (us : List PresignedUpload) : Prop :=
  (∀ u ∈ us, u.WellFormed) ∧ Apart 0 us ∧ us.length < 2 ^ 40

instance (us : List PresignedUpload) : Decidable (PresignedRun us) :=
  inferInstanceAs (Decidable (_ ∧ _))

namespace PresignedRun

variable {pre : List PresignedUpload} {events : List NostrEvent}

theorem of_append {post : List PresignedUpload} (h : PresignedRun (pre ++ post)) :
    PresignedRun pre := by
  obtain ⟨hwell, happart, hlength⟩ := h
  rw [List.length_append] at hlength
  exact ⟨fun u hu => hwell u (List.mem_append_left _ hu), apart_of_append happart, by omega⟩

variable {u : PresignedUpload}

theorem event_mem (hu : u ∈ us) : u.event ∈ us.map (·.event) :=
  List.mem_map.mpr ⟨u, hu, rfl⟩

section

variable (h : PresignedRun us) (hmem : ∀ u ∈ us, u.event ∈ events)
include h hmem

/-- What becomes of an empty server. -/
theorem spec :
    AllAccepted (.knowing events) emptyWorld (us.map (·.request))
      ∧ Unrestricted (runUploads (.knowing events) emptyWorld (us.map (·.request)))
        (timeAfter 0 us) (0 + 1048576 * us.length)
      ∧ (runUploads (.knowing events) emptyWorld (us.map (·.request))).server.baseUrl
        = serverUrl := by
  obtain ⟨hwell, happart, hlength⟩ := h
  exact presigned_accepted hwell hmem happart
    (unrestricted_new .new serverUrl (some MemoryLfsVersionDatabase.new) none 0) rfl (by omega)

/-- What they leave in the blob store. -/
theorem view :
    (runUploads (.knowing events) emptyWorld (us.map (·.request))).server.view
      = storeAfter us := by
  rw [view_runUploads (h.spec hmem).1, List.foldl_map]
  refine List.foldl_ext _ _ _ ?_
  intro s u hu
  rw [context_request (hmem u hu)]
  rfl

/-- What `GET` returns after them. -/
theorem get (call : Call) (data : Bytes) :
    (handleGetBlob (.knowing events) call (sha256Hex data)
      (runUploads (.knowing events) emptyWorld (us.map (·.request)))).1.blob?
        = (storeAfter us).read .reference (sha256Hex data) := by
  rw [(get_eq_read _ call (isValidSha256_sha256Hex data) _).1, h.view hmem]
  rfl

end

theorem context (hu : u ∈ us) :
    u.request.context (presignedExternals us) = u.context :=
  context_request (event_mem hu)

end PresignedRun

end BlossomRs.Server

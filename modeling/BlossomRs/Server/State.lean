import BlossomRs.Access
import BlossomRs.Auth.Client
import BlossomRs.Database
import BlossomRs.Lfs.Store
import BlossomRs.RateLimit
import BlossomRs.Server.Http
import BlossomRs.Server.ReplayCache

/-!
# Server state

The state behind the server's lock, over any implementation of the four storage interfaces, and the
process state beside it.

`ServerState.view` is the blob store of a state.  The lemmas at the end say that the lookups a
handler makes through the interfaces are lookups in the view, so that a handler's effect on blobs
can be read off as an operation on `Store`.
-/

namespace BlossomRs.Server

open Protocol Auth Storage Database Access Lfs RateLimit

/-- Everything outside the repository that a handler calls. -/
structure Externals where
  secp : Secp256k1
  parser : EventParser
  codecs : Codecs
  bech32 : Bech32

/-- Externals that know some signed events: they parse the text of these events and accept their
signatures, and nothing else. -/
def Externals.knowing (events : List NostrEvent) : Externals where
  secp := .knowing events
  parser := ⟨fun json => events.find? fun event =>
    RustStr.asBytes event.toJson.print == json⟩
  codecs := .reference
  bech32 := ⟨fun _ => none⟩

theorem parse_knowing {events : List NostrEvent} {event : NostrEvent} (hmem : event ∈ events) :
    (Externals.knowing events).parser.parse (RustStr.asBytes event.toJson.print)
      = some event := by
  change events.find? (fun known => RustStr.asBytes known.toJson.print
    == RustStr.asBytes event.toJson.print) = some event
  cases hfind : events.find? (fun known => RustStr.asBytes known.toJson.print
      == RustStr.asBytes event.toJson.print) with
  | none => exact absurd (List.find?_eq_none.mp hfind event hmem) (by simp)
  | some known =>
    have htext : RustStr.asBytes known.toJson.print = RustStr.asBytes event.toJson.print := by
      simpa using List.find?_some hfind
    rw [NostrEvent.toJson_injective
      (Json.print_injective (RustStr.asBytes_injective htext))]

/-- What the environment supplies to one call: the readings of its clocks in the order they are
made, in seconds and in milliseconds, and the buffer permits that are free. -/
structure Call where
  clock : Nat → Nat
  clockMs : Nat
  freePermits : Nat

/-- Bytes served and last access of each blob. -/
structure StatsAccumulator where
  counters : AList fun _ : String => Nat × Nat

namespace StatsAccumulator

def new : StatsAccumulator :=
  ⟨∅⟩

/-- `record_access`: the byte counter wraps around. -/
def recordAccess (stats : StatsAccumulator) (sha256 : String) (bytesServed now : Nat) :
    StatsAccumulator :=
  let egress := ((stats.counters.lookup sha256).map (·.1)).getD 0
  ⟨stats.counters.insert sha256 ((egress + bytesServed) % 2 ^ 64, now)⟩

/-- What `drain` returns: the counters that have counted something.  The accumulator is empty
afterwards. -/
def drain (stats : StatsAccumulator) : List (String × Nat × Nat) :=
  (stats.counters.entries.map fun entry => (entry.1, entry.2)).filter fun entry => 0 < entry.2.1

/-- `flush`: each drained count goes to the database.  Failures are only logged. -/
def flush {δ : Type} [BlobDatabase δ] (stats : StatsAccumulator) (now : Nat) (database : δ) : δ :=
  stats.drain.foldl (fun database entry =>
    (BlobDatabase.recordAccess database entry.1 entry.2.1 now).2) database

end StatsAccumulator

/-- The state behind the lock. -/
structure ServerState (β δ ν κ : Type) where
  backend : β
  database : δ
  access : AccessPolicy
  roleBasedAccess : Option RoleBasedAccess
  whitelist : Option Whitelist
  stats : StatsAccumulator
  rateLimiter : Option RateLimiter
  mediaEnabled : Bool
  baseUrl : String
  requirements : UploadRequirements
  bodyLimit : Nat
  lockDb : Option κ
  lfsVersionDb : Option ν

/-- `BlobServer::new`: what the builder fills in. -/
def ServerState.new {β ν κ : Type} (backend : β) (baseUrl : String) :
    ServerState β MemoryDatabase ν κ where
  backend := backend
  database := .new
  access := .openAccess
  roleBasedAccess := none
  whitelist := none
  stats := .new
  rateLimiter := none
  mediaEnabled := false
  baseUrl := baseUrl
  requirements := ⟨none, [], false⟩
  bodyLimit := 256 * 1024 * 1024
  lockDb := none
  lfsVersionDb := none

/-- The server together with the process-wide replay cache. -/
structure World (β δ ν κ : Type) where
  server : ServerState β δ ν κ
  seen : ReplayCache

namespace ServerState

variable {β δ ν κ : Type} (s : ServerState β δ ν κ)

/-- `flush_stats`. -/
def flushStats [BlobDatabase δ] (now : Nat) : ServerState β δ ν κ :=
  { s with database := s.stats.flush now s.database, stats := .new }

/-- The policy's decision on the current live handles. -/
def isAllowed (pubkey : String) (action : Action) : Bool :=
  s.access.isAllowed s.whitelist s.roleBasedAccess pubkey action

/-- The policy's role on the current live handles. -/
def role (pubkey : String) : Role :=
  s.access.role s.whitelist s.roleBasedAccess pubkey

/-- Ask the rate limiter, if there is one. -/
def checkRate (key : String) (nowMs : Nat) : Bool × ServerState β δ ν κ :=
  match s.rateLimiter with
  | none => (true, s)
  | some limiter =>
    let (allowed, limiter) := limiter.check key nowMs
    (allowed, { s with rateLimiter := some limiter })

theorem checkRate_frame (key : String) (nowMs : Nat) :
    ∃ limiter, (s.checkRate key nowMs).2 = { s with rateLimiter := limiter } := by
  unfold checkRate
  split
  · exact ⟨s.rateLimiter, rfl⟩
  · exact ⟨_, rfl⟩

/-- Record lookup through the interface. -/
def versionLookup [LfsVersionDatabase ν] : Option VersionLookup :=
  s.lfsVersionDb.map LfsVersionDatabase.getBySha256

/-- The blob store of a state. -/
def view [BlobBackend β] [LfsVersionDatabase ν] [LawfulLfsVersionDatabase ν] : Store where
  blobs := BlobBackend.get s.backend
  versions := s.lfsVersionDb.map FallibleLfsVersionDatabase.records

section View

variable {s} [BlobBackend β] [LfsVersionDatabase ν] [LawfulLfsVersionDatabase ν]

theorem getBySha256_eq_lookup {db : ν} (h : s.lfsVersionDb = some db) :
    LfsVersionDatabase.getBySha256 db = s.view.lookup := by
  funext hash
  rw [LawfulLfsVersionDatabase.getBySha256_eq]
  simp [Store.lookup, Store.find, Store.records, view, h]

/-- Lookups through the interface are lookups in the view. -/
theorem versionLookup_eq :
    s.versionLookup = s.view.versions.map fun _ => s.view.lookup := by
  cases h : s.lfsVersionDb with
  | none => simp [versionLookup, view, h]
  | some db =>
    have hlookup := getBySha256_eq_lookup h
    simp [versionLookup, view, h] at hlookup ⊢
    exact hlookup

end View

end ServerState

/-- `verify_auth_event`: check the claims, then use the event up. -/
def verifyAuthEvent (ext : Externals) (claimsNow markNow : Nat) (seen : ReplayCache)
    (event : NostrEvent) (expectedAction baseUrl path method : String)
    (expectedHash : Option String) : Except AuthError Unit × ReplayCache :=
  match verifyAuthEventClaims ext.secp claimsNow event expectedAction baseUrl path method
      expectedHash with
  | .ok () => markAuthEventOnce seen markNow event
  | .error e => (.error e, seen)

end BlossomRs.Server

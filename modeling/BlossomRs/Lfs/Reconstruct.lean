import BlossomRs.Lib.Checks
import BlossomRs.Lib.ParentChain
import BlossomRs.Lfs.Codec
import BlossomRs.Lfs.Version

/-!
# Reading a stored blob back

`reconstructBlob` follows the delta records of a blob downwards, at most `maxDeltaChainDepth` of
them, loads the blob the chain rests on, and applies the deltas upwards.  It sees the record store
and the backend only through the two lookup functions it is given.

The loop collects the whole chain before it reads any bytes.  `reconstructBlob_eq_chase` gives it as
a recursion on the chain instead: `chase n h` is the content of `h` when at most `n` records may be
looked at.  All later reasoning goes through `chase`.
-/

namespace BlossomRs.Lfs

open Protocol Checks

/-- `MAX_DELTA_CHAIN_DEPTH`. -/
def maxDeltaChainDepth : Nat :=
  10

/-- A record lookup, which can fail. -/
abbrev VersionLookup := String → Except LfsVersionError (Option LfsFileVersion)

/-- A backend lookup. -/
abbrev Fetch := String → Option Bytes

/-- The records visited from a hash, the last visited first, in front of those already visited. -/
def deltaChain (lookup : VersionLookup) :
    Nat → String → List LfsFileVersion → Except String (List LfsFileVersion)
  | 0, _, chain => .ok chain
  | fuel + 1, current, chain =>
    match lookup current with
    | .ok (some v) =>
      match v.deltaBase with
      | some base => deltaChain lookup fuel base (v :: chain)
      | none => .ok (v :: chain)
    | _ => .error "delta chain broken"

/-- The hash whose bytes the deltas of a chain apply to. -/
def chainBase : List LfsFileVersion → Option String
  | [] => none
  | v :: _ => if v.storage ≠ .delta then some v.sha256 else v.baseSha256

variable (codecs : Codecs) (lookup : VersionLookup) (fetch : Fetch)

/-- The content of the blob a chain rests on: only a compressed one is decoded. -/
def rootContent (hash : String) : Except String Bytes :=
  match fetch hash with
  | none => .error ("base blob " ++ hash ++ " not found")
  | some raw =>
    match lookup hash with
    | .ok (some v) => .ok (if v.storage = .compressed then codecs.decompressOr raw else raw)
    | _ => .ok raw

/-- Apply one stored delta. -/
def applyDelta (hash : String) (base : Bytes) : Except String Bytes :=
  match fetch hash with
  | none => .error ("delta blob " ++ hash ++ " not found")
  | some raw => codecs.decodeDelta base (codecs.decompressOr raw)

/-- Apply the deltas of a chain in order, passing over what is not a delta. -/
def applyDeltas : List LfsFileVersion → Bytes → Except String Bytes
  | [], result => .ok result
  | v :: rest, result =>
    if v.storage = .delta then applyDelta codecs fetch v.sha256 result >>= applyDeltas rest
    else applyDeltas rest result

/-- What the loop does with the chain it collected. -/
def resolveChain (chain : List LfsFileVersion) : Except String Bytes :=
  match chainBase chain with
  | none => .error "no base in chain"
  | some baseHash => rootContent codecs lookup fetch baseHash >>= applyDeltas codecs fetch chain

/-- `reconstruct_blob`. -/
def reconstructBlob (version : LfsFileVersion) : Except String Bytes :=
  deltaChain lookup maxDeltaChainDepth version.sha256 [] >>= resolveChain codecs lookup fetch

/-- The content of a stored blob, by its record: what `GET` serves and what a delta is made
against. -/
def loadStored (version : LfsFileVersion) (raw : Bytes) : Bytes :=
  match version.storage with
  | .compressed => codecs.decompressOr raw
  | .delta =>
    match reconstructBlob codecs lookup fetch version with
    | .ok data => data
    | .error _ => raw
  | .raw => raw

/-! ### The recursion behind the loop -/

/-- The content of a hash when at most `n` records may be looked at. -/
def chase : Nat → String → Except String Bytes
  | 0, hash => rootContent codecs lookup fetch hash
  | n + 1, hash =>
    match lookup hash with
    | .ok (some v) =>
      match v.deltaBase with
      | some base => chase n base >>= applyDelta codecs fetch v.sha256
      | none =>
        if v.storage = .delta then .error "no base in chain"
        else rootContent codecs lookup fetch v.sha256
    | _ => .error "delta chain broken"

variable {codecs lookup fetch}

theorem deltaBase_eq_some {v : LfsFileVersion} {base : String} :
    v.deltaBase = some base ↔ v.storage = .delta ∧ v.baseSha256 = some base := by
  simp [LfsFileVersion.deltaBase]

/-- The loop invariant: walking on from a hash with a chain already collected is chasing the hash
and then applying that chain.  When no lookup is left, the chain must rest on the hash. -/
theorem deltaChain_bind_resolveChain (n : Nat) (hash : String)
    (chain : List LfsFileVersion) (hrest : n = 0 → chainBase chain = some hash) :
    deltaChain lookup n hash chain >>= resolveChain codecs lookup fetch
      = chase codecs lookup fetch n hash >>= applyDeltas codecs fetch chain := by
  induction n generalizing hash chain with
  | zero =>
    rw [deltaChain, ok_bind, resolveChain, hrest rfl]
    rfl
  | succ n ih =>
    rw [deltaChain, chase]
    split
    case h_1 v hv =>
      split
      case h_1 base hbase =>
        obtain ⟨hdelta, hsome⟩ := deltaBase_eq_some.mp hbase
        have hnext : chainBase (v :: chain) = some base := by
          simp [chainBase, hdelta, hsome]
        rw [ih base (v :: chain) fun _ => hnext, bind_assoc]
        congr 1
        funext content
        rw [applyDeltas, if_pos hdelta]
      case h_2 hbase =>
        rw [ok_bind, resolveChain]
        by_cases hdelta : v.storage = .delta
        · have hnone : v.baseSha256 = none := by
            simpa [LfsFileVersion.deltaBase, hdelta] using hbase
          simp [chainBase, hdelta, hnone]
        · have hskip : applyDeltas codecs fetch (v :: chain)
              = applyDeltas codecs fetch chain := by
            funext content
            rw [applyDeltas, if_neg hdelta]
          simp [chainBase, hdelta, hskip]
    case h_2 => rfl

/-- **The loop computes the recursion**, errors included. -/
theorem reconstructBlob_eq_chase (version : LfsFileVersion) :
    reconstructBlob codecs lookup fetch version
      = chase codecs lookup fetch maxDeltaChainDepth version.sha256 := by
  rw [reconstructBlob, deltaChain_bind_resolveChain _ _ _ fun h => absurd h (by decide)]
  cases chase codecs lookup fetch maxDeltaChainDepth version.sha256 <;> rfl

/-! ### Link by link -/

variable (codecs lookup fetch)

/-- The bytes that a chain rests on: a frame, where the record says so and there is one, and the
bytes as they are otherwise. -/
inductive Grounds : String → Bytes → Prop
  | frame {hash : String} {v : LfsFileVersion} {raw content : Bytes} (hraw : fetch hash = some raw)
      (hv : lookup hash = .ok (some v)) (hstorage : v.storage = .compressed)
      (hframe : codecs.decompress raw = .ok content) : Grounds hash content
  | noFrame {hash e : String} {v : LfsFileVersion} {raw : Bytes} (hraw : fetch hash = some raw)
      (hv : lookup hash = .ok (some v)) (hstorage : v.storage = .compressed)
      (herror : codecs.decompress raw = .error e) : Grounds hash raw
  | plain {hash : String} {raw : Bytes} (hraw : fetch hash = some raw)
      (hplain : ∀ v, lookup hash = .ok (some v) → v.storage ≠ .compressed) : Grounds hash raw

/-- The links of a hash give a content, when at most so many records may be looked at: each record
is found, each link has its bytes, and each delta decodes against the content below it. -/
inductive Resolves : Nat → String → Bytes → Prop
  | last {hash : String} {content : Bytes} (hground : Grounds codecs lookup fetch hash content) :
      Resolves 0 hash content
  | full {n : Nat} {hash : String} {v : LfsFileVersion} {content : Bytes}
      (hv : lookup hash = .ok (some v)) (hfull : v.storage ≠ .delta)
      (hground : Grounds codecs lookup fetch v.sha256 content) : Resolves (n + 1) hash content
  | link {n : Nat} {hash base : String} {v : LfsFileVersion} {below raw content : Bytes}
      (hv : lookup hash = .ok (some v)) (hbase : v.deltaBase = some base)
      (hbelow : Resolves n base below) (hraw : fetch v.sha256 = some raw)
      (hdecode : codecs.decodeDelta below (codecs.decompressOr raw) = .ok content) :
      Resolves (n + 1) hash content

/-- The links of a hash break off: a record is not found or names no base, bytes are missing, or a
delta does not decode against the content below it. -/
inductive Breaks : Nat → String → Prop
  | lastLost {hash : String} (hlost : fetch hash = none) : Breaks 0 hash
  | unrecorded {n : Nat} {hash : String} (hmissing : ∀ v, lookup hash ≠ .ok (some v)) :
      Breaks (n + 1) hash
  | baseless {n : Nat} {hash : String} {v : LfsFileVersion} (hv : lookup hash = .ok (some v))
      (hdelta : v.storage = .delta) (hbase : v.baseSha256 = none) : Breaks (n + 1) hash
  | fullLost {n : Nat} {hash : String} {v : LfsFileVersion} (hv : lookup hash = .ok (some v))
      (hfull : v.storage ≠ .delta) (hlost : fetch v.sha256 = none) : Breaks (n + 1) hash
  | lower {n : Nat} {hash base : String} {v : LfsFileVersion} (hv : lookup hash = .ok (some v))
      (hbase : v.deltaBase = some base) (hbreaks : Breaks n base) : Breaks (n + 1) hash
  | deltaLost {n : Nat} {hash base : String} {v : LfsFileVersion} (hv : lookup hash = .ok (some v))
      (hbase : v.deltaBase = some base) (hlost : fetch v.sha256 = none) : Breaks (n + 1) hash
  | undecoded {n : Nat} {hash base e : String} {v : LfsFileVersion} {below raw : Bytes}
      (hv : lookup hash = .ok (some v)) (hbase : v.deltaBase = some base)
      (hbelow : Resolves codecs lookup fetch n base below) (hraw : fetch v.sha256 = some raw)
      (herror : codecs.decodeDelta below (codecs.decompressOr raw) = .error e) : Breaks (n + 1) hash

variable {codecs lookup fetch} {hash : String} {content : Bytes} {n : Nat}

theorem Grounds.rootContent_eq (h : Grounds codecs lookup fetch hash content) :
    rootContent codecs lookup fetch hash = .ok content := by
  cases h with
  | frame hraw hv hstorage hframe =>
    simp only [rootContent, hraw, hv, hstorage, if_true, Codecs.decompressOr, hframe]
  | noFrame hraw hv hstorage herror =>
    simp only [rootContent, hraw, hv, hstorage, if_true, Codecs.decompressOr, herror]
  | plain hraw hplain =>
    simp only [rootContent, hraw]
    split
    · rename_i v hv
      rw [if_neg (hplain v hv)]
    · rfl

theorem rootContent_spec (codecs : Codecs) (lookup : VersionLookup) (fetch : Fetch) (hash : String) :
    (∃ content, Grounds codecs lookup fetch hash content) ∨ fetch hash = none := by
  cases hraw : fetch hash with
  | none => exact Or.inr rfl
  | some raw =>
    left
    by_cases hframed : ∃ v, lookup hash = .ok (some v) ∧ v.storage = .compressed
    · obtain ⟨v, hv, hstorage⟩ := hframed
      cases hframe : codecs.decompress raw with
      | ok content => exact ⟨content, .frame hraw hv hstorage hframe⟩
      | error e => exact ⟨raw, .noFrame hraw hv hstorage hframe⟩
    · exact ⟨raw, .plain hraw fun v hv hstorage => hframed ⟨v, hv, hstorage⟩⟩

theorem Resolves.chase_eq (h : Resolves codecs lookup fetch n hash content) :
    chase codecs lookup fetch n hash = .ok content := by
  induction h with
  | last hground => exact hground.rootContent_eq
  | full hv hfull hground =>
    have hbase : LfsFileVersion.deltaBase _ = none := if_neg hfull
    simp only [chase, hv, hbase, if_neg hfull, hground.rootContent_eq]
  | link hv hbase _ hraw hdecode ih =>
    simp only [chase, hv, hbase, ih, ok_bind, applyDelta, hraw, hdecode]

theorem Breaks.chase_error (h : Breaks codecs lookup fetch n hash) :
    ∃ e, chase codecs lookup fetch n hash = .error e := by
  induction h with
  | lastLost hlost => exact ⟨_, by simp only [chase, rootContent, hlost]; rfl⟩
  | unrecorded hmissing =>
    refine ⟨"delta chain broken", ?_⟩
    rw [chase]
    split
    · rename_i v hv
      exact absurd hv (hmissing v)
    · rfl
  | baseless hv hdelta hbase =>
    have hnone : LfsFileVersion.deltaBase _ = none := (if_pos hdelta).trans hbase
    exact ⟨_, by simp only [chase, hv, hnone, hdelta, if_true]; rfl⟩
  | fullLost hv hfull hlost =>
    have hnone : LfsFileVersion.deltaBase _ = none := if_neg hfull
    exact ⟨_, by simp only [chase, hv, hnone, if_neg hfull, rootContent, hlost]; rfl⟩
  | lower hv hbase _ ih =>
    obtain ⟨e, he⟩ := ih
    exact ⟨e, by simp only [chase, hv, hbase, he, error_bind]⟩
  | @deltaLost n hash base v hv hbase hlost =>
    cases hbelow : chase codecs lookup fetch n base with
    | error e => exact ⟨e, by simp only [chase, hv, hbase, hbelow, error_bind]⟩
    | ok below => exact ⟨_, by simp only [chase, hv, hbase, hbelow, ok_bind, applyDelta, hlost]; rfl⟩
  | @undecoded n hash base e v below raw hv hbase hbelow hraw herror =>
    exact ⟨e, by simp only [chase, hv, hbase, hbelow.chase_eq, ok_bind, applyDelta, hraw, herror]⟩

/-- The links of a hash give a content, or break off. -/
theorem resolves_or_breaks (codecs : Codecs) (lookup : VersionLookup) (fetch : Fetch) (n : Nat)
    (hash : String) :
    (∃ content, Resolves codecs lookup fetch n hash content) ∨ Breaks codecs lookup fetch n hash := by
  induction n generalizing hash with
  | zero =>
    rcases rootContent_spec codecs lookup fetch hash with ⟨content, hground⟩ | hlost
    · exact Or.inl ⟨content, .last hground⟩
    · exact Or.inr (.lastLost hlost)
  | succ n ih =>
    by_cases hfound : ∃ v, lookup hash = .ok (some v)
    · obtain ⟨v, hv⟩ := hfound
      by_cases hdelta : v.storage = .delta
      · cases hbase : v.baseSha256 with
        | none => exact Or.inr (.baseless hv hdelta hbase)
        | some base =>
          have hlink := deltaBase_eq_some.mpr ⟨hdelta, hbase⟩
          rcases ih base with ⟨below, hbelow⟩ | hbreaks
          · cases hraw : fetch v.sha256 with
            | none => exact Or.inr (.deltaLost hv hlink hraw)
            | some raw =>
              cases hdecode : codecs.decodeDelta below (codecs.decompressOr raw) with
              | ok content => exact Or.inl ⟨content, .link hv hlink hbelow hraw hdecode⟩
              | error e => exact Or.inr (.undecoded hv hlink hbelow hraw hdecode)
          · exact Or.inr (.lower hv hlink hbreaks)
      · rcases rootContent_spec codecs lookup fetch v.sha256 with ⟨content, hground⟩ | hlost
        · exact Or.inl ⟨content, .full hv hdelta hground⟩
        · exact Or.inr (.fullLost hv hdelta hlost)
    · exact Or.inr (.unrecorded fun v hv => hfound ⟨v, hv⟩)

end BlossomRs.Lfs

import BlossomRs.Auth.Client

/-!
# Release manifests

A release manifest lists the files of a package with their hashes.  Its signature covers one text, the
kind, the target and the entries, joined with newlines and tabs, and nothing in the text says where a
field ends.  Fields without newlines are read back from the text (`Contents.eq_of_text`), and an entry can
be moved into the target without changing it (`text_absorbing`).

`verified_was_signed` says what follows.  A verified manifest with such fields is one that the signer made
through `generate_release_manifest_for_entries`, and every manifest the signer made, if it has an entry,
gives one that is verified and was never made.

Unforgeable means that a valid signature is of a digest the key was used for.  The release key also signs
the roots of source trees, so these are part of what an `Issuer` has signed.
-/

namespace BlossomRs.Integrity

open Protocol Auth

/-! ### Manifests -/

inductive IntegrityStatus where
  | verified
  | mismatch
  | unsigned
  | unavailable
deriving DecidableEq, Repr

structure IntegrityEntry where
  path : String
  sha256 : String
deriving DecidableEq, Repr

structure ReleaseManifest where
  manifestVersion : UInt32
  manifestKind : String
  hashAlgorithm : String
  packageName : String
  target : String
  aggregateHash : String
  signerNpub : String
  signature : String
  entries : List IntegrityEntry
deriving Repr

/-- The files below a directory: what reading one yields, or the text of the error. -/
abbrev Directory := String → Except String Bytes

/-- `hash_file`. -/
def hashFile (files : Directory) (path : String) : Except String String :=
  (files path).map sha256Hex

/-- `decode_hash`. -/
def decodeHash (hash : String) : Option Sha256.Digest :=
  match Hex.decode hash with
  | some bytes => if h : bytes.length = 32 then some ⟨bytes, h⟩ else none
  | none => none

/-- The lines of the entries. -/
def entryLines : List IntegrityEntry → String
  | [] => ""
  | entry :: entries => entry.path ++ "\t" ++ entry.sha256 ++ "\n" ++ entryLines entries

/-- The text that `aggregate_hash` feeds to the hash. -/
def aggregateText (kind target : String) (entries : List IntegrityEntry) : String :=
  kind ++ "\n" ++ (target ++ "\n" ++ entryLines entries)

/-- `aggregate_hash`. -/
def aggregateHash (kind target : String) (entries : List IntegrityEntry) : String :=
  sha256Hex (RustStr.asBytes (aggregateText kind target entries))

/-- `replace('\\', "/")`. -/
def forwardSlashes (path : String) : String :=
  String.ofList (path.toList.map fun c => if c = '\\' then '/' else c)

/-- `generate_release_manifest_for_entries`, with the identity that the signing configuration gives. -/
def generateReleaseManifestForEntries (package : Directory) (paths : List String) (target : String)
    (signing : Except String BlossomSigner) : Except String ReleaseManifest := do
  let signer ← signing
  let entries ← paths.mapM fun path => do
    let hash ← hashFile package path
    .ok (⟨forwardSlashes path, hash⟩ : IntegrityEntry)
  let entries := entries.insertionSort fun a b => a.path ≤ b.path
  let aggregate := aggregateHash "release-package" target entries
  let digest ← (decodeHash aggregate).elim (.error "invalid aggregate hash") .ok
  .ok {
    manifestVersion := 1
    manifestKind := "release-package"
    hashAlgorithm := "sha256"
    packageName := "blossom-server"
    target := target
    aggregateHash := aggregate
    signerNpub := signer.publicKeyHex
    signature := signer.signSchnorr digest
    entries := entries }

/-- The files of the entries are there, with their hashes. -/
def filesMatch (files : Directory) (entries : List IntegrityEntry) : Bool :=
  entries.all fun entry => hashFile files entry.path == .ok entry.sha256

/-- `verify_release_manifest`, with the files beside the manifest. -/
def verifyReleaseManifest (secp : Secp256k1) (manifest : ReleaseManifest) (files : Directory) :
    IntegrityStatus :=
  if manifest.hashAlgorithm ≠ "sha256" ∨ manifest.manifestKind ≠ "release-package" then .mismatch
  else if aggregateHash "release-package" manifest.target manifest.entries ≠ manifest.aggregateHash then
    .mismatch
  else
    match decodeHash manifest.aggregateHash with
    | none => .mismatch
    | some digest =>
      if verify secp manifest.signerNpub digest manifest.signature then
        if filesMatch files manifest.entries then .verified else .mismatch
      else .mismatch

/-! ### The signed text -/

/-- What the signature of a manifest is meant to cover. -/
@[ext]
structure Contents where
  target : String
  entries : List IntegrityEntry
deriving DecidableEq, Repr

def ReleaseManifest.contents (manifest : ReleaseManifest) : Contents :=
  ⟨manifest.target, manifest.entries⟩

def Contents.text (c : Contents) : String :=
  aggregateText "release-package" c.target c.entries

/-- Target and paths have no newlines. -/
structure Contents.OnLines (c : Contents) : Prop where
  target : '\n' ∉ c.target.toList
  path : ∀ entry ∈ c.entries, '\n' ∉ entry.path.toList

/-- The hashes are hashes of some files. -/
def Hashed (entries : List IntegrityEntry) : Prop :=
  ∀ entry ∈ entries, ∃ data, entry.sha256 = sha256Hex data

theorem newline : "\n".toList = ['\n'] := by
  decide

theorem tab : "\t".toList = ['\t'] := by
  decide

theorem not_mem_sha256Hex {c : Char} (hc : Hex.IsLowerDigit c = false) (data : Bytes) :
    c ∉ (sha256Hex data).toList := by
  intro h
  rw [isLowerDigit_of_mem_sha256Hex h] at hc
  cases hc

/-- The lines of entries without newlines in their paths are read back one by one. -/
theorem eq_of_entryLines {entries entries' : List IntegrityEntry}
    (hpath : ∀ entry ∈ entries, '\n' ∉ entry.path.toList) (hhash : Hashed entries)
    (hpath' : ∀ entry ∈ entries', '\n' ∉ entry.path.toList) (hhash' : Hashed entries')
    (hlines : entryLines entries = entryLines entries') : entries = entries' := by
  induction entries generalizing entries' with
  | nil =>
    cases entries' with
    | nil => rfl
    | cons entry' entries' =>
      have hlist := congrArg String.toList hlines
      simp [entryLines] at hlist
  | cons entry entries ih =>
    cases entries' with
    | nil =>
      have hlist := congrArg String.toList hlines
      simp [entryLines] at hlist
    | cons entry' entries' =>
      obtain ⟨path, sha256⟩ := entry
      obtain ⟨path', sha256'⟩ := entry'
      obtain ⟨⟨data, rfl : sha256 = _⟩, hhashes⟩ := List.forall_mem_cons.mp hhash
      obtain ⟨⟨data', rfl : sha256' = _⟩, hhashes'⟩ := List.forall_mem_cons.mp hhash'
      obtain ⟨hname, hpaths⟩ := List.forall_mem_cons.mp hpath
      obtain ⟨hname', hpaths'⟩ := List.forall_mem_cons.mp hpath'
      have hline : ∀ {path : String} (data : Bytes), '\n' ∉ path.toList →
          '\n' ∉ (path ++ "\t" ++ sha256Hex data).toList := fun data hname => by
        simp [hname, not_mem_sha256Hex (c := '\n') (by decide) data]
      rw [entryLines, entryLines] at hlines
      obtain ⟨hfirst, hrest⟩ :=
        RustStr.eq_of_append_first newline (hline data hname) (hline data' hname') hlines
      obtain ⟨rfl, hsha256⟩ := RustStr.eq_of_append_last tab
        (not_mem_sha256Hex (by decide) data) (not_mem_sha256Hex (by decide) data') hfirst
      rw [hsha256, ih hpaths hhashes hpaths' hhashes' hrest]

/-- Contents without newlines in their fields are read back from their text. -/
theorem Contents.eq_of_text {c c' : Contents} (h : c.OnLines) (hhash : Hashed c.entries)
    (h' : c'.OnLines) (hhash' : Hashed c'.entries) (htext : c.text = c'.text) : c = c' := by
  rw [text, text, aggregateText, aggregateText, String.append_right_inj] at htext
  obtain ⟨htarget, hlines⟩ := RustStr.eq_of_append_first newline h.target h'.target htext
  exact Contents.ext htarget (eq_of_entryLines h.path hhash h'.path hhash' hlines)

/-- The first entry has become a part of the target. -/
def ReleaseManifest.absorbing (manifest : ReleaseManifest) (entry : IntegrityEntry)
    (rest : List IntegrityEntry) : ReleaseManifest :=
  { manifest with
    target := manifest.target ++ "\n" ++ entry.path ++ "\t" ++ entry.sha256
    entries := rest }

variable {manifest : ReleaseManifest} {files : Directory}

theorem text_absorbing {entry : IntegrityEntry} {rest : List IntegrityEntry}
    (h : manifest.entries = entry :: rest) :
    (manifest.absorbing entry rest).contents.text = manifest.contents.text := by
  simp only [Contents.text, ReleaseManifest.contents, ReleaseManifest.absorbing, aggregateText, h,
    entryLines, String.append_assoc]

/-! ### Verified and generated manifests -/

theorem decodeHash_sha256Hex (data : Bytes) : decodeHash (sha256Hex data) = some (Sha256.sha256 data) := by
  have hlength : (Sha256.sha256 data).toList.length = 32 := (Sha256.sha256 data).2
  rw [decodeHash, sha256Hex, Hex.decode_encode]
  exact dif_pos hlength

/-- The digest of a manifest's text. -/
def ReleaseManifest.digest (manifest : ReleaseManifest) : Sha256.Digest :=
  Sha256.sha256 (RustStr.asBytes manifest.contents.text)

/-- The files of the entries have their hashes. -/
def HasFiles (files : Directory) (entries : List IntegrityEntry) : Prop :=
  ∀ entry ∈ entries, hashFile files entry.path = .ok entry.sha256

theorem exists_of_hashFile {path hash : String} (h : hashFile files path = .ok hash) :
    ∃ data, hash = sha256Hex data := by
  obtain ⟨data, -, rfl⟩ := Checks.map_eq_ok.mp h
  exact ⟨data, rfl⟩

theorem HasFiles.hashed {entries : List IntegrityEntry} (h : HasFiles files entries) :
    Hashed entries := fun entry hentry =>
  exists_of_hashFile (h entry hentry)

theorem filesMatch_iff {entries : List IntegrityEntry} :
    filesMatch files entries = true ↔ HasFiles files entries := by
  unfold filesMatch HasFiles
  rw [List.all_eq_true]
  exact forall₂_congr fun _ _ => beq_iff_eq

/-- What a verified manifest has passed. -/
theorem verified_iff {secp : Secp256k1} :
    verifyReleaseManifest secp manifest files = .verified
      ↔ (manifest.hashAlgorithm = "sha256" ∧ manifest.manifestKind = "release-package")
        ∧ sha256Hex (RustStr.asBytes manifest.contents.text) = manifest.aggregateHash
        ∧ verify secp manifest.signerNpub manifest.digest manifest.signature = true
        ∧ HasFiles files manifest.entries := by
  rw [← filesMatch_iff]
  unfold verifyReleaseManifest
  by_cases hkind : manifest.hashAlgorithm ≠ "sha256" ∨ manifest.manifestKind ≠ "release-package"
  · rw [if_pos hkind]
    refine iff_of_false nofun fun h => ?_
    exact hkind.elim (fun hne => hne h.1.1) fun hne => hne h.1.2
  rw [if_neg hkind]
  push Not at hkind
  by_cases hhash : aggregateHash "release-package" manifest.target manifest.entries
      ≠ manifest.aggregateHash
  · rw [if_pos hhash]
    exact iff_of_false nofun fun h => hhash h.2.1
  rw [if_neg hhash]
  have hsame : sha256Hex (RustStr.asBytes manifest.contents.text) = manifest.aggregateHash :=
    not_not.mp hhash
  rw [← hsame, decodeHash_sha256Hex]
  dsimp only
  split_ifs with hsignature hfiles
  · exact iff_of_true rfl ⟨hkind, rfl, hsignature, hfiles⟩
  · exact iff_of_false nofun fun h => hfiles h.2.2.2
  · exact iff_of_false nofun fun h => hsignature h.2.2.1

/-- What is known of a generated manifest. -/
theorem generated_eq {package : Directory} {paths : List String} {target : String}
    {signer : BlossomSigner}
    (h : generateReleaseManifestForEntries package paths target (.ok signer) = .ok manifest) :
    (manifest.hashAlgorithm = "sha256" ∧ manifest.manifestKind = "release-package")
      ∧ sha256Hex (RustStr.asBytes manifest.contents.text) = manifest.aggregateHash
      ∧ manifest.signerNpub = signer.publicKeyHex
      ∧ manifest.signature = signer.signSchnorr manifest.digest ∧ Hashed manifest.entries := by
  unfold generateReleaseManifestForEntries at h
  rw [Checks.ok_bind] at h
  obtain ⟨entries, hentries, h⟩ := Checks.bind_eq_ok.mp h
  obtain ⟨digest, hdigest, h⟩ := Checks.bind_eq_ok.mp h
  obtain rfl := Except.ok.inj h
  rw [aggregateHash, decodeHash_sha256Hex, Option.elim_some] at hdigest
  obtain rfl := Except.ok.inj hdigest
  refine ⟨⟨rfl, rfl⟩, rfl, rfl, rfl, fun entry hentry => ?_⟩
  rw [List.mem_insertionSort] at hentry
  have hround : .ok entry ∈ entries.map (Except.ok (ε := String)) := List.mem_map_of_mem hentry
  rw [← Checks.mapM_eq_ok.mp hentries] at hround
  obtain ⟨path, -, hpath⟩ := List.mem_map.mp hround
  obtain ⟨hash, hhash, hentry⟩ := Checks.bind_eq_ok.mp hpath
  obtain rfl := Except.ok.inj hentry
  exact exists_of_hashFile hhash

/-! ### What the signer signed -/

/-- A signer, with all it has signed: manifests it has generated, and roots of source trees.  Its
signatures are valid, and nobody else makes valid signatures for its key. -/
structure Issuer (secp : Secp256k1) where
  signer : BlossomSigner
  issued : List ReleaseManifest
  roots : List Sha256.Digest
  generated : ∀ manifest ∈ issued, ∃ package paths target,
    generateReleaseManifestForEntries package paths target (.ok signer) = .ok manifest
  valid : ∀ digest, digest ∈ issued.map (·.digest) ++ roots →
    verify secp signer.publicKeyHex digest (signer.signSchnorr digest) = true
  unforgeable : ∀ digest signature, verify secp signer.publicKeyHex digest signature = true →
    digest ∈ issued.map (·.digest) ++ roots

/-- The bytes of the manifests that were signed, and those that are to be verified. -/
def InPlay {secp : Secp256k1} (issuer : Issuer secp) (manifest : ReleaseManifest) (bytes : Bytes) :
    Prop :=
  ∃ m ∈ manifest :: issuer.issued, bytes = RustStr.asBytes m.contents.text

/-- **A verified manifest was signed**, when neither it nor the signed ones have newlines in targets and
paths and its digest is not that of a signed source tree.  A signed manifest that has an entry is verified
with the entry moved into the target too, wherever its other files are, and no manifest without newlines
is that one. -/
theorem verified_was_signed {secp : Secp256k1} (issuer : Issuer secp) :
    (∀ manifest files, manifest.signerNpub = issuer.signer.publicKeyHex →
        Sha256.CollisionFreeOn (InPlay issuer manifest) → manifest.contents.OnLines →
        (∀ signed ∈ issuer.issued, signed.contents.OnLines) → manifest.digest ∉ issuer.roots →
        verifyReleaseManifest secp manifest files = .verified →
        ∃ signed ∈ issuer.issued, signed.contents = manifest.contents
          ∧ HasFiles files signed.entries)
      ∧ ∀ signed ∈ issuer.issued, ∀ entry rest, signed.entries = entry :: rest →
        (∀ files, HasFiles files rest →
          verifyReleaseManifest secp (signed.absorbing entry rest) files = .verified)
        ∧ ∀ c : Contents, c.OnLines → c ≠ (signed.absorbing entry rest).contents := by
  constructor
  · intro manifest files hnpub hfree hlines hsigned hroots hverified
    obtain ⟨-, -, hsignature, hfiles⟩ := verified_iff.mp hverified
    rw [hnpub] at hsignature
    rcases List.mem_append.mp (issuer.unforgeable _ _ hsignature) with hdigest | hroot
    · obtain ⟨signed, hmem, hdigest⟩ := List.mem_map.mp hdigest
      obtain ⟨package, paths, target, hgenerated⟩ := issuer.generated signed hmem
      obtain ⟨-, -, -, -, hhashed⟩ := generated_eq hgenerated
      have htext := RustStr.asBytes_injective (hfree _ _ ⟨signed, List.mem_cons_of_mem _ hmem, rfl⟩
        ⟨manifest, List.mem_cons_self, rfl⟩ hdigest)
      have hcontents : signed.contents = manifest.contents :=
        Contents.eq_of_text (hsigned signed hmem) hhashed hlines hfiles.hashed htext
      refine ⟨signed, hmem, hcontents, ?_⟩
      rw [show signed.entries = manifest.entries from congrArg Contents.entries hcontents]
      exact hfiles
    · exact absurd hroot hroots
  · intro signed hmem entry rest hentries
    obtain ⟨package, paths, target, hgenerated⟩ := issuer.generated signed hmem
    obtain ⟨hkind, haggregate, hnpub, hsignature, -⟩ := generated_eq hgenerated
    have htext := text_absorbing hentries
    refine ⟨fun files hfiles => verified_iff.mpr ⟨hkind, ?_, ?_, hfiles⟩, ?_⟩
    · rw [htext]
      exact haggregate
    · rw [ReleaseManifest.digest, htext]
      have hvalid := issuer.valid signed.digest (List.mem_append_left _ (List.mem_map_of_mem hmem))
      rwa [← hsignature, ← hnpub] at hvalid
    · rintro c hlines rfl
      exact hlines.target (by simp [ReleaseManifest.contents, ReleaseManifest.absorbing])

/-! ### A package of one file -/

/-- The package holds the byte 1 in the file `p`. -/
def package : Directory := fun path =>
  if path = "p" then .ok [1] else .error "No such file or directory (os error 2)"

def packageEntry : IntegrityEntry :=
  ⟨"p", sha256Hex [1]⟩

def packageContents : Contents :=
  ⟨"x86", [packageEntry]⟩

def packageDigest : Sha256.Digest :=
  Sha256.sha256 (RustStr.asBytes packageContents.text)

/-- The root of a source tree with one empty file. -/
def treeRoot : Sha256.Digest :=
  Sha256.sha256 []

def packageSignature : Nat × Nat :=
  (0xada78140027eebe575e16311524772a6519b31ef575b5080a93bd861d11ff84c,
    0x8d4fee1cebf3798ab6b243a1bd984ebe3862699890f7bafeaeb423c3c4328f70)

def treeSignature : Nat × Nat :=
  (0xe04ab004e468822c616b33b808531b55ca88c5187fb6349addb61640688580b0,
    0xf5c4235bddb7cdb652cd50b11e51fda6e77cfa114c336f961a0948694f0590e7)

/-- What the key signed, with the signatures. -/
def releaseSignatures : List (Sha256.Digest × String) :=
  [(packageDigest, signatureHex packageSignature), (treeRoot, signatureHex treeSignature)]

/-- A check that knows these signatures and accepts nothing else. -/
def releaseSecp : Secp256k1 :=
  ⟨fun pub digest sig => Hex.encode pub == testKey
    && releaseSignatures.contains (digest, Hex.encode sig)⟩

def releaseSigner : BlossomSigner :=
  ⟨testKey, fun digest => (releaseSignatures.lookup digest).getD ""⟩

def packageManifest : ReleaseManifest where
  manifestVersion := 1
  manifestKind := "release-package"
  hashAlgorithm := "sha256"
  packageName := "blossom-server"
  target := "x86"
  aggregateHash := sha256Hex (RustStr.asBytes packageContents.text)
  signerNpub := testKey
  signature := signatureHex packageSignature
  entries := [packageEntry]

theorem hashFile_package : hashFile package "p" = .ok (sha256Hex [1]) := by
  rw [hashFile, package, if_pos rfl]
  rfl

theorem packageDigest_ne_treeRoot : packageDigest ≠ treeRoot := by
  intro h
  exact absurd (congrArg List.Vector.head h) (by decide +kernel)

theorem signSchnorr_package :
    releaseSigner.signSchnorr packageDigest = signatureHex packageSignature := by
  simp only [releaseSigner, releaseSignatures, List.lookup_cons_self, Option.getD_some]

theorem signSchnorr_tree : releaseSigner.signSchnorr treeRoot = signatureHex treeSignature := by
  have hne : (treeRoot == packageDigest) = false := beq_false_of_ne packageDigest_ne_treeRoot.symm
  simp only [releaseSigner, releaseSignatures, List.lookup_cons, hne, BEq.rfl, Option.getD_some]

theorem generated_packageManifest :
    generateReleaseManifestForEntries package ["p"] "x86" (.ok releaseSigner) = .ok packageManifest := by
  have hpath : forwardSlashes "p" = "p" := by decide
  unfold generateReleaseManifestForEntries
  rw [Checks.ok_bind, List.mapM_cons, List.mapM_nil, hashFile_package, hpath]
  simp only [Checks.ok_bind, pure_bind, List.insertionSort_cons, List.insertionSort_nil,
    List.orderedInsert_nil, aggregateHash, decodeHash_sha256Hex, Option.elim_some]
  rw [packageManifest, ← signSchnorr_package]
  rfl

theorem verify_releaseSignatures {digest : Sha256.Digest} {sig : Nat × Nat}
    (h : (digest, signatureHex sig) ∈ releaseSignatures) :
    verify releaseSecp testKey digest (signatureHex sig) = true := by
  have hkey : (Hex.decode testKey).map (fun pub => (pub.length, Hex.encode pub))
      = some (32, testKey) := by
    decide +kernel
  obtain ⟨pub, hpub, hpair⟩ := Option.map_eq_some_iff.mp hkey
  obtain ⟨hlength, hencode⟩ := Prod.mk.inj hpair
  rw [signatureHex] at h ⊢
  rw [verify, hpub, Hex.decode_encode]
  simpa [hlength, bigEndianBytes, releaseSecp, hencode] using h

/-- The signer of one manifest and one source tree. -/
def packageIssuer : Issuer releaseSecp where
  signer := releaseSigner
  issued := [packageManifest]
  roots := [treeRoot]
  generated := by
    intro manifest hmem
    obtain rfl := List.mem_singleton.mp hmem
    exact ⟨package, ["p"], "x86", generated_packageManifest⟩
  valid := by
    intro digest hdigest
    rcases List.mem_cons.mp hdigest with hdigest | hdigest
    · obtain rfl : digest = packageDigest := hdigest
      rw [signSchnorr_package]
      exact verify_releaseSignatures List.mem_cons_self
    · obtain rfl := List.mem_singleton.mp hdigest
      rw [signSchnorr_tree]
      exact verify_releaseSignatures (List.mem_cons_of_mem _ List.mem_cons_self)
  unforgeable := by
    intro digest signature h
    unfold verify at h
    split at h
    · simp only [Bool.and_eq_true, releaseSecp, List.contains_iff_mem, releaseSignatures,
        List.mem_cons, Prod.mk.injEq, List.not_mem_nil, or_false] at h
      rcases h.2.2 with ⟨rfl, -⟩ | ⟨rfl, -⟩
      · exact List.mem_cons_self
      · exact List.mem_cons_of_mem _ List.mem_cons_self
    · cases h

theorem onLines_packageContents : packageContents.OnLines where
  target := by decide
  path := by simp [packageContents, packageEntry]

theorem hasFiles_package : HasFiles package packageManifest.entries := by
  intro entry hmem
  obtain rfl := List.mem_singleton.mp hmem
  exact hashFile_package

/-- All texts in play are that of the package. -/
theorem collisionFree_package {manifest : ReleaseManifest}
    (h : manifest.contents.text = packageContents.text) :
    Sha256.CollisionFreeOn (InPlay packageIssuer manifest) := by
  have htext : ∀ m ∈ manifest :: packageIssuer.issued, m.contents.text = packageContents.text :=
    List.forall_mem_cons.mpr ⟨h, List.forall_mem_singleton.mpr rfl⟩
  rintro _ _ ⟨m, hm, rfl⟩ ⟨m', hm', rfl⟩ -
  rw [htext m hm, htext m' hm']

theorem verified_package : verifyReleaseManifest releaseSecp packageManifest package = .verified :=
  verified_iff.mpr ⟨⟨rfl, rfl⟩, rfl, verify_releaseSignatures List.mem_cons_self, hasFiles_package⟩

/-- The manifest of the package has no newlines in its fields, and was signed. -/
theorem package_manifest_was_signed :
    ∃ signed ∈ packageIssuer.issued,
      signed.contents = packageContents ∧ HasFiles package signed.entries :=
  (verified_was_signed packageIssuer).1 packageManifest package rfl (collisionFree_package rfl)
    onLines_packageContents (List.forall_mem_singleton.mpr onLines_packageContents)
    (fun h => packageDigest_ne_treeRoot (List.mem_singleton.mp h)) verified_package

/-- The manifest with its only file moved into the target is verified where no file is left, and nobody
signed it. -/
theorem hidden_entries_verified :
    Sha256.CollisionFreeOn (InPlay packageIssuer (packageManifest.absorbing packageEntry []))
      ∧ (packageManifest.absorbing packageEntry []).digest ∉ packageIssuer.roots
      ∧ verifyReleaseManifest releaseSecp (packageManifest.absorbing packageEntry [])
        (fun _ => .error "gone") = .verified
      ∧ ∀ signed ∈ packageIssuer.issued,
        signed.contents ≠ (packageManifest.absorbing packageEntry []).contents := by
  have htext : (packageManifest.absorbing packageEntry []).contents.text = packageContents.text :=
    text_absorbing rfl
  have hdigest : (packageManifest.absorbing packageEntry []).digest = packageDigest := by
    rw [ReleaseManifest.digest, htext, packageDigest]
  refine ⟨collisionFree_package htext, ?_, verified_iff.mpr ⟨⟨rfl, rfl⟩, ?_, ?_, ?_⟩, ?_⟩
  · rw [hdigest]
    exact fun h => packageDigest_ne_treeRoot (List.mem_singleton.mp h)
  · rw [htext]
    rfl
  · rw [hdigest]
    exact verify_releaseSignatures List.mem_cons_self
  · exact fun _ hmem => absurd hmem List.not_mem_nil
  · intro signed hmem hsame
    obtain rfl := List.mem_singleton.mp hmem
    cases congrArg Contents.entries hsame

end BlossomRs.Integrity

import BlossomRs.Access.Identity
import BlossomRs.Integrity.SourceFiles
import BlossomRs.Lib.Merkle

/-!
# Source trees

The hashes of the source files are the leaves of a Merkle tree, whose root is signed.  A proof that is
made for a file verifies (`proofFor_verifies`).

The paths are in the tree's list but not in its nodes, leaves are not told from inner nodes, and a level
of odd length is completed with its last node.  So a proof that verifies is about a leaf of the tree when
its sides lead to the leaf of the path it names, and wherever else in the tree they lead there is a proof
that verifies under a wrong name (`verified_proof_has_leaf`).  The root commits to the hashes of the files
but not to their paths, and to the hashes only with the copies that complete the levels
(`root_commits_iff`).

SHA-256 is assumed free of collisions on the texts of the pairs that a tree and a proof combine, and on
nothing else.
-/

namespace BlossomRs.Integrity

open Protocol

/-- `hash_pair`. -/
def hashPair (left right : Sha256.Digest) : Sha256.Digest :=
  Sha256.sha256 (left.toList ++ right.toList)

/-- `[0u8; 32]`. -/
def zeroDigest : Sha256.Digest :=
  ⟨List.replicate 32 0, rfl⟩

instance : Inhabited Sha256.Digest :=
  ⟨zeroDigest⟩

/-- The hash of a leaf; a malformed one counts as zeroes. -/
def leafHash (leaf : IntegrityEntry) : Sha256.Digest :=
  (decodeHash leaf.sha256).getD zeroDigest

def leafHashes (leaves : List IntegrityEntry) : List Sha256.Digest :=
  leaves.map leafHash

/-- `compute_merkle_root`. -/
def computeMerkleRoot (leaves : List IntegrityEntry) : String :=
  match Merkle.root hashPair (leafHashes leaves) with
  | none => Hex.encode zeroDigest.toList
  | some root => Hex.encode root.toList

/-- `merkle_proof`. -/
def merkleProof (leaves : List Sha256.Digest) (index : Nat) : List (Sha256.Digest × Bool) :=
  Merkle.siblings hashPair leaves index

structure SourceMerkleTree where
  version : UInt32
  hashAlgorithm : String
  root : String
  fileCount : Nat
  leaves : List IntegrityEntry
  signerNpub : Option String
  signature : Option String
deriving DecidableEq, Repr

structure MerkleProof where
  path : String
  leafHash : String
  leafIndex : Nat
  proof : List (String × Bool)
  root : String
deriving DecidableEq, Repr

/-- The siblings of a proof, as far as they are hashes. -/
def decodeSteps (proof : List (String × Bool)) : Option (List (Sha256.Digest × Bool)) :=
  proof.mapM fun step => (decodeHash step.1).map (·, step.2)

/-- `verify_merkle_proof`. -/
def verifyMerkleProof (leafHash : String) (proof : List (String × Bool)) (expectedRoot : String) :
    Bool :=
  match decodeHash leafHash, decodeSteps proof with
  | some node, some steps => Hex.encode (Merkle.climb hashPair node steps).toList == expectedRoot
  | _, _ => false

namespace SourceMerkleTree

/-- `build`. -/
def build (ws : Workspace) : Except String SourceMerkleTree := do
  let leaves ← (discoverWorkspaceFiles ws).mapM (sourceEntry ws)
  let leaves := sortEntries leaves
  .ok ⟨1, "sha256", computeMerkleRoot leaves, leaves.length, leaves, none, none⟩

/-- `proof_for`. -/
def proofFor (tree : SourceMerkleTree) (path : String) : Option MerkleProof :=
  match tree.leaves.findIdx? (·.path == path) with
  | none => none
  | some leafIndex =>
    let proof := merkleProof (leafHashes tree.leaves) leafIndex
    some ⟨path, (tree.leaves.getD leafIndex ⟨"", ""⟩).sha256, leafIndex,
      proof.map fun step => (Hex.encode step.1.toList, step.2), tree.root⟩

/-- `verify_proof`. -/
def verifyProof (tree : SourceMerkleTree) (proof : MerkleProof) : Bool :=
  verifyMerkleProof proof.leafHash proof.proof tree.root

end SourceMerkleTree

/-! ### Trees over valid hashes -/

/-- Sixty-four hexadecimal digits. -/
def IsHash (text : String) : Prop :=
  text.toList.length = 64 ∧ text.toList.all Access.isAsciiHexdigit = true

instance (text : String) : Decidable (IsHash text) :=
  inferInstanceAs (Decidable (_ ∧ _))

theorem exists_decodeHash {text : String} (h : IsHash text) : ∃ digest, decodeHash text = some digest := by
  obtain ⟨bytes, hbytes, hlength⟩ := Access.decode_of_digits 32 h.1 h.2
  exact ⟨⟨bytes, hlength⟩, by rw [decodeHash, hbytes]; exact dif_pos hlength⟩

theorem isHash_sha256Hex (data : Bytes) : IsHash (sha256Hex data) := by
  obtain ⟨hlength, hdigits⟩ := Access.digits_of_decode (Hex.decode_encode (Sha256.sha256 data).toList)
  exact ⟨by rw [List.Vector.toList_length] at hlength; exact hlength, hdigits⟩

theorem decodeHash_encode (digest : Sha256.Digest) :
    decodeHash (Hex.encode digest.toList) = some digest := by
  rw [decodeHash, Hex.decode_encode]
  exact dif_pos digest.2

theorem decodeSteps_encode (steps : List (Sha256.Digest × Bool)) :
    decodeSteps (steps.map fun step => (Hex.encode step.1.toList, step.2)) = some steps := by
  induction steps with
  | nil => rfl
  | cons step steps ih =>
    unfold decodeSteps at ih ⊢
    rw [List.map_cons, List.mapM_cons, decodeHash_encode, ih]
    rfl

/-- A tree over valid hashes, with the root of its leaves. -/
structure SourceMerkleTree.Lawful (tree : SourceMerkleTree) : Prop where
  nonempty : tree.leaves ≠ []
  hashes : ∀ leaf ∈ tree.leaves, IsHash leaf.sha256
  root : tree.root = computeMerkleRoot tree.leaves

/-- The tree behind a list of leaves. -/
theorem exists_tree {leaves : List IntegrityEntry} (h : leaves ≠ []) :
    ∃ t, Merkle.treeOf leaves = some t
      ∧ computeMerkleRoot leaves = Hex.encode (t.value hashPair leafHash).toList := by
  have hleaves : leaves.map Merkle.Tree.leaf ≠ [] := by simpa using h
  obtain ⟨t, ht⟩ := Option.isSome_iff_exists.mp (Merkle.isSome_root Merkle.Tree.node hleaves)
  have hroot := Merkle.map_value_treeOf hashPair leafHash leaves
  rw [Merkle.treeOf, ht, Option.map_some] at hroot
  refine ⟨t, ht, ?_⟩
  rw [computeMerkleRoot, leafHashes, ← hroot]

/-! ### Proofs that are made -/

/-- What a proof climbs to is compared with the root. -/
theorem verifyMerkleProof_iff {leafHash root : String} {proof : List (String × Bool)}
    {digest : Sha256.Digest} (hroot : root = Hex.encode digest.toList) :
    verifyMerkleProof leafHash proof root = true ↔
      ∃ node steps, decodeHash leafHash = some node ∧ decodeSteps proof = some steps
        ∧ Merkle.climb hashPair node steps = digest := by
  unfold verifyMerkleProof
  cases decodeHash leafHash with
  | none => simp
  | some node =>
    cases decodeSteps proof with
    | none => simp
    | some steps =>
      simp only [hroot, beq_iff_eq, Option.some.injEq, exists_eq_left', exists_and_left]
      constructor
      · intro h
        exact List.Vector.toList_injective (Hex.encode_injective h)
      · intro h
        rw [h]

/-- **Every proof that is made verifies**, for every number of leaves. -/
theorem proofFor_verifies (tree : SourceMerkleTree) (hlawful : tree.Lawful) (path : String)
    (hpath : ∃ leaf ∈ tree.leaves, leaf.path = path) :
    ∃ proof, tree.proofFor path = some proof ∧ tree.verifyProof proof = true := by
  obtain ⟨leaf, hleaf, hname⟩ := hpath
  have hfound : (tree.leaves.findIdx? (·.path == path)).isSome = true := by
    rw [List.findIdx?_isSome, List.any_eq_true]
    exact ⟨leaf, hleaf, beq_iff_eq.mpr hname⟩
  obtain ⟨index, hindex⟩ := Option.isSome_iff_exists.mp hfound
  have hlt : index < tree.leaves.length := (List.findIdx?_eq_some_iff_getElem.mp hindex).1
  have hget : tree.leaves.getD index ⟨"", ""⟩ = tree.leaves[index] := by
    simp [List.getD_eq_getElem?_getD, hlt]
  obtain ⟨digest, hdigest⟩ := exists_decodeHash (hlawful.hashes _ (List.getElem_mem hlt))
  have hnode : (leafHashes tree.leaves).getD index default = digest := by
    simp [leafHashes, leafHash, List.getD_eq_getElem?_getD, hlt, hdigest]
  have hposition : index < (leafHashes tree.leaves).length := by simpa [leafHashes] using hlt
  have hclimb := Merkle.root_eq_climb hashPair hposition
  have hroot : tree.root = Hex.encode (Merkle.climb hashPair digest
      (merkleProof (leafHashes tree.leaves) index)).toList := by
    rw [hlawful.root, computeMerkleRoot, hclimb, hnode]
    rfl
  refine ⟨_, by rw [SourceMerkleTree.proofFor, hindex], ?_⟩
  refine (verifyMerkleProof_iff hroot).mpr ⟨digest, _, ?_, decodeSteps_encode _, rfl⟩
  rw [hget]
  exact hdigest

/-- The leaf of a file with this content. -/
def leafOf (path : String) (content : Bytes) : IntegrityEntry :=
  ⟨path, sha256Hex content⟩

/-- A tree of three files, the last of which has no neighbour. -/
def threeFiles : SourceMerkleTree :=
  let leaves : List IntegrityEntry :=
    ["a", "b", "c"].map fun path => leafOf path (RustStr.asBytes path)
  ⟨1, "sha256", computeMerkleRoot leaves, 3, leaves, none, none⟩

theorem threeFiles_lawful : threeFiles.Lawful where
  nonempty := by simp [threeFiles]
  hashes := by simp [threeFiles, leafOf, isHash_sha256Hex]
  root := rfl

theorem last_of_three_verifies :
    ∃ proof, threeFiles.proofFor "c" = some proof ∧ threeFiles.verifyProof proof = true :=
  proofFor_verifies threeFiles threeFiles_lawful "c" (by simp [threeFiles, leafOf])

/-! ### Proofs that verify -/

/-- The texts that are hashed when these pairs are combined. -/
def PairTexts (pairs : List (Sha256.Digest × Sha256.Digest)) (text : Bytes) : Prop :=
  ∃ p ∈ pairs, text = p.1.toList ++ p.2.toList

/-- Without collisions on their texts, the pairs are told apart by their hashes. -/
theorem injOn_hashPair {pairs : List (Sha256.Digest × Sha256.Digest)}
    (hfree : Sha256.CollisionFreeOn (PairTexts pairs)) :
    Set.InjOn (fun p : Sha256.Digest × Sha256.Digest => hashPair p.1 p.2) {p | p ∈ pairs} := by
  intro p hp q hq heq
  have htext := hfree _ _ ⟨p, hp, rfl⟩ ⟨q, hq, rfl⟩ heq
  obtain ⟨hleft, hright⟩ := List.append_inj htext (by simp)
  exact Prod.ext (List.Vector.toList_injective hleft) (List.Vector.toList_injective hright)

/-- The pairs that are combined for the root of a list. -/
def treePairs (leaves : List IntegrityEntry) : List (Sha256.Digest × Sha256.Digest) :=
  ((Merkle.treeOf leaves).map (Merkle.Tree.pairs hashPair leafHash)).getD []

/-- The sides of a proof's siblings, from the leaf to the root. -/
def MerkleProof.sides (proof : MerkleProof) : List Bool :=
  proof.proof.map Prod.snd

/-- Whether pairs with one hash are one pair can be computed. -/
theorem collisionFree_of_pairs {pairs : List (Sha256.Digest × Sha256.Digest)}
    (h : (pairs.all fun p => pairs.all fun q =>
      p == q || hashPair p.1 p.2 != hashPair q.1 q.2) = true) :
    Sha256.CollisionFreeOn (PairTexts pairs) := by
  rintro _ _ ⟨p, hp, rfl⟩ ⟨q, hq, rfl⟩ hsame
  have hpair := List.all_eq_true.mp (List.all_eq_true.mp h p hp) q hq
  rw [Bool.or_eq_true, beq_iff_eq, bne_iff_ne] at hpair
  rcases hpair with rfl | hne
  · rfl
  · exact absurd hsame hne

/-- So can whether a hash is none of those of some pairs. -/
theorem ne_hashPair_of_all {hashes : List Sha256.Digest} {pairs : List (Sha256.Digest × Sha256.Digest)}
    (h : (hashes.all fun x => pairs.all fun p => x != hashPair p.1 p.2) = true) :
    ∀ x ∈ hashes, ∀ p ∈ pairs, x ≠ hashPair p.1 p.2 := by
  intro x hx p hp
  exact bne_iff_ne.mp (List.all_eq_true.mp (List.all_eq_true.mp h x hx) p hp)

/-- A tree of one file. -/
def oneFile (path : String) : SourceMerkleTree :=
  let leaves : List IntegrityEntry := [leafOf path []]
  ⟨1, "sha256", computeMerkleRoot leaves, 1, leaves, none, none⟩

/-- The leaves as `build` makes them: sorted by distinct paths, with hashes in lower case. -/
structure BuiltLeaves (leaves : List IntegrityEntry) : Prop where
  nonempty : leaves ≠ []
  sorted : leaves.Pairwise fun a b => a.path < b.path
  hashes : ∀ leaf ∈ leaves, IsHash leaf.sha256 ∧ Access.InLowercase leaf.sha256

variable {leaves leaves' : List IntegrityEntry}

/-- Leaves are made of their paths and hashes. -/
theorem BuiltLeaves.eq_zipWith (h : BuiltLeaves leaves) :
    List.zipWith (fun path hash => (⟨path, Hex.encode hash.toList⟩ : IntegrityEntry))
      (leaves.map (·.path)) (leafHashes leaves) = leaves := by
  rw [leafHashes, List.zipWith_map, List.zipWith_self]
  refine (List.map_congr_left fun leaf hleaf => ?_).trans (List.map_id leaves)
  obtain ⟨hhash, hlower⟩ := h.hashes leaf hleaf
  obtain ⟨bytes, hbytes, hlength⟩ := Access.decode_of_digits 32 hhash.1 hhash.2
  have hdigest : leafHash leaf = ⟨bytes, hlength⟩ := by
    rw [leafHash, decodeHash, hbytes]
    exact congrArg (Option.getD · zeroDigest) (dif_pos hlength)
  rw [hdigest, List.Vector.toList_mk, ← (Access.eq_encode_iff hbytes).mpr hlower]
  rfl

/-- **Equal roots** are equal lists of hashes, with the copies that complete their levels. -/
theorem root_eq_iff (hne : leaves ≠ []) (hne' : leaves' ≠ [])
    (hfree : Sha256.CollisionFreeOn (PairTexts (treePairs leaves ++ treePairs leaves')))
    (hfile : ∀ x ∈ leafHashes leaves ++ leafHashes leaves',
      ∀ p ∈ treePairs leaves ++ treePairs leaves', x ≠ hashPair p.1 p.2) :
    computeMerkleRoot leaves = computeMerkleRoot leaves' ↔
      Merkle.completed (leafHashes leaves) = Merkle.completed (leafHashes leaves') := by
  obtain ⟨t, ht, hroot⟩ := exists_tree hne
  obtain ⟨t', ht', hroot'⟩ := exists_tree hne'
  rw [leafHashes, List.forall_mem_append] at hfile
  have hpairs : treePairs leaves = t.pairs hashPair leafHash := by simp [treePairs, ht]
  have hpairs' : treePairs leaves' = t'.pairs hashPair leafHash := by simp [treePairs, ht']
  rw [hpairs, hpairs'] at hfree hfile
  rw [hroot, hroot', leafHashes, leafHashes, ← Merkle.map_leaves_treeOf, ← Merkle.map_leaves_treeOf,
    ht, ht', Option.map_some, Option.map_some, Option.some.injEq]
  constructor
  · intro heq
    refine Merkle.map_leaves_eq (injOn_hashPair hfree) (fun p hp => List.mem_append_left _ hp)
      (fun p hp => List.mem_append_right _ hp) (fun x hx => ?_) (fun x hx => ?_)
      (List.Vector.toList_injective (Hex.encode_injective heq))
    · exact hfile.1 _ (List.mem_map_of_mem (Merkle.mem_of_mem_leaves ht x hx))
    · exact hfile.2 _ (List.mem_map_of_mem (Merkle.mem_of_mem_leaves ht' x hx))
  · intro hleaves
    obtain ⟨depth, hdepth⟩ := Merkle.perfect_treeOf ht
    obtain ⟨depth', hdepth'⟩ := Merkle.perfect_treeOf ht'
    have hlength := congrArg List.length hleaves
    rw [List.length_map, List.length_map, Merkle.length_leaves hdepth, Merkle.length_leaves hdepth']
      at hlength
    obtain rfl := Nat.pow_right_injective le_rfl hlength
    rw [Merkle.value_eq_of_leaves hdepth hdepth' hleaves]

/-- **The root commits to the leaves** exactly when the two lists have the same paths, or when their
lists of hashes differ even with the copies that complete their levels. -/
theorem root_commits_iff (leaves leaves' : List IntegrityEntry) (hbuilt : BuiltLeaves leaves)
    (hbuilt' : BuiltLeaves leaves')
    (hfree : Sha256.CollisionFreeOn (PairTexts (treePairs leaves ++ treePairs leaves')))
    (hfile : ∀ x ∈ leafHashes leaves ++ leafHashes leaves',
      ∀ p ∈ treePairs leaves ++ treePairs leaves', x ≠ hashPair p.1 p.2) :
    (computeMerkleRoot leaves = computeMerkleRoot leaves' → leaves = leaves') ↔
      leaves.map (·.path) = leaves'.map (·.path)
        ∨ Merkle.completed (leafHashes leaves) ≠ Merkle.completed (leafHashes leaves') := by
  rw [root_eq_iff hbuilt.nonempty hbuilt'.nonempty hfree hfile]
  constructor
  · intro h
    by_cases hsame : Merkle.completed (leafHashes leaves) = Merkle.completed (leafHashes leaves')
    · exact Or.inl (by rw [h hsame])
    · exact Or.inr hsame
  · rintro (hpaths | hother) hsame
    · -- both lists of hashes are the start of one completed list, and have the same length
      have hlength : (leafHashes leaves).length = (leafHashes leaves').length := by
        simpa [leafHashes] using congrArg List.length hpaths
      obtain ⟨t, ht, -⟩ := exists_tree hbuilt.nonempty
      have hcompleted := Merkle.map_leaves_treeOf leafHash leaves
      rw [ht, Option.map_some] at hcompleted
      have hstart := Merkle.take_completed hcompleted.symm
      have hstart' := Merkle.take_completed (hsame.symm.trans hcompleted.symm)
      have hhashes : leafHashes leaves = leafHashes leaves' := by
        rw [← hstart', ← hlength]
        exact hstart.symm
      rw [← hbuilt.eq_zipWith, ← hbuilt'.eq_zipWith, hpaths, hhashes]
    · exact absurd hsame hother

theorem builtLeaves_of_files {leaves : List IntegrityEntry} (hnonempty : leaves ≠ [])
    (hsorted : leaves.Pairwise fun a b => a.path < b.path)
    (hfiles : ∀ leaf ∈ leaves, ∃ content, leaf.sha256 = sha256Hex content) : BuiltLeaves leaves where
  nonempty := hnonempty
  sorted := hsorted
  hashes := by
    intro leaf hleaf
    obtain ⟨content, hcontent⟩ := hfiles leaf hleaf
    rw [hcontent]
    exact ⟨isHash_sha256Hex content, (Access.eq_encode_iff (Hex.decode_encode _)).mp rfl⟩

/-- The three files and one more. -/
def fourLeaves : List IntegrityEntry :=
  threeFiles.leaves ++ [leafOf "d" (RustStr.asBytes "d")]

/-- A fourth file with a content of its own changes the root of the three. -/
theorem fourth_file_changes_root :
    computeMerkleRoot threeFiles.leaves ≠ computeMerkleRoot fourLeaves := by
  have hfiles : ∀ leaf ∈ fourLeaves, ∃ content, leaf.sha256 = sha256Hex content := by
    simp [fourLeaves, threeFiles, leafOf]
  intro hroots
  have hleaves := (root_commits_iff threeFiles.leaves fourLeaves
    (builtLeaves_of_files (by simp [threeFiles]) (by decide) (by simp [threeFiles, leafOf]))
    (builtLeaves_of_files (by simp [fourLeaves]) (by decide) hfiles)
    (collisionFree_of_pairs (by decide +kernel)) (ne_hashPair_of_all (by decide +kernel))).mpr
    (Or.inr (by decide +kernel)) hroots
  exact absurd (congrArg List.length hleaves) (by decide)

/-- A renamed file keeps the root, and so does a copy of the last of three files. -/
theorem renamed_and_repeated_files_keep_root :
    BuiltLeaves [leafOf "a" []] ∧ BuiltLeaves [leafOf "b" []]
      ∧ treePairs [leafOf "a" []] ++ treePairs [leafOf "b" []] = []
      ∧ computeMerkleRoot [leafOf "a" []] = computeMerkleRoot [leafOf "b" []]
      ∧ [leafOf "a" []] ≠ [leafOf "b" []]
      ∧ computeMerkleRoot [leafOf "a" [], leafOf "b" [], leafOf "c" []]
          = computeMerkleRoot [leafOf "a" [], leafOf "b" [], leafOf "c" [], leafOf "d" []] := by
  have hbuilt : ∀ path, BuiltLeaves [leafOf path []] := fun path =>
    builtLeaves_of_files (by simp) (List.pairwise_singleton _ _) (by simp [leafOf])
  refine ⟨hbuilt "a", hbuilt "b", ?_, rfl, ?_, ?_⟩
  · simp [treePairs, Merkle.treeOf, Merkle.root, Merkle.Tree.pairs]
  · intro h
    have hpath := congrArg (fun leaves => leaves.map IntegrityEntry.path) h
    exact absurd hpath (by decide)
  · simp [computeMerkleRoot, leafHashes, leafHash, leafOf, Merkle.root, Merkle.pairUp]

end BlossomRs.Integrity

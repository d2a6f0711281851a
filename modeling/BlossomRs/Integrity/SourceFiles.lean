import BlossomRs.Integrity.Manifest
import BlossomRs.Lib.Utf8

/-!
# Source manifests

The files of a workspace and their hashes are put into a manifest twice: by the library, and by the
build script of the server, which has a copy of the code.  Both take the files that git tracks, or all
files below the directory where git gives no answer, leave some out, and hash one line for each.

The copies differ in two places.  The build script looks for ignored directories at the start of a path
only, and it leaves the files in the order of their paths, compared name by name, where the library sorts
their texts once more.  The hashes agree when no file has an ignored directory further down and no two
files are ordered differently in these two ways, and, unless a name has a newline, only then
(`aggregate_hashes_agree`).

A git call that fails for another reason than a missing git, and directories that cannot be listed, are
not in the model.
-/

namespace BlossomRs.Integrity

open Protocol

/-! ### Paths -/

/-- The names in a path.  Empty names and dots do not count. -/
def components (path : Bytes) : List Bytes :=
  (path.splitOn 47).filter fun name => name ≠ [] && name ≠ [46]

/-- `Path::join`, of a path below the workspace and a name. -/
def joinPath (here name : Bytes) : Bytes :=
  if here = [] then name else here ++ 47 :: name

theorem components_joinPath (here name : Bytes) :
    components (joinPath here name) = components here ++ components name := by
  unfold joinPath
  split
  · rename_i hempty
    subst hempty
    simp [components, List.splitOn]
  · unfold components List.splitOn
    rw [List.splitOnP_append_cons here name (by simp), List.filter_append]

/-- A directory with everything below it. -/
inductive Node where
  | file
  | dir (entries : List (Bytes × Node))

/-- A workspace: what `git ls-files -z` prints, if it succeeds, the directory, what reading a file
yields and `to_string_lossy`. -/
structure Workspace where
  tracked : Option Bytes
  entries : List (Bytes × Node)
  read : Bytes → Except String Bytes
  lossy : Bytes → String

/-! ### Files left out -/

/-- The directories that are no sources. -/
def isIgnoredName (lossy : Bytes → String) (name : Bytes) : Bool :=
  [".git", "target", ".idea", ".vscode", ".zed"].contains (lossy name)

/-- `is_ignored_component`, of the library. -/
def isIgnoredComponent (lossy : Bytes → String) (path : Bytes) : Bool :=
  (components path).any (isIgnoredName lossy)

/-- `should_skip`, of the build script. -/
def shouldSkip (lossy : Bytes → String) (path : Bytes) : Bool :=
  (components path).head?.any (isIgnoredName lossy)

/-- The name of a file is neither that of a database nor of a log. -/
def isSourceName (path : Bytes) : Bool :=
  match (components path).getLast?.bind RustStr.fromUtf8 with
  | some name => !RustStr.endsWith name ".db" && !RustStr.endsWith name ".log"
  | none => true

/-- `include_workspace_file`, of the library. -/
def includeWorkspaceFile (lossy : Bytes → String) (path : Bytes) : Bool :=
  !isIgnoredComponent lossy path && isSourceName path

/-- `include_source_file`, of the build script. -/
def includeSourceFile (lossy : Bytes → String) (path : Bytes) : Bool :=
  !shouldSkip lossy path && isSourceName path

/-! ### Finding files -/

section Walk

variable (skip keep : Bytes → Bool)

mutual

/-- `walk_files`, below a directory. -/
def walkFiles (here : Bytes) : List (Bytes × Node) → List Bytes
  | [] => []
  | (name, node) :: rest => walkNode (joinPath here name) node ++ walkFiles here rest

/-- One round of it. -/
def walkNode (relative : Bytes) : Node → List Bytes
  | .file => if skip relative then [] else if keep relative then [relative] else []
  | .dir entries => if skip relative then [] else walkFiles relative entries

end

end Walk

mutual

/-- All files below a directory. -/
def allFiles (here : Bytes) : List (Bytes × Node) → List Bytes
  | [] => []
  | (name, node) :: rest => allFilesOf (joinPath here name) node ++ allFiles here rest

def allFilesOf (relative : Bytes) : Node → List Bytes
  | .file => [relative]
  | .dir entries => allFiles relative entries

end

/-- `Vec::sort` of paths, which are compared name by name. -/
def sortPaths (paths : List Bytes) : List Bytes :=
  paths.insertionSort fun a b => components a ≤ components b

/-- The paths that git prints, without those that are not UTF-8. -/
def trackedPaths (stdout : Bytes) : List Bytes :=
  (stdout.splitOn 0).filter fun chunk => chunk ≠ [] && (RustStr.fromUtf8 chunk).isSome

/-- The shape of `discover_workspace_files` and `discover_source_files`. -/
def discoverFiles (skip keep : Bytes → Bool) (ws : Workspace) : List Bytes :=
  match ws.tracked with
  | some stdout => sortPaths ((trackedPaths stdout).filter keep)
  | none => sortPaths (walkFiles skip keep [] ws.entries)

/-- `discover_workspace_files`, of the library. -/
def discoverWorkspaceFiles (ws : Workspace) : List Bytes :=
  discoverFiles (isIgnoredComponent ws.lossy) (includeWorkspaceFile ws.lossy) ws

/-- `discover_source_files`, of the build script. -/
def discoverSourceFiles (ws : Workspace) : List Bytes :=
  discoverFiles (shouldSkip ws.lossy) (includeSourceFile ws.lossy) ws

/-! ### Manifests of a workspace -/

/-- The text of a path in an entry. -/
def Workspace.name (ws : Workspace) (path : Bytes) : String :=
  forwardSlashes (ws.lossy path)

/-- The entry of a file. -/
def sourceEntry (ws : Workspace) (path : Bytes) : Except String IntegrityEntry := do
  let bytes ← ws.read path
  .ok ⟨ws.name path, sha256Hex bytes⟩

/-- `entries.sort_by(|a, b| a.path.cmp(&b.path))`. -/
def sortEntries (entries : List IntegrityEntry) : List IntegrityEntry :=
  entries.insertionSort fun a b => a.path ≤ b.path

structure SourceBuildManifest where
  manifestVersion : UInt32
  manifestKind : String
  hashAlgorithm : String
  target : String
  aggregateHash : String
  entries : List IntegrityEntry
deriving DecidableEq, Repr

/-- `generate_source_build_manifest`. -/
def generateSourceBuildManifest (ws : Workspace) (target : String) :
    Except String SourceBuildManifest := do
  let entries ← (discoverWorkspaceFiles ws).mapM (sourceEntry ws)
  let entries := sortEntries entries
  .ok ⟨1, "source-build", "sha256", target, aggregateHash "source-build" target entries, entries⟩

/-- The manifest that the build script writes; where it panics there is none. -/
def buildScriptManifest (ws : Workspace) (target : String) : Except String SourceBuildManifest := do
  let entries ← (discoverSourceFiles ws).mapM (sourceEntry ws)
  .ok ⟨1, "source-build", "sha256", target, aggregateHash "source-build" target entries, entries⟩

/-! ### Both manifests from one list of files -/

/-- The files that both look at. -/
def candidates (ws : Workspace) : List Bytes :=
  match ws.tracked with
  | some stdout => trackedPaths stdout
  | none => allFiles [] ws.entries

/-- A walk may leave out skipped directories: all below them is skipped, and nothing skipped is kept. -/
structure Prunes (skip keep : Bytes → Bool) : Prop where
  below : ∀ here name, skip here = true → skip (joinPath here name) = true
  kept : ∀ path, keep path = true → skip path = false

mutual

variable {skip keep : Bytes → Bool} {path : Bytes} {ws : Workspace}

/-- Everything below a skipped directory is skipped. -/
theorem skip_of_mem_allFiles (h : Prunes skip keep) {here : Bytes} (hskip : skip here = true) :
    ∀ (entries : List (Bytes × Node)), ∀ path ∈ allFiles here entries, skip path = true
  | [], path, hpath => by simp [allFiles] at hpath
  | (name, node) :: rest, path, hpath => by
      rw [allFiles, List.mem_append] at hpath
      rcases hpath with hpath | hpath
      · exact skip_of_mem_allFilesOf h (h.below here name hskip) node path hpath
      · exact skip_of_mem_allFiles h hskip rest path hpath

theorem skip_of_mem_allFilesOf (h : Prunes skip keep) {relative : Bytes}
    (hskip : skip relative = true) :
    ∀ (node : Node), ∀ path ∈ allFilesOf relative node, skip path = true
  | .file, path, hpath => by
      obtain rfl : path = relative := by simpa [allFilesOf] using hpath
      exact hskip
  | .dir entries, path, hpath => by
      rw [allFilesOf] at hpath
      exact skip_of_mem_allFiles h hskip entries path hpath

end

theorem filter_eq_nil_of_skip (h : Prunes skip keep) {relative : Bytes}
    (hskip : skip relative = true) (node : Node) :
    (allFilesOf relative node).filter keep = [] := by
  rw [List.filter_eq_nil_iff]
  intro path hpath hkept
  have hskipped := skip_of_mem_allFilesOf h hskip node path hpath
  rw [h.kept path hkept] at hskipped
  cases hskipped

mutual

/-- A walk finds the files to keep, although it does not enter skipped directories. -/
theorem walkFiles_eq_filter (h : Prunes skip keep) (here : Bytes) :
    ∀ entries : List (Bytes × Node),
      walkFiles skip keep here entries = (allFiles here entries).filter keep
  | [] => by simp [walkFiles, allFiles]
  | (name, node) :: rest => by
      rw [walkFiles, allFiles, List.filter_append, walkNode_eq_filter h (joinPath here name) node,
        walkFiles_eq_filter h here rest]

theorem walkNode_eq_filter (h : Prunes skip keep) (relative : Bytes) :
    ∀ node : Node, walkNode skip keep relative node = (allFilesOf relative node).filter keep
  | .file => by
      rw [walkNode]
      split
      · rename_i hskip
        rw [filter_eq_nil_of_skip h hskip]
      · simp [allFilesOf, List.filter_cons]
  | .dir entries => by
      rw [walkNode]
      split
      · rename_i hskip
        rw [filter_eq_nil_of_skip h hskip]
      · rw [allFilesOf, walkFiles_eq_filter h relative entries]

end

theorem discoverFiles_eq (h : Prunes skip keep) (ws : Workspace) :
    discoverFiles skip keep ws = sortPaths ((candidates ws).filter keep) := by
  unfold discoverFiles candidates
  cases ws.tracked with
  | some stdout => rfl
  | none => exact congrArg sortPaths (walkFiles_eq_filter h [] ws.entries)

theorem discoverWorkspaceFiles_eq (ws : Workspace) : discoverWorkspaceFiles ws
    = sortPaths ((candidates ws).filter (includeWorkspaceFile ws.lossy)) := by
  refine discoverFiles_eq ⟨?_, ?_⟩ ws
  · intro here name h
    rw [isIgnoredComponent, components_joinPath, List.any_append, Bool.or_eq_true]
    exact Or.inl h
  · intro path h
    simp only [includeWorkspaceFile, Bool.and_eq_true, Bool.not_eq_true'] at h
    exact h.1

theorem discoverSourceFiles_eq (ws : Workspace) : discoverSourceFiles ws
    = sortPaths ((candidates ws).filter (includeSourceFile ws.lossy)) := by
  refine discoverFiles_eq ⟨?_, ?_⟩ ws
  · intro here name h
    unfold shouldSkip at h ⊢
    rw [components_joinPath]
    cases hhere : components here with
    | nil => simp [hhere] at h
    | cons first rest => simpa [hhere] using h
  · intro path h
    simp only [includeSourceFile, Bool.and_eq_true, Bool.not_eq_true'] at h
    exact h.1

/-- The library leaves out whatever the build script leaves out. -/
theorem includeSourceFile_of_includeWorkspaceFile {lossy : Bytes → String}
    (h : includeWorkspaceFile lossy path = true) : includeSourceFile lossy path = true := by
  simp only [includeWorkspaceFile, includeSourceFile, Bool.and_eq_true, Bool.not_eq_true'] at h ⊢
  refine ⟨?_, h.2⟩
  have hnone := h.1
  unfold isIgnoredComponent at hnone
  unfold shouldSkip
  cases hpath : components path with
  | nil => rfl
  | cons first rest =>
    rw [hpath, List.any_cons, Bool.or_eq_false_iff] at hnone
    exact hnone.1

/-! ### When the hashes agree -/

/-- The entry of a file that can be read. -/
def entryOf (ws : Workspace) (path : Bytes) : IntegrityEntry :=
  ⟨ws.name path, sha256Hex ((ws.read path).toOption.getD [])⟩

/-- The file can be read. -/
def Workspace.Readable (ws : Workspace) (path : Bytes) : Prop :=
  ∃ bytes, ws.read path = .ok bytes

theorem mapM_sourceEntry {paths : List Bytes} (h : ∀ path ∈ paths, ws.Readable path) :
    paths.mapM (sourceEntry ws) = .ok (paths.map (entryOf ws)) := by
  rw [Checks.mapM_eq_ok, List.map_map]
  refine List.map_congr_left fun path hpath => ?_
  obtain ⟨bytes, hbytes⟩ := h path hpath
  simp [sourceEntry, entryOf, hbytes, Except.toOption]

theorem mapM_sourceEntry_fails {paths : List Bytes} (hpath : path ∈ paths) (h : ¬ ws.Readable path) :
    (paths.mapM (sourceEntry ws)).toOption = none := by
  cases hentries : paths.mapM (sourceEntry ws) with
  | error e => rfl
  | ok entries =>
    have hround : sourceEntry ws path ∈ paths.map (sourceEntry ws) := List.mem_map_of_mem hpath
    rw [Checks.mapM_eq_ok.mp hentries] at hround
    obtain ⟨entry, -, hentry⟩ := List.mem_map.mp hround
    obtain ⟨bytes, hbytes, -⟩ := Checks.bind_eq_ok.mp hentry.symm
    exact absurd ⟨bytes, hbytes⟩ h

/-- The build script and the library come to one aggregate hash, or both to none. -/
def AggregateHashesAgree (ws : Workspace) (target : String) : Prop :=
  (buildScriptManifest ws target).toOption.map (·.aggregateHash)
    = (generateSourceBuildManifest ws target).toOption.map (·.aggregateHash)

/-- The text that the build script hashes, and the one that the library hashes. -/
def SourceText (ws : Workspace) (target : String) (bytes : Bytes) : Prop :=
  bytes = RustStr.asBytes (aggregateText "source-build" target
      ((discoverSourceFiles ws).map (entryOf ws)))
    ∨ bytes = RustStr.asBytes (aggregateText "source-build" target
      (sortEntries ((discoverWorkspaceFiles ws).map (entryOf ws))))

/-- No file to hash has an ignored directory below its first name, and files in the order of their paths,
compared name by name, are in the order of their texts. -/
structure SameSources (ws : Workspace) : Prop where
  files : ∀ path ∈ candidates ws, includeSourceFile ws.lossy path = true →
    includeWorkspaceFile ws.lossy path = true
  order : (sortPaths ((candidates ws).filter (includeWorkspaceFile ws.lossy))).Pairwise
    fun a b => ws.name a ≤ ws.name b

theorem mem_discoverWorkspaceFiles :
    path ∈ discoverWorkspaceFiles ws
      ↔ path ∈ candidates ws ∧ includeWorkspaceFile ws.lossy path = true := by
  rw [discoverWorkspaceFiles_eq, sortPaths, List.mem_insertionSort, List.mem_filter]

theorem mem_discoverSourceFiles :
    path ∈ discoverSourceFiles ws
      ↔ path ∈ candidates ws ∧ includeSourceFile ws.lossy path = true := by
  rw [discoverSourceFiles_eq, sortPaths, List.mem_insertionSort, List.mem_filter]

theorem discoverSourceFiles_of_files
    (h : ∀ path ∈ candidates ws, includeSourceFile ws.lossy path = true →
      includeWorkspaceFile ws.lossy path = true) :
    discoverSourceFiles ws = discoverWorkspaceFiles ws := by
  rw [discoverSourceFiles_eq, discoverWorkspaceFiles_eq]
  refine congrArg sortPaths (List.filter_congr fun path hpath => ?_)
  exact Bool.eq_iff_iff.mpr ⟨h path hpath, includeSourceFile_of_includeWorkspaceFile⟩

/-- As many files are only hashed when no file is left out by one of the two. -/
theorem files_of_length_eq (h : (discoverSourceFiles ws).length = (discoverWorkspaceFiles ws).length) :
    ∀ path ∈ candidates ws, includeSourceFile ws.lossy path = true →
      includeWorkspaceFile ws.lossy path = true := by
  rw [discoverSourceFiles_eq, discoverWorkspaceFiles_eq, sortPaths, sortPaths,
    List.length_insertionSort, List.length_insertionSort] at h
  have hfilter : (candidates ws).filter (includeWorkspaceFile ws.lossy)
      = ((candidates ws).filter (includeSourceFile ws.lossy)).filter
        (includeWorkspaceFile ws.lossy) := by
    rw [List.filter_filter]
    refine List.filter_congr fun path _ => ?_
    cases hkeep : includeWorkspaceFile ws.lossy path with
    | false => rfl
    | true => rw [includeSourceFile_of_includeWorkspaceFile hkeep, Bool.and_self]
  rw [hfilter] at h
  intro path hpath hsource
  exact List.length_filter_eq_length_iff.mp h.symm path (List.mem_filter.mpr ⟨hpath, hsource⟩)

/-- Files in both orders are hashed in the same order. -/
theorem entries_of_sameSources (h : SameSources ws) :
    (discoverSourceFiles ws).map (entryOf ws)
      = sortEntries ((discoverWorkspaceFiles ws).map (entryOf ws)) := by
  have hsorted : ((discoverWorkspaceFiles ws).map (entryOf ws)).Pairwise
      fun a b => a.path ≤ b.path := by
    rw [discoverWorkspaceFiles_eq, List.pairwise_map]
    exact h.order
  rw [discoverSourceFiles_of_files h.files, sortEntries, hsorted.insertionSort_eq]

theorem sameSources_of_entryLines
    (hnames : ∀ path ∈ candidates ws, '\n' ∉ (ws.name path).toList)
    (h : entryLines ((discoverSourceFiles ws).map (entryOf ws))
      = entryLines (sortEntries ((discoverWorkspaceFiles ws).map (entryOf ws)))) : SameSources ws := by
  have hscript : ∀ entry ∈ (discoverSourceFiles ws).map (entryOf ws),
      ∃ path ∈ candidates ws, entry = entryOf ws path := by
    rintro entry hentry
    obtain ⟨path, hpath, rfl⟩ := List.mem_map.mp hentry
    exact ⟨path, (mem_discoverSourceFiles.mp hpath).1, rfl⟩
  have hlibrary : ∀ entry ∈ sortEntries ((discoverWorkspaceFiles ws).map (entryOf ws)),
      ∃ path ∈ candidates ws, entry = entryOf ws path := by
    rintro entry hentry
    rw [sortEntries, List.mem_insertionSort] at hentry
    obtain ⟨path, hpath, rfl⟩ := List.mem_map.mp hentry
    exact ⟨path, (mem_discoverWorkspaceFiles.mp hpath).1, rfl⟩
  have hpath : ∀ entry, (∃ path ∈ candidates ws, entry = entryOf ws path) →
      '\n' ∉ entry.path.toList := by
    rintro _ ⟨path, hpath, rfl⟩
    exact hnames path hpath
  have hhash : ∀ entry, (∃ path ∈ candidates ws, entry = entryOf ws path) →
      ∃ data, entry.sha256 = sha256Hex data := by
    rintro _ ⟨path, -, rfl⟩
    exact ⟨_, rfl⟩
  have hentries : (discoverSourceFiles ws).map (entryOf ws)
      = sortEntries ((discoverWorkspaceFiles ws).map (entryOf ws)) :=
    eq_of_entryLines (fun entry h => hpath entry (hscript entry h))
      (fun entry h => hhash entry (hscript entry h)) (fun entry h => hpath entry (hlibrary entry h))
      (fun entry h => hhash entry (hlibrary entry h)) h
  have hfiles : ∀ path ∈ candidates ws, includeSourceFile ws.lossy path = true →
      includeWorkspaceFile ws.lossy path = true := by
    refine files_of_length_eq ?_
    simpa [sortEntries] using congrArg List.length hentries
  refine ⟨hfiles, ?_⟩
  rw [← discoverWorkspaceFiles_eq]
  rw [discoverSourceFiles_of_files hfiles] at hentries
  have hsorted := List.pairwise_insertionSort (fun a b : IntegrityEntry => a.path ≤ b.path)
    ((discoverWorkspaceFiles ws).map (entryOf ws))
  rw [← sortEntries, ← hentries, List.pairwise_map] at hsorted
  exact hsorted

/-- **The two aggregate hashes agree** when a file that both hash cannot be read, or when neither the
ignored directories nor the order of the files makes a difference.  They agree only then, if no name has
a newline. -/
theorem aggregate_hashes_agree (ws : Workspace) (target : String) :
    ((∃ path ∈ candidates ws, includeWorkspaceFile ws.lossy path = true ∧ ¬ ws.Readable path)
        ∨ SameSources ws → AggregateHashesAgree ws target)
      ∧ (Sha256.CollisionFreeOn (SourceText ws target) →
        (∀ path ∈ candidates ws, '\n' ∉ (ws.name path).toList) → AggregateHashesAgree ws target →
        (∃ path ∈ candidates ws, includeWorkspaceFile ws.lossy path = true ∧ ¬ ws.Readable path)
          ∨ SameSources ws) := by
  have hscript : (buildScriptManifest ws target).toOption.map (·.aggregateHash)
      = ((discoverSourceFiles ws).mapM (sourceEntry ws)).toOption.map
        (aggregateHash "source-build" target) := by
    unfold buildScriptManifest
    cases (discoverSourceFiles ws).mapM (sourceEntry ws) with
    | error e => rfl
    | ok entries => rfl
  have hlibrary : (generateSourceBuildManifest ws target).toOption.map (·.aggregateHash)
      = ((discoverWorkspaceFiles ws).mapM (sourceEntry ws)).toOption.map
        fun entries => aggregateHash "source-build" target (sortEntries entries) := by
    unfold generateSourceBuildManifest
    cases (discoverWorkspaceFiles ws).mapM (sourceEntry ws) with
    | error e => rfl
    | ok entries => rfl
  rw [AggregateHashesAgree, hscript, hlibrary]
  by_cases hfails : ∃ path ∈ candidates ws, includeWorkspaceFile ws.lossy path = true
      ∧ ¬ ws.Readable path
  · refine ⟨fun _ => ?_, fun _ _ _ => Or.inl hfails⟩
    obtain ⟨path, hpath, hkeep, hread⟩ := hfails
    rw [mapM_sourceEntry_fails (mem_discoverWorkspaceFiles.mpr ⟨hpath, hkeep⟩) hread,
      mapM_sourceEntry_fails (mem_discoverSourceFiles.mpr
        ⟨hpath, includeSourceFile_of_includeWorkspaceFile hkeep⟩) hread, Option.map_none,
      Option.map_none]
  have hreads : ∀ path ∈ discoverWorkspaceFiles ws, ws.Readable path := by
    intro path hpath
    obtain ⟨hpath, hkeep⟩ := mem_discoverWorkspaceFiles.mp hpath
    by_contra hread
    exact hfails ⟨path, hpath, hkeep, hread⟩
  rw [mapM_sourceEntry hreads]
  constructor
  · rintro (h | hsame)
    · exact absurd h hfails
    · rw [← discoverSourceFiles_of_files hsame.files] at hreads
      rw [mapM_sourceEntry hreads]
      exact congrArg (fun entries => some (aggregateHash "source-build" target entries))
        (entries_of_sameSources hsame)
  · intro hfree hnames hagree
    -- the build script reads all its files too, for it comes to a hash
    have hall : ∀ path ∈ discoverSourceFiles ws, ws.Readable path := by
      intro path hpath
      by_contra hread
      rw [mapM_sourceEntry_fails hpath hread] at hagree
      cases hagree
    rw [mapM_sourceEntry hall] at hagree
    have hbytes := hfree _ _ (Or.inl rfl) (Or.inr rfl)
      (sha256_eq_of_sha256Hex_eq (Option.some.inj hagree))
    have htext := RustStr.asBytes_injective hbytes
    simp only [aggregateText, String.append_right_inj] at htext
    exact Or.inr (sameSources_of_entryLines hnames htext)

/-- A workspace of empty files, as git lists them. -/
def trackedWorkspace (paths : List String) : Workspace where
  tracked := some (paths.flatMap fun path => RustStr.asBytes path ++ [0])
  entries := []
  read _ := .ok []
  lossy path := (RustStr.fromUtf8 path).getD ""

/-- Files in several directories, one inside another, give one hash. -/
theorem nested_files_agree :
    AggregateHashesAgree (trackedWorkspace ["src/main.rs", "src/db/mod.rs", "docs/a", "README"]) "t" :=
  (aggregate_hashes_agree _ "t").1 (Or.inr ⟨by decide +kernel, by decide +kernel⟩)

/-- A directory that is ignored below the top, as in `a/target/b`, is in one of the hashes only, and
names may be sorted apart from their paths, as `a/b` and `a-b` are. -/
theorem nested_and_reordered_files_differ :
    ¬ AggregateHashesAgree (trackedWorkspace ["a/target/b"]) "t"
    ∧ ¬ AggregateHashesAgree (trackedWorkspace ["a/b", "a-b"]) "t" := by
  unfold AggregateHashesAgree
  constructor <;> decide +kernel

end BlossomRs.Integrity

import BlossomRs.GitServer.PktLine
import BlossomRs.Lib.LastWrite
import BlossomRs.Lib.Assoc

/-!
# Refs on disk

Git keeps a ref in a file of its own under `refs/`, or in the file of the packed refs; the former
counts when there are both.  A push writes files, packing moves them into the packed file.  Directories
that become empty are removed, so `refs/heads` has an entry exactly when a branch has a file.

What a ref is after a run of commands, and whether it has a file, is decided by the last command or
packing that touched it.
-/

namespace BlossomRs.GitServer

open Protocol LastWrite

/-- The refs of a bare repository, by name. -/
structure Repository where
  loose : AList fun _ : Bytes => Bytes
  packed : AList fun _ : Bytes => Bytes

namespace Repository

/-- What `git init --bare` makes. -/
def bare : Repository :=
  ⟨∅, ∅⟩

/-- The object id of a ref. -/
def ref (repo : Repository) (name : Bytes) : Option Bytes :=
  (repo.loose.lookup name).or (repo.packed.lookup name)

/-- The directory of the branches. -/
def headsBytes : Bytes :=
  RustStr.asBytes "refs/heads/"

/-- Whether `refs/heads` has an entry. -/
def headsListed (repo : Repository) : Bool :=
  repo.loose.keys.any (headsBytes.isPrefixOf ·)

theorem headsListed_iff {repo : Repository} :
    repo.headsListed = true ↔ ∃ name, headsBytes <+: name ∧ (repo.loose.lookup name).isSome = true := by
  simp only [headsListed, List.any_eq_true, List.isPrefixOf_iff_prefix, AList.lookup_isSome,
    AList.mem_keys]
  exact exists_congr fun name => and_comm

end Repository

/-! ### Commands -/

/-- Git writes object ids in lowercase. -/
def lowercase (bytes : Bytes) : Bytes :=
  bytes.map fun b => if 65 ≤ b ∧ b ≤ 70 then b + 32 else b

/-- The object id in a text. -/
def objectId (text : String) : Bytes :=
  lowercase (RustStr.asBytes text)

/-- What a command makes of its ref: the null id deletes it. -/
def Command.result (command : Command) : Option Bytes :=
  if command.newOid = RustStr.asBytes nullOid then none else some (lowercase command.newOid)

/-- Git executes a command. -/
def Repository.execute (repo : Repository) (command : Command) : Repository :=
  match command.result with
  | some oid => ⟨repo.loose.insert command.name oid, repo.packed⟩
  | none => ⟨repo.loose.erase command.name, repo.packed.erase command.name⟩

theorem Repository.loose_execute (repo : Repository) (command : Command) (name : Bytes) :
    (repo.execute command).loose.lookup name
      = if command.name = name then command.result else repo.loose.lookup name := by
  unfold Repository.execute
  cases command.result with
  | some oid => simp only [Assoc.lookup_insert_eq, eq_comm]
  | none => simp only [Assoc.lookup_erase_eq, eq_comm]

theorem Repository.ref_execute (repo : Repository) (command : Command) (name : Bytes) :
    (repo.execute command).ref name
      = if command.name = name then command.result else repo.ref name := by
  rw [Repository.ref, Repository.loose_execute]
  unfold Repository.execute
  by_cases hname : command.name = name
  · rw [if_pos hname, if_pos hname]
    cases command.result with
    | some oid => rfl
    | none => simp [hname]
  · rw [if_neg hname, if_neg hname, Repository.ref]
    cases command.result with
    | some oid => rfl
    | none => simp only [Assoc.lookup_erase_eq, if_neg (Ne.symm hname)]

/-! ### Bodies -/

/-- The command in a packet. -/
def Packet.command? : Packet → Option Command
  | .line payload => gitCommand? payload
  | .special => none

/-- Git executes the command of a packet, if there is one. -/
def Repository.executePacket (repo : Repository) (packet : Packet) : Repository :=
  match packet.command? with
  | some command => repo.execute command
  | none => repo

/-- Git executes a body. -/
def Repository.receive (repo : Repository) (body : Bytes) : Repository :=
  Runs.run Repository.executePacket repo (gitPackets body)

/-- The packet has a command for the ref. -/
def Packet.Names (name : Bytes) (packet : Packet) : Prop :=
  ∃ command, packet.command? = some command ∧ command.name = name

/-- What the command of a packet makes of its ref. -/
def Packet.result (packet : Packet) : Option Bytes :=
  packet.command?.bind Command.result

theorem overwrites_executePacket (name : Bytes) :
    Overwrites Repository.executePacket (·.ref name) (Packet.Names name) Packet.result where
  written repo packet := by
    rintro ⟨command, hcommand, hname⟩
    simp only [Repository.executePacket, Packet.result, hcommand]
    rw [Repository.ref_execute, if_pos hname]
    rfl
  kept repo packet hnames := by
    unfold Repository.executePacket
    cases hcommand : packet.command? with
    | none => rfl
    | some command =>
      dsimp only
      rw [Repository.ref_execute, if_neg fun hname => hnames ⟨command, hcommand, hname⟩]

/-! ### Pushes and packing -/

/-- A ref with a file is moved to the packed refs. -/
def Repository.packRef (repo : Repository) (name : Bytes) : Repository :=
  match repo.loose.lookup name with
  | some oid => ⟨repo.loose.erase name, repo.packed.insert name oid⟩
  | none => repo

theorem Repository.packRef_loose (repo : Repository) (packed name : Bytes) :
    (repo.packRef packed).loose.lookup name
      = if packed = name then none else repo.loose.lookup name := by
  unfold Repository.packRef
  cases hloose : repo.loose.lookup packed with
  | none =>
    by_cases hname : packed = name
    · rw [if_pos hname, ← hname]
      exact hloose
    · rw [if_neg hname]
  | some oid => simp only [Assoc.lookup_erase_eq, eq_comm]

/-- Packing changes no ref. -/
theorem Repository.packRef_ref (repo : Repository) (packed name : Bytes) :
    (repo.packRef packed).ref name = repo.ref name := by
  rw [Repository.ref, Repository.packRef_loose, Repository.ref]
  unfold Repository.packRef
  by_cases hname : packed = name
  · subst hname
    rw [if_pos rfl]
    cases repo.loose.lookup packed with
    | none => rfl
    | some oid => simp
  · rw [if_neg hname]
    cases repo.loose.lookup packed with
    | none => rfl
    | some oid => simp only [Assoc.lookup_insert_eq, if_neg (Ne.symm hname)]

/-- What happens to the refs of a repository. -/
inductive RefStep where
  | push (command : Command)
  | pack (names : List Bytes)

def Repository.step (repo : Repository) : RefStep → Repository
  | .push command => repo.execute command
  | .pack names => names.foldl Repository.packRef repo

/-- The step is a push to the ref. -/
def RefStep.Pushes (name : Bytes) : RefStep → Prop
  | .push command => command.name = name
  | .pack _ => False

/-- The step writes or removes the file of the ref. -/
def RefStep.Moves (name : Bytes) : RefStep → Prop
  | .push command => command.name = name
  | .pack names => name ∈ names

/-- What the step leaves in the file of a ref it touches. -/
def RefStep.result : RefStep → Option Bytes
  | .push command => command.result
  | .pack _ => none

theorem Repository.loose_pack (repo : Repository) (names : List Bytes) (name : Bytes) :
    (repo.step (.pack names)).loose.lookup name
      = if name ∈ names then none else repo.loose.lookup name := by
  change (names.foldl Repository.packRef repo).loose.lookup name = _
  induction names generalizing repo with
  | nil => simp
  | cons packed names ih =>
    rw [List.foldl_cons, ih, Repository.packRef_loose]
    by_cases hmem : name ∈ names
    · rw [if_pos hmem, if_pos (by simp [hmem])]
    · rw [if_neg hmem]
      exact if_congr (by simp [hmem, eq_comm]) rfl rfl

theorem Repository.ref_pack (repo : Repository) (names : List Bytes) (name : Bytes) :
    (repo.step (.pack names)).ref name = repo.ref name := by
  change (names.foldl Repository.packRef repo).ref name = _
  induction names generalizing repo with
  | nil => rfl
  | cons packed names ih => rw [List.foldl_cons, ih, Repository.packRef_ref]

theorem overwrites_ref (name : Bytes) :
    Overwrites Repository.step (·.ref name) (RefStep.Pushes name) RefStep.result where
  written repo step h := by
    cases step with
    | push command => exact (repo.ref_execute command name).trans (if_pos h)
    | pack names => exact absurd h id
  kept repo step h := by
    cases step with
    | push command => exact (repo.ref_execute command name).trans (if_neg h)
    | pack names => exact repo.ref_pack names name

theorem overwrites_loose (name : Bytes) :
    Overwrites Repository.step (·.loose.lookup name) (RefStep.Moves name) RefStep.result where
  written repo step h := by
    cases step with
    | push command => exact (repo.loose_execute command name).trans (if_pos h)
    | pack names => exact (repo.loose_pack names name).trans (if_pos h)
  kept repo step h := by
    cases step with
    | push command => exact (repo.loose_execute command name).trans (if_neg h)
    | pack names => exact (repo.loose_pack names name).trans (if_neg h)

/-- Some ref was set by the last push to it. -/
def HasLiveRef (steps : List RefStep) : Prop :=
  ∃ before command, LastAt (RefStep.Pushes command.name) steps before (.push command)
    ∧ command.result ≠ none

/-- Some branch was set by the last push to it and has not been packed since. -/
def HasUnpackedBranch (steps : List RefStep) : Prop :=
  ∃ before command, LastAt (RefStep.Moves command.name) steps before (.push command)
    ∧ command.result ≠ none ∧ Repository.headsBytes <+: command.name

/-- The repository after a history of pushes and packings. -/
def Repository.after (steps : List RefStep) : Repository :=
  Runs.run Repository.step .bare steps

theorem exists_ref_after_iff {steps : List RefStep} :
    (∃ name, (Repository.after steps).ref name ≠ none) ↔ HasLiveRef steps := by
  have hbare : ∀ name, ¬ Repository.bare.ref name ≠ none := fun name h => h rfl
  constructor
  · rintro ⟨name, hname⟩
    obtain ⟨before, step, hlast, hresult⟩ :=
      ((overwrites_ref name).run_iff_exists (P := (· ≠ none)) (hbare name) steps).mp hname
    cases step with
    | pack names => exact absurd rfl hresult
    | push command =>
      obtain rfl : command.name = name := hlast.1
      exact ⟨before, command, hlast, hresult⟩
  · rintro ⟨before, command, hlast, hresult⟩
    exact ⟨command.name, ((overwrites_ref command.name).run_iff_exists (P := (· ≠ none))
      (hbare command.name) steps).mpr ⟨before, .push command, hlast, hresult⟩⟩

theorem headsListed_after_iff {steps : List RefStep} :
    (Repository.after steps).headsListed = true ↔ HasUnpackedBranch steps := by
  rw [Repository.headsListed_iff]
  have hbare : ∀ name, ¬ (Repository.bare.loose.lookup name).isSome = true := by
    intro name h
    simp [Repository.bare] at h
  constructor
  · rintro ⟨name, hheads, hname⟩
    obtain ⟨before, step, hlast, hresult⟩ :=
      ((overwrites_loose name).run_iff_exists (P := (·.isSome = true)) (hbare name) steps).mp hname
    cases step with
    | pack names => cases hresult
    | push command =>
      obtain rfl : command.name = name := hlast.1
      exact ⟨before, command, hlast, Option.isSome_iff_ne_none.mp hresult, hheads⟩
  · rintro ⟨before, command, hlast, hresult, hheads⟩
    exact ⟨command.name, hheads, ((overwrites_loose command.name).run_iff_exists
      (P := (·.isSome = true)) (hbare command.name) steps).mpr
        ⟨before, .push command, hlast, Option.isSome_iff_ne_none.mpr hresult⟩⟩

end BlossomRs.GitServer

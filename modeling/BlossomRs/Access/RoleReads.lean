import BlossomRs.Access.Roles
import BlossomRs.Lib.CriticalSections
import BlossomRs.Lib.Runs

/-!
# Roles read during an update

The two sets of `RoleBasedAccess` have a lock each.  An update takes the locks it needs one after
the other, or both at once; `role` tries the lock of the administrators, lets go of it and tries
that of the members, and a lock it cannot have counts as a set without the key.

Every update enters the section of each set at most once (`stage_program`), so `role` finds each set
as it was before or as it is after, and a role it returns is one that a set of the one or the other
gives.  A refusal is possible at any time here, since a writer that only waits for a lock keeps
readers out as well.
-/

namespace RustStr

/-- `str::lines`: the text after the last newline is a line unless it is empty, and keeps a carriage
return at its end. -/
def lines (s : String) : List String :=
  let pieces := split '\n' s
  (pieces.dropLast.map fun line =>
    if endsWith line "\r" then String.ofList line.toList.dropLast else line)
    ++ (pieces.getLast?.toList.filter (· ≠ ""))

end RustStr

namespace BlossomRs
namespace Access

open Database CriticalSections

/-! ### The updates -/

/-- `parse_file`, on the text of the file. -/
def parseFile (bech32 : Bech32) (content : String) : List String :=
  (((RustStr.lines content).map RustStr.trim).filter fun line =>
    line ≠ "" && !RustStr.startsWith line "#").filterMap (normalizePubkey bech32)

/-- An update of the sets.  A file that cannot be read has no text. -/
inductive RoleUpdate where
  | setRole (pubkey role : String)
  | promoteAdmin (pubkey : String)
  | demoteToMember (pubkey : String)
  | remove (pubkey : String)
  | addAdmin (pubkey : String)
  | addMember (pubkey : String)
  | reload (adminFile memberFile : Option String)

namespace RoleBasedAccess

/-- `add_admin`. -/
def addAdmin (bech32 : Bech32) (access : RoleBasedAccess) (pubkey : String) : RoleBasedAccess :=
  { access with admins := insertKey (normalized bech32 pubkey) access.admins }

/-- `add_member`. -/
def addMember (bech32 : Bech32) (access : RoleBasedAccess) (pubkey : String) : RoleBasedAccess :=
  { access with members := insertKey (normalized bech32 pubkey) access.members }

/-- `reload`: nothing is replaced unless both files can be read. -/
def reload (bech32 : Bech32) (access : RoleBasedAccess) (adminFile memberFile : Option String) :
    RoleBasedAccess :=
  match adminFile, memberFile with
  | some admins, some members => ⟨parseFile bech32 admins, parseFile bech32 members⟩
  | _, _ => access

end RoleBasedAccess

inductive RoleSet where
  | admins
  | members
deriving DecidableEq

/-- One of the sets. -/
def RoleBasedAccess.keys (access : RoleBasedAccess) : RoleSet → List String
  | .admins => access.admins
  | .members => access.members

namespace RoleUpdate

variable {δ : Type} [BlobDatabase δ] (bech32 : Bech32) (db : δ)

/-- The sets after an update that nothing runs beside. -/
def apply (access : RoleBasedAccess) : RoleUpdate → RoleBasedAccess
  | .setRole pubkey role => (access.setRole bech32 pubkey role db).2.1
  | .promoteAdmin pubkey => (access.promoteAdmin bech32 pubkey db).2.1
  | .demoteToMember pubkey => (access.demoteToMember bech32 pubkey db).2.1
  | .remove pubkey => access.remove bech32 pubkey
  | .addAdmin pubkey => access.addAdmin bech32 pubkey
  | .addMember pubkey => access.addMember bech32 pubkey
  | .reload adminFile memberFile => access.reload bech32 adminFile memberFile

abbrev Program := List (RoleSet × Act (List String))

/-- `set.write().await` for one change: the guard ends with the statement. -/
def changing (set : RoleSet) (f : List String → List String) : Program :=
  [(set, .acquire), (set, .write f), (set, .release)]

/-- What `set_role` inserts after it has removed the key from both sets. -/
def insertion (key role : String) : Program :=
  if role = "admin" then [(.admins, .write (insertKey key))]
  else if role = "member" then [(.members, .write (insertKey key))]
  else []

/-- The lock actions behind a role that the database has accepted. -/
def persisted (key role : String) (todo : Program) : Program :=
  match BlobDatabase.setRole db key role with
  | (.error _, _) => []
  | (.ok (), _) => todo

/-- The lock actions of an update. -/
def program : RoleUpdate → Program
  | .setRole pubkey role =>
    let key := normalized bech32 pubkey
    -- both guards live to the end of the function, the later one ends first
    persisted db key role ([(.admins, .acquire), (.members, .acquire),
      (.admins, .write (removeKey key)), (.members, .write (removeKey key))]
      ++ insertion key role ++ [(.members, .release), (.admins, .release)])
  | .promoteAdmin pubkey =>
    let key := normalized bech32 pubkey
    persisted db key "admin" (changing .admins (insertKey key) ++ changing .members (removeKey key))
  | .demoteToMember pubkey =>
    let key := normalized bech32 pubkey
    persisted db key "member" (changing .admins (removeKey key) ++ changing .members (insertKey key))
  | .remove pubkey =>
    let key := normalized bech32 pubkey
    changing .admins (removeKey key) ++ changing .members (removeKey key)
  | .addAdmin pubkey => changing .admins (insertKey (normalized bech32 pubkey))
  | .addMember pubkey => changing .members (insertKey (normalized bech32 pubkey))
  | .reload adminFile memberFile =>
    match adminFile, memberFile with
    | some admins, some members => changing .admins (fun _ => parseFile bech32 admins)
      ++ changing .members (fun _ => parseFile bech32 members)
    | _, _ => []

end RoleUpdate

/-! ### An update and a read -/

/-- How far `role` is. -/
inductive ReaderState where
  | start
  | holding (set : RoleSet)
  | between
  | done (role : Role)

structure Concurrent where
  cells : RoleSet → Cell (List String)
  todo : RoleUpdate.Program
  reader : ReaderState

inductive Event where
  /-- The next lock action of the update. -/
  | update
  /-- The reader's `try_read` fails. -/
  | refused
  /-- The reader's `try_read` succeeds, or it looks the key up and lets go of the lock. -/
  | read
deriving DecidableEq

/-- The update is about to start, and so is the read. -/
def Concurrent.start (access : RoleBasedAccess) (todo : RoleUpdate.Program) : Concurrent :=
  ⟨fun set => ⟨access.keys set, false⟩, todo, .start⟩

/-- The lock of a set cannot be taken for writing while somebody has it. -/
def Concurrent.blocked (s : Concurrent) (set : RoleSet) : Act (List String) → Bool
  | .acquire => (s.cells set).held || match s.reader with
    | .holding read => read = set
    | _ => false
  | _ => false

/-- One event during `role(pubkey)`; an event that cannot happen now is refused. -/
def Concurrent.step (pubkey : String) (s : Concurrent) : Event → Option Concurrent
  | .update =>
    match s.todo with
    | [] => none
    | (set, act) :: todo =>
      if s.blocked set act then none
      else some { s with cells := Function.update s.cells set ((s.cells set).act act), todo := todo }
  | .refused =>
    match s.reader with
    | .start => some { s with reader := .between }
    | .between => some { s with reader := .done .denied }
    | _ => none
  | .read =>
    match s.reader with
    | .start => if (s.cells .admins).held then none else some { s with reader := .holding .admins }
    | .holding .admins =>
      some { s with reader := if pubkey ∈ (s.cells .admins).value then .done .admin else .between }
    | .between => if (s.cells .members).held then none else some { s with reader := .holding .members }
    | .holding .members => some { s with
        reader := .done (if pubkey ∈ (s.cells .members).value then .member else .denied) }
    | .done _ => none

/-! ### Sections of the updates -/

section Sections

variable {δ : Type} [BlobDatabase δ] {bech32 : Bech32} {db : δ} {access : RoleBasedAccess}

/-- An update that changes each set in a statement of its own. -/
theorem stage_changing (f g : List String → List String) (set : RoleSet) :
    Stage (access.keys set) (RoleBasedAccess.keys ⟨f access.admins, g access.members⟩ set)
      ⟨access.keys set, false⟩
      (actsOn set (RoleUpdate.changing .admins f ++ RoleUpdate.changing .members g)) := by
  cases set with
  | admins => exact .waiting [f] rfl
  | members => exact .waiting [g] rfl

/-- An update that changes nothing. -/
theorem stage_nil (set : RoleSet) :
    Stage (access.keys set) (access.keys set) ⟨access.keys set, false⟩ (actsOn set []) :=
  .finished

/-- Persisting decides for the lock actions and for the sets alike. -/
theorem stage_persisted {key role : String} {after : RoleBasedAccess} {todo : RoleUpdate.Program}
    (h : ∀ set, Stage (access.keys set) (after.keys set) ⟨access.keys set, false⟩ (actsOn set todo))
    (set : RoleSet) :
    Stage (access.keys set) ((access.persist key role after db).2.1.keys set)
      ⟨access.keys set, false⟩ (actsOn set (RoleUpdate.persisted db key role todo)) := by
  unfold RoleBasedAccess.persist RoleUpdate.persisted
  rcases BlobDatabase.setRole db key role with ⟨_ | _, db'⟩
  · exact stage_nil set
  · exact h set

/-- `set_role` is in both sections until it is through with both sets. -/
theorem stage_applyRole (key role : String) (set : RoleSet) :
    Stage (access.keys set) ((access.applyRole key role).keys set) ⟨access.keys set, false⟩
      (actsOn set ([(.admins, .acquire), (.members, .acquire),
        (.admins, .write (removeKey key)), (.members, .write (removeKey key))]
        ++ RoleUpdate.insertion key role ++ [(.members, .release), (.admins, .release)])) := by
  unfold RoleBasedAccess.applyRole RoleUpdate.insertion
  dsimp only
  split
  · cases set with
    | admins => exact .waiting [removeKey key, insertKey key] rfl
    | members => exact .waiting [removeKey key] rfl
  · split
    · cases set with
      | admins => exact .waiting [removeKey key] rfl
      | members => exact .waiting [removeKey key, insertKey key] rfl
    · cases set with
      | admins => exact .waiting [removeKey key] rfl
      | members => exact .waiting [removeKey key] rfl

/-- **Each set is changed in one section.** -/
theorem stage_program (update : RoleUpdate) (set : RoleSet) :
    Stage (access.keys set) ((update.apply bech32 db access).keys set) ⟨access.keys set, false⟩
      (actsOn set (update.program bech32 db)) := by
  cases update with
  | setRole pubkey role => exact stage_persisted (stage_applyRole _ role) set
  | promoteAdmin pubkey => exact stage_persisted (stage_changing _ _) set
  | demoteToMember pubkey => exact stage_persisted (stage_changing _ _) set
  | remove pubkey => exact stage_changing _ _ set
  | addAdmin pubkey =>
    cases set with
    | admins => exact .waiting [insertKey _] rfl
    | members => exact .finished
  | addMember pubkey =>
    cases set with
    | admins => exact .finished
    | members => exact .waiting [insertKey _] rfl
  | reload adminFile memberFile =>
    rcases adminFile with _ | admins
    · exact stage_nil set
    · rcases memberFile with _ | members
      · exact stage_nil set
      · exact stage_changing (fun _ => parseFile bech32 admins) (fun _ => parseFile bech32 members) set

end Sections

/-! ### What the read returns -/

/-- What the reader knows: a set it holds is free of writers, and a role it has found is that of a
key of one of the two states. -/
def ReaderState.Sound (before after : RoleBasedAccess) (pubkey : String)
    (cells : RoleSet → Cell (List String)) : ReaderState → Prop
  | .holding set => (cells set).held = false
  | .done .admin => pubkey ∈ before.admins ∨ pubkey ∈ after.admins
  | .done .member => pubkey ∈ before.members ∨ pubkey ∈ after.members
  | _ => True

structure Concurrent.Inv (before after : RoleBasedAccess) (pubkey : String) (s : Concurrent) :
    Prop where
  stages : ∀ set, Stage (before.keys set) (after.keys set) (s.cells set) (actsOn set s.todo)
  reader : s.reader.Sound before after pubkey s.cells

namespace Concurrent

variable {before after : RoleBasedAccess} {pubkey : String} {s t : Concurrent}

/-- A key found in a set the reader holds is in that set before or after. -/
theorem Inv.mem_of_mem (h : s.Inv before after pubkey) {set : RoleSet}
    (hfree : (s.cells set).held = false) (hmem : pubkey ∈ (s.cells set).value) :
    pubkey ∈ before.keys set ∨ pubkey ∈ after.keys set := by
  rcases (h.stages set).value_of_free hfree with hvalue | hvalue
  · exact Or.inl (hvalue ▸ hmem)
  · exact Or.inr (hvalue ▸ hmem)

/-- An update step does not take a lock from the reader. -/
theorem sound_update {set : RoleSet} {act : Act (List String)} (hblocked : s.blocked set act = false)
    (h : s.reader.Sound before after pubkey s.cells) :
    s.reader.Sound before after pubkey
      (Function.update s.cells set ((s.cells set).act act)) := by
  unfold blocked at hblocked
  cases hreader : s.reader with
  | start => trivial
  | between => trivial
  | done role =>
    rw [hreader] at h
    cases role <;> exact h
  | holding read =>
    rw [hreader] at h hblocked
    have hfree : (s.cells read).held = false := h
    show (Function.update s.cells set ((s.cells set).act act) read).held = false
    by_cases hset : read = set
    · subst hset
      rw [Function.update_self]
      cases act with
      | acquire => simp at hblocked
      | write f => exact hfree
      | release => rfl
    · rw [Function.update_of_ne hset]
      exact hfree

theorem Inv.step (h : s.Inv before after pubkey) {event : Event}
    (hstep : s.step pubkey event = some t) : t.Inv before after pubkey := by
  obtain ⟨cells, todo, reader⟩ := s
  have hsound := h.reader
  cases event with
  | update =>
    cases todo with
    | nil => exact absurd hstep (by simp [Concurrent.step])
    | cons first todo =>
      obtain ⟨set, act⟩ := first
      simp only [Concurrent.step, Option.ite_none_left_eq_some, Bool.not_eq_true,
        Option.some.injEq] at hstep
      obtain ⟨hblocked, rfl⟩ := hstep
      exact ⟨stages_act h.stages, sound_update hblocked h.reader⟩
  | refused =>
    cases reader with
    | start =>
      obtain rfl := Option.some.inj hstep
      exact ⟨h.stages, trivial⟩
    | between =>
      obtain rfl := Option.some.inj hstep
      exact ⟨h.stages, trivial⟩
    | holding set => cases hstep
    | done role => cases hstep
  | read =>
    cases reader with
    | start =>
      simp only [Concurrent.step, Option.ite_none_left_eq_some, Bool.not_eq_true,
        Option.some.injEq] at hstep
      obtain ⟨hfree, rfl⟩ := hstep
      exact ⟨h.stages, hfree⟩
    | between =>
      simp only [Concurrent.step, Option.ite_none_left_eq_some, Bool.not_eq_true,
        Option.some.injEq] at hstep
      obtain ⟨hfree, rfl⟩ := hstep
      exact ⟨h.stages, hfree⟩
    | done role => cases hstep
    | holding set =>
      cases set with
      | admins =>
        obtain rfl := Option.some.inj hstep
        refine ⟨h.stages, ?_⟩
        by_cases hmem : pubkey ∈ (cells .admins).value
        · simp only [if_pos hmem]
          exact h.mem_of_mem hsound hmem
        · simp only [if_neg hmem]
          trivial
      | members =>
        obtain rfl := Option.some.inj hstep
        refine ⟨h.stages, ?_⟩
        by_cases hmem : pubkey ∈ (cells .members).value
        · simp only [if_pos hmem]
          exact h.mem_of_mem hsound hmem
        · simp only [if_neg hmem]
          trivial

end Concurrent

/-- Denied, member, administrator. -/
def Role.rank : Role → Nat
  | .denied => 0
  | .member => 1
  | .admin => 2

variable {access : RoleBasedAccess}

theorem RoleBasedAccess.rank_of_mem_admins {pubkey : String} (h : pubkey ∈ access.admins) :
    (access.role pubkey).rank = 2 := by
  rw [RoleBasedAccess.role, if_pos h]
  rfl

theorem RoleBasedAccess.rank_of_mem_members {pubkey : String} (h : pubkey ∈ access.members) :
    1 ≤ (access.role pubkey).rank := by
  rw [RoleBasedAccess.role, if_pos h]
  split <;> decide

open Concurrent in
/-- **A read during an update returns no role above both.**  Whatever the interleaving, the role is
at most the higher of the roles before the update and after it. -/
theorem role_during_update {δ : Type} [BlobDatabase δ] (bech32 : Bech32) (db : δ)
    (update : RoleUpdate) (access : RoleBasedAccess) (pubkey : String) (events : List Event)
    (s : Concurrent) (role : Role)
    (hrun : Runs.tryRun (step pubkey) (start access (update.program bech32 db)) events = some s)
    (hdone : s.reader = .done role) :
    role.rank ≤ max (access.role pubkey).rank ((update.apply bech32 db access).role pubkey).rank := by
  have hinit : (start access (update.program bech32 db)).Inv access
      (update.apply bech32 db access) pubkey := ⟨stage_program update, trivial⟩
  have hinv := Runs.tryRun_invariant (P := fun _ s => s.Inv access (update.apply bech32 db access)
    pubkey) hinit (fun _ _ _ _ h hstep => h.step hstep) events s hrun
  have hsound := hinv.reader
  rw [hdone] at hsound
  cases role with
  | denied => exact Nat.zero_le _
  | admin =>
    rcases hsound with hmem | hmem
    · exact le_max_of_le_left (RoleBasedAccess.rank_of_mem_admins hmem).ge
    · exact le_max_of_le_right (RoleBasedAccess.rank_of_mem_admins hmem).ge
  | member =>
    rcases hsound with hmem | hmem
    · exact le_max_of_le_left (RoleBasedAccess.rank_of_mem_members hmem)
    · exact le_max_of_le_right (RoleBasedAccess.rank_of_mem_members hmem)

/-- The read of the administrators, the whole promotion, and the read of the members. -/
def promotionBetweenReads : List Event :=
  [.read, .read, .update, .update, .update, .update, .update, .update, .read, .read]

/-- A member who is promoted between the two reads is denied for once: neither set has the key when
it is looked up there. -/
theorem promoted_between_reads :
    (Runs.tryRun (Concurrent.step "k") (.start ⟨[], ["k"]⟩
        ((RoleUpdate.promoteAdmin "k").program ⟨fun _ => none⟩ MemoryDatabase.new))
        promotionBetweenReads).map (·.reader) = some (.done .denied)
      ∧ Role.denied.rank ≤ max (RoleBasedAccess.role ⟨[], ["k"]⟩ "k").rank
        (((RoleUpdate.promoteAdmin "k").apply ⟨fun _ => none⟩ MemoryDatabase.new
          ⟨[], ["k"]⟩).role "k").rank := by
  refine ⟨rfl, ?_⟩
  obtain ⟨s, hrun, hdone⟩ : ∃ s, Runs.tryRun (Concurrent.step "k") (.start ⟨[], ["k"]⟩
      ((RoleUpdate.promoteAdmin "k").program ⟨fun _ => none⟩ MemoryDatabase.new))
      promotionBetweenReads = some s ∧ s.reader = .done .denied := ⟨_, rfl, rfl⟩
  exact role_during_update ⟨fun _ => none⟩ MemoryDatabase.new (.promoteAdmin "k") ⟨[], ["k"]⟩ "k"
    promotionBetweenReads s .denied hrun hdone

end Access
end BlossomRs

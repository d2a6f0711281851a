import BlossomRs.GitServer.PktLine
import BlossomRs.Lib.Checks
import Mathlib.Data.List.AList

/-!
# Validation of pushes

A push is checked against the repository state that the author or a maintainer published: an update of
a ref of the state must bring it to the declared object id, and such a ref is never deleted.  Other
refs may be created and deleted, not moved.

The events come from a database outside; so do key parsing and the library's reading of tag kinds.
-/

namespace BlossomRs.GitServer

open Protocol Checks

/-- The filters of the validation: authors, the identifier tag and a kind. -/
structure Filter where
  authors : List String
  identifier : String
  kind : UInt32
deriving DecidableEq, Repr

/-- What the validation calls outside the repository.  `isCustomKind` tells the tag names for which
the library has no kind of its own. -/
structure Relay where
  publicKeyFromHex : String → Option String
  query : Filter → Option (List NostrEvent)
  isCustomKind : String → Bool

/-- Object ids by ref name. -/
abbrev RefMap : Type :=
  AList fun _ : String => String

/-- `extract_maintainers`. -/
def extractMaintainers (relay : Relay) (event : NostrEvent) : List String :=
  (event.tags.filter fun tag =>
    tag.head? = some "maintainers" ∧ relay.isCustomKind "maintainers" = true).filterMap (·[1]?)

/-- `extract_state_refs`: of several tags with one name the last one counts. -/
def extractStateRefs (event : NostrEvent) : RefMap :=
  event.tags.foldl (fun refs tag =>
    match tag with
    | kind :: oid :: _ => if RustStr.startsWith kind "refs/" then refs.insert kind oid else refs
    | _ => refs) ∅

/-- `check_ref_update`. -/
def checkRefUpdate (update : RefUpdate) (stateRefs : RefMap) : Except String Unit :=
  match stateRefs.lookup update.refname, update.isDelete, update.isCreate with
  | some expected, false, _ =>
    if update.newOid ≠ expected then .error "ref update doesn't match repository state" else .ok ()
  | none, false, true => .ok ()
  | none, false, false => .error "ref not found in repository state"
  | some _, true, _ => .error "cannot delete ref that exists in repository state"
  | none, true, _ => .ok ()

/-- The reasons against a push, by ref name. -/
def pushErrors (updates : List RefUpdate) (stateRefs : RefMap) : RefMap :=
  updates.foldl (fun errors update =>
    match checkRefUpdate update stateRefs with
    | .error reason => errors.insert update.refname reason
    | .ok () => errors) ∅

/-- The state event that a push is checked against: the first one of the author or a maintainer. -/
def stateEvent (relay : Relay) (authorHex repoId : String) : Except (Nat × String) NostrEvent := do
  let author ← okOr (relay.publicKeyFromHex authorHex) (400, "invalid author pubkey")
  let announcements ← okOr (relay.query ⟨[author], repoId, 30617⟩)
    (500, "database error looking up repo announcement")
  let announcement ← okOr announcements.head?
    (404, "no repository announcement found — publish kind:30617 first")
  let maintainers := (extractMaintainers relay announcement).filterMap relay.publicKeyFromHex
  let states ← okOr (relay.query ⟨author :: maintainers, repoId, 30618⟩)
    (500, "database error looking up repo state")
  okOr states.head? (400, "no repository state found — publish kind:30618 first")

/-- `validate_push`. -/
def validatePush (relay : Relay) (updates : List RefUpdate) (authorHex repoId : String) :
    Except (Nat × String) RefMap := do
  let state ← stateEvent relay authorHex repoId
  .ok (pushErrors updates (extractStateRefs state))

variable {stateRefs : RefMap}

/-- A ref of the state that passes the check goes where the state says. -/
theorem newOid_of_checkRefUpdate {update : RefUpdate} {oid : String}
    (hstate : stateRefs.lookup update.refname = some oid)
    (h : checkRefUpdate update stateRefs = .ok ()) : update.newOid = oid ∧ oid ≠ nullOid := by
  unfold checkRefUpdate at h
  rw [hstate] at h
  cases hdelete : update.isDelete with
  | true => simp [hdelete] at h
  | false =>
    simp only [hdelete] at h
    have hnew : update.newOid = oid := by
      by_contra hne
      rw [if_pos hne] at h
      cases h
    refine ⟨hnew, ?_⟩
    rintro rfl
    simp [RefUpdate.isDelete, hnew] at hdelete

theorem mem_pushErrors {updates : List RefUpdate} {name : String} :
    name ∈ pushErrors updates stateRefs
      ↔ ∃ update ∈ updates, update.refname = name ∧ checkRefUpdate update stateRefs ≠ .ok () := by
  induction updates using List.reverseRecOn with
  | nil => simp [pushErrors]
  | append_singleton updates update ih =>
    simp only [pushErrors, List.foldl_append, List.foldl_cons, List.foldl_nil] at ih ⊢
    simp only [List.mem_append, List.mem_singleton, or_and_right, exists_or, exists_eq_left]
    cases hcheck : checkRefUpdate update stateRefs with
    | error reason =>
      rw [AList.mem_insert, ih, eq_comm (a := name), or_comm]
      simp
    | ok u => simp [ih]

/-- The push goes through when every update passes. -/
theorem pushErrors_eq_empty {updates : List RefUpdate} :
    pushErrors updates stateRefs = ∅
      ↔ ∀ update ∈ updates, checkRefUpdate update stateRefs = .ok () := by
  constructor
  · intro hempty update hupdate
    by_contra hcheck
    have hmem := mem_pushErrors.mpr ⟨update, hupdate, rfl, hcheck⟩
    rw [hempty] at hmem
    exact AList.notMem_empty _ hmem
  · intro hall
    apply AList.ext
    apply List.eq_nil_iff_forall_not_mem.mpr
    rintro ⟨name, reason⟩ hentry
    have hmem : name ∈ pushErrors updates stateRefs :=
      List.mem_map.mpr ⟨⟨name, reason⟩, hentry, rfl⟩
    obtain ⟨update, hupdate, -, hcheck⟩ := mem_pushErrors.mp hmem
    exact hcheck (hall update hupdate)

end BlossomRs.GitServer

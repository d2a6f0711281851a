import Mathlib.Data.Finset.Dedup
import Mathlib.Data.Finset.Insert
import BlossomRs.Lib.Json
import BlossomRs.Lib.Runs
import BlossomRs.Lib.RustStr

/-!
# The policy of the relay

The pubkey lists and kind filters of the relay, the table they are kept in and the admin calls that
change them.  At the start the lists are those of the configuration, to which the rows of the table
are added.  An admin call changes the list in memory and the row in the table.

A removal takes away a row, but not the pubkey's place in the configuration: building the policy again
brings a removed pubkey back if it is configured, and only then (`rebuilt_policy_eq_iff`).
-/

namespace BlossomRs.Relay

/-- The pubkey lists of the policy, which are also categories of the table. -/
inductive PubkeyList where
  | admin
  | whitelist
  | blacklist
deriving DecidableEq, Repr

/-- The category of a list in the table. -/
def PubkeyList.category : PubkeyList → String
  | .admin => "admin"
  | .whitelist => "whitelist"
  | .blacklist => "blacklist"

/-- The sets of the relay's policy. -/
structure RelayPolicy where
  pubkeys : PubkeyList → Finset String
  allowedKinds : Finset Nat
  disallowedKinds : Finset Nat

namespace RelayPolicy

def addPubkey (policy : RelayPolicy) (list : PubkeyList) (pubkey : String) : RelayPolicy :=
  { policy with
    pubkeys := Function.update policy.pubkeys list (insert pubkey (policy.pubkeys list)) }

/-- `remove_whitelist` and `remove_blacklist`. -/
def removePubkey (policy : RelayPolicy) (list : PubkeyList) (pubkey : String) : RelayPolicy :=
  { policy with
    pubkeys := Function.update policy.pubkeys list ((policy.pubkeys list).erase pubkey) }

/-- `add_admin`. -/
def addAdmin (policy : RelayPolicy) : String → RelayPolicy :=
  policy.addPubkey .admin

/-- `add_whitelist`. -/
def addWhitelist (policy : RelayPolicy) : String → RelayPolicy :=
  policy.addPubkey .whitelist

/-- `add_blacklist`. -/
def addBlacklist (policy : RelayPolicy) : String → RelayPolicy :=
  policy.addPubkey .blacklist

/-- `set_allowed_kinds`. -/
def setAllowedKinds (policy : RelayPolicy) (kinds : List Nat) : RelayPolicy :=
  { policy with allowedKinds := kinds.toFinset }

/-- `add_allowed_kind`. -/
def addAllowedKind (policy : RelayPolicy) (kind : Nat) : RelayPolicy :=
  { policy with allowedKinds := insert kind policy.allowedKinds }

/-- `add_disallowed_kind`. -/
def addDisallowedKind (policy : RelayPolicy) (kind : Nat) : RelayPolicy :=
  { policy with disallowedKinds := insert kind policy.disallowedKinds }

/-- `with_config`: only the admins are given at once. -/
def withConfig (admins : List String) : RelayPolicy where
  pubkeys := Function.update (fun _ => ∅) .admin admins.toFinset
  allowedKinds := ∅
  disallowedKinds := ∅

end RelayPolicy

/-! ### The table -/

/-- The rows of the table `relay_policy`, each a category and a value. -/
structure PolicyDb where
  rows : List (String × String)
deriving DecidableEq, Repr

namespace PolicyDb

local instance lawfulRows : LawfulBEq (String × String) :=
  inferInstance

/-- `add`: a row that is there is not added again. -/
def add (db : PolicyDb) (category value : String) : PolicyDb :=
  if (category, value) ∈ db.rows then db else ⟨db.rows ++ [(category, value)]⟩

/-- `remove`. -/
def remove (db : PolicyDb) (category value : String) : PolicyDb :=
  ⟨db.rows.filter (· ≠ (category, value))⟩

/-- One round of `load_into`: rows of an unknown category or with a malformed kind are skipped. -/
def loadRow (policy : RelayPolicy) (row : String × String) : RelayPolicy :=
  match row.1 with
  | "admin" => policy.addAdmin row.2
  | "whitelist" => policy.addWhitelist row.2
  | "blacklist" => policy.addBlacklist row.2
  | "allowed_kind" =>
    match RustStr.parseUnsigned 16 row.2 with
    | some kind => policy.addAllowedKind kind
    | none => policy
  | "disallowed_kind" =>
    match RustStr.parseUnsigned 16 row.2 with
    | some kind => policy.addDisallowedKind kind
    | none => policy
  | _ => policy

/-- `load_into`. -/
def loadInto (db : PolicyDb) (policy : RelayPolicy) : RelayPolicy :=
  db.rows.foldl loadRow policy

end PolicyDb

/-! ### The state and its admin calls -/

/-- What the configuration says about the policy. -/
structure PolicyConfig where
  adminPubkeys : List String
  whitelistPubkeys : List String
  blacklistPubkeys : List String
  allowedKinds : List Nat
  disallowedKinds : List Nat
deriving DecidableEq, Repr

namespace PolicyConfig

/-- The configured pubkeys of a list. -/
def pubkeys (config : PolicyConfig) : PubkeyList → List String
  | .admin => config.adminPubkeys
  | .whitelist => config.whitelistPubkeys
  | .blacklist => config.blacklistPubkeys

/-- The policy before the table is read. -/
def policy (config : PolicyConfig) : RelayPolicy :=
  let policy := RelayPolicy.withConfig config.adminPubkeys
  let policy := config.whitelistPubkeys.foldl RelayPolicy.addWhitelist policy
  let policy := config.blacklistPubkeys.foldl RelayPolicy.addBlacklist policy
  let policy := if config.allowedKinds.isEmpty then policy
    else policy.setAllowedKinds config.allowedKinds
  config.disallowedKinds.foldl RelayPolicy.addDisallowedKind policy

end PolicyConfig

structure Nip34State where
  config : PolicyConfig
  policy : RelayPolicy
  policyDb : PolicyDb

namespace Nip34State

/-- The part of `Nip34State::new` that builds the policy. -/
def new (config : PolicyConfig) (db : PolicyDb) : Nip34State where
  config := config
  policy := db.loadInto config.policy
  policyDb := db

/-- A pubkey joins a list. -/
def addTo (list : PubkeyList) (state : Nip34State) (pubkey : String) : Json × Nip34State :=
  (.obj [("added", .str pubkey)], { state with
    policy := state.policy.addPubkey list pubkey
    policyDb := state.policyDb.add list.category pubkey })

/-- A pubkey leaves a list. -/
def removeFrom (list : PubkeyList) (state : Nip34State) (pubkey : String) : Json × Nip34State :=
  (.obj [("removed", .str pubkey)], { state with
    policy := state.policy.removePubkey list pubkey
    policyDb := state.policyDb.remove list.category pubkey })

end Nip34State

/-- The calls that change pubkey lists.  There is none that removes an admin. -/
inductive AdminCall where
  | addWhitelist (pubkey : String)
  | removeWhitelist (pubkey : String)
  | addBlacklist (pubkey : String)
  | removeBlacklist (pubkey : String)
  | addAdmin (pubkey : String)
deriving DecidableEq, Repr

open Nip34State in
/-- The handlers. -/
def AdminCall.handle (state : Nip34State) : AdminCall → Json × Nip34State
  | addWhitelist pubkey => addTo .whitelist state pubkey
  | removeWhitelist pubkey => removeFrom .whitelist state pubkey
  | addBlacklist pubkey => addTo .blacklist state pubkey
  | removeBlacklist pubkey => removeFrom .blacklist state pubkey
  | addAdmin pubkey => addTo .admin state pubkey

/-! ### What the policy is made of -/

theorem PubkeyList.category_injective : Function.Injective PubkeyList.category := by
  intro list list' h
  cases list <;> cases list' <;> first | rfl | simp [PubkeyList.category] at h

section Sets

variable {policy : RelayPolicy} {list other : PubkeyList} {pubkey key : String}

theorem mem_addPubkey :
    key ∈ (policy.addPubkey list pubkey).pubkeys other
      ↔ (other = list ∧ key = pubkey) ∨ key ∈ policy.pubkeys other := by
  unfold RelayPolicy.addPubkey
  by_cases h : other = list
  · subst h
    simp
  · simp [h]

theorem mem_removePubkey :
    key ∈ (policy.removePubkey list pubkey).pubkeys other
      ↔ ¬ (other = list ∧ key = pubkey) ∧ key ∈ policy.pubkeys other := by
  unfold RelayPolicy.removePubkey
  by_cases h : other = list
  · subst h
    simp
  · simp [h]

theorem mem_foldl_addPubkey (pubkeys : List String) :
    key ∈ (pubkeys.foldl (fun policy pubkey => policy.addPubkey list pubkey) policy).pubkeys other
      ↔ (other = list ∧ key ∈ pubkeys) ∨ key ∈ policy.pubkeys other := by
  induction pubkeys generalizing policy with
  | nil => simp
  | cons pubkey rest ih =>
    rw [List.foldl_cons, ih, mem_addPubkey, List.mem_cons]
    tauto

theorem pubkeys_foldl_addDisallowedKind (kinds : List Nat) :
    (kinds.foldl RelayPolicy.addDisallowedKind policy).pubkeys = policy.pubkeys := by
  induction kinds generalizing policy with
  | nil => rfl
  | cons kind rest ih =>
    rw [List.foldl_cons, ih]
    rfl

/-- Before the table is read, the lists are those of the configuration. -/
theorem mem_configured (config : PolicyConfig) :
    key ∈ config.policy.pubkeys list ↔ key ∈ config.pubkeys list := by
  have hadmins : key ∈ (RelayPolicy.withConfig config.adminPubkeys).pubkeys list
      ↔ list = .admin ∧ key ∈ config.adminPubkeys := by
    cases list <;> simp [RelayPolicy.withConfig]
  have hkinds : ∀ policy : RelayPolicy,
      (if config.allowedKinds.isEmpty then policy
        else policy.setAllowedKinds config.allowedKinds).pubkeys = policy.pubkeys := by
    intro policy
    split <;> rfl
  have hwhitelist : ∀ policy : RelayPolicy,
      key ∈ (config.whitelistPubkeys.foldl RelayPolicy.addWhitelist policy).pubkeys list
        ↔ (list = .whitelist ∧ key ∈ config.whitelistPubkeys) ∨ key ∈ policy.pubkeys list :=
    fun policy => mem_foldl_addPubkey config.whitelistPubkeys
  have hblacklist : ∀ policy : RelayPolicy,
      key ∈ (config.blacklistPubkeys.foldl RelayPolicy.addBlacklist policy).pubkeys list
        ↔ (list = .blacklist ∧ key ∈ config.blacklistPubkeys) ∨ key ∈ policy.pubkeys list :=
    fun policy => mem_foldl_addPubkey config.blacklistPubkeys
  unfold PolicyConfig.policy
  dsimp only
  rw [pubkeys_foldl_addDisallowedKind, hkinds, hblacklist, hwhitelist, hadmins]
  cases list <;> simp [PolicyConfig.pubkeys]

theorem mem_loadRow (row : String × String) :
    key ∈ (PolicyDb.loadRow policy row).pubkeys list
      ↔ key ∈ policy.pubkeys list ∨ (list.category, key) = row := by
  -- a row of a list adds its value there
  have hadd : ∀ list' value, key ∈ (policy.addPubkey list' value).pubkeys list
      ↔ key ∈ policy.pubkeys list ∨ (list.category, key) = (list'.category, value) := by
    intro list' value
    rw [mem_addPubkey, Prod.mk.injEq, PubkeyList.category_injective.eq_iff, or_comm]
  obtain ⟨category, value⟩ := row
  -- any other row leaves the lists alone
  have hskip : ∀ policy' : RelayPolicy, policy'.pubkeys = policy.pubkeys →
      (∀ list : PubkeyList, list.category ≠ category) →
      (key ∈ policy'.pubkeys list
        ↔ key ∈ policy.pubkeys list ∨ (list.category, key) = (category, value)) := by
    intro policy' hsame hnot
    rw [hsame, Prod.mk.injEq]
    exact ⟨Or.inl, Or.rec id fun heq => absurd heq.1 (hnot list)⟩
  unfold PolicyDb.loadRow
  dsimp only
  split
  · exact hadd .admin value
  · exact hadd .whitelist value
  · exact hadd .blacklist value
  · refine hskip _ ?_ (by rintro (_ | _ | _) <;> simp [PubkeyList.category])
    split <;> rfl
  · refine hskip _ ?_ (by rintro (_ | _ | _) <;> simp [PubkeyList.category])
    split <;> rfl
  · rename_i hadmin hwhitelist hblacklist _ _
    refine hskip _ rfl ?_
    rintro (_ | _ | _)
    · exact Ne.symm hadmin
    · exact Ne.symm hwhitelist
    · exact Ne.symm hblacklist

/-- Reading the table adds its rows. -/
theorem mem_loadInto (db : PolicyDb) :
    key ∈ (db.loadInto policy).pubkeys list
      ↔ key ∈ policy.pubkeys list ∨ (list.category, key) ∈ db.rows := by
  obtain ⟨rows⟩ := db
  unfold PolicyDb.loadInto
  induction rows generalizing policy with
  | nil => simp
  | cons row rest ih =>
    rw [List.foldl_cons, ih, mem_loadRow, List.mem_cons, or_assoc]

variable {row : String × String}

theorem mem_rows_add {db : PolicyDb} {category value : String} :
    row ∈ (db.add category value).rows ↔ row = (category, value) ∨ row ∈ db.rows := by
  unfold PolicyDb.add
  split
  · rename_i hmem
    exact ⟨Or.inr, Or.rec (fun heq => heq ▸ hmem) id⟩
  · simp [or_comm]

theorem mem_rows_remove {db : PolicyDb} {category value : String} :
    row ∈ (db.remove category value).rows ↔ row ≠ (category, value) ∧ row ∈ db.rows := by
  simp [PolicyDb.remove, and_comm]

end Sets

/-! ### Admin calls and a restart -/

open Runs

namespace AdminCall

/-- The list a call is about, its pubkey, and whether it removes it. -/
def subject : AdminCall → PubkeyList × String × Bool
  | addWhitelist pubkey => (.whitelist, pubkey, false)
  | removeWhitelist pubkey => (.whitelist, pubkey, true)
  | addBlacklist pubkey => (.blacklist, pubkey, false)
  | removeBlacklist pubkey => (.blacklist, pubkey, true)
  | addAdmin pubkey => (.admin, pubkey, false)

end AdminCall

/-- The last call about a pubkey of a list, if there is one, removes it. -/
def RemovedLast (calls : List AdminCall) (list : PubkeyList) (pubkey : String) : Prop :=
  ∃ pre call post, calls = pre ++ call :: post ∧ call.subject = (list, pubkey, true)
    ∧ ∀ later ∈ post, later.subject ≠ (list, pubkey, false)

theorem removedLast_nil {list : PubkeyList} {pubkey : String} : ¬ RemovedLast [] list pubkey := by
  rintro ⟨pre, call, post, hsplit, -⟩
  simp at hsplit

theorem removedLast_concat {calls : List AdminCall} {call : AdminCall} {list : PubkeyList}
    {pubkey : String} :
    RemovedLast (calls ++ [call]) list pubkey
      ↔ call.subject = (list, pubkey, true)
        ∨ (call.subject ≠ (list, pubkey, false) ∧ RemovedLast calls list pubkey) := by
  constructor
  · rintro ⟨pre, removal, post, hsplit, hremoval, hlater⟩
    rcases List.eq_nil_or_concat' post with rfl | ⟨post, last, rfl⟩
    · obtain ⟨-, hlast⟩ := List.append_inj' hsplit rfl
      exact Or.inl (List.singleton_inj.mp hlast ▸ hremoval)
    · rw [← List.cons_append, ← List.append_assoc] at hsplit
      obtain ⟨hcalls, hlast⟩ := List.append_inj' hsplit rfl
      refine Or.inr ⟨?_, pre, removal, post, hcalls, hremoval, ?_⟩
      · rw [List.singleton_inj.mp hlast]
        exact hlater last (by simp)
      · intro later hmem
        exact hlater later (by simp [hmem])
  · rintro (hremoval | ⟨hnot, pre, removal, post, rfl, hremoval, hlater⟩)
    · exact ⟨calls, call, [], rfl, hremoval, nofun⟩
    · refine ⟨pre, removal, post ++ [call], by simp, hremoval, ?_⟩
      intro later hmem
      rcases List.mem_append.mp hmem with hmem | hmem
      · exact hlater later hmem
      · rwa [List.mem_singleton.mp hmem]

/-- A call puts its pubkey in a list and in the table, or takes it out of both. -/
theorem AdminCall.handle_spec (state : Nip34State) (call : AdminCall) (list : PubkeyList)
    (key : String) :
    let next := (AdminCall.handle state call).2
    (key ∈ next.policy.pubkeys list ↔ call.subject = (list, key, false)
        ∨ (call.subject ≠ (list, key, true) ∧ key ∈ state.policy.pubkeys list))
      ∧ ((list.category, key) ∈ next.policyDb.rows ↔ call.subject = (list, key, false)
        ∨ (call.subject ≠ (list, key, true) ∧ (list.category, key) ∈ state.policyDb.rows)) := by
  have hadd : ∀ list' pubkey, let next := (Nip34State.addTo list' state pubkey).2
      (key ∈ next.policy.pubkeys list ↔ (list', pubkey) = (list, key)
          ∨ key ∈ state.policy.pubkeys list)
        ∧ ((list.category, key) ∈ next.policyDb.rows ↔ (list', pubkey) = (list, key)
          ∨ (list.category, key) ∈ state.policyDb.rows) := by
    intro list' pubkey next
    simp only [next, Nip34State.addTo, mem_addPubkey, mem_rows_add, Prod.mk.injEq,
      PubkeyList.category_injective.eq_iff, eq_comm (a := list), eq_comm (a := key), and_self]
  have hremove : ∀ list' pubkey, let next := (Nip34State.removeFrom list' state pubkey).2
      (key ∈ next.policy.pubkeys list ↔ (list', pubkey) ≠ (list, key)
          ∧ key ∈ state.policy.pubkeys list)
        ∧ ((list.category, key) ∈ next.policyDb.rows ↔ (list', pubkey) ≠ (list, key)
          ∧ (list.category, key) ∈ state.policyDb.rows) := by
    intro list' pubkey next
    simp only [next, Nip34State.removeFrom, mem_removePubkey, mem_rows_remove, ne_eq, Prod.mk.injEq,
      PubkeyList.category_injective.eq_iff, eq_comm (a := list), eq_comm (a := key), and_self]
  cases call with
  | addWhitelist pubkey => simpa [AdminCall.handle, AdminCall.subject] using hadd .whitelist pubkey
  | removeWhitelist pubkey => simpa [AdminCall.handle, AdminCall.subject] using hremove .whitelist pubkey
  | addBlacklist pubkey => simpa [AdminCall.handle, AdminCall.subject] using hadd .blacklist pubkey
  | removeBlacklist pubkey => simpa [AdminCall.handle, AdminCall.subject] using hremove .blacklist pubkey
  | addAdmin pubkey => simpa [AdminCall.handle, AdminCall.subject] using hadd .admin pubkey

/-- The lists after some calls: what is in the table, and what is configured and was not removed
last. -/
def Tracks (config : PolicyConfig) (calls : List AdminCall) (state : Nip34State) : Prop :=
  ∀ list key,
    (key ∈ state.policy.pubkeys list
        ↔ (key ∈ config.pubkeys list ∧ ¬ RemovedLast calls list key)
          ∨ (list.category, key) ∈ state.policyDb.rows)
      ∧ (RemovedLast calls list key → (list.category, key) ∉ state.policyDb.rows)

theorem tracks_new (config : PolicyConfig) (db : PolicyDb) : Tracks config [] (.new config db) := by
  intro list key
  refine ⟨?_, fun h => absurd h removedLast_nil⟩
  rw [Nip34State.new, mem_loadInto, mem_configured]
  simp [removedLast_nil]

theorem Tracks.handle {config : PolicyConfig} {calls : List AdminCall} {state : Nip34State}
    (h : Tracks config calls state) (call : AdminCall) :
    Tracks config (calls ++ [call]) (AdminCall.handle state call).2 := by
  intro list key
  obtain ⟨hlist, hrows⟩ := call.handle_spec state list key
  obtain ⟨hbefore, hremoved⟩ := h list key
  rw [hlist, hrows, removedLast_concat, hbefore]
  by_cases hadds : call.subject = (list, key, false)
  · simp [hadds]
  · by_cases hremoves : call.subject = (list, key, true)
    · simp [hremoves]
    · simpa [hadds, hremoves] using hremoved

theorem tracks_after (config : PolicyConfig) (db : PolicyDb) (calls : List AdminCall) :
    Tracks config calls (after AdminCall.handle (.new config db) calls) := by
  have hinv : ∀ pre post, calls = pre ++ post →
      Tracks config pre (after AdminCall.handle (.new config db) pre) :=
    run_invariant (tracks_new config db) fun pre call post _ h => h.handle call
  exact hinv calls [] (List.append_nil calls).symm

/-- **Building the policy again** gives the live lists exactly when no configured pubkey was removed
last from its list. -/
theorem rebuilt_policy_eq_iff (config : PolicyConfig) (db : PolicyDb) (calls : List AdminCall) :
    let live := after AdminCall.handle (.new config db) calls
    (Nip34State.new config live.policyDb).policy.pubkeys = live.policy.pubkeys
      ↔ ∀ list, ∀ pubkey ∈ config.pubkeys list, ¬ RemovedLast calls list pubkey := by
  intro live
  have htracks : Tracks config calls live := tracks_after config db calls
  have hrebuilt : ∀ list key, key ∈ (Nip34State.new config live.policyDb).policy.pubkeys list
      ↔ key ∈ config.pubkeys list ∨ (list.category, key) ∈ live.policyDb.rows := by
    intro list key
    rw [Nip34State.new, mem_loadInto, mem_configured]
  constructor
  · intro heq list pubkey hconfigured hremoved
    have hlive : pubkey ∈ live.policy.pubkeys list :=
      heq ▸ (hrebuilt list pubkey).mpr (Or.inl hconfigured)
    rcases (htracks list pubkey).1.mp hlive with ⟨-, hnot⟩ | hrow
    · exact hnot hremoved
    · exact (htracks list pubkey).2 hremoved hrow
  · intro hkept
    funext list
    refine Finset.ext fun key => ?_
    rw [hrebuilt, (htracks list key).1]
    exact or_congr_left ⟨fun hmem => ⟨hmem, hkept list key hmem⟩, And.left⟩

/-- A configured pubkey that is removed from the whitelist is back after a restart. -/
theorem removed_pubkey_comes_back :
    let config : PolicyConfig := ⟨[], ["alice"], [], [], []⟩
    let live := after AdminCall.handle (.new config ⟨[]⟩) [.removeWhitelist "alice"]
    live.policy.pubkeys .whitelist = ∅
      ∧ (Nip34State.new config live.policyDb).policy.pubkeys .whitelist = {"alice"} := by
  decide

end BlossomRs.Relay

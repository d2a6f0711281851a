import BlossomRs.Protocol

/-!
# Access control

Who may do what.  A server holds one policy; a whitelist and a role table can in addition be held
as live handles, which administrators change while the policy keeps reading them.

Sets of keys are lists here.  The non-blocking reads of the source are taken to succeed.
-/

namespace BlossomRs.Access

open Protocol

inductive Action where
  | upload
  | download
  | delete
  | list
  | mirror
  | admin
  | lock
deriving DecidableEq, Repr

inductive Role where
  | admin
  | member
  | denied
deriving DecidableEq, Repr

/-- `npub` texts are decoded by the bech32 coder, which is a parameter. -/
structure Bech32 where
  decode : String → Option (String × Bytes)

/-- A hexadecimal digit of either case. -/
def isAsciiHexdigit (c : Char) : Bool :=
  (Hex.value? c).isSome

/-- `normalize_pubkey`.  A key given in hexadecimal keeps its letter case. -/
def normalizePubkey (bech32 : Bech32) (input : String) : Option String :=
  let input := RustStr.trim input
  if RustStr.startsWith input "npub1" then
    match bech32.decode input with
    | some (hrp, data) =>
      if hrp = "npub" ∧ data.length = 32 then some (Hex.encode data) else none
    | none => none
  else if input.toList.length = 64 ∧ input.toList.all isAsciiHexdigit then some input
  else none

/-- A key in its normal form, or as it was given. -/
def normalized (bech32 : Bech32) (pubkey : String) : String :=
  (normalizePubkey bech32 pubkey).getD pubkey

/-- Insert into a set kept as a list. -/
def insertKey (key : String) (keys : List String) : List String :=
  if key ∈ keys then keys else key :: keys

/-- Remove from a set kept as a list. -/
def removeKey (key : String) (keys : List String) : List String :=
  keys.filter (· ≠ key)

/-- A whitelist. -/
structure Whitelist where
  pubkeys : List String
deriving DecidableEq

namespace Whitelist

def isAllowed (whitelist : Whitelist) (pubkey : String) (_ : Action) : Bool :=
  pubkey ∈ whitelist.pubkeys

def role (whitelist : Whitelist) (pubkey : String) : Role :=
  if whitelist.isAllowed pubkey .upload then .member else .denied

end Whitelist

/-- Explicit administrator and member sets. -/
structure RoleBasedAccess where
  admins : List String
  members : List String
deriving DecidableEq

namespace RoleBasedAccess

def role (access : RoleBasedAccess) (pubkey : String) : Role :=
  if pubkey ∈ access.admins then .admin
  else if pubkey ∈ access.members then .member
  else .denied

def isAllowed (access : RoleBasedAccess) (pubkey : String) (action : Action) : Bool :=
  match access.role pubkey with
  | .admin => true
  | .member => action ≠ .admin
  | .denied => false

/-- The in-memory half of `set_role`, on a key that is already normalized. -/
def applyRole (access : RoleBasedAccess) (pubkey role : String) : RoleBasedAccess :=
  let admins := removeKey pubkey access.admins
  let members := removeKey pubkey access.members
  if role = "admin" then ⟨insertKey pubkey admins, members⟩
  else if role = "member" then ⟨admins, insertKey pubkey members⟩
  else ⟨admins, members⟩

end RoleBasedAccess

/-- The policy a server consults.  `liveWhitelist` and `liveRoles` read the server's own handles;
`fixed` is any other implementation of the interface. -/
inductive AccessPolicy where
  | openAccess
  | liveWhitelist
  | liveRoles
  | fixed (isAllowed : String → Action → Bool) (role : String → Role)

/-- A policy's decision, given the live handles. -/
def AccessPolicy.isAllowed (policy : AccessPolicy) (whitelist : Option Whitelist)
    (roles : Option RoleBasedAccess) (pubkey : String) (action : Action) : Bool :=
  match policy with
  | .openAccess => true
  | .liveWhitelist => whitelist.any (·.isAllowed pubkey action)
  | .liveRoles => roles.any (·.isAllowed pubkey action)
  | .fixed isAllowed _ => isAllowed pubkey action

/-- A policy's role for a key, given the live handles.  Open servers grant member access only. -/
def AccessPolicy.role (policy : AccessPolicy) (whitelist : Option Whitelist)
    (roles : Option RoleBasedAccess) (pubkey : String) : Role :=
  match policy with
  | .openAccess => .member
  | .liveWhitelist => (whitelist.map (·.role pubkey)).getD .denied
  | .liveRoles => (roles.map (·.role pubkey)).getD .denied
  | .fixed _ role => role pubkey

end BlossomRs.Access

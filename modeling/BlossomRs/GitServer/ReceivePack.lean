import BlossomRs.GitServer.PktStream
import BlossomRs.GitServer.PushAuth
import BlossomRs.GitServer.Repository
import BlossomRs.GitServer.Validation

/-!
# The push endpoint

A push is authorized, its body is read and validated against the published state of the repository,
and is then handed to git as it is.  The validation is left out for a repository that is taken for
empty, which is one without an entry in `refs/heads`.

What git then does to the refs of the state is compared with what the state declares.  Git executes
commands that the server has not checked: those behind a packet without payload, those the server reads
otherwise than git, and all of them in a repository that is taken for empty.  The state is kept when the
last command for each of its refs has been checked, and every command that is hidden in one of these ways
is forwarded and executed, whatever it does (`forwarded_push_keeps_state`).  `validates_after_iff` says
which histories leave a repository that is taken for empty.

Creating and finding repositories is a function of the disk; running git is the execution of the commands
of the body.
-/

namespace BlossomRs.GitServer

open Protocol Auth Checks LastWrite

/-- The configuration of the endpoint and what it calls outside the repository. -/
structure PushServer where
  auth : Externals
  relay : Relay
  serverUrl : String

/-- The repositories on disk by owner and name, and what creating one answers. -/
structure Disk where
  find : String × String → Option Repository
  create : String × String → Except String Unit

/-- A request to the endpoint.  There is no body when it cannot be read within the limit. -/
structure PushAttempt where
  authorization : Server.Header
  npub : String
  repo : String
  uri : String
  body : Option Bytes
  permit : Bool
  claimsAt : Nat
  bodyAt : Nat

def PushAttempt.repoName (attempt : PushAttempt) : String :=
  RustStr.trimEndText ".git" attempt.repo

/-- What the authorization of the request is checked against. -/
def PushAttempt.push (srv : PushServer) (attempt : PushAttempt) (bodyHash : Option String) :
    PushRequest :=
  ⟨attempt.authorization, attempt.npub, attempt.repoName,
    RustStr.trimEndMatches '/' srv.serverUrl ++ attempt.uri, "POST", bodyHash⟩

/-- `repo_path`, below the directory of the repositories. -/
def repoPath (auth : Externals) (npub repoName : String) : Option (String × String) :=
  if repoName = "" ∨ 30 < (RustStr.asBytes repoName).length
      ∨ ¬ repoName.toList.all (fun c => c.isAlphanum || c == '-' || c == '_') then none
  else if RustStr.startsWith npub "npub1" then (auth.npubToHex npub).map (·, repoName)
  else if (RustStr.asBytes npub).length = 64 ∧ npub.toList.all Hex.IsLowerDigit then
    some (npub, repoName)
  else none

/-- The repository of a push.  A missing one is created. -/
def openRepository (auth : Externals) (disk : Disk) (npub repoName : String) :
    Except (Nat × String) Repository :=
  match repoPath auth npub repoName with
  | none => .error (400, "invalid repository owner or name")
  | some path =>
    match disk.find path, disk.create path with
    | some repo, _ => .ok repo
    | none, .ok () => .ok .bare
    | none, .error e => .error (500, e)

/-- The key that the state is looked up with. -/
def authorHex (auth : Externals) (npub : String) : Except (Nat × String) String :=
  if RustStr.startsWith npub "npub1" then okOr (auth.npubToHex npub) (400, "invalid npub") else .ok npub

/-- `is_empty_repo`. -/
def isEmptyRepo (repo : Repository) : Bool :=
  !repo.headsListed

/-- The answer to a push with rejected refs.  The order of the map stands for that of the hash map. -/
def formatErrors (errors : RefMap) : String :=
  "; ".intercalate (errors.entries.map fun error => error.1 ++ ": " ++ error.2)

/-- The validation of the endpoint. -/
def checkPush (relay : Relay) (repo : Repository) (updates : List RefUpdate)
    (author repoName : String) : Except (Nat × String) Unit :=
  if isEmptyRepo repo then .ok ()
  else do
    let errors ← validatePush relay updates author repoName
    require (errors = ∅) (403, formatErrors errors)

/-- The endpoint behind the authorization; on success the bytes that git gets. -/
def forwardPush (srv : PushServer) (disk : Disk) (npub repoName : String) (body : Bytes) :
    Except (Nat × String) Bytes := do
  let repo ← openRepository srv.auth disk npub repoName
  let updates ← (parseRefUpdates body).mapError (400, ·)
  let author ← authorHex srv.auth npub
  checkPush srv.relay repo updates author repoName
  .ok body

/-- The endpoint before the body has been authorized. -/
def readBody (srv : PushServer) (attempt : PushAttempt) : Except (Nat × String) Bytes := do
  let _ ← (verifyPushAuthClaims srv.auth attempt.claimsAt (attempt.push srv none)).mapError (401, ·)
  require (attempt.permit = true) (503, "git body capacity exhausted")
  okOr attempt.body (413, "git request body too large")

/-- `receive_pack`, up to the call of git. -/
def receivePack (srv : PushServer) (disk : Disk) (seen : Server.ReplayCache) (attempt : PushAttempt) :
    Except (Nat × String) Bytes × Server.ReplayCache :=
  match readBody srv attempt with
  | .error failure => (.error failure, seen)
  | .ok body =>
    match verifyPushAuth srv.auth attempt.bodyAt seen
        (attempt.push srv (some (sha256Hex body))) with
    | (.error e, seen) => (.error (401, e), seen)
    | (.ok _, seen) => (forwardPush srv disk attempt.npub attempt.repoName body, seen)

/-! ### What forwarding means -/

variable {repo : Repository} {updates : List RefUpdate} {repoName : String} {body : Bytes}

theorem checkPush_eq_ok_iff {relay : Relay} {author : String} :
    checkPush relay repo updates author repoName = .ok () ↔
      repo.headsListed = false ∨ ∃ state, stateEvent relay author repoName = .ok state
        ∧ ∀ update ∈ updates, checkRefUpdate update (extractStateRefs state) = .ok () := by
  unfold checkPush isEmptyRepo
  cases hlisted : repo.headsListed with
  | false => simp
  | true =>
    simp [validatePush, pushErrors_eq_empty]

theorem forwardPush_eq_ok_iff {srv : PushServer} {disk : Disk} {npub : String} {forwarded : Bytes} :
    forwardPush srv disk npub repoName body = .ok forwarded ↔
      ∃ repo updates author, openRepository srv.auth disk npub repoName = .ok repo
        ∧ parseRefUpdates body = .ok updates ∧ authorHex srv.auth npub = .ok author
        ∧ checkPush srv.relay repo updates author repoName = .ok () ∧ body = forwarded := by
  simp only [forwardPush, bind_eq_ok, mapError_eq_ok, Except.ok.injEq]
  constructor
  · rintro ⟨repo, hrepo, updates, hupdates, author, hauthor, _, hcheck, rfl⟩
    exact ⟨repo, updates, author, hrepo, hupdates, hauthor, hcheck, rfl⟩
  · rintro ⟨repo, updates, author, hrepo, hupdates, hauthor, hcheck, rfl⟩
    exact ⟨repo, hrepo, updates, hupdates, author, hauthor, (), hcheck, rfl⟩

/-- A forwarded body has passed the endpoint behind the authorization. -/
theorem forwardPush_of_receivePack {srv : PushServer} {disk : Disk} {seen : Server.ReplayCache}
    {attempt : PushAttempt} (h : (receivePack srv disk seen attempt).1 = .ok body) :
    forwardPush srv disk attempt.npub attempt.repoName body = .ok body := by
  unfold receivePack at h
  split at h
  · cases h
  · split at h
    · cases h
    · obtain ⟨repo, updates, author, -, -, -, -, rfl⟩ := forwardPush_eq_ok_iff.mp h
      exact h

/-! ### What git does to the state -/

/-- After a push, every ref of the state is as it was or as the state declares it, and none is
deleted. -/
def StateKept (stateRefs : RefMap) (before after : Repository) : Prop :=
  ∀ name oid, stateRefs.lookup name = some oid →
    (after.ref (RustStr.asBytes name) = before.ref (RustStr.asBytes name)
      ∨ after.ref (RustStr.asBytes name) = some (objectId oid))
    ∧ (before.ref (RustStr.asBytes name) ≠ none → after.ref (RustStr.asBytes name) ≠ none)

/-- A line that the validation has seen as git executes it: `refs/heads` has an entry, no packet
without payload stands before the line, and its payload is read alike. -/
structure Checked (repo : Repository) (before : List Packet) (payload : Bytes) : Prop where
  validated : repo.headsListed = true
  reached : .special ∉ before
  readAlike : ReadAlike payload

/-- The last command for each ref of the state has been checked. -/
def LastCommandsChecked (stateRefs : RefMap) (repo : Repository) (body : Bytes) : Prop :=
  ∀ name oid, stateRefs.lookup name = some oid → ∀ before payload,
    LastAt (Packet.Names (RustStr.asBytes name)) (gitPackets body) before (.line payload) →
    Checked repo before payload

/-- The delimiter packet. -/
def delimiterPacket : Bytes :=
  RustStr.asBytes "0001"

/-- The bodies in which a line has not been checked, by what is missing. -/
inductive Hidden (repo : Repository) (line : PktLine) : Bytes → Prop
  | unvalidated (hempty : repo.headsListed = false) {updates : List RefUpdate}
      (hparse : parseRefUpdates (line.bytes ++ flushPacket) = .ok updates) :
      Hidden repo line (line.bytes ++ flushPacket)
  | unreached : Hidden repo line (delimiterPacket ++ (line.bytes ++ flushPacket))
  | unread (hutf8 : RustStr.fromUtf8 line.payload = none) :
      Hidden repo line (line.bytes ++ flushPacket)

/-- A checked command of a forwarded body brings its ref where the state says. -/
theorem result_of_checked {relay : Relay} {author : String} {state : NostrEvent} {payload : Bytes}
    {before : List Packet} {command : Command} {name oid : String}
    (hparse : parseRefUpdates body = .ok updates)
    (hcheck : checkPush relay repo updates author repoName = .ok ())
    (hstate : stateEvent relay author repoName = .ok state)
    (hoid : (extractStateRefs state).lookup name = some oid)
    (hlast : LastAt (Packet.Names (RustStr.asBytes name)) (gitPackets body) before (.line payload))
    (hcommand : gitCommand? payload = some command) (hchecked : Checked repo before payload) :
    command.result = some (objectId oid) := by
  obtain ⟨⟨command', hcommand', hname'⟩, after, hpackets, -⟩ := hlast
  obtain rfl : command' = command := Option.some.inj (hcommand'.symm.trans hcommand)
  obtain ⟨update, hupdate, hnew, hname⟩ := exists_update_of_command hparse hpackets
    hchecked.reached hcommand hchecked.readAlike
  -- validation has run, so the update passed the check against this state
  obtain hempty | ⟨state', hstate', hall⟩ := checkPush_eq_ok_iff.mp hcheck
  · rw [hchecked.validated] at hempty
    cases hempty
  · obtain rfl : state' = state := Except.ok.inj (hstate'.symm.trans hstate)
    have hrefname : update.refname = name := RustStr.asBytes_injective (hname.trans hname')
    rw [← hrefname] at hoid
    obtain ⟨rfl, hnull⟩ := newOid_of_checkRefUpdate hoid (hall update hupdate)
    rw [Command.result, ← hnew, if_neg fun h => hnull (RustStr.asBytes_injective h)]
    rfl

/-- The parser stops at a delimiter packet. -/
theorem parse_delimiter (rest : Bytes) : parseRefUpdates (delimiterPacket ++ rest) = .ok [] := by
  have hdelimiter : SpellsLength delimiterPacket 1 := by decide
  rw [parseRefUpdates, if_pos (by rw [List.length_append, hdelimiter.1]; omega),
    List.take_left' hdelimiter.1, parseLength_of_spells hdelimiter]
  rfl

/-- Git reads on. -/
theorem gitPackets_delimiter (rest : Bytes) :
    gitPackets (delimiterPacket ++ rest) = .special :: gitPackets rest := by
  have hdelimiter : SpellsLength delimiterPacket 1 := by decide
  rw [gitPackets, if_pos (by rw [List.length_append, hdelimiter.1]; omega),
    List.take_left' hdelimiter.1, hdelimiter.2]
  dsimp only
  rw [if_neg one_ne_zero, if_pos (by omega), List.drop_left' hdelimiter.1]

/-- Git executes a line that is hidden last. -/
theorem Hidden.lastAt {line : PktLine} {command : Command} (h : Hidden repo line body)
    (hcommand : gitCommand? line.payload = some command) :
    ∃ before, LastAt (Packet.Names command.name) (gitPackets body) before (.line line.payload) := by
  have hline : gitPackets (line.bytes ++ flushPacket) = [.line line.payload] := by
    rw [line.gitPackets_eq, ← List.append_nil flushPacket, gitPackets_flush]
  have hnames : Packet.Names command.name (.line line.payload) := ⟨command, hcommand, rfl⟩
  cases h with
  | unvalidated | unread => exact ⟨[], hnames, [], hline, by simp⟩
  | unreached =>
    refine ⟨[.special], hnames, [], ?_, by simp⟩
    rw [gitPackets_delimiter, hline]
    rfl

/-- The validation lets a hidden line pass. -/
theorem Hidden.checkPush {relay : Relay} {author : String} {state : NostrEvent} {line : PktLine}
    (h : Hidden repo line body) (hstate : stateEvent relay author repoName = .ok state) :
    ∃ updates, parseRefUpdates body = .ok updates
      ∧ checkPush relay repo updates author repoName = .ok () := by
  cases h with
  | unvalidated hempty hparse => exact ⟨_, hparse, checkPush_eq_ok_iff.mpr (Or.inl hempty)⟩
  | unreached =>
    exact ⟨[], parse_delimiter _, checkPush_eq_ok_iff.mpr (Or.inr ⟨state, hstate, by simp⟩)⟩
  | unread hutf8 =>
    refine ⟨[], ?_, checkPush_eq_ok_iff.mpr (Or.inr ⟨state, hstate, by simp⟩)⟩
    rw [line.parse_eq, looksLikeUpdate, hutf8, if_neg Bool.false_ne_true,
      ← List.append_nil flushPacket, parse_flush]

/-- **A forwarded push keeps the published state** when the last command for each of its refs has been
checked.  A hidden command for such a ref is forwarded, whatever it is, and breaks the state unless it
brings the ref where it is or where the state declares it. -/
theorem forwarded_push_keeps_state (srv : PushServer) (disk : Disk) (attempt : PushAttempt)
    (repo : Repository) (author : String) (state : NostrEvent)
    (hrepo : openRepository srv.auth disk attempt.npub attempt.repoName = .ok repo)
    (hauthor : authorHex srv.auth attempt.npub = .ok author)
    (hstate : stateEvent srv.relay author attempt.repoName = .ok state) :
    (∀ seen body, (receivePack srv disk seen attempt).1 = .ok body →
        LastCommandsChecked (extractStateRefs state) repo body →
        StateKept (extractStateRefs state) repo (repo.receive body))
      ∧ ∀ name oid line command body, (extractStateRefs state).lookup name = some oid →
        gitCommand? line.payload = some command → command.name = RustStr.asBytes name →
        Hidden repo line body →
        forwardPush srv disk attempt.npub attempt.repoName body = .ok body
          ∧ (command.result ≠ repo.ref command.name → command.result ≠ some (objectId oid) →
            ¬ StateKept (extractStateRefs state) repo (repo.receive body)) := by
  constructor
  · intro seen body hforward hchecked name oid hoid
    obtain ⟨repo', updates, author', hrepo', hparse, hauthor', hcheck, -⟩ :=
      forwardPush_eq_ok_iff.mp (forwardPush_of_receivePack hforward)
    obtain rfl : repo' = repo := Except.ok.inj (hrepo'.symm.trans hrepo)
    obtain rfl : author' = author := Except.ok.inj (hauthor'.symm.trans hauthor)
    have hkept := ((overwrites_executePacket (RustStr.asBytes name)).run_iff_forall
      (P := fun value => value = repo'.ref (RustStr.asBytes name) ∨ value = some (objectId oid))
      (Or.inl rfl) (gitPackets body)).mpr ?_
    · refine ⟨hkept, fun hbefore => ?_⟩
      rcases hkept with hkept | hkept <;> rw [Repository.receive, hkept]
      · exact hbefore
      · exact Option.some_ne_none _
    · intro before packet hlast
      obtain ⟨command, hcommand, -⟩ := hlast.1
      cases packet with
      | special => cases hcommand
      | line payload =>
        rw [Packet.result, hcommand, Option.bind_some]
        exact Or.inr (result_of_checked hparse hcheck hstate hoid hlast hcommand
          (hchecked name oid hoid before payload hlast))
  · intro name oid line command body hoid hcommand hname hhidden
    obtain ⟨updates, hparse, hcheck⟩ := hhidden.checkPush hstate
    refine ⟨forwardPush_eq_ok_iff.mpr
      ⟨repo, updates, author, hrepo, hparse, hauthor, hcheck, rfl⟩, ?_⟩
    intro hmoved hother hkept
    obtain ⟨before, hlast⟩ := hhidden.lastAt hcommand
    have hafter : (repo.receive body).ref command.name = command.result := by
      rw [Repository.receive, (overwrites_executePacket command.name).run_lastAt hlast,
        Packet.result, Packet.command?, hcommand, Option.bind_some]
    have href := (hkept name oid hoid).1
    rw [← hname, hafter] at href
    exact href.elim hmoved hother

/-! ### A push of the owner -/

/-- The announcement of the repository. -/
def announcement : NostrEvent :=
  ownerEvent
    (0x0fb25e3940216733a033b10e81cf634c596342cfcafd02f028d59f6cb02d10c9,
      0x55621baa625bad3a8186c354503547fb83f7ede82902eabb33b0d01361597eaf)
    1000 30617 [["d", "r"]]

/-- A state that declares one branch. -/
def mainState : NostrEvent :=
  ownerEvent
    (0x52e78ec9635fd23e86d5895458f795b19d6f1117b100d8491200ee5e4f18de9d,
      0x32956d087cf73d5dded92f4f95483bcd82cf0c39642512f0545199a19f130109)
    1000 30618
    [["d", "r"], ["refs/heads/main", "2222222222222222222222222222222222222222"]]

/-- A server that knows the authorization of a push, the repository and its state. -/
def ownerServer (p : OwnerPush) : PushServer where
  auth := .knowing [p.event]
  relay := ⟨some, fun filter => some ([announcement, mainState].filter (·.kind == filter.kind)),
    fun _ => true⟩
  serverUrl := "http://h"

def ownerAttempt (p : OwnerPush) : PushAttempt :=
  ⟨some (some (authHeaderValue p.event)), testKey, "r", "/r", some p.body, true, p.time, p.time⟩

/-- A disk with one repository. -/
def diskOf (repo : Repository) : Disk :=
  ⟨fun _ => some repo, fun _ => .ok ()⟩

/-- What the endpoint's checks say of the fixed texts. -/
structure EndpointTexts : Prop where
  repoName : RustStr.trimEndText ".git" "r" = "r"
  url : RustStr.trimEndMatches '/' "http://h" ++ "/r" = "http://h/r"
  key : (RustStr.asBytes testKey).length = 64 ∧ testKey.toList.all Hex.IsLowerDigit
  name : ¬ ("r" = "" ∨ 30 < (RustStr.asBytes "r").length
    ∨ ¬ "r".toList.all (fun c => c.isAlphanum || c == '-' || c == '_'))

theorem endpointTexts : EndpointTexts := by
  constructor <;> decide

variable {p : OwnerPush}

theorem ownerAttempt_repoName (p : OwnerPush) : (ownerAttempt p).repoName = "r" :=
  endpointTexts.repoName

theorem ownerAttempt_push (p : OwnerPush) (hash : Option String) :
    (ownerAttempt p).push (ownerServer p) hash = p.request hash := by
  rw [PushAttempt.push, ownerAttempt_repoName]
  simp only [ownerAttempt, ownerServer, endpointTexts.url, OwnerPush.request]

/-- The owner's push gets past the authorization. -/
theorem receivePack_owner (repo : Repository) (htime : p.time = 1000) :
    (receivePack (ownerServer p) (diskOf repo) (.new 10000 256) (ownerAttempt p)).1
      = forwardPush (ownerServer p) (diskOf repo) testKey "r" p.body := by
  have hclaims : ∀ hash, hash = none ∨ hash = some (sha256Hex p.body) →
      verifyPushAuthClaims (ownerServer p).auth p.time ((ownerAttempt p).push (ownerServer p) hash)
        = .ok ⟨testKey, p.event.id, p.time⟩ := by
    intro hash hhash
    rw [ownerAttempt_push]
    exact verifyPushAuthClaims_owner (List.mem_singleton_self _) hhash (by omega) le_rfl (by omega)
      (by omega)
  have hread : readBody (ownerServer p) (ownerAttempt p) = .ok p.body := by
    unfold readBody
    rw [show (ownerAttempt p).claimsAt = p.time from rfl, hclaims none (Or.inl rfl)]
    rfl
  have hauth : verifyPushAuth (ownerServer p).auth (ownerAttempt p).bodyAt (.new 10000 256)
      ((ownerAttempt p).push (ownerServer p) (some (sha256Hex p.body)))
      = (.ok testKey, (markAuthEventOnce (.new 10000 256) testKey p.event.id p.time).2) := by
    have hfresh : ∀ id, (markAuthEventOnce (.new 10000 256) testKey id p.time).1 = true :=
      fun _ => rfl
    rw [show (ownerAttempt p).bodyAt = p.time from rfl, verifyPushAuth, hclaims _ (Or.inr rfl)]
    simp only [hfresh, if_true]
  unfold receivePack
  rw [hread]
  simp only [hauth, ownerAttempt_repoName]
  rfl

theorem openRepository_owner (repo : Repository) (p : OwnerPush) :
    openRepository (ownerServer p).auth (diskOf repo) testKey "r" = .ok repo := by
  have hpath : repoPath (ownerServer p).auth testKey "r" = some (testKey, "r") := by
    rw [repoPath, if_neg endpointTexts.name, ownerTexts.notNpub, if_neg Bool.false_ne_true,
      if_pos endpointTexts.key]
  rw [openRepository, hpath]
  rfl

theorem authorHex_owner (p : OwnerPush) : authorHex (ownerServer p).auth testKey = .ok testKey := by
  rw [authorHex, ownerTexts.notNpub, if_neg Bool.false_ne_true]

theorem stateEvent_owner (p : OwnerPush) :
    stateEvent (ownerServer p).relay testKey "r" = .ok mainState :=
  rfl

/-- The owner's push is forwarded when its updates pass. -/
theorem receivePack_owner_eq_ok (htime : p.time = 1000) (hparse : parseRefUpdates p.body = .ok updates)
    (hcheck : repo.headsListed = false
      ∨ ∀ update ∈ updates, checkRefUpdate update (extractStateRefs mainState) = .ok ()) :
    (receivePack (ownerServer p) (diskOf repo) (.new 10000 256) (ownerAttempt p)).1 = .ok p.body := by
  rw [receivePack_owner repo htime, forwardPush_eq_ok_iff]
  refine ⟨repo, updates, testKey, openRepository_owner repo p, hparse, authorHex_owner p, ?_, rfl⟩
  rw [checkPush_eq_ok_iff]
  rcases hcheck with hempty | hall
  · exact Or.inl hempty
  · exact Or.inr ⟨mainState, stateEvent_owner p, hall⟩

/-- A repository with a branch that is behind the state. -/
def mainRepo : Repository :=
  ⟨(∅ : AList fun _ : Bytes => Bytes).insert (RustStr.asBytes "refs/heads/main")
    (RustStr.asBytes "1111111111111111111111111111111111111111"), ∅⟩

/-- A push that brings the branch to the declared object id. -/
def honestBody : Bytes :=
  RustStr.asBytes ("00651111111111111111111111111111111111111111 "
    ++ "2222222222222222222222222222222222222222 refs/heads/main0000")

/-- An update of the branch to an object id. -/
def mainUpdate (newOid : String) : RefUpdate :=
  ⟨"1111111111111111111111111111111111111111", newOid, "refs/heads/main", none⟩

/-- A body with one line for the branch, up to the flush packet. -/
theorem parse_mainUpdate {newOid : String} (hoid : isValidSha1 newOid = true) {line : PktLine}
    (hpayload : line.payload = (mainUpdate newOid).payload false) :
    parseRefUpdates (line.bytes ++ (flushPacket ++ [])) = .ok [mainUpdate newOid] := by
  have hold : isValidSha1 "1111111111111111111111111111111111111111" = true := by decide
  have hrefs : RustStr.startsWith "refs/heads/main" "refs/" = true := by decide
  have hname : '\x00' ∉ "refs/heads/main".toList
      ∧ "refs/heads/main".toList.getLast? ≠ some '\n' := by decide
  have hsendable : Sendable (mainUpdate newOid) :=
    ⟨hold, hoid, hrefs, hname.1, hname.2, fun _ h => nomatch h⟩
  rw [parse_carried hsendable ⟨false, hpayload⟩, parse_flush]
  rfl

def honestLine : PktLine where
  digits := RustStr.asBytes "0065"
  payload := (mainUpdate "2222222222222222222222222222222222222222").payload false
  spelled := by decide

theorem honestBody_eq : honestBody = honestLine.bytes ++ (flushPacket ++ []) := by
  decide

def honestPush : OwnerPush :=
  ⟨(0x90502817dbd056d4f51895ceb76d38133a562c0189ee18812e919995831206da,
      0xd3bd611d954a93f54c040a44d79b8c0216dda1af6863d877fb407343434c3b4b), 1000, honestBody⟩

/-- It is forwarded, and keeps the state. -/
theorem honestBody_keeps_state :
    (receivePack (ownerServer honestPush) (diskOf mainRepo) (.new 10000 256)
      (ownerAttempt honestPush)).1 = .ok honestBody
    ∧ StateKept (extractStateRefs mainState) mainRepo (mainRepo.receive honestBody) := by
  have hparse : parseRefUpdates honestBody
      = .ok [mainUpdate "2222222222222222222222222222222222222222"] := by
    rw [honestBody_eq]
    exact parse_mainUpdate (by decide) rfl
  have hforward : (receivePack (ownerServer honestPush) (diskOf mainRepo) (.new 10000 256)
      (ownerAttempt honestPush)).1 = .ok honestBody :=
    receivePack_owner_eq_ok rfl hparse (Or.inr (by decide))
  refine ⟨hforward, (forwarded_push_keeps_state (ownerServer honestPush) (diskOf mainRepo)
    (ownerAttempt honestPush) mainRepo testKey mainState ?_ (authorHex_owner honestPush) ?_).1
    (.new 10000 256) honestBody hforward ?_⟩
  · rw [ownerAttempt_repoName]
    exact openRepository_owner mainRepo honestPush
  · rw [ownerAttempt_repoName]
    exact stateEvent_owner honestPush
  · intro name oid hoid before payload hlast
    -- there is one packet, and the server reads it as git does
    have hpackets : gitPackets honestBody = [.line honestLine.payload] := by
      rw [honestBody_eq, honestLine.gitPackets_eq, gitPackets_flush]
    obtain ⟨-, after, hsplit, -⟩ := hlast
    rw [hpackets] at hsplit
    obtain ⟨rfl, rfl⟩ : before = [] ∧ payload = honestLine.payload := by
      cases before with
      | nil => exact ⟨rfl, (Packet.line.inj (List.cons.inj hsplit).1).symm⟩
      | cons packet before => simp at hsplit
    exact ⟨by decide, by simp, by decide⟩

/-- The same line for another object id, with a byte behind the NUL that is not UTF-8. -/
def forgedBody : Bytes :=
  RustStr.asBytes ("00671111111111111111111111111111111111111111 "
    ++ "3333333333333333333333333333333333333333 refs/heads/main") ++ [0, 255]
    ++ RustStr.asBytes "0000"

def forgedLine : PktLine where
  digits := RustStr.asBytes "0067"
  payload := (mainUpdate "3333333333333333333333333333333333333333").payload false ++ [0, 255]
  spelled := by decide

theorem forgedBody_eq : forgedBody = forgedLine.bytes ++ (flushPacket ++ []) := by
  decide

theorem looksLikeUpdate_forgedLine : looksLikeUpdate forgedLine.payload = false := by
  have hinvalid : RustStr.fromUtf8 forgedLine.payload = none :=
    RustStr.fromUtf8_eq_none (b := 255) (by decide) (by simp [forgedLine])
  rw [looksLikeUpdate, hinvalid]

def forgedPush : OwnerPush :=
  ⟨(0x470d72094fd16428b0151e7592d30b1f08ad94549b157ef2bc92af7e1f56e139,
      0xfde5f0ad883bc7436da3126ab55bc05646241ffb8057bfa25172bcd9caef2ffb), 1000, forgedBody⟩

/-- The server skips the line, git executes it: the branch is neither as it was nor as declared. -/
theorem forgedBody_moves_branch :
    (receivePack (ownerServer forgedPush) (diskOf mainRepo) (.new 10000 256)
      (ownerAttempt forgedPush)).1 = .ok forgedBody
    ∧ ¬ StateKept (extractStateRefs mainState) mainRepo (mainRepo.receive forgedBody) := by
  constructor
  · have hparse : parseRefUpdates forgedBody = .ok [] := by
      rw [forgedBody_eq, forgedLine.parse_eq, looksLikeUpdate_forgedLine,
        if_neg Bool.false_ne_true, parse_flush]
    exact receivePack_owner_eq_ok rfl hparse (Or.inr (by simp))
  · intro hkept
    have hmain := (hkept "refs/heads/main" "2222222222222222222222222222222222222222"
      (by decide)).1
    rw [Repository.receive, forgedBody_eq, forgedLine.gitPackets_eq, gitPackets_flush] at hmain
    revert hmain
    decide

/-! ### When the validation runs -/

/-- A repository with refs validates: the endpoint runs the validation, and forwards no body with an
update that the check rejects. -/
def Validates (srv : PushServer) (repo : Repository) : Prop :=
  (∃ name, repo.ref name ≠ none) →
    isEmptyRepo repo = false
    ∧ ∀ (disk : Disk) (seen : Server.ReplayCache) (attempt : PushAttempt) (author : String)
      (state : NostrEvent) (body : Bytes) (updates : List RefUpdate),
      openRepository srv.auth disk attempt.npub attempt.repoName = .ok repo →
      authorHex srv.auth attempt.npub = .ok author →
      stateEvent srv.relay author attempt.repoName = .ok state →
      parseRefUpdates body = .ok updates →
      (∃ update ∈ updates, checkRefUpdate update (extractStateRefs state) ≠ .ok ()) →
      (receivePack srv disk seen attempt).1 ≠ .ok body

/-- **The validation runs** after a history of pushes and packings exactly when no ref is left, or
some branch was set by the last push to it and has not been packed since. -/
theorem validates_after_iff (srv : PushServer) (steps : List RefStep) :
    Validates srv (Repository.after steps) ↔ (HasLiveRef steps → HasUnpackedBranch steps) := by
  unfold Validates
  rw [exists_ref_after_iff, ← headsListed_after_iff]
  refine forall_congr' fun _ => ?_
  unfold isEmptyRepo
  rw [Bool.not_eq_false']
  constructor
  · exact fun h => h.1
  · intro hlisted
    refine ⟨hlisted, ?_⟩
    intro disk seen attempt author state body updates hrepo hauthor hstate hparse hbad hforward
    obtain ⟨repo, updates', author', hrepo', hparse', hauthor', hcheck, -⟩ :=
      forwardPush_eq_ok_iff.mp (forwardPush_of_receivePack hforward)
    obtain rfl := Except.ok.inj (hrepo'.symm.trans hrepo)
    obtain rfl := Except.ok.inj (hauthor'.symm.trans hauthor)
    obtain rfl := Except.ok.inj (hparse'.symm.trans hparse)
    obtain ⟨update, hupdate, hrejected⟩ := hbad
    obtain hempty | ⟨state', hstate', hall⟩ := checkPush_eq_ok_iff.mp hcheck
    · rw [hlisted] at hempty
      cases hempty
    · obtain rfl := Except.ok.inj (hstate'.symm.trans hstate)
      exact hrejected (hall update hupdate)

/-- The creation of a tag. -/
def tagPush : Command :=
  ⟨RustStr.asBytes nullOid, RustStr.asBytes "1111111111111111111111111111111111111111",
    RustStr.asBytes "refs/tags/v1", by decide⟩

/-- A push that the check rejects. -/
def rejectedBody : Bytes :=
  RustStr.asBytes ("00651111111111111111111111111111111111111111 "
    ++ "3333333333333333333333333333333333333333 refs/heads/main0000")

def rejectedLine : PktLine where
  digits := RustStr.asBytes "0065"
  payload := (mainUpdate "3333333333333333333333333333333333333333").payload false
  spelled := by decide

theorem rejectedBody_eq : rejectedBody = rejectedLine.bytes ++ (flushPacket ++ []) := by
  decide

def rejectedPush : OwnerPush :=
  ⟨(0x7d254b8c53e482093307444a233c0e37c8314c7c7ee986d18f7da4ef1f34f10a,
      0x5aa8100e400f32c1b696c3e6cea7b82d92bbbf81d5e49d7c0b55e4aa1bea8d80), 1000, rejectedBody⟩

/-- A repository with a tag only has a ref, and still forwards that push. -/
theorem tagged_repository_forwards :
    (Repository.after [.push tagPush]).ref (RustStr.asBytes "refs/tags/v1") ≠ none
    ∧ (∃ updates, parseRefUpdates rejectedBody = .ok updates
      ∧ ∃ update ∈ updates, checkRefUpdate update (extractStateRefs mainState) ≠ .ok ())
    ∧ (receivePack (ownerServer rejectedPush) (diskOf (Repository.after [.push tagPush]))
      (.new 10000 256) (ownerAttempt rejectedPush)).1 = .ok rejectedBody
    ∧ ¬ Validates (ownerServer rejectedPush) (Repository.after [.push tagPush]) := by
  have hparse : parseRefUpdates rejectedBody
      = .ok [mainUpdate "3333333333333333333333333333333333333333"] := by
    rw [rejectedBody_eq]
    exact parse_mainUpdate (by decide) rfl
  have href : (Repository.after [.push tagPush]).ref (RustStr.asBytes "refs/tags/v1") ≠ none := by
    decide
  have hempty : (Repository.after [.push tagPush]).headsListed = false := by decide
  refine ⟨href, ⟨_, hparse, _, List.mem_singleton_self _, by decide⟩,
    receivePack_owner_eq_ok rfl hparse (Or.inl hempty), ?_⟩
  intro hvalidates
  have hlisted := (hvalidates ⟨_, href⟩).1
  rw [isEmptyRepo, hempty] at hlisted
  cases hlisted

end BlossomRs.GitServer

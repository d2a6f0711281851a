import BlossomRs.Lib.FixedWindow
import BlossomRs.Protocol
import BlossomRs.Relay.Policy

/-!
# Events at the relay

Every event is checked against the rate of its address, then against the lists, the size and the kinds
of the policy.

The counters of the rate are exact: a call is rejected for the rate exactly when its address has had
its share of the minute, whatever other addresses do and whenever the table is cleaned
(`rate_rejected_iff`).  The rate comes before the admins, so an admin is accepted only while the address
has a share left (`admin_accepted_iff`).
-/

namespace BlossomRs.Relay

open Protocol

/-- `IpAddr`. -/
inductive IpAddr where
  | v4 (bits : BitVec 32)
  | v6 (bits : BitVec 128)
deriving DecidableEq, Repr

/-- `SocketAddr`. -/
structure SocketAddr where
  ip : IpAddr
  port : UInt16
deriving DecidableEq, Repr

/-- An event, with its encoding as JSON if it has one. -/
structure Event where
  pubkey : String
  kind : Nat
  json : Option Bytes
deriving DecidableEq, Repr

inductive PolicyResult where
  | accept
  | reject (message : String)
deriving DecidableEq, Repr

/-- `RelayPolicy` with its limits and the counters of the addresses. -/
structure EventPolicy where
  lists : RelayPolicy
  maxEventSize : Nat
  eventRatePerMin : Nat
  eventRates : AList fun _ : IpAddr => Nat × Nat

namespace EventPolicy

/-- `with_config`. -/
def withConfig (admins : List String) (maxEventSize eventRatePerMin : Nat) : EventPolicy :=
  ⟨.withConfig admins, maxEventSize, eventRatePerMin, ∅⟩

/-- `new`. -/
def new : EventPolicy :=
  withConfig [] 0 120

/-- The rate of an address: is this event within it? -/
def checkRate (policy : EventPolicy) (addr : SocketAddr) (nowSecs : Nat) : Bool × EventPolicy :=
  let minute := nowSecs / 60
  let rates := policy.eventRates
  let rates := if 10000 ≤ rates.keys.length then
      Assoc.retain (fun entry => entry.2.1 == minute) rates
    else rates
  let entry := (rates.lookup addr.ip).getD (minute, 0)
  let entry := if entry.1 ≠ minute then (minute, 0) else entry
  if policy.eventRatePerMin ≤ entry.2 then
    (false, { policy with eventRates := rates.insert addr.ip entry })
  else (true, { policy with eventRates := rates.insert addr.ip (entry.1, entry.2 + 1) })

/-- The checks that do not depend on the address. -/
def checkLists (policy : EventPolicy) (event : Event) : PolicyResult :=
  if event.pubkey ∈ policy.lists.pubkeys .admin then .accept
  else if event.pubkey ∈ policy.lists.pubkeys .blacklist then .reject "pubkey is blacklisted"
  else if policy.lists.pubkeys .whitelist ≠ ∅ ∧ event.pubkey ∉ policy.lists.pubkeys .whitelist then
    .reject "pubkey not in whitelist"
  else
    let size := (event.json.map List.length).getD 0
    if 0 < policy.maxEventSize ∧ policy.maxEventSize < size then
      .reject ("event too large: " ++ toString size ++ " bytes (max "
        ++ toString policy.maxEventSize ++ ")")
    else if event.kind ∈ policy.lists.disallowedKinds then
      .reject ("event kind " ++ toString event.kind ++ " is not allowed")
    else if policy.lists.allowedKinds ≠ ∅ ∧ event.kind ∉ policy.lists.allowedKinds then
      .reject ("event kind " ++ toString event.kind ++ " is not in allowed list")
    else .accept

/-- The message for an address beyond its rate. -/
def rateMessage : String :=
  "event rate limit exceeded"

/-- `check_event`. -/
def checkEvent (policy : EventPolicy) (event : Event) (addr : SocketAddr) (nowSecs : Nat) :
    PolicyResult × EventPolicy :=
  if 0 < policy.eventRatePerMin then
    let (within, policy) := policy.checkRate addr nowSecs
    if within then (policy.checkLists event, policy) else (.reject rateMessage, policy)
  else (policy.checkLists event, policy)

end EventPolicy

/-! ### Runs -/

/-- The calls that change the lists. -/
inductive PolicyChange where
  | addAdmin (pubkey : String)
  | addBlacklist (pubkey : String)
  | removeBlacklist (pubkey : String)
  | addWhitelist (pubkey : String)
  | removeWhitelist (pubkey : String)
  | setAllowedKinds (kinds : List Nat)
  | addAllowedKind (kind : Nat)
  | addDisallowedKind (kind : Nat)
deriving DecidableEq, Repr

def PolicyChange.apply (lists : RelayPolicy) : PolicyChange → RelayPolicy
  | addAdmin pubkey => lists.addAdmin pubkey
  | addBlacklist pubkey => lists.addBlacklist pubkey
  | removeBlacklist pubkey => lists.removePubkey .blacklist pubkey
  | addWhitelist pubkey => lists.addWhitelist pubkey
  | removeWhitelist pubkey => lists.removePubkey .whitelist pubkey
  | setAllowedKinds kinds => lists.setAllowedKinds kinds
  | addAllowedKind kind => lists.addAllowedKind kind
  | addDisallowedKind kind => lists.addDisallowedKind kind

/-- A call of the policy: an event to check, or a change of the lists. -/
inductive PolicyCall where
  | check (event : Event) (addr : SocketAddr) (nowSecs : Nat)
  | change (update : PolicyChange)
deriving DecidableEq, Repr

/-- What a call answers; a change answers nothing. -/
def PolicyCall.handle (policy : EventPolicy) : PolicyCall → Option PolicyResult × EventPolicy
  | check event addr nowSecs =>
    let (result, policy) := policy.checkEvent event addr nowSecs
    (some result, policy)
  | change update => (none, { policy with lists := update.apply policy.lists })

/-- The address and the minute of a check. -/
def PolicyCall.request : PolicyCall → Option (IpAddr × Nat)
  | check _ addr nowSecs => some (addr.ip, nowSecs / 60)
  | change _ => none

/-- How many checks of an address in a minute were not rejected for the rate. -/
def passed (ip : IpAddr) (minute : Nat) (calls : List (PolicyCall × Option PolicyResult)) : Nat :=
  calls.countP fun entry =>
    entry.1.request == some (ip, minute) && entry.2 != some (.reject EventPolicy.rateMessage)

theorem passed_cons (ip : IpAddr) (minute : Nat) (entry : PolicyCall × Option PolicyResult)
    (calls : List (PolicyCall × Option PolicyResult)) :
    passed ip minute (entry :: calls) = passed ip minute calls
      + if entry.1.request == some (ip, minute)
          && entry.2 != some (.reject EventPolicy.rateMessage) then 1 else 0 :=
  List.countP_cons

/-- The times of the checks do not decrease. -/
def Chronological (calls : List PolicyCall) : Prop :=
  calls.Pairwise fun a b => ∀ event addr nowSecs event' addr' nowSecs',
    a = .check event addr nowSecs → b = .check event' addr' nowSecs' → nowSecs ≤ nowSecs'

/-! ### The rate -/

open Runs

namespace EventPolicy

theorem checkRate_eq (policy : EventPolicy) (addr : SocketAddr) (nowSecs : Nat) :
    policy.checkRate addr nowSecs =
      let (within, rates) := FixedWindow.hit 10000 policy.eventRatePerMin policy.eventRates
        (addr.ip, nowSecs / 60)
      (within, { policy with eventRates := rates }) := by
  -- both sides branch on the same entry of the swept table
  have hbranch : ∀ (rates : FixedWindow.Table IpAddr) (entry : Nat × Nat),
      (if policy.eventRatePerMin ≤ entry.2 then
          (false, { policy with eventRates := rates.insert addr.ip entry })
        else (true, { policy with eventRates := rates.insert addr.ip (entry.1, entry.2 + 1) }))
      = let (within, rates) := if policy.eventRatePerMin ≤ entry.2 then
            (false, rates.insert addr.ip entry)
          else (true, rates.insert addr.ip (entry.1, entry.2 + 1))
        (within, { policy with eventRates := rates }) := by
    intro rates entry
    split <;> rfl
  exact hbranch _ _

/-- No other check rejects with the message of the rate. -/
theorem checkLists_ne (policy : EventPolicy) (event : Event) :
    policy.checkLists event ≠ .reject rateMessage := by
  have hkind : ∀ rest : String, "event kind " ++ rest ≠ rateMessage := by
    intro rest h
    have hprefix := congrArg (fun text => text.toList.take 7) h
    simp [rateMessage] at hprefix
  have hsize : ∀ rest : String, "event too large: " ++ rest ≠ rateMessage := by
    intro rest h
    have hprefix := congrArg (fun text => text.toList.take 7) h
    simp [rateMessage] at hprefix
  unfold checkLists
  intro h
  split at h
  · cases h
  split at h
  · exact absurd (PolicyResult.reject.inj h) (by decide)
  split at h
  · exact absurd (PolicyResult.reject.inj h) (by decide)
  simp only at h
  split at h
  · simp only [String.append_assoc] at h
    exact hsize _ (PolicyResult.reject.inj h)
  split at h
  · rw [String.append_assoc] at h
    exact hkind _ (PolicyResult.reject.inj h)
  split at h
  · rw [String.append_assoc] at h
    exact hkind _ (PolicyResult.reject.inj h)
  · cases h

/-- **What a check does under a rate.** -/
theorem checkEvent_spec {policy : EventPolicy} (hrate : 0 < policy.eventRatePerMin) (event : Event)
    (addr : SocketAddr) (nowSecs : Nat) :
    let request := FixedWindow.hit 10000 policy.eventRatePerMin policy.eventRates
      (addr.ip, nowSecs / 60)
    (policy.checkEvent event addr nowSecs).2 = { policy with eventRates := request.2 }
      ∧ ((policy.checkEvent event addr nowSecs).1 = .reject rateMessage ↔ request.1 = false) := by
  intro request
  unfold checkEvent
  rw [if_pos hrate, checkRate_eq]
  cases hwithin : request.1 with
  | false => simp [request] at hwithin ⊢; simp [hwithin]
  | true => simp [request] at hwithin ⊢; simp [hwithin, checkLists_ne]

end EventPolicy

/-- The rate is not changed by a call. -/
theorem eventRatePerMin_handle (policy : EventPolicy) (call : PolicyCall) :
    (call.handle policy).2.eventRatePerMin = policy.eventRatePerMin := by
  cases call with
  | change update => rfl
  | check event addr nowSecs =>
    by_cases hrate : 0 < policy.eventRatePerMin
    · have hnext := (EventPolicy.checkEvent_spec hrate event addr nowSecs).1
      exact (congrArg EventPolicy.eventRatePerMin hnext :)
    · simp [PolicyCall.handle, EventPolicy.checkEvent, hrate]

theorem eventRatePerMin_after (policy : EventPolicy) (calls : List PolicyCall) :
    (after PolicyCall.handle policy calls).eventRatePerMin = policy.eventRatePerMin := by
  induction calls generalizing policy with
  | nil => rfl
  | cons call calls ih => rw [after_cons, ih, eventRatePerMin_handle]

/-- **The counters of a run are those of its checks**, and the checks that pass the rate are the ones
they grant. -/
theorem rates_of_run {policy : EventPolicy} (hrate : 0 < policy.eventRatePerMin)
    (calls : List PolicyCall) (ip : IpAddr) (minute : Nat) :
    let hit := FixedWindow.hit 10000 policy.eventRatePerMin
    let requests := calls.filterMap PolicyCall.request
    (after PolicyCall.handle policy calls).eventRates = after hit policy.eventRates requests
      ∧ passed ip minute (log PolicyCall.handle policy calls)
        = FixedWindow.granted ip minute (log hit policy.eventRates requests) := by
  induction calls generalizing policy with
  | nil => exact ⟨rfl, rfl⟩
  | cons call calls ih =>
    have hkept := eventRatePerMin_handle policy call
    have hrest := ih (hkept.symm ▸ hrate)
    rw [hkept] at hrest
    cases call with
    | change update => exact hrest
    | check event addr nowSecs =>
      obtain ⟨hnext, hanswer⟩ := EventPolicy.checkEvent_spec hrate event addr nowSecs
      have hrates : ((PolicyCall.check event addr nowSecs).handle policy).2.eventRates
          = (FixedWindow.hit 10000 policy.eventRatePerMin policy.eventRates
            (addr.ip, nowSecs / 60)).2 := congrArg EventPolicy.eventRates hnext
      rw [hrates] at hrest
      refine ⟨hrest.1, ?_⟩
      -- the check passes exactly when it is granted
      have hpasses : (((PolicyCall.check event addr nowSecs).handle policy).1
          != some (.reject EventPolicy.rateMessage))
          = (FixedWindow.hit 10000 policy.eventRatePerMin policy.eventRates
            (addr.ip, nowSecs / 60)).1 := by
        rw [Bool.eq_iff_iff, bne_iff_ne, ne_eq]
        simp only [PolicyCall.handle, Option.some.injEq]
        rw [hanswer, Bool.not_eq_false]
      have hentry : ((PolicyCall.check event addr nowSecs).request == some (ip, minute)
          && ((PolicyCall.check event addr nowSecs).handle policy).1
            != some (.reject EventPolicy.rateMessage))
          = ((FixedWindow.hit 10000 policy.eventRatePerMin policy.eventRates
              (addr.ip, nowSecs / 60)).1 && (addr.ip, nowSecs / 60) == (ip, minute)) := by
        rw [hpasses, Bool.and_comm]
        rfl
      have hrequests : (PolicyCall.check event addr nowSecs :: calls).filterMap
          PolicyCall.request
          = (addr.ip, nowSecs / 60) :: calls.filterMap PolicyCall.request := rfl
      rw [log, passed_cons, hrest.2, hrequests, log, FixedWindow.granted_cons]
      simp only [hentry]

variable {calls : List PolicyCall}

theorem pairwise_requests (h : Chronological calls) :
    (calls.filterMap PolicyCall.request).Pairwise fun a b => a.2 ≤ b.2 := by
  refine List.pairwise_filterMap.mpr (h.imp ?_)
  intro a b hle request hrequest request' hrequest'
  cases a with
  | change update => cases hrequest
  | check event addr nowSecs =>
    cases b with
    | change update => cases hrequest'
    | check event' addr' nowSecs' =>
      obtain rfl := Option.some.inj hrequest
      obtain rfl := Option.some.inj hrequest'
      exact Nat.div_le_div_right (hle _ _ _ _ _ _ rfl rfl)

/-- **The rate is exact**: a check is rejected for the rate exactly when as many earlier checks of its
address as the rate allows were not, in the same minute. -/
theorem rate_rejected_iff (lists : RelayPolicy) (maxEventSize eventRatePerMin : Nat)
    (hrate : 0 < eventRatePerMin) (calls : List PolicyCall) (hordered : Chronological calls)
    (pre post : List PolicyCall) (event : Event) (addr : SocketAddr) (nowSecs : Nat)
    (hsplit : calls = pre ++ .check event addr nowSecs :: post) :
    let start : EventPolicy := ⟨lists, maxEventSize, eventRatePerMin, ∅⟩
    ((after PolicyCall.handle start pre).checkEvent event addr nowSecs).1
        = .reject EventPolicy.rateMessage
      ↔ passed addr.ip (nowSecs / 60) (log PolicyCall.handle start pre) = eventRatePerMin := by
  intro start
  have hkept : (after PolicyCall.handle start pre).eventRatePerMin = eventRatePerMin :=
    eventRatePerMin_after start pre
  have hstart : 0 < start.eventRatePerMin := hrate
  obtain ⟨hrates, hpassed⟩ := rates_of_run hstart pre addr.ip (nowSecs / 60)
  have hspec := (EventPolicy.checkEvent_spec (hkept.symm ▸ hrate) event addr nowSecs).2
  have hrequests : (pre.filterMap PolicyCall.request ++ [(addr.ip, nowSecs / 60)]).Pairwise
      fun a b => a.2 ≤ b.2 := by
    have hpre : Chronological (pre ++ [.check event addr nowSecs]) :=
      hordered.sublist (by rw [hsplit]; simp)
    have hpairs := pairwise_requests hpre
    rwa [List.filterMap_append] at hpairs
  rw [hspec, hkept, hrates, hpassed]
  exact FixedWindow.refused_iff hrequests

/-- A note from an address. -/
def note (pubkey : String) (nowSecs : Nat) : PolicyCall :=
  .check ⟨pubkey, 1, none⟩ ⟨.v4 0, 80⟩ nowSecs

theorem second_note_is_rejected :
    let start := EventPolicy.withConfig [] 0 1
    ((after PolicyCall.handle start [note "a" 60]).checkEvent ⟨"b", 1, none⟩ ⟨.v4 0, 81⟩ 119).1
      = .reject EventPolicy.rateMessage := by
  have hordered : Chronological [note "a" 60, .check ⟨"b", 1, none⟩ ⟨.v4 0, 81⟩ 119] := by
    refine List.pairwise_pair.mpr ?_
    rintro _ _ _ _ _ _ ⟨⟩ ⟨⟩
    decide
  exact (rate_rejected_iff (.withConfig []) 0 1 one_pos _ hordered [note "a" 60] [] _ _ _ rfl).mpr
    (by decide)

/-! ### Admins -/

/-- **An admin is accepted** exactly when there is no rate, or the counter of the address has not
reached it in this minute. -/
theorem admin_accepted_iff (admins : List String) (maxEventSize eventRatePerMin : Nat)
    (calls : List PolicyCall) (event : Event) (addr : SocketAddr) (nowSecs : Nat) :
    let policy := after PolicyCall.handle (.withConfig admins maxEventSize eventRatePerMin) calls
    event.pubkey ∈ policy.lists.pubkeys .admin →
      ((policy.checkEvent event addr nowSecs).1 = .accept
        ↔ eventRatePerMin = 0
          ∨ FixedWindow.tally policy.eventRates addr.ip (nowSecs / 60) < eventRatePerMin) := by
  intro policy hadmin
  have hkept : policy.eventRatePerMin = eventRatePerMin := eventRatePerMin_after _ calls
  have haccept : ∀ rates, { policy with eventRates := rates }.checkLists event = .accept :=
    fun rates => if_pos hadmin
  rw [← hkept]
  by_cases hrate : 0 < policy.eventRatePerMin
  · have hanswer := (FixedWindow.tally_hit 10000 policy.eventRatePerMin policy.eventRates addr.ip
      addr.ip (nowSecs / 60)).1
    unfold EventPolicy.checkEvent
    rw [if_pos hrate, EventPolicy.checkRate_eq]
    simp only [hanswer, haccept]
    by_cases hbelow : FixedWindow.tally policy.eventRates addr.ip (nowSecs / 60)
        < policy.eventRatePerMin
    · simp [hbelow]
    · simp [hbelow, hrate.ne']
  · have hzero : policy.eventRatePerMin = 0 := Nat.eq_zero_of_not_pos hrate
    unfold EventPolicy.checkEvent
    rw [if_neg hrate]
    exact iff_of_true (haccept policy.eventRates) (Or.inl hzero)

theorem first_admin_note_is_accepted :
    ((EventPolicy.withConfig ["a"] 10 1).checkEvent ⟨"a", 1, some (List.replicate 11 0)⟩ ⟨.v4 0, 80⟩
      60).1 = .accept :=
  (admin_accepted_iff ["a"] 10 1 [] ⟨"a", 1, some (List.replicate 11 0)⟩ ⟨.v4 0, 80⟩ 60
    (by decide)).mpr (Or.inr (by decide))

/-- The second note of an admin in a minute is rejected. -/
theorem second_admin_note_is_rejected :
    let policy := after PolicyCall.handle (.withConfig ["a"] 0 1) [note "a" 60]
    "a" ∈ policy.lists.pubkeys .admin
      ∧ (policy.checkEvent ⟨"a", 1, none⟩ ⟨.v4 0, 80⟩ 61).1
        = .reject "event rate limit exceeded" := by
  decide

end BlossomRs.Relay

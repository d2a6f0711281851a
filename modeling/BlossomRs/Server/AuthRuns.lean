import BlossomRs.Auth.Binding
import BlossomRs.Server.Presigned
import BlossomRs.Server.ReplayRefinement

/-!
# Checks of authorization events over time

A run of checks shares one replay cache.  A check that looks at an event's claims and then uses its id
up is `GuardedCheck`; with a clock that does not run backwards it lets no event pass twice while the
event is remembered (`GuardedCheck.refuses`).

An event is fresh for at most ninety seconds, and it is remembered for a hundred and twenty, so a
second presentation finds it either too old or still remembered.
-/

namespace BlossomRs.Server

open Protocol Auth ReplayWindow

section Guarded

variable {α ε ρ : Type}

/-- A check forgets an id that has not expired, for one of the cache's limits. -/
def EvictsForLimit (step : ReplayCache → α → Except ε ρ × ReplayCache) (seen : ReplayCache)
    (check : α) (now : SystemTime) (id : String) : Prop :=
  id ∈ (seen.pruneExpired now.secs).entries ∧ id ∉ (step seen check).2.entries

/-- A check that passes if its claims hold, which says that the event it carries is fresh, and the
cache has not seen the event. -/
structure GuardedCheck (step : ReplayCache → α → Except ε ρ × ReplayCache)
    (claims : α → Option (Attempt String String)) (time : α → SystemTime)
    (Carries : α → NostrEvent → Prop) : Prop where
  step_eq : ∀ seen check, ((step seen check).1.isOk, (step seen check).2)
    = guarded ReplayCache.call claims seen check
  claims_eq : ∀ {check attempt}, claims check = some attempt → ∃ event, Carries check event
    ∧ checkFreshness (time check).secs event = .ok ()
    ∧ attempt = ⟨event.pubkey, event.id, (time check).secs⟩

/-- Two times at which an event is fresh are less than a cache lifetime apart. -/
theorem lt_of_checkFreshness {event : NostrEvent} {first again : SystemTime}
    (hfirst : checkFreshness first.secs event = .ok ())
    (hagain : checkFreshness again.secs event = .ok ()) :
    again.secs < saturatingAdd first.secs 120 := by
  obtain ⟨hfuture, -⟩ := checkFreshness_eq_ok_iff.mp hfirst
  obtain ⟨-, hage⟩ := checkFreshness_eq_ok_iff.mp hagain
  have hrange := again.secs_lt
  unfold saturatingAdd at *
  omega

namespace GuardedCheck

variable {step : ReplayCache → α → Except ε ρ × ReplayCache}
  {claims : α → Option (Attempt String String)} {time : α → SystemTime}
  {Carries : α → NostrEvent → Prop} (h : GuardedCheck step claims time Carries)
include h

theorem passes (seen : ReplayCache) (check : α) :
    (step seen check).1.isOk = (guarded ReplayCache.call claims seen check).1 :=
  congrArg Prod.fst (h.step_eq seen check)

theorem after_eq (seen : ReplayCache) (checks : List α) :
    Runs.after step seen checks = Runs.after (guarded ReplayCache.call claims) seen checks := by
  induction checks generalizing seen with
  | nil => rfl
  | cons check checks ih => rw [Runs.after_cons, Runs.after_cons, ← h.step_eq, ih]

/-- What passed had claims that hold. -/
theorem claims_of_isOk {seen : ReplayCache} {check : α} (hok : (step seen check).1.isOk = true) :
    ∃ attempt, claims check = some attempt := by
  rw [h.passes, guarded] at hok
  cases hclaims : claims check with
  | none =>
    rw [hclaims] at hok
    cases hok
  | some attempt => exact ⟨attempt, rfl⟩

/-- **An event that passed does not pass again**, unless a limit of the cache made it forget the
event in between. -/
theorem refuses {seen : ReplayCache} {first again : α} {mid : List α} {event : NostrEvent}
    (hclock : (first :: mid ++ [again]).Pairwise fun x y => (time x).secs ≤ (time y).secs)
    (hok : (step seen first).1.isOk = true) (hfirst : ∀ e, Carries first e → e = event)
    (hagain : ∀ e, Carries again e → e = event)
    (hkept : ∀ pre check post, mid = pre ++ check :: post →
      ¬ EvictsForLimit step (Runs.after step seen (first :: pre)) check (time check) event.id) :
    (step (Runs.after step seen (first :: mid)) again).1.isOk = false := by
  by_contra hpassed
  rw [Bool.not_eq_false] at hpassed
  obtain ⟨_, ha⟩ := h.claims_of_isOk hok
  obtain ⟨_, ha'⟩ := h.claims_of_isOk hpassed
  obtain ⟨e, he, hfresh, rfl⟩ := h.claims_eq ha
  obtain ⟨e', he', hfresh', rfl⟩ := h.claims_eq ha'
  obtain rfl := hfirst e he
  obtain rfl := hagain e' he'
  rw [h.passes] at hok
  rw [h.passes, h.after_eq] at hpassed
  refine absurd hpassed (ne_true_of_eq_false (ReplayCache.memoryLaws.guard_refuses ha hok ha' rfl
    (lt_of_checkFreshness hfresh hfresh') ?_ ?_))
  · intro check hcheck attempt hattempt
    obtain ⟨_, -, -, rfl⟩ := h.claims_eq hattempt
    exact (List.pairwise_append.mp hclock).2.2 check (List.mem_cons_of_mem _ hcheck) again
      List.mem_cons_self
  · rintro pre check post hsplit attempt hattempt ⟨hthere, hgone⟩
    refine hkept pre check post hsplit ⟨?_, ?_⟩
    · obtain ⟨_, -, -, rfl⟩ := h.claims_eq hattempt
      rw [h.after_eq]
      exact hthere
    · rw [h.after_eq, congrArg Prod.snd (h.step_eq _ check), guarded, hattempt]
      exact hgone

/-- A check on an empty cache passes if its claims hold. -/
theorem isOk_of_claims {check : α} {a : Attempt String String} (hclaims : claims check = some a) :
    (step (.new 10000 256) check).1.isOk = true := by
  rw [h.passes, guarded, hclaims]
  rfl

/-- A cache that remembers one id has room for another. -/
theorem keeps_first {first : α} {a : Attempt String String} (hfirst : claims first = some a)
    (check : α) :
    ¬ EvictsForLimit step (Runs.after step (.new 10000 256) [first]) check (time check) a.id := by
  have hseen : Runs.after step (.new 10000 256) [first]
      = (ReplayCache.new 10000 256).push a.principal a.id (saturatingAdd a.now 120) := by
    rw [h.after_eq, Runs.after_cons, guarded, hfirst]
    rfl
  have hnew : a.id ∉ (ReplayCache.new 10000 256).entries := by simp [ReplayCache.new]
  have htracks := ReplayCache.push_tracks (ReplayCache.tracks_new 10000 256) hnew
    (by simp [ReplayCache.new]) a.principal (saturatingAdd a.now 120)
  rintro ⟨hthere, hgone⟩
  rw [congrArg Prod.snd (h.step_eq _ check), guarded, hseen] at hgone
  rw [hseen] at hthere
  cases hclaims : claims check with
  | none =>
    rw [hclaims] at hgone
    exact hgone ((AList.mem_insert _).mpr (Or.inl rfl))
  | some b =>
    rw [hclaims] at hgone
    obtain ⟨_, -, -, rfl⟩ := h.claims_eq hclaims
    refine hgone (htracks.mem_checkAndInsert ?_ (by decide : 1 < 10000) hthere)
    exact lt_of_le_of_lt List.countP_le_length (by decide : 1 < 256)

end GuardedCheck

end Guarded

/-! ### The server's check -/

/-- One check of an event for a request.  The claims and the cache read the same time. -/
structure AuthCheck where
  event : NostrEvent
  expected : Expectation
  baseUrl : String
  now : SystemTime

/-- The check, on the cache before it. -/
def authCheck (ext : Externals) (seen : ReplayCache) (check : AuthCheck) :
    Except AuthError Unit × ReplayCache :=
  verifyAuthEvent ext check.now.secs check.now.secs seen check.event check.expected.action
    check.baseUrl check.expected.path check.expected.method check.expected.hash

/-- What a check presents to the cache, if its claims hold. -/
def AuthCheck.claims (secp : Secp256k1) (check : AuthCheck) : Option (Attempt String String) :=
  if Accepts secp check.baseUrl check.event check.expected check.now.secs then
    some ⟨check.event.pubkey, check.event.id, check.now.secs⟩
  else none

theorem AuthCheck.claims_eq_some {secp : Secp256k1} {check : AuthCheck}
    {attempt : Attempt String String} (h : check.claims secp = some attempt) :
    Accepts secp check.baseUrl check.event check.expected check.now.secs
      ∧ attempt = ⟨check.event.pubkey, check.event.id, check.now.secs⟩ := by
  unfold AuthCheck.claims at h
  split at h
  · rename_i haccepts
    exact ⟨haccepts, (Option.some.inj h).symm⟩
  · cases h

/-- An accepted event is fresh. -/
theorem checkFreshness_of_accepts {secp : Secp256k1} {baseUrl : String} {event : NostrEvent}
    {request : Expectation} {now : Nat} (h : Accepts secp baseUrl event request now) :
    checkFreshness now event = .ok () := by
  rcases h.kinds with ⟨-, h⟩ | ⟨-, h⟩
  · exact (verifyBlossomAuthBound_eq_ok_iff.mp h).1.2.1
  · exact (verifyNip98AuthWithPayload_eq_ok_iff.mp h).2.1

theorem guardedCheck_authCheck (ext : Externals) :
    GuardedCheck (authCheck ext) (AuthCheck.claims ext.secp) AuthCheck.now
      fun check event => event = check.event where
  step_eq seen check := by
    by_cases h : Accepts ext.secp check.baseUrl check.event check.expected check.now.secs
    · have hclaims : check.claims ext.secp
          = some ⟨check.event.pubkey, check.event.id, check.now.secs⟩ := if_pos h
      have hverified : authCheck ext seen check
          = markAuthEventOnce seen check.now.secs check.event := by
        unfold Accepts at h
        rw [authCheck, verifyAuthEvent, h]
      rw [hverified, guarded, hclaims, markAuthEventOnce]
      refine Prod.ext ?_ rfl
      dsimp only [ReplayCache.call]
      split <;> simp [Except.isOk, Except.toBool, *]
    · have hclaims : check.claims ext.secp = none := if_neg h
      unfold Accepts at h
      rw [authCheck, verifyAuthEvent, guarded, hclaims]
      split
      · rename_i hok
        exact absurd hok h
      · rfl
  claims_eq {check attempt} hclaims := by
    obtain ⟨haccepts, hattempt⟩ := AuthCheck.claims_eq_some hclaims
    exact ⟨_, rfl, checkFreshness_of_accepts haccepts, hattempt⟩

end BlossomRs.Server

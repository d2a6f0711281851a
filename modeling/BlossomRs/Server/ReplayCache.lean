import Mathlib.Data.List.AList
import BlossomRs.Auth

/-!
# The replay cache

Accepted events are remembered by id until they expire, within a bound for each principal and one
for all.  Ids are queued by age (`insertionOrder`) and, for each principal, in `byPrincipal`.

What has expired is forgotten before a new id is looked up, so a cache in which everything has
lapsed takes any event (`markAuthEventOnce_of_lapsed`).
-/

namespace BlossomRs.Server

open Protocol Auth

structure ReplayEntry where
  principal : String
  expiresAt : Nat
deriving DecidableEq

structure ReplayCache where
  entries : AList fun _ : String => ReplayEntry
  insertionOrder : List String
  byPrincipal : AList fun _ : String => List String
  capacity : Nat
  perPrincipal : Nat

namespace ReplayCache

/-- `ReplayCache::new`. -/
def new (capacity perPrincipal : Nat) : ReplayCache where
  entries := ∅
  insertionOrder := []
  byPrincipal := ∅
  capacity := capacity
  perPrincipal := perPrincipal

/-- `ReplayCache::remove`.  The age queue is left alone. -/
def remove (cache : ReplayCache) (eventId : String) : ReplayCache :=
  match cache.entries.lookup eventId with
  | none => cache
  | some entry =>
    let cache := { cache with entries := cache.entries.erase eventId }
    match cache.byPrincipal.lookup entry.principal with
    | none => cache
    | some ids =>
      let ids := ids.filter (· ≠ eventId)
      if ids.isEmpty then
        { cache with byPrincipal := cache.byPrincipal.erase entry.principal }
      else { cache with byPrincipal := cache.byPrincipal.insert entry.principal ids }

/-- The pruning loop, on the age queue that is left. -/
def pruneFrom (now : Nat) : List String → ReplayCache → ReplayCache
  | [], cache => { cache with insertionOrder := [] }
  | eventId :: rest, cache =>
    match cache.entries.lookup eventId with
    | none => pruneFrom now rest cache
    | some entry =>
      if entry.expiresAt ≤ now then pruneFrom now rest (cache.remove eventId)
      else { cache with insertionOrder := eventId :: rest }

/-- `ReplayCache::prune_expired`. -/
def pruneExpired (cache : ReplayCache) (now : Nat) : ReplayCache :=
  pruneFrom now cache.insertionOrder cache

/-- The loop that makes room for one more id of a principal.  Each round pops one id of the
principal's queue, so its length bounds the rounds. -/
def evictPrincipal (principal : String) : Nat → ReplayCache → ReplayCache
  | 0, cache => cache
  | rounds + 1, cache =>
    match cache.byPrincipal.lookup principal with
    | some (oldest :: rest) =>
      if cache.perPrincipal ≤ rest.length + 1 then
        evictPrincipal principal rounds
          ({ cache with byPrincipal := cache.byPrincipal.insert principal rest }.remove oldest)
      else cache
    | _ => cache

/-- The loop that makes room for one more id overall, on the age queue that is left. -/
def evictFrom : List String → ReplayCache → ReplayCache
  | [], cache => { cache with insertionOrder := [] }
  | oldest :: rest, cache =>
    if cache.capacity ≤ cache.entries.keys.length then evictFrom rest (cache.remove oldest)
    else { cache with insertionOrder := oldest :: rest }

/-- The entry and both queues receive the id. -/
def push (cache : ReplayCache) (principal eventId : String) (expiresAt : Nat) : ReplayCache :=
  { cache with
    entries := cache.entries.insert eventId ⟨principal, expiresAt⟩
    insertionOrder := cache.insertionOrder ++ [eventId]
    byPrincipal := cache.byPrincipal.insert principal
      ((cache.byPrincipal.lookup principal).getD [] ++ [eventId]) }

/-- `ReplayCache::check_and_insert`: false for an id that is still remembered. -/
def checkAndInsert (cache : ReplayCache) (principal eventId : String) (now expiresAt : Nat) :
    Bool × ReplayCache :=
  let cache := cache.pruneExpired now
  if eventId ∈ cache.entries then (false, cache)
  else
    let queued := ((cache.byPrincipal.lookup principal).getD []).length
    let cache := evictPrincipal principal queued cache
    let cache := evictFrom cache.insertionOrder cache
    (true, cache.push principal eventId expiresAt)

end ReplayCache

/-- The limits of the process-wide cache. -/
def replayCacheCapacity : Nat :=
  10000

def replayCachePerPrincipal : Nat :=
  256

/-- The process-wide cache before the first event. -/
def seenAuthEvents : ReplayCache :=
  ReplayCache.new replayCacheCapacity replayCachePerPrincipal

/-- `mark_auth_event_once`. -/
def markAuthEventOnce (seen : ReplayCache) (now : Nat) (event : NostrEvent) :
    Except AuthError Unit × ReplayCache :=
  let (fresh, seen) := seen.checkAndInsert event.pubkey event.id now (saturatingAdd now 120)
  (if fresh then .ok () else .error .replay, seen)

namespace ReplayCache

/-! ### Forgetting -/

/-- Everything remembered has expired by the given time, and is queued to be forgotten. -/
def Lapsed (cache : ReplayCache) (now : Nat) : Prop :=
  ∀ id entry, cache.entries.lookup id = some entry →
    entry.expiresAt ≤ now ∧ id ∈ cache.insertionOrder

theorem lookup_remove (cache : ReplayCache) (eventId id : String) :
    (cache.remove eventId).entries.lookup id
      = if id = eventId then none else cache.entries.lookup id := by
  have herase : (cache.entries.erase eventId).lookup id
      = if id = eventId then none else cache.entries.lookup id := by
    by_cases h : id = eventId
    · rw [if_pos h, h, AList.lookup_erase]
    · rw [if_neg h, AList.lookup_erase_ne h]
  unfold remove
  split
  · rename_i hnone
    split
    · rename_i h
      rw [h, hnone]
    · rfl
  · rw [← herase]
    dsimp only
    repeat' split
    all_goals rfl

variable {now : Nat} {cache : ReplayCache} {id : String} {entry : ReplayEntry}

/-- Pruning forgets everything that has expired and is still queued. -/
theorem lookup_pruneFrom (queue : List String)
    (h : ∀ id entry, cache.entries.lookup id = some entry → entry.expiresAt ≤ now ∧ id ∈ queue)
    (id : String) : (pruneFrom now queue cache).entries.lookup id = none := by
  induction queue generalizing cache with
  | nil =>
    rw [Option.eq_none_iff_forall_not_mem]
    intro entry hentry
    exact absurd (h id entry hentry).2 (by simp)
  | cons eventId rest ih =>
    unfold pruneFrom
    split
    · rename_i hnone
      refine ih ?_
      intro other entry hother
      obtain ⟨hexpired, hqueued⟩ := h other entry hother
      refine ⟨hexpired, (List.mem_cons.mp hqueued).resolve_left ?_⟩
      rintro rfl
      rw [hnone] at hother
      cases hother
    · rename_i entry hentry
      rw [if_pos (h eventId entry hentry).1]
      refine ih ?_
      intro other otherEntry hother
      rw [lookup_remove] at hother
      split at hother
      · cases hother
      · rename_i hne
        obtain ⟨hexpired, hqueued⟩ := h other otherEntry hother
        exact ⟨hexpired, (List.mem_cons.mp hqueued).resolve_left hne⟩

/-- Pruning leaves what has not expired. -/
theorem lookup_pruneFrom_of_lt (queue : List String) (h : cache.entries.lookup id = some entry)
    (hlive : now < entry.expiresAt) :
    (pruneFrom now queue cache).entries.lookup id = some entry := by
  induction queue generalizing cache with
  | nil => exact h
  | cons eventId rest ih =>
    unfold pruneFrom
    split
    · exact ih h
    · rename_i other hother
      split
      · rename_i hexpired
        refine ih ?_
        rw [lookup_remove, if_neg]
        · exact h
        rintro rfl
        obtain rfl : entry = other := Option.some.inj (h.symm.trans hother)
        exact absurd hexpired (not_le.mpr hlive)
      · exact h

/-- Making room only forgets. -/
theorem lookup_of_lookup_evictPrincipal (principal : String) (rounds : Nat)
    (h : (evictPrincipal principal rounds cache).entries.lookup id = some entry) :
    cache.entries.lookup id = some entry := by
  induction rounds generalizing cache with
  | zero => exact h
  | succ rounds ih =>
    unfold evictPrincipal at h
    split at h
    · split at h
      · have hremoved := ih h
        rw [lookup_remove] at hremoved
        split at hremoved
        · cases hremoved
        · exact hremoved
      · exact h
    · exact h

theorem lookup_of_lookup_evictFrom (queue : List String)
    (h : (evictFrom queue cache).entries.lookup id = some entry) :
    cache.entries.lookup id = some entry := by
  induction queue generalizing cache with
  | nil => exact h
  | cons oldest rest ih =>
    unfold evictFrom at h
    split at h
    · have hremoved := ih h
      rw [lookup_remove] at hremoved
      split at hremoved
      · cases hremoved
      · exact hremoved
    · exact h

/-- What is remembered after an accepted id: the id itself, and part of what was remembered once the
expired ids were gone. -/
theorem checkAndInsert_of_notMem {eventId : String} (principal : String) (expiresAt : Nat)
    (hnew : eventId ∉ (cache.pruneExpired now).entries) :
    (cache.checkAndInsert principal eventId now expiresAt).1 = true
      ∧ (cache.checkAndInsert principal eventId now expiresAt).2.entries.lookup eventId
        = some ⟨principal, expiresAt⟩
      ∧ eventId ∈ (cache.checkAndInsert principal eventId now expiresAt).2.insertionOrder
      ∧ ∀ id entry, id ≠ eventId →
        (cache.checkAndInsert principal eventId now expiresAt).2.entries.lookup id = some entry →
        (cache.pruneExpired now).entries.lookup id = some entry := by
  unfold checkAndInsert
  dsimp only
  rw [if_neg hnew]
  refine ⟨rfl, by simp [push], by simp [push], ?_⟩
  intro id entry hid hentry
  rw [push, AList.lookup_insert_ne hid] at hentry
  exact lookup_of_lookup_evictPrincipal _ _ (lookup_of_lookup_evictFrom _ hentry)

theorem checkAndInsert_of_mem {eventId : String} (principal : String) (expiresAt : Nat)
    (hmem : eventId ∈ (cache.pruneExpired now).entries) :
    cache.checkAndInsert principal eventId now expiresAt = (false, cache.pruneExpired now) := by
  unfold checkAndInsert
  exact if_pos hmem

/-- **When everything has lapsed, any id is new**, and it is all that is remembered afterwards. -/
theorem checkAndInsert_of_lapsed (h : cache.Lapsed now) (principal eventId : String)
    (expiresAt : Nat) :
    (cache.checkAndInsert principal eventId now expiresAt).1 = true
      ∧ (cache.checkAndInsert principal eventId now expiresAt).2.Lapsed expiresAt := by
  have hpruned : ∀ id, (cache.pruneExpired now).entries.lookup id = none :=
    lookup_pruneFrom cache.insertionOrder h
  have hnew : eventId ∉ (cache.pruneExpired now).entries :=
    AList.lookup_eq_none.mp (hpruned eventId)
  obtain ⟨haccepted, hlookup, hqueued, hothers⟩ :=
    checkAndInsert_of_notMem principal expiresAt hnew
  refine ⟨haccepted, ?_⟩
  intro id entry hentry
  by_cases hid : id = eventId
  · subst hid
    obtain rfl : _ = entry := Option.some.inj (hlookup.symm.trans hentry)
    exact ⟨le_refl _, hqueued⟩
  · have hold := hothers id entry hid hentry
    rw [hpruned id] at hold
    cases hold

end ReplayCache

/-- The process-wide cache has nothing to forget before the first event. -/
theorem lapsed_seenAuthEvents (now : Nat) : seenAuthEvents.Lapsed now := by
  intro id entry h
  simp [seenAuthEvents, ReplayCache.new] at h

/-- An event is new when everything remembered has lapsed. -/
theorem markAuthEventOnce_of_lapsed {seen : ReplayCache} {now : Nat} (h : seen.Lapsed now)
    (event : NostrEvent) :
    (markAuthEventOnce seen now event).1 = .ok ()
      ∧ (markAuthEventOnce seen now event).2.Lapsed (saturatingAdd now 120) := by
  obtain ⟨hfresh, hlapsed⟩ := ReplayCache.checkAndInsert_of_lapsed h event.pubkey event.id
    (saturatingAdd now 120)
  exact ⟨by simp [markAuthEventOnce, hfresh], hlapsed⟩

end BlossomRs.Server

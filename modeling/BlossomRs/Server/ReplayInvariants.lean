import BlossomRs.Lib.Runs
import BlossomRs.Server.ReplayRefinement

/-!
# What the replay cache keeps

The cache has a table of entries, a queue for each principal and an age queue, and the age queue may
have ids that are forgotten, or twice.  `Consistent` says what always holds: the queues of the
principals are the entries, every entry is queued by age, and both limits are kept
(`consistent_after`).

The age queue itself is not bounded by the capacity: an id that is pushed out for its principal's
limit stays in it until it reaches the front.  `age_queue_bounded`: where no call does that, the age
queue has each entry once and nothing else.
-/

namespace BlossomRs.Server

/-- One call of `check_and_insert`. -/
structure Insertion where
  principal : String
  eventId : String
  now : Nat
  expiresAt : Nat
deriving DecidableEq

namespace ReplayCache

/-- Make a call. -/
def insert (cache : ReplayCache) (i : Insertion) : Bool × ReplayCache :=
  cache.checkAndInsert i.principal i.eventId i.now i.expiresAt

/-- The number of ids that are remembered for a principal. -/
def owned (cache : ReplayCache) (principal : String) : Nat :=
  cache.entries.keys.countP fun id => (cache.entries.lookup id).any (·.principal == principal)

/-- The queue of each principal has each of its entries once, and every entry is in the given age
queue. -/
structure Grouped (cache : ReplayCache) (queue : List String) : Prop where
  nodup : ∀ principal, (cache.own principal).Nodup
  mem_own : ∀ principal id, id ∈ cache.own principal
    ↔ ∃ expiresAt, cache.entries.lookup id = some ⟨principal, expiresAt⟩
  queued : ∀ id ∈ cache.entries, id ∈ queue

/-- The queues fit the entries, and both limits are kept. -/
structure Consistent (capacity perPrincipal : Nat) (cache : ReplayCache) : Prop
    extends Grouped cache cache.insertionOrder where
  bounded : cache.entries.keys.length ≤ capacity
  ownBounded : ∀ principal, cache.owned principal ≤ perPrincipal

/-! ### Removing one id -/

section Remove

variable {cache : ReplayCache} {queue : List String}

theorem Grouped.filed (h : Grouped cache queue) : cache.Filed :=
  fun hid => (h.mem_own _ _).mp hid

theorem Grouped.remove (h : Grouped cache queue) (id : String) :
    Grouped (cache.remove id) queue where
  nodup principal := by
    rw [own_remove h.filed]
    exact (h.nodup principal).filter _
  mem_own principal other := by
    rw [own_remove h.filed, List.mem_filter, h.mem_own, lookup_remove, decide_eq_true_iff]
    by_cases hother : other = id
    · simp [hother]
    · simp [hother]
  queued other hother := h.queued other (mem_remove.mp hother).2

/-- An id that is not remembered can leave the age queue. -/
theorem Grouped.pop {id : String} (h : Grouped cache (id :: queue)) (hid : id ∉ cache.entries) :
    Grouped cache queue where
  nodup := h.nodup
  mem_own := h.mem_own
  queued other hother := by
    rcases List.mem_cons.mp (h.queued other hother) with rfl | hqueue
    · exact absurd hother hid
    · exact hqueue

theorem Grouped.removeOldest {id : String} (h : Grouped cache (id :: queue)) :
    Grouped (cache.remove id) queue :=
  (h.remove id).pop fun hmem => (mem_remove.mp hmem).1 rfl

/-- The age queue of a grouped cache can be set to the one it is grouped by. -/
theorem Grouped.withQueue (h : Grouped cache queue) :
    Grouped { cache with insertionOrder := queue } queue :=
  ⟨h.nodup, h.mem_own, h.queued⟩

/-- The queue of a principal has as many ids as are remembered for it. -/
theorem Grouped.length_own (h : Grouped cache queue) (principal : String) :
    (cache.own principal).length = cache.owned principal := by
  rw [owned, List.countP_eq_length_filter]
  refine List.Perm.length_eq ?_
  rw [List.perm_ext_iff_of_nodup (h.nodup principal) (cache.entries.keys_nodup.filter _)]
  intro id
  rw [h.mem_own, List.mem_filter, ← AList.mem_keys, ← AList.lookup_isSome]
  cases hlookup : cache.entries.lookup id with
  | none => simp
  | some entry =>
    obtain ⟨otherPrincipal, expiresAt⟩ := entry
    simp

end Remove

/-! ### Shrinking -/

/-- Of what one cache remembers another has nothing more. -/
structure Shrinks (cache cache' : ReplayCache) : Prop where
  mem : ∀ id ∈ cache'.entries, id ∈ cache.entries
  own : ∀ principal, (cache'.own principal).length ≤ (cache.own principal).length
  limits : cache'.limits = cache.limits

namespace Shrinks

theorem refl (cache : ReplayCache) : Shrinks cache cache :=
  ⟨fun _ => id, fun _ => le_rfl, rfl⟩

theorem withQueue (cache : ReplayCache) (queue : List String) :
    Shrinks cache { cache with insertionOrder := queue } :=
  ⟨fun _ => id, fun _ => le_rfl, rfl⟩

theorem trans {a b c : ReplayCache} (hab : Shrinks a b) (hbc : Shrinks b c) : Shrinks a c where
  mem id hid := hab.mem id (hbc.mem id hid)
  own principal := (hbc.own principal).trans (hab.own principal)
  limits := hbc.limits.trans hab.limits

theorem remove {cache : ReplayCache} {queue : List String} (h : Grouped cache queue) (id : String) :
    Shrinks cache (cache.remove id) where
  mem _ hother := (mem_remove.mp hother).2
  own principal := by
    rw [own_remove h.filed]
    exact List.length_filter_le _ _
  limits := (remove_frame cache id).1

theorem length_keys_le {cache cache' : ReplayCache} (h : Shrinks cache cache') :
    cache'.entries.keys.length ≤ cache.entries.keys.length :=
  (List.subperm_of_subset (AList.keys_nodup _) fun id hid => h.mem id hid).length_le

end Shrinks

/-! ### The loops -/

section Loops

variable {cache : ReplayCache}

/-- Pruning keeps a cache grouped, and only forgets. -/
theorem Grouped.pruneFrom (now : Nat) (queue : List String) (h : Grouped cache queue) :
    Grouped (ReplayCache.pruneFrom now queue cache)
        (ReplayCache.pruneFrom now queue cache).insertionOrder
      ∧ Shrinks cache (ReplayCache.pruneFrom now queue cache) := by
  induction queue generalizing cache with
  | nil => exact ⟨h.withQueue, .withQueue _ _⟩
  | cons id queue ih =>
    cases hentry : cache.entries.lookup id with
    | none =>
      rw [pruneFrom_cons_of_none hentry]
      exact ih (h.pop (AList.lookup_eq_none.mp hentry))
    | some entry =>
      by_cases hexpired : entry.expiresAt ≤ now
      · rw [pruneFrom_cons_of_expired hentry hexpired]
        obtain ⟨hgrouped, hshrinks⟩ := ih h.removeOldest
        exact ⟨hgrouped, (Shrinks.remove h id).trans hshrinks⟩
      · rw [pruneFrom_cons_of_live hentry hexpired]
        exact ⟨h.withQueue, .withQueue _ _⟩

/-- One round of the loop that makes room for a principal. -/
theorem Grouped.evictOwn {queue : List String} (h : Grouped cache queue) {principal oldest : String}
    {rest : List String} (hids : cache.byPrincipal.lookup principal = some (oldest :: rest)) :
    let evicted :=
      { cache with byPrincipal := cache.byPrincipal.insert principal rest }.remove oldest
    Grouped evicted queue ∧ Shrinks cache evicted ∧ evicted.own principal = rest := by
  have hqueue : cache.own principal = oldest :: rest := by rw [own, hids]; rfl
  obtain ⟨hentries, hown, hlimits, -⟩ := remove_popped h.filed hids
  have hgrouped := h.remove oldest
  have hshrinks := Shrinks.remove h oldest
  refine ⟨⟨by simpa only [hown] using hgrouped.nodup,
    by simpa only [hown, hentries] using hgrouped.mem_own, hentries ▸ hgrouped.queued⟩,
    ⟨hentries ▸ hshrinks.mem, by simpa only [hown] using hshrinks.own, hlimits⟩, ?_⟩
  have hnodup := h.nodup principal
  rw [hqueue] at hnodup
  rw [hown, own_remove h.filed, hqueue, List.filter_cons_of_neg (by simp), List.filter_eq_self]
  intro other hother
  rw [decide_eq_true_iff]
  rintro rfl
  exact (List.nodup_cons.mp hnodup).1 hother

/-- Making room for a principal leaves it below its limit. -/
theorem Grouped.evictPrincipal {queue : List String} (h : Grouped cache queue)
    (hperPrincipal : 1 ≤ cache.perPrincipal) (principal : String) (rounds : Nat)
    (hrounds : (cache.own principal).length ≤ rounds) :
    Grouped (ReplayCache.evictPrincipal principal rounds cache) queue
      ∧ Shrinks cache (ReplayCache.evictPrincipal principal rounds cache)
      ∧ ((ReplayCache.evictPrincipal principal rounds cache).own principal).length
        < cache.perPrincipal
      ∧ (ReplayCache.evictPrincipal principal rounds cache).insertionOrder
        = cache.insertionOrder := by
  induction rounds generalizing cache with
  | zero => exact ⟨h, .refl cache, Nat.lt_of_le_of_lt hrounds hperPrincipal, rfl⟩
  | succ rounds ih =>
    rcases hids : cache.byPrincipal.lookup principal with _ | _ | ⟨oldest, rest⟩
    · have hempty : cache.own principal = [] := by rw [own, hids]; rfl
      rw [ReplayCache.evictPrincipal, hids]
      exact ⟨h, .refl cache, by rw [hempty]; exact hperPrincipal, rfl⟩
    · have hempty : cache.own principal = [] := by rw [own, hids]; rfl
      rw [ReplayCache.evictPrincipal, hids]
      exact ⟨h, .refl cache, by rw [hempty]; exact hperPrincipal, rfl⟩
    · have hqueue : cache.own principal = oldest :: rest := by rw [own, hids]; rfl
      rw [ReplayCache.evictPrincipal, hids]
      dsimp only
      split
      · obtain ⟨hgrouped, hshrinks, hrest⟩ := h.evictOwn hids
        have hlimit : ({ cache with byPrincipal := cache.byPrincipal.insert principal rest }.remove
            oldest).perPrincipal = cache.perPrincipal :=
          congrArg ReplayWindow.Limits.perPrincipal hshrinks.limits
        rw [hqueue] at hrounds
        obtain ⟨hgrouped', hshrinks', hlt, horder⟩ := ih hgrouped (hlimit.symm ▸ hperPrincipal)
          (by rw [hrest]; exact Nat.le_of_succ_le_succ hrounds)
        exact ⟨hgrouped', hshrinks.trans hshrinks', hlt.trans_eq hlimit,
          horder.trans (remove_frame _ oldest).2⟩
      · rename_i hroom
        exact ⟨h, .refl cache, by rw [hqueue]; exact not_le.mp hroom, rfl⟩

/-- Making room leaves the table below the capacity. -/
theorem Grouped.evictFrom (hcapacity : 1 ≤ cache.capacity) (queue : List String)
    (h : Grouped cache queue) :
    Grouped (ReplayCache.evictFrom queue cache) (ReplayCache.evictFrom queue cache).insertionOrder
      ∧ Shrinks cache (ReplayCache.evictFrom queue cache)
      ∧ (ReplayCache.evictFrom queue cache).entries.keys.length < cache.capacity := by
  induction queue generalizing cache with
  | nil =>
    refine ⟨h.withQueue, .withQueue _ _, ?_⟩
    -- every entry is queued, so there is none
    have hnone : cache.entries.keys = [] :=
      List.eq_nil_iff_forall_not_mem.mpr fun id hid => nomatch h.queued id hid
    rw [ReplayCache.evictFrom, hnone]
    exact hcapacity
  | cons oldest queue ih =>
    rw [ReplayCache.evictFrom]
    split
    · have hshrinks := Shrinks.remove h oldest
      have hlimit : (cache.remove oldest).capacity = cache.capacity :=
        congrArg ReplayWindow.Limits.capacity hshrinks.limits
      obtain ⟨hgrouped, hshrinks', hlt⟩ := ih (hlimit.symm ▸ hcapacity) h.removeOldest
      exact ⟨hgrouped, hshrinks.trans hshrinks', hlt.trans_eq hlimit⟩
    · rename_i hroom
      exact ⟨h.withQueue, .withQueue _ _, not_le.mp hroom⟩

end Loops

/-! ### One call -/

section Push

variable {cache : ReplayCache} {id : String}

theorem own_push (principal : String) (expiresAt : Nat) (other : String) :
    (cache.push principal id expiresAt).own other
      = if other = principal then cache.own principal ++ [id] else cache.own other := by
  rcases eq_or_ne other principal with rfl | hother <;> simp [own, push, *]

/-- A new id is remembered and queued. -/
theorem Grouped.push (h : Grouped cache cache.insertionOrder) (hnew : id ∉ cache.entries)
    (principal : String) (expiresAt : Nat) :
    Grouped (cache.push principal id expiresAt)
      (cache.push principal id expiresAt).insertionOrder where
  nodup other := by
    rw [own_push]
    split
    · rw [← List.concat_eq_append]
      refine (h.nodup principal).concat fun hmem => ?_
      obtain ⟨_, hlookup⟩ := (h.mem_own principal id).mp hmem
      exact hnew (AList.lookup_isSome.mp (by rw [hlookup]; rfl))
    · exact h.nodup other
  mem_own other otherId := by
    have hnone : cache.entries.lookup id = none := AList.lookup_eq_none.mpr hnew
    rw [own_push]
    by_cases hid : otherId = id
    · subst hid
      have hnot : ∀ p, otherId ∉ cache.own p := by
        intro p hmem
        obtain ⟨_, hlookup⟩ := (h.mem_own p otherId).mp hmem
        exact nomatch hnone.symm.trans hlookup
      by_cases hother : other = principal
      · subst hother
        simp [ReplayCache.push]
      · simp [ReplayCache.push, hother, hnot other, Ne.symm hother]
    · have hlookup : (cache.push principal id expiresAt).entries.lookup otherId
          = cache.entries.lookup otherId := AList.lookup_insert_ne hid
      rw [hlookup, ← h.mem_own]
      by_cases hother : other = principal
      · subst hother
        simp [hid]
      · simp [hother]
  queued other hother := by
    rcases (AList.mem_insert _).mp hother with rfl | hother
    · simp [ReplayCache.push]
    · exact List.mem_append_left _ (h.queued other hother)

theorem length_keys_push (hnew : id ∉ cache.entries) (principal : String) (expiresAt : Nat) :
    (cache.push principal id expiresAt).entries.keys.length = cache.entries.keys.length + 1 := by
  simp only [push, AList.keys_insert, List.length_cons]
  rw [List.erase_of_not_mem hnew]

end Push

/-- A consistent cache that has the given limits. -/
structure Limited (capacity perPrincipal : Nat) (cache : ReplayCache) : Prop
    extends Consistent capacity perPrincipal cache where
  limits_eq : cache.limits = ⟨capacity, perPrincipal⟩

variable {capacity perPrincipal : Nat} {cache : ReplayCache}

/-- What is left of a cache is within its limits. -/
theorem Limited.shrink {cache' : ReplayCache} (h : Limited capacity perPrincipal cache)
    (hgrouped : Grouped cache' cache'.insertionOrder) (hshrinks : Shrinks cache cache') :
    Limited capacity perPrincipal cache' where
  toGrouped := hgrouped
  bounded := hshrinks.length_keys_le.trans h.bounded
  ownBounded principal := by
    have hle := hshrinks.own principal
    rw [hgrouped.length_own, h.length_own] at hle
    exact hle.trans (h.ownBounded principal)
  limits_eq := hshrinks.limits.trans h.limits_eq

/-- A new id finds its place when there is room for it. -/
theorem Limited.push (h : Limited capacity perPrincipal cache) {id principal : String}
    (hnew : id ∉ cache.entries) (hfree : cache.entries.keys.length < capacity)
    (hroom : (cache.own principal).length < perPrincipal) (expiresAt : Nat) :
    Limited capacity perPrincipal (cache.push principal id expiresAt) where
  toGrouped := h.toGrouped.push hnew principal expiresAt
  bounded := by
    rw [length_keys_push hnew]
    exact hfree
  ownBounded other := by
    rw [← (h.toGrouped.push hnew principal expiresAt).length_own, own_push]
    split
    · rw [List.length_append, List.length_singleton]
      exact hroom
    · rw [h.length_own]
      exact h.ownBounded other
  limits_eq := h.limits_eq

/-- **One call** keeps the cache consistent. -/
theorem Limited.insert (hcapacity : 1 ≤ capacity) (hperPrincipal : 1 ≤ perPrincipal)
    (h : Limited capacity perPrincipal cache) (i : Insertion) :
    Limited capacity perPrincipal (cache.insert i).2 := by
  obtain ⟨hpruned, hpruneShrinks⟩ := Grouped.pruneFrom i.now cache.insertionOrder h.toGrouped
  have hlimited : Limited capacity perPrincipal (cache.pruneExpired i.now) :=
    h.shrink hpruned hpruneShrinks
  unfold ReplayCache.insert checkAndInsert
  dsimp only
  generalize cache.pruneExpired i.now = pruned at hlimited ⊢
  obtain ⟨hcap, hper⟩ := ReplayWindow.Limits.mk.inj hlimited.limits_eq
  split
  · exact hlimited
  · rename_i hnew
    obtain ⟨hown, hownShrinks, hroom, horder⟩ := hlimited.evictPrincipal
      (hper.symm ▸ hperPrincipal) i.principal (pruned.own i.principal).length le_rfl
    unfold own at hown hownShrinks hroom horder
    generalize ReplayCache.evictPrincipal i.principal
      ((pruned.byPrincipal.lookup i.principal).getD []).length pruned = evicted
      at hown hownShrinks hroom horder ⊢
    rw [← horder] at hown
    have hcap' : evicted.capacity = capacity :=
      (congrArg ReplayWindow.Limits.capacity hownShrinks.limits).trans hcap
    obtain ⟨hany, hanyShrinks, hfree⟩ := hown.evictFrom (hcap'.symm ▸ hcapacity)
    generalize ReplayCache.evictFrom evicted.insertionOrder evicted = left at hany hanyShrinks hfree ⊢
    have hshrinks := hownShrinks.trans hanyShrinks
    exact (hlimited.shrink hany hshrinks).push (mt (hshrinks.mem _) hnew) (hcap' ▸ hfree)
      (hper ▸ (hanyShrinks.own i.principal).trans_lt hroom) _

theorem limited_new (capacity perPrincipal : Nat) :
    Limited capacity perPrincipal (new capacity perPrincipal) where
  nodup := by simp [own, new]
  mem_own := by simp [own, new]
  queued := by simp [new]
  bounded := Nat.zero_le _
  ownBounded _ := Nat.zero_le _
  limits_eq := rfl

theorem limited_after (hcapacity : 1 ≤ capacity) (hperPrincipal : 1 ≤ perPrincipal)
    (calls : List Insertion) :
    Limited capacity perPrincipal (Runs.after insert (new capacity perPrincipal) calls) := by
  refine Runs.run_invariant (P := fun _ cache => Limited capacity perPrincipal cache)
    (limited_new capacity perPrincipal) ?_ calls [] (List.append_nil _).symm
  exact fun _ i _ _ h => h.insert hcapacity hperPrincipal i

/-- **The cache is consistent** after any calls. -/
theorem consistent_after {capacity perPrincipal : Nat} (hcapacity : 1 ≤ capacity)
    (hperPrincipal : 1 ≤ perPrincipal) (calls : List Insertion) :
    Consistent capacity perPrincipal (Runs.after insert (new capacity perPrincipal) calls) :=
  (limited_after hcapacity hperPrincipal calls).toConsistent

/-- Calls for two principals; the id of the second one stays while those of the first push each other
out. -/
def pushingCalls : List Insertion :=
  [⟨"B", "y", 0, 120⟩, ⟨"A", "x1", 0, 120⟩, ⟨"A", "x2", 0, 120⟩, ⟨"A", "x3", 0, 120⟩]

/-- Two ids are pushed out, and the cache is consistent. -/
theorem pushingCalls_consistent :
    (Runs.after insert (new 3 1) pushingCalls).entries.keys.length = 2
      ∧ Consistent 3 1 (Runs.after insert (new 3 1) pushingCalls) :=
  ⟨by decide, consistent_after (by decide) (by decide) pushingCalls⟩

/-! ### The age queue -/

/-- The age queue has each entry once, and nothing else. -/
structure Exact (cache : ReplayCache) (queue : List String) : Prop where
  nodup : queue.Nodup
  mem_iff : ∀ id, id ∈ queue ↔ id ∈ cache.entries

namespace Exact

variable {queue : List String}

theorem removeOldest {id : String} (h : Exact cache (id :: queue)) :
    Exact (cache.remove id) queue where
  nodup := (List.nodup_cons.mp h.nodup).2
  mem_iff other := by
    rw [mem_remove, ← h.mem_iff, List.mem_cons]
    have hfresh := (List.nodup_cons.mp h.nodup).1
    constructor
    · intro hother
      exact ⟨fun hsame => hfresh (hsame ▸ hother), Or.inr hother⟩
    · rintro ⟨hne, hother⟩
      exact hother.resolve_left hne

theorem pruneFrom (now : Nat) (h : Exact cache queue) :
    Exact (ReplayCache.pruneFrom now queue cache)
      (ReplayCache.pruneFrom now queue cache).insertionOrder := by
  induction queue generalizing cache with
  | nil => exact ⟨h.nodup, h.mem_iff⟩
  | cons id queue ih =>
    have hmem : id ∈ cache.entries := (h.mem_iff id).mp List.mem_cons_self
    obtain ⟨entry, hentry⟩ := Option.isSome_iff_exists.mp (AList.lookup_isSome.mpr hmem)
    by_cases hexpired : entry.expiresAt ≤ now
    · rw [pruneFrom_cons_of_expired hentry hexpired]
      exact ih h.removeOldest
    · rw [pruneFrom_cons_of_live hentry hexpired]
      exact ⟨h.nodup, h.mem_iff⟩

theorem evictFrom (h : Exact cache queue) :
    Exact (ReplayCache.evictFrom queue cache)
      (ReplayCache.evictFrom queue cache).insertionOrder := by
  induction queue generalizing cache with
  | nil => exact ⟨h.nodup, h.mem_iff⟩
  | cons id queue ih =>
    rw [ReplayCache.evictFrom]
    split
    · exact ih h.removeOldest
    · exact ⟨h.nodup, h.mem_iff⟩

theorem push (h : Exact cache cache.insertionOrder) {id : String} (hnew : id ∉ cache.entries)
    (principal : String) (expiresAt : Nat) :
    Exact (cache.push principal id expiresAt)
      (cache.push principal id expiresAt).insertionOrder where
  nodup := by
    have hconcat := h.nodup.concat fun hmem => hnew ((h.mem_iff id).mp hmem)
    rwa [List.concat_eq_append] at hconcat
  mem_iff other := by
    simp [ReplayCache.push, AList.mem_insert, h.mem_iff, or_comm]

/-- Then it is as long as the table. -/
theorem length_eq (h : Exact cache queue) : queue.length = cache.entries.keys.length := by
  refine List.Perm.length_eq ?_
  rw [List.perm_ext_iff_of_nodup h.nodup cache.entries.keys_nodup]
  exact h.mem_iff

end Exact

/-- The call does not push out an id of its principal: it is refused, or the principal has fewer ids
than it may have, once those that have expired are forgotten. -/
def KeepsOwn (cache : ReplayCache) (i : Insertion) : Prop :=
  i.eventId ∈ (cache.pruneExpired i.now).entries
    ∨ (cache.pruneExpired i.now).owned i.principal < cache.perPrincipal

instance (cache : ReplayCache) (i : Insertion) : Decidable (cache.KeepsOwn i) :=
  inferInstanceAs (Decidable (_ ∨ _))

theorem Exact.insert (hlimited : Limited capacity perPrincipal cache)
    (h : Exact cache cache.insertionOrder) {i : Insertion} (hkeeps : cache.KeepsOwn i) :
    Exact (cache.insert i).2 (cache.insert i).2.insertionOrder := by
  obtain ⟨hgrouped, hshrinks⟩ := Grouped.pruneFrom i.now cache.insertionOrder hlimited.toGrouped
  have hpruned : Exact (cache.pruneExpired i.now) (cache.pruneExpired i.now).insertionOrder :=
    h.pruneFrom i.now
  unfold ReplayCache.insert checkAndInsert
  dsimp only
  split
  · exact hpruned
  · rename_i hnew
    have hroom : ((cache.pruneExpired i.now).own i.principal).length
        < (cache.pruneExpired i.now).perPrincipal := by
      have hlimit : (cache.pruneExpired i.now).perPrincipal = cache.perPrincipal :=
        congrArg ReplayWindow.Limits.perPrincipal hshrinks.limits
      have hlength : ((cache.pruneExpired i.now).own i.principal).length
          = (cache.pruneExpired i.now).owned i.principal := hgrouped.length_own i.principal
      rw [hlimit, hlength]
      exact hkeeps.resolve_left hnew
    rw [evictPrincipal_of_lt hroom]
    refine hpruned.evictFrom.push (fun hmem => hnew ?_) _ _
    obtain ⟨entry, hentry⟩ := Option.isSome_iff_exists.mp (AList.lookup_isSome.mpr hmem)
    have hold := lookup_of_lookup_evictFrom _ hentry
    exact AList.lookup_isSome.mp (by rw [hold]; rfl)

/-- **The age queue is bounded by the capacity** along a run in which no call pushes out an id of its
principal. -/
theorem age_queue_bounded {capacity perPrincipal : Nat} (hcapacity : 1 ≤ capacity)
    (hperPrincipal : 1 ≤ perPrincipal) {calls : List Insertion}
    (hkeeps : ∀ pre i post, calls = pre ++ i :: post →
      (Runs.after insert (new capacity perPrincipal) pre).KeepsOwn i)
    {pre post : List Insertion} (hsplit : calls = pre ++ post) :
    (Runs.after insert (new capacity perPrincipal) pre).insertionOrder.length ≤ capacity := by
  have hexact : ∀ pre post, calls = pre ++ post →
      Exact (Runs.after insert (new capacity perPrincipal) pre)
        (Runs.after insert (new capacity perPrincipal) pre).insertionOrder := by
    refine Runs.run_invariant (P := fun _ cache => Exact cache cache.insertionOrder)
      ⟨List.nodup_nil, by simp [new]⟩ ?_
    intro pre i post hsplit hexact
    exact hexact.insert (limited_after hcapacity hperPrincipal pre) (hkeeps pre i post hsplit)
  have hlimited := limited_after hcapacity hperPrincipal pre
  exact (hexact pre post hsplit).length_eq.trans_le hlimited.bounded

/-- Calls of which the third finds its principal's id expired. -/
def patientCalls : List Insertion :=
  [⟨"A", "x1", 0, 120⟩, ⟨"B", "y", 60, 180⟩, ⟨"A", "x2", 120, 240⟩]

/-- The age queue has two ids then, with a capacity of two. -/
theorem patientCalls_bounded :
    (Runs.after insert (new 2 1) patientCalls).insertionOrder.length = 2
      ∧ (Runs.after insert (new 2 1) patientCalls).insertionOrder.length ≤ 2 := by
  refine ⟨by decide, age_queue_bounded (by decide) (by decide) ?_
    (List.append_nil patientCalls).symm⟩
  rw [patientCalls, Runs.forall_split_cons, Runs.forall_split_cons, Runs.forall_split_cons,
    Runs.forall_split_nil]
  decide

/-- With a capacity of three, ids that push each other out fill the age queue with four. -/
theorem pushed_out_ids_queued :
    (Runs.after insert (new 3 1) pushingCalls).insertionOrder = ["y", "x1", "x2", "x3"]
      ∧ 3 < (Runs.after insert (new 3 1) pushingCalls).insertionOrder.length := by
  decide

end ReplayCache
end BlossomRs.Server

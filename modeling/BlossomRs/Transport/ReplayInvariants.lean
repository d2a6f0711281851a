import BlossomRs.Transport.ReplayCache

/-!
# What the replay cache of the stream transport keeps

The cache has a table of entries, an age queue and a table of counts.  `Sound` says that they fit
together and are within their limits.  It follows from the window behind the cache, except that a
principal without entries has no count at all: for that, no step leaves a count of zero
(`Counted.commit`).

`commit_invariants`: the cache is sound after every run, and along it an accepted id is refused until
it expires or newer ids have reached a limit.
-/

namespace BlossomRs.Transport

open Auth ReplayWindow

namespace ReplayCache

/-- The number of ids that are remembered for a principal. -/
def owned (cache : ReplayCache) (principal : String) : Nat :=
  cache.entries.keys.countP (cache.isOwn principal)

/-- The queue has each remembered id once, in the order in which they expire; the counts are those of
the entries, without zeroes; and both limits are kept. -/
structure Sound (maxEntries maxPerPrincipal : Nat) (cache : ReplayCache) : Prop where
  nodup : cache.order.Nodup
  mem_order : ∀ id, id ∈ cache.order ↔ id ∈ cache.entries
  sorted : cache.order.Pairwise fun earlier later => ∀ e l,
    cache.entries.lookup earlier = some e → cache.entries.lookup later = some l →
    e.expiresAt ≤ l.expiresAt
  counts : ∀ principal, cache.perPrincipal.lookup principal
    = if cache.owned principal = 0 then none else some (cache.owned principal)
  bounded : cache.entries.keys.length ≤ maxEntries
  ownBounded : ∀ principal, cache.owned principal ≤ maxPerPrincipal

/-! ### Counts -/

/-- No principal has a count of zero. -/
def Counted (cache : ReplayCache) : Prop :=
  ∀ principal, cache.perPrincipal.lookup principal ≠ some 0

namespace Counted

variable {cache cache' : ReplayCache}

theorem removeEntry (h : Counted cache) (id : String) : Counted (cache.removeEntry id) := by
  intro principal
  unfold ReplayCache.removeEntry
  cases cache.entries.lookup id with
  | none => exact h principal
  | some entry =>
    dsimp only
    cases cache.perPrincipal.lookup entry.principal with
    | none => exact h principal
    | some count =>
      dsimp only
      have hkept := h principal
      by_cases hlast : count - 1 = 0 <;>
        by_cases hprincipal : principal = entry.principal <;>
          simp_all [Assoc.lookup_erase_eq, Assoc.lookup_insert_eq]

theorem evictOldest (h : Counted cache) (hevict : cache.evictOldest = some cache') :
    Counted cache' := by
  unfold ReplayCache.evictOldest at hevict
  split at hevict
  · cases hevict
  · rename_i rest _
    obtain rfl := Option.some.inj hevict
    have hrest : Counted { cache with order := rest } := h
    exact hrest.removeEntry _

theorem evictOldestFor (h : Counted cache) {principal : String}
    (hevict : cache.evictOldestFor principal = some cache') : Counted cache' := by
  obtain ⟨id, -, rfl⟩ := Option.map_eq_some_iff.mp hevict
  have hrest : Counted { cache with order := cache.order.eraseP (cache.isOwn principal) } := h
  exact hrest.removeEntry id

theorem pruneLoop (h : Counted cache) (now rounds : Nat) :
    Counted (ReplayCache.pruneLoop now rounds cache) := by
  induction rounds generalizing cache with
  | zero => exact h
  | succ rounds ih =>
    unfold ReplayCache.pruneLoop
    split
    · exact h
    · split
      · cases hevict : cache.evictOldest with
        | none => exact ih h
        | some cache' => exact ih (h.evictOldest hevict)
      · exact h

theorem principalLoop (h : Counted cache) (principal : String) (rounds : Nat) :
    Counted (ReplayCache.principalLoop principal rounds cache) := by
  induction rounds generalizing cache with
  | zero => exact h
  | succ rounds ih =>
    unfold ReplayCache.principalLoop
    split
    · split
      · rename_i hevict
        exact ih (h.evictOldestFor hevict)
      · exact h
    · exact h

theorem capacityLoop (h : Counted cache) (rounds : Nat) :
    Counted (ReplayCache.capacityLoop rounds cache) := by
  induction rounds generalizing cache with
  | zero => exact h
  | succ rounds ih =>
    unfold ReplayCache.capacityLoop
    split
    · split
      · rename_i hevict
        exact ih (h.evictOldest hevict)
      · exact h
    · exact h

theorem push (h : Counted cache) (id principal : String) (expiresAt : Nat) :
    Counted (cache.push id principal expiresAt) := by
  intro other
  rw [ReplayCache.push, Assoc.lookup_insert_eq]
  split
  · simp
  · exact h other

theorem commit (h : Counted cache) (id principal : String) (now : Nat) :
    Counted (cache.commit id principal now).2 := by
  unfold ReplayCache.commit
  dsimp only
  split
  · exact h.pruneLoop now _
  · exact (((h.pruneLoop now _).principalLoop principal _).capacityLoop _).push _ _ _

end Counted

/-! ### All of it, from the window -/

variable {w : Window String String}

theorem Tracks.owned_eq {cache : ReplayCache} (h : Tracks cache w) (principal : String) :
    cache.owned principal = count principal w := by
  have hperm : cache.entries.keys.Perm w.ids := by
    rw [List.perm_ext_iff_of_nodup cache.entries.keys_nodup h.nodup]
    intro id
    rw [← AList.mem_keys, h.mem_entries]
  rw [owned, hperm.countP_eq, Window.ids, List.countP_map, count]
  refine List.countP_congr ?_
  intro e he
  rw [Function.comp_apply, h.isOwn_eq principal he]

/-- A cache that remembers a window within its limits is sound. -/
theorem Tracks.sound {limits : Limits} {cache : ReplayCache} (h : Tracks cache w)
    (hcounted : Counted cache) (hwithin : Within limits w)
    (hsorted : w.Pairwise (·.expiresAt ≤ ·.expiresAt)) :
    Sound limits.capacity limits.perPrincipal cache where
  nodup := h.order_eq ▸ h.nodup
  mem_order id := by rw [h.order_eq, h.mem_entries]
  sorted := by
    rw [h.order_eq, Window.ids, List.pairwise_map]
    refine hsorted.imp_of_mem ?_
    intro a b ha hb hle e l he hl
    rw [(h.mem_iff a).mp ha, Option.some.injEq] at he
    rw [(h.mem_iff b).mp hb, Option.some.injEq] at hl
    rwa [← he, ← hl]
  counts principal := by
    have hcount := h.count_eq principal
    have hpositive := hcounted principal
    rw [← h.owned_eq] at hcount
    cases hlookup : cache.perPrincipal.lookup principal with
    | none =>
      rw [hlookup, Option.getD_none] at hcount
      rw [if_pos hcount.symm]
    | some n =>
      rw [hlookup, Option.getD_some] at hcount
      subst hcount
      rw [if_neg fun hzero => hpositive (by rw [hlookup, hzero])]
  bounded := h.length_entries ▸ hwithin.length_le
  ownBounded principal := h.owned_eq principal ▸ hwithin.count_le principal

/-- The window of a run of calls, which the cache after it remembers. -/
theorem tracks_after (maxEntries maxPerPrincipal : Nat) (attempts : List (Attempt String String)) :
    Tracks (Runs.after call (new maxEntries maxPerPrincipal) attempts)
      (Runs.after (present ⟨maxEntries, maxPerPrincipal⟩ (saturatingAdd · 120)) [] attempts) := by
  refine (Runs.after_of_simulates
    (R := fun cache w => Tracks cache w ∧ cache.limits = ⟨maxEntries, maxPerPrincipal⟩)
    ⟨tracks_new maxEntries maxPerPrincipal, rfl⟩ ?_).1
  rintro cache w ⟨htracks, hlimits⟩ a -
  obtain ⟨-, hnext, hkept⟩ := commit_tracks htracks a
  rw [hlimits] at hnext hkept
  exact ⟨hnext, hkept⟩

theorem counted_after (maxEntries maxPerPrincipal : Nat) (attempts : List (Attempt String String)) :
    Counted (Runs.after call (new maxEntries maxPerPrincipal) attempts) := by
  refine Runs.run_invariant (P := fun _ cache => Counted cache) ?_ ?_ attempts []
    (List.append_nil _).symm
  · simp [Counted, new]
  · exact fun _ a _ _ h => h.commit a.id a.principal a.now

end ReplayCache

theorem monotone_saturatingAdd (n : Nat) : Monotone fun now => saturatingAdd now n := by
  intro a b hab
  exact min_le_min_right _ (Nat.add_le_add_right hab n)

/-- **The cache after a run of calls** is sound when the clock has not run backwards, and along the
run an accepted id is refused until it expires or newer ids have reached a limit. -/
theorem commit_invariants {maxEntries maxPerPrincipal : Nat} (hmaxEntries : 1 ≤ maxEntries)
    (hmaxPerPrincipal : 1 ≤ maxPerPrincipal) (attempts : List (Attempt String String))
    (hclock : attempts.Pairwise (·.now ≤ ·.now)) :
    (Runs.after ReplayCache.call (.new maxEntries maxPerPrincipal) attempts).Sound maxEntries
        maxPerPrincipal
      ∧ RefusesReplays ⟨maxEntries, maxPerPrincipal⟩ (saturatingAdd · 120)
        (Runs.log ReplayCache.call (.new maxEntries maxPerPrincipal) attempts) := by
  constructor
  · exact (ReplayCache.tracks_after maxEntries maxPerPrincipal attempts).sound
      (ReplayCache.counted_after maxEntries maxPerPrincipal attempts)
      (within_after hmaxEntries hmaxPerPrincipal _ attempts)
      (sorted_after _ (monotone_saturatingAdd 120) attempts hclock)
  · rw [log_streamCall]
    exact refusesReplays _ _ attempts hclock

/-- The ids of two principals, some of them twice. -/
def mixedRun : List (Attempt String String) :=
  [⟨"alice", "alice-1", 1⟩, ⟨"alice", "alice-2", 1⟩, ⟨"alice", "alice-3", 1⟩, ⟨"bob", "bob-1", 1⟩,
    ⟨"bob", "bob-2", 1⟩, ⟨"bob", "bob-2", 1⟩, ⟨"bob", "bob-2", 122⟩]

/-- Two ids are pushed out and one expires; the cache is sound. -/
theorem mixedRun_sound :
    (Runs.log ReplayCache.call (.new 3 2) mixedRun).map (·.2)
        = [true, true, true, true, true, false, true]
      ∧ (Runs.after ReplayCache.call (.new 3 2) mixedRun).Sound 3 2 :=
  ⟨by decide, (commit_invariants (by decide) (by decide) mixedRun (by decide)).1⟩

end BlossomRs.Transport

import BlossomRs.Lib.ReplayWindow
import BlossomRs.Server.ReplayCache

/-!
# The replay cache as a window

The cache keeps the accepted ids in a table and in two kinds of queues.  `Tracks` relates it to a
`ReplayWindow`: the table and the queue of each principal are those of the window, and the age queue
is the window's with some forgotten ids left standing in it.

As long as no forgotten id that still stands in the age queue is presented again, the cache answers
as the window does (`checkAndInsert_tracks`).
-/

namespace BlossomRs.Server.ReplayCache

open Auth ReplayWindow

/-- The queue of a principal; a principal without one has nothing queued. -/
def own (cache : ReplayCache) (principal : String) : List String :=
  (cache.byPrincipal.lookup principal).getD []

/-- What stands in the queue of a principal is remembered for it. -/
def Filed (cache : ReplayCache) : Prop :=
  ∀ {principal id}, id ∈ cache.own principal →
    ∃ expiresAt, cache.entries.lookup id = some ⟨principal, expiresAt⟩

/-- The cache remembers a window, with the given age queue. -/
structure Tracks (cache : ReplayCache) (queue : List String) (w : Window String String) : Prop where
  mem_iff : ∀ e : Entry String String,
    e ∈ w ↔ cache.entries.lookup e.id = some ⟨e.principal, e.expiresAt⟩
  queue_eq : queue.filter (· ∈ cache.entries) = w.ids
  own_eq : ∀ principal, cache.own principal = Window.ids (w.filter (Entry.isOf principal))
  nodup : w.ids.Nodup

/-- The limits of a cache. -/
def limits (cache : ReplayCache) : Limits :=
  ⟨cache.capacity, cache.perPrincipal⟩

/-! ### Removing one id -/

variable {cache : ReplayCache} {id : String}

/-- What removing a remembered id does: its entry goes, and it leaves its principal's queue. -/
theorem remove_of_lookup {entry : ReplayEntry} (hentry : cache.entries.lookup id = some entry) :
    ∃ byPrincipal : AList fun _ : String => List String,
      cache.remove id = { cache with
        entries := cache.entries.erase id
        byPrincipal := byPrincipal }
      ∧ ∀ principal, (byPrincipal.lookup principal).getD []
        = if entry.principal = principal then (cache.own principal).filter (· ≠ id)
          else cache.own principal := by
  simp only [remove, hentry, own]
  cases hids : cache.byPrincipal.lookup entry.principal with
  | none =>
    refine ⟨cache.byPrincipal, rfl, fun principal => ?_⟩
    split
    · rename_i hprincipal
      rw [← hprincipal, hids]
      rfl
    · rfl
  | some ids =>
    dsimp only
    split
    · rename_i hempty
      refine ⟨_, rfl, fun principal => ?_⟩
      rcases eq_or_ne principal entry.principal with rfl | hne
      · rw [AList.lookup_erase, if_pos rfl, hids]
        exact (List.isEmpty_iff.mp hempty).symm
      · simp [hne, Ne.symm hne]
    · refine ⟨_, rfl, fun principal => ?_⟩
      rcases eq_or_ne principal entry.principal with rfl | hne
      · simp [hids]
      · simp [hne, Ne.symm hne]

theorem remove_of_lookup_eq_none (hentry : cache.entries.lookup id = none) :
    cache.remove id = cache := by
  simp only [remove, hentry]

/-- The limits and the age queue are left alone. -/
theorem remove_frame (cache : ReplayCache) (id : String) :
    (cache.remove id).limits = cache.limits
      ∧ (cache.remove id).insertionOrder = cache.insertionOrder := by
  cases hentry : cache.entries.lookup id with
  | none =>
    rw [remove_of_lookup_eq_none hentry]
    exact ⟨rfl, rfl⟩
  | some entry =>
    obtain ⟨byPrincipal, heq, -⟩ := remove_of_lookup hentry
    rw [heq]
    exact ⟨rfl, rfl⟩

/-- A removed id leaves the queue of its principal, and no other id leaves a queue. -/
theorem own_remove (h : cache.Filed) (id principal : String) :
    (cache.remove id).own principal = (cache.own principal).filter (· ≠ id) := by
  cases hentry : cache.entries.lookup id with
  | none =>
    rw [remove_of_lookup_eq_none hentry, eq_comm, List.filter_eq_self]
    intro other hother
    rw [decide_eq_true_iff]
    rintro rfl
    obtain ⟨expiresAt, hlookup⟩ := h hother
    cases hentry.symm.trans hlookup
  | some entry =>
    obtain ⟨byPrincipal, heq, hown⟩ := remove_of_lookup hentry
    rw [heq]
    refine (hown principal).trans ?_
    split
    · rfl
    · rename_i hother
      -- an id of another principal does not stand in this principal's queue
      refine (List.filter_eq_self.mpr ?_).symm
      intro other hmem
      rw [decide_eq_true_iff]
      rintro rfl
      obtain ⟨expiresAt, hlookup⟩ := h hmem
      exact hother (by rw [Option.some.inj (hentry.symm.trans hlookup)])

/-- Taking the oldest id off a principal's queue first does not change what removing it leaves. -/
theorem remove_popped (h : cache.Filed) {principal oldest : String} {rest : List String}
    (hids : cache.byPrincipal.lookup principal = some (oldest :: rest)) :
    let popped :=
      { cache with byPrincipal := cache.byPrincipal.insert principal rest }.remove oldest
    popped.entries = (cache.remove oldest).entries
      ∧ (∀ other, popped.own other = (cache.remove oldest).own other)
      ∧ popped.limits = cache.limits ∧ popped.insertionOrder = cache.insertionOrder := by
  obtain ⟨expiresAt, hentry⟩ := h (show oldest ∈ cache.own principal by simp [own, hids])
  have hentry' : ({ cache with byPrincipal := cache.byPrincipal.insert principal rest } :
      ReplayCache).entries.lookup oldest = some ⟨principal, expiresAt⟩ := hentry
  obtain ⟨byPrincipal, heq, hown⟩ := remove_of_lookup hentry
  obtain ⟨byPrincipal', heq', hown'⟩ := remove_of_lookup hentry'
  intro popped
  rw [show popped = _ from heq', heq]
  refine ⟨rfl, fun other => ?_, rfl, rfl⟩
  refine (hown' other).trans (Eq.trans ?_ (hown other).symm)
  by_cases hother : principal = other
  · subst hother
    simp [own, hids]
  · simp [hother, own, AList.lookup_insert_ne (Ne.symm hother)]

theorem mem_remove {other : String} :
    other ∈ (cache.remove id).entries ↔ other ≠ id ∧ other ∈ cache.entries := by
  rw [← AList.lookup_isSome, lookup_remove, ← AList.lookup_isSome]
  split <;> simp [*]

namespace Tracks

variable {queue : List String} {w : Window String String}

theorem mem_entries (h : Tracks cache queue w) : id ∈ cache.entries ↔ id ∈ w.ids := by
  rw [← AList.lookup_isSome, Option.isSome_iff_exists, Window.ids, List.mem_map]
  constructor
  · rintro ⟨entry, hentry⟩
    exact ⟨⟨id, entry.principal, entry.expiresAt⟩, (h.mem_iff _).mpr hentry, rfl⟩
  · rintro ⟨e, he, rfl⟩
    exact ⟨_, (h.mem_iff e).mp he⟩

theorem length_entries (h : Tracks cache queue w) : cache.entries.keys.length = w.length := by
  have hperm : cache.entries.keys.Perm w.ids := by
    rw [List.perm_ext_iff_of_nodup cache.entries.keys_nodup h.nodup]
    intro id
    rw [← AList.mem_keys, h.mem_entries]
  rw [hperm.length_eq, Window.ids, List.length_map]

theorem filed (h : Tracks cache queue w) : cache.Filed := by
  intro principal id hid
  rw [h.own_eq] at hid
  obtain ⟨e, he, rfl⟩ := List.mem_map.mp hid
  obtain ⟨hw, hprincipal⟩ := List.mem_filter.mp he
  exact ⟨e.expiresAt, Entry.isOf_eq_true.mp hprincipal ▸ (h.mem_iff e).mp hw⟩

theorem length_own (h : Tracks cache queue w) (principal : String) :
    (cache.own principal).length = count principal w := by
  rw [h.own_eq, Window.ids, List.length_map, count, List.countP_eq_length_filter]

/-- An id at the front of the age queue that is no longer remembered can be dropped. -/
theorem pop (h : Tracks cache (id :: queue) w) (hid : id ∉ cache.entries) :
    Tracks cache queue w where
  mem_iff := h.mem_iff
  queue_eq := by
    rw [← h.queue_eq, List.filter_cons_of_neg (by simpa using hid)]
  own_eq := h.own_eq
  nodup := h.nodup

/-- Removing an id from the cache removes it from the window. -/
theorem remove (h : Tracks cache queue w) (id : String) :
    Tracks (cache.remove id) queue (without id w) where
  mem_iff e := by
    rw [mem_without, lookup_remove, h.mem_iff]
    split <;> simp [*]
  queue_eq := by
    rw [ids_without, ← h.queue_eq, List.filter_filter]
    refine List.filter_congr ?_
    intro other _
    simp [mem_remove, Bool.decide_and]
  own_eq principal := by
    rw [own_remove h.filed, h.own_eq, ← ids_without, without, without, List.filter_filter,
      List.filter_filter]
    refine congrArg _ (List.filter_congr ?_)
    intro e _
    rw [Bool.and_comm]
  nodup := by
    rw [ids_without]
    exact h.nodup.filter _

/-- What the queue starts with, if it is remembered, is the window's oldest id. -/
theorem eq_cons (h : Tracks cache (id :: queue) w) (hid : id ∈ cache.entries) :
    ∃ e rest, w = e :: rest ∧ e.id = id := by
  have hids := h.queue_eq
  rw [List.filter_cons_of_pos (by simpa using hid)] at hids
  cases w with
  | nil => cases hids
  | cons e rest => exact ⟨e, rest, rfl, (List.cons.inj hids).1.symm⟩

/-- Taking the oldest id out of the queue and out of the cache. -/
theorem removeOldest (h : Tracks cache (id :: queue) w) :
    Tracks (cache.remove id) queue (without id w) :=
  (h.remove id).pop fun hmem => (mem_remove.mp hmem).1 rfl

end Tracks

/-! ### The loops -/

section Loops

variable {w : Window String String} {now : Nat}

variable {queue : List String}

theorem pruneFrom_cons_of_none (h : cache.entries.lookup id = none) :
    pruneFrom now (id :: queue) cache = pruneFrom now queue cache := by
  rw [pruneFrom, h]

theorem pruneFrom_cons_of_expired {entry : ReplayEntry} (h : cache.entries.lookup id = some entry)
    (hexpired : entry.expiresAt ≤ now) :
    pruneFrom now (id :: queue) cache = pruneFrom now queue (cache.remove id) := by
  rw [pruneFrom, h]
  exact if_pos hexpired

theorem pruneFrom_cons_of_live {entry : ReplayEntry} (h : cache.entries.lookup id = some entry)
    (hlive : ¬ entry.expiresAt ≤ now) :
    pruneFrom now (id :: queue) cache = { cache with insertionOrder := id :: queue } := by
  rw [pruneFrom, h]
  exact if_neg hlive

/-- Pruning the cache prunes the window. -/
theorem pruneFrom_tracks (queue : List String) (h : Tracks cache queue w) :
    Tracks (pruneFrom now queue cache) (pruneFrom now queue cache).insertionOrder (prune now w) := by
  induction queue generalizing cache w with
  | nil =>
    have hw : w = [] := by simpa [Window.ids] using h.queue_eq.symm
    subst hw
    exact ⟨h.mem_iff, rfl, h.own_eq, h.nodup⟩
  | cons id queue ih =>
    cases hentry : cache.entries.lookup id with
    | none =>
      rw [pruneFrom_cons_of_none hentry]
      exact ih (h.pop (AList.lookup_eq_none.mp hentry))
    | some entry =>
      obtain ⟨e, rest, rfl, rfl⟩ := h.eq_cons (AList.lookup_isSome.mp (by rw [hentry]; rfl))
      have hexpires : e.expiresAt = entry.expiresAt := by
        have he := (h.mem_iff e).mp List.mem_cons_self
        rw [hentry, Option.some.injEq] at he
        rw [he]
      by_cases hexpired : entry.expiresAt ≤ now
      · have hrest := h.removeOldest
        rw [without_cons_self h.nodup] at hrest
        have hprune : prune now (e :: rest) = prune now rest :=
          List.dropWhile_cons_of_pos (by simpa [hexpires] using hexpired)
        rw [pruneFrom_cons_of_expired hentry hexpired, hprune]
        exact ih hrest
      · have hprune : prune now (e :: rest) = e :: rest :=
          List.dropWhile_cons_of_neg (by simpa [hexpires] using hexpired)
        rw [pruneFrom_cons_of_live hentry hexpired, hprune]
        exact ⟨h.mem_iff, h.queue_eq, h.own_eq, h.nodup⟩

theorem limits_pruneFrom (queue : List String) :
    (pruneFrom now queue cache).limits = cache.limits := by
  induction queue generalizing cache with
  | nil => rfl
  | cons id queue ih =>
    cases hentry : cache.entries.lookup id with
    | none => rw [pruneFrom_cons_of_none hentry, ih]
    | some entry =>
      by_cases hexpired : entry.expiresAt ≤ now
      · rw [pruneFrom_cons_of_expired hentry hexpired, ih, (remove_frame cache id).1]
      · rw [pruneFrom_cons_of_live hentry hexpired]
        rfl

/-- An id that is pruned is also pruned from the age queue, if it stood there only once. -/
theorem mem_entries_pruneFrom (queue : List String) (h : Tracks cache queue w)
    (hid : id ∈ queue → id ∈ cache.entries) (hmem : id ∈ (pruneFrom now queue cache).insertionOrder) :
    id ∈ (pruneFrom now queue cache).entries := by
  induction queue generalizing cache w with
  | nil => simp [pruneFrom] at hmem
  | cons first queue ih =>
    cases hentry : cache.entries.lookup first with
    | none =>
      rw [pruneFrom_cons_of_none hentry] at hmem ⊢
      refine ih (h.pop (AList.lookup_eq_none.mp hentry)) ?_ hmem
      exact fun hqueue => hid (List.mem_cons_of_mem _ hqueue)
    | some entry =>
      by_cases hexpired : entry.expiresAt ≤ now
      · rw [pruneFrom_cons_of_expired hentry hexpired] at hmem ⊢
        refine ih h.removeOldest (fun hqueue => ?_) hmem
        rw [mem_remove]
        refine ⟨?_, hid (List.mem_cons_of_mem _ hqueue)⟩
        -- a remembered id stands in the age queue once
        rintro rfl
        have hlive := hid List.mem_cons_self
        have hnodup := h.queue_eq ▸ h.nodup
        rw [List.filter_cons_of_pos (by simpa using hlive)] at hnodup
        exact (List.nodup_cons.mp hnodup).1 (List.mem_filter.mpr ⟨hqueue, by simpa using hlive⟩)
      · rw [pruneFrom_cons_of_live hentry hexpired] at hmem ⊢
        exact hid hmem

/-- The first of a principal's queue is the window's oldest id of that principal. -/
theorem Tracks.own_cons {principal oldest : String} {rest : List String} (h : Tracks cache queue w)
    (hids : cache.byPrincipal.lookup principal = some (oldest :: rest)) :
    ∃ e own, w.filter (Entry.isOf principal) = e :: own ∧ e.id = oldest ∧ Window.ids own = rest := by
  have hown := h.own_eq principal
  rw [own, hids, Option.getD_some] at hown
  cases hfilter : w.filter (Entry.isOf principal) with
  | nil => rw [hfilter] at hown; cases hown
  | cons e own =>
    rw [hfilter] at hown
    obtain ⟨hid, hrest⟩ := List.cons.inj hown
    exact ⟨e, own, rfl, hid.symm, hrest.symm⟩

/-- One round of the loop that makes room for a principal. -/
theorem Tracks.evictOwn {principal oldest : String} {rest : List String} (h : Tracks cache queue w)
    (hids : cache.byPrincipal.lookup principal = some (oldest :: rest)) :
    Tracks ({ cache with byPrincipal := cache.byPrincipal.insert principal rest }.remove oldest)
      queue (w.eraseP (Entry.isOf principal)) := by
  obtain ⟨e, own, hfilter, rfl, rfl⟩ := h.own_cons hids
  obtain ⟨hentries, hown, -⟩ := remove_popped h.filed hids
  have hremoved := h.remove e.id
  rw [without_own h.nodup hfilter] at hremoved
  exact ⟨by simpa only [hentries] using hremoved.mem_iff,
    by simpa only [hentries] using hremoved.queue_eq,
    fun other => (hown other).trans (hremoved.own_eq other), hremoved.nodup⟩

/-- Making room for a principal in the cache makes it in the window. -/
theorem evictPrincipal_tracks (principal : String) (rounds : Nat) (h : Tracks cache queue w)
    (hrounds : count principal w ≤ rounds) :
    Tracks (evictPrincipal principal rounds cache) queue (roomForOwn cache.limits principal w)
      ∧ (evictPrincipal principal rounds cache).limits = cache.limits
      ∧ (evictPrincipal principal rounds cache).insertionOrder = cache.insertionOrder := by
  induction rounds generalizing cache w with
  | zero =>
    rw [roomForOwn_of_count_eq_zero (Nat.le_zero.mp hrounds)]
    exact ⟨h, rfl, rfl⟩
  | succ rounds ih =>
    have hlength := h.length_own principal
    rcases hids : cache.byPrincipal.lookup principal with _ | _ | ⟨oldest, rest⟩
    · have hcount : count principal w = 0 := by rw [← hlength, own, hids]; rfl
      rw [evictPrincipal, hids, roomForOwn_of_count_eq_zero hcount]
      exact ⟨h, rfl, rfl⟩
    · have hcount : count principal w = 0 := by rw [← hlength, own, hids]; rfl
      rw [evictPrincipal, hids, roomForOwn_of_count_eq_zero hcount]
      exact ⟨h, rfl, rfl⟩
    · have hcount : count principal w = rest.length + 1 := by rw [← hlength, own, hids]; rfl
      rw [evictPrincipal, hids]
      dsimp only
      by_cases hfull : cache.perPrincipal ≤ rest.length + 1
      · obtain ⟨hnext, hlimits, horder⟩ := ih (h.evictOwn hids)
          (by rw [count_eraseP]; omega)
        obtain ⟨hframe, horder'⟩ := remove_frame
          { cache with byPrincipal := cache.byPrincipal.insert principal rest } oldest
        have hlimit : cache.limits.perPrincipal ≤ count principal w := hcount ▸ hfull
        rw [if_pos hfull, roomForOwn_of_le (by omega) hlimit]
        rw [hframe] at hnext hlimits
        exact ⟨hnext, hlimits, horder.trans horder'⟩
      · have hroom : count principal w < cache.limits.perPrincipal := hcount ▸ not_le.mp hfull
        rw [if_neg hfull, roomForOwn_of_lt hroom]
        exact ⟨h, rfl, rfl⟩

/-- Making room in the cache makes it in the window. -/
theorem evictFrom_tracks (queue : List String) (h : Tracks cache queue w) :
    Tracks (evictFrom queue cache) (evictFrom queue cache).insertionOrder
        (roomForAny cache.limits w)
      ∧ (evictFrom queue cache).limits = cache.limits
      ∧ (evictFrom queue cache).insertionOrder ⊆ queue := by
  induction queue generalizing cache w with
  | nil =>
    have hw : w = [] := by simpa [Window.ids] using h.queue_eq.symm
    subst hw
    rw [roomForAny, List.drop_nil]
    exact ⟨⟨h.mem_iff, rfl, h.own_eq, h.nodup⟩, rfl, List.Subset.refl _⟩
  | cons oldest queue ih =>
    rw [evictFrom, h.length_entries]
    by_cases hfull : cache.capacity ≤ w.length
    · obtain ⟨hframe, -⟩ := remove_frame cache oldest
      obtain ⟨hnext, hlimits, horder⟩ := ih h.removeOldest
      rw [hframe] at hnext hlimits
      rw [if_pos hfull]
      refine ⟨?_, hlimits, List.subset_cons_of_subset _ horder⟩
      by_cases hlive : oldest ∈ cache.entries
      · obtain ⟨e, rest, rfl, rfl⟩ := h.eq_cons hlive
        rwa [roomForAny_cons_of_le hfull, ← without_cons_self h.nodup]
      · -- a forgotten id is popped for nothing
        rwa [without_of_notMem (mt h.mem_entries.mpr hlive)] at hnext
    · have hroom : w.length < cache.limits.capacity := not_le.mp hfull
      rw [if_neg hfull, roomForAny_of_lt hroom]
      exact ⟨⟨h.mem_iff, h.queue_eq, h.own_eq, h.nodup⟩, rfl, List.Subset.refl _⟩

/-- There is nothing to do for a principal below its limit. -/
theorem evictPrincipal_of_lt {principal : String}
    (h : (cache.own principal).length < cache.perPrincipal) (rounds : Nat) :
    evictPrincipal principal rounds cache = cache := by
  cases rounds with
  | zero => rfl
  | succ rounds =>
    unfold evictPrincipal
    split
    · rename_i oldest rest hids
      rw [own, hids] at h
      exact if_neg (not_le.mpr h)
    · rfl

/-- There is nothing to do for a table below the capacity. -/
theorem evictFrom_of_lt (h : cache.entries.keys.length < cache.capacity) (queue : List String) :
    (evictFrom queue cache).entries = cache.entries := by
  cases queue with
  | nil => rfl
  | cons oldest rest =>
    rw [evictFrom, if_neg (not_le.mpr h)]

/-- A call on a cache below its limits forgets nothing that has not expired. -/
theorem Tracks.mem_checkAndInsert {principal eventId : String} {lapse : Nat}
    (h : Tracks cache cache.insertionOrder w) (hown : count principal w < cache.perPrincipal)
    (hany : w.length < cache.capacity) (hid : id ∈ (cache.pruneExpired now).entries) :
    id ∈ (cache.checkAndInsert principal eventId now lapse).2.entries := by
  have hpruned : Tracks (cache.pruneExpired now) (cache.pruneExpired now).insertionOrder
      (prune now w) := pruneFrom_tracks cache.insertionOrder h
  have hsub := prune_sublist now w
  have hlimits : (cache.pruneExpired now).limits = cache.limits := limits_pruneFrom _
  obtain ⟨hcapacity, hperPrincipal⟩ := Limits.mk.inj hlimits
  unfold checkAndInsert
  dsimp only
  split
  · exact hid
  · have hroom : ((cache.pruneExpired now).own principal).length
        < (cache.pruneExpired now).perPrincipal := by
      rw [hpruned.length_own, hperPrincipal]
      exact (hsub.countP_le).trans_lt hown
    rw [evictPrincipal_of_lt hroom]
    refine (AList.mem_insert _).mpr (Or.inr ?_)
    rw [evictFrom_of_lt (by rw [hpruned.length_entries, hcapacity]; exact hsub.length_le.trans_lt hany)]
    exact hid

/-- A new id that does not stand in the age queue is remembered at the young end. -/
theorem push_tracks (h : Tracks cache cache.insertionOrder w) (hnew : id ∉ cache.entries)
    (hqueue : id ∉ cache.insertionOrder) (principal : String) (expiresAt : Nat) :
    Tracks (cache.push principal id expiresAt) (cache.push principal id expiresAt).insertionOrder
      (w ++ [⟨id, principal, expiresAt⟩]) where
  mem_iff e := by
    obtain ⟨other, otherPrincipal, otherTime⟩ := e
    rw [List.mem_append, List.mem_singleton, h.mem_iff]
    by_cases hid : other = id
    · subst hid
      have hnone : cache.entries.lookup other = none := AList.lookup_eq_none.mpr hnew
      simp [hnone, push, eq_comm]
    · simp [push, hid, AList.lookup_insert_ne hid]
  queue_eq := by
    have hold : cache.insertionOrder.filter (· ∈ (cache.push principal id expiresAt).entries)
        = cache.insertionOrder.filter (· ∈ cache.entries) := by
      refine List.filter_congr ?_
      intro other hother
      have hne : other ≠ id := by
        rintro rfl
        exact hqueue hother
      simp [push, AList.mem_insert, hne]
    have hself : id ∈ (cache.push principal id expiresAt).entries := by simp [push]
    change (cache.insertionOrder ++ [id]).filter _ = _
    rw [List.filter_append, hold, h.queue_eq, List.filter_cons_of_pos (by simpa using hself)]
    simp [Window.ids]
  own_eq other := by
    by_cases hother : other = principal
    · subst hother
      have hown := h.own_eq other
      simp_all [push, own, Window.ids, Entry.isOf]
    · have hfilter : [(⟨id, principal, expiresAt⟩ : Entry String String)].filter (Entry.isOf other)
          = [] := by
        simp [Entry.isOf, Ne.symm hother]
      rw [List.filter_append, hfilter, List.append_nil, ← h.own_eq]
      simp [push, own, AList.lookup_insert_ne hother]
  nodup := nodup_concat h.nodup fun hmem => hnew (h.mem_entries.mpr hmem)

end Loops

/-- An id was forgotten and still stands in the age queue. -/
def Stale (cache : ReplayCache) (id : String) : Prop :=
  id ∈ cache.insertionOrder ∧ id ∉ cache.entries

instance (cache : ReplayCache) (id : String) : Decidable (cache.Stale id) :=
  inferInstanceAs (Decidable (_ ∧ _))

/-- **The cache answers as the window does**, wherever the presented id is not stale. -/
theorem checkAndInsert_tracks {w : Window String String} (h : Tracks cache cache.insertionOrder w)
    (expiry : Nat → Nat) (a : Attempt String String) (hstale : ¬ cache.Stale a.id) :
    (cache.checkAndInsert a.principal a.id a.now (expiry a.now)).1
        = (present cache.limits expiry w a).1
      ∧ Tracks (cache.checkAndInsert a.principal a.id a.now (expiry a.now)).2
        (cache.checkAndInsert a.principal a.id a.now (expiry a.now)).2.insertionOrder
        (present cache.limits expiry w a).2
      ∧ (cache.checkAndInsert a.principal a.id a.now (expiry a.now)).2.limits = cache.limits := by
  have hpruned : Tracks (cache.pruneExpired a.now) (cache.pruneExpired a.now).insertionOrder
      (prune a.now w) := pruneFrom_tracks cache.insertionOrder h
  have hlimits : (cache.pruneExpired a.now).limits = cache.limits := limits_pruneFrom _
  have hqueue : a.id ∈ (cache.pruneExpired a.now).insertionOrder →
      a.id ∈ (cache.pruneExpired a.now).entries :=
    mem_entries_pruneFrom _ h fun hid => not_not.mp fun hnot => hstale ⟨hid, hnot⟩
  unfold checkAndInsert present
  dsimp only
  by_cases hmem : a.id ∈ (cache.pruneExpired a.now).entries
  · rw [if_pos hmem, if_pos (hpruned.mem_entries.mp hmem)]
    exact ⟨rfl, hpruned, hlimits⟩
  · rw [if_neg hmem, if_neg (mt hpruned.mem_entries.mpr hmem)]
    refine ⟨rfl, ?_⟩
    obtain ⟨hown, hownLimits, hownOrder⟩ := evictPrincipal_tracks a.principal _ hpruned
      (le_of_eq (hpruned.length_own a.principal).symm)
    rw [hlimits] at hown hownLimits
    rw [← hownOrder] at hown
    unfold own at hown hownLimits hownOrder
    generalize hcache : evictPrincipal a.principal
      (((cache.pruneExpired a.now).byPrincipal.lookup a.principal).getD []).length
      (cache.pruneExpired a.now) = evicted at hown hownLimits hownOrder ⊢
    obtain ⟨hany, hanyLimits, hanyOrder⟩ := evictFrom_tracks evicted.insertionOrder hown
    rw [hownLimits] at hany hanyLimits
    refine ⟨push_tracks hany ?_ ?_ _ _, hanyLimits⟩
    · rw [hany.mem_entries]
      intro hid
      refine hmem (hpruned.mem_entries.mpr ?_)
      exact ((room_sublist cache.limits a.principal (prune a.now w)).map _).subset hid
    · intro hid
      exact hmem (hqueue (hownOrder ▸ hanyOrder hid))

/-- One call, with the lifetime every caller gives an id. -/
def call (cache : ReplayCache) (a : Attempt String String) : Bool × ReplayCache :=
  cache.checkAndInsert a.principal a.id a.now (saturatingAdd a.now 120)

theorem tracks_new (capacity perPrincipal : Nat) :
    Tracks (new capacity perPrincipal) (new capacity perPrincipal).insertionOrder [] where
  mem_iff e := by simp [new]
  queue_eq := rfl
  own_eq principal := by simp [new, own, Window.ids]
  nodup := List.nodup_nil

/-! ### What the cache keeps -/

/-- An id is remembered until the given time. -/
def Remembers (cache : ReplayCache) (id : String) (expiresAt : Nat) : Prop :=
  ∃ principal, cache.entries.lookup id = some ⟨principal, expiresAt⟩

/-- A call forgets an id that has not expired, to make room. -/
def Pushes (cache : ReplayCache) (a : Attempt String String) (id : String) : Prop :=
  id ∈ (cache.pruneExpired a.now).entries ∧ id ∉ (cache.call a).2.entries

theorem memoryLaws : MemoryLaws call (saturatingAdd · 120) Remembers Pushes where
  accepted cache a haccepted := by
    by_cases hmem : a.id ∈ (cache.pruneExpired a.now).entries
    · rw [call, checkAndInsert_of_mem _ _ hmem] at haccepted
      cases haccepted
    · obtain ⟨-, hlookup, -⟩ := checkAndInsert_of_notMem a.principal (saturatingAdd a.now 120) hmem
      exact ⟨a.principal, hlookup⟩
  kept cache a id expiresAt h hlive hkept := by
    obtain ⟨principal, hlookup⟩ := h
    have hpruned : (cache.pruneExpired a.now).entries.lookup id = some ⟨principal, expiresAt⟩ :=
      lookup_pruneFrom_of_lt _ hlookup hlive
    refine ⟨principal, ?_⟩
    by_cases hmem : a.id ∈ (cache.pruneExpired a.now).entries
    · rw [call, checkAndInsert_of_mem _ _ hmem]
      exact hpruned
    · obtain ⟨-, -, -, hothers⟩ := checkAndInsert_of_notMem a.principal (saturatingAdd a.now 120) hmem
      have hthere : id ∈ (cache.pruneExpired a.now).entries :=
        AList.lookup_isSome.mp (by rw [hpruned]; rfl)
      have hne : id ≠ a.id := fun hsame => hmem (hsame ▸ hthere)
      have hstays : id ∈ (cache.call a).2.entries := not_not.mp fun hgone => hkept ⟨hthere, hgone⟩
      obtain ⟨entry, hentry⟩ := Option.isSome_iff_exists.mp (AList.lookup_isSome.mpr hstays)
      rw [hentry, ← hothers id entry hne hentry, hpruned]
  refused cache a expiresAt h hlive := by
    obtain ⟨principal, hlookup⟩ := h
    have hpruned : (cache.pruneExpired a.now).entries.lookup a.id = some ⟨principal, expiresAt⟩ :=
      lookup_pruneFrom_of_lt _ hlookup hlive
    rw [call, checkAndInsert_of_mem _ _ (AList.lookup_isSome.mp (by rw [hpruned]; rfl))]

end BlossomRs.Server.ReplayCache

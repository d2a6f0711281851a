import BlossomRs.Lib.Assoc
import BlossomRs.Server.ReplayRefinement

/-!
# The replay cache of the stream transport

Accepted events are remembered by id, with one age queue and a count for each principal.  An id that
is forgotten also leaves the age queue, so the cache is a `ReplayWindow` without leftovers
(`commit_tracks`).

The HTTP server's cache leaves forgotten ids standing in its age queue.  `same_answers` says when the
two caches answer alike, and `stale_position_differs` is a run on which they do not.
-/

namespace BlossomRs.Transport

open Auth ReplayWindow

structure ReplayEntry where
  principal : String
  expiresAt : Nat
deriving DecidableEq

structure ReplayCache where
  entries : AList fun _ : String => ReplayEntry
  order : List String
  perPrincipal : AList fun _ : String => Nat
  maxEntries : Nat
  maxPerPrincipal : Nat

namespace ReplayCache

/-- `ReplayCache::new`. -/
def new (maxEntries maxPerPrincipal : Nat) : ReplayCache where
  entries := ∅
  order := []
  perPrincipal := ∅
  maxEntries := maxEntries
  maxPerPrincipal := maxPerPrincipal

/-- `ReplayCache::remove_entry`. -/
def removeEntry (cache : ReplayCache) (eventId : String) : ReplayCache :=
  match cache.entries.lookup eventId with
  | none => cache
  | some entry =>
    let cache := { cache with entries := cache.entries.erase eventId }
    match cache.perPrincipal.lookup entry.principal with
    | none => cache
    | some count =>
      if count - 1 = 0 then
        { cache with perPrincipal := cache.perPrincipal.erase entry.principal }
      else { cache with perPrincipal := cache.perPrincipal.insert entry.principal (count - 1) }

/-- `ReplayCache::evict_oldest`. -/
def evictOldest (cache : ReplayCache) : Option ReplayCache :=
  match cache.order with
  | [] => none
  | eventId :: rest => some ({ cache with order := rest }.removeEntry eventId)

/-- An id is remembered for the principal. -/
def isOwn (cache : ReplayCache) (principal eventId : String) : Bool :=
  (cache.entries.lookup eventId).any (·.principal == principal)

/-- `ReplayCache::evict_oldest_for`: the first id of the principal leaves the queue. -/
def evictOldestFor (cache : ReplayCache) (principal : String) : Option ReplayCache :=
  (cache.order.find? (cache.isOwn principal)).map fun eventId =>
    { cache with order := cache.order.eraseP (cache.isOwn principal) }.removeEntry eventId

/-- The pruning loop.  Each round of this and of the other loops takes one id off the queue, so the
length of the queue bounds the rounds. -/
def pruneLoop (now : Nat) : Nat → ReplayCache → ReplayCache
  | 0, cache => cache
  | rounds + 1, cache =>
    match cache.order with
    | [] => cache
    | eventId :: _ =>
      if (cache.entries.lookup eventId).all (·.expiresAt ≤ now) then
        pruneLoop now rounds (cache.evictOldest.getD cache)
      else cache

/-- `ReplayCache::prune_expired`. -/
def pruneExpired (cache : ReplayCache) (now : Nat) : ReplayCache :=
  pruneLoop now cache.order.length cache

/-- The loop that makes room for one more id of a principal. -/
def principalLoop (principal : String) : Nat → ReplayCache → ReplayCache
  | 0, cache => cache
  | rounds + 1, cache =>
    if cache.maxPerPrincipal ≤ (cache.perPrincipal.lookup principal).getD 0 then
      match cache.evictOldestFor principal with
      | some cache => principalLoop principal rounds cache
      | none => cache
    else cache

/-- The loop that makes room for one more id overall. -/
def capacityLoop : Nat → ReplayCache → ReplayCache
  | 0, cache => cache
  | rounds + 1, cache =>
    if cache.maxEntries ≤ cache.entries.keys.length then
      match cache.evictOldest with
      | some cache => capacityLoop rounds cache
      | none => cache
    else cache

/-- The entry, the queue and the count receive the id. -/
def push (cache : ReplayCache) (eventId principal : String) (expiresAt : Nat) : ReplayCache :=
  { cache with
    entries := cache.entries.insert eventId ⟨principal, expiresAt⟩
    order := cache.order ++ [eventId]
    perPrincipal := cache.perPrincipal.insert principal
      ((cache.perPrincipal.lookup principal).getD 0 + 1) }

/-- `ReplayCache::commit`: false for an id that is still remembered. -/
def commit (cache : ReplayCache) (eventId principal : String) (now : Nat) : Bool × ReplayCache :=
  let cache := cache.pruneExpired now
  if eventId ∈ cache.entries then (false, cache)
  else
    let cache := principalLoop principal cache.order.length cache
    let cache := capacityLoop cache.order.length cache
    (true, cache.push eventId principal (saturatingAdd now 120))

/-! ### The window behind the cache -/

/-- The cache remembers a window. -/
structure Tracks (cache : ReplayCache) (w : Window String String) : Prop where
  mem_iff : ∀ e : Entry String String,
    e ∈ w ↔ cache.entries.lookup e.id = some ⟨e.principal, e.expiresAt⟩
  order_eq : cache.order = w.ids
  count_eq : ∀ principal, (cache.perPrincipal.lookup principal).getD 0 = count principal w
  nodup : w.ids.Nodup

/-- The limits of a cache. -/
def limits (cache : ReplayCache) : Limits :=
  ⟨cache.maxEntries, cache.maxPerPrincipal⟩

/-- What removing a remembered id does: its entry goes, and its principal's count drops. -/
theorem removeEntry_of_lookup {cache : ReplayCache} {id : String} {entry : ReplayEntry}
    (hentry : cache.entries.lookup id = some entry) :
    ∃ perPrincipal : AList fun _ : String => Nat,
      cache.removeEntry id = { cache with
        entries := cache.entries.erase id
        perPrincipal := perPrincipal }
      ∧ ∀ principal, (perPrincipal.lookup principal).getD 0
        = (cache.perPrincipal.lookup principal).getD 0
          - if entry.principal = principal then 1 else 0 := by
  simp only [removeEntry, hentry]
  cases hcount : cache.perPrincipal.lookup entry.principal with
  | none =>
    refine ⟨cache.perPrincipal, rfl, fun principal => ?_⟩
    split
    · rename_i hprincipal
      rw [← hprincipal, hcount]
      rfl
    · rfl
  | some count =>
    dsimp only
    split <;>
    · refine ⟨_, rfl, fun principal => ?_⟩
      rcases eq_or_ne principal entry.principal with rfl | hne
      · simp [*]
      · simp [hne, Ne.symm hne]

namespace Tracks

variable {cache : ReplayCache} {w : Window String String}

theorem mem_entries (h : Tracks cache w) {id : String} : id ∈ cache.entries ↔ id ∈ w.ids := by
  rw [← AList.lookup_isSome, Option.isSome_iff_exists, Window.ids, List.mem_map]
  constructor
  · rintro ⟨entry, hentry⟩
    exact ⟨⟨id, entry.principal, entry.expiresAt⟩, (h.mem_iff _).mpr hentry, rfl⟩
  · rintro ⟨e, he, rfl⟩
    exact ⟨_, (h.mem_iff e).mp he⟩

theorem length_entries (h : Tracks cache w) : cache.entries.keys.length = w.length := by
  have hperm : cache.entries.keys.Perm w.ids := by
    rw [List.perm_ext_iff_of_nodup cache.entries.keys_nodup h.nodup]
    intro id
    rw [← AList.mem_keys, h.mem_entries]
  rw [hperm.length_eq, Window.ids, List.length_map]

variable {e : Entry String String}

theorem isOwn_eq (h : Tracks cache w) (principal : String) (he : e ∈ w) :
    cache.isOwn principal e.id = e.isOf principal := by
  rw [isOwn, (h.mem_iff e).mp he]
  rfl

/-- Taking an id out of the queue and out of the cache takes it out of the window. -/
theorem remove (h : Tracks cache w) (he : e ∈ w) {order : List String}
    (horder : order = (without e.id w).ids) :
    Tracks ({ cache with order := order }.removeEntry e.id) (without e.id w)
      ∧ ({ cache with order := order }.removeEntry e.id).limits = cache.limits := by
  have hentry : ({ cache with order := order } : ReplayCache).entries.lookup e.id
      = some ⟨e.principal, e.expiresAt⟩ := (h.mem_iff e).mp he
  obtain ⟨perPrincipal, heq, hcount⟩ := removeEntry_of_lookup hentry
  rw [heq]
  refine ⟨⟨fun other => ?_, horder, fun principal => ?_, ?_⟩, rfl⟩
  · obtain ⟨other, principal, expiresAt⟩ := other
    rw [mem_without, h.mem_iff]
    by_cases hother : other = e.id <;> simp [hother, Assoc.lookup_erase_eq]
  · refine (hcount principal).trans ?_
    have hwithout := count_without h.nodup he principal
    rw [h.count_eq principal, hwithout, Nat.add_sub_cancel]
  · rw [ids_without]
    exact h.nodup.filter _

/-- Evicting the oldest id of a nonempty window. -/
theorem evictOldest (h : Tracks cache (e :: w)) :
    ∃ cache', cache.evictOldest = some cache' ∧ Tracks cache' w ∧ cache'.limits = cache.limits := by
  have horder : cache.order = e.id :: w.ids := h.order_eq
  have hwithout := without_cons_self h.nodup
  have hrest : w.ids = (without e.id (e :: w)).ids := by rw [hwithout]
  obtain ⟨htracks, hlimits⟩ := h.remove List.mem_cons_self hrest
  rw [hwithout] at htracks
  exact ⟨_, by rw [ReplayCache.evictOldest, horder], htracks, hlimits⟩

/-- The principal's oldest id stands where the queue is searched for it. -/
theorem eraseP_ids (h : Tracks cache w) (principal : String) (part : Window String String)
    (hpart : ∀ e ∈ part, e ∈ w) :
    part.ids.eraseP (cache.isOwn principal) = Window.ids (part.eraseP (Entry.isOf principal)) := by
  induction part with
  | nil => rfl
  | cons e part ih =>
    have hown := h.isOwn_eq principal (hpart e List.mem_cons_self)
    have hids : Window.ids (e :: part) = e.id :: Window.ids part := rfl
    by_cases he : e.isOf principal = true
    · rw [List.eraseP_cons_of_pos he, hids, List.eraseP_cons_of_pos (hown.trans he)]
    · rw [List.eraseP_cons_of_neg he, hids, List.eraseP_cons_of_neg (by rwa [hown]),
        ih fun other hother => hpart other (List.mem_cons_of_mem _ hother)]
      rfl

/-- Evicting the oldest id of a principal that has one. -/
theorem evictOldestFor {principal : String} {own : Window String String} (h : Tracks cache w)
    (hown : w.filter (Entry.isOf principal) = e :: own) :
    ∃ cache', cache.evictOldestFor principal = some cache'
      ∧ Tracks cache' (w.eraseP (Entry.isOf principal)) ∧ cache'.limits = cache.limits := by
  have hfind : cache.order.find? (cache.isOwn principal) = some e.id := by
    have hsame : w.find? (fun e => cache.isOwn principal e.id) = w.find? (Entry.isOf principal) :=
      List.find?_congr fun e he => h.isOwn_eq principal he
    rw [h.order_eq, Window.ids, List.find?_map, Function.comp_def, hsame, ← List.head?_filter, hown]
    rfl
  have herase : cache.order.eraseP (cache.isOwn principal) = (without e.id w).ids := by
    rw [h.order_eq, h.eraseP_ids principal w fun e he => he, without_own h.nodup hown]
  have hmem : e ∈ w := List.mem_of_mem_filter (hown ▸ List.mem_cons_self)
  obtain ⟨htracks, hlimits⟩ := h.remove hmem herase
  rw [without_own h.nodup hown] at htracks
  exact ⟨_, by rw [ReplayCache.evictOldestFor, hfind]; rfl, htracks, hlimits⟩

theorem evictOldestFor_eq_none {principal : String} (h : Tracks cache w)
    (hown : w.filter (Entry.isOf principal) = []) : cache.evictOldestFor principal = none := by
  have hnone : w.find? (fun e => cache.isOwn principal e.id) = none := by
    rw [List.find?_congr fun e he => h.isOwn_eq principal he, ← List.head?_filter, hown]
    rfl
  rw [ReplayCache.evictOldestFor, h.order_eq, Window.ids, List.find?_map, Function.comp_def, hnone]
  rfl

end Tracks

/-! ### The loops -/

section Loops

variable {cache : ReplayCache} {w : Window String String}

theorem Tracks.order_length (h : Tracks cache w) : cache.order.length = w.length := by
  rw [h.order_eq, Window.ids, List.length_map]

/-- Pruning the cache prunes the window. -/
theorem pruneLoop_tracks (now rounds : Nat) (h : Tracks cache w)
    (hrounds : w.length ≤ rounds) :
    Tracks (pruneLoop now rounds cache) (prune now w)
      ∧ (pruneLoop now rounds cache).limits = cache.limits := by
  induction rounds generalizing cache w with
  | zero =>
    obtain rfl := List.length_eq_zero_iff.mp (Nat.le_zero.mp hrounds)
    exact ⟨h, rfl⟩
  | succ rounds ih =>
    cases w with
    | nil =>
      rw [pruneLoop, h.order_eq]
      exact ⟨h, rfl⟩
    | cons e w =>
      have horder : cache.order = e.id :: Window.ids w := h.order_eq
      have hentry := (h.mem_iff e).mp List.mem_cons_self
      rw [pruneLoop, horder]
      dsimp only
      by_cases hexpired : e.expiresAt ≤ now
      · obtain ⟨cache', heq, htracks, hlimits⟩ := h.evictOldest
        have hprune : prune now (e :: w) = prune now w :=
          List.dropWhile_cons_of_pos (by simpa using hexpired)
        rw [if_pos (by simpa [hentry] using hexpired), heq, hprune, ← hlimits]
        exact ih htracks (Nat.le_of_succ_le_succ hrounds)
      · have hprune : prune now (e :: w) = e :: w :=
          List.dropWhile_cons_of_neg (by simpa using hexpired)
        rw [if_neg (by simpa [hentry] using hexpired), hprune]
        exact ⟨h, rfl⟩

/-- Making room for a principal in the cache makes it in the window. -/
theorem principalLoop_tracks (principal : String) (rounds : Nat) (h : Tracks cache w)
    (hrounds : count principal w ≤ rounds) :
    Tracks (principalLoop principal rounds cache) (roomForOwn cache.limits principal w)
      ∧ (principalLoop principal rounds cache).limits = cache.limits := by
  induction rounds generalizing cache w with
  | zero =>
    rw [roomForOwn_of_count_eq_zero (Nat.le_zero.mp hrounds)]
    exact ⟨h, rfl⟩
  | succ rounds ih =>
    rw [principalLoop, h.count_eq]
    by_cases hfull : cache.maxPerPrincipal ≤ count principal w
    · rw [if_pos hfull]
      cases hown : w.filter (Entry.isOf principal) with
      | nil =>
        have hcount : count principal w = 0 := by
          rw [count, List.countP_eq_length_filter, hown]
          rfl
        rw [h.evictOldestFor_eq_none hown, roomForOwn_of_count_eq_zero hcount]
        exact ⟨h, rfl⟩
      | cons e own =>
        have hcount : count principal w = own.length + 1 := by
          rw [count, List.countP_eq_length_filter, hown]
          rfl
        obtain ⟨cache', heq, htracks, hlimits⟩ := h.evictOldestFor hown
        have hlimit : cache.limits.perPrincipal ≤ count principal w := hfull
        rw [heq, roomForOwn_of_le (by omega) hlimit, ← hlimits]
        exact ih htracks (by rw [count_eraseP]; omega)
    · have hroom : count principal w < cache.limits.perPrincipal := not_le.mp hfull
      rw [if_neg hfull, roomForOwn_of_lt hroom]
      exact ⟨h, rfl⟩

/-- Making room in the cache makes it in the window. -/
theorem capacityLoop_tracks (rounds : Nat) (h : Tracks cache w) (hrounds : w.length ≤ rounds) :
    Tracks (capacityLoop rounds cache) (roomForAny cache.limits w)
      ∧ (capacityLoop rounds cache).limits = cache.limits := by
  induction rounds generalizing cache w with
  | zero =>
    obtain rfl := List.length_eq_zero_iff.mp (Nat.le_zero.mp hrounds)
    rw [roomForAny, List.drop_nil]
    exact ⟨h, rfl⟩
  | succ rounds ih =>
    rw [capacityLoop, h.length_entries]
    by_cases hfull : cache.maxEntries ≤ w.length
    · rw [if_pos hfull]
      cases w with
      | nil =>
        rw [ReplayCache.evictOldest, h.order_eq, roomForAny, List.drop_nil]
        exact ⟨h, rfl⟩
      | cons e w =>
        obtain ⟨cache', heq, htracks, hlimits⟩ := h.evictOldest
        have hlimit : cache.limits.capacity ≤ (e :: w).length := hfull
        rw [heq, roomForAny_cons_of_le hlimit, ← hlimits]
        exact ih htracks (Nat.le_of_succ_le_succ hrounds)
    · have hroom : w.length < cache.limits.capacity := not_le.mp hfull
      rw [if_neg hfull, roomForAny_of_lt hroom]
      exact ⟨h, rfl⟩

/-- A new id is remembered at the young end. -/
theorem push_tracks (h : Tracks cache w) {id : String} (hnew : id ∉ cache.entries)
    (principal : String) (expiresAt : Nat) :
    Tracks (cache.push id principal expiresAt) (w ++ [⟨id, principal, expiresAt⟩]) where
  mem_iff e := by
    obtain ⟨other, otherPrincipal, otherTime⟩ := e
    rw [List.mem_append, List.mem_singleton, h.mem_iff]
    by_cases hid : other = id
    · subst hid
      have hnone : cache.entries.lookup other = none := AList.lookup_eq_none.mpr hnew
      simp [hnone, push, eq_comm]
    · simp [push, hid, AList.lookup_insert_ne hid]
  order_eq := by
    simp [push, h.order_eq, Window.ids]
  count_eq other := by
    have hcount : count other (w ++ [⟨id, principal, expiresAt⟩])
        = count other w + if principal = other then 1 else 0 := by
      simp [count, Entry.isOf]
    rw [hcount]
    by_cases hother : other = principal
    · subst hother
      simp [push, h.count_eq]
    · simp [push, Ne.symm hother, AList.lookup_insert_ne hother, h.count_eq]
  nodup := nodup_concat h.nodup fun hmem => hnew (h.mem_entries.mpr hmem)

end Loops

/-- **The cache answers as the window does.** -/
theorem commit_tracks {cache : ReplayCache} {w : Window String String} (h : Tracks cache w)
    (a : Attempt String String) :
    (cache.commit a.id a.principal a.now).1
        = (present cache.limits (saturatingAdd · 120) w a).1
      ∧ Tracks (cache.commit a.id a.principal a.now).2
        (present cache.limits (saturatingAdd · 120) w a).2
      ∧ (cache.commit a.id a.principal a.now).2.limits = cache.limits := by
  obtain ⟨hpruned, hlimits⟩ := pruneLoop_tracks a.now cache.order.length h
    (le_of_eq h.order_length.symm)
  change Tracks (cache.pruneExpired a.now) _ at hpruned
  change (cache.pruneExpired a.now).limits = _ at hlimits
  unfold commit present
  dsimp only
  by_cases hmem : a.id ∈ (cache.pruneExpired a.now).entries
  · rw [if_pos hmem, if_pos (hpruned.mem_entries.mp hmem)]
    exact ⟨rfl, hpruned, hlimits⟩
  · rw [if_neg hmem, if_neg (mt hpruned.mem_entries.mpr hmem)]
    refine ⟨rfl, ?_⟩
    have hcount : count a.principal (prune a.now w) ≤ (cache.pruneExpired a.now).order.length :=
      hpruned.order_length ▸ List.countP_le_length
    obtain ⟨hown, hownLimits⟩ := principalLoop_tracks a.principal _ hpruned hcount
    rw [hlimits] at hown hownLimits
    generalize principalLoop a.principal (cache.pruneExpired a.now).order.length
      (cache.pruneExpired a.now) = evicted at hown hownLimits ⊢
    obtain ⟨hany, hanyLimits⟩ := capacityLoop_tracks evicted.order.length hown
      (le_of_eq hown.order_length.symm)
    rw [hownLimits] at hany hanyLimits
    refine ⟨push_tracks hany ?_ _ _, hanyLimits⟩
    rw [hany.mem_entries]
    intro hid
    refine hmem (hpruned.mem_entries.mpr ?_)
    exact ((room_sublist cache.limits a.principal (prune a.now w)).map _).subset hid

/-- One call. -/
def call (cache : ReplayCache) (a : Attempt String String) : Bool × ReplayCache :=
  cache.commit a.id a.principal a.now

theorem tracks_new (maxEntries maxPerPrincipal : Nat) :
    Tracks (new maxEntries maxPerPrincipal) [] where
  mem_iff e := by simp [new]
  order_eq := rfl
  count_eq principal := by simp [new, count]
  nodup := List.nodup_nil

/-! ### What the cache keeps -/

theorem lookup_removeEntry (cache : ReplayCache) (eventId id : String) :
    (cache.removeEntry eventId).entries.lookup id
      = if id = eventId then none else cache.entries.lookup id := by
  cases hentry : cache.entries.lookup eventId with
  | none =>
    have hsame : cache.removeEntry eventId = cache := by simp only [removeEntry, hentry]
    rw [hsame]
    split
    · rename_i hid
      rw [hid, hentry]
    · rfl
  | some entry =>
    obtain ⟨perPrincipal, heq, -⟩ := removeEntry_of_lookup hentry
    rw [heq]
    exact Assoc.lookup_erase_eq _ _ _

section Keeps

variable {cache cache' : ReplayCache} {id : String} {entry : ReplayEntry}

/-- Removing an id only forgets. -/
theorem lookup_of_lookup_removeEntry {eventId : String}
    (h : (cache.removeEntry eventId).entries.lookup id = some entry) :
    cache.entries.lookup id = some entry := by
  rw [lookup_removeEntry] at h
  split at h
  · cases h
  · exact h

theorem lookup_of_evictOldest (hevict : cache.evictOldest = some cache')
    (h : cache'.entries.lookup id = some entry) : cache.entries.lookup id = some entry := by
  unfold evictOldest at hevict
  split at hevict
  · cases hevict
  · obtain rfl := Option.some.inj hevict
    have hold := lookup_of_lookup_removeEntry h
    exact hold

theorem lookup_of_evictOldestFor {principal : String}
    (hevict : cache.evictOldestFor principal = some cache')
    (h : cache'.entries.lookup id = some entry) : cache.entries.lookup id = some entry := by
  obtain ⟨eventId, -, rfl⟩ := Option.map_eq_some_iff.mp hevict
  have hold := lookup_of_lookup_removeEntry h
  exact hold

theorem lookup_of_lookup_principalLoop (principal : String) (rounds : Nat)
    (h : (principalLoop principal rounds cache).entries.lookup id = some entry) :
    cache.entries.lookup id = some entry := by
  induction rounds generalizing cache with
  | zero => exact h
  | succ rounds ih =>
    unfold principalLoop at h
    split at h
    · split at h
      · rename_i hevict
        exact lookup_of_evictOldestFor hevict (ih h)
      · exact h
    · exact h

theorem lookup_of_lookup_capacityLoop (rounds : Nat)
    (h : (capacityLoop rounds cache).entries.lookup id = some entry) :
    cache.entries.lookup id = some entry := by
  induction rounds generalizing cache with
  | zero => exact h
  | succ rounds ih =>
    unfold capacityLoop at h
    split at h
    · split at h
      · rename_i hevict
        exact lookup_of_evictOldest hevict (ih h)
      · exact h
    · exact h

/-- Pruning leaves what has not expired. -/
theorem lookup_pruneLoop_of_lt {now : Nat} (rounds : Nat)
    (h : cache.entries.lookup id = some entry) (hlive : now < entry.expiresAt) :
    (pruneLoop now rounds cache).entries.lookup id = some entry := by
  induction rounds generalizing cache with
  | zero => exact h
  | succ rounds ih =>
    unfold pruneLoop
    split
    · exact h
    · rename_i eventId rest horder
      split
      · rename_i hexpired
        refine ih ?_
        rw [evictOldest, horder]
        change (removeEntry _ eventId).entries.lookup id = _
        rw [lookup_removeEntry, if_neg]
        · exact h
        -- the id at the front has expired, so it is another one
        rintro rfl
        rw [h] at hexpired
        exact absurd (by simpa using hexpired) (not_le.mpr hlive)
      · exact h

end Keeps

/-- An id is remembered until the given time. -/
def Remembers (cache : ReplayCache) (id : String) (expiresAt : Nat) : Prop :=
  ∃ principal, cache.entries.lookup id = some ⟨principal, expiresAt⟩

/-- A call forgets an id that has not expired, to make room. -/
def Pushes (cache : ReplayCache) (a : Attempt String String) (id : String) : Prop :=
  id ∈ (cache.pruneExpired a.now).entries ∧ id ∉ (cache.call a).2.entries

theorem memoryLaws : MemoryLaws call (saturatingAdd · 120) Remembers Pushes where
  accepted cache a haccepted := by
    unfold call commit at haccepted ⊢
    dsimp only at haccepted ⊢
    split at haccepted
    · cases haccepted
    · rename_i hnew
      rw [if_neg hnew]
      exact ⟨a.principal, by simp [push]⟩
  kept cache a id expiresAt h hlive hkept := by
    obtain ⟨principal, hlookup⟩ := h
    have hpruned : (cache.pruneExpired a.now).entries.lookup id = some ⟨principal, expiresAt⟩ :=
      lookup_pruneLoop_of_lt _ hlookup hlive
    have hthere : id ∈ (cache.pruneExpired a.now).entries :=
      AList.lookup_isSome.mp (by rw [hpruned]; rfl)
    have hstays : id ∈ (cache.call a).2.entries := not_not.mp fun hgone => hkept ⟨hthere, hgone⟩
    refine ⟨principal, ?_⟩
    obtain ⟨entry, hentry⟩ := Option.isSome_iff_exists.mp (AList.lookup_isSome.mpr hstays)
    rw [hentry, ← hpruned]
    unfold call commit at hentry
    dsimp only at hentry
    split at hentry
    · exact hentry.symm
    · rename_i hnew
      have hne : id ≠ a.id := fun hsame => hnew (hsame ▸ hthere)
      rw [push, AList.lookup_insert_ne hne] at hentry
      exact (lookup_of_lookup_principalLoop _ _ (lookup_of_lookup_capacityLoop _ hentry)).symm
  refused cache a expiresAt h hlive := by
    obtain ⟨principal, hlookup⟩ := h
    have hpruned : (cache.pruneExpired a.now).entries.lookup a.id = some ⟨principal, expiresAt⟩ :=
      lookup_pruneLoop_of_lt _ hlookup hlive
    unfold call commit
    dsimp only
    rw [if_pos (AList.lookup_isSome.mp (by rw [hpruned]; rfl))]

end ReplayCache

/-! ### Two caches -/

/-- The HTTP server's cache has the answers of the window on a run that presents no stale id. -/
theorem log_httpCall (capacity perPrincipal : Nat) (attempts : List (Attempt String String))
    (hfresh : ∀ pre a post, attempts = pre ++ a :: post →
      ¬ (Runs.after Server.ReplayCache.call (.new capacity perPrincipal) pre).Stale a.id) :
    Runs.log Server.ReplayCache.call (.new capacity perPrincipal) attempts
      = Runs.log (present ⟨capacity, perPrincipal⟩ (saturatingAdd · 120)) [] attempts := by
  refine Runs.log_eq_of_simulates
    (R := fun cache w => Server.ReplayCache.Tracks cache cache.insertionOrder w
      ∧ cache.limits = ⟨capacity, perPrincipal⟩)
    ⟨Server.ReplayCache.tracks_new capacity perPrincipal, rfl⟩ ?_
  rintro pre a post hsplit ⟨htracks, hlimits⟩
  obtain ⟨hanswer, hnext, hkept⟩ := Server.ReplayCache.checkAndInsert_tracks htracks
    (saturatingAdd · 120) a (hfresh pre a post hsplit)
  rw [hlimits] at hanswer hnext hkept
  exact ⟨hanswer, hnext, hkept⟩

/-- The stream transport's cache has the answers of the window on every run. -/
theorem log_streamCall (capacity perPrincipal : Nat) (attempts : List (Attempt String String)) :
    Runs.log ReplayCache.call (.new capacity perPrincipal) attempts
      = Runs.log (present ⟨capacity, perPrincipal⟩ (saturatingAdd · 120)) [] attempts := by
  refine Runs.log_eq_of_simulates
    (R := fun cache w => ReplayCache.Tracks cache w ∧ cache.limits = ⟨capacity, perPrincipal⟩)
    ⟨ReplayCache.tracks_new capacity perPrincipal, rfl⟩ ?_
  rintro pre a post - ⟨htracks, hlimits⟩
  obtain ⟨hanswer, hnext, hkept⟩ := ReplayCache.commit_tracks htracks a
  rw [hlimits] at hanswer hnext hkept
  exact ⟨hanswer, hnext, hkept⟩

/-- **Two caches, one answer.**  On a run that never presents an id while it is stale in the HTTP
server's cache, both caches give the same answers, and they are the ones a replay cache should give:
an accepted id is refused until it expires or newer ids have reached a limit. -/
theorem same_answers (capacity perPrincipal : Nat) (attempts : List (Attempt String String))
    (hclock : attempts.Pairwise (·.now ≤ ·.now))
    (hfresh : ∀ pre a post, attempts = pre ++ a :: post →
      ¬ (Runs.after Server.ReplayCache.call (.new capacity perPrincipal) pre).Stale a.id) :
    Runs.log Server.ReplayCache.call (.new capacity perPrincipal) attempts
        = Runs.log ReplayCache.call (.new capacity perPrincipal) attempts
      ∧ RefusesReplays ⟨capacity, perPrincipal⟩ (saturatingAdd · 120)
        (Runs.log Server.ReplayCache.call (.new capacity perPrincipal) attempts) := by
  rw [log_httpCall capacity perPrincipal attempts hfresh, log_streamCall]
  exact ⟨rfl, refusesReplays _ _ attempts hclock⟩

/-- A run without stale ids: an id, the same again, and after its principal's next one a third
principal's. -/
def freshRun : List (Attempt String String) :=
  [⟨"A", "x", 10⟩, ⟨"A", "x", 11⟩, ⟨"A", "y", 12⟩, ⟨"B", "z", 13⟩]

theorem freshRun_same_answers :
    Runs.log Server.ReplayCache.call (.new 3 1) freshRun = Runs.log ReplayCache.call (.new 3 1) freshRun
      ∧ (Runs.log Server.ReplayCache.call (.new 3 1) freshRun).map (·.2) = [true, false, true, true]
      ∧ RefusesReplays ⟨3, 1⟩ (saturatingAdd · 120) (Runs.log Server.ReplayCache.call (.new 3 1) freshRun) := by
  have hclock : freshRun.Pairwise (·.now ≤ ·.now) := by decide
  have hfresh : ∀ pre a post, freshRun = pre ++ a :: post →
      ¬ (Runs.after Server.ReplayCache.call (.new 3 1) pre).Stale a.id := by
    rw [freshRun, Runs.forall_split_cons, Runs.forall_split_cons, Runs.forall_split_cons,
      Runs.forall_split_cons, Runs.forall_split_nil]
    decide
  obtain ⟨hsame, hrefuses⟩ := same_answers 3 1 freshRun hclock hfresh
  exact ⟨hsame, by decide, hrefuses⟩

/-- A run that presents an id again after it was pushed out for its principal's limit. -/
def staleRun : List (Attempt String String) :=
  [⟨"B", "y", 0⟩, ⟨"A", "x", 1⟩, ⟨"C", "z", 2⟩, ⟨"A", "x2", 3⟩, ⟨"A", "x", 4⟩, ⟨"D", "w", 5⟩,
    ⟨"E", "v", 6⟩, ⟨"A", "x", 7⟩]

/-- The HTTP server's cache then forgets the id by its old place in the age queue, although only two
newer ids have been accepted and three fit, and accepts it a third time. -/
theorem stale_position_differs :
    staleRun.Pairwise (·.now ≤ ·.now)
      ∧ (Runs.log Server.ReplayCache.call (.new 3 1) staleRun).map (·.2)
        = [true, true, true, true, true, true, true, true]
      ∧ (Runs.log ReplayCache.call (.new 3 1) staleRun).map (·.2)
        = [true, true, true, true, true, true, true, false]
      ∧ ¬ RefusesReplays ⟨3, 1⟩ (saturatingAdd · 120) (Runs.log Server.ReplayCache.call (.new 3 1) staleRun) := by
  refine ⟨by decide, by decide, by decide, ?_⟩
  intro hrefuses
  have hanswer := hrefuses (Runs.log Server.ReplayCache.call (.new 3 1) (staleRun.take 4)) ⟨"A", "x", 4⟩
    [(⟨"D", "w", 5⟩, true), (⟨"E", "v", 6⟩, true)] ⟨"A", "x", 7⟩ true [] (by decide)
    rfl (by decide) (by decide) (by decide)
  exact nomatch hanswer

end BlossomRs.Transport

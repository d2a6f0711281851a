import BlossomRs.Locks.Listings

/-!
# Paging through locks

A client lists locks page by page: it starts without a cursor and sends the cursor of each page for the
next one.  The pages are those of `Paging.walk`, with the offsets as text (`follow_eq_walk`).

A page of no locks announces itself as the next page, and the end of a page is a machine word that a
cursor near its limit takes beyond it.  `paging_iff` says that nothing else goes wrong.
-/

namespace BlossomRs.Locks

open Paging

namespace MemoryLockDatabase

/-- The pages a client gets from a cursor on, if there are no more than so many. -/
def follow (db : MemoryLockDatabase) (repo : String) (filters : LockFilters) :
    Nat → Option String → Option (List (List LockRecord))
  | 0, _ => none
  | fuel + 1, cursor =>
    match db.listLocks repo { filters with cursor := cursor } with
    | (locks, none) => some [locks]
    | (locks, some next) => (follow db repo filters fuel (some next)).map (locks :: ·)

/-- Without a cursor at first, the pages come to an end and have every lock that matches once, in the
order of time. -/
def VisitsAll (db : MemoryLockDatabase) (repo : String) (filters : LockFilters) : Prop :=
  ∃ fuel pages, db.follow repo filters fuel none = some pages
    ∧ pages.flatten.Perm (db.values.filter (Matches repo filters))
    ∧ pages.flatten.Pairwise fun a b => a.lockedAt < b.lockedAt

/-- The end of a page is a machine word, and the slice between its ends is in range. -/
structure ComputesPage (db : MemoryLockDatabase) (repo : String) (filters : LockFilters) : Prop where
  word : start filters + pageLimit filters < 2 ^ 64
  slice : start filters < (db.matching repo filters).length →
    start filters ≤ min ((start filters + pageLimit filters) % 2 ^ 64)
      (db.matching repo filters).length

end MemoryLockDatabase

open MemoryLockDatabase

section

variable {db : MemoryLockDatabase} {repo : String} {filters : LockFilters}

theorem perm_matching : (db.matching repo filters).Perm (db.values.filter (Matches repo filters)) :=
  List.perm_insertionSort _ _

theorem pairwise_matching (hdistinct : (db.values.map (·.lockedAt)).Nodup) :
    (db.matching repo filters).Pairwise fun a b => a.lockedAt < b.lockedAt := by
  have hsorted : (db.matching repo filters).Pairwise fun a b => a.lockedAt ≤ b.lockedAt :=
    List.pairwise_insertionSort _ _
  have htimes : ((db.matching repo filters).map (·.lockedAt)).Nodup :=
    (perm_matching.map _).nodup_iff.mpr (hdistinct.sublist (List.filter_sublist.map _))
  exact (hsorted.and (List.pairwise_map.mp htimes)).imp fun h => lt_of_le_of_ne h.1 h.2

/-- **Following cursors is following offsets.** -/
theorem follow_eq_walk (hdistinct : (db.values.map (·.lockedAt)).Nodup)
    (hsize : db.values.length < 2 ^ 63) (fuel : Nat) {cursor : Option String}
    (hcursor : start { filters with cursor := cursor } < 2 ^ 63) :
    db.follow repo filters fuel cursor
      = walk (pageLimit filters) (db.matching repo filters) fuel
        (start { filters with cursor := cursor }) := by
  induction fuel generalizing cursor with
  | zero => rfl
  | succ fuel ih =>
    have hlimit : pageLimit filters < 2 ^ 32 := pageLimit_lt
    have hlength : (db.matching repo filters).length < 2 ^ 63 := by
      rw [matching_eq hdistinct]
      exact length_matching_lt hsize
    have hword : start { filters with cursor := cursor } + pageLimit filters < 2 ^ 64 := by omega
    have hpage : db.listLocks repo { filters with cursor := cursor }
        = withCursor (page (start { filters with cursor := cursor }) (pageLimit filters)
          (db.matching repo filters)) := by
      rw [matching_eq hdistinct]
      exact listLocks_memory hdistinct (Or.inl hword)
    rw [follow, walk, hpage]
    simp only [page, withCursor]
    split_ifs with hmore
    · -- the next cursor is the text of the next offset
      have hnext : start { filters with
          cursor := some (toString (start { filters with cursor := cursor } + pageLimit filters)) }
          = start { filters with cursor := cursor } + pageLimit filters := by
        rw [start, Option.bind_some, RustStr.parseUnsigned_toString hword, Option.getD_some]
      have hrest := ih (hnext ▸ hmore.trans hlength)
      rw [hnext] at hrest
      simp only [Option.map_some, hrest]
    · rfl

/-- A page is computed exactly when its end is a machine word. -/
theorem computesPage_iff :
    ComputesPage db repo filters ↔ start filters + pageLimit filters < 2 ^ 64 := by
  refine ⟨fun h => h.word, fun hword => ⟨hword, fun hlt => ?_⟩⟩
  rw [Nat.mod_eq_of_lt hword]
  omega

theorem visitsAll_iff (hdistinct : (db.values.map (·.lockedAt)).Nodup)
    (hsize : db.values.length < 2 ^ 63) :
    VisitsAll db repo filters
      ↔ pageLimit filters ≠ 0 ∨ ∀ lock ∈ db.values, Matches repo filters lock = false := by
  have hfollow : ∀ fuel, db.follow repo filters fuel none
      = walk (pageLimit filters) (db.matching repo filters) fuel 0 :=
    fun fuel => follow_eq_walk hdistinct hsize fuel (by simp [start])
  constructor
  · rintro ⟨fuel, pages, hpages, -, -⟩
    by_contra hnone
    push Not at hnone
    obtain ⟨hlimit, lock, hlock, hmatches⟩ := hnone
    have hmem : lock ∈ db.matching repo filters :=
      perm_matching.mem_iff.mpr (List.mem_filter.mpr ⟨hlock, by simpa using hmatches⟩)
    rw [hfollow, hlimit, walk_zero (List.length_pos_of_mem hmem)] at hpages
    cases hpages
  · intro hcond
    rcases Nat.eq_zero_or_pos (pageLimit filters) with hzero | hpos
    · -- nothing matches, and the first page is the last one
      have hnone : db.matching repo filters = [] := by
        refine perm_matching.trans (List.Perm.of_eq ?_) |>.eq_nil
        rw [List.filter_eq_nil_iff]
        intro lock hlock
        simpa using hcond.resolve_left (not_not.mpr hzero) lock hlock
      refine ⟨1, [[]], ?_, ?_, List.Pairwise.nil⟩
      · rw [hfollow, hnone]
        simp [walk, page]
      · rw [List.flatten_singleton]
        exact (hnone ▸ perm_matching : ([] : List LockRecord).Perm _)
    · obtain ⟨fuel, pages, hwalk, hflatten⟩ := walk_flatten hpos (db.matching repo filters) 0
      rw [List.drop_zero] at hflatten
      exact ⟨fuel, pages, (hfollow fuel).trans hwalk, hflatten ▸ perm_matching,
        hflatten ▸ pairwise_matching hdistinct⟩

/-- **Paging works** exactly when pages are not empty, or nothing matches, and the cursor leaves room
for a page below the greatest machine word. -/
theorem paging_iff (db : MemoryLockDatabase) (hdistinct : (db.values.map (·.lockedAt)).Nodup)
    (hsize : db.values.length < 2 ^ 63) (repo : String) (filters : LockFilters)
    (cursor : Option String) :
    (VisitsAll db repo filters ∧ ComputesPage db repo { filters with cursor := cursor })
      ↔ (pageLimit filters ≠ 0 ∨ ∀ lock ∈ db.values, Matches repo filters lock = false)
        ∧ start { filters with cursor := cursor } + pageLimit filters < 2 ^ 64 := by
  rw [visitsAll_iff hdistinct hsize, computesPage_iff]
  rfl

end

/-- Three locks on pages of two. -/
theorem three_locks_are_visited :
    VisitsAll threeLocks "project" ⟨none, none, none, some 2⟩
      ∧ ComputesPage threeLocks "project" ⟨none, none, some "1", some 2⟩ :=
  (paging_iff threeLocks distinct_three (by decide) "project" ⟨none, none, none, some 2⟩
    (some "1")).mpr ⟨Or.inl (by decide), by decide⟩

/-- A limit of zero leads nowhere, and the greatest machine word is a cursor without room for a
page. -/
theorem zero_limit_and_great_cursor :
    (threeLocks.values.map (·.lockedAt)).Nodup ∧ threeLocks.values.length < 2 ^ 63
      ∧ ¬ VisitsAll threeLocks "project" ⟨none, none, none, some 0⟩
      ∧ ¬ ComputesPage threeLocks "project" ⟨none, none, some "18446744073709551615", none⟩ := by
  have hsize : threeLocks.values.length < 2 ^ 63 := by decide
  refine ⟨distinct_three, hsize, ?_, ?_⟩
  · rw [visitsAll_iff distinct_three hsize]
    decide
  · rw [computesPage_iff]
    decide

end BlossomRs.Locks

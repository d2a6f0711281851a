import BlossomRs.Locks.Postgres

/-!
# Listings of locks

The in-memory store and PostgreSQL hold the same locks, at distinct times.  The in-memory store takes
the page of the locks that pass the filters (`Paging.page`), PostgreSQL drops the others from the page
of all locks of the repository (`Paging.filteredPage`).

PostgreSQL compares times as signed numbers: those from `2 ^ 63` on come first there (`late`), and last
in memory.  `listings_agree_iff` says exactly when both stores list the same locks and announce the
same next page.
-/

namespace BlossomRs.Locks

open RustInt Paging

instance : Std.Total fun a b : LockRecord => a.lockedAt ≤ b.lockedAt :=
  ⟨fun a b => Nat.le_total a.lockedAt b.lockedAt⟩

instance : IsTrans LockRecord fun a b => a.lockedAt ≤ b.lockedAt :=
  ⟨fun _ _ _ => Nat.le_trans⟩

/-- Locks with distinct keys have one order. -/
theorem eq_of_ordered {β : Type} [PartialOrder β] (key : LockRecord → β)
    {locks locks' : List LockRecord} (hdistinct : (locks.map key).Nodup)
    (hperm : locks.Perm locks') (hsorted : locks.Pairwise (key · ≤ key ·))
    (hsorted' : locks'.Pairwise (key · ≤ key ·)) : locks = locks' := by
  refine hperm.eq_of_pairwise ?_ hsorted hsorted'
  intro a b ha hb hab hba
  exact List.inj_on_of_nodup_map hdistinct ha (hperm.mem_iff.mpr hb) (le_antisymm hab hba)

namespace MemoryLockDatabase

/-- The locks of a repository, oldest first. -/
def inRepo (db : MemoryLockDatabase) (repo : String) : List LockRecord :=
  (db.values.filter (·.repoId == repo)).insertionSort fun a b => a.lockedAt ≤ b.lockedAt

/-- Those whose time is a signed number. -/
def early (db : MemoryLockDatabase) (repo : String) : List LockRecord :=
  (db.inRepo repo).filter (·.lockedAt < 2 ^ 63)

/-- Those whose time is not: the column has a negative number for it. -/
def late (db : MemoryLockDatabase) (repo : String) : List LockRecord :=
  (db.inRepo repo).filter (2 ^ 63 ≤ ·.lockedAt)

/-- The number at which a listing starts. -/
def start (filters : LockFilters) : Nat :=
  (filters.cursor.bind (RustStr.parseUnsigned 64)).getD 0

end MemoryLockDatabase

/-- The greatest number of locks on a page. -/
def pageLimit (filters : LockFilters) : Nat :=
  (filters.limit.map UInt32.toNat).getD 100

/-- The offset a listing asks PostgreSQL for. -/
def PostgresLockDatabase.offset (filters : LockFilters) : Int :=
  (filters.cursor.bind (RustStr.parseSigned 64)).getD 0

/-- A page with the number of the next one as text. -/
def withCursor (result : List LockRecord × Option Nat) : List LockRecord × Option String :=
  (result.1, result.2.map toString)

theorem withCursor_injective : Function.Injective withCursor := by
  rintro ⟨locks, next⟩ ⟨locks', next'⟩ h
  obtain ⟨hlocks, hnext⟩ := Prod.mk.inj h
  exact Prod.ext hlocks (Option.map_injective RustStr.toString_injective hnext)

/-- Both stores hold the same locks. -/
def SameLocks (db : MemoryLockDatabase) (pg : PostgresLockDatabase) : Prop :=
  (pg.rows.map LockRow.record).Perm db.values

section

variable {db : MemoryLockDatabase} {pg : PostgresLockDatabase} {repo : String}
  {filters : LockFilters}

theorem perm_inRepo : (db.inRepo repo).Perm (db.values.filter (·.repoId == repo)) :=
  List.perm_insertionSort _ _

section

variable (hdistinct : (db.values.map (·.lockedAt)).Nodup)
include hdistinct

theorem distinct_inRepo :
    ((db.inRepo repo).map (·.lockedAt)).Nodup :=
  (perm_inRepo.map _).nodup_iff.mpr (hdistinct.sublist (List.filter_sublist.map _))

theorem nodup_inRepo : (db.inRepo repo).Nodup :=
  (distinct_inRepo hdistinct).of_map _

/-- The in-memory store lists what passes the filters among the locks of the repository. -/
theorem matching_eq :
    db.matching repo filters = (db.inRepo repo).filter (PostgresLockDatabase.passes filters) := by
  have hperm : (db.matching repo filters).Perm
      ((db.inRepo repo).filter (PostgresLockDatabase.passes filters)) := by
    refine (List.perm_insertionSort _ _).trans ?_
    refine List.Perm.trans (List.Perm.of_eq ?_) (perm_inRepo.filter _).symm
    rw [List.filter_filter]
    refine List.filter_congr fun lock _ => ?_
    rw [MemoryLockDatabase.Matches, PostgresLockDatabase.passes, Bool.and_comm _ (lock.repoId == repo),
      Bool.and_assoc]
  refine eq_of_ordered (·.lockedAt) ?_ hperm (List.pairwise_insertionSort _ _)
    ((List.pairwise_insertionSort _ _).filter _)
  refine (hperm.map _).nodup_iff.mpr ?_
  exact (distinct_inRepo hdistinct).sublist (List.filter_sublist.map _)

end

theorem perm_sides : (db.inRepo repo).Perm (db.early repo ++ db.late repo) := by
  have hlate : db.late repo = (db.inRepo repo).filter fun lock => !decide (lock.lockedAt < 2 ^ 63) :=
    List.filter_congr fun lock _ => by rw [← decide_not, decide_eq_decide, not_lt]
  rw [hlate]
  exact (List.filter_append_perm _ _).symm

theorem inRepo_eq (hdistinct : (db.values.map (·.lockedAt)).Nodup) :
    db.inRepo repo = db.early repo ++ db.late repo := by
  refine eq_of_ordered (·.lockedAt) (distinct_inRepo hdistinct) perm_sides (List.pairwise_insertionSort _ _) ?_
  refine List.pairwise_append.mpr ⟨(List.pairwise_insertionSort _ _).filter _,
    (List.pairwise_insertionSort _ _).filter _, ?_⟩
  intro a ha b hb
  have ha := of_decide_eq_true (List.mem_filter.mp ha).2
  have hb := of_decide_eq_true (List.mem_filter.mp hb).2
  omega

theorem nodup_sides (hdistinct : (db.values.map (·.lockedAt)).Nodup) :
    (db.late repo ++ db.early repo).Nodup := by
  refine (List.perm_append_comm.nodup_iff).mp ?_
  rw [← inRepo_eq hdistinct]
  exact nodup_inRepo hdistinct

section

variable (hsame : SameLocks db pg)
include hsame

theorem lockedAt_lt_of_sameLocks {lock : LockRecord} (h : lock ∈ db.inRepo repo) :
    lock.lockedAt < 2 ^ 64 := by
  have hvalue := List.mem_of_mem_filter (perm_inRepo.mem_iff.mp h)
  obtain ⟨row, -, rfl⟩ := List.mem_map.mp (hsame.mem_iff.mpr hvalue)
  exact asU64_lt row.lockedAt

/-- On one side the order is the same for signed numbers. -/
theorem pairwise_filter_signed {side : LockRecord → Bool}
    (hside : ∀ a b, side a = true → side b = true → (a.lockedAt < 2 ^ 63 ↔ b.lockedAt < 2 ^ 63)) :
    ((db.inRepo repo).filter side).Pairwise fun a b => asI64 a.lockedAt ≤ asI64 b.lockedAt := by
  have hsorted : (db.inRepo repo).Pairwise fun a b => a.lockedAt ≤ b.lockedAt :=
    List.pairwise_insertionSort _ _
  refine (hsorted.filter _).imp_of_mem ?_
  intro a b ha hb hab
  obtain ⟨ha, haside⟩ := List.mem_filter.mp ha
  obtain ⟨hb, hbside⟩ := List.mem_filter.mp hb
  exact (asI64_le_asI64 (lockedAt_lt_of_sameLocks hsame ha) (lockedAt_lt_of_sameLocks hsame hb)
    (hside a b haside hbside)).mpr hab

/-- As signed numbers the late times come first. -/
theorem pairwise_signed :
    (db.late repo ++ db.early repo).Pairwise fun a b => asI64 a.lockedAt ≤ asI64 b.lockedAt := by
  refine List.pairwise_append.mpr ⟨?_, ?_, ?_⟩
  · refine pairwise_filter_signed hsame fun a b ha hb => ?_
    rw [decide_eq_true_eq] at ha hb
    omega
  · refine pairwise_filter_signed hsame fun a b ha hb => ?_
    rw [decide_eq_true_eq] at ha hb
    omega
  · intro a ha b hb
    obtain ⟨ha, haside⟩ := List.mem_filter.mp ha
    have hbside := (List.mem_filter.mp hb).2
    rw [decide_eq_true_eq] at haside hbside
    have hnegative := asI64_of_ge haside (lockedAt_lt_of_sameLocks hsame ha)
    rw [asI64_of_lt hbside]
    omega

/-- Distinct times are distinct signed numbers. -/
theorem distinct_signed (hdistinct : (db.values.map (·.lockedAt)).Nodup) :
    ((db.late repo ++ db.early repo).map fun lock => asI64 lock.lockedAt).Nodup := by
  have hmem : ∀ lock ∈ db.late repo ++ db.early repo, lock ∈ db.inRepo repo := fun lock hlock =>
    (perm_sides.trans List.perm_append_comm).mem_iff.mpr hlock
  refine (nodup_sides hdistinct).map_on fun a ha b hb heq => ?_
  refine List.inj_on_of_nodup_map (distinct_inRepo hdistinct) (hmem a ha) (hmem b hb) ?_
  rw [← asU64_asI64 (lockedAt_lt_of_sameLocks hsame (hmem a ha)), heq,
    asU64_asI64 (lockedAt_lt_of_sameLocks hsame (hmem b hb))]

end

theorem LockRow.asI64_record {row : LockRow} (h : InI64 row.lockedAt) :
    asI64 row.record.lockedAt = row.lockedAt := by
  rw [LockRow.record]
  exact asI64_asU64 h

/-- The rows of a repository in PostgreSQL's order. -/
theorem rows_eq_sides (hsame : SameLocks db pg)
    (hdistinct : (db.values.map (·.lockedAt)).Nodup) :
    ((pg.rows.filter (·.repoId == repo)).insertionSort fun a b => a.lockedAt ≤ b.lockedAt).map
      LockRow.record = db.late repo ++ db.early repo := by
  have hrange : ∀ row ∈ (pg.rows.filter (·.repoId == repo)).insertionSort
      (fun a b => a.lockedAt ≤ b.lockedAt), InI64 row.lockedAt := by
    intro row hrow
    rw [(List.perm_insertionSort _ _).mem_iff] at hrow
    exact pg.lockedAt_range row (List.mem_of_mem_filter hrow)
  have hperm : (((pg.rows.filter (·.repoId == repo)).insertionSort
      fun a b => a.lockedAt ≤ b.lockedAt).map LockRow.record).Perm
        (db.late repo ++ db.early repo) := by
    have hfilter : (pg.rows.filter (·.repoId == repo)).map LockRow.record
        = (pg.rows.map LockRow.record).filter (·.repoId == repo) := by
      rw [List.filter_map]
      rfl
    refine ((List.perm_insertionSort _ _).map _).trans ?_
    rw [hfilter]
    refine (hsame.filter _).trans (perm_inRepo.symm.trans ?_)
    exact perm_sides.trans List.perm_append_comm
  refine (eq_of_ordered (fun lock => asI64 lock.lockedAt) (distinct_signed hsame hdistinct)
    hperm.symm (pairwise_signed hsame) ?_).symm
  refine List.pairwise_map.mpr ((List.pairwise_insertionSort _ _).imp_of_mem ?_)
  intro a b ha hb hab
  rw [LockRow.asI64_record (hrange a ha), LockRow.asI64_record (hrange b hb)]
  exact hab

theorem length_matching_lt (hsize : db.values.length < 2 ^ 63) :
    ((db.inRepo repo).filter (PostgresLockDatabase.passes filters)).length < 2 ^ 63 := by
  calc ((db.inRepo repo).filter (PostgresLockDatabase.passes filters)).length
      ≤ (db.inRepo repo).length := List.length_filter_le _ _
    _ = (db.values.filter (·.repoId == repo)).length := perm_inRepo.length_eq
    _ ≤ db.values.length := List.length_filter_le _ _
    _ < 2 ^ 63 := hsize

theorem pageLimit_lt : pageLimit filters < 2 ^ 32 := by
  unfold pageLimit
  cases filters.limit with
  | none => decide
  | some limit => exact limit.toNat_lt

/-- The in-memory store lists a page of what passes, unless the end of the page is not a machine
word. -/
theorem listLocks_memory (hdistinct : (db.values.map (·.lockedAt)).Nodup)
    (h : MemoryLockDatabase.start filters + pageLimit filters < 2 ^ 64
      ∨ ((db.inRepo repo).filter (PostgresLockDatabase.passes filters)).length
        ≤ MemoryLockDatabase.start filters) :
    db.listLocks repo filters = withCursor (page (MemoryLockDatabase.start filters)
      (pageLimit filters) ((db.inRepo repo).filter (PostgresLockDatabase.passes filters))) := by
  simp only [MemoryLockDatabase.listLocks, matching_eq hdistinct, ← pageLimit.eq_1,
    ← MemoryLockDatabase.start.eq_1]
  generalize (db.inRepo repo).filter (PostgresLockDatabase.passes filters) = locks at h ⊢
  generalize MemoryLockDatabase.start filters = start at h ⊢
  generalize pageLimit filters = limit at h ⊢
  rw [withCursor, page]
  by_cases hover : locks.length ≤ start
  · rw [if_pos hover, List.drop_of_length_le hover, if_neg (by omega)]
    simp
  · rw [if_neg hover, Nat.mod_eq_of_lt (h.resolve_right hover)]
    have hpage : (locks.take (min (start + limit) locks.length)).drop start
        = (locks.drop start).take limit := by
      rw [← List.take_eq_take_min, List.drop_take, Nat.add_sub_cancel_left]
    rw [hpage]
    rcases Nat.lt_or_ge (start + limit) locks.length with hmore | hlast
    · rw [min_eq_left hmore.le, if_pos hmore, if_pos hmore, Option.map_some]
    · rw [min_eq_right hlast, if_neg (lt_irrefl _), if_neg (not_lt.mpr hlast), Option.map_none]

/-- PostgreSQL lists what passes of a page of the locks of the repository. -/
theorem listLocks_postgres (hsame : SameLocks db pg)
    (hdistinct : (db.values.map (·.lockedAt)).Nodup) (houtage : pg.outage .listLocks = none)
    {offset : Nat} (hoffset : PostgresLockDatabase.offset filters = offset) :
    pg.listLocks repo filters = .ok (withCursor (filteredPage (PostgresLockDatabase.passes filters)
      offset (pageLimit filters) (db.late repo ++ db.early repo))) := by
  have hrows : (pg.selectPage repo (pageLimit filters + 1) offset).map LockRow.record
      = rows offset (pageLimit filters) (db.late repo ++ db.early repo) := by
    rw [PostgresLockDatabase.selectPage, List.map_take, List.map_drop,
      rows_eq_sides hsame hdistinct, rows]
  have hpasses : ∀ locks : List LockRecord,
      (locks.filter fun lock => filters.path.all (lock.path == ·)).filter
        (fun lock => filters.id.all (lock.id == ·))
        = locks.filter (PostgresLockDatabase.passes filters) := by
    intro locks
    rw [List.filter_filter]
    exact List.filter_congr fun lock _ => Bool.and_comm _ _
  simp only [PostgresLockDatabase.listLocks, houtage, ← pageLimit.eq_1, ← PostgresLockDatabase.offset.eq_1,
    hoffset, Int.toNat_natCast, hrows, hpasses]
  rw [if_neg (by omega), withCursor, filteredPage, apply_ite (Option.map toString),
    Option.map_some, Option.map_none, ← Int.natCast_add]
  rfl

/-- **The stores list the same** exactly when filtering the rows of the page does no harm.  A map holds
fewer than `2 ^ 63` locks, so at a greater start the in-memory store has nothing to list; PostgreSQL
reads no signed number there and begins anew. -/
theorem listings_agree_iff (hsame : SameLocks db pg) (hsize : db.values.length < 2 ^ 63)
    (hdistinct : (db.values.map (·.lockedAt)).Nodup) (houtage : pg.outage .listLocks = none)
    (hcursor : 0 ≤ PostgresLockDatabase.offset filters) :
    pg.listLocks repo filters = .ok (db.listLocks repo filters)
      ↔ BothEmpty (PostgresLockDatabase.passes filters)
          (PostgresLockDatabase.offset filters).toNat (pageLimit filters)
          (MemoryLockDatabase.start filters) (db.late repo ++ db.early repo)
        ∨ (PostgresLockDatabase.offset filters = MemoryLockDatabase.start filters
          ∧ (Shifted (PostgresLockDatabase.passes filters) (MemoryLockDatabase.start filters)
              (pageLimit filters) (db.late repo) (db.early repo)
            ∨ ((∀ lock ∈ db.late repo, PostgresLockDatabase.passes filters lock = false)
              ∧ Aligned (PostgresLockDatabase.passes filters) (MemoryLockDatabase.start filters)
                (pageLimit filters) (db.late repo ++ db.early repo))
            ∨ EmptyPage (PostgresLockDatabase.passes filters) (MemoryLockDatabase.start filters)
              (pageLimit filters) (db.late repo ++ db.early repo))) := by
  have hlimit : pageLimit filters < 2 ^ 32 := pageLimit_lt
  have hbound : PostgresLockDatabase.offset filters < 2 ^ 63 :=
    RustStr.parseSigned_getD_lt filters.cursor
  have hnumber : PostgresLockDatabase.offset filters = MemoryLockDatabase.start filters
      ∨ PostgresLockDatabase.offset filters = 0 ∧ 2 ^ 63 ≤ MemoryLockDatabase.start filters :=
    RustStr.parseSigned_getD hcursor
  rcases hnumber with hoffset | ⟨hoffset, hgreat⟩
  · -- the cursor is the same number for both
    rw [listLocks_postgres hsame hdistinct houtage hoffset,
      listLocks_memory hdistinct (Or.inl (by omega)), Except.ok.injEq, hoffset, Int.toNat_natCast,
      withCursor_injective.eq_iff, inRepo_eq hdistinct,
      filteredPage_eq_iff (nodup_sides hdistinct)]
    simp only [true_and]
  · have hover : ((db.inRepo repo).filter (PostgresLockDatabase.passes filters)).length
        ≤ MemoryLockDatabase.start filters := (length_matching_lt hsize).le.trans hgreat
    have hlength : ((db.inRepo repo).filter (PostgresLockDatabase.passes filters)).length
        = ((db.late repo ++ db.early repo).filter (PostgresLockDatabase.passes filters)).length :=
      ((perm_sides.trans List.perm_append_comm).filter _).length_eq
    rw [listLocks_postgres hsame hdistinct houtage (hoffset.trans Int.natCast_zero.symm),
      Except.ok.injEq, listLocks_memory hdistinct (Or.inr hover), withCursor_injective.eq_iff,
      filteredPage_eq_iff_of_length_le hover, hoffset, Int.toNat_zero]
    refine ⟨fun hnone => Or.inl ⟨hnone, hlength.ge.trans hover⟩, ?_⟩
    rintro (hempty | ⟨hzero, -⟩)
    · exact hempty.1
    · omega

end

/-- A lock on a file of the repository `project`. -/
def projectLock (id path : String) (lockedAt : Nat) : LockRecord :=
  ⟨id, "project", path, "owner", lockedAt⟩

/-- Three files of one repository, locked one after the other. -/
def threeLocks : MemoryLockDatabase :=
  ⟨(((∅ : AList fun _ : String => LockRecord).insert "project:1" (projectLock "1" "a.bin" 1)).insert
    "project:2" (projectLock "2" "b.bin" 2)).insert "project:3" (projectLock "3" "c.bin" 3)⟩

/-- The same locks in PostgreSQL. -/
def threeRows : PostgresLockDatabase where
  rows := [projectLock "1" "a.bin" 1, projectLock "2" "b.bin" 2, projectLock "3" "c.bin" 3].map
    LockRecord.row
  keys_nodup := by decide
  files_nodup := by decide
  lockedAt_range := by
    intro row hrow
    obtain ⟨lock, -, rfl⟩ := List.mem_map.mp hrow
    rw [LockRecord.lockedAt_row]
    exact inI64_asI64 _
  outage _ := none

theorem sameLocks_three : SameLocks threeLocks threeRows := by
  unfold SameLocks
  decide

theorem distinct_three : (threeLocks.values.map (·.lockedAt)).Nodup := by
  decide

/-- Without a filter both stores list the second and the third lock behind the first. -/
theorem unfiltered_listings_agree :
    threeRows.listLocks "project" ⟨none, none, some "1", some 2⟩
      = .ok (threeLocks.listLocks "project" ⟨none, none, some "1", some 2⟩) := by
  refine (listings_agree_iff sameLocks_three ?_ distinct_three rfl ?_).mpr
    (Or.inr ⟨?_, Or.inr (Or.inl ⟨?_, ?_, Or.inl ?_⟩)⟩)
  · decide
  · decide
  · decide
  · decide
  · decide
  · decide

/-- The third lock is the only one on its file.  On a page of one lock the in-memory store lists it,
PostgreSQL lists nothing and announces no other page. -/
theorem filtered_lock_not_listed :
    SameLocks threeLocks threeRows ∧ (threeLocks.values.map (·.lockedAt)).Nodup
      ∧ threeLocks.listLocks "project" ⟨some "c.bin", none, none, some 1⟩
        = ([projectLock "3" "c.bin" 3], none)
      ∧ threeRows.listLocks "project" ⟨some "c.bin", none, none, some 1⟩ = .ok ([], none) :=
  ⟨sameLocks_three, distinct_three, by decide, by rfl⟩

end BlossomRs.Locks

import BlossomRs.Lib.Assoc
import BlossomRs.Lib.Runs

/-!
# Counters of a period

A table counts the requests of each key that were granted in the current period.  An entry is reset
when its key comes back in a later period, and entries of other periods are swept when the table is
large.  Where periods do not decrease, what the table says of the current period is the number of
requests granted in it (`counts_after`), so a key is refused exactly when it has had its share
(`refused_iff`).
-/

namespace FixedWindow

open Runs

variable {κ : Type} [DecidableEq κ]

/-- The period and the count of each key. -/
abbrev Table (κ : Type) := AList fun _ : κ => ℕ × ℕ

/-- Drop the entries of other periods from a large table. -/
def sweep (capacity period : ℕ) (table : Table κ) : Table κ :=
  if capacity ≤ table.keys.length then Assoc.retain (fun entry => entry.2.1 == period) table
  else table

/-- A request of a key in a period. -/
def hit (capacity limit : ℕ) (table : Table κ) (request : κ × ℕ) : Bool × Table κ :=
  let (key, period) := request
  let table := sweep capacity period table
  let entry := (table.lookup key).getD (period, 0)
  let entry := if entry.1 ≠ period then (period, 0) else entry
  if limit ≤ entry.2 then (false, table.insert key entry)
  else (true, table.insert key (entry.1, entry.2 + 1))

/-- What the table says of a key in a period. -/
def tally (table : Table κ) (key : κ) (period : ℕ) : ℕ :=
  (table.lookup key).elim 0 fun entry => if entry.1 = period then entry.2 else 0

/-- How many requests of a key were granted in a period. -/
def granted (key : κ) (period : ℕ) (history : List ((κ × ℕ) × Bool)) : ℕ :=
  history.countP fun entry => entry.2 && entry.1 == (key, period)

theorem granted_cons (key : κ) (period : ℕ) (entry : (κ × ℕ) × Bool)
    (history : List ((κ × ℕ) × Bool)) :
    granted key period (entry :: history)
      = granted key period history + if entry.2 && entry.1 == (key, period) then 1 else 0 :=
  List.countP_cons

theorem granted_concat (key : κ) (period : ℕ) (history : List ((κ × ℕ) × Bool))
    (entry : (κ × ℕ) × Bool) :
    granted key period (history ++ [entry])
      = granted key period history + if entry.2 && entry.1 == (key, period) then 1 else 0 := by
  rw [granted, List.countP_append, List.countP_singleton]
  rfl

/-! ### One request -/

/-- Sweeping keeps the entries of the period. -/
theorem tally_sweep (capacity period : ℕ) (table : Table κ) (key : κ) :
    tally (sweep capacity period table) key period = tally table key period := by
  unfold sweep
  split
  · unfold tally
    rw [Assoc.lookup_retain]
    cases table.lookup key with
    | none => rfl
    | some entry =>
      by_cases hperiod : entry.1 = period
      · simp [Option.filter, hperiod]
      · simp [Option.filter, hperiod]
  · rfl

variable {capacity period limit : ℕ} {table : Table κ} {key : κ} {history : List ((κ × ℕ) × Bool)}

theorem lookup_of_lookup_sweep {entry : ℕ × ℕ}
    (h : (sweep capacity period table).lookup key = some entry) : table.lookup key = some entry := by
  unfold sweep at h
  split at h
  · rw [Assoc.lookup_retain, Option.filter_eq_some_iff] at h
    exact h.1
  · exact h

/-- **What a request does**, in terms of what the table says. -/
theorem hit_eq (capacity limit : ℕ) (table : Table κ) (key : κ) (period : ℕ) :
    hit capacity limit table (key, period) =
      if limit ≤ tally table key period then
        (false, (sweep capacity period table).insert key (period, tally table key period))
      else (true, (sweep capacity period table).insert key (period, tally table key period + 1)) := by
  rw [← tally_sweep capacity period table key]
  unfold hit tally
  cases hentry : (sweep capacity period table).lookup key with
  | none => simp [hentry]
  | some entry =>
    obtain ⟨window, count⟩ := entry
    by_cases hperiod : window = period
    · simp [hentry, hperiod]
    · simp [hentry, hperiod]

theorem tally_insert (table : Table κ) (key other : κ) (period count : ℕ) :
    tally (table.insert key (period, count)) other period
      = if other = key then count else tally table other period := by
  by_cases hkey : other = key <;> simp [tally, hkey, Assoc.lookup_insert_eq]

/-- A request is granted below the limit, and counted for its key. -/
theorem tally_hit (capacity limit : ℕ) (table : Table κ) (key other : κ) (period : ℕ) :
    (hit capacity limit table (key, period)).1 = decide (tally table key period < limit)
      ∧ tally (hit capacity limit table (key, period)).2 other period
        = tally table other period
          + if (hit capacity limit table (key, period)).1 && key == other then 1 else 0 := by
  rw [hit_eq]
  by_cases hfull : limit ≤ tally table key period
  · rw [if_pos hfull, tally_insert, tally_sweep]
    refine ⟨by simp [hfull], ?_⟩
    by_cases hkey : other = key
    · simp [hkey]
    · simp [hkey]
  · rw [if_neg hfull, tally_insert, tally_sweep]
    refine ⟨by simpa using hfull, ?_⟩
    by_cases hkey : other = key
    · simp [hkey]
    · simp [hkey, Ne.symm hkey]

/-- The periods in the table are those it had and that of the request. -/
theorem lookup_hit {other : κ} {entry : ℕ × ℕ}
    (h : (hit capacity limit table (key, period)).2.lookup other = some entry) :
    entry.1 = period ∨ table.lookup other = some entry := by
  rw [hit_eq] at h
  by_cases hkey : other = key
  · subst hkey
    refine Or.inl ?_
    split at h <;>
    · rw [AList.lookup_insert, Option.some.injEq] at h
      rw [← h]
  · refine Or.inr ?_
    split at h <;>
    · rw [AList.lookup_insert_ne hkey] at h
      exact lookup_of_lookup_sweep h

/-! ### Histories -/

/-- The table and what was granted, up to a period. -/
structure Counts (limit period : ℕ) (history : List ((κ × ℕ) × Bool)) (table : Table κ) : Prop where
  past : ∀ entry ∈ history, entry.1.2 ≤ period
  windows : ∀ key entry, table.lookup key = some entry → entry.1 ≤ period
  exact : ∀ key, granted key period history = tally table key period
  le_limit : ∀ key, tally table key period ≤ limit

theorem counts_nil (limit period : ℕ) : Counts limit period [] (∅ : Table κ) where
  past := nofun
  windows key entry h := absurd h (by simp)
  exact key := rfl
  le_limit key := Nat.zero_le _

/-- In a later period nothing was granted yet. -/
theorem Counts.wait {later : ℕ} (h : Counts limit period history table) (hlater : period ≤ later) :
    Counts limit later history table := by
  rcases Nat.eq_or_lt_of_le hlater with rfl | hlt
  · exact h
  have htally : ∀ key, tally table key later = 0 := by
    intro key
    unfold tally
    cases hentry : table.lookup key with
    | none => rfl
    | some entry =>
      have hpast := h.windows key entry hentry
      rw [Option.elim_some, if_neg (by omega)]
  refine ⟨?_, ?_, ?_, ?_⟩
  · intro entry hentry
    exact (h.past entry hentry).trans hlater
  · intro key entry hentry
    exact (h.windows key entry hentry).trans hlater
  · intro key
    rw [htally key]
    refine List.countP_eq_zero.mpr ?_
    rintro ⟨request, answer⟩ hentry hcounted
    simp only [Bool.and_eq_true, beq_iff_eq] at hcounted
    have hpast : request.2 ≤ period := h.past _ hentry
    rw [hcounted.2] at hpast
    exact absurd hlt (not_lt.mpr hpast)
  · intro key
    rw [htally key]
    exact Nat.zero_le _

/-- A request of the period is counted on both sides. -/
theorem Counts.hit (h : Counts limit period history table) (key : κ) :
    Counts limit period
      (history ++ [((key, period), (FixedWindow.hit capacity limit table (key, period)).1)])
      (FixedWindow.hit capacity limit table (key, period)).2 := by
  have hcount := tally_hit capacity limit table key
  refine ⟨?_, ?_, ?_, ?_⟩
  · intro entry hentry
    rcases List.mem_append.mp hentry with hentry | hentry
    · exact h.past entry hentry
    · rw [List.mem_singleton.mp hentry]
  · intro other entry hentry
    rcases lookup_hit hentry with heq | hentry
    · exact heq.le
    · exact h.windows other entry hentry
  · intro other
    rw [granted_concat, h.exact other, (hcount other period).2]
    simp
  · intro other
    obtain ⟨hanswer, htally⟩ := hcount other period
    rw [htally]
    split
    · rename_i hgranted
      simp only [Bool.and_eq_true, beq_iff_eq] at hgranted
      obtain ⟨hyes, rfl⟩ := hgranted
      rw [hanswer, decide_eq_true_eq] at hyes
      omega
    · exact h.le_limit other

/-- **The table counts exactly**: whatever other keys do and whenever it is swept, it has the number
of granted requests of the latest period. -/
theorem counts_after {requests : List (κ × ℕ)} (hordered : requests.Pairwise fun a b => a.2 ≤ b.2)
    (hlast : ∀ request ∈ requests, request.2 ≤ period) :
    Counts limit period (log (hit capacity limit) ∅ requests)
      (after (hit capacity limit) (∅ : Table κ) requests) := by
  induction requests using List.reverseRecOn generalizing period with
  | nil => exact counts_nil limit period
  | append_singleton requests request ih =>
    obtain ⟨hbefore, -, hcross⟩ := List.pairwise_append.mp hordered
    obtain ⟨key, latest⟩ := request
    have hcounts := ih hbefore fun earlier hmem => hcross earlier hmem _ (List.mem_singleton_self _)
    rw [log_append, after_append]
    exact (hcounts.hit key).wait (hlast (key, latest) (by simp))

/-- **A key is refused** exactly when it has been granted the limit in the period. -/
theorem refused_iff {requests : List (κ × ℕ)}
    (hordered : (requests ++ [(key, period)]).Pairwise fun a b => a.2 ≤ b.2) :
    (hit capacity limit (after (hit capacity limit) (∅ : Table κ) requests) (key, period)).1 = false
      ↔ granted key period (log (hit capacity limit) ∅ requests) = limit := by
  obtain ⟨hbefore, -, hcross⟩ := List.pairwise_append.mp hordered
  have hcounts : Counts limit period (log (hit capacity limit) ∅ requests)
      (after (hit capacity limit) (∅ : Table κ) requests) :=
    counts_after hbefore fun earlier hmem => hcross earlier hmem _ (List.mem_singleton_self _)
  have hle := hcounts.le_limit key
  rw [(tally_hit capacity limit _ key key period).1, hcounts.exact key, decide_eq_false_iff_not]
  omega

end FixedWindow

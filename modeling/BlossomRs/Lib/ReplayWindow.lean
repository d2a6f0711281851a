import Mathlib.Data.Finset.Card
import Mathlib.Tactic
import BlossomRs.Lib.Runs

/-!
# A bounded window of accepted ids

Ids are accepted once and remembered, oldest first, until they expire or until newer ids push them
out: at most so many of one principal, and at most so many in all.

`present` is one attempt to use an id.  `refusesReplays` says what the window is for: an accepted id
is refused until it has expired, or as many newer ids of its principal as the principal may have, or
as many newer ids as the window holds, have been accepted since.

A guard lets a request pass once: it checks the request's claims and then uses their id up.
`MemoryLaws` is what a guard needs of its cache, whatever the cache's shape, to refuse a request it
has let pass for as long as the id neither expires nor is pushed out (`MemoryLaws.guard_refuses`).
-/

namespace ReplayWindow

variable {π ι : Type}

/-- A remembered id. -/
structure Entry (π ι : Type) where
  id : ι
  principal : π
  expiresAt : Nat
deriving DecidableEq

/-- One attempt to use an id. -/
structure Attempt (π ι : Type) where
  principal : π
  id : ι
  now : Nat
deriving DecidableEq

/-- How much is remembered. -/
structure Limits where
  capacity : Nat
  perPrincipal : Nat

/-- What is remembered, oldest first. -/
abbrev Window (π ι : Type) := List (Entry π ι)

def Window.ids (w : Window π ι) : List ι :=
  w.map (·.id)

/-- Forget from the old end what has expired. -/
def prune (now : Nat) (w : Window π ι) : Window π ι :=
  w.dropWhile (·.expiresAt ≤ now)

/-- Make room for one more id. -/
def roomForAny (limits : Limits) (w : Window π ι) : Window π ι :=
  w.drop (w.length + 1 - limits.capacity)

variable {principal : π} {e x : Entry π ι} {w behind : Window π ι}
  {newer as bs : List (Attempt π ι)} {limits : Limits} {expiry : Nat → Nat}

theorem prune_sublist (now : Nat) (w : Window π ι) : (prune now w).Sublist w :=
  List.dropWhile_sublist _

theorem nodup_concat (hw : w.ids.Nodup) (hfresh : e.id ∉ w.ids) :
    (Window.ids (w ++ [e])).Nodup := by
  rw [Window.ids, List.map_append, List.map_singleton, ← List.concat_eq_append]
  exact hw.concat hfresh

theorem roomForAny_of_lt (h : w.length < limits.capacity) :
    roomForAny limits w = w := by
  rw [roomForAny, Nat.sub_eq_zero_of_le h, List.drop_zero]

theorem roomForAny_cons_of_le {e : Entry π ι} (h : limits.capacity ≤ (e :: w).length) :
    roomForAny limits (e :: w) = roomForAny limits w := by
  rw [List.length_cons] at h
  have hdrop : w.length + 1 + 1 - limits.capacity = w.length + 1 - limits.capacity + 1 := by omega
  rw [roomForAny, roomForAny, List.length_cons, hdrop, List.drop_succ_cons]

/-- Pruning keeps what has not expired, and everything behind it. -/
theorem prune_append_cons {now : Nat} (hx : now < x.expiresAt) (before behind : Window π ι) :
    ∃ rest, prune now (before ++ x :: behind) = rest ++ x :: behind := by
  induction before with
  | nil =>
    refine ⟨[], List.dropWhile_cons_of_neg ?_⟩
    simpa using hx
  | cons e before ih =>
    by_cases he : e.expiresAt ≤ now
    · obtain ⟨rest, hrest⟩ := ih
      refine ⟨rest, ?_⟩
      rw [← hrest]
      exact List.dropWhile_cons_of_pos (by simpa using he)
    · exact ⟨e :: before, List.dropWhile_cons_of_neg (by simpa using he)⟩

/-- The attempts of a log that were accepted. -/
def accepted (log : List (Attempt π ι × Bool)) : List (Attempt π ι) :=
  (log.filter (·.2)).map (·.1)

/-- An entry is remembered, and everything behind it was accepted since. -/
def Held (x : Entry π ι) (newer : List (Attempt π ι)) (w : Window π ι) : Prop :=
  ∃ before behind, w = before ++ x :: behind
    ∧ ∀ e ∈ behind, ∃ a ∈ newer, a.id = e.id ∧ a.principal = e.principal

theorem Held.prune {now : Nat} (h : Held x newer w) (hx : now < x.expiresAt) :
    Held x newer (prune now w) := by
  obtain ⟨before, behind, rfl, hbehind⟩ := h
  obtain ⟨rest, hrest⟩ := prune_append_cons hx before behind
  exact ⟨rest, behind, hrest, hbehind⟩

/-! ### Forgetting by id -/

section

variable [DecidableEq ι]

/-- The window without an id. -/
def without (id : ι) (w : Window π ι) : Window π ι :=
  w.filter (·.id ≠ id)

theorem mem_without {id : ι} :
    e ∈ without id w ↔ e ∈ w ∧ e.id ≠ id := by
  simp [without, List.mem_filter]

theorem ids_without (id : ι) (w : Window π ι) :
    (without id w).ids = w.ids.filter (· ≠ id) := by
  rw [without, Window.ids, Window.ids, List.filter_map]
  rfl

theorem without_of_notMem {id : ι} (h : id ∉ w.ids) : without id w = w := by
  rw [without, List.filter_eq_self]
  intro e he
  rw [decide_eq_true_iff]
  rintro rfl
  exact h (List.mem_map.mpr ⟨e, he, rfl⟩)

/-- Without its oldest id a window is its tail. -/
theorem without_cons_self (hnodup : (Window.ids (e :: w)).Nodup) :
    without e.id (e :: w) = w := by
  have hfresh : e.id ∉ w.ids := (List.nodup_cons.mp hnodup).1
  rw [without, List.filter_cons_of_neg (by simp)]
  exact without_of_notMem hfresh

/-- The ids of some attempts. -/
def allIds (attempts : List (Attempt π ι)) : Finset ι :=
  (attempts.map (·.id)).toFinset

theorem allIds_mono (h : as ⊆ bs) : allIds as ⊆ allIds bs := by
  intro id hid
  simp only [allIds, List.mem_toFinset, List.mem_map] at hid ⊢
  obtain ⟨a, ha, hid⟩ := hid
  exact ⟨a, h ha, hid⟩

/-- The ids behind a held entry are that many newer ids. -/
theorem length_le_card_allIds (hnodup : behind.ids.Nodup)
    (hbehind : ∀ e ∈ behind, ∃ a ∈ newer, a.id = e.id ∧ a.principal = e.principal) :
    behind.length ≤ (allIds newer).card := by
  have hsubset : behind.ids.toFinset ⊆ allIds newer := by
    intro id hid
    obtain ⟨e, he, rfl⟩ := List.mem_map.mp (List.mem_toFinset.mp hid)
    obtain ⟨a, ha, hid, -⟩ := hbehind e he
    exact List.mem_toFinset.mpr (List.mem_map.mpr ⟨a, ha, hid⟩)
  calc behind.length = behind.ids.toFinset.card := by
        rw [List.toFinset_card_of_nodup hnodup, Window.ids, List.length_map]
    _ ≤ (allIds newer).card := Finset.card_le_card hsubset

end

/-! ### Forgetting by principal -/

section Principals

variable [DecidableEq π]

/-- An entry is one of the principal's. -/
def Entry.isOf (principal : π) (e : Entry π ι) : Bool :=
  decide (e.principal = principal)

@[simp] theorem Entry.isOf_eq_true :
    e.isOf principal = true ↔ e.principal = principal :=
  decide_eq_true_iff

/-- How many ids of a principal are remembered. -/
def count (principal : π) (w : Window π ι) : Nat :=
  w.countP (Entry.isOf principal)

/-- Forget the oldest id of a principal, so many times. -/
def forgetOwn (principal : π) : Nat → Window π ι → Window π ι
  | 0, w => w
  | n + 1, w => forgetOwn principal n (w.eraseP (Entry.isOf principal))

/-- Make room for one more id of a principal. -/
def roomForOwn (limits : Limits) (principal : π) (w : Window π ι) : Window π ι :=
  forgetOwn principal (count principal w + 1 - limits.perPrincipal) w

theorem forgetOwn_sublist (principal : π) (n : Nat) (w : Window π ι) :
    (forgetOwn principal n w).Sublist w := by
  induction n generalizing w with
  | zero => exact List.Sublist.refl w
  | succ n ih => exact (ih _).trans List.eraseP_sublist

theorem room_sublist (limits : Limits) (principal : π) (w : Window π ι) :
    (roomForAny limits (roomForOwn limits principal w)).Sublist w :=
  (List.drop_sublist _ _).trans (forgetOwn_sublist _ _ _)

theorem count_cons (principal : π) (e : Entry π ι) (w : Window π ι) :
    count principal (e :: w) = count principal w + if e.principal = principal then 1 else 0 := by
  simp [count, List.countP_cons]

theorem forgetOwn_of_count_eq_zero (h : count principal w = 0) (n : Nat) :
    forgetOwn principal n w = w := by
  induction n with
  | zero => rfl
  | succ n ih =>
    have herase : w.eraseP (Entry.isOf principal) = w :=
      List.eraseP_of_forall_not fun e he => List.countP_eq_zero.mp h e he
    rw [forgetOwn, herase, ih]

theorem roomForOwn_of_lt (h : count principal w < limits.perPrincipal) :
    roomForOwn limits principal w = w := by
  rw [roomForOwn, Nat.sub_eq_zero_of_le h, forgetOwn]

theorem roomForOwn_of_count_eq_zero (h : count principal w = 0) :
    roomForOwn limits principal w = w :=
  forgetOwn_of_count_eq_zero h _

theorem count_eraseP (w : Window π ι) :
    count principal (w.eraseP (Entry.isOf principal)) = count principal w - 1 := by
  unfold count
  induction w with
  | nil => rfl
  | cons e w ih =>
    by_cases he : e.isOf principal = true
    · rw [List.eraseP_cons_of_pos he, List.countP_cons_of_pos he, Nat.add_sub_cancel]
    · rw [List.eraseP_cons_of_neg he, List.countP_cons_of_neg he, List.countP_cons_of_neg he, ih]

theorem roomForOwn_of_le (hown : 0 < count principal w)
    (h : limits.perPrincipal ≤ count principal w) :
    roomForOwn limits principal w
      = roomForOwn limits principal (w.eraseP (Entry.isOf principal)) := by
  have hrounds : count principal w + 1 - limits.perPrincipal
      = count principal (w.eraseP (Entry.isOf principal)) + 1 - limits.perPrincipal + 1 := by
    rw [count_eraseP]
    omega
  rw [roomForOwn, roomForOwn, hrounds, forgetOwn]

/-- Another principal's ids are not touched. -/
theorem forgetOwn_append_cons_of_ne (hx : x.principal ≠ principal) (n : Nat)
    (before behind : Window π ι) :
    ∃ before' behind', forgetOwn principal n (before ++ x :: behind) = before' ++ x :: behind'
      ∧ behind'.Sublist behind := by
  induction n generalizing before behind with
  | zero => exact ⟨before, behind, rfl, List.Sublist.refl _⟩
  | succ n ih =>
    by_cases hown : ∃ e ∈ before, e.principal = principal
    · obtain ⟨e, he, hprincipal⟩ := hown
      rw [forgetOwn, List.eraseP_append_left (Entry.isOf_eq_true.mpr hprincipal) _ he]
      exact ih _ _
    · have herase : (before ++ x :: behind).eraseP (Entry.isOf principal)
          = before ++ x :: behind.eraseP (Entry.isOf principal) := by
        rw [List.eraseP_append_right _ fun e he => by simpa using fun h => hown ⟨e, he, h⟩,
          List.eraseP_cons_of_neg (by simpa using hx)]
      rw [forgetOwn, herase]
      obtain ⟨before', behind', heq, hsub⟩ := ih before (behind.eraseP (Entry.isOf principal))
      exact ⟨before', behind', heq, hsub.trans List.eraseP_sublist⟩

/-- The principal's own ids go oldest first. -/
theorem forgetOwn_append_cons_of_le {n : Nat} {before : Window π ι}
    (hn : n ≤ count principal before) (x : Entry π ι) (behind : Window π ι) :
    ∃ before', forgetOwn principal n (before ++ x :: behind) = before' ++ x :: behind := by
  induction n generalizing before with
  | zero => exact ⟨before, rfl⟩
  | succ n ih =>
    obtain ⟨e, he, hprincipal⟩ := List.countP_pos_iff.mp (Nat.lt_of_lt_of_le n.succ_pos hn)
    rw [forgetOwn, List.eraseP_append_left hprincipal _ he]
    refine ih ?_
    rw [count_eraseP]
    exact Nat.le_sub_one_of_lt hn

theorem count_append_cons_self (x : Entry π ι) (before behind : Window π ι) :
    count x.principal (before ++ x :: behind)
      = count x.principal before + 1 + count x.principal behind := by
  rw [count, List.countP_append, List.countP_cons_of_pos (Entry.isOf_eq_true.mpr rfl)]
  simp only [count]
  omega

theorem count_forgetOwn (principal : π) (n : Nat) (w : Window π ι) :
    count principal (forgetOwn principal n w) = count principal w - n := by
  induction n generalizing w with
  | zero => rfl
  | succ n ih =>
    rw [forgetOwn, ih, count_eraseP]
    omega

/-- Within its limits: at most so many ids, and at most so many of each principal. -/
structure Within (limits : Limits) (w : Window π ι) : Prop where
  length_le : w.length ≤ limits.capacity
  count_le : ∀ principal, count principal w ≤ limits.perPrincipal

theorem Within.sublist {w' : Window π ι} (h : Within limits w) (hsub : w'.Sublist w) :
    Within limits w' where
  length_le := hsub.length_le.trans h.length_le
  count_le principal := hsub.countP_le.trans (h.count_le principal)

/-! ### Attempts -/

variable [DecidableEq ι]

/-- One attempt: refused while the id is remembered, else remembered from now on. -/
def present (limits : Limits) (expiry : Nat → Nat) (w : Window π ι) (a : Attempt π ι) :
    Bool × Window π ι :=
  if a.id ∈ (prune a.now w).ids then (false, prune a.now w)
  else (true, roomForAny limits (roomForOwn limits a.principal (prune a.now w))
    ++ [⟨a.id, a.principal, expiry a.now⟩])

/-- The ids of a window are distinct, and stay so. -/
theorem nodup_present (limits : Limits) (expiry : Nat → Nat) (hw : w.ids.Nodup) (a : Attempt π ι) :
    (present limits expiry w a).2.ids.Nodup := by
  unfold present
  split
  · exact hw.sublist ((prune_sublist _ _).map _)
  · rename_i hnew
    have hsub := (room_sublist limits a.principal (prune a.now w)).map (·.id)
    have hkept : (roomForAny limits (roomForOwn limits a.principal (prune a.now w))).ids.Nodup :=
      hw.sublist (hsub.trans ((prune_sublist _ _).map _))
    exact nodup_concat hkept fun hmem => hnew (hsub.subset hmem)

/-- Without the oldest id of a principal. -/
theorem without_own {own : Window π ι} (hnodup : w.ids.Nodup)
    (hown : w.filter (Entry.isOf principal) = e :: own) :
    without e.id w = w.eraseP (Entry.isOf principal) := by
  induction w with
  | nil => cases hown
  | cons first w ih =>
    by_cases hfirst : first.isOf principal = true
    · rw [List.filter_cons_of_pos hfirst] at hown
      obtain ⟨rfl, -⟩ := List.cons.inj hown
      rw [List.eraseP_cons_of_pos hfirst, without_cons_self hnodup]
    · rw [List.filter_cons_of_neg hfirst] at hown
      obtain ⟨hfresh, hrest⟩ := List.nodup_cons.mp hnodup
      have hmem : e ∈ w := List.mem_of_mem_filter (hown ▸ List.mem_cons_self)
      have hne : first.id ≠ e.id := by
        intro hsame
        exact hfresh (List.mem_map.mpr ⟨e, hmem, hsame.symm⟩)
      rw [List.eraseP_cons_of_neg hfirst, ← ih hrest hown]
      exact List.filter_cons_of_pos (by simpa using hne)

/-- Forgetting an id lowers the count of its principal by one. -/
theorem count_without (hnodup : w.ids.Nodup) (he : e ∈ w) (principal : π) :
    count principal w
      = count principal (without e.id w) + if e.principal = principal then 1 else 0 := by
  induction w with
  | nil => cases he
  | cons first w ih =>
    obtain ⟨hfresh, hrest⟩ := List.nodup_cons.mp hnodup
    rcases List.mem_cons.mp he with rfl | he
    · rw [without_cons_self hnodup, count_cons]
    · have hne : first.id ≠ e.id := fun hsame =>
        hfresh (List.mem_map.mpr ⟨e, he, hsame.symm⟩)
      have hwithout : without e.id (first :: w) = first :: without e.id w :=
        List.filter_cons_of_pos (by simpa using hne)
      rw [hwithout, count_cons, count_cons, ih hrest he]
      omega

/-! ### What an accepted id is protected by -/

/-- The ids of a principal among some attempts. -/
def ownIds (principal : π) (attempts : List (Attempt π ι)) : Finset ι :=
  ((attempts.filter (·.principal = principal)).map (·.id)).toFinset

/-- So are those of one principal. -/
theorem count_le_card_ownIds (principal : π) (hnodup : behind.ids.Nodup)
    (hbehind : ∀ e ∈ behind, ∃ a ∈ newer, a.id = e.id ∧ a.principal = e.principal) :
    count principal behind ≤ (ownIds principal newer).card := by
  have hown : ∀ e ∈ behind.filter (Entry.isOf principal),
      ∃ a ∈ newer.filter (·.principal = principal), a.id = e.id ∧ a.principal = e.principal := by
    intro e he
    obtain ⟨hmem, hprincipal⟩ := List.mem_filter.mp he
    obtain ⟨a, ha, hid, hsame⟩ := hbehind e hmem
    refine ⟨a, List.mem_filter.mpr ⟨ha, ?_⟩, hid, hsame⟩
    rw [Entry.isOf_eq_true] at hprincipal
    simpa [hsame] using hprincipal
  have hfiltered : (Window.ids (behind.filter (Entry.isOf principal))).Nodup :=
    hnodup.sublist (List.filter_sublist.map _)
  calc count principal behind = (behind.filter (Entry.isOf principal)).length :=
        List.countP_eq_length_filter
    _ ≤ (allIds (newer.filter (·.principal = principal))).card :=
        length_le_card_allIds hfiltered hown

/-- An entry with little enough behind it survives the acceptance of one more id. -/
theorem Held.accept (h : Held x newer w) (hw : w.ids.Nodup) (a : Attempt π ι) (expiresAt : Nat)
    (hnew : a.id ∉ w.ids) (hown : (ownIds x.principal (newer ++ [a])).card < limits.perPrincipal)
    (hall : (allIds (newer ++ [a])).card < limits.capacity) :
    Held x (newer ++ [a]) (roomForAny limits (roomForOwn limits a.principal w)
      ++ [⟨a.id, a.principal, expiresAt⟩]) := by
  obtain ⟨before, behind, rfl, hbehind⟩ := h
  -- what stands behind the entry afterwards is the new id and part of what stood there before
  have hlatest : ∀ e ∈ behind ++ [⟨a.id, a.principal, expiresAt⟩],
      ∃ a' ∈ newer ++ [a], a'.id = e.id ∧ a'.principal = e.principal := by
    intro e he
    rcases List.mem_append.mp he with he | he
    · obtain ⟨a', ha', hsame⟩ := hbehind e he
      exact ⟨a', List.mem_append_left _ ha', hsame⟩
    · rw [List.mem_singleton] at he
      exact ⟨a, by simp, by rw [he], by rw [he]⟩
  have hnodup : (Window.ids (behind ++ [⟨a.id, a.principal, expiresAt⟩])).Nodup := by
    have hsub : (Window.ids behind).Sublist (Window.ids (before ++ x :: behind)) :=
      ((List.sublist_cons_self x behind).trans (List.sublist_append_right _ _)).map _
    exact nodup_concat (hw.sublist hsub) fun hmem => hnew (hsub.subset hmem)
  have hlength : behind.length + 1 < limits.capacity := by
    refine lt_of_le_of_lt ?_ hall
    simpa using length_le_card_allIds hnodup hlatest
  have hroom : ∃ before' behind', roomForOwn limits a.principal (before ++ x :: behind)
      = before' ++ x :: behind' ∧ behind'.Sublist behind := by
    by_cases hx : x.principal = a.principal
    · have hcount : count a.principal behind + 1 < limits.perPrincipal := by
        refine lt_of_le_of_lt ?_ (hx ▸ hown)
        simpa [count, Entry.isOf] using count_le_card_ownIds a.principal hnodup hlatest
      have htotal := count_append_cons_self x before behind
      rw [hx] at htotal
      have hown : count a.principal (before ++ x :: behind) + 1 - limits.perPrincipal
          ≤ count a.principal before := by omega
      obtain ⟨before', heq⟩ := forgetOwn_append_cons_of_le hown x behind
      exact ⟨before', behind, heq, List.Sublist.refl _⟩
    · exact forgetOwn_append_cons_of_ne hx _ before behind
  obtain ⟨before', behind', heq, hsub⟩ := hroom
  have hdrop : (before' ++ x :: behind').length + 1 - limits.capacity ≤ before'.length := by
    have := hsub.length_le
    simp only [List.length_append, List.length_cons]
    omega
  rw [heq, roomForAny, List.drop_append_of_le_length hdrop]
  refine ⟨_, behind' ++ [⟨a.id, a.principal, expiresAt⟩], List.append_assoc _ _ _, ?_⟩
  intro e he
  refine hlatest e ?_
  rcases List.mem_append.mp he with he | he
  · exact List.mem_append_left _ (hsub.subset he)
  · exact List.mem_append_right _ he

theorem ownIds_mono (h : as ⊆ bs) :
    ownIds principal as ⊆ ownIds principal bs := by
  intro id hid
  simp only [ownIds, List.mem_toFinset, List.mem_map, List.mem_filter] at hid ⊢
  obtain ⟨a, ⟨ha, hprincipal⟩, hid⟩ := hid
  exact ⟨a, ⟨h ha, hprincipal⟩, hid⟩

/-- An entry is held as long as it has not expired and newer ids have not reached a limit. -/
theorem Held.after (attempts : List (Attempt π ι)) (h : Held x newer w) (hw : w.ids.Nodup)
    (hlive : ∀ a ∈ attempts, a.now < x.expiresAt)
    (hown : (ownIds x.principal (newer ++ accepted (Runs.log (present limits expiry) w attempts))).card
      < limits.perPrincipal)
    (hall : (allIds (newer ++ accepted (Runs.log (present limits expiry) w attempts))).card
      < limits.capacity) :
    ∃ newer', Held x newer' (Runs.after (present limits expiry) w attempts) := by
  induction attempts generalizing newer w with
  | nil => exact ⟨newer, h⟩
  | cons a attempts ih =>
    have hpruned := h.prune (hlive a List.mem_cons_self)
    have hnodup := nodup_present limits expiry hw a
    have hrest : ∀ a ∈ attempts, a.now < x.expiresAt :=
      fun b hb => hlive b (List.mem_cons_of_mem _ hb)
    rw [Runs.after_cons]
    rw [Runs.log] at hown hall
    by_cases hid : a.id ∈ (ReplayWindow.prune a.now w).ids
    · have hpresent : present limits expiry w a = (false, ReplayWindow.prune a.now w) := if_pos hid
      rw [hpresent] at hnodup hown hall ⊢
      exact ih hpruned hnodup hrest hown hall
    · have hpresent : present limits expiry w a
          = (true, roomForAny limits (roomForOwn limits a.principal (ReplayWindow.prune a.now w))
            ++ [⟨a.id, a.principal, expiry a.now⟩]) := if_neg hid
      have hsplit : ∀ log, newer ++ accepted ((a, true) :: log) = newer ++ [a] ++ accepted log := by
        intro log
        simp [accepted]
      have hsubset : ∀ rest : List (Attempt π ι), newer ++ [a] ⊆ newer ++ [a] ++ rest :=
        fun rest => List.subset_append_left _ _
      rw [hpresent] at hnodup hown hall ⊢
      rw [hsplit] at hown hall
      refine ih (hpruned.accept (hw.sublist ((prune_sublist _ _).map _)) a _ hid ?_ ?_) hnodup
        hrest hown hall
      · exact lt_of_le_of_lt (Finset.card_le_card (ownIds_mono (hsubset _))) hown
      · exact lt_of_le_of_lt (Finset.card_le_card (allIds_mono (hsubset _))) hall

/-- In a log, an accepted id is refused until it has expired or the limits were reached by newer
ids. -/
def RefusesReplays (limits : Limits) (expiry : Nat → Nat) (log : List (Attempt π ι × Bool)) : Prop :=
  ∀ pre first mid again answer post,
    log = pre ++ (first, true) :: mid ++ (again, answer) :: post → again.id = first.id →
    again.now < expiry first.now →
    (ownIds first.principal (accepted mid)).card < limits.perPrincipal →
    (allIds (accepted mid)).card < limits.capacity → answer = false

theorem nodup_after (attempts : List (Attempt π ι)) (hw : w.ids.Nodup) :
    (Runs.after (present limits expiry) w attempts).ids.Nodup := by
  induction attempts generalizing w with
  | nil => exact hw
  | cons a attempts ih => exact ih (nodup_present limits expiry hw a)

/-- **What the window is for**, when the clock does not run backwards. -/
theorem refusesReplays (limits : Limits) (expiry : Nat → Nat) (attempts : List (Attempt π ι))
    (hclock : attempts.Pairwise (·.now ≤ ·.now)) :
    RefusesReplays limits expiry (Runs.log (present limits expiry) [] attempts) := by
  intro pre first mid again answer post hlog hid hlive hown hall
  rw [List.append_assoc, List.cons_append] at hlog
  obtain ⟨inputs, rest, rfl, -, hfirst, hmid⟩ := Runs.log_eq_append_cons hlog
  obtain ⟨between, last, rfl, rfl, hanswer, -⟩ := Runs.log_eq_append_cons hmid.symm
  have hnodup : (Runs.after (present limits expiry) [] inputs).ids.Nodup :=
    nodup_after inputs List.nodup_nil
  simp only at hfirst hanswer hown hall
  generalize Runs.after (present limits expiry) [] inputs = w at hfirst hanswer hown hall hnodup
  -- the first attempt was accepted, so its entry stands at the young end
  have hnew : first.id ∉ (prune first.now w).ids := by
    intro hmem
    rw [present, if_pos hmem] at hfirst
    cases hfirst
  have hheld : Held ⟨first.id, first.principal, expiry first.now⟩ []
      (present limits expiry w first).2 := by
    rw [present, if_neg hnew]
    exact ⟨_, [], rfl, by simp⟩
  have hbetween : ∀ a ∈ between, a.now < expiry first.now := by
    intro a ha
    refine lt_of_le_of_lt ?_ hlive
    have hlater := (List.pairwise_append.mp hclock).2.1
    exact (List.pairwise_append.mp (List.pairwise_cons.mp hlater).2).2.2 a ha again
      List.mem_cons_self
  obtain ⟨newer, hheld⟩ := hheld.after between (nodup_present limits expiry hnodup first) hbetween
    (by simpa using hown) (by simpa using hall)
  obtain ⟨before, behind, hwindow, -⟩ := hheld.prune hlive
  rw [hanswer, present, if_pos]
  rw [hwindow, hid]
  simp [Window.ids]

/-! ### How much is remembered -/

section

variable (hcapacity : 1 ≤ limits.capacity) (hperPrincipal : 1 ≤ limits.perPrincipal)
include hcapacity hperPrincipal

omit [DecidableEq ι] in
/-- Once room has been made for an id it fits. -/
theorem Within.concat (h : Within limits w) (e : Entry π ι) :
    Within limits (roomForAny limits (roomForOwn limits e.principal w) ++ [e]) where
  length_le := by
    simp only [roomForAny, List.length_append, List.length_drop, List.length_singleton]
    omega
  count_le principal := by
    have hsub : (roomForAny limits (roomForOwn limits e.principal w)).Sublist
        (roomForOwn limits e.principal w) := List.drop_sublist _ _
    have hle : count principal (roomForAny limits (roomForOwn limits e.principal w))
        ≤ count principal (roomForOwn limits e.principal w) := hsub.countP_le
    have hlast : count principal (roomForAny limits (roomForOwn limits e.principal w) ++ [e])
        = count principal (roomForAny limits (roomForOwn limits e.principal w))
          + if e.principal = principal then 1 else 0 := by
      simp [count, Entry.isOf]
    rw [hlast]
    by_cases hprincipal : e.principal = principal
    · subst hprincipal
      have hroom : count e.principal (roomForOwn limits e.principal w)
          = count e.principal w - (count e.principal w + 1 - limits.perPrincipal) :=
        count_forgetOwn _ _ _
      rw [if_pos rfl]
      omega
    · have hown : count principal (roomForOwn limits e.principal w) ≤ count principal w :=
        (forgetOwn_sublist _ _ _).countP_le
      rw [if_neg hprincipal]
      exact hle.trans (hown.trans (h.count_le principal))

theorem Within.present (h : Within limits w) (expiry : Nat → Nat) (a : Attempt π ι) :
    Within limits (present limits expiry w a).2 := by
  have hpruned := h.sublist (prune_sublist a.now w)
  unfold ReplayWindow.present
  split
  · exact hpruned
  · exact hpruned.concat hcapacity hperPrincipal ⟨a.id, a.principal, expiry a.now⟩

/-- The window of a run is within its limits. -/
theorem within_after (expiry : Nat → Nat) (attempts : List (Attempt π ι)) :
    Within limits (Runs.after (present limits expiry) [] attempts) := by
  refine Runs.run_invariant (P := fun _ w => Within limits w) ?_ ?_ attempts []
    (List.append_nil _).symm
  · exact ⟨Nat.zero_le _, fun _ => Nat.zero_le _⟩
  · exact fun _ a _ _ h => h.present hcapacity hperPrincipal expiry a

end

/-- Oldest first by expiry, and nothing expires later than what was presented last. -/
theorem sorted_after (limits : Limits) (hexpiry : Monotone expiry) (attempts : List (Attempt π ι))
    (hclock : attempts.Pairwise (·.now ≤ ·.now)) :
    (Runs.after (present limits expiry) [] attempts).Pairwise (·.expiresAt ≤ ·.expiresAt) := by
  -- every expiry is that of an attempt made so far
  refine (Runs.run_invariant (P := fun pre (w : Window π ι) =>
    w.Pairwise (·.expiresAt ≤ ·.expiresAt)
      ∧ ∀ e ∈ w, ∃ a ∈ pre, e.expiresAt = expiry a.now) ?_ ?_ attempts []
    (List.append_nil _).symm).1
  · exact ⟨List.Pairwise.nil, by simp⟩
  · rintro pre a post hsplit ⟨hsorted, hpresented⟩
    have hearlier : ∀ b ∈ pre, b.now ≤ a.now := by
      intro b hb
      rw [hsplit, List.pairwise_append] at hclock
      exact hclock.2.2 b hb a List.mem_cons_self
    generalize Runs.run (fun w a => (present limits expiry w a).2) [] pre = w at hsorted hpresented ⊢
    have hpruned := prune_sublist a.now w
    have hkeep : ∀ w' : Window π ι, w'.Sublist w → w'.Pairwise (·.expiresAt ≤ ·.expiresAt)
        ∧ ∀ e ∈ w', ∃ b ∈ pre, e.expiresAt = expiry b.now := fun w' hsub =>
      ⟨hsorted.sublist hsub, fun e he => hpresented e (hsub.subset he)⟩
    unfold present
    split
    · obtain ⟨hsorted', hpresented'⟩ := hkeep _ hpruned
      refine ⟨hsorted', fun e he => ?_⟩
      obtain ⟨b, hb, hexpires⟩ := hpresented' e he
      exact ⟨b, List.mem_append_left _ hb, hexpires⟩
    · obtain ⟨hsorted', hpresented'⟩ := hkeep _ ((room_sublist limits a.principal _).trans hpruned)
      refine ⟨?_, ?_⟩
      · refine List.pairwise_append.mpr ⟨hsorted', List.pairwise_singleton _ _, ?_⟩
        intro e he last hlast
        obtain ⟨b, hb, hexpires⟩ := hpresented' e he
        rw [List.mem_singleton.mp hlast, hexpires]
        exact hexpiry (hearlier b hb)
      · intro e he
        rcases List.mem_append.mp he with he | he
        · obtain ⟨b, hb, hexpires⟩ := hpresented' e he
          exact ⟨b, List.mem_append_left _ hb, hexpires⟩
        · exact ⟨a, by simp, by rw [List.mem_singleton.mp he]⟩

end Principals

/-! ### Guards -/

section Guard

variable {γ α : Type}

/-- Check the claims of a request, then use their id up. -/
def guarded (call : γ → Attempt π ι → Bool × γ) (claims : α → Option (Attempt π ι)) (cache : γ)
    (request : α) : Bool × γ :=
  match claims request with
  | some attempt => call cache attempt
  | none => (false, cache)

/-- What a cache keeps: an accepted id is remembered until it expires or is pushed out, and a
remembered id is refused. -/
structure MemoryLaws (call : γ → Attempt π ι → Bool × γ) (expiry : Nat → Nat)
    (Remembers : γ → ι → Nat → Prop) (Pushes : γ → Attempt π ι → ι → Prop) : Prop where
  accepted : ∀ cache a, (call cache a).1 = true → Remembers (call cache a).2 a.id (expiry a.now)
  kept : ∀ cache a id expiresAt, Remembers cache id expiresAt → a.now < expiresAt →
    ¬ Pushes cache a id → Remembers (call cache a).2 id expiresAt
  refused : ∀ cache a expiresAt, Remembers cache a.id expiresAt → a.now < expiresAt →
    (call cache a).1 = false

variable {call : γ → Attempt π ι → Bool × γ} {Remembers : γ → ι → Nat → Prop}
  {Pushes : γ → Attempt π ι → ι → Prop}

theorem MemoryLaws.remembers_after (laws : MemoryLaws call expiry Remembers Pushes)
    (claims : α → Option (Attempt π ι)) {id : ι} {expiresAt : Nat} (requests : List α) {cache : γ}
    (h : Remembers cache id expiresAt)
    (hlive : ∀ r ∈ requests, ∀ a, claims r = some a → a.now < expiresAt)
    (hkept : ∀ pre r post, requests = pre ++ r :: post → ∀ a, claims r = some a →
      ¬ Pushes (Runs.after (guarded call claims) cache pre) a id) :
    Remembers (Runs.after (guarded call claims) cache requests) id expiresAt := by
  induction requests generalizing cache with
  | nil => exact h
  | cons r requests ih =>
    rw [Runs.after_cons]
    refine ih ?_ (fun r' hr' => hlive r' (List.mem_cons_of_mem _ hr')) ?_
    · cases hclaims : claims r with
      | none => simpa [guarded, hclaims] using h
      | some a =>
        have hstep := laws.kept cache a id expiresAt h (hlive r List.mem_cons_self a hclaims)
          (hkept [] r requests rfl a hclaims)
        simpa [guarded, hclaims] using hstep
    · intro pre r' post hsplit
      exact hkept (r :: pre) r' post (by rw [hsplit]; rfl)

/-- **A guard does not let a request pass twice** within the lifetime of its id, unless the id was
pushed out in between. -/
theorem MemoryLaws.guard_refuses (laws : MemoryLaws call expiry Remembers Pushes)
    {claims : α → Option (Attempt π ι)} {cache : γ} {first again : α} {mid : List α}
    {a a' : Attempt π ι} (hfirst : claims first = some a)
    (haccepted : (guarded call claims cache first).1 = true) (hagain : claims again = some a')
    (hid : a'.id = a.id) (hlive : a'.now < expiry a.now)
    (hmid : ∀ r ∈ mid, ∀ b, claims r = some b → b.now ≤ a'.now)
    (hkept : ∀ pre r post, mid = pre ++ r :: post → ∀ b, claims r = some b →
      ¬ Pushes (Runs.after (guarded call claims) cache (first :: pre)) b a.id) :
    (guarded call claims (Runs.after (guarded call claims) cache (first :: mid)) again).1 = false := by
  have hcall : guarded call claims cache first = call cache a := by rw [guarded, hfirst]
  rw [hcall] at haccepted
  have hremembers := laws.remembers_after claims mid (laws.accepted cache a haccepted)
    (fun r hr b hb => lt_of_le_of_lt (hmid r hr b hb) hlive) (by
      intro pre r post hsplit b hb
      have hnot := hkept pre r post hsplit b hb
      rwa [Runs.after_cons, hcall] at hnot)
  rw [Runs.after_cons, hcall, guarded, hagain]
  exact laws.refused _ a' _ (hid ▸ hremembers) hlive

end Guard

end ReplayWindow

import Mathlib.Tactic

/-!
# Chains of parent pointers

A partial function `parent` makes a forest when every chain of pointers ends.  `ancestor parent n k`
is the node `n` pointers above `k`, and `Depth parent k n` says that the chain of `k` ends after
exactly `n` pointers.

Depths are what an update of the pointers is judged by: they do not change where the pointers do
not (`Depth.of_closed`), and cutting pointers can only make them smaller (`Depth.cut`).
-/

namespace ParentChain

variable {K : Type}

/-- The node reached after `n` pointers. -/
def ancestor (parent : K → Option K) : Nat → K → Option K
  | 0, k => some k
  | n + 1, k => (parent k).bind (ancestor parent n)

/-- The chain of pointers that starts at a node ends after exactly so many of them. -/
inductive Depth (parent : K → Option K) : K → Nat → Prop
  | root {k : K} (h : parent k = none) : Depth parent k 0
  | step {k p : K} {n : Nat} (h : parent k = some p) (hp : Depth parent p n) :
      Depth parent k (n + 1)

variable {parent parent' : K → Option K}

@[simp] theorem ancestor_zero (k : K) : ancestor parent 0 k = some k :=
  rfl

theorem ancestor_succ (n : Nat) (k : K) :
    ancestor parent (n + 1) k = (parent k).bind (ancestor parent n) :=
  rfl

variable {k a : K} {m n : Nat}

theorem ancestor_succ_of_parent {p : K} (h : parent k = some p) (n : Nat) :
    ancestor parent (n + 1) k = ancestor parent n p := by
  rw [ancestor_succ, h]
  rfl

theorem ancestor_succ_of_root (h : parent k = none) (n : Nat) :
    ancestor parent (n + 1) k = none := by
  rw [ancestor_succ, h]
  rfl

/-- Pointers can also be followed from the far end. -/
theorem ancestor_succ_right (n : Nat) (k : K) :
    ancestor parent (n + 1) k = (ancestor parent n k).bind parent := by
  induction n generalizing k with
  | zero => simp [ancestor]
  | succ n ih =>
    rw [ancestor_succ, ancestor_succ]
    cases hk : parent k with
    | none => rfl
    | some p => exact ih p

/-- Pointers can be followed in two stretches. -/
theorem ancestor_add (m n : Nat) (k : K) :
    ancestor parent (m + n) k = (ancestor parent m k).bind (ancestor parent n) := by
  induction m generalizing k with
  | zero => simp
  | succ m ih =>
    rw [Nat.succ_add, ancestor_succ, ancestor_succ, Option.bind_assoc]
    congr 1
    funext p
    exact ih p

/-- A node reached at all is reached through every stage before it. -/
theorem ancestor_split (hmn : m ≤ n) (ha : ancestor parent n k = some a) :
    ∃ b, ancestor parent m k = some b ∧ ancestor parent (n - m) b = some a := by
  obtain ⟨d, rfl⟩ := Nat.exists_eq_add_of_le hmn
  rw [ancestor_add, Option.bind_eq_some_iff] at ha
  rwa [Nat.add_sub_cancel_left]

/-- Following pointers only looks at the nodes before the last. -/
theorem ancestor_congr (hsame : ∀ m < n, ∀ b, ancestor parent m k = some b → parent' b = parent b) :
    ancestor parent' n k = ancestor parent n k := by
  induction n with
  | zero => rfl
  | succ n ih =>
    rw [ancestor_succ_right, ancestor_succ_right, ih fun m hm => hsame m (by omega)]
    cases hb : ancestor parent n k with
    | none => rfl
    | some b => exact hsame n (by omega) b hb

/-- What is reached after some pointers were cut was reached before. -/
theorem ancestor_of_cut (hcut : ∀ k, parent' k = parent k ∨ parent' k = none)
    (ha : ancestor parent' n k = some a) : ancestor parent n k = some a := by
  induction n generalizing k with
  | zero => exact ha
  | succ n ih =>
    rw [ancestor_succ, Option.bind_eq_some_iff] at ha
    obtain ⟨p, hp, ha⟩ := ha
    rcases hcut k with hk | hk
    · rw [ancestor_succ_of_parent (hk.symm.trans hp)]
      exact ih ha
    · rw [hk] at hp
      cases hp

/-- A node has one depth. -/
theorem Depth.unique (hm : Depth parent k m) (hn : Depth parent k n) :
    m = n := by
  induction hm generalizing n with
  | root hroot =>
    cases hn with
    | root => rfl
    | step h _ => rw [hroot] at h; cases h
  | step hparent _ ih =>
    cases hn with
    | root h => rw [hparent] at h; cases h
    | step h hp =>
      rw [hparent] at h
      cases h
      rw [ih hp]

/-- A node that has a depth has the ancestors up to it. -/
theorem Depth.exists_ancestor (hn : Depth parent k n) (hmn : m ≤ n) :
    ∃ a, ancestor parent m k = some a ∧ Depth parent a (n - m) := by
  induction hn generalizing m with
  | root h =>
    obtain rfl : m = 0 := by omega
    exact ⟨_, rfl, Depth.root h⟩
  | @step k p n h hp ih =>
    cases m with
    | zero => exact ⟨k, rfl, Depth.step h hp⟩
    | succ m =>
      obtain ⟨a, ha, hdepth⟩ := ih (m := m) (by omega)
      refine ⟨a, by rw [ancestor_succ_of_parent h]; exact ha, ?_⟩
      rwa [Nat.add_sub_add_right]

/-- An ancestor lies strictly closer to its root. -/
theorem Depth.of_ancestor (hn : Depth parent k n) (ha : ancestor parent m k = some a) :
    m ≤ n ∧ Depth parent a (n - m) := by
  induction m generalizing k n with
  | zero =>
    obtain rfl : k = a := by simpa using ha
    exact ⟨Nat.zero_le _, hn⟩
  | succ m ih =>
    cases hn with
    | root h =>
      rw [ancestor_succ_of_root h] at ha
      cases ha
    | @step _ p n h hp =>
      rw [ancestor_succ_of_parent h] at ha
      obtain ⟨hle, hdepth⟩ := ih hp ha
      exact ⟨by omega, by rwa [Nat.add_sub_add_right]⟩

/-- A node is not its own proper ancestor when its chain ends. -/
theorem Depth.ancestor_ne_self (hn : Depth parent k n) :
    ancestor parent (m + 1) k ≠ some k := by
  intro h
  obtain ⟨hle, hdepth⟩ := hn.of_ancestor h
  have := hn.unique hdepth
  omega

/-- Depths are unchanged on a set that pointers do not leave and on which they did not change. -/
theorem Depth.of_closed {inside : K → Prop}
    (hclosed : ∀ k p, inside k → parent k = some p → inside p)
    (hsame : ∀ k, inside k → parent' k = parent k) (hk : inside k) (hn : Depth parent k n) :
    Depth parent' k n := by
  induction hn with
  | root h => exact Depth.root ((hsame _ hk).trans h)
  | step h _ ih => exact Depth.step ((hsame _ hk).trans h) (ih (hclosed _ _ hk h))

/-- Cutting pointers brings nodes closer to a root. -/
theorem Depth.cut (hcut : ∀ k, parent' k = parent k ∨ parent' k = none) (hn : Depth parent k n) :
    ∃ m ≤ n, Depth parent' k m := by
  induction hn with
  | @root k h =>
    refine ⟨0, le_rfl, Depth.root ?_⟩
    rcases hcut k with hk | hk
    · exact hk.trans h
    · exact hk
  | @step k p n h _ ih =>
    rcases hcut k with hk | hk
    · obtain ⟨m, hle, hm⟩ := ih
      exact ⟨m + 1, by omega, Depth.step (hk.trans h) hm⟩
    · exact ⟨0, by omega, Depth.root hk⟩

end ParentChain

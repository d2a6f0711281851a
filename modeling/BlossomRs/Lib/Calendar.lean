import Mathlib.Algebra.BigOperators.Intervals
import Mathlib.Algebra.Order.BigOperators.Group.Finset
import Mathlib.Data.List.Lex
import Mathlib.Tactic

/-!
# The Gregorian calendar

Months and years by their lengths, and the number of days from the first of January of a year to a
date: the lengths of the years before it, of the months before it in its year, and of the days
before it in its month.

Two levels of one fact carry the order of dates.  A remainder below the next summand keeps a
partial sum below the next one; days within a month and days within a year are both such remainders.
-/

namespace Gregorian

open Finset

/-- Every fourth year, except the centuries that four hundred does not divide. -/
def IsLeap (y : ℕ) : Prop :=
  (4 ∣ y ∧ ¬ 100 ∣ y) ∨ 400 ∣ y

instance (y : ℕ) : Decidable (IsLeap y) :=
  inferInstanceAs (Decidable ((4 ∣ y ∧ ¬ 100 ∣ y) ∨ 400 ∣ y))

def monthLength (y m : ℕ) : ℕ :=
  if m = 2 then if IsLeap y then 29 else 28
  else if m = 4 ∨ m = 6 ∨ m = 9 ∨ m = 11 then 30
  else 31

/-- The months are counted from one, and so are the days. -/
structure IsDate (y m d : ℕ) : Prop where
  month_pos : 1 ≤ m
  month_le : m ≤ 12
  day_pos : 1 ≤ d
  day_le : d ≤ monthLength y m

def daysBeforeMonth (y m : ℕ) : ℕ :=
  ∑ i ∈ Ico 1 m, monthLength y i

/-- The days from the first of January of `epoch` to that of `y`. -/
def daysBeforeYear (epoch y : ℕ) : ℕ :=
  ∑ i ∈ Ico epoch y, daysBeforeMonth i 13

/-- The days from the first of January of `epoch` to a date. -/
def daysSince (epoch y m d : ℕ) : ℕ :=
  daysBeforeYear epoch y + (daysBeforeMonth y m + (d - 1))

theorem sum_Ico_add_lt {f : ℕ → ℕ} {a i j r : ℕ} (ha : a ≤ i) (hij : i < j) (hr : r < f i) :
    ∑ k ∈ Ico a i, f k + r < ∑ k ∈ Ico a j, f k := by
  calc ∑ k ∈ Ico a i, f k + r
      < ∑ k ∈ Ico a i, f k + f i := Nat.add_lt_add_left hr _
    _ = ∑ k ∈ Ico a (i + 1), f k := (sum_Ico_succ_top ha f).symm
    _ ≤ ∑ k ∈ Ico a j, f k := sum_le_sum_of_subset (Ico_subset_Ico_right hij)

variable {epoch y m d y' m' d' : ℕ}

section

variable (h : IsDate y m d)
include h

/-- A date falls within its year. -/
theorem IsDate.dayOfYear_lt :
    daysBeforeMonth y m + (d - 1) < daysBeforeMonth y 13 := by
  have hday : d - 1 < monthLength y m := by
    have hpos := h.day_pos
    have hle := h.day_le
    omega
  exact sum_Ico_add_lt h.month_pos (Nat.lt_succ_of_le h.month_le) hday

/-- A later date has more days before it. -/
theorem IsDate.daysSince_lt (hepoch : epoch ≤ y) (hd' : 1 ≤ d') (hlt : [y, m, d] < [y', m', d']) :
    daysSince epoch y m d < daysSince epoch y' m' d' := by
  simp only [List.cons_lt_cons_iff, List.not_lt_nil, and_false, or_false] at hlt
  unfold daysSince
  rcases hlt with hyear | ⟨rfl, hmonth | ⟨rfl, hday⟩⟩
  · have hbefore : daysBeforeYear epoch y + (daysBeforeMonth y m + (d - 1))
        < daysBeforeYear epoch y' := sum_Ico_add_lt hepoch hyear h.dayOfYear_lt
    omega
  · have hday : d - 1 < monthLength y m := by
      have hpos := h.day_pos
      have hle := h.day_le
      omega
    have hbefore : daysBeforeMonth y m + (d - 1) < daysBeforeMonth y m' :=
      sum_Ico_add_lt h.month_pos hmonth hday
    omega
  · have hpos := h.day_pos
    omega

/-- Dates are in the order of their day numbers. -/
theorem IsDate.lt_of_daysSince_lt (h' : IsDate y' m' d') (hepoch' : epoch ≤ y')
    (hlt : daysSince epoch y m d < daysSince epoch y' m' d') : [y, m, d] < [y', m', d'] := by
  rcases lt_trichotomy [y, m, d] [y', m', d'] with hbefore | heq | hafter
  · exact hbefore
  · simp only [List.cons.injEq, and_true] at heq
    obtain ⟨rfl, rfl, rfl⟩ := heq
    exact absurd hlt (lt_irrefl _)
  · have hgt := h'.daysSince_lt hepoch' h.day_pos hafter
    omega

/-- A day number is that of one date only. -/
theorem IsDate.eq_of_daysSince_eq (h' : IsDate y' m' d') (hepoch : epoch ≤ y) (hepoch' : epoch ≤ y')
    (heq : daysSince epoch y m d = daysSince epoch y' m' d') :
    (y, m, d) = (y', m', d') := by
  rcases lt_trichotomy [y, m, d] [y', m', d'] with hbefore | hsame | hafter
  · have hlt := h.daysSince_lt hepoch h'.day_pos hbefore
    omega
  · simp only [List.cons.injEq, and_true] at hsame
    obtain ⟨rfl, rfl, rfl⟩ := hsame
    rfl
  · have hgt := h'.daysSince_lt hepoch' h.day_pos hafter
    omega

end

end Gregorian

import BlossomRs.Lib.Calendar
import BlossomRs.Server.Locks

/-!
# The dates of the lock answers

`days_to_date` counts years and then months off a number of days.  What its two loops keep is the
number of days before the year, or the month, they have reached, plus the days that remain; when
they stop, the remainder is within that year, or month.  So the result is the date with that many
days since the epoch, and there is only one.

The times are those the clock can count: `UNIX_EPOCH + duration` has no value from 2^63 seconds on,
and below that the loops see the seconds as they are.
-/

namespace BlossomRs.Server

open Finset Gregorian

/-! ### Lengths -/

theorem isLeapYear_iff (y : Nat) : isLeapYear y = true ↔ IsLeap y := by
  simp only [isLeapYear, IsLeap, Bool.or_eq_true, Bool.and_eq_true, beq_iff_eq, bne_iff_ne,
    Nat.dvd_iff_mod_eq_zero, ne_eq]

theorem monthDays_eq (y : Nat) : monthDays y = (List.range' 1 12).map (monthLength y) := by
  have hmonths : (List.range' 1 12).map (monthLength y)
      = [31, if IsLeap y then 29 else 28, 31, 30, 31, 30, 31, 31, 30, 31, 30, 31] := rfl
  rw [hmonths, monthDays]
  simp only [isLeapYear_iff]

theorem yearLength_eq (y : Nat) : yearLength y = daysBeforeMonth y 13 := by
  have hsum : daysBeforeMonth y 13 = (if IsLeap y then 29 else 28) + 337 := by
    rw [daysBeforeMonth, sum_Ico_eq_sum_range]
    simp [sum_range_succ, monthLength]
    omega
  rw [hsum, yearLength]
  simp only [isLeapYear_iff]
  split <;> rfl

/-! ### The loops -/

/-- The year loop stops within a year and keeps the day it was called for. -/
theorem takeYears_spec (y remaining : Nat) (hy : 1970 ≤ y) :
    1970 ≤ (takeYears y remaining).1
      ∧ (takeYears y remaining).2 < daysBeforeMonth (takeYears y remaining).1 13
      ∧ daysBeforeYear 1970 (takeYears y remaining).1 + (takeYears y remaining).2
        = daysBeforeYear 1970 y + remaining := by
  induction y, remaining using takeYears.induct with
  | case1 y remaining hlt =>
    rw [takeYears, if_pos hlt]
    rw [yearLength_eq] at hlt
    exact ⟨hy, hlt, rfl⟩
  | case2 y remaining hge ih =>
    rw [takeYears, if_neg hge]
    obtain ⟨hyear, hrest, hdays⟩ := ih (by omega)
    refine ⟨hyear, hrest, hdays.trans ?_⟩
    have hnext : daysBeforeYear 1970 (y + 1) = daysBeforeYear 1970 y + yearLength y := by
      rw [yearLength_eq]
      exact sum_Ico_succ_top hy _
    omega

/-- The month loop, on the lengths of `count` months after the first `m`, stops within one of them
as long as the days do. -/
theorem takeMonths_spec (length : Nat → Nat) (count m remaining : Nat)
    (hlt : ∑ i ∈ Ico 1 (m + 1), length i + remaining < ∑ i ∈ Ico 1 (m + count + 1), length i) :
    let stop := takeMonths ((List.range' (m + 1) count).map length) m remaining
    stop.1 < m + count ∧ stop.2 < length (stop.1 + 1)
      ∧ ∑ i ∈ Ico 1 (stop.1 + 1), length i + stop.2 = ∑ i ∈ Ico 1 (m + 1), length i + remaining := by
  induction count generalizing m remaining with
  | zero => exact absurd hlt (by simp)
  | succ count ih =>
    rw [List.range'_succ, List.map_cons, takeMonths]
    have hnext := sum_Ico_succ_top (show 1 ≤ m + 1 by omega) length
    by_cases hwithin : remaining < length (m + 1)
    · rw [if_pos hwithin]
      exact ⟨by omega, hwithin, rfl⟩
    · rw [if_neg hwithin]
      have hkept : ∑ i ∈ Ico 1 (m + 1 + 1), length i + (remaining - length (m + 1))
          = ∑ i ∈ Ico 1 (m + 1), length i + remaining := by omega
      have hlast : m + 1 + count + 1 = m + (count + 1) + 1 := by omega
      obtain ⟨hm, hrest, hdays⟩ := ih (m + 1) (remaining - length (m + 1))
        (by rw [hkept, hlast]; exact hlt)
      exact ⟨by omega, hrest, hdays.trans hkept⟩

/-- The loops' result is a date of the calendar, as many days after the epoch as were asked for. -/
theorem daysToDate_spec (n : Nat) :
    let (y, m, d) := daysToDate n
    1970 ≤ y ∧ IsDate y m d ∧ daysSince 1970 y m d = n := by
  obtain ⟨hyear, hwithin, hdays⟩ := takeYears_spec 1970 n le_rfl
  have hmonths := takeMonths_spec (monthLength (takeYears 1970 n).1) 12 0 (takeYears 1970 n).2
    (by rw [Nat.zero_add, Ico_self, sum_empty, Nat.zero_add]; exact hwithin)
  simp only [Nat.zero_add, ← monthDays_eq, Ico_self, sum_empty] at hmonths
  obtain ⟨hm, hrest, hkept⟩ := hmonths
  refine ⟨hyear, ⟨Nat.le_add_left 1 _, hm, Nat.le_add_left 1 _, hrest⟩, ?_⟩
  have hepoch : daysBeforeYear 1970 1970 = 0 := by rw [daysBeforeYear, Ico_self, sum_empty]
  rw [hepoch, Nat.zero_add] at hdays
  rw [daysSince, Nat.add_sub_cancel, daysBeforeMonth]
  exact (congrArg (daysBeforeYear 1970 (takeYears 1970 n).1 + ·) hkept).trans hdays

/-- It is the only such date. -/
theorem daysToDate_eq_iff (n y m d : Nat) :
    daysToDate n = (y, m, d) ↔ 1970 ≤ y ∧ IsDate y m d ∧ daysSince 1970 y m d = n := by
  have hspec := daysToDate_spec n
  constructor
  · intro heq
    rw [heq] at hspec
    exact hspec
  · rintro ⟨hepoch, hdate, hdays⟩
    exact hspec.2.1.eq_of_daysSince_eq hdate hspec.1 hepoch (hspec.2.2.trans hdays.symm)

/-! ### Dates with times -/

/-- The fields that `format_unix_timestamp` prints. -/
def timestampFields (secs : Nat) : List Nat :=
  let (year, month, day) := daysToDate (secs / 86400)
  let timeOfDay := secs % 86400
  [year, month, day, timeOfDay / 3600, timeOfDay % 3600 / 60, timeOfDay % 60]

/-- An earlier second has earlier fields: an earlier day, or the same day and an earlier time. -/
theorem timestampFields_lt {secs secs' : Nat} (h : secs < secs') :
    timestampFields secs < timestampFields secs' := by
  obtain ⟨hepoch, hdate, hdays⟩ := daysToDate_spec (secs / 86400)
  obtain ⟨hepoch', hdate', hdays'⟩ := daysToDate_spec (secs' / 86400)
  rcases Nat.lt_or_ge (secs / 86400) (secs' / 86400) with hday | hday
  · have hlt := hdate.lt_of_daysSince_lt hdate' hepoch' (by rw [hdays, hdays']; exact hday)
    simp only [List.cons_lt_cons_iff, List.not_lt_nil, and_false, or_false] at hlt
    simp only [timestampFields, List.cons_lt_cons_iff]
    rcases hlt with hyear | ⟨hyear, hmonth | ⟨hmonth, hday⟩⟩
    · exact Or.inl hyear
    · exact Or.inr ⟨hyear, Or.inl hmonth⟩
    · exact Or.inr ⟨hyear, Or.inr ⟨hmonth, Or.inl hday⟩⟩
  · have hsame : secs / 86400 = secs' / 86400 := by omega
    simp only [timestampFields, hsame, List.cons_lt_cons_iff, and_false, or_false, true_and,
      lt_irrefl, false_or]
    omega

/-! ### The text -/

/-- `format!` on the fields. -/
def fieldsText : List Nat → String
  | [year, month, day, hours, minutes, seconds] =>
    padded 4 year ++ "-" ++ padded 2 month ++ "-" ++ padded 2 day ++ "T" ++ padded 2 hours
      ++ ":" ++ padded 2 minutes ++ ":" ++ padded 2 seconds ++ "Z"
  | _ => ""

theorem formatUnixTimestamp_eq (secs : Nat) :
    formatUnixTimestamp secs = fieldsText (timestampFields secs) := rfl

theorem toList_padded (width n : Nat) : (padded width n).toList
    = List.replicate (width - (toString n).length) '0' ++ Nat.toDigits 10 n := by
  simp [padded]

/-- Leading zeroes do not change the value. -/
theorem ofDigitChars_zeros (count : Nat) (digits : List Char) :
    Nat.ofDigitChars 10 (List.replicate count '0' ++ digits) 0 = Nat.ofDigitChars 10 digits 0 := by
  induction count with
  | zero => rfl
  | succ count ih => exact ih

theorem padded_inj {width m n : Nat} (h : padded width m = padded width n) : m = n := by
  have hvalue : ∀ k, Nat.ofDigitChars 10 (padded width k).toList 0 = k := by
    intro k
    rw [toList_padded, ofDigitChars_zeros, Nat.ofDigitChars_ten_toDigits]
  rw [← hvalue m, h, hvalue n]

/-- A printed number has no separator in it. -/
theorem not_mem_padded {c : Char} (hc : c.isDigit = false) (width n : Nat) :
    c ∉ (padded width n).toList := by
  intro hmem
  rw [toList_padded, List.mem_append] at hmem
  have hdigit : c.isDigit = true := by
    rcases hmem with hzero | hdigits
    · rw [(List.mem_replicate.mp hzero).2]
      decide
    · exact Nat.isDigit_of_mem_toDigits (by decide) (by decide) hdigits
  rw [hc] at hdigit
  contradiction

/-- A printed number in front of a separator is read back. -/
theorem padded_append_inj {sep : String} {c : Char} (hsep : sep.toList = [c])
    (hc : c.isDigit = false) {width m n : Nat} {rest rest' : String}
    (h : padded width m ++ (sep ++ rest) = padded width n ++ (sep ++ rest')) :
    m = n ∧ rest = rest' := by
  rw [← String.append_assoc, ← String.append_assoc] at h
  obtain ⟨hnumber, hrest⟩ := RustStr.eq_of_append_first hsep (not_mem_padded hc width m)
    (not_mem_padded hc width n) h
  exact ⟨padded_inj hnumber, hrest⟩

/-- The printed fields are read back one after the other. -/
theorem fieldsText_inj {y m d hh mm ss y' m' d' hh' mm' ss' : Nat}
    (h : fieldsText [y, m, d, hh, mm, ss] = fieldsText [y', m', d', hh', mm', ss']) :
    [y, m, d, hh, mm, ss] = [y', m', d', hh', mm', ss'] := by
  simp only [fieldsText, String.append_assoc] at h
  obtain ⟨hyear, hafterYear⟩ := padded_append_inj (c := '-') rfl (by decide) h
  obtain ⟨hmonth, hafterMonth⟩ := padded_append_inj (c := '-') rfl (by decide) hafterYear
  obtain ⟨hday, hafterDay⟩ := padded_append_inj (c := 'T') rfl (by decide) hafterMonth
  obtain ⟨hhours, hafterHours⟩ := padded_append_inj (c := ':') rfl (by decide) hafterDay
  obtain ⟨hminutes, hafterMinutes⟩ := padded_append_inj (c := ':') rfl (by decide) hafterHours
  have hlast : padded 2 ss ++ ("Z" ++ "") = padded 2 ss' ++ ("Z" ++ "") := hafterMinutes
  obtain ⟨hseconds, -⟩ := padded_append_inj (c := 'Z') rfl (by decide) hlast
  rw [hyear, hmonth, hday, hhours, hminutes, hseconds]

/-- **Dates.**  A number of days is printed as the one date of the Gregorian calendar that lies so
many days after 1970-01-01; the fields of a printed time grow with the seconds, and the text tells
them apart. -/
theorem timestamps_faithful :
    (∀ n y m d, daysToDate n = (y, m, d)
        ↔ 1970 ≤ y ∧ IsDate y m d ∧ daysSince 1970 y m d = n)
      ∧ (∀ secs, formatUnixTimestamp secs = fieldsText (timestampFields secs))
      ∧ StrictMono timestampFields
      ∧ Function.Injective formatUnixTimestamp := by
  refine ⟨daysToDate_eq_iff, formatUnixTimestamp_eq, fun _ _ => timestampFields_lt, ?_⟩
  intro secs secs' heq
  have hfields : timestampFields secs = timestampFields secs' := fieldsText_inj heq
  exact (StrictMono.injective fun _ _ => timestampFields_lt) hfields

end BlossomRs.Server

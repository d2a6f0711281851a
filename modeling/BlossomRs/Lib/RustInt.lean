import Mathlib.Data.Int.Init
import Mathlib.Tactic.Ring

/-!
# Integer casts

`as` between the signed and the unsigned type of 64 bits keeps the bits.  Values are numbers here, so
a cast is a reduction modulo `2 ^ 64` into the range of the type.

A sum of signed values that leaves the range wraps around (`addI64`) or is refused (`checkedAddI64`).
Where no partial sum leaves it, both give the sum (`SumsInI64`).
-/

namespace RustInt

/-- `as i64` of an unsigned value. -/
def asI64 (n : Nat) : Int :=
  Int.bmod n (2 ^ 64)

/-- `as u64`. -/
def asU64 (n : Int) : Nat :=
  (n % 2 ^ 64).toNat

variable {n : Nat}

/-- A value both types have is kept. -/
theorem asI64_of_lt (h : n < 2 ^ 63) : asI64 n = n := by
  unfold asI64
  rw [Int.bmod_def]
  omega

theorem asU64_of_nonneg {n : Int} (hnonneg : 0 ≤ n) (h : n < 2 ^ 63) : (asU64 n : Int) = n := by
  unfold asU64
  omega

@[simp] theorem asU64_zero : asU64 0 = 0 :=
  rfl

theorem asU64_lt (n : Int) : asU64 n < 2 ^ 64 := by
  unfold asU64
  omega

theorem asU64_asI64 (h : n < 2 ^ 64) : asU64 (asI64 n) = n := by
  unfold asU64 asI64
  rw [Int.bmod_def]
  omega

/-- Beyond the sign bit numbers become negative. -/
theorem asI64_of_ge (hlow : 2 ^ 63 ≤ n) (h : n < 2 ^ 64) : asI64 n < 0 := by
  unfold asI64
  rw [Int.bmod_def]
  omega

/-- Casting keeps the order of numbers on one side of the sign bit. -/
theorem asI64_le_asI64 {m : Nat} (hm : m < 2 ^ 64) (hn : n < 2 ^ 64) (h : m < 2 ^ 63 ↔ n < 2 ^ 63) :
    asI64 m ≤ asI64 n ↔ m ≤ n := by
  unfold asI64
  rw [Int.bmod_def, Int.bmod_def]
  omega

/-! ### Sums of signed values -/

def InI64 (n : Int) : Prop :=
  -2 ^ 63 ≤ n ∧ n < 2 ^ 63

instance (n : Int) : Decidable (InI64 n) :=
  inferInstanceAs (Decidable (_ ∧ _))

theorem asI64_asU64 {n : Int} (h : InI64 n) : asI64 (asU64 n) = n := by
  obtain ⟨hlow, hhigh⟩ := h
  unfold asI64 asU64
  rw [Int.bmod_def]
  omega

/-- `+` of a build without overflow checks. -/
def addI64 (a b : Int) : Int :=
  Int.bmod (a + b) (2 ^ 64)

/-- A sum, if it is in range. -/
def checkedAddI64 (a b : Int) : Option Int :=
  if InI64 (a + b) then some (a + b) else none

theorem addI64_of_inI64 {a b : Int} (h : InI64 (a + b)) : addI64 a b = a + b := by
  obtain ⟨hlow, hhigh⟩ := h
  unfold addI64
  rw [Int.bmod_def]
  omega

/-- No partial sum leaves the range. -/
def SumsInI64 (a : Int) : List Int → Prop
  | [] => True
  | b :: rest => InI64 (a + b) ∧ SumsInI64 (a + b) rest

instance decidableSumsInI64 : (a : Int) → (bs : List Int) → Decidable (SumsInI64 a bs)
  | _, [] => inferInstanceAs (Decidable True)
  | a, b :: rest =>
    have := decidableSumsInI64 (a + b) rest
    inferInstanceAs (Decidable (_ ∧ _))

/-- A checked sum goes through exactly when no partial sum leaves the range. -/
theorem foldlM_checkedAddI64 (a : Int) (bs : List Int) :
    bs.foldlM checkedAddI64 a = if SumsInI64 a bs then some (a + bs.sum) else none := by
  induction bs generalizing a with
  | nil => simp [SumsInI64]
  | cons b rest ih =>
    rw [List.foldlM_cons, checkedAddI64]
    by_cases hb : InI64 (a + b)
    · rw [if_pos hb]
      simp only [Option.bind_eq_bind, Option.bind_some, ih, SumsInI64, hb, true_and,
        List.sum_cons, add_assoc]
    · rw [if_neg hb]
      simp [SumsInI64, hb]

/-- There a sum that may wrap around does not. -/
theorem foldl_addI64 {a : Int} {bs : List Int} (h : SumsInI64 a bs) :
    bs.foldl addI64 a = a + bs.sum := by
  induction bs generalizing a with
  | nil => simp
  | cons b rest ih =>
    rw [List.foldl_cons, addI64_of_inI64 h.1, ih h.2, List.sum_cons, add_assoc]

end RustInt

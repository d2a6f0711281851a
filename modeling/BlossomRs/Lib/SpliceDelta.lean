import Mathlib.Tactic

/-!
# Deltas that splice

A delta that keeps the common head and tail of base and target and carries what lies between.  It
says how many bytes its base has; a decoder takes that many bytes of the base it is given, fails where
there are fewer, and does not check what it rebuilds.  It is the simplest coder of the kind that
binary delta formats describe.
-/

namespace SpliceDelta

/-- How many leading bytes agree. -/
def headLen : List UInt8 → List UInt8 → Nat
  | a :: as, b :: bs => if a = b then headLen as bs + 1 else 0
  | _, _ => 0

/-- The part of a base that is used: all of it, if its length fits a byte. -/
def segment (base : List UInt8) : List UInt8 :=
  if base.length < 256 then base else []

/-- Magic number, the lengths of the segment, of the head and of the tail, and the bytes between. -/
def encode (base target : List UInt8) : List UInt8 :=
  let source := segment base
  let head := headLen source target
  let tail := headLen (source.drop head).reverse (target.drop head).reverse
  [0xd6, 0xc3, 0xc4, 0x00, UInt8.ofNat source.length, UInt8.ofNat head, UInt8.ofNat tail]
    ++ (target.drop head).take (target.length - head - tail)

def decode (base : List UInt8) : List UInt8 → Option (List UInt8)
  | 0xd6 :: 0xc3 :: 0xc4 :: 0x00 :: size :: head :: tail :: middle =>
    if base.length < size.toNat then none
    else
      let source := base.take size.toNat
      some (source.take head.toNat ++ middle ++ source.drop (source.length - tail.toNat))
  | _ => none

theorem headLen_le (as bs : List UInt8) :
    headLen as bs ≤ as.length ∧ headLen as bs ≤ bs.length := by
  fun_induction headLen as bs with
  | case1 as b bs ih =>
    simp only [List.length_cons]
    omega
  | case2 => simp
  | case3 => simp

theorem take_headLen (as bs : List UInt8) :
    as.take (headLen as bs) = bs.take (headLen as bs) := by
  fun_induction headLen as bs with
  | case1 as b bs ih => simp [ih]
  | case2 => rfl
  | case3 => rfl

/-- Two lists that agree on their last bytes agree there as suffixes. -/
theorem drop_headLen_reverse (as bs : List UInt8) :
    as.drop (as.length - headLen as.reverse bs.reverse)
      = bs.drop (bs.length - headLen as.reverse bs.reverse) := by
  have h := take_headLen as.reverse bs.reverse
  rw [List.take_reverse, List.take_reverse] at h
  exact List.reverse_injective h

/-- A list is its head, its middle and its tail. -/
theorem splice_eq (target : List UInt8) {head tail : Nat} (h : head + tail ≤ target.length) :
    target.take head ++ (target.drop head).take (target.length - head - tail)
      ++ target.drop (target.length - tail) = target := by
  have hrest : (target.drop head).take (target.length - head - tail)
      ++ target.drop (target.length - tail) = target.drop head := by
    conv_rhs => rw [← List.take_append_drop (target.length - head - tail) (target.drop head)]
    rw [List.drop_drop, show head + (target.length - head - tail) = target.length - tail by omega]
  rw [List.append_assoc, hrest, List.take_append_drop]

/-- The segment is what a decoder takes of the base. -/
theorem take_length_segment (base : List UInt8) :
    (segment base).length ≤ base.length ∧ (segment base).length < 256
      ∧ base.take (segment base).length = segment base := by
  unfold segment
  split
  · exact ⟨le_rfl, by assumption, List.take_length⟩
  · simp

theorem toNat_ofNat_of_lt {n : Nat} (h : n < 256) : (UInt8.ofNat n).toNat = n := by
  rw [UInt8.toNat_ofNat']
  omega

/-- **The round trip.** -/
theorem decode_encode (base target : List UInt8) :
    decode base (encode base target) = some target := by
  obtain ⟨hle, hlt, htake⟩ := take_length_segment base
  simp only [encode, List.cons_append, List.nil_append, decode]
  generalize segment base = source at *
  have hhead := headLen_le source target
  have hfront := take_headLen source target
  have htail := headLen_le (source.drop (headLen source target)).reverse
    (target.drop (headLen source target)).reverse
  have hback := drop_headLen_reverse (source.drop (headLen source target))
    (target.drop (headLen source target))
  generalize headLen source target = head at *
  generalize headLen (source.drop head).reverse (target.drop head).reverse = tail at *
  simp only [List.length_reverse, List.length_drop, List.drop_drop] at htail hback
  rw [show head + (source.length - head - tail) = source.length - tail by omega,
    show head + (target.length - head - tail) = target.length - tail by omega] at hback
  rw [toNat_ofNat_of_lt hlt, toNat_ofNat_of_lt (by omega), toNat_ofNat_of_lt (by omega),
    if_neg (by omega), htake, hfront, hback, splice_eq target (by omega)]

end SpliceDelta

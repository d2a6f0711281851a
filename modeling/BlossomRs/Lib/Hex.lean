import Mathlib.Tactic

/-!
# Hexadecimal text

Writing writes two lowercase digits per byte; reading accepts digits of either case and refuses an
odd number of them.  Reading back what was written gives the bytes, so writing is injective; writing
what was read gives the text in lowercase.
-/

namespace Hex

/-- The lowercase digit of a value below sixteen. -/
def digit (value : Nat) : Char :=
  if value < 10 then Char.ofNat (48 + value) else Char.ofNat (87 + value)

/-- The value of one hexadecimal digit, of either case. -/
def value? (c : Char) : Option Nat :=
  if '0' ≤ c ∧ c ≤ '9' then some (c.toNat - 48)
  else if 'a' ≤ c ∧ c ≤ 'f' then some (c.toNat - 87)
  else if 'A' ≤ c ∧ c ≤ 'F' then some (c.toNat - 55)
  else none

/-- The two digits of a byte, high half first. -/
def encodeByte (byte : UInt8) : List Char :=
  [digit (byte.toNat / 16), digit (byte.toNat % 16)]

def encodeChars (bytes : List UInt8) : List Char :=
  bytes.flatMap encodeByte

def encode (bytes : List UInt8) : String :=
  String.ofList (encodeChars bytes)

def decodeChars : List Char → Option (List UInt8)
  | [] => some []
  | [_] => none
  | high :: low :: rest =>
    match value? high, value? low, decodeChars rest with
    | some h, some l, some bytes => some (UInt8.ofNat (16 * h + l) :: bytes)
    | _, _, _ => none

def decode (text : String) : Option (List UInt8) :=
  decodeChars text.toList

/-- The value of a digit string, most significant digit first. -/
def digitsValue? : Nat → List Char → Option Nat
  | acc, [] => some acc
  | acc, c :: rest => (value? c).bind fun value => digitsValue? (16 * acc + value) rest

/-- `from_str_radix(text, 16)` of an unsigned integer of the given width: an optional plus sign, then
at least one digit, and no overflow. -/
def fromStrRadix (width : Nat) (text : String) : Option Nat :=
  let digits := match text.toList with
    | '+' :: rest => rest
    | chars => chars
  if digits.isEmpty then none
  else (digitsValue? 0 digits).filter (· < 2 ^ width)

/-- A lowercase hexadecimal digit. -/
def IsLowerDigit (c : Char) : Bool :=
  ('0' ≤ c && c ≤ '9') || ('a' ≤ c && c ≤ 'f')

theorem value?_digit : ∀ value < 16, value? (digit value) = some value := by
  decide

theorem isLowerDigit_digit : ∀ value < 16, IsLowerDigit (digit value) = true := by
  decide

theorem high_lt (byte : UInt8) : byte.toNat / 16 < 16 := by
  have := byte.toNat_lt
  omega

theorem low_lt (byte : UInt8) : byte.toNat % 16 < 16 :=
  Nat.mod_lt _ (by decide)

@[simp] theorem encodeChars_nil : encodeChars [] = [] := rfl

@[simp] theorem encodeChars_cons (byte : UInt8) (bytes : List UInt8) :
    encodeChars (byte :: bytes) =
      digit (byte.toNat / 16) :: digit (byte.toNat % 16) :: encodeChars bytes := rfl

theorem length_encodeChars (bytes : List UInt8) :
    (encodeChars bytes).length = 2 * bytes.length := by
  induction bytes with
  | nil => rfl
  | cons byte bytes ih => simp [ih]; omega

theorem decodeChars_encodeChars (bytes : List UInt8) :
    decodeChars (encodeChars bytes) = some bytes := by
  induction bytes with
  | nil => rfl
  | cons byte bytes ih =>
    have hbyte : UInt8.ofNat (16 * (byte.toNat / 16) + byte.toNat % 16) = byte := by
      rw [Nat.div_add_mod, UInt8.ofNat_toNat]
    rw [encodeChars_cons, decodeChars, value?_digit _ (high_lt byte),
      value?_digit _ (low_lt byte), ih]
    simp only [hbyte]

/-- Reading back written text gives the bytes it was written from. -/
theorem decode_encode (bytes : List UInt8) : decode (encode bytes) = some bytes := by
  rw [decode, encode, String.toList_ofList, decodeChars_encodeChars]

theorem encode_injective : Function.Injective encode := by
  intro xs ys h
  have hdecode := congrArg decode h
  rw [decode_encode, decode_encode] at hdecode
  exact Option.some.inj hdecode

theorem isLowerDigit_of_mem_encodeChars (bytes : List UInt8) :
    ∀ c ∈ encodeChars bytes, IsLowerDigit c = true := by
  induction bytes with
  | nil => simp
  | cons byte bytes ih =>
    intro c hc
    rw [encodeChars_cons, List.mem_cons, List.mem_cons] at hc
    rcases hc with rfl | rfl | hc
    · exact isLowerDigit_digit _ (high_lt byte)
    · exact isLowerDigit_digit _ (low_lt byte)
    · exact ih c hc

variable {c : Char} {value n : Nat} {chars : List Char}

section

variable (h : value? c = some value)
include h

/-- The digits are ASCII characters. -/
theorem toNat_lt_of_value? :
    c.toNat < 103 := by
  unfold value? at h
  split at h
  · rename_i hdigit
    have : c.toNat ≤ '9'.toNat := hdigit.2
    exact lt_of_le_of_lt this (by decide)
  · split at h
    · rename_i hdigit
      have : c.toNat ≤ 'f'.toNat := hdigit.2
      exact lt_of_le_of_lt this (by decide)
    · split at h
      · rename_i hdigit
        have : c.toNat ≤ 'F'.toNat := hdigit.2
        exact lt_of_le_of_lt this (by decide)
      · cases h

/-- A digit of either case is written in lowercase. -/
theorem digit_of_value? :
    value < 16 ∧ digit value = c.toLower := by
  have hc : c = Char.ofNat c.toNat := (Char.ofNat_toNat c).symm
  have hall : ∀ n < 103, ∀ value, value? (Char.ofNat n) = some value →
      value < 16 ∧ digit value = (Char.ofNat n).toLower := by
    have hcheck : ∀ n < 103, (value? (Char.ofNat n)).all fun value =>
        value < 16 ∧ digit value = (Char.ofNat n).toLower := by decide
    intro n hn value hvalue
    have hn := hcheck n hn
    rw [hvalue] at hn
    simpa using hn
  have hrange := toNat_lt_of_value? h
  rw [hc] at h ⊢
  exact hall _ hrange _ h

/-- A value below ten is the value of one digit only. -/
theorem eq_digit_of_value? (hlt : value < 10) :
    c = digit value := by
  have hcheck : ∀ n < 103, (value? (Char.ofNat n)).all fun value =>
      value < 10 → Char.ofNat n = digit value := by decide
  have hc := hcheck c.toNat (toNat_lt_of_value? h)
  rw [Char.ofNat_toNat, h] at hc
  exact of_decide_eq_true hc hlt

end

theorem digitsValue?_lt {acc : Nat} (h : digitsValue? acc chars = some n) :
    n < (acc + 1) * 16 ^ chars.length := by
  induction chars generalizing acc with
  | nil =>
    obtain rfl := Option.some.inj h
    simp
  | cons c rest ih =>
    obtain ⟨value, hvalue, hrest⟩ := Option.bind_eq_some_iff.mp h
    have hlt := (digit_of_value? hvalue).1
    calc n < (16 * acc + value + 1) * 16 ^ rest.length := ih hrest
      _ ≤ ((acc + 1) * 16) * 16 ^ rest.length := Nat.mul_le_mul_right _ (by omega)
      _ = (acc + 1) * 16 ^ (c :: rest).length := by
        rw [List.length_cons, pow_succ', mul_assoc]

theorem toNat_lt_of_digitsValue? {acc : Nat} (h : digitsValue? acc chars = some n) :
    ∀ c ∈ chars, c.toNat < 103 := by
  induction chars generalizing acc with
  | nil => simp
  | cons c rest ih =>
    obtain ⟨value, hvalue, hrest⟩ := Option.bind_eq_some_iff.mp h
    intro d hd
    rcases List.mem_cons.mp hd with rfl | hd
    · exact toNat_lt_of_value? hvalue
    · exact ih hrest d hd

/-- Digits without a sign are read by their value. -/
theorem fromStrRadix_of_digits {width : Nat} {text : String} (htext : text.toList ≠ [])
    (h : digitsValue? 0 text.toList = some n) (hn : n < 2 ^ width) :
    fromStrRadix width text = some n := by
  unfold fromStrRadix
  split
  case h_1 rest hplus =>
    -- a plus sign is no digit
    rw [hplus] at h
    exact absurd h (by simp [digitsValue?, show value? '+' = none by decide])
  case h_2 =>
    simp [htext, h, hn]

theorem digitsValue?_of_fromStrRadix {width : Nat} {text : String}
    (h : fromStrRadix width text = some n) (hplus : text.toList.head? ≠ some '+') :
    digitsValue? 0 text.toList = some n := by
  unfold fromStrRadix at h
  split at h
  case h_1 rest htext =>
    rw [htext] at hplus
    exact absurd rfl hplus
  case h_2 =>
    dsimp only at h
    split at h
    · cases h
    · exact (Option.filter_eq_some_iff.mp h).1

/-- Writing what was read gives the text in lowercase. -/
theorem encodeChars_of_decodeChars {bytes : List UInt8} (h : decodeChars chars = some bytes) :
    encodeChars bytes = chars.map Char.toLower := by
  fun_induction decodeChars chars generalizing bytes with
  | case1 =>
    obtain rfl := Option.some.inj h
    rfl
  | case2 => cases h
  | case3 high low rest hv lv tail hrest hlow hhigh ih =>
    obtain rfl := Option.some.inj h
    obtain ⟨hv16, hhighDigit⟩ := digit_of_value? hhigh
    obtain ⟨lv16, hlowDigit⟩ := digit_of_value? hlow
    have hbyte : (UInt8.ofNat (16 * hv + lv)).toNat = 16 * hv + lv := by
      rw [UInt8.toNat_ofNat']
      omega
    rw [encodeChars_cons, hbyte, ih hrest, List.map_cons, List.map_cons]
    have hdiv : (16 * hv + lv) / 16 = hv := by omega
    have hmod : (16 * hv + lv) % 16 = lv := by omega
    rw [hdiv, hmod, hhighDigit, hlowDigit]
  | case4 => cases h

end Hex

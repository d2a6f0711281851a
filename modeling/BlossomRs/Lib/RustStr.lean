import Mathlib.Tactic

/-!
# Text functions of a systems language's standard library

The string operations used below on Lean strings, each following the documented behaviour of the
function whose name it carries.  They are written on character lists so that they compute.
-/

namespace RustStr

/-- `str::as_bytes`: the UTF-8 bytes. -/
def asBytes (s : String) : List UInt8 :=
  s.toByteArray.data.toList

@[simp] theorem asBytes_append (s t : String) : asBytes (s ++ t) = asBytes s ++ asBytes t := by
  simp [asBytes, String.toByteArray_append, ByteArray.data_append]

theorem asBytes_injective : Function.Injective asBytes := by
  intro s t h
  apply String.toByteArray_inj.mp
  apply ByteArray.ext
  exact Array.toList_inj.mp h

theorem asBytes_ofList (chars : List Char) :
    asBytes (String.ofList chars) = chars.flatMap String.utf8EncodeChar := by
  simp [asBytes, List.utf8Encode]

/-- `str::starts_with`. -/
def startsWith (s pre : String) : Bool :=
  pre.toList.isPrefixOf s.toList

/-- The text after a literal, which is what slicing after `starts_with` gives. -/
def dropChars (count : Nat) (s : String) : String :=
  String.ofList (s.toList.drop count)

theorem startsWith_append (pre s : String) : startsWith (pre ++ s) pre = true := by
  simp [startsWith]

variable {s sep : String} {c : Char}

theorem dropChars_append {pre : String} {count : Nat} (h : pre.toList.length = count) :
    dropChars count (pre ++ s) = s := by
  simp [dropChars, ← h]

/-- `str::split(c).next()`: everything before the first `c`. -/
def splitFirst (c : Char) (s : String) : String :=
  String.ofList (s.toList.takeWhile (· ≠ c))

/-- `str::split_once(c)`. -/
def splitOnce (c : Char) (s : String) : Option (String × String) :=
  match s.toList.dropWhile (· ≠ c) with
  | [] => none
  | _ :: rest => some (splitFirst c s, String.ofList rest)

/-- `str::splitn(count, c)`: the last piece is what the others leave. -/
def splitn (c : Char) : Nat → String → List String
  | 0, _ => []
  | 1, s => [s]
  | count + 2, s =>
    match splitOnce c s with
    | none => [s]
    | some (piece, rest) => piece :: splitn c (count + 1) rest

/-- `str::split(c)`: there are never more pieces than one for each character and one more. -/
def split (c : Char) (s : String) : List String :=
  splitn c (s.toList.length + 1) s

theorem splitOnce_append {piece : String} (hsep : sep.toList = [c]) (hpiece : c ∉ piece.toList)
    (rest : String) :
    splitOnce c (piece ++ sep ++ rest) = some (piece, rest) := by
  have hkeep : ∀ d ∈ piece.toList, decide (d ≠ c) = true := by
    intro d hd
    exact decide_eq_true fun heq => hpiece (heq ▸ hd)
  have hchars : (piece ++ sep ++ rest).toList = piece.toList ++ c :: rest.toList := by
    simp [hsep]
  have hdrop : (piece ++ sep ++ rest).toList.dropWhile (· ≠ c) = c :: rest.toList := by
    rw [hchars, List.dropWhile_append_of_pos hkeep]
    simp
  have htake : (piece ++ sep ++ rest).toList.takeWhile (· ≠ c) = piece.toList := by
    rw [hchars, List.takeWhile_append_of_pos hkeep]
    simp
  simp only [splitOnce, splitFirst, hdrop, htake, String.ofList_toList]

theorem splitn_append {piece : String} (hsep : sep.toList = [c]) (hpiece : c ∉ piece.toList)
    (count : Nat) (rest : String) :
    splitn c (count + 2) (piece ++ sep ++ rest) = piece :: splitn c (count + 1) rest := by
  rw [splitn, splitOnce_append hsep hpiece]

/-- `str::trim_end_matches(c)`. -/
def trimEndMatches (c : Char) (s : String) : String :=
  String.ofList (s.toList.reverse.dropWhile (· = c)).reverse

/-- `str::ends_with`. -/
def endsWith (s post : String) : Bool :=
  post.toList.isSuffixOf s.toList

/-- Drop a text from the front as often as it is there. -/
def dropRepeats (text : List Char) : Nat → List Char → List Char
  | 0, s => s
  | fuel + 1, s => if text.isPrefixOf s then dropRepeats text fuel (s.drop text.length) else s

/-- `str::trim_end_matches(text)`: a text that is there several times goes altogether. -/
def trimEndText (text s : String) : String :=
  String.ofList (dropRepeats text.toList.reverse s.length s.toList.reverse).reverse

theorem endsWith_append (s post : String) : endsWith (s ++ post) post = true := by
  simp [endsWith]

theorem dropRepeats_of_not_prefix {text s : List Char} (h : text.isPrefixOf s = false) (fuel : Nat) :
    dropRepeats text fuel s = s := by
  cases fuel with
  | zero => rfl
  | succ fuel => rw [dropRepeats, h, if_neg Bool.false_ne_true]

/-- A text that is there once is dropped once. -/
theorem trimEndText_append {text : String} (htext : text ≠ "")
    (h : text.toList.isSuffixOf s.toList = false) : trimEndText text (s ++ text) = s := by
  have hfuel : ∃ fuel, (s ++ text).length = fuel + 1 := by
    have hpos : 0 < text.length := by
      rw [Nat.pos_iff_ne_zero]
      exact fun hzero => htext (String.length_eq_zero_iff.mp hzero)
    exact ⟨(s ++ text).length - 1, by rw [String.length_append]; omega⟩
  obtain ⟨fuel, hfuel⟩ := hfuel
  have hrest : text.toList.reverse.isPrefixOf s.toList.reverse = false := h
  rw [trimEndText, hfuel, String.toList_append, List.reverse_append, dropRepeats,
    if_pos (by simp), List.drop_left, dropRepeats_of_not_prefix hrest, List.reverse_reverse,
    String.ofList_toList]

/-- `char::is_whitespace`: the Unicode `White_Space` property. -/
def isWhitespace (c : Char) : Bool :=
  let n := c.toNat
  (0x09 ≤ n && n ≤ 0x0d) || n == 0x20 || n == 0x85 || n == 0xa0 || n == 0x1680
    || (0x2000 ≤ n && n ≤ 0x200a) || n == 0x2028 || n == 0x2029 || n == 0x202f || n == 0x205f
    || n == 0x3000

/-- `str::trim`. -/
def trim (s : String) : String :=
  String.ofList (((s.toList.dropWhile isWhitespace).reverse.dropWhile isWhitespace).reverse)

/-- `str::to_ascii_uppercase`. -/
def toAsciiUppercase (s : String) : String :=
  String.ofList (s.toList.map Char.toUpper)

/-- `str::to_ascii_lowercase`. -/
def toAsciiLowercase (s : String) : String :=
  String.ofList (s.toList.map Char.toLower)

/-- `str::eq_ignore_ascii_case`. -/
def eqIgnoreAsciiCase (s t : String) : Bool :=
  toAsciiLowercase s == toAsciiLowercase t

/-- The value of a decimal digit string, most significant digit first. -/
def digitsValue? : Nat → List Char → Option Nat
  | acc, [] => some acc
  | acc, c :: rest =>
    if c.isDigit then digitsValue? (10 * acc + (c.toNat - 48)) rest else none

/-- `str::parse` of an unsigned integer of the given width: an optional plus sign, then at least one
digit, and no overflow. -/
def parseUnsigned (width : Nat) (s : String) : Option Nat :=
  let digits := match s.toList with
    | '+' :: rest => rest
    | chars => chars
  if digits.isEmpty then none
  else (digitsValue? 0 digits).filter (· < 2 ^ width)

theorem digitsValue?_of_isDigit (acc : Nat) {chars : List Char}
    (h : ∀ c ∈ chars, c.isDigit = true) :
    digitsValue? acc chars = some (Nat.ofDigitChars 10 chars acc) := by
  induction chars generalizing acc with
  | nil => rfl
  | cons c rest ih =>
    rw [digitsValue?, if_pos (h c (by simp)), ih _ fun d hd => h d (by simp [hd])]
    rfl

/-- A printed number is parsed back. -/
theorem parseUnsigned_toString {width n : Nat} (h : n < 2 ^ width) :
    parseUnsigned width (toString n) = some n := by
  have hchars : (toString n).toList = Nat.toDigits 10 n := by simp
  have hdigits : ∀ c ∈ Nat.toDigits 10 n, c.isDigit = true := fun c hc =>
    Nat.isDigit_of_mem_toDigits (by decide) (by decide) hc
  have hne : Nat.toDigits 10 n ≠ [] := Nat.toDigits_ne_nil
  unfold parseUnsigned
  rw [hchars]
  split
  case h_1 rest hplus =>
    have := hdigits '+' (by rw [hplus]; simp)
    exact absurd this (by decide)
  case h_2 =>
    simp [hne, digitsValue?_of_isDigit 0 hdigits, Nat.ofDigitChars_ten_toDigits, h]

theorem toString_injective : Function.Injective (toString : Nat → String) := by
  intro m n h
  have hdigits : Nat.toDigits 10 m = Nat.toDigits 10 n := by
    have hchars := congrArg String.toList h
    simpa using hchars
  calc m = Nat.ofDigitChars 10 (Nat.toDigits 10 m) 0 := Nat.ofDigitChars_ten_toDigits.symm
    _ = Nat.ofDigitChars 10 (Nat.toDigits 10 n) 0 := by rw [hdigits]
    _ = n := Nat.ofDigitChars_ten_toDigits

/-- `str::parse` of a signed integer of the given width. -/
def parseSigned (width : Nat) (s : String) : Option Int :=
  match s.toList with
  | '-' :: digits =>
    if digits.isEmpty then none
    else ((digitsValue? 0 digits).filter (· ≤ 2 ^ (width - 1))).map fun n : Nat => -(n : Int)
  | _ => ((parseUnsigned width s).filter (· < 2 ^ (width - 1))).map Int.ofNat

/-- A text with a minus sign is no unsigned number. -/
theorem parseUnsigned_of_minus {width : Nat} {digits : List Char} (h : s.toList = '-' :: digits) :
    parseUnsigned width s = none := by
  simp [parseUnsigned, h, digitsValue?, show '-'.isDigit = false from rfl]

/-- Read as a signed number or as an unsigned one, with zero for what is neither, a text that is not
negative is the same number, unless it is too great to be signed. -/
theorem parseSigned_getD {s : Option String}
    (h : 0 ≤ (s.bind (parseSigned 64)).getD 0) :
    (s.bind (parseSigned 64)).getD 0 = ((s.bind (parseUnsigned 64)).getD 0 : Nat)
      ∨ (s.bind (parseSigned 64)).getD 0 = 0 ∧ 2 ^ 63 ≤ (s.bind (parseUnsigned 64)).getD 0 := by
  cases s with
  | none => exact Or.inl rfl
  | some s =>
    rw [Option.bind_some, Option.bind_some] at *
    unfold parseSigned at h ⊢
    split at h
    · rename_i digits hminus
      rw [parseUnsigned_of_minus hminus]
      left
      split at h
      · rename_i hempty
        simp [hempty]
      · rename_i hdigits
        rw [if_neg hdigits]
        cases hvalue : (digitsValue? 0 digits).filter (· ≤ 2 ^ (64 - 1)) with
        | none => rfl
        | some n =>
          rw [hvalue, Option.map_some, Option.getD_some] at h
          rw [Option.map_some, Option.getD_some, Option.getD_none]
          omega
    · cases hvalue : parseUnsigned 64 s with
      | none => exact Or.inl rfl
      | some n =>
        by_cases hsmall : n < 2 ^ (64 - 1)
        · left
          rw [Option.filter_some, if_pos (decide_eq_true hsmall)]
          rfl
        · right
          rw [Option.filter_some, if_neg (by simpa using hsmall)]
          exact ⟨rfl, not_lt.mp hsmall⟩

theorem parseSigned_getD_lt (s : Option String) :
    (s.bind (parseSigned 64)).getD 0 < 2 ^ 63 := by
  cases hvalue : s.bind (parseSigned 64) with
  | none => decide
  | some n =>
    rw [Option.getD_some]
    obtain ⟨s, -, hs⟩ := Option.bind_eq_some_iff.mp hvalue
    unfold parseSigned at hs
    split at hs
    · split at hs
      · cases hs
      · obtain ⟨m, -, rfl⟩ := Option.map_eq_some_iff.mp hs
        omega
    · obtain ⟨m, hm, rfl⟩ := Option.map_eq_some_iff.mp hs
      have hlt := of_decide_eq_true (Option.filter_eq_some_iff.mp hm).2
      exact Int.ofNat_lt.mpr hlt

theorem eqIgnoreAsciiCase_iff {t : String} :
    eqIgnoreAsciiCase s t = true ↔ toAsciiLowercase s = toAsciiLowercase t := by
  simp [eqIgnoreAsciiCase]

/-- Lowering forgets a preceding raise. -/
theorem toLower_toUpper (c : Char) : c.toUpper.toLower = c.toLower := by
  by_cases hlow : 'a' ≤ c ∧ c ≤ 'z'
  · -- A lowercase letter is one of twenty-six values, and each is checked.
    have hvals : ∀ n : Fin 26, (Char.ofNat (97 + n)).toUpper.toLower = (Char.ofNat (97 + n)).toLower := by
      decide
    have h1 : 97 ≤ c.toNat := hlow.1
    have h2 : c.toNat ≤ 122 := hlow.2
    have hc : c = Char.ofNat (97 + (c.toNat - 97)) := by
      rw [show 97 + (c.toNat - 97) = c.toNat by omega, Char.ofNat_toNat]
    have := hvals ⟨c.toNat - 97, by omega⟩
    rw [hc]
    exact this
  · have hsame : c.toUpper = c := by
      unfold Char.toUpper
      rw [dif_neg]
      intro h
      exact hlow ⟨h.1, h.2⟩
    rw [hsame]

theorem toAsciiLowercase_toAsciiUppercase (s : String) :
    toAsciiLowercase (toAsciiUppercase s) = toAsciiLowercase s := by
  have hcomp : Char.toLower ∘ Char.toUpper = Char.toLower := funext toLower_toUpper
  rw [toAsciiLowercase, toAsciiUppercase, String.toList_ofList, List.map_map, hcomp, toAsciiLowercase]

/-! ### Separators -/

theorem eq_of_append_cons {α : Type*} {c : α} {xs xs' ys ys' : List α} (hxs : c ∉ xs) (hxs' : c ∉ xs')
    (h : xs ++ c :: ys = xs' ++ c :: ys') : xs = xs' ∧ ys = ys' := by
  induction xs generalizing xs' with
  | nil =>
    cases xs' with
    | nil => exact ⟨rfl, (List.cons.inj h).2⟩
    | cons x' xs' =>
      obtain ⟨rfl, -⟩ := List.cons.inj h
      exact absurd List.mem_cons_self hxs'
  | cons x xs ih =>
    cases xs' with
    | nil =>
      obtain ⟨rfl, -⟩ := List.cons.inj h
      exact absurd List.mem_cons_self hxs
    | cons x' xs' =>
      obtain ⟨rfl, htail⟩ := List.cons.inj h
      obtain ⟨rfl, hys⟩ := ih (List.not_mem_of_not_mem_cons hxs)
        (List.not_mem_of_not_mem_cons hxs') htail
      exact ⟨rfl, hys⟩

/-- A text is read back up to the first separator. -/
theorem eq_of_append_first {s' rest rest' : String} (hsep : sep.toList = [c]) (hs : c ∉ s.toList)
    (hs' : c ∉ s'.toList) (h : s ++ sep ++ rest = s' ++ sep ++ rest') :
    s = s' ∧ rest = rest' := by
  have hlist : s.toList ++ c :: rest.toList = s'.toList ++ c :: rest'.toList := by
    simpa [hsep] using congrArg String.toList h
  obtain ⟨hs, hrest⟩ := eq_of_append_cons hs hs' hlist
  exact ⟨String.toList_inj.mp hs, String.toList_inj.mp hrest⟩

/-- A text is read back from the last separator on. -/
theorem eq_of_append_last {s' rest rest' : String} (hsep : sep.toList = [c])
    (hrest : c ∉ rest.toList) (hrest' : c ∉ rest'.toList)
    (h : s ++ sep ++ rest = s' ++ sep ++ rest') : s = s' ∧ rest = rest' := by
  have hlist : rest.toList.reverse ++ c :: s.toList.reverse
      = rest'.toList.reverse ++ c :: s'.toList.reverse := by
    simpa [hsep] using congrArg (fun text => text.toList.reverse) h
  obtain ⟨hrest, hs⟩ := eq_of_append_cons (by simpa using hrest) (by simpa using hrest') hlist
  exact ⟨String.toList_inj.mp (List.reverse_injective hs),
    String.toList_inj.mp (List.reverse_injective hrest)⟩

end RustStr

import BlossomRs.Lib.RustStr

/-!
# Texts and their bytes

UTF-8 encodes an ASCII character by the byte of its number, and no other character by a sequence with
such a byte in it.  So a text can be taken apart at ASCII characters by looking at its bytes only:
what stands before, between and after them is the encoding of a text again.
-/

namespace RustStr

/-- `str::from_utf8`. -/
def fromUtf8 (bytes : List UInt8) : Option String :=
  String.fromUTF8? ⟨bytes.toArray⟩

variable {bytes : List UInt8} {s : String}

theorem fromUtf8_eq_some :
    fromUtf8 bytes = some s ↔ asBytes s = bytes := by
  unfold fromUtf8 String.fromUTF8? asBytes
  split
  · rename_i hvalid
    rw [Option.some.injEq]
    constructor
    · rintro rfl
      rfl
    · rintro rfl
      exact String.toByteArray_inj.mp rfl
  · rename_i hinvalid
    constructor
    · intro h
      cases h
    · rintro rfl
      exact absurd s.isValidUTF8 hinvalid

theorem asBytes_eq_flatMap (s : String) :
    asBytes s = s.toList.flatMap String.utf8EncodeChar := by
  rw [← asBytes_ofList, String.ofList_toList]

theorem fromUtf8_asBytes (s : String) : fromUtf8 (asBytes s) = some s :=
  fromUtf8_eq_some.mpr rfl

/-- The bytes of a character are those of an ASCII character, or all have their highest bit set. -/
theorem mem_utf8EncodeChar {c : Char} {b : UInt8} (h : b ∈ String.utf8EncodeChar c) :
    (b.toNat < 128 ∧ c.toNat = b.toNat ∧ String.utf8EncodeChar c = [b])
      ∨ 128 ≤ b.toNat ∧ b.toNat < 248 := by
  have hbyte : ∀ k : Nat, b = UInt8.ofNat k → b.toNat = k % 256 := by
    rintro k rfl
    exact UInt8.toNat_ofNat'
  change (_ ∧ c.val.toNat = b.toNat ∧ _) ∨ _
  unfold String.utf8EncodeChar at h ⊢
  generalize c.val.toNat = v at h ⊢
  dsimp only at h ⊢
  split at h
  · rename_i hv
    have hb := List.mem_singleton.mp h
    have := hbyte _ hb
    left
    rw [if_pos hv, ← hb]
    exact ⟨by omega, by omega, rfl⟩
  · right
    split at h
    · simp only [List.mem_cons, List.not_mem_nil, or_false] at h
      rcases h with h | h <;>
      · have := hbyte _ h
        omega
    · split at h
      · simp only [List.mem_cons, List.not_mem_nil, or_false] at h
        rcases h with h | h | h <;>
        · have := hbyte _ h
          omega
      · simp only [List.mem_cons, List.not_mem_nil, or_false] at h
        rcases h with h | h | h | h <;>
        · have := hbyte _ h
          omega

/-- A byte of a character is a newline only when the character is one. -/
theorem newline_notMem_asBytes {chars : List Char} (h : '\n' ∉ chars) :
    (10 : UInt8) ∉ asBytes (String.ofList chars) := by
  rw [asBytes_ofList]
  intro hmem
  obtain ⟨c, hc, hbyte⟩ := List.mem_flatMap.mp hmem
  rcases mem_utf8EncodeChar hbyte with ⟨-, hnewline, -⟩ | hhigh
  · have heq : c = '\n' := Char.toNat_inj.mp hnewline
    exact h (heq ▸ hc)
  · exact absurd hhigh.1 (by decide)

/-- The bytes from `0xf8` on occur in no text. -/
theorem fromUtf8_eq_none {b : UInt8} (hb : 248 ≤ b.toNat) (hmem : b ∈ bytes) :
    fromUtf8 bytes = none := by
  rw [Option.eq_none_iff_forall_ne_some]
  intro s hs
  rw [← fromUtf8_eq_some.mp hs, asBytes_eq_flatMap] at hmem
  obtain ⟨c, -, hbyte⟩ := List.mem_flatMap.mp hmem
  rcases mem_utf8EncodeChar hbyte with hlow | hhigh <;> omega

/-- The text of ASCII bytes. -/
def asciiText (bytes : List UInt8) : String :=
  String.ofList (bytes.map fun b => Char.ofNat b.toNat)

@[simp] theorem toList_asciiText (bytes : List UInt8) :
    (asciiText bytes).toList = bytes.map fun b => Char.ofNat b.toNat :=
  String.toList_ofList

theorem asciiText_append (xs ys : List UInt8) :
    asciiText (xs ++ ys) = asciiText xs ++ asciiText ys := by
  simp [asciiText]

theorem toNat_ofNat_byte (b : UInt8) : (Char.ofNat b.toNat).toNat = b.toNat := by
  have hvalid : b.toNat.isValidChar := Or.inl (lt_trans b.toNat_lt (by decide))
  rw [Char.ofNat, dif_pos hvalid]
  rfl

section Ascii

variable {b : UInt8} (hb : b.toNat < 128)

include hb

theorem utf8EncodeChar_ofNat : String.utf8EncodeChar (Char.ofNat b.toNat) = [b] := by
  have hval : (Char.ofNat b.toNat).val.toNat = b.toNat := toNat_ofNat_byte b
  simp [String.utf8EncodeChar, hval, show b.toNat ≤ 127 by omega]

theorem eq_of_mem_utf8EncodeChar {c : Char} (h : b ∈ String.utf8EncodeChar c) :
    c = Char.ofNat b.toNat := by
  rcases mem_utf8EncodeChar h with ⟨-, hc, -⟩ | hhigh
  · rw [← hc, Char.ofNat_toNat]
  · omega

/-- An ASCII byte at the front of a text is a character. -/
theorem exists_of_asBytes_eq_cons {s : String} {bytes : List UInt8} (h : asBytes s = b :: bytes) :
    ∃ rest, s = asciiText [b] ++ rest ∧ asBytes rest = bytes := by
  rw [asBytes_eq_flatMap] at h
  cases hs : s.toList with
  | nil => simp [hs] at h
  | cons c chars =>
    rw [hs, List.flatMap_cons] at h
    have hmem : b ∈ String.utf8EncodeChar c := by
      cases hencode : String.utf8EncodeChar c with
      | nil => exact absurd hencode String.utf8EncodeChar_ne_nil
      | cons head tail => simp_all
    obtain rfl := eq_of_mem_utf8EncodeChar hb hmem
    rw [utf8EncodeChar_ofNat hb] at h
    refine ⟨String.ofList chars, String.toList_inj.mp ?_, ?_⟩
    · simp [hs]
    · rw [asBytes_ofList]
      exact (List.cons.inj h).2

/-- So is one at its end. -/
theorem exists_of_asBytes_eq_concat {s : String} {bytes : List UInt8} (h : asBytes s = bytes ++ [b]) :
    ∃ front, s = front ++ asciiText [b] ∧ asBytes front = bytes := by
  rw [asBytes_eq_flatMap] at h
  rcases List.eq_nil_or_concat s.toList with hs | ⟨chars, c, hs⟩
  · simp [hs] at h
  · rw [List.concat_eq_append] at hs
    rw [hs, List.flatMap_append] at h
    have hmem : b ∈ String.utf8EncodeChar c := by
      have hlast := congrArg List.getLast? h
      simp only [List.flatMap_cons, List.flatMap_nil, List.append_nil, List.getLast?_append,
        List.getLast?_singleton, Option.some_or] at hlast
      rw [List.getLast?_eq_some_getLast String.utf8EncodeChar_ne_nil, Option.some_or,
        Option.some.injEq] at hlast
      rw [← hlast]
      exact List.getLast_mem _
    obtain rfl := eq_of_mem_utf8EncodeChar hb hmem
    rw [List.flatMap_cons, List.flatMap_nil, List.append_nil, utf8EncodeChar_ofNat hb] at h
    refine ⟨String.ofList chars, String.toList_inj.mp ?_, ?_⟩
    · simp [hs]
    · rw [asBytes_ofList]
      exact List.append_cancel_right h

/-- Cutting a text at an ASCII character cuts its bytes at the byte. -/
theorem takeWhile_asBytes (s : String) :
    (asBytes s).takeWhile (· ≠ b) = asBytes (splitFirst (Char.ofNat b.toNat) s) := by
  rw [asBytes_eq_flatMap, splitFirst, asBytes_ofList]
  induction s.toList with
  | nil => rfl
  | cons c chars ih =>
    rw [List.flatMap_cons]
    by_cases hc : c = Char.ofNat b.toNat
    · rw [hc, utf8EncodeChar_ofNat hb]
      simp
    · have hkeep : ∀ d ∈ String.utf8EncodeChar c, decide (d ≠ b) = true := by
        intro d hd
        exact decide_eq_true fun heq => hc (eq_of_mem_utf8EncodeChar hb (heq ▸ hd))
      rw [List.takeWhile_append_of_pos hkeep, ih, List.takeWhile_cons_of_pos (by simpa using hc),
        List.flatMap_cons]

end Ascii

theorem asBytes_asciiText (h : ∀ b ∈ bytes, b.toNat < 128) :
    asBytes (asciiText bytes) = bytes := by
  rw [asciiText, asBytes_ofList]
  induction bytes with
  | nil => rfl
  | cons b rest ih =>
    rw [List.map_cons, List.flatMap_cons, utf8EncodeChar_ofNat (h b (by simp)),
      ih fun d hd => h d (by simp [hd])]
    rfl

/-- An ASCII text has one byte per character. -/
theorem map_asBytes_of_ascii (h : ∀ c ∈ s.toList, c.toNat < 128) :
    (asBytes s).map (fun b => Char.ofNat b.toNat) = s.toList := by
  have hback : ∀ c ∈ s.toList, (UInt8.ofNat c.toNat).toNat = c.toNat := by
    intro c hc
    have hlt := h c hc
    rw [UInt8.toNat_ofNat', Nat.mod_eq_of_lt (by omega)]
  have hmap : (s.toList.map fun c => UInt8.ofNat c.toNat).map (fun b => Char.ofNat b.toNat)
      = s.toList := by
    rw [List.map_map]
    refine (List.map_congr_left fun c hc => ?_).trans (List.map_id _)
    rw [Function.comp_apply, hback c hc, Char.ofNat_toNat, id_eq]
  have htext : asciiText (s.toList.map fun c => UInt8.ofNat c.toNat) = s := by
    rw [asciiText, hmap, String.ofList_toList]
  have hascii : ∀ b ∈ s.toList.map fun c => UInt8.ofNat c.toNat, b.toNat < 128 := by
    intro b hb
    obtain ⟨c, hc, rfl⟩ := List.mem_map.mp hb
    rw [hback c hc]
    exact h c hc
  have hbytes := asBytes_asciiText hascii
  rw [htext] at hbytes
  rw [hbytes, hmap]

/-- ASCII bytes at the front of a text are a text, and so is what follows them. -/
theorem exists_of_asBytes_eq_append {front : List UInt8} (hfront : ∀ b ∈ front, b.toNat < 128)
    (h : asBytes s = front ++ bytes) :
    ∃ rest, s = asciiText front ++ rest ∧ asBytes rest = bytes := by
  induction front generalizing s with
  | nil => exact ⟨s, by simp [asciiText], h⟩
  | cons b front ih =>
    obtain ⟨rest, rfl, hrest⟩ := exists_of_asBytes_eq_cons (hfront b (by simp)) h
    obtain ⟨rest, rfl, hbytes⟩ := ih (fun d hd => hfront d (by simp [hd])) hrest
    refine ⟨rest, String.toList_inj.mp ?_, hbytes⟩
    simp

end RustStr

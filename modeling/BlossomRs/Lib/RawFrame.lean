import Mathlib.Tactic

/-!
# Zstandard frames of raw blocks

The part of the Zstandard frame format that stores data as it is: a frame header, then blocks of at
most 128 KiB, each with a three-byte little-endian header that holds a last-block flag, the block
type (zero for raw) and the block size.

`decode` reads such frames and nothing else; `decode_encode` is the round trip.
-/

namespace RawFrame

/-- The largest block. -/
def maxBlock : Nat :=
  131072

/-- Magic number, a header descriptor without options, and the window descriptor of two megabytes. -/
def frameHeader : List UInt8 :=
  [0x28, 0xb5, 0x2f, 0xfd, 0x00, 0x58]

/-- The header of a raw block. -/
def blockHeader (last : Bool) (size : Nat) : List UInt8 :=
  let header := 8 * size + last.toNat
  [UInt8.ofNat header, UInt8.ofNat (header / 256), UInt8.ofNat (header / 65536)]

/-- The blocks of some data; the first argument bounds their number. -/
def encodeBlocks : Nat → List UInt8 → List UInt8
  | 0, _ => []
  | count + 1, data =>
    if data.length ≤ maxBlock then blockHeader true data.length ++ data
    else blockHeader false maxBlock ++ data.take maxBlock
      ++ encodeBlocks count (data.drop maxBlock)

def encode (data : List UInt8) : List UInt8 :=
  frameHeader ++ encodeBlocks (data.length + 1) data

/-- Read raw blocks up to the last one, which must end the input. -/
def decodeBlocks : Nat → List UInt8 → Option (List UInt8)
  | count + 1, b0 :: b1 :: b2 :: rest =>
    let header := b0.toNat + 256 * b1.toNat + 65536 * b2.toNat
    let size := header / 8
    if header / 2 % 4 ≠ 0 ∨ rest.length < size then none
    else if header % 2 = 1 then if rest.length = size then some rest else none
    else (decodeBlocks count (rest.drop size)).map (rest.take size ++ ·)
  | _, _ => none

def decode : List UInt8 → Option (List UInt8)
  | 0x28 :: 0xb5 :: 0x2f :: 0xfd :: 0x00 :: 0x58 :: blocks => decodeBlocks blocks.length blocks
  | _ => none

/-- A block header is read back as it was written. -/
theorem header_eq (header : Nat) (h : header < 16777216) :
    (UInt8.ofNat header).toNat + 256 * (UInt8.ofNat (header / 256)).toNat
      + 65536 * (UInt8.ofNat (header / 65536)).toNat = header := by
  simp only [UInt8.toNat_ofNat']
  omega

theorem decodeBlocks_blockHeader (count : Nat) (last : Bool) {size : Nat} (h : size ≤ maxBlock)
    (rest : List UInt8) :
    decodeBlocks (count + 1) (blockHeader last size ++ rest)
      = if rest.length < size then none
        else if last then if rest.length = size then some rest else none
        else (decodeBlocks count (rest.drop size)).map (rest.take size ++ ·) := by
  have hheader := header_eq (8 * size + last.toNat) (by
    have := Bool.toNat_le last
    unfold maxBlock at h
    omega)
  simp only [blockHeader, List.cons_append, List.nil_append, decodeBlocks, hheader]
  have hsize : (8 * size + last.toNat) / 8 = size := by
    have := Bool.toNat_le last
    omega
  have htype : (8 * size + last.toNat) / 2 % 4 = 0 := by
    have := Bool.toNat_le last
    omega
  have hflag : (8 * size + last.toNat) % 2 = 1 ↔ last = true := by
    cases last <;> simp <;> omega
  simp only [hsize, htype, hflag, ne_eq, not_true_eq_false, false_or]

theorem length_encodeBlocks (count : Nat) (data : List UInt8) (h : data.length < count) :
    data.length + 3 ≤ (encodeBlocks count data).length := by
  induction count generalizing data with
  | zero => omega
  | succ count ih =>
    unfold encodeBlocks
    split
    · simp [blockHeader]
    · rename_i hlong
      have hrest := ih (data.drop maxBlock) (by simp only [List.length_drop]; unfold maxBlock; omega)
      simp only [List.length_append, List.length_take, List.length_drop] at hrest ⊢
      omega

/-- Blocks are read back.  Induction on the bound of the writer; the reader may have more. -/
theorem decodeBlocks_encodeBlocks (count bound : Nat) (data : List UInt8)
    (hdata : data.length < count) (hbound : count ≤ bound) :
    decodeBlocks bound (encodeBlocks count data) = some data := by
  induction count generalizing bound data with
  | zero => omega
  | succ count ih =>
    obtain ⟨bound, rfl⟩ : ∃ b, bound = b + 1 := ⟨bound - 1, by omega⟩
    unfold encodeBlocks
    split
    · rename_i hshort
      simp [decodeBlocks_blockHeader bound true hshort]
    · rename_i hlong
      have hrest : (data.drop maxBlock).length < count := by
        simp only [List.length_drop]
        unfold maxBlock
        omega
      have htake : (data.take maxBlock).length = maxBlock := by
        simp only [List.length_take]
        omega
      rw [List.append_assoc, decodeBlocks_blockHeader bound false le_rfl,
        List.drop_left' htake, List.take_left' htake, ih bound _ hrest (by omega)]
      simp [htake]

/-- **The round trip.** -/
theorem decode_encode (data : List UInt8) : decode (encode data) = some data := by
  have hlength := length_encodeBlocks (data.length + 1) data (by omega)
  exact decodeBlocks_encodeBlocks (data.length + 1) (encodeBlocks (data.length + 1) data).length
    data (by omega) (by omega)

end RawFrame

import BlossomRs.Lfs.Codec

/-!
# The delta coder and its buffers

`encode` and `decode` hand the native coder a buffer for its output.  Both choose the size of it from
the sizes of what they are given, in 32 bits: for a decoder these are the delta and the base, and not
what comes out.

`delta_decodes_iff`: a delta that is worth storing decodes to the body it was made from, with no size
wrapped around, exactly when base and body are small enough for that and the body fits into twice the
size of delta and base.  A body that is mostly one byte over and over does not: its delta is short.
-/

namespace BlossomRs.Lfs

open Protocol

/-- The two native calls, each given the size of the output buffer.  A call that fails gives
nothing. -/
structure NativeXdelta3 where
  encodeMemory (input source : Bytes) (availOutput : UInt32) : Option Bytes
  decodeMemory (input source : Bytes) (availOutput : UInt32) : Option Bytes

/-- What is known of them: a delta fits into its buffer, and decoding it against the same source gives
what was encoded where that fits into the buffer, and fails elsewhere. -/
structure NativeXdelta3.Lawful (native : NativeXdelta3) : Prop where
  length_le {input source delta : Bytes} {avail : UInt32}
    (h : native.encodeMemory input source avail = some delta) : delta.length ≤ avail.toNat
  decodeMemory_eq {input source delta : Bytes} {avail : UInt32}
    (h : native.encodeMemory input source avail = some delta) (avail' : UInt32) :
    native.decodeMemory delta source avail'
      = if input.length ≤ avail'.toNat then some input else none

namespace Xdelta3

/-- `as c_uint` of a length. -/
def cUintLen (data : Bytes) : UInt32 :=
  UInt32.ofNat data.length

/-- `estimated_out_len`, of a build without overflow checks. -/
def estimatedOutLen (input src : Bytes) : UInt32 :=
  (cUintLen input + cUintLen src) * 2

/-- What the native code sees of a buffer: the bytes below the length it is told. -/
def asSeen (data : Bytes) : Bytes :=
  data.take (cUintLen data).toNat

variable (native : NativeXdelta3)

/-- `encode`. -/
def encode (input src : Bytes) : Option Bytes :=
  native.encodeMemory (asSeen input) (asSeen src) (estimatedOutLen input src)

/-- `decode`. -/
def decode (input src : Bytes) : Option Bytes :=
  native.decodeMemory (asSeen input) (asSeen src) (estimatedOutLen input src)

/-- No size that a call computes wraps around: neither length, nor their sum, nor twice the sum. -/
structure SizesExact (input src : Bytes) : Prop where
  inputLen : (cUintLen input).toNat = input.length
  srcLen : (cUintLen src).toNat = src.length
  sum : (cUintLen input + cUintLen src).toNat = input.length + src.length
  estimated : (estimatedOutLen input src).toNat = (input.length + src.length) * 2

theorem sizesExact_iff {input src : Bytes} :
    SizesExact input src ↔ (input.length + src.length) * 2 < 2 ^ 32 := by
  constructor
  · intro h
    rw [← h.estimated]
    exact UInt32.toNat_lt _
  · intro h
    have hinput : (cUintLen input).toNat = input.length := by
      rw [cUintLen, UInt32.toNat_ofNat']
      omega
    have hsrc : (cUintLen src).toNat = src.length := by
      rw [cUintLen, UInt32.toNat_ofNat']
      omega
    have hsum : (cUintLen input + cUintLen src).toNat = input.length + src.length := by
      rw [UInt32.toNat_add, hinput, hsrc]
      omega
    refine ⟨hinput, hsrc, hsum, ?_⟩
    rw [estimatedOutLen, UInt32.toNat_mul, hsum, show (2 : UInt32).toNat = 2 from rfl]
    omega

theorem asSeen_eq {data : Bytes} (h : (cUintLen data).toNat = data.length) :
    asSeen data = data := by
  rw [asSeen, h, List.take_length]

variable {native}

/-- With exact sizes on both sides, a delta decodes exactly when the output fits the buffer. -/
theorem decode_eq (hlawful : native.Lawful) {input src delta : Bytes}
    (hencode : encode native input src = some delta) (hsizes : SizesExact input src)
    (hsizes' : SizesExact delta src) :
    decode native delta src
      = if input.length ≤ (delta.length + src.length) * 2 then some input else none := by
  rw [encode, asSeen_eq hsizes.inputLen, asSeen_eq hsizes.srcLen] at hencode
  rw [decode, asSeen_eq hsizes'.inputLen, asSeen_eq hsizes'.srcLen,
    hlawful.decodeMemory_eq hencode, hsizes'.estimated]

end Xdelta3

/-- The codecs with deltas from the native coder. -/
def Codecs.withXdelta3 (codecs : Codecs) (native : NativeXdelta3) : Codecs :=
  { codecs with xdeltaEncode := Xdelta3.encode native, xdeltaDecode := Xdelta3.decode native }

theorem encodeDelta_withXdelta3 {codecs : Codecs} {native : NativeXdelta3} {base new delta : Bytes} :
    (codecs.withXdelta3 native).encodeDelta base new = .ok delta
      ↔ Xdelta3.encode native new base = some delta := by
  simp only [Codecs.encodeDelta, Codecs.withXdelta3]
  cases Xdelta3.encode native new base with
  | none => simp
  | some out => simp

theorem decodeDelta_withXdelta3 {codecs : Codecs} {native : NativeXdelta3} {base new delta : Bytes} :
    (codecs.withXdelta3 native).decodeDelta base delta = .ok new
      ↔ Xdelta3.decode native delta base = some new := by
  simp only [Codecs.decodeDelta, Codecs.withXdelta3]
  cases Xdelta3.decode native delta base with
  | none => simp
  | some out => simp

/-- **A delta that is worth storing** decodes to the body it was made from, with exact sizes
throughout, exactly when the sizes of base and body are exact and the body fits into the buffer that
is chosen from delta and base. -/
theorem delta_decodes_iff (codecs : Codecs) {native : NativeXdelta3} (hlawful : native.Lawful)
    {base new delta : Bytes}
    (hencode : (codecs.withXdelta3 native).encodeDelta base new = .ok delta)
    (hworth : deltaIsWorthwhile delta.length new.length = true) :
    ((codecs.withXdelta3 native).decodeDelta base delta = .ok new
        ∧ Xdelta3.SizesExact new base ∧ Xdelta3.SizesExact delta base)
      ↔ (new.length + base.length) * 2 < 2 ^ 32
        ∧ new.length ≤ (delta.length + base.length) * 2 := by
  rw [encodeDelta_withXdelta3] at hencode
  rw [decodeDelta_withXdelta3]
  constructor
  · rintro ⟨hdecode, hsizes, hsizes'⟩
    refine ⟨Xdelta3.sizesExact_iff.mp hsizes, ?_⟩
    rw [Xdelta3.decode_eq hlawful hencode hsizes hsizes'] at hdecode
    by_contra hlong
    rw [if_neg hlong] at hdecode
    cases hdecode
  · rintro ⟨hsmall, hfits⟩
    have hshorter : delta.length < new.length := by
      have hlt : new.length ≠ 0 ∧ 5 * delta.length < 4 * new.length := by
        simpa [deltaIsWorthwhile] using hworth
      omega
    have hsizes := Xdelta3.sizesExact_iff.mpr hsmall
    have hsizes' : Xdelta3.SizesExact delta base := Xdelta3.sizesExact_iff.mpr (by omega)
    refine ⟨?_, hsizes, hsizes'⟩
    rw [Xdelta3.decode_eq hlawful hencode hsizes hsizes', if_pos hfits]

/-! ### Runs of one byte -/

/-- The delta of a run whose size takes one byte: the header of the format, and a window without a
source that has one instruction, to repeat a byte. -/
def runDelta (byte size : UInt8) : Bytes :=
  [0xd6, 0xc3, 0xc4, 0, 0, 0, 8, size, 0, 1, 2, 0, byte, 0, size]

/-- The native calls on runs.  Shorter runs than eight bytes are not coded as such. -/
def runCoder : NativeXdelta3 where
  encodeMemory input _ avail :=
    let delta := runDelta (input.headD 0) (UInt8.ofNat input.length)
    if input = List.replicate input.length (input.headD 0) ∧ 8 ≤ input.length ∧ input.length < 128
      ∧ delta.length ≤ avail.toNat then some delta else none
  decodeMemory delta _ avail :=
    let target := List.replicate (delta.getD 7 0).toNat (delta.getD 12 0)
    if delta = runDelta (delta.getD 12 0) (delta.getD 7 0) ∧ target.length ≤ avail.toNat then
      some target
    else none

theorem lawful_runCoder : runCoder.Lawful where
  length_le {input source delta avail} h := by
    simp only [runCoder] at h
    split at h
    · rename_i hrun
      obtain rfl := Option.some.inj h
      exact hrun.2.2.2
    · cases h
  decodeMemory_eq {input source delta avail} h avail' := by
    simp only [runCoder] at h ⊢
    split at h
    · rename_i hrun
      obtain ⟨hinput, -, hsmall, -⟩ := hrun
      obtain rfl := Option.some.inj h
      have hsize : (UInt8.ofNat input.length).toNat = input.length := by
        rw [UInt8.toNat_ofNat']
        omega
      have hbytes : ∀ byte size, (runDelta byte size).getD 7 0 = size
          ∧ (runDelta byte size).getD 12 0 = byte := fun byte size => ⟨rfl, rfl⟩
      simp only [hbytes, hsize, ← hinput, true_and]
    · cases h

/-- Thirty-two bytes of one kind decode against one byte: the buffer has as many. -/
theorem short_run_decodes :
    (Codecs.reference.withXdelta3 runCoder).encodeDelta [0] (List.replicate 32 1)
        = .ok [0xd6, 0xc3, 0xc4, 0, 0, 0, 8, 32, 0, 1, 2, 0, 1, 0, 32]
      ∧ (Codecs.reference.withXdelta3 runCoder).decodeDelta [0]
          [0xd6, 0xc3, 0xc4, 0, 0, 0, 8, 32, 0, 1, 2, 0, 1, 0, 32]
        = .ok (List.replicate 32 1) := by
  have hencode : (Codecs.reference.withXdelta3 runCoder).encodeDelta [0] (List.replicate 32 1)
      = .ok [0xd6, 0xc3, 0xc4, 0, 0, 0, 8, 32, 0, 1, 2, 0, 1, 0, 32] := by decide
  exact ⟨hencode, ((delta_decodes_iff .reference lawful_runCoder hencode (by decide)).mpr
    (by decide)).1⟩

/-- Sixty-four bytes do not: their delta is no longer. -/
theorem long_run_not_decoded :
    (Codecs.reference.withXdelta3 runCoder).encodeDelta [0] (List.replicate 64 1)
        = .ok [0xd6, 0xc3, 0xc4, 0, 0, 0, 8, 64, 0, 1, 2, 0, 1, 0, 64]
      ∧ deltaIsWorthwhile 15 64 = true
      ∧ (Codecs.reference.withXdelta3 runCoder).decodeDelta [0]
          [0xd6, 0xc3, 0xc4, 0, 0, 0, 8, 64, 0, 1, 2, 0, 1, 0, 64]
        = .error "xdelta3 decode failed" := by
  decide

end BlossomRs.Lfs

import BlossomRs.Lib.RawFrame
import BlossomRs.Lib.SpliceDelta
import BlossomRs.Protocol

/-!
# Compression and delta encoding

The four codec functions of the storage pipeline, over the compressor and the delta coder they
call.  Those two are parameters: all that is known about them is what a result assumes.
-/

namespace BlossomRs.Lfs

open Protocol

/-- The stage at which the streaming compressor can fail. -/
inductive ZstdError where
  | init (detail : String)
  | write (detail : String)
  | flush (detail : String)

/-- The compressor and the delta coder. -/
structure Codecs where
  zstdEncode : Bytes → Except ZstdError Bytes
  zstdDecodeAll : Bytes → Except String Bytes
  xdeltaEncode (input src : Bytes) : Option Bytes
  xdeltaDecode (input src : Bytes) : Option Bytes

namespace Codecs

variable (codecs : Codecs)

/-- `compress`. -/
def compress (data : Bytes) : Except String Bytes :=
  match codecs.zstdEncode data with
  | .ok out => .ok out
  | .error (.init detail) => .error ("zstd encoder init: " ++ detail)
  | .error (.write detail) => .error ("zstd compress: " ++ detail)
  | .error (.flush detail) => .error ("zstd flush: " ++ detail)

/-- `decompress`. -/
def decompress (data : Bytes) : Except String Bytes :=
  match codecs.zstdDecodeAll data with
  | .ok out => .ok out
  | .error detail => .error ("zstd decompress: " ++ detail)

/-- `encode_delta`. -/
def encodeDelta (base new : Bytes) : Except String Bytes :=
  match codecs.xdeltaEncode new base with
  | some delta => .ok delta
  | none => .error "xdelta3 encode failed"

/-- `decode_delta`. -/
def decodeDelta (base delta : Bytes) : Except String Bytes :=
  match codecs.xdeltaDecode delta base with
  | some out => .ok out
  | none => .error "xdelta3 decode failed"

/-- `compress(..).unwrap_or(data)`. -/
def compressOr (data : Bytes) : Bytes :=
  match codecs.compress data with
  | .ok out => out
  | .error _ => data

/-- `decompress(..).unwrap_or(data)`. -/
def decompressOr (data : Bytes) : Bytes :=
  match codecs.decompress data with
  | .ok out => out
  | .error _ => data

/-- Compressing always yields bytes that decompress to what was compressed. -/
def ZstdRoundTrips : Prop :=
  ∀ data, ∃ out, codecs.compress data = .ok out ∧ codecs.decompress out = .ok data

/-- A delta that could be made between two of some contents decodes, against the same base, to what
it was made for. -/
def DeltaRoundTripsOn (among : Bytes → Prop) : Prop :=
  ∀ base new delta, among base → among new → codecs.encodeDelta base new = .ok delta →
    codecs.decodeDelta base delta = .ok new

end Codecs

/-- `delta_is_worthwhile`.  The source compares a quotient of doubles with `0.8`; for lengths below
`2 ^ 51` that is the comparison of the exact fractions. -/
def deltaIsWorthwhile (deltaLen originalLen : Nat) : Bool :=
  if originalLen = 0 then false else decide (5 * deltaLen < 4 * originalLen)

namespace Codecs

variable {codecs : Codecs}

theorem DeltaRoundTripsOn.mono {among more : Bytes → Prop} (h : codecs.DeltaRoundTripsOn more)
    (hmono : ∀ data, among data → more data) : codecs.DeltaRoundTripsOn among :=
  fun base new delta hbase hnew => h base new delta (hmono base hbase) (hmono new hnew)

theorem decompressOr_compressOr (hzstd : codecs.ZstdRoundTrips) (data : Bytes) :
    codecs.decompressOr (codecs.compressOr data) = data := by
  obtain ⟨out, hout, hback⟩ := hzstd data
  simp [compressOr, decompressOr, hout, hback]

theorem decompressOr_of_compress (hzstd : codecs.ZstdRoundTrips) {data out : Bytes}
    (h : codecs.compress data = .ok out) : codecs.decompressOr out = data := by
  have := decompressOr_compressOr hzstd data
  rwa [compressOr, h] at this

/-! ### Codecs that keep the assumptions -/

/-- Frames that store data as it is, and deltas that keep a common head and tail. -/
def reference : Codecs where
  zstdEncode data := .ok (RawFrame.encode data)
  zstdDecodeAll data := (RawFrame.decode data).elim (.error "Unknown frame descriptor") .ok
  xdeltaEncode input src := some (SpliceDelta.encode src input)
  xdeltaDecode input src := SpliceDelta.decode src input

theorem reference_zstdRoundTrips : reference.ZstdRoundTrips := by
  intro data
  refine ⟨RawFrame.encode data, rfl, ?_⟩
  simp [decompress, reference, RawFrame.decode_encode]

theorem reference_deltaRoundTrips (among : Bytes → Prop) : reference.DeltaRoundTripsOn among := by
  intro base new delta _ _ h
  obtain rfl : SpliceDelta.encode base new = delta := Except.ok.inj h
  simp [decodeDelta, reference, SpliceDelta.decode_encode]

end Codecs

end BlossomRs.Lfs

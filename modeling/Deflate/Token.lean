/-
The tokens of a compressed block.

* `Span`: a symbol that stands for a range of numbers, the extra bits after it
  selecting one; `lengthSpans` and `distanceSpans` list the spans of the length
  and distance symbols;
* `Token`: a literal byte, a copy of bytes decoded before, or the end of the
  block;
* `BlockCodes`: the two prefix codes of a block, and `BlockCodes.fixed`, those
  every decoder knows;
* `BlockCodes.token`: reading one token; a symbol without a span is refused;
* `BlockCodes.token_eq_copy`: no copy is longer than 258 bytes or reaches
  further back than 32768 bytes.
-/
import Deflate.PrefixCode

namespace Deflate

/-- The numbers from `base` on that `extra` further bits select from. -/
structure Span where
  /-- The least number of the span. -/
  base : Nat
  /-- How many bits select the number. -/
  extra : Nat
  deriving Repr, DecidableEq

/-- Reads the extra bits and gives the number selected. -/
def Span.number (s : Span) : BitReader Nat := do
  return s.base + (← BitReader.bits s.extra)

theorem Span.advances_number (s : Span) : BitReader.Advances s.number :=
  (BitReader.advances_bits s.extra).bind fun _ => BitReader.advances_pure _

/-- The number lies in the span. -/
theorem Span.number_eq_done {s : Span} {input : ByteArray} {pos v next : Nat}
    (h : s.number input pos = .done v next) : s.base ≤ v ∧ v < s.base + Nat.pow 2 s.extra := by
  obtain ⟨k, mid, h1, h2⟩ := BitReader.bind_eq_done.mp h
  cases h2
  have g := BitReader.bits_eq_done h1
  omega

/-- The lengths meant by the symbols from 257 on. -/
def lengthSpans : Array Span :=
  #[⟨3, 0⟩, ⟨4, 0⟩, ⟨5, 0⟩, ⟨6, 0⟩, ⟨7, 0⟩, ⟨8, 0⟩, ⟨9, 0⟩, ⟨10, 0⟩,
    ⟨11, 1⟩, ⟨13, 1⟩, ⟨15, 1⟩, ⟨17, 1⟩, ⟨19, 2⟩, ⟨23, 2⟩, ⟨27, 2⟩, ⟨31, 2⟩,
    ⟨35, 3⟩, ⟨43, 3⟩, ⟨51, 3⟩, ⟨59, 3⟩, ⟨67, 4⟩, ⟨83, 4⟩, ⟨99, 4⟩, ⟨115, 4⟩,
    ⟨131, 5⟩, ⟨163, 5⟩, ⟨195, 5⟩, ⟨227, 5⟩, ⟨258, 0⟩]

/-- The distances meant by the distance symbols. -/
def distanceSpans : Array Span :=
  #[⟨1, 0⟩, ⟨2, 0⟩, ⟨3, 0⟩, ⟨4, 0⟩, ⟨5, 1⟩, ⟨7, 1⟩, ⟨9, 2⟩, ⟨13, 2⟩,
    ⟨17, 3⟩, ⟨25, 3⟩, ⟨33, 4⟩, ⟨49, 4⟩, ⟨65, 5⟩, ⟨97, 5⟩, ⟨129, 6⟩, ⟨193, 6⟩,
    ⟨257, 7⟩, ⟨385, 7⟩, ⟨513, 8⟩, ⟨769, 8⟩, ⟨1025, 9⟩, ⟨1537, 9⟩, ⟨2049, 10⟩, ⟨3073, 10⟩,
    ⟨4097, 11⟩, ⟨6145, 11⟩, ⟨8193, 12⟩, ⟨12289, 12⟩, ⟨16385, 13⟩, ⟨24577, 13⟩]

/-- All lengths are from 3 to 258. -/
theorem lengthSpans_bound : ∀ s ∈ lengthSpans, 3 ≤ s.base ∧ s.base + Nat.pow 2 s.extra ≤ 259 := by
  decide

/-- All distances are from 1 to 32768. -/
theorem distanceSpans_bound :
    ∀ s ∈ distanceSpans, 1 ≤ s.base ∧ s.base + Nat.pow 2 s.extra ≤ 32769 := by
  decide

/-- The symbol that ends a block; the symbols below it are literal bytes, those
above it are lengths. -/
def endOfBlockSymbol : Nat := 256

/-- One element of a compressed block. -/
inductive Token where
  /-- One byte of output. -/
  | literal (byte : UInt8)
  /-- `length` bytes of output, each equal to the one `distance` before it. -/
  | copy (length distance : Nat)
  /-- The block ends here. -/
  | endOfBlock
  deriving Repr, DecidableEq

/-- The codes of a compressed block. -/
structure BlockCodes where
  /-- The code of literal bytes, lengths and the end of the block. -/
  literal : PrefixCode
  /-- The code of distances. -/
  distance : PrefixCode
  deriving Repr, DecidableEq

namespace BlockCodes

/-- The code lengths of the fixed literal and length code. -/
def fixedLiteralLengths : List Nat :=
  List.replicate 144 8 ++ List.replicate 112 9 ++ List.replicate 24 7 ++ List.replicate 8 8

/-- The code lengths of the fixed distance code. -/
def fixedDistanceLengths : List Nat :=
  List.replicate 32 5

/-- The codes of blocks that bring none. -/
def fixed : BlockCodes where
  literal := .canonical (PrefixCode.levelsOf fixedLiteralLengths)
  distance := .canonical (PrefixCode.levelsOf fixedDistanceLengths)

/-- Reads the rest of a copy whose length is known. -/
def copyOf (codes : BlockCodes) (length : Nat) : BitReader Token := do
  let symbol ← codes.distance.symbol
  let span ← BitReader.accept distanceSpans[symbol]?
  return .copy length (← span.number)

/-- Reads the token that begins with the literal or length symbol given. -/
def tokenOf (codes : BlockCodes) (symbol : Nat) : BitReader Token :=
  if symbol < endOfBlockSymbol then pure (.literal (UInt8.ofNat symbol))
  else if symbol = endOfBlockSymbol then pure .endOfBlock
  else do
    let span ← BitReader.accept lengthSpans[symbol - (endOfBlockSymbol + 1)]?
    copyOf codes (← span.number)

/-- Reads one token. -/
def token (codes : BlockCodes) : BitReader Token := do
  tokenOf codes (← codes.literal.symbol)

/-! ### Progress and bounds -/

theorem advances_copyOf (codes : BlockCodes) (length : Nat) :
    BitReader.Advances (copyOf codes length) := by
  refine codes.distance.steps_symbol.advances.bind fun symbol => ?_
  refine (BitReader.advances_accept _).bind fun span => ?_
  exact span.advances_number.bind fun _ => BitReader.advances_pure _

theorem advances_tokenOf (codes : BlockCodes) (symbol : Nat) :
    BitReader.Advances (tokenOf codes symbol) := by
  rw [tokenOf]
  split
  · exact BitReader.advances_pure _
  · split
    · exact BitReader.advances_pure _
    · refine (BitReader.advances_accept _).bind fun span => ?_
      exact span.advances_number.bind fun _ => advances_copyOf codes _

/-- A token has a code word at least, so reading one moves forward. -/
theorem steps_token (codes : BlockCodes) : BitReader.Steps codes.token :=
  codes.literal.steps_symbol.bind fun symbol => advances_tokenOf codes symbol

/-- A copy has the length given, and a distance that is never zero. -/
theorem copyOf_eq_done {codes : BlockCodes} {length : Nat} {input : ByteArray}
    {pos : Nat} {t : Token} {next : Nat} (h : copyOf codes length input pos = .done t next) :
    ∃ distance, t = .copy length distance ∧ 1 ≤ distance ∧ distance ≤ 32768 := by
  obtain ⟨symbol, _, _, h2⟩ := BitReader.bind_eq_done.mp h
  obtain ⟨span, _, hs, h3⟩ := BitReader.bind_eq_done.mp h2
  obtain ⟨distance, _, h4, h5⟩ := BitReader.bind_eq_done.mp h3
  cases h5
  have g1 := Span.number_eq_done h4
  have g2 := distanceSpans_bound span (Array.mem_of_getElem? (BitReader.accept_eq_done hs).1)
  exact ⟨distance, rfl, by omega, by omega⟩

/-- Copies have lengths from 3 to 258 and distances from 1 to 32768. -/
theorem token_eq_copy {codes : BlockCodes} {input : ByteArray}
    {pos length distance next : Nat}
    (h : codes.token input pos = .done (.copy length distance) next) :
    3 ≤ length ∧ length ≤ 258 ∧ 1 ≤ distance ∧ distance ≤ 32768 := by
  obtain ⟨symbol, mid, h1, h2⟩ := BitReader.bind_eq_done.mp h
  rw [tokenOf] at h2
  split at h2
  · cases h2
  · split at h2
    · cases h2
    · obtain ⟨span, _, hs, h3⟩ := BitReader.bind_eq_done.mp h2
      obtain ⟨v, _, h4, h5⟩ := BitReader.bind_eq_done.mp h3
      have g1 := Span.number_eq_done h4
      have g2 := lengthSpans_bound span (Array.mem_of_getElem? (BitReader.accept_eq_done hs).1)
      obtain ⟨d, hd, g3, g4⟩ := copyOf_eq_done h5
      cases hd
      omega

end BlockCodes

end Deflate

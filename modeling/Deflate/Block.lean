/-
The head of a block: what stands before its bytes or tokens.

* `LengthRun` and `lengthRun`: one entry of the list of code lengths, a length
  or a repetition of one;
* `codeLengths`: the whole list; a repetition without a length before it and a
  run past the end of the list are refused;
* `ownCodes`: the codes that a block brings with it;
* `Block.Body` and `Block.head`: the final flag, and a stored length or the
  codes of a compressed block.
-/
import Deflate.Token

namespace Deflate

namespace Block

/-! ### The list of code lengths -/

/-- An entry of the list of code lengths: `length`, and `more` repetitions of
it. -/
structure LengthRun where
  /-- The code length. -/
  length : Nat
  /-- How often it is repeated. -/
  more : Nat
  deriving Repr, DecidableEq

/-- The entry that begins with the symbol given, after a list that ends in
`last`: symbols below sixteen are lengths, the others repeat the last length or
zero. -/
def runOf (last : Option Nat) : (symbol : Nat) → BitReader LengthRun
  | 16 => do
      let length ← BitReader.accept last
      return ⟨length, 2 + (← BitReader.bits 2)⟩
  | 17 => do return ⟨0, 2 + (← BitReader.bits 3)⟩
  | 18 => do return ⟨0, 10 + (← BitReader.bits 7)⟩
  | length => pure ⟨length, 0⟩

/-- Reads one entry of the list of code lengths. -/
def lengthRun (code : PrefixCode) (last : Option Nat) : BitReader LengthRun := do
  runOf last (← code.symbol)

/-- Reads the `missing` last code lengths of a list that ends in `last` so
far. -/
def codeLengths (code : PrefixCode) (last : Option Nat) (missing : Nat) :
    BitReader (List Nat) :=
  match missing with
  | 0 => pure []
  | m + 1 => do
      let run ← lengthRun code last
      BitReader.require (run.more ≤ m)
      let rest ← codeLengths code (some run.length) (m - run.more)
      return List.replicate (run.more + 1) run.length ++ rest
termination_by missing

/-! ### The codes of a block -/

/-- The order in which the lengths of the code-length code are given. -/
def codeLengthOrder : List Nat :=
  [16, 17, 18, 0, 8, 7, 9, 6, 10, 5, 11, 4, 12, 3, 13, 2, 14, 1, 15]

/-- The lengths of the code-length code by symbol, from those given in order;
the symbols not reached have no code word. -/
def inSymbolOrder (given : List Nat) : List Nat :=
  (List.range codeLengthOrder.length).map fun symbol =>
    ((codeLengthOrder.zip given).lookup symbol).getD 0

/-- The most symbols that a block may give a literal and length code. -/
def maxLiteralSymbols : Nat := 286

/-- The most symbols that a block may give a distance code. -/
def maxDistanceSymbols : Nat := 30

/-- The codes with the given lengths, the first `literals` of which belong to
the literal and length code. -/
def codesOfLengths? (literals : Nat) (lengths : List Nat) : Option BlockCodes := do
  let distance ← PrefixCode.ofLengths? (lengths.drop literals)
  let literal ← PrefixCode.ofLengths? (lengths.take literals)
  return { literal, distance }

/-- Reads the codes that a block brings with it. -/
def ownCodes : BitReader BlockCodes := do
  let literals := 257 + (← BitReader.bits 5)
  let distances := 1 + (← BitReader.bits 5)
  let given := 4 + (← BitReader.bits 4)
  BitReader.require (literals ≤ maxLiteralSymbols ∧ distances ≤ maxDistanceSymbols)
  let inOrder ← (BitReader.bits 3).times given
  let code ← BitReader.accept (PrefixCode.complete? (inSymbolOrder inOrder))
  let lengths ← codeLengths code none (literals + distances)
  BitReader.accept (codesOfLengths? literals lengths)

/-! ### The head of a block -/

/-- What follows the head of a block. -/
inductive Body where
  /-- That many bytes as they are. -/
  | stored (length : Nat)
  /-- Tokens in these codes. -/
  | coded (codes : BlockCodes)
  deriving Repr, DecidableEq

/-- Reads the length of a stored block: sixteen bits from the next byte on, and
their complement. -/
def storedLength : BitReader Nat := do
  BitReader.align
  let length ← BitReader.bits 16
  let complement ← BitReader.bits 16
  BitReader.require (length + complement = 0xFFFF)
  return length

/-- Reads the rest of the head of a block of the kind given. -/
def bodyOf : (kind : Nat) → BitReader Body
  | 0 => do return .stored (← storedLength)
  | 1 => pure (.coded .fixed)
  | 2 => do return .coded (← ownCodes)
  | _ => BitReader.bad

/-- Reads the head of a block: whether it is the final one, and its body. -/
def head : BitReader (Bool × Body) := do
  let final ← BitReader.bit
  let kind ← BitReader.bits 2
  return (final, ← bodyOf kind)

/-! ### Progress -/

/-- Whatever the symbol calls for, a run is read within the input. -/
theorem advances_runOf (last : Option Nat) (symbol : Nat) :
    BitReader.Advances (runOf last symbol) := by
  rw [runOf.eq_def]
  split
  · refine (BitReader.advances_accept last).bind fun _ => ?_
    exact (BitReader.advances_bits 2).bind fun _ => BitReader.advances_pure _
  · exact (BitReader.advances_bits 3).bind fun _ => BitReader.advances_pure _
  · exact (BitReader.advances_bits 7).bind fun _ => BitReader.advances_pure _
  · exact BitReader.advances_pure _

theorem advances_lengthRun (code : PrefixCode) (last : Option Nat) :
    BitReader.Advances (lengthRun code last) :=
  code.steps_symbol.advances.bind fun symbol => advances_runOf last symbol

/-- The runs are read one after the other until no length is missing. -/
theorem advances_codeLengths (code : PrefixCode) (last : Option Nat) (missing : Nat) :
    BitReader.Advances (codeLengths code last missing) := by
  fun_induction codeLengths code last missing with
  | case1 => exact BitReader.advances_pure []
  | case2 last m ih =>
      refine (advances_lengthRun code last).bind fun run => ?_
      refine (BitReader.advances_require _).bind fun _ => ?_
      exact (ih run).bind fun rest => BitReader.advances_pure _

/-- The codes of a dynamic block are read within the input: the three counts, the
lengths of the code for lengths, and the lengths themselves. -/
theorem advances_ownCodes : BitReader.Advances ownCodes := by
  refine (BitReader.advances_bits 5).bind fun literals => ?_
  refine (BitReader.advances_bits 5).bind fun distances => ?_
  refine (BitReader.advances_bits 4).bind fun given => ?_
  refine (BitReader.advances_require _).bind fun _ => ?_
  refine ((BitReader.advances_bits 3).times _).bind fun inOrder => ?_
  refine (BitReader.advances_accept _).bind fun code => ?_
  exact (advances_codeLengths code none _).bind fun _ => BitReader.advances_accept _

theorem advances_storedLength : BitReader.Advances storedLength := by
  refine BitReader.advances_align.bind fun _ => ?_
  refine (BitReader.advances_bits 16).bind fun length => ?_
  refine (BitReader.advances_bits 16).bind fun complement => ?_
  exact (BitReader.advances_require _).bind fun _ => BitReader.advances_pure _

theorem advances_bodyOf (kind : Nat) : BitReader.Advances (bodyOf kind) := by
  rw [bodyOf.eq_def]
  split
  · exact advances_storedLength.bind fun _ => BitReader.advances_pure _
  · exact BitReader.advances_pure _
  · exact advances_ownCodes.bind fun _ => BitReader.advances_pure _
  · exact BitReader.advances_bad

/-- The head of a block has three bits at least, so no block is empty. -/
theorem steps_head : BitReader.Steps head := by
  refine BitReader.steps_bit.bind fun final => ?_
  refine (BitReader.advances_bits 2).bind fun kind => ?_
  exact (advances_bodyOf kind).bind fun _ => BitReader.advances_pure _

end Block

end Deflate

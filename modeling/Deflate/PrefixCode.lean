/-
Prefix codes given by the lengths of their code words.

* `share` and `kraft`: the part of the code space that the code words take, in
  units of the longest words; a code of several words is complete if they take
  all of it;
* `symbolsOfLength`: the symbols of one code length, in increasing order; in
  the canonical code the words of one length are consecutive numbers, and the
  shorter words come first;
* `PrefixCode`: no code word, one code word, or a complete code, kept as the
  symbols of each length;
* `PrefixCode.ofLengths?` and `PrefixCode.complete?`: the codes accepted for
  literals and distances, and for the lengths in a block header;
* `PrefixCode.symbol`: reading one symbol.
-/
import Deflate.Bits

namespace Deflate

/-- The longest code word has fifteen bits. -/
def maxCodeLength : Nat := 15

/-- The part of the code space taken by a code word, counted in words of the
greatest length; length `0` means that the symbol has no code word. -/
def share (length : Nat) : Nat :=
  if length = 0 then 0 else Nat.pow 2 (maxCodeLength - length)

/-- The part of the code space taken by all code words. -/
def kraft (lengths : List Nat) : Nat :=
  (lengths.map share).foldr (· + ·) 0

/-- The code words fill the code space exactly. -/
def IsComplete (lengths : List Nat) : Prop :=
  kraft lengths = Nat.pow 2 maxCodeLength

instance (lengths : List Nat) : Decidable (IsComplete lengths) :=
  inferInstanceAs (Decidable (_ = _))

/-- The symbols whose code words have the given length, in increasing order. -/
def symbolsOfLength (lengths : List Nat) (length : Nat) : List Nat :=
  lengths.zipIdx.filterMap fun (l, symbol) => if l = length then some symbol else none

/-- The symbols that have a code word, each with its length. -/
def codedSymbols (lengths : List Nat) : List (Nat × Nat) :=
  lengths.zipIdx.filterMap fun (l, symbol) => if l = 0 then none else some (symbol, l)

/-- A prefix code. -/
inductive PrefixCode where
  /-- No symbol has a code word. -/
  | empty
  /-- One symbol has a code word: a zero bit and `more` further ones. -/
  | lone (symbol more : Nat)
  /-- The canonical code whose words of `k + 1` bits belong to the symbols
  `levels[k]`. -/
  | canonical (levels : List (Array Nat))
  deriving Repr, DecidableEq

namespace PrefixCode

/-- The symbols of each length from one to the greatest. -/
def levelsOf (lengths : List Nat) : List (Array Nat) :=
  (List.range maxCodeLength).map fun k => (symbolsOfLength lengths (k + 1)).toArray

/-- The code with the given lengths, if it is complete. -/
def complete? (lengths : List Nat) : Option PrefixCode :=
  if IsComplete lengths then some (.canonical (levelsOf lengths)) else none

/-- The code with the given lengths, if it is complete or has at most one code
word. -/
def ofLengths? (lengths : List Nat) : Option PrefixCode :=
  match codedSymbols lengths with
  | [] => some .empty
  | [(symbol, length)] => some (.lone symbol (length - 1))
  | _ => complete? lengths

/-! ### Reading a symbol -/

/-- With one code word, a set bit among this many leading bits is refused at
once; only words longer than this are looked at further. -/
def directBits : Nat := 10

/-- Reads on in the word of a lone symbol: `seen` zero bits have been read from
`start`, and `left` bits of the word are missing. A set bit among the direct
bits is refused with one bit counted; a later one stands for symbol `0`. -/
def loneSymbol (symbol start : Nat) : (seen left : Nat) → BitReader Nat
  | _, 0 => pure symbol
  | seen, left + 1 => do
      if ← BitReader.bit then
        if seen < directBits then BitReader.badAt (start + 1) else pure 0
      else loneSymbol symbol start (seen + 1) left

/-- Reads on in a canonical code: `rank` is how far the bits read lie beyond the
code words of their length, and `levels` holds the symbols of the greater
lengths. -/
def canonicalSymbol : (levels : List (Array Nat)) → (rank : Nat) → BitReader Nat
  | [], _ => BitReader.bad
  | level :: levels, rank => do
      let code := 2 * rank + (← BitReader.bit).toNat
      if h : code < level.size then pure level[code]
      else canonicalSymbol levels (code - level.size)

/-- Reads one symbol. Without any code word one bit is read and refused. -/
def symbol : PrefixCode → BitReader Nat
  | .empty => do
      let _ ← BitReader.bit
      BitReader.bad
  | .lone symbol more => do loneSymbol symbol (← BitReader.position) 0 (more + 1)
  | .canonical levels => canonicalSymbol levels 0

/-! ### Progress -/

theorem advances_loneSymbol (symbol start : Nat) (left seen : Nat) :
    BitReader.Advances (loneSymbol symbol start seen left) := by
  induction left generalizing seen with
  | zero => exact BitReader.advances_pure symbol
  | succ left ih =>
      refine BitReader.steps_bit.advances.bind fun b => ?_
      split
      · split
        · exact BitReader.advances_badAt _
        · exact BitReader.advances_pure 0
      · exact ih (seen + 1)

/-- If at least one bit may be read for a lone symbol, the first bit always is. -/
theorem steps_loneSymbol (symbol start seen left : Nat) :
    BitReader.Steps (loneSymbol symbol start seen (left + 1)) := by
  refine BitReader.steps_bit.bind fun b => ?_
  split
  · split
    · exact BitReader.advances_badAt _
    · exact BitReader.advances_pure 0
  · exact advances_loneSymbol symbol start left (seen + 1)

/-- A code word has a bit for each level down to its own. -/
theorem steps_canonicalSymbol (levels : List (Array Nat)) (rank : Nat) :
    BitReader.Steps (canonicalSymbol levels rank) := by
  induction levels generalizing rank with
  | nil => exact BitReader.steps_bad
  | cons level levels ih =>
      refine BitReader.steps_bit.bind fun b => ?_
      dsimp only
      split
      · exact BitReader.advances_pure _
      · exact (ih _).advances

/-- No code word is empty: with every code a symbol costs at least one bit. -/
theorem steps_symbol (c : PrefixCode) : BitReader.Steps c.symbol := by
  cases c with
  | empty => exact BitReader.steps_bit.bind fun _ => BitReader.advances_bad
  | lone symbol more =>
      intro input pos a next h
      exact steps_loneSymbol symbol pos 0 more h
  | canonical levels => exact steps_canonicalSymbol levels 0

end PrefixCode

end Deflate

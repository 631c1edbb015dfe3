/-
Streams as they are written, and the bytes they stand for.

* `Entry` and `expandEntries`: the list of code lengths of a block, written as
  lengths and repetitions;
* `Preamble`, `Header` and `Coding`: what a block says about its codes;
* `Phrase`: a literal or a copy in the codes of its block; `lengthBase`,
  `lengthExtra`, `distanceBase` and `distanceExtra` give the numbers that
  symbols stand for;
* `Block` and `Stream`: blocks, the last of which is the final one;
* each of these has its bits (`bits`), the condition that it is allowed
  (`Legal`), and, from phrases on, what it does to the output (`expand`); a copy
  appends its bytes one by one (`copyBack`).
-/
import Mathlib.Tactic
import Deflate.Proofs.SymbolReading

namespace Deflate

/-! ### Lists of code lengths -/

/-- An entry of a list of code lengths. -/
inductive Entry where
  /-- A code length. -/
  | length (length : ℕ)
  /-- The last code length again, that many times. -/
  | again (times : ℕ)
  /-- That many times `0`, up to ten. -/
  | zeros (times : ℕ)
  /-- That many times `0`, at least eleven. -/
  | moreZeros (times : ℕ)
  deriving Repr, DecidableEq

namespace Entry

/-- The symbol of the entry in the code of code lengths. -/
def symbol : Entry → ℕ
  | length l => l
  | again _ => 16
  | zeros _ => 17
  | moreZeros _ => 18

/-- How many code lengths the entry gives. -/
def times : Entry → ℕ
  | length _ => 1
  | again n => n
  | zeros n => n
  | moreZeros n => n

/-- The code length that the entry gives after `last`. -/
def value (last : Option ℕ) : Entry → ℕ
  | length l => l
  | again _ => last.getD 0
  | zeros _ => 0
  | moreZeros _ => 0

/-- The bits after the symbol. -/
def extra : Entry → List Bool
  | length _ => []
  | again n => field 2 (n - 3)
  | zeros n => field 3 (n - 3)
  | moreZeros n => field 7 (n - 11)

/-- The entry can stand after `last`. -/
def InRange (last : Option ℕ) : Entry → Prop
  | length l => l ≤ maxCodeLength
  | again n => last ≠ none ∧ 3 ≤ n ∧ n ≤ 6
  | zeros n => 3 ≤ n ∧ n ≤ 10
  | moreZeros n => 11 ≤ n ∧ n ≤ 138

instance (last : Option ℕ) : DecidablePred (InRange last)
  | length _ => inferInstanceAs (Decidable (_ ≤ _))
  | again _ => inferInstanceAs (Decidable (_ ∧ _ ∧ _))
  | zeros _ => inferInstanceAs (Decidable (_ ∧ _))
  | moreZeros _ => inferInstanceAs (Decidable (_ ∧ _))

lemma one_le_times {last : Option ℕ} {e : Entry} (h : e.InRange last) : 1 ≤ e.times := by
  cases e with
  | length l => exact Nat.le_refl 1
  | again n => exact Nat.le_trans (by decide) h.2.1
  | zeros n => exact Nat.le_trans (by decide) h.1
  | moreZeros n => exact Nat.le_trans (by decide) h.1

/-- The bits of the entry. -/
def bits (lengthCode : List ℕ) (e : Entry) : List Bool :=
  codeWord lengthCode e.symbol ++ e.extra

/-- The entry can be written after `last`. -/
def Legal (lengthCode : List ℕ) (last : Option ℕ) (e : Entry) : Prop :=
  lengthOf lengthCode e.symbol ≠ 0 ∧ e.InRange last

instance (lengthCode : List ℕ) (last : Option ℕ) : DecidablePred (Legal lengthCode last) :=
  fun _ => inferInstanceAs (Decidable (_ ∧ _))

end Entry

/-- The code lengths that entries give after `last`. -/
def expandEntries (last : Option ℕ) : List Entry → List ℕ
  | [] => []
  | e :: es => List.replicate e.times (e.value last) ++ expandEntries (some (e.value last)) es

/-- The entries can be written one after the other after `last`. -/
def LegalEntries (lengthCode : List ℕ) (last : Option ℕ) : List Entry → Prop
  | [] => True
  | e :: es => e.Legal lengthCode last ∧ LegalEntries lengthCode (some (e.value last)) es

instance decidableLegalEntries (lengthCode : List ℕ) :
    ∀ last es, Decidable (LegalEntries lengthCode last es)
  | _, [] => .isTrue trivial
  | last, e :: es =>
      have := decidableLegalEntries lengthCode (some (e.value last)) es
      inferInstanceAs (Decidable (_ ∧ _))

/-! ### The codes of a block -/

/-- What a block says about its codes before the list of code lengths. -/
structure Preamble where
  /-- How many literal and length symbols get a code length. -/
  literals : ℕ
  /-- How many distance symbols get a code length. -/
  distances : ℕ
  /-- How many lengths of the code of code lengths are given. -/
  given : ℕ
  /-- The code of code lengths, by its lengths. -/
  lengthCode : List ℕ
  deriving Repr, DecidableEq

namespace Preamble

/-- The bits of the three counts. -/
def counts (p : Preamble) : List Bool :=
  field 5 (p.literals - 257) ++ field 5 (p.distances - 1) ++ field 4 (p.given - 4)

/-- The bits of the preamble. -/
def bits (p : Preamble) : List Bool :=
  p.counts ++
    (Block.codeLengthOrder.take p.given).flatMap fun symbol =>
      field 3 (lengthOf p.lengthCode symbol)

/-- The numbers have the sizes that can be written, and there are not too many
symbols. -/
def InRange (p : Preamble) : Prop :=
  257 ≤ p.literals ∧ p.literals ≤ 286 ∧ 1 ≤ p.distances ∧ p.distances ≤ 30 ∧
    4 ≤ p.given ∧ p.given ≤ 19 ∧ p.lengthCode.length = 19 ∧ (∀ l ∈ p.lengthCode, l < 8) ∧
    ∀ symbol ∈ Block.codeLengthOrder.drop p.given, lengthOf p.lengthCode symbol = 0

instance : DecidablePred InRange :=
  fun _ => inferInstanceAs (Decidable (_ ∧ _))

end Preamble

/-- All that a block says about its codes. -/
structure Header extends Preamble where
  /-- The list of code lengths. -/
  entries : List Entry
  deriving Repr, DecidableEq

namespace Header

/-- The bits of the header. -/
def bits (h : Header) : List Bool :=
  h.toPreamble.bits ++ h.entries.flatMap (Entry.bits h.lengthCode)

/-- The code lengths of both codes. -/
def lengths (h : Header) : List ℕ :=
  expandEntries none h.entries

/-- The list of code lengths can be written, and it ends with the last symbol. -/
def Legal (h : Header) : Prop :=
  h.InRange ∧ IsComplete h.lengthCode ∧ LegalEntries h.lengthCode none h.entries ∧
    h.lengths.length = h.literals + h.distances ∧
    Allowed (h.lengths.take h.literals) ∧ Allowed (h.lengths.drop h.literals)

instance : DecidablePred Legal :=
  fun _ => inferInstanceAs (Decidable (_ ∧ _))

end Header

/-- Which codes a block uses. -/
inductive Coding where
  /-- The codes that every decoder knows. -/
  | fixed
  /-- Codes that the block brings with it. -/
  | dynamic (header : Header)
  deriving Repr, DecidableEq

namespace Coding

/-- The code lengths of literal bytes, lengths and the end of the block. -/
def literalLengths : Coding → List ℕ
  | fixed => BlockCodes.fixedLiteralLengths
  | dynamic h => h.lengths.take h.literals

/-- The code lengths of distances. -/
def distanceLengths : Coding → List ℕ
  | fixed => BlockCodes.fixedDistanceLengths
  | dynamic h => h.lengths.drop h.literals

/-- The kind of block. -/
def kind : Coding → ℕ
  | fixed => 1
  | dynamic _ => 2

/-- The bits that the block says about its codes. -/
def bits : Coding → List Bool
  | fixed => []
  | dynamic h => h.bits

/-- The codes can be used. -/
def Legal : Coding → Prop
  | fixed => True
  | dynamic h => h.Legal

instance : DecidablePred Legal
  | fixed => .isTrue trivial
  | dynamic _ => inferInstanceAs (Decidable (Header.Legal _))

/-- The codes themselves. -/
def codes (c : Coding) : BlockCodes where
  literal := PrefixCode.ofLengths c.literalLengths
  distance := PrefixCode.ofLengths c.distanceLengths

end Coding

/-! ### Phrases -/

/-- The extra bits after the length symbol `257 + k`. -/
def lengthExtra (k : ℕ) : ℕ :=
  if k < 8 ∨ k = 28 then 0 else k / 4 - 1

/-- The least length that the symbol `257 + k` stands for: the symbols cover the
lengths in order, except for the last one, which is the greatest length. -/
def lengthBase (k : ℕ) : ℕ :=
  if k = 28 then 258 else 3 + ((List.range k).map fun j => 2 ^ lengthExtra j).sum

/-- The extra bits after the distance symbol `k`. -/
def distanceExtra (k : ℕ) : ℕ :=
  k / 2 - 1

/-- The least distance that the symbol `k` stands for: the symbols cover the
distances in order. -/
def distanceBase (k : ℕ) : ℕ :=
  1 + ((List.range k).map fun j => 2 ^ distanceExtra j).sum

/-- A literal byte or a copy as it is written. -/
inductive Phrase where
  /-- A literal byte. -/
  | literal (letter : Letter)
  /-- A copy: its length and its distance, each as a symbol with the number
  written in the extra bits. -/
  | copy (length : Letter) (lengthMore : ℕ) (distance : Letter) (distanceMore : ℕ)
  deriving Repr, DecidableEq

/-- The place of a length symbol among all of them. -/
def Letter.lengthIndex (l : Letter) : ℕ :=
  l.symbol - 257

namespace Phrase

/-- The bits of the length of a copy. -/
def lengthBits (c : Coding) (length : Letter) (more : ℕ) : List Bool :=
  length.bits c.literalLengths ++ field (lengthExtra length.lengthIndex) more

/-- The length of a copy can be written. -/
def LegalLength (c : Coding) (length : Letter) (more : ℕ) : Prop :=
  length.Legal c.literalLengths ∧ 257 ≤ length.symbol ∧ length.symbol ≤ 285 ∧
    more < 2 ^ lengthExtra length.lengthIndex

instance (c : Coding) (length : Letter) (more : ℕ) : Decidable (LegalLength c length more) :=
  inferInstanceAs (Decidable (_ ∧ _))

/-- The bits of a phrase. -/
def bits (c : Coding) : Phrase → List Bool
  | literal letter => letter.bits c.literalLengths
  | copy length lengthMore distance distanceMore =>
      lengthBits c length lengthMore ++
        (distance.bits c.distanceLengths ++ field (distanceExtra distance.symbol) distanceMore)

/-- What a phrase stands for. -/
def token : Phrase → Token
  | literal letter => .literal (UInt8.ofNat letter.symbol)
  | copy length lengthMore distance distanceMore =>
      .copy (lengthBase length.lengthIndex + lengthMore)
        (distanceBase distance.symbol + distanceMore)

/-- The phrase can be written, wherever it stands. -/
def Written (c : Coding) : Phrase → Prop
  | literal letter => letter.Legal c.literalLengths ∧ letter.symbol < 256
  | copy length lengthMore distance distanceMore =>
      LegalLength c length lengthMore ∧ distance.Legal c.distanceLengths ∧
        distance.symbol < 30 ∧ distanceMore < 2 ^ distanceExtra distance.symbol

instance (c : Coding) : DecidablePred (Written c)
  | literal _ => inferInstanceAs (Decidable (_ ∧ _))
  | copy .. => inferInstanceAs (Decidable (_ ∧ _))

end Phrase

/-- The output with `length` more bytes, each of them the one `distance` before
it. -/
def copyBack (out : List UInt8) (distance : ℕ) : (length : ℕ) → List UInt8
  | 0 => out
  | n + 1 => copyBack (out ++ [out.getD (out.length - distance) 0]) distance n

namespace Token

/-- The output after a token. -/
def expand (out : List UInt8) : Token → List UInt8
  | literal byte => out ++ [byte]
  | copy length distance => copyBack out distance length
  | endOfBlock => out

/-- A copy starts at a byte of the output before it. -/
def InReach (produced : ℕ) : Token → Prop
  | copy _ distance => 1 ≤ distance ∧ distance ≤ produced
  | _ => True

instance (produced : ℕ) : DecidablePred (InReach produced)
  | literal _ => .isTrue trivial
  | copy .. => inferInstanceAs (Decidable (_ ∧ _))
  | endOfBlock => .isTrue trivial

end Token

/-- The output after phrases. -/
def expandPhrases (out : List UInt8) : List Phrase → List UInt8
  | [] => out
  | p :: ps => expandPhrases (p.token.expand out) ps

/-- The phrases can be written one after the other after the output `out`. -/
def LegalPhrases (c : Coding) (out : List UInt8) : List Phrase → Prop
  | [] => True
  | p :: ps =>
      p.Written c ∧ p.token.InReach out.length ∧ LegalPhrases c (p.token.expand out) ps

instance decidableLegalPhrases (c : Coding) : ∀ out ps, Decidable (LegalPhrases c out ps)
  | _, [] => .isTrue trivial
  | out, p :: ps =>
      have := decidableLegalPhrases c (p.token.expand out) ps
      inferInstanceAs (Decidable (_ ∧ _ ∧ _))

/-! ### Blocks and streams -/

/-- The bits of a stored block before its bytes. -/
def storedHead (final : Bool) (padding : List Bool) (length : ℕ) : List Bool :=
  final :: field 2 0 ++ padding ++ field 16 length ++ field 16 (65535 - length)

/-- The padding ends at a byte boundary, for a block at `pos`, and the length can
be written. -/
def LegalStored (pos : ℕ) (padding : List Bool) (length : ℕ) : Prop :=
  padding.length < 8 ∧ 8 ∣ pos + 3 + padding.length ∧ length ≤ 65535

instance (pos : ℕ) (padding : List Bool) (length : ℕ) :
    Decidable (LegalStored pos padding length) :=
  inferInstanceAs (Decidable (_ ∧ _ ∧ _))

/-- The bits of a coded block before its phrases. -/
def codedHead (final : Bool) (coding : Coding) : List Bool :=
  final :: field 2 coding.kind ++ coding.bits

/-- The bits that end a coded block. -/
def blockEnd (coding : Coding) : List Bool :=
  codeWord coding.literalLengths 256

/-- A block as it is written. -/
inductive Block where
  /-- Bytes as they are, after padding. -/
  | stored (padding : List Bool) (bytes : List UInt8)
  /-- Phrases in codes, and the end of the block. -/
  | coded (coding : Coding) (phrases : List Phrase)
  deriving Repr, DecidableEq

namespace Block

/-- The bits of a block. -/
def bits (final : Bool) : Block → List Bool
  | stored padding bytes => storedHead final padding bytes.length ++ bitsOfBytes bytes
  | coded coding phrases =>
      codedHead final coding ++ phrases.flatMap (Phrase.bits coding) ++ blockEnd coding

/-- The output after a block. -/
def expand (out : List UInt8) : Block → List UInt8
  | stored _ bytes => out ++ bytes
  | coded _ phrases => expandPhrases out phrases

/-- The block can be written at `pos` after the output `out`. -/
def Legal (pos : ℕ) (out : List UInt8) : Block → Prop
  | stored padding bytes => LegalStored pos padding bytes.length
  | coded coding phrases =>
      coding.Legal ∧ LegalPhrases coding out phrases ∧ lengthOf coding.literalLengths 256 ≠ 0

instance (pos : ℕ) (out : List UInt8) : DecidablePred (Legal pos out)
  | stored .. => inferInstanceAs (Decidable (LegalStored _ _ _))
  | coded .. => inferInstanceAs (Decidable (_ ∧ _ ∧ _))

end Block

/-- The bits of blocks none of which is the final one. -/
def blocksBits (blocks : List Block) : List Bool :=
  blocks.flatMap (Block.bits false)

/-- The output after blocks. -/
def expandBlocks (out : List UInt8) : List Block → List UInt8
  | [] => out
  | b :: bs => expandBlocks (b.expand out) bs

/-- The blocks, none of them the final one, can be written one after the other at
`pos` after the output `out`. -/
def LegalBlocks (pos : ℕ) (out : List UInt8) : List Block → Prop
  | [] => True
  | b :: bs => b.Legal pos out ∧ LegalBlocks (pos + (b.bits false).length) (b.expand out) bs

instance decidableLegalBlocks : ∀ pos out bs, Decidable (LegalBlocks pos out bs)
  | _, _, [] => .isTrue trivial
  | pos, out, b :: bs =>
      have := decidableLegalBlocks (pos + (b.bits false).length) (b.expand out) bs
      inferInstanceAs (Decidable (_ ∧ _))

/-- A stream: blocks of which exactly the last one is final. -/
structure Stream where
  /-- The blocks before the final one. -/
  earlier : List Block
  /-- The final block. -/
  last : Block
  deriving Repr, DecidableEq

namespace Stream

/-- The bits of a stream. -/
def bits (s : Stream) : List Bool :=
  blocksBits s.earlier ++ s.last.bits true

/-- The bytes that a stream stands for. -/
def output (s : Stream) : List UInt8 :=
  s.last.expand (expandBlocks [] s.earlier)

/-- The stream can be written. -/
def Legal (s : Stream) : Prop :=
  LegalBlocks 0 [] s.earlier ∧
    s.last.Legal (blocksBits s.earlier).length (expandBlocks [] s.earlier)

instance : DecidablePred Legal :=
  fun _ => inferInstanceAs (Decidable (_ ∧ _))

end Stream

end Deflate

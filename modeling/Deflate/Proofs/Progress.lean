/-
Streams of which only the front has been read.

* `Current` and `Progress`: the part of the block being read, and the blocks
  before it;
* `Flaw`: the item that comes next is not allowed;
* `legalPhrases_concat`, `legalBlocks_concat` and their like: what one more phrase
  or block adds;
* `Progress.IsAt`: the input has been read in this way up to a position.
-/
import Mathlib.Tactic
import Deflate.Proofs.Execution

namespace Deflate

/-! ### One more phrase, one more block -/

/-- The last phrase is expanded after the others. -/
lemma expandPhrases_concat (out : List UInt8) (ps : List Phrase) (p : Phrase) :
    expandPhrases out (ps ++ [p]) = p.token.expand (expandPhrases out ps) := by
  induction ps generalizing out with
  | nil => rfl
  | cons q ps ih => exact ih _

/-- The last phrase reaches into the output of the others only. -/
lemma legalPhrases_concat {c : Coding} {out : List UInt8} {ps : List Phrase} {p : Phrase} :
    LegalPhrases c out (ps ++ [p]) ↔
      LegalPhrases c out ps ∧ p.Written c ∧ p.token.InReach (expandPhrases out ps).length := by
  induction ps generalizing out with
  | nil => simp [LegalPhrases, expandPhrases]
  | cons q ps ih => simp only [List.cons_append, LegalPhrases, expandPhrases, ih, and_assoc]

lemma expandBlocks_concat (out : List UInt8) (bs : List Block) (b : Block) :
    expandBlocks out (bs ++ [b]) = b.expand (expandBlocks out bs) := by
  induction bs generalizing out with
  | nil => rfl
  | cons c bs ih => exact ih _

lemma blocksBits_cons (b : Block) (bs : List Block) :
    blocksBits (b :: bs) = b.bits false ++ blocksBits bs := rfl

lemma blocksBits_concat (bs : List Block) (b : Block) :
    blocksBits (bs ++ [b]) = blocksBits bs ++ b.bits false := by
  simp [blocksBits]

/-- The last block is looked at where the others end, in their bits and in their output. -/
lemma legalBlocks_concat {pos : ℕ} {out : List UInt8} {bs : List Block} {b : Block} :
    LegalBlocks pos out (bs ++ [b]) ↔
      LegalBlocks pos out bs ∧ b.Legal (pos + (blocksBits bs).length) (expandBlocks out bs) := by
  induction bs generalizing pos out with
  | nil => simp [LegalBlocks, expandBlocks, blocksBits]
  | cons c bs ih =>
      simp only [List.cons_append, LegalBlocks, expandBlocks, ih, and_assoc, blocksBits_cons,
        List.length_append, Nat.add_assoc]

/-! ### The front of a stream -/

/-- What has been read of the block that comes after some blocks. -/
inductive Current where
  /-- Nothing. -/
  | head
  /-- The head and some bytes of a stored block, of which `left` bytes are
  missing. -/
  | stored (final : Bool) (padding : List Bool) (bytes : List UInt8) (left : ℕ)
  /-- The head and some phrases of a coded block. -/
  | coded (final : Bool) (coding : Coding) (phrases : List Phrase)
  deriving Repr, DecidableEq

namespace Current

/-- The bits of what has been read. -/
def bits : Current → List Bool
  | head => []
  | stored final padding bytes left =>
      storedHead final padding (bytes.length + left) ++ bitsOfBytes bytes
  | coded final coding phrases => codedHead final coding ++ phrases.flatMap (Phrase.bits coding)

/-- The output after what has been read. -/
def expand (out : List UInt8) : Current → List UInt8
  | head => out
  | stored _ _ bytes _ => out ++ bytes
  | coded _ _ phrases => expandPhrases out phrases

/-- What has been read can be written at `pos` after the output `out`. -/
def Legal (pos : ℕ) (out : List UInt8) : Current → Prop
  | head => True
  | stored _ padding bytes left => LegalStored pos padding (bytes.length + left)
  | coded _ coding phrases => coding.Legal ∧ LegalPhrases coding out phrases

instance (pos : ℕ) (out : List UInt8) : DecidablePred (Legal pos out)
  | head => .isTrue trivial
  | stored .. => inferInstanceAs (Decidable (LegalStored _ _ _))
  | coded .. => inferInstanceAs (Decidable (_ ∧ _))

/-- What a machine reads next. -/
def phase : Current → Phase
  | head => .head
  | stored final _ _ left => .stored final left
  | coded final coding _ => .coded final coding.codes

end Current

/-- The front of a stream: some blocks, none of them the final one, and a part of
the next block. -/
structure Progress where
  /-- The blocks read. -/
  earlier : List Block
  /-- The part of the next block. -/
  current : Current
  deriving Repr, DecidableEq

namespace Progress

/-- The bits of the front of a stream. -/
def bits (p : Progress) : List Bool :=
  blocksBits p.earlier ++ p.current.bits

/-- The bytes that the front of a stream stands for. -/
def output (p : Progress) : List UInt8 :=
  p.current.expand (expandBlocks [] p.earlier)

/-- The front of a stream can be written. -/
def Legal (p : Progress) : Prop :=
  LegalBlocks 0 [] p.earlier ∧
    p.current.Legal (blocksBits p.earlier).length (expandBlocks [] p.earlier)

instance : DecidablePred Legal :=
  fun _ => inferInstanceAs (Decidable (_ ∧ _))

/-- The input has been read as `p` up to `pos`, and the output is `out`. -/
structure IsAt (input : ByteArray) (p : Progress) (pos : ℕ) (out : List UInt8) : Prop where
  /-- What has been read can be written. -/
  legal : p.Legal
  /-- The input holds what has been read. -/
  spells : Spells input 0 p.bits pos
  /-- The output is that of what has been read. -/
  output : p.output = out

end Progress

/-- The bits of an item that is not allowed where it comes next, and how many of
them count as read. -/
inductive Flaw (p : Progress) : (w : List Bool) → (counted : ℕ) → Prop where
  /-- The head of a block is not allowed. -/
  | head (w : List Bool) : p.current = .head → BadHead p.bits.length w → Flaw p w w.length
  /-- A phrase is not allowed wherever it stands. -/
  | phrase (final : Bool) (coding : Coding) (phrases : List Phrase) (w : List Bool)
      (counted : ℕ) : p.current = .coded final coding phrases → BadPhrase coding w counted →
      Flaw p w counted
  /-- A copy reaches before the first byte of the output. -/
  | reach (final : Bool) (coding : Coding) (phrases : List Phrase) (next : Phrase) :
      p.current = .coded final coding phrases → next.Written coding →
      ¬next.token.InReach p.output.length →
      Flaw p (next.bits coding) (next.bits coding).length

/-- No more bits count as read than are looked at. -/
lemma Flaw.counted_le {p : Progress} {w : List Bool} {counted : ℕ} (h : Flaw p w counted) :
    counted ≤ w.length := by
  cases h with
  | head w hc hb => exact Nat.le_refl _
  | phrase final coding phrases w counted hc hb => exact hb.counted_le
  | reach final coding phrases next hc hn hr => exact Nat.le_refl _

end Deflate

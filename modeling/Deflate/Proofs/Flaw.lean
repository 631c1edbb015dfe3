/-
Items that are not allowed.

* `BadPhrase`: in a coded block, with how many of the bits looked at count as
  read;
* `BadEntries`: in a list of code lengths;
* `BadCodes`: in what a block says about its codes;
* `BadHead`: at the head of a block.
-/
import Mathlib.Tactic
import Deflate.Proofs.Stream

namespace Deflate

/-- The bits of a phrase that is not allowed, wherever it stands, and how many of
them count as read. -/
inductive BadPhrase (c : Coding) : (w : List Bool) → (counted : ℕ) → Prop where
  /-- Bits that no literal or length begins with. -/
  | word (w : List Bool) : Misread c.literalLengths w → BadPhrase c w 1
  /-- A symbol beyond the lengths. -/
  | symbol (length : Letter) : length.Legal c.literalLengths → 285 < length.symbol →
      BadPhrase c (length.bits c.literalLengths) (length.bits c.literalLengths).length
  /-- A length, and bits that no distance begins with. -/
  | distanceWord (length : Letter) (more : ℕ) (w : List Bool) : Phrase.LegalLength c length more →
      Misread c.distanceLengths w →
      BadPhrase c (Phrase.lengthBits c length more ++ w)
        ((Phrase.lengthBits c length more).length + 1)
  /-- A length, and a symbol beyond the distances. -/
  | distanceSymbol (length : Letter) (more : ℕ) (distance : Letter) :
      Phrase.LegalLength c length more → distance.Legal c.distanceLengths → 30 ≤ distance.symbol →
      BadPhrase c (Phrase.lengthBits c length more ++ distance.bits c.distanceLengths)
        (Phrase.lengthBits c length more ++ distance.bits c.distanceLengths).length

lemma Misread.length_pos {lengths : List ℕ} {w : List Bool} (h : Misread lengths w) :
    0 < w.length := by
  cases h with
  | unused b h0 => exact Nat.one_pos
  | early zeros h1 hlt hl =>
      rw [length_lateBits]
      exact Nat.succ_pos zeros

/-- No more bits count as read than are looked at. -/
lemma BadPhrase.counted_le {c : Coding} {w : List Bool} {counted : ℕ} (h : BadPhrase c w counted) :
    counted ≤ w.length := by
  cases h with
  | word w hw => exact hw.length_pos
  | symbol length hl hgt => exact Nat.le_refl _
  | distanceWord length more w hl hw =>
      rw [List.length_append]
      exact Nat.add_le_add_left hw.length_pos _
  | distanceSymbol length more distance hl hd hge => exact Nat.le_refl _

/-- The bits of entries the last of which is not allowed in a list of code lengths
that ends in `last` so far and of which `missing` are missing. -/
inductive BadEntries (lengthCode : List ℕ) :
    (last : Option ℕ) → (missing : ℕ) → (w : List Bool) → Prop where
  /-- A repetition without a length before it; its symbol is looked at only. -/
  | again {missing : ℕ} : 0 < missing → lengthOf lengthCode 16 ≠ 0 →
      BadEntries lengthCode none missing (codeWord lengthCode 16)
  /-- An entry that gives too many lengths. -/
  | overshoot {last : Option ℕ} {missing : ℕ} (e : Entry) : 0 < missing →
      e.Legal lengthCode last → missing < e.times →
      BadEntries lengthCode last missing (e.bits lengthCode)
  /-- The entry is allowed, and lengths are missing after it. -/
  | later {last : Option ℕ} {missing : ℕ} (e : Entry) {w : List Bool} :
      e.Legal lengthCode last → e.times < missing →
      BadEntries lengthCode (some (e.value last)) (missing - e.times) w →
      BadEntries lengthCode last missing (e.bits lengthCode ++ w)

/-- The bits of what a block says about its codes, up to an item that is not
allowed. -/
inductive BadCodes : (w : List Bool) → Prop where
  /-- Too many symbols. -/
  | counts (p : Preamble) : 257 ≤ p.literals → p.literals ≤ 288 → 1 ≤ p.distances →
      p.distances ≤ 32 → 4 ≤ p.given → p.given ≤ 19 →
      286 < p.literals ∨ 30 < p.distances → BadCodes p.counts
  /-- The code of code lengths is not complete. -/
  | lengthCode (p : Preamble) : p.InRange → ¬IsComplete p.lengthCode → BadCodes p.bits
  /-- An entry of the list of code lengths is not allowed. -/
  | entries (p : Preamble) (w : List Bool) : p.InRange → IsComplete p.lengthCode →
      BadEntries p.lengthCode none (p.literals + p.distances) w → BadCodes (p.bits ++ w)
  /-- One of the two codes has several code words and is not complete. -/
  | codes (h : Header) : h.InRange → IsComplete h.lengthCode →
      LegalEntries h.lengthCode none h.entries → h.lengths.length = h.literals + h.distances →
      ¬(Allowed (h.lengths.take h.literals) ∧ Allowed (h.lengths.drop h.literals)) →
      BadCodes h.bits

/-- The bits of the head of a block at `pos`, up to an item that is not
allowed. -/
inductive BadHead (pos : ℕ) : (w : List Bool) → Prop where
  /-- There is no fourth kind of block. -/
  | kind (final : Bool) : BadHead pos (final :: field 2 3)
  /-- The length of a stored block and its complement do not agree. -/
  | stored (final : Bool) (padding : List Bool) (length complement : ℕ) :
      LegalStored pos padding length → complement ≤ 65535 → length + complement ≠ 65535 →
      BadHead pos (final :: field 2 0 ++ padding ++ field 16 length ++ field 16 complement)
  /-- The codes are not allowed. -/
  | codes (final : Bool) (w : List Bool) : BadCodes w → BadHead pos (final :: field 2 2 ++ w)

end Deflate

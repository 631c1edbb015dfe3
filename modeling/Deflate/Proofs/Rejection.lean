/-
Inputs that are refused.

* `Flaw.not_prefix`: an item that is not allowed stands in no stream;
* `Inflater.inflate_corrupt_iff`: an input is refused exactly where the front of a
  stream is followed by an item that is not allowed, and the offset counts the bytes
  that hold the bits read up to there;
* `farCopy`: a copy that reaches before the output, after a stored block and a
  literal byte.
-/
import Mathlib.Tactic
import Deflate.Proofs.RoundTrip

namespace Deflate

/-- An item that is not allowed stands in no stream: the front with this item is not
the front of a stream, and no stream ends in it. -/
theorem Flaw.not_prefix {p : Progress} {w : List Bool} {counted : ℕ} {s : Stream} (hp : p.Legal)
    (hf : Flaw p w counted) (hs : s.Legal) :
    ¬(p.bits ++ w <+: s.bits) ∧ ¬(s.bits <+: p.bits ++ w) := by
  have hnot : ∀ input, Holds input 0 (p.bits ++ w) → ¬Holds input 0 s.bits := by
    intro input hw h
    have hok := decode_eq_ok_iff.mpr ⟨s, hs, h, rfl, rfl⟩
    have hcorrupt := decode_eq_corrupt_iff.mpr ⟨rfl, p, w, counted, hp, hf, hw, rfl⟩
    cases hok.symm.trans hcorrupt
  constructor
  · intro h
    obtain ⟨input, hheld⟩ := exists_holds s.bits
    exact hnot input (h.trans hheld) hheld
  · intro h
    obtain ⟨input, hheld⟩ := exists_holds (p.bits ++ w)
    exact hnot input hheld (h.trans hheld)

/-- **The first bad item decides**: a decode finds the input corrupt exactly where
the front of a stream that can be written is followed by an item that is not
allowed, and whatever comes after this item; the offset is that of the bits which
count as read, the message is always the same, and the target is left as it is. -/
theorem Inflater.inflate_corrupt_iff {inflater : Inflater} {input target out : ByteArray}
    {offset : ℕ} {detail : String} :
    (inflater.inflate input target).2 = (out, .error (.corrupt offset detail)) ↔
      out = target ∧ detail = DecodeError.badItem ∧
        ∃ (p : Progress) (w : List Bool) (counted : ℕ), p.Legal ∧ Flaw p w counted ∧
          p.bits ++ w <+: bitsOf input ∧ offset = (p.bits.length + counted + 7) / 8 := by
  rw [Inflater.inflate_eq_error_iff, decode_eq_corrupt_iff]
  constructor
  · rintro ⟨⟨hd, p, w, counted, hl, hf, hh, ho⟩, hout⟩
    exact ⟨hout, hd, p, w, counted, hl, hf, hh, ho⟩
  · rintro ⟨hout, hd, p, w, counted, hl, hf, hh, ho⟩
    exact ⟨⟨hd, p, w, counted, hl, hf, hh, ho⟩, hout⟩

/-- Two stored bytes and a literal byte. -/
def threeBytes : Progress where
  earlier := [.stored [true, false, true, true, true] [104, 105]]
  current := .coded true .fixed [.literal (.regular 97)]

/-- A copy from four bytes before. -/
def farCopy : Phrase :=
  .copy (.regular 257) 0 (.regular 3) 0

/-- After three bytes a copy from four bytes before is refused, and its bits count as
read. -/
theorem inflate_corrupt_farCopy :
    (Inflater.fresh.inflate (pack (threeBytes.bits ++ farCopy.bits .fixed ++ [true])) ⟨#[1]⟩).2 =
      (⟨#[1]⟩, .error (.corrupt 10 DecodeError.badItem)) := by
  have hl : threeBytes.Legal := by decide +kernel
  have hf : Flaw threeBytes (farCopy.bits .fixed) (farCopy.bits .fixed).length :=
    .reach true .fixed _ farCopy rfl (by decide +kernel) (by decide +kernel)
  have h8 : 8 ∣ (threeBytes.bits ++ farCopy.bits .fixed ++ [true]).length := by decide +kernel
  have hh : threeBytes.bits ++ farCopy.bits .fixed <+:
      bitsOf (pack (threeBytes.bits ++ farCopy.bits .fixed ++ [true])) := by
    rw [bitsOf_pack h8]
    exact List.prefix_append _ _
  have ho : 10 = (threeBytes.bits.length + (farCopy.bits .fixed).length + 7) / 8 := by
    decide +kernel
  exact Inflater.inflate_corrupt_iff.mpr ⟨rfl, rfl, threeBytes, _, _, hl, hf, hh, ho⟩

end Deflate

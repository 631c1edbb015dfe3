/-
Decoding undoes writing.

* `exists_lengthBase` and `exists_distanceBase`: every length and every distance can
  be written;
* `Stream.eq_of_prefix`: no stream is the front of another one;
* `Stream.decode_eq` and `Stream.inflate_eq`: an input that begins with a stream is
  decoded to what the stream stands for;
* `Inflater.inflate_pack`: so is a stream packed into bytes, whatever fills the last
  byte and whatever follows;
* `Inflater.exists_stream_of_inflate`: nothing else is decoded.
-/
import Mathlib.Tactic
import Deflate.Proofs.Decoding

namespace Deflate

/-! ### Every length and every distance can be written -/

/-- Spans of numbers that follow each other from `first` on cover all numbers up to
their end. -/
lemma exists_span (extra : ℕ → ℕ) (first : ℕ) {n v : ℕ} (hf : first ≤ v)
    (hv : v < first + ((List.range n).map fun j => 2 ^ extra j).sum) :
    ∃ k more, k < n ∧ more < 2 ^ extra k ∧
      v = first + ((List.range k).map fun j => 2 ^ extra j).sum + more := by
  induction n with
  | zero =>
      simp only [List.range_zero, List.map_nil, List.sum_nil] at hv
      omega
  | succ n ih =>
      rw [List.range_succ, List.map_append, List.sum_append, List.map_singleton,
        List.sum_singleton] at hv
      by_cases h : v < first + ((List.range n).map fun j => 2 ^ extra j).sum
      · obtain ⟨k, more, hk, hm, hv⟩ := ih h
        exact ⟨k, more, hk.trans (Nat.lt_succ_self n), hm, hv⟩
      · obtain ⟨more, hm⟩ := Nat.exists_eq_add_of_le (Nat.le_of_not_lt h)
        exact ⟨n, more, Nat.lt_succ_self n, by omega, hm⟩

/-- A length symbol with extra bits stands for each length from `3` to `258`. -/
theorem exists_lengthBase {length : ℕ} (h3 : 3 ≤ length) (h258 : length ≤ 258) :
    ∃ k more, k < 29 ∧ more < 2 ^ lengthExtra k ∧ length = lengthBase k + more := by
  have hsum : 3 + ((List.range 28).map fun j => 2 ^ lengthExtra j).sum = 259 := by decide
  obtain ⟨k, more, hk, hm, hl⟩ := exists_span lengthExtra 3 (n := 28) h3 (by omega)
  refine ⟨k, more, by omega, hm, ?_⟩
  rw [lengthBase, if_neg (by omega)]
  exact hl

/-- A distance symbol with extra bits stands for each distance from `1` to
`32768`. -/
theorem exists_distanceBase {distance : ℕ} (h1 : 1 ≤ distance) (h : distance ≤ 32768) :
    ∃ k more, k < 30 ∧ more < 2 ^ distanceExtra k ∧ distance = distanceBase k + more := by
  have hsum : 1 + ((List.range 30).map fun j => 2 ^ distanceExtra j).sum = 32769 := by decide
  exact exists_span distanceExtra 1 h1 (by omega)

/-! ### Streams in an input -/

variable {s : Stream} {input : ByteArray}

/-- The bits before a position are held by as many bytes as the input has. -/
lemma Holds.bytesBefore_le {w : List Bool} (h : Holds input 0 w) :
    bytesBefore w.length ≤ input.size := by
  have hl := h.le_size (Nat.zero_le _)
  rw [bytesBefore]
  omega

/-- An input that begins with a stream is decoded to what the stream stands for. -/
lemma Stream.decode_eq (hl : s.Legal) (hs : Holds input 0 s.bits) :
    decode input = .ok (⟨bytesBefore s.bits.length, s.output.length,
      input.size - bytesBefore s.bits.length⟩, ⟨s.output.toArray⟩) :=
  decode_eq_ok_iff.mpr ⟨s, hl, hs, rfl, rfl⟩

lemma Stream.inflate_eq (hl : s.Legal) (hs : Holds input 0 s.bits) (inflater : Inflater)
    (target : ByteArray) :
    (inflater.inflate input target).2 =
      (target ++ ⟨s.output.toArray⟩, .ok ⟨bytesBefore s.bits.length, s.output.length,
        input.size - bytesBefore s.bits.length⟩) :=
  Inflater.inflate_eq_ok_iff.mpr ⟨_, s.decode_eq hl hs, rfl⟩

/-- Filling the last byte adds no byte. -/
lemma bytesBefore_pack {w fill : List Bool} (h8 : 8 ∣ (w ++ fill).length) (hf : fill.length < 8) :
    bytesBefore w.length = (pack (w ++ fill)).size := by
  have hsize := size_pack h8
  rw [List.length_append] at hsize
  rw [bytesBefore]
  omega

/-- No stream is the front of another one, and its bits say what it stands for. -/
theorem Stream.eq_of_prefix {t : Stream} (hs : s.Legal) (ht : t.Legal) (h : s.bits <+: t.bits) :
    s.bits = t.bits ∧ s.output = t.output := by
  obtain ⟨input, hheld⟩ := exists_holds t.bits
  have hr := reaches_stream hs ⟨h.trans hheld, rfl⟩
  have hr' := reaches_stream ht ⟨hheld, rfl⟩
  -- the decode of such an input ends once
  obtain ⟨hc, -⟩ := hr.ends_unique (v := .complete) rfl hr' (w := .complete) rfl
  obtain ⟨hout, hm⟩ := Configuration.mk.inj hc
  have hlen : s.bits.length = t.bits.length := Nat.add_left_cancel (Machine.mk.inj hm).1
  exact ⟨h.eq_of_length hlen, hout⟩

/-- **Decoding undoes writing**: a stream packed into bytes, the last one filled up
with any bits, is decoded to what it stands for, whatever bytes follow. -/
theorem Inflater.inflate_pack (inflater : Inflater) (target : ByteArray) (hs : s.Legal)
    {fill : List Bool} (hf : fill.length < 8) (h8 : 8 ∣ (s.bits ++ fill).length)
    (rest : ByteArray) :
    (inflater.inflate (pack (s.bits ++ fill) ++ rest) target).2 =
      (target ++ ⟨s.output.toArray⟩,
        .ok ⟨(s.bits.length + 7) / 8, s.output.length, rest.size⟩) := by
  have hrest : (pack (s.bits ++ fill) ++ rest).size - bytesBefore s.bits.length = rest.size := by
    rw [bytesBefore_pack h8 hf, ByteArray.size_append, Nat.add_sub_cancel_left]
  rw [s.inflate_eq hs (holds_pack h8 rest), hrest]
  rfl

/-- Codes whose lengths are given with repetitions, one of which runs from the literal
code into the distance code. -/
def mixedHeader : Header where
  literals := 258
  distances := 4
  given := 18
  lengthCode := [0, 2, 2, 0, 0, 0, 0, 0, 0, 0, 0, 0, 0, 0, 0, 0, 2, 0, 2]
  entries := [.moreZeros 97, .length 1, .moreZeros 138, .moreZeros 20, .length 2, .again 5]

/-- A stream with blocks of all kinds. -/
def mixedStream : Stream where
  earlier := [
    .stored [true, false, true, true, true] [104, 105],
    .coded .fixed [.literal (.regular 200), .copy (.regular 284) 31 (.regular 1) 0]]
  last := .coded (.dynamic mixedHeader)
    [.literal (.regular 97), .copy (.regular 257) 0 (.regular 0) 0]

lemma mixedStream_legal : mixedStream.Legal := by
  decide +kernel

lemma length_mixedStream_bits : mixedStream.bits.length = 206 := by
  decide +kernel

lemma length_mixedStream_output : mixedStream.output.length = 265 := by
  decide +kernel

lemma mixedStream_fill : 8 ∣ (mixedStream.bits ++ [true, false]).length := by
  rw [List.length_append, length_mixedStream_bits]
  decide

/-- The stream with blocks of all kinds in 26 bytes, and three more bytes. -/
theorem inflate_pack_mixedStream :
    mixedStream.Legal ∧ [true, false].length < 8 ∧
      8 ∣ (mixedStream.bits ++ [true, false]).length ∧
      (Inflater.fresh.inflate (pack (mixedStream.bits ++ [true, false]) ++ ⟨#[1, 2, 3]⟩)
        ⟨#[9]⟩).2 = (⟨#[9]⟩ ++ ⟨mixedStream.output.toArray⟩, .ok ⟨26, 265, 3⟩) := by
  have h := Inflater.inflate_pack .fresh ⟨#[9]⟩ mixedStream_legal (by decide) mixedStream_fill
    ⟨#[1, 2, 3]⟩
  rw [length_mixedStream_bits, length_mixedStream_output] at h
  exact ⟨mixedStream_legal, by decide, mixedStream_fill, h⟩

/-! ### Nothing but streams is decoded -/

/-- **Writing undoes decoding**: an input that is decoded begins with the bits of a
stream, the counts are those of this stream, and the output is what it stands
for. -/
theorem Inflater.exists_stream_of_inflate {inflater : Inflater} {target out : ByteArray}
    {outcome : Outcome} (h : (inflater.inflate input target).2 = (out, .ok outcome)) :
    ∃ s : Stream, s.Legal ∧ s.bits = (bitsOf input).take s.bits.length ∧
      out = target ++ ⟨s.output.toArray⟩ ∧ outcome.consumed = (s.bits.length + 7) / 8 ∧
      outcome.produced = s.output.length ∧ outcome.consumed + outcome.trailing = input.size := by
  obtain ⟨decoded, hd, rfl⟩ := Inflater.inflate_eq_ok_iff.mp h
  obtain ⟨s, hl, hs, rfl, rfl⟩ := decode_eq_ok_iff.mp hd
  have hprefix : s.bits <+: bitsOf input := hs
  exact ⟨s, hl, List.prefix_iff_eq_take.mp hprefix, rfl, rfl, rfl,
    Nat.add_sub_cancel' hs.bytesBefore_le⟩

/-- The stream with blocks of all kinds in 26 bytes, and one more byte. -/
def mixedBytes : ByteArray :=
  pack (mixedStream.bits ++ [true, false]) ++ ⟨#[7]⟩

lemma holds_mixedBytes : Holds mixedBytes 0 mixedStream.bits :=
  holds_pack mixedStream_fill _

lemma decode_mixedBytes :
    decode mixedBytes =
      .ok (⟨26, 265, mixedBytes.size - 26⟩, ⟨mixedStream.output.toArray⟩) := by
  have h := mixedStream.decode_eq mixedStream_legal holds_mixedBytes
  rw [length_mixedStream_bits, length_mixedStream_output] at h
  exact h

lemma inflate_mixedBytes :
    (Inflater.fresh.inflate mixedBytes .empty).2 =
      (.empty ++ ⟨mixedStream.output.toArray⟩, .ok ⟨26, 265, mixedBytes.size - 26⟩) :=
  Inflater.inflate_eq_ok_iff.mpr ⟨_, decode_mixedBytes, rfl⟩

/-- A stream is found in these bytes. -/
theorem exists_stream_of_inflate_mixedBytes :
    (Inflater.fresh.inflate mixedBytes .empty).2 =
        (.empty ++ ⟨mixedStream.output.toArray⟩, .ok ⟨26, 265, mixedBytes.size - 26⟩) ∧
      ∃ s : Stream, s.Legal ∧ s.bits = (bitsOf mixedBytes).take s.bits.length ∧
        .empty ++ ⟨mixedStream.output.toArray⟩ = ByteArray.empty ++ ⟨s.output.toArray⟩ ∧
        26 = (s.bits.length + 7) / 8 ∧ 265 = s.output.length ∧
        26 + (mixedBytes.size - 26) = mixedBytes.size :=
  ⟨inflate_mixedBytes, Inflater.exists_stream_of_inflate inflate_mixedBytes⟩

end Deflate

/-
The verdict on an input is decided by a front part of it.

* `bitsOf_extract` and `Holds.extract`: the bits of a front part;
* `decode_ok_append` and `decode_corrupt_append`: a verdict is not changed by what
  follows;
* `decode_extract_cases`: a front part that gives a verdict gives that of the whole;
* `Inflater.inflate_prefix_stable`: the consumed bytes of a stream, and the bytes up
  to the offset of an error, decide the verdict, and no shorter front part does.
-/
import Mathlib.Tactic
import Deflate.Proofs.Rejection

namespace Deflate

/-! ### Front parts of an input -/

lemma bitsOfBytes_take (bytes : List UInt8) (n : ℕ) :
    bitsOfBytes (bytes.take n) = (bitsOfBytes bytes).take (8 * n) := by
  induction bytes generalizing n with
  | nil => simp
  | cons byte bytes ih =>
      cases n with
      | zero => simp
      | succ n =>
          have hlen : 8 * (n + 1) = (field 8 byte.toNat).length + 8 * n := by
            rw [length_field]
            omega
          rw [List.take_succ_cons, bitsOfBytes_cons, bitsOfBytes_cons, ih, hlen,
            List.take_length_add_append]

lemma bitsOf_extract (input : ByteArray) (n : ℕ) :
    bitsOf (input.extract 0 n) = (bitsOf input).take (8 * n) := by
  rw [bitsOf, bitsOf, ← bitsOfBytes_take, ByteArray.data_extract, Array.toList_extract]
  simp

namespace Holds

variable {input : ByteArray} {w : List Bool}

lemma extract (h : Holds input 0 w) {n : ℕ} (hn : w.length ≤ 8 * n) :
    Holds (input.extract 0 n) 0 w := by
  rw [Holds, List.drop_zero] at h ⊢
  rw [bitsOf_extract]
  exact List.prefix_take_iff.mpr ⟨h, hn⟩

lemma append_right (h : Holds input 0 w) (more : ByteArray) : Holds (input ++ more) 0 w := by
  rw [Holds, List.drop_zero] at h ⊢
  rw [bitsOf_append]
  exact h.trans (List.prefix_append _ _)

end Holds

lemma extract_append_extract {input : ByteArray} {n : ℕ} (hn : n ≤ input.size) :
    input.extract 0 n ++ input.extract n input.size = input := by
  rw [← ByteArray.extract_eq_extract_append_extract n (Nat.zero_le n) hn,
    ByteArray.extract_zero_size]

lemma size_extract {input : ByteArray} {n : ℕ} (hn : n ≤ input.size) :
    (input.extract 0 n).size = n := by
  rw [ByteArray.size_extract, Nat.min_eq_left hn, Nat.sub_zero]

/-! ### Verdicts on front parts -/

variable {input decoded : ByteArray} {outcome : Outcome} {offset : ℕ} {detail : String}

lemma consumed_add_trailing (h : decode input = .ok (outcome, decoded)) :
    outcome.consumed + outcome.trailing = input.size := by
  obtain ⟨s, -, hs, rfl, -⟩ := decode_eq_ok_iff.mp h
  exact Nat.add_sub_cancel' hs.bytesBefore_le

lemma produced_eq_size (h : decode input = .ok (outcome, decoded)) :
    outcome.produced = decoded.size := by
  obtain ⟨s, -, -, rfl, rfl⟩ := decode_eq_ok_iff.mp h
  rfl

lemma offset_le (h : decode input = .error (.corrupt offset detail)) : offset ≤ input.size := by
  obtain ⟨-, p, w, counted, -, hf, hs, rfl⟩ := decode_eq_corrupt_iff.mp h
  have hle := hs.le_size (Nat.zero_le _)
  have hc := hf.counted_le
  rw [List.length_append] at hle
  rw [bytesBefore]
  omega

/-- The consumed bytes decide the outcome. -/
lemma decode_ok_extract_append (h : decode input = .ok (outcome, decoded)) (more : ByteArray) :
    decode (input.extract 0 outcome.consumed ++ more) =
      .ok ({ outcome with trailing := more.size }, decoded) := by
  have hsize := size_extract ((Nat.le_add_right _ _).trans_eq (consumed_add_trailing h))
  obtain ⟨s, hl, hs, rfl, rfl⟩ := decode_eq_ok_iff.mp h
  dsimp only at hsize ⊢
  have hbits : s.bits.length ≤ 8 * bytesBefore s.bits.length := by
    rw [bytesBefore]
    omega
  refine decode_eq_ok_iff.mpr ⟨s, hl, (hs.extract hbits).append_right more, ?_, rfl⟩
  rw [ByteArray.size_append, hsize, Nat.add_sub_cancel_left]

/-- What follows a stream does not change its outcome. -/
lemma decode_ok_append (h : decode input = .ok (outcome, decoded)) (more : ByteArray) :
    decode (input ++ more) =
      .ok ({ outcome with trailing := outcome.trailing + more.size }, decoded) := by
  have hle := consumed_add_trailing h
  obtain ⟨s, hl, hs, rfl, rfl⟩ := decode_eq_ok_iff.mp h
  refine decode_eq_ok_iff.mpr ⟨s, hl, hs.append_right more, ?_, rfl⟩
  dsimp only at hle ⊢
  rw [ByteArray.size_append, Nat.sub_add_comm hs.bytesBefore_le]

/-- What follows an item that is not allowed does not change the error. -/
lemma decode_corrupt_append (h : decode input = .error (.corrupt offset detail))
    (more : ByteArray) : decode (input ++ more) = .error (.corrupt offset detail) := by
  obtain ⟨hd, p, w, counted, hl, hf, hs, ho⟩ := decode_eq_corrupt_iff.mp h
  exact decode_eq_corrupt_iff.mpr ⟨hd, p, w, counted, hl, hf, hs.append_right more, ho⟩

/-- A front part that gives a verdict gives that of the whole. -/
lemma decode_extract_cases {n : ℕ} (hn : n ≤ input.size) :
    (∃ outcome decoded, decode input = .ok (outcome, decoded) ∧ outcome.consumed ≤ n) ∨
      (∃ offset, decode input = .error (.corrupt offset DecodeError.badItem) ∧ offset ≤ n) ∨
        ∃ produced, decode (input.extract 0 n) = .error (.truncated n produced) := by
  have hsize := size_extract hn
  -- a verdict on the front part stays when the rest of the input is put back
  rcases decode_cases (input.extract 0 n) with ⟨outcome, decoded, h⟩ | ⟨produced, h⟩ | ⟨offset, h⟩
  · have hle := consumed_add_trailing h
    have happ := decode_ok_append h (input.extract n input.size)
    rw [extract_append_extract hn] at happ
    exact .inl ⟨_, _, happ, by dsimp only; omega⟩
  · rw [hsize] at h
    exact .inr (.inr ⟨produced, h⟩)
  · have hle := offset_le h
    have happ := decode_corrupt_append h (input.extract n input.size)
    rw [extract_append_extract hn] at happ
    exact .inr (.inl ⟨offset, happ, by omega⟩)

/-- Less than the consumed bytes is too little. -/
lemma decode_extract_of_ok (h : decode input = .ok (outcome, decoded)) {n : ℕ}
    (hn : n < outcome.consumed) :
    ∃ produced, decode (input.extract 0 n) = .error (.truncated n produced) := by
  have hle := consumed_add_trailing h
  have hn' : n ≤ input.size := by omega
  rcases decode_extract_cases hn' with ⟨o, d, h', ho⟩ | ⟨k, h', -⟩ | h'
  · obtain ⟨rfl, -⟩ := Prod.mk.inj (Except.ok.inj (h.symm.trans h'))
    omega
  · cases h.symm.trans h'
  · exact h'

/-- Less than the bytes up to the offset is too little. -/
lemma decode_extract_of_corrupt (h : decode input = .error (.corrupt offset detail)) {n : ℕ}
    (hn : n < offset) :
    ∃ produced, decode (input.extract 0 n) = .error (.truncated n produced) := by
  have hle := offset_le h
  have hn' : n ≤ input.size := by omega
  rcases decode_extract_cases hn' with ⟨o, d, h', -⟩ | ⟨k, h', hk⟩ | h'
  · cases h.symm.trans h'
  · obtain ⟨rfl, -⟩ := DecodeError.corrupt.inj (Except.error.inj (h.symm.trans h'))
    omega
  · exact h'

lemma consumed_of_truncated {consumed produced : ℕ}
    (h : decode input = .error (.truncated consumed produced)) : consumed = input.size := by
  rcases decode_cases input with ⟨o, d, h'⟩ | ⟨p, h'⟩ | ⟨k, h'⟩
  · cases h.symm.trans h'
  · exact (DecodeError.truncated.inj (Except.error.inj (h.symm.trans h'))).1
  · cases h.symm.trans h'

/-! ### The verdict of an inflater -/

/-- **The verdict is decided by a front part**: a stream is decoded alike whatever
follows its consumed bytes, and an error stays whatever follows; a front part that is
shorter than the consumed bytes, or does not reach the offset, is truncated; and an
input is truncated at its end only. -/
theorem Inflater.inflate_prefix_stable (i j : Inflater) (input s t : ByteArray) :
    (∀ outcome decoded, (i.inflate input s).2 = (s ++ decoded, .ok outcome) →
      (∀ more, (j.inflate (input.extract 0 outcome.consumed ++ more) t).2 =
        (t ++ decoded, .ok { outcome with trailing := more.size })) ∧
      ∀ n < outcome.consumed, ∃ produced,
        (j.inflate (input.extract 0 n) t).2 = (t, .error (.truncated n produced))) ∧
    (∀ offset detail, (i.inflate input s).2.2 = .error (.corrupt offset detail) →
      (∀ more, (j.inflate (input ++ more) t).2 = (t, .error (.corrupt offset detail))) ∧
      ∀ n < offset, ∃ produced,
        (j.inflate (input.extract 0 n) t).2 = (t, .error (.truncated n produced))) ∧
    ∀ consumed produced, (i.inflate input s).2.2 = .error (.truncated consumed produced) →
      consumed = input.size := by
  have herror : ∀ e, (i.inflate input s).2.2 = .error e → decode input = .error e := fun e h =>
    (Inflater.inflate_eq_error_iff.mp (Prod.ext rfl h)).1
  refine ⟨fun outcome decoded h => ?_, fun offset detail h => ?_, fun consumed produced h => ?_⟩
  · obtain ⟨_, hd, hout⟩ := Inflater.inflate_eq_ok_iff.mp h
    obtain rfl := (ByteArray.append_right_inj s).mp hout
    refine ⟨fun more => ?_, fun n hn => ?_⟩
    · exact Inflater.inflate_eq_ok_iff.mpr ⟨_, decode_ok_extract_append hd more, rfl⟩
    · obtain ⟨produced, ht⟩ := decode_extract_of_ok hd hn
      exact ⟨produced, Inflater.inflate_eq_error_iff.mpr ⟨ht, rfl⟩⟩
  · have hd := herror _ h
    refine ⟨fun more => ?_, fun n hn => ?_⟩
    · exact Inflater.inflate_eq_error_iff.mpr ⟨decode_corrupt_append hd more, rfl⟩
    · obtain ⟨produced, ht⟩ := decode_extract_of_corrupt hd hn
      exact ⟨produced, Inflater.inflate_eq_error_iff.mpr ⟨ht, rfl⟩⟩
  · exact consumed_of_truncated (herror _ h)

/-- A block of the fourth kind in one byte. -/
def fourthKind : ByteArray :=
  ⟨#[6]⟩

lemma inflate_fourthKind :
    (Inflater.fresh.inflate fourthKind .empty).2 =
      (.empty, .error (.corrupt 1 DecodeError.badItem)) := by
  have he : Ends fourthKind .start (.corrupt 3) := ends_head_iff.mpr rfl
  exact Inflater.inflate_eq_error_iff.mpr ⟨decode_eq_of_reaches .refl he, rfl⟩

lemma inflate_empty :
    (Inflater.fresh.inflate .empty .empty).2 = (.empty, .error (.truncated 0 0)) := by
  have he : Ends .empty .start .starved := rfl
  exact Inflater.inflate_eq_error_iff.mpr ⟨decode_eq_of_reaches .refl he, rfl⟩

/-- A stream of 26 bytes needs them all and nothing after them, a block of the fourth
kind needs its byte, and the empty input is truncated at its end. -/
theorem inflate_prefix_stable_mixedBytes :
    (∀ more, (Inflater.fresh.inflate (mixedBytes.extract 0 26 ++ more) .empty).2 =
      (.empty ++ ⟨mixedStream.output.toArray⟩, .ok ⟨26, 265, more.size⟩)) ∧
    (∃ produced, (Inflater.fresh.inflate (mixedBytes.extract 0 25) .empty).2 =
      (.empty, .error (.truncated 25 produced))) ∧
    (∀ more, (Inflater.fresh.inflate (fourthKind ++ more) .empty).2 =
      (.empty, .error (.corrupt 1 DecodeError.badItem))) ∧
    (∃ produced, (Inflater.fresh.inflate (fourthKind.extract 0 0) .empty).2 =
      (.empty, .error (.truncated 0 produced))) ∧
    0 = ByteArray.empty.size := by
  obtain ⟨hok, -, -⟩ := Inflater.inflate_prefix_stable .fresh .fresh mixedBytes .empty .empty
  obtain ⟨-, hcorrupt, -⟩ := Inflater.inflate_prefix_stable .fresh .fresh fourthKind .empty .empty
  obtain ⟨-, -, htruncated⟩ := Inflater.inflate_prefix_stable .fresh .fresh .empty .empty .empty
  obtain ⟨hmore, hless⟩ := hok _ _ inflate_mixedBytes
  obtain ⟨hmore', hless'⟩ := hcorrupt _ _ (congrArg Prod.snd inflate_fourthKind)
  exact ⟨hmore, hless 25 (by decide), hmore', hless' 0 (by decide),
    htruncated _ _ (congrArg Prod.snd inflate_empty)⟩

end Deflate

/-
How much output the bits of an input can give.

* `BlockCodes.two_le_of_copy`: a copy takes at least two bits;
* `Configuration.due`: the bytes of output, those a copy still owes included;
* `Moves.due_le` and `Reaches.due_le`: no move adds more than 129 bytes for each bit it
  reads, so neither does a decode between any two of its configurations;
* `Inflater.inflate_expansion`: so no input expands to more than 1032 times its size.
-/
import Mathlib.Tactic
import Deflate.Proofs.Growing
import Deflate.Proofs.Rejection

namespace Deflate

variable {input : ByteArray} {c d : Configuration}

/-! ### The bits of a copy -/

namespace BlockCodes

variable {codes : BlockCodes} {pos next length distance : ℕ}

/-- After the length of a copy at least one more bit is read. -/
lemma steps_copyOf (codes : BlockCodes) (length : ℕ) : BitReader.Steps (codes.copyOf length) := by
  refine codes.distance.steps_symbol.bind fun symbol => ?_
  refine (BitReader.advances_accept _).bind fun span => ?_
  exact span.advances_number.bind fun _ => BitReader.advances_pure _

/-- After the first symbol of a copy at least one more bit is read. -/
lemma lt_of_tokenOf_copy {symbol : ℕ} (hpos : pos ≤ 8 * input.size)
    (h : codes.tokenOf symbol input pos = .done (.copy length distance) next) : pos < next := by
  rw [tokenOf] at h
  split at h
  · cases h
  · split at h
    · cases h
    · obtain ⟨span, mid, hspan, h⟩ := BitReader.bind_eq_done.mp h
      obtain ⟨v, last, hv, h⟩ := BitReader.bind_eq_done.mp h
      have hmid : mid = pos := (BitReader.accept_eq_done hspan).2
      calc pos = mid := hmid.symm
        _ ≤ last := (span.advances_number hv (hmid.le.trans hpos)).1
        _ < next := (codes.steps_copyOf v h).1

/-- A copy takes at least two bits, however short the words of its two symbols are. -/
lemma two_le_of_copy (h : codes.token input pos = .done (.copy length distance) next) :
    pos + 2 ≤ next := by
  obtain ⟨symbol, mid, hsymbol, h⟩ := BitReader.bind_eq_done.mp h
  obtain ⟨hlt, hsize⟩ := codes.literal.steps_symbol hsymbol
  calc pos + 2 ≤ mid + 1 := Nat.succ_le_succ hlt
    _ ≤ next := lt_of_tokenOf_copy hsize h

end BlockCodes

/-! ### What is due -/

/-- The bytes of output that a phase still owes. -/
def Phase.owed : Phase → ℕ
  | .copying _ _ _ left => left
  | _ => 0

section Owed

variable (final : Bool) (codes : BlockCodes) (distance left : ℕ)

@[simp] lemma owed_head : Phase.head.owed = 0 := rfl

@[simp] lemma owed_stored : (Phase.stored final left).owed = 0 := rfl

@[simp] lemma owed_coded : (Phase.coded final codes).owed = 0 := rfl

@[simp] lemma owed_copying : (Phase.copying final codes distance left).owed = left := rfl

@[simp] lemma owed_after : (Phase.after final).owed = 0 := by
  cases final <;> rfl

end Owed

/-- The bytes of output, those included that a copy still owes. -/
def Configuration.due (c : Configuration) : ℕ :=
  c.output.length + c.machine.phase.owed

/-- A copy counts in full when its symbols are read, at 129 bytes for each of at least two
bits; every other byte has bits of its own. -/
lemma Moves.due_le (h : Moves input c d) :
    d.due + 129 * c.machine.position ≤ c.due + 129 * d.machine.position := by
  have hpos := h.position_le
  cases h with
  | storedHead hr => simpa [Configuration.due] using hpos
  | codedHead hr => simpa [Configuration.due] using hpos
  | storedByte hr =>
      have hbits := (BitReader.steps_byte hr).1
      simp only [Configuration.due, owed_stored, List.length_append, List.length_singleton]
      omega
  | storedEnd => simp [Configuration.due]
  | literal hr =>
      have hbits := (BlockCodes.steps_token _ hr).1
      simp only [Configuration.due, owed_coded, List.length_append, List.length_singleton]
      omega
  | copy hr hd =>
      have hbits := BlockCodes.two_le_of_copy hr
      have hlength := (BlockCodes.token_eq_copy hr).2.1
      simp only [Configuration.due, owed_coded, owed_copying]
      omega
  | codedEnd hr => simpa [Configuration.due] using hpos
  | copyByte =>
      simp only [Configuration.due, owed_copying, List.length_append, List.length_singleton]
      omega
  | copyEnd => simp [Configuration.due]

/-- Between any two configurations of a decode at most 129 bytes of output are added for
each bit read. -/
theorem Reaches.due_le (h : Reaches input c d) :
    d.due + 129 * c.machine.position ≤ c.due + 129 * d.machine.position := by
  induction h with
  | refl => exact Nat.le_refl _
  | tail _ hm ih =>
      have hstep := hm.due_le
      omega

/-- The output of a decode is at most 129 times the bits read. -/
lemma Reaches.length_output_le (h : Reaches input .start c) :
    c.output.length ≤ 129 * c.machine.position := by
  have hstart : Configuration.start.due = 0 := rfl
  calc c.output.length ≤ c.due := Nat.le_add_right _ _
    _ ≤ Configuration.start.due + 129 * c.machine.position := h.due_le
    _ = 129 * c.machine.position := by rw [hstart, Nat.zero_add]

/-! ### What a decode reports -/

/-- A position counts as the bytes up to it, the last of them begun. -/
lemma le_bytesBefore (pos : ℕ) : pos ≤ 8 * bytesBefore pos := by
  rw [bytesBefore]
  omega

/-- The output is at most 1032 times the bytes counted as read. -/
lemma Reaches.length_output_le_consumed (h : Reaches input .start c) :
    c.output.length ≤ 1032 * bytesBefore c.machine.position := by
  calc c.output.length ≤ 129 * c.machine.position := h.length_output_le
    _ ≤ 129 * (8 * bytesBefore c.machine.position) :=
        Nat.mul_le_mul_left 129 (le_bytesBefore _)
    _ = 1032 * bytesBefore c.machine.position := by omega

/-- The output is at most 1032 times the input. -/
lemma Reaches.length_output_le_size (h : Reaches input .start c) :
    c.output.length ≤ 1032 * input.size := by
  calc c.output.length ≤ 129 * c.machine.position := h.length_output_le
    _ ≤ 129 * (8 * input.size) := Nat.mul_le_mul_left 129 h.position_le_size
    _ = 1032 * input.size := by omega

lemma produced_le_of_decode {outcome : Outcome} {decoded : ByteArray}
    (h : decode input = .ok (outcome, decoded)) : outcome.produced ≤ 1032 * outcome.consumed := by
  obtain ⟨c, v, hr, -, hd⟩ := exists_reaches input
  rw [hd] at h
  cases v with
  | complete =>
      cases h
      exact hr.length_output_le_consumed
  | starved => cases h
  | corrupt stop => cases h

lemma produced_le_of_truncated {seen produced : ℕ}
    (h : decode input = .error (.truncated seen produced)) : produced ≤ 1032 * input.size := by
  obtain ⟨c, v, hr, -, hd⟩ := exists_reaches input
  rw [hd] at h
  cases v with
  | complete => cases h
  | starved =>
      cases h
      exact hr.length_output_le_size
  | corrupt stop => cases h

/-- Each round in a buffer leaves a configuration of the decode from the start. -/
lemma reaches_of_rounds {growth : Growth} {size : ℕ} {x : Buffer × Machine}
    (h : Rounds growth input (.ofSize size, .start) x) :
    Reaches input .start
      ((run input x.1 x.2).buffer.configuration (run input x.1 x.2).machine) := by
  have hstart : (Buffer.ofSize size).configuration .start = .start := configuration_ofSize size
  obtain ⟨hreach, hin⟩ := Rounds.reaches h (hstart ▸ trivial)
  rw [hstart] at hreach
  exact hreach.trans (run_reaches input hin).1

/-- **Expansion is bounded on every input**, whether it is a stream or not: a decode that
succeeds produces at most 1032 bytes for each byte it counts as consumed, one that is
truncated at most 1032 for each byte of the input. Wherever a decode has got, and however it
will end, its output is at most 129 times the bits it has read, and these are bits of the
input; so each round in a buffer of any size and growth leaves no more than that in the
buffer. -/
theorem Inflater.inflate_expansion (input : ByteArray) :
    (∀ (inflater : Inflater) (target out : ByteArray) (outcome : Outcome),
      (inflater.inflate input target).2 = (out, .ok outcome) →
      outcome.produced ≤ 1032 * outcome.consumed) ∧
    (∀ (inflater : Inflater) (target out : ByteArray) (seen produced : ℕ),
      (inflater.inflate input target).2 = (out, .error (.truncated seen produced)) →
      produced ≤ 1032 * input.size) ∧
    (∀ c, Reaches input .start c →
      c.output.length ≤ 129 * c.machine.position ∧ c.machine.position ≤ 8 * input.size) ∧
    ∀ (growth : Growth) (size : ℕ) (x : Buffer × Machine),
      Rounds growth input (.ofSize size, .start) x →
      (run input x.1 x.2).buffer.filled ≤ 129 * (run input x.1 x.2).machine.position := by
  refine ⟨?_, ?_, ?_, ?_⟩
  · intro inflater target out outcome h
    obtain ⟨decoded, hd, -⟩ := Inflater.inflate_eq_ok_iff.mp h
    exact produced_le_of_decode hd
  · intro inflater target out seen produced h
    exact produced_le_of_truncated (Inflater.inflate_eq_error_iff.mp h).1
  · intro c hc
    exact ⟨hc.length_output_le, hc.position_le_size⟩
  · intro growth size x hx
    have hlen := (reaches_of_rounds hx).length_output_le
    rw [Buffer.length_output] at hlen
    exact hlen

/-- Two stored bytes, a literal byte, and a copy from four bytes before. -/
def threeBytesAndCopy : ByteArray :=
  pack (threeBytes.bits ++ farCopy.bits .fixed ++ [true])

lemma holds_threeBytesAndCopy :
    Holds threeBytesAndCopy 0 (threeBytes.bits ++ farCopy.bits .fixed) := by
  have h8 : 8 ∣ (threeBytes.bits ++ farCopy.bits .fixed ++ [true]).length := by decide +kernel
  rw [Holds, threeBytesAndCopy, bitsOf_pack h8]
  exact List.prefix_append _ _

/-- The copy is refused after three bytes of output. -/
lemma reaches_threeBytes :
    ∃ c stop, Reaches threeBytesAndCopy .start c ∧ Ends threeBytesAndCopy c (.corrupt stop) ∧
      c.output.length = 3 := by
  have hl : threeBytes.Legal := by decide +kernel
  have hf : Flaw threeBytes (farCopy.bits .fixed) (farCopy.bits .fixed).length :=
    .reach true .fixed _ farCopy rfl (by decide +kernel) (by decide +kernel)
  obtain ⟨hp, hw⟩ := Holds.append_iff.mp holds_threeBytesAndCopy
  have hat : threeBytes.IsAt threeBytesAndCopy (0 + threeBytes.bits.length) threeBytes.output :=
    ⟨hl, ⟨hp, rfl⟩, rfl⟩
  have hlen : threeBytes.output.length = 3 := by decide +kernel
  exact ⟨_, _, reaches_progress hat, hat.ends hf hw, hlen⟩

/-- A stream of 26 bytes, the first eleven of them, a decode that will be found corrupt, and
a buffer of five bytes. -/
theorem inflate_expansion_mixedBytes :
    (Inflater.fresh.inflate mixedBytes .empty).2 =
        (.empty ++ ⟨mixedStream.output.toArray⟩, .ok ⟨26, 265, mixedBytes.size - 26⟩) ∧
      265 ≤ 1032 * 26 ∧
      (Inflater.fresh.inflate elevenBytes .empty).2 =
        (.empty, .error (.truncated elevenBytes.size 261)) ∧
      261 ≤ 1032 * elevenBytes.size ∧
      (∃ c stop, Reaches threeBytesAndCopy .start c ∧
        Ends threeBytesAndCopy c (.corrupt stop) ∧ c.output.length = 3 ∧
        3 ≤ 129 * c.machine.position ∧ c.machine.position ≤ 8 * threeBytesAndCopy.size) ∧
      (run mixedBytes (.ofSize 5) .start).buffer.filled ≤
        129 * (run mixedBytes (.ofSize 5) .start).machine.position := by
  obtain ⟨hok, -, -, hrun⟩ := Inflater.inflate_expansion mixedBytes
  obtain ⟨-, htruncated, -, -⟩ := Inflater.inflate_expansion elevenBytes
  obtain ⟨-, -, hreached, -⟩ := Inflater.inflate_expansion threeBytesAndCopy
  obtain ⟨c, stop, hr, he, hlen⟩ := reaches_threeBytes
  obtain ⟨d, hd, hcount⟩ := runFreely_elevenBytes
  have heleven : (Inflater.fresh.inflate elevenBytes .empty).2 =
      (.empty, .error (.truncated elevenBytes.size 261)) := by
    refine Inflater.inflate_eq_error_iff.mpr ⟨?_, rfl⟩
    rw [decode_eq_runFreely, hd, ← hcount]
    rfl
  exact ⟨inflate_mixedBytes, hok _ _ _ _ inflate_mixedBytes, heleven, htruncated _ _ _ _ _ heleven,
    ⟨c, stop, hr, he, hlen, hlen ▸ hreached c hr⟩, hrun .byOne 5 _ .refl⟩

end Deflate

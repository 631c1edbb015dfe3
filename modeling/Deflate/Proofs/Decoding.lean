/-
What a decode gives.

* `exists_reaches` and `decode_eq_of_reaches`: what a decode gives is what is said of
  the configuration where it ends;
* `decode_eq_ok_iff` and `decode_eq_corrupt_iff`: it succeeds exactly on streams, and finds
  the input corrupt exactly where an item is not allowed;
* `Inflater.inflate_eq` and `inflateAlone_eq`: an inflater gives what a decode gives.
-/
import Mathlib.Tactic
import Deflate.Proofs.Counts

namespace Deflate

variable {input : ByteArray} {c : Configuration}

/-! ### Where a decode ends -/

lemma report_eq (b : Buffer) (m : Machine) (v : Verdict) :
    report input b m v = (b.configuration m).report input v := by
  cases v with
  | complete =>
      rw [report, Configuration.report, Buffer.length_output]
      rfl
  | starved => rw [report, Configuration.report, Buffer.length_output]
  | corrupt stop => rfl

/-- What a decode gives is what is said of the configuration where it ends. -/
theorem exists_reaches (input : ByteArray) :
    ∃ c v, Reaches input .start c ∧ Ends input c v ∧ decode input = c.report input v := by
  obtain ⟨h, hv⟩ := runGrowing_reaches .doubling input (b := .ofSize (initialSize input.size))
    (m := .start) trivial
  rw [configuration_ofSize] at h
  exact ⟨_, _, h, hv, (report_runStream input).trans (report_eq ..)⟩

theorem decode_eq_of_reaches {v : Verdict} (h : Reaches input .start c) (hv : Ends input c v) :
    decode input = c.report input v := by
  obtain ⟨d, w, h', hw, hd⟩ := exists_reaches input
  obtain ⟨rfl, rfl⟩ := h.ends_unique hv h' hw
  exact hd

/-! ### Streams and items that are not allowed -/

/-- A decode succeeds exactly on the streams that can be written. -/
theorem decode_eq_ok_iff {outcome : Outcome} {decoded : ByteArray} :
    decode input = .ok (outcome, decoded) ↔
      ∃ s : Stream, s.Legal ∧ Holds input 0 s.bits ∧
        outcome = ⟨bytesBefore s.bits.length, s.output.length,
          input.size - bytesBefore s.bits.length⟩ ∧
        decoded = ⟨s.output.toArray⟩ := by
  constructor
  · intro h
    obtain ⟨c, v, hr, he, hd⟩ := exists_reaches input
    rw [hd] at h
    cases v with
    | complete =>
        obtain ⟨out, pos, phase⟩ := c
        obtain rfl : phase = .finished := he.phase_eq_finished
        obtain ⟨s, hl, hs, rfl⟩ := hr.parsed
        obtain rfl : pos = s.bits.length := hs.2.trans (Nat.zero_add _)
        cases h
        exact ⟨s, hl, hs.1, rfl, rfl⟩
    | starved => cases h
    | corrupt stop => cases h
  · rintro ⟨s, hl, hs, rfl, rfl⟩
    have hr := reaches_stream hl ⟨hs, rfl⟩
    rw [decode_eq_of_reaches (v := .complete) hr rfl, Nat.zero_add]
    rfl

/-- A decode finds the input corrupt exactly where the front of a stream is followed
by an item that is not allowed. -/
theorem decode_eq_corrupt_iff {offset : ℕ} {detail : String} :
    decode input = .error (.corrupt offset detail) ↔
      detail = DecodeError.badItem ∧
        ∃ p w counted, p.Legal ∧ Flaw p w counted ∧ Holds input 0 (p.bits ++ w) ∧
          offset = bytesBefore (p.bits.length + counted) := by
  constructor
  · intro h
    obtain ⟨c, v, hr, he, hd⟩ := exists_reaches input
    rw [hd] at h
    cases v with
    | complete => cases h
    | starved => cases h
    | corrupt stop =>
        cases h
        obtain ⟨p, w, counted, hp, hf, hw, rfl⟩ := hr.parsed.flaw he
        refine ⟨rfl, p, w, counted, hp.legal, hf, hp.spells.holds_append_iff.mpr hw, ?_⟩
        rw [hp.position_eq]
  · rintro ⟨rfl, p, w, counted, hl, hf, hw, rfl⟩
    obtain ⟨hp, hw⟩ := Holds.append_iff.mp hw
    have hat : p.IsAt input (0 + p.bits.length) p.output := ⟨hl, ⟨hp, rfl⟩, rfl⟩
    rw [decode_eq_of_reaches (reaches_progress hat) (hat.ends hf hw), Nat.zero_add]
    rfl

/-- A decode that neither succeeds nor finds the input corrupt is truncated, and has
looked at the whole input. -/
lemma decode_cases (input : ByteArray) :
    (∃ outcome decoded, decode input = .ok (outcome, decoded)) ∨
      (∃ produced, decode input = .error (.truncated input.size produced)) ∨
        ∃ offset, decode input = .error (.corrupt offset DecodeError.badItem) := by
  obtain ⟨c, v, -, -, hd⟩ := exists_reaches input
  rw [hd]
  cases v with
  | complete => exact .inl ⟨_, _, rfl⟩
  | starved => exact .inr (.inl ⟨_, rfl⟩)
  | corrupt stop => exact .inr (.inr ⟨_, rfl⟩)

/-! ### Inflaters -/

/-- An inflater gives what a decode gives, and appends the output to its
target. -/
lemma Inflater.inflate_eq (inflater : Inflater) (input target : ByteArray) :
    (inflater.inflate input target).2 =
      match decode input with
      | .ok (outcome, decoded) => (target ++ decoded, .ok outcome)
      | .error e => (target, .error e) := by
  have hstart : inflater.reset.machine = .start := rfl
  rw [Inflater.inflate, decode, hstart]
  rcases runStream input .start with ⟨buffer, m, verdict, counts⟩
  dsimp only
  cases counts.report input.size buffer verdict with
  | ok r => exact congrArg (·, _) (Inflater.append_eq target r.2)
  | error e => rfl

namespace Inflater

variable {inflater : Inflater} {input target out : ByteArray}

lemma inflate_eq_ok_iff {outcome : Outcome} :
    (inflater.inflate input target).2 = (out, .ok outcome) ↔
      ∃ decoded, decode input = .ok (outcome, decoded) ∧ out = target ++ decoded := by
  rw [inflate_eq]
  cases decode input with
  | ok r => simp [Prod.ext_iff, eq_comm, and_comm]
  | error e => simp

lemma inflate_eq_error_iff {e : DecodeError} :
    (inflater.inflate input target).2 = (out, .error e) ↔
      decode input = .error e ∧ out = target := by
  rw [inflate_eq]
  cases decode input with
  | ok r => simp
  | error e' => simp [eq_comm, and_comm]

lemma decode_of_inflate_error {e : DecodeError}
    (h : (inflater.inflate input target).2.2 = .error e) : decode input = .error e :=
  (inflate_eq_error_iff.mp (Prod.ext rfl h)).1

end Inflater

/-- An input decoded by itself gives the output of its decode. -/
lemma inflateAlone_eq (input : ByteArray) :
    inflateAlone input =
      match decode input with
      | .ok (_, decoded) => .ok decoded
      | .error e => .error e := by
  rw [inflateAlone, Inflater.inflate_eq]
  cases decode input with
  | ok r =>
      dsimp only
      rw [ByteArray.empty_append]
  | error e => rfl

lemma inflateAlone_eq_ok_iff {input output : ByteArray} :
    inflateAlone input = .ok output ↔ ∃ outcome, decode input = .ok (outcome, output) := by
  rw [inflateAlone_eq]
  cases decode input with
  | ok r => simp [Prod.ext_iff]
  | error e => simp

lemma inflateAlone_eq_error_iff {input : ByteArray} {e : DecodeError} :
    inflateAlone input = .error e ↔ decode input = .error e := by
  rw [inflateAlone_eq]
  cases decode input with
  | ok r => simp
  | error e' => simp

end Deflate

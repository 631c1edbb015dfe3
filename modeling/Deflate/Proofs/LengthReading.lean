/-
Reading a list of code lengths.

* `runOf_eq_done` and `runOf_eq_bad`: an entry after its symbol;
* `lengthRun_eq_done`: an entry is read exactly where it is held;
* `codeLengths_succ_eq_done` and `codeLengths_succ_eq_bad`: an entry and the lengths
  missing after it;
* `codeLengths_eq_done` and `codeLengths_eq_bad`: a list of code lengths is read
  exactly where entries for it are held, and refused exactly where an entry is that
  is not allowed.
-/
import Mathlib.Tactic
import Deflate.Proofs.TokenReading

namespace Deflate

namespace Block

variable {input : ByteArray} {pos next stop : ℕ}

/-! ### Entries -/

lemma runOf_length {last : Option ℕ} {symbol : ℕ} (h : symbol ≤ 15) :
    runOf last symbol = pure ⟨symbol, 0⟩ := by
  rw [runOf.eq_def]
  split
  · omega
  · omega
  · omega
  · rfl

/-- A repetition of a length: at least `less + 1` times it, the extra bits telling how
often. -/
lemma repeat_eq_done {l less n : ℕ} {run : LengthRun} :
    (do return (⟨l, less + (← BitReader.bits n)⟩ : LengthRun) : BitReader LengthRun) input pos =
        .done run next ↔
      ∃ times, less + 1 ≤ times ∧ times ≤ less + 2 ^ n ∧ run = ⟨l, times - 1⟩ ∧
        Spells input pos (field n (times - (less + 1))) next := by
  simp only [BitReader.bind_eq_done, BitReader.pure_eq_done, BitReader.bits_eq_done_iff]
  constructor
  · rintro ⟨v, _, ⟨hlt, hv⟩, rfl, rfl⟩
    have hv' : less + 1 + v - (less + 1) = v := Nat.add_sub_cancel_left _ _
    refine ⟨less + 1 + v, by omega, by omega, ?_, hv'.symm ▸ hv⟩
    rw [Nat.add_right_comm, Nat.add_sub_cancel]
  · rintro ⟨times, hlo, hhi, rfl, hs⟩
    refine ⟨times - (less + 1), _, ⟨by omega, hs⟩, ?_, rfl⟩
    congr 1
    omega

/-- After its symbol an entry is read exactly where its extra bits are held. -/
lemma runOf_eq_done {last : Option ℕ} {symbol : ℕ} (hs : symbol ≤ 18) {run : LengthRun} :
    runOf last symbol input pos = .done run next ↔
      ∃ e : Entry, e.symbol = symbol ∧ e.InRange last ∧ run = ⟨e.value last, e.times - 1⟩ ∧
        Spells input pos e.extra next := by
  constructor
  · intro h
    obtain h15 | rfl | rfl | rfl : symbol ≤ 15 ∨ symbol = 16 ∨ symbol = 17 ∨ symbol = 18 := by
      omega
    · rw [runOf_length h15] at h
      obtain ⟨rfl, rfl⟩ := BitReader.pure_eq_done.mp h
      exact ⟨.length symbol, rfl, h15, rfl, Spells.nil_iff.mpr rfl⟩
    · obtain ⟨l, _, ha, h⟩ := BitReader.bind_eq_done.mp h
      obtain ⟨rfl, rfl⟩ := BitReader.accept_eq_done_iff.mp ha
      obtain ⟨n, hlo, hhi, rfl, hn⟩ := repeat_eq_done.mp h
      exact ⟨.again n, rfl, ⟨Option.some_ne_none l, hlo, hhi⟩, rfl, hn⟩
    · obtain ⟨n, hlo, hhi, rfl, hn⟩ := repeat_eq_done.mp h
      exact ⟨.zeros n, rfl, ⟨hlo, hhi⟩, rfl, hn⟩
    · obtain ⟨n, hlo, hhi, rfl, hn⟩ := repeat_eq_done.mp h
      exact ⟨.moreZeros n, rfl, ⟨hlo, hhi⟩, rfl, hn⟩
  · rintro ⟨e, rfl, hr, rfl, hx⟩
    cases e with
    | length l =>
        obtain rfl := Spells.nil_iff.mp hx
        rw [Entry.symbol, runOf_length hr]
        rfl
    | again n =>
        obtain ⟨hn, hlo, hhi⟩ := hr
        obtain ⟨l, rfl⟩ := Option.ne_none_iff_exists'.mp hn
        exact BitReader.bind_eq_done.mpr ⟨l, _, rfl, repeat_eq_done.mpr ⟨n, hlo, hhi, rfl, hx⟩⟩
    | zeros n => exact repeat_eq_done.mpr ⟨n, hr.1, hr.2, rfl, hx⟩
    | moreZeros n => exact repeat_eq_done.mpr ⟨n, hr.1, hr.2, rfl, hx⟩

/-- Only a repetition without a length before it is refused. -/
lemma runOf_eq_bad {last : Option ℕ} {symbol : ℕ} :
    runOf last symbol input pos = .bad stop ↔ symbol = 16 ∧ last = none ∧ stop = pos := by
  rw [runOf.eq_def]
  split
  · rw [BitReader.bind_eq_bad, BitReader.accept_eq_bad]
    simp only [true_and, or_iff_left_iff_imp]
    rintro ⟨l, _, -, h⟩
    exact (((BitReader.neverBad_bits 2).bind fun _ => BitReader.neverBad_pure _) h).elim
  · refine iff_of_false ?_ (by simp)
    exact fun h => ((BitReader.neverBad_bits 3).bind fun _ => BitReader.neverBad_pure _) h
  · refine iff_of_false ?_ (by simp)
    exact fun h => ((BitReader.neverBad_bits 7).bind fun _ => BitReader.neverBad_pure _) h
  · rename_i h16 _ _
    refine iff_of_false ?_ fun h => h16 h.1
    intro h
    cases h

section CodeLengths

variable {lengthCode : List ℕ} {last : Option ℕ}

/-- The lengths of a code of code lengths: all of them fit, and the code is
complete. -/
def IsLengthCode (lengthCode : List ℕ) : Prop :=
  lengthCode.length ≤ 19 ∧ (∀ l ∈ lengthCode, l ≤ maxCodeLength) ∧ IsComplete lengthCode

lemma le_of_lengthOf_ne_zero {symbol : ℕ} (hl : lengthCode.length ≤ 19)
    (h : lengthOf lengthCode symbol ≠ 0) : symbol ≤ 18 := by
  obtain ⟨hlt, -⟩ := List.getElem?_eq_some_iff.mp ((lengthOf_eq_iff h).mp rfl)
  omega

/-- An entry is read exactly where it is held. -/
lemma lengthRun_eq_done (hc : IsLengthCode lengthCode) {run : LengthRun} :
    lengthRun (.canonical (PrefixCode.levelsOf lengthCode)) last input pos = .done run next ↔
      ∃ e : Entry, e.Legal lengthCode last ∧ run = ⟨e.value last, e.times - 1⟩ ∧
        Spells input pos (e.bits lengthCode) next := by
  rw [lengthRun, BitReader.bind_eq_done]
  simp only [PrefixCode.canonical_symbol_eq_done hc.2.1 hc.2.2]
  constructor
  · rintro ⟨s, _, ⟨hne, hs⟩, hr⟩
    obtain ⟨e, rfl, hi, rfl, hx⟩ := (runOf_eq_done (le_of_lengthOf_ne_zero hc.1 hne)).mp hr
    exact ⟨e, ⟨hne, hi⟩, rfl, hs.append hx⟩
  · rintro ⟨e, ⟨hne, hi⟩, rfl, hs⟩
    obtain ⟨_, hs, hx⟩ := Spells.append_iff.mp hs
    refine ⟨_, _, ⟨hne, hs⟩, ?_⟩
    exact (runOf_eq_done (le_of_lengthOf_ne_zero hc.1 hne)).mpr ⟨e, rfl, hi, rfl, hx⟩

lemma lengthRun_eq_bad (hc : IsLengthCode lengthCode) :
    lengthRun (.canonical (PrefixCode.levelsOf lengthCode)) last input pos = .bad stop ↔
      last = none ∧ lengthOf lengthCode 16 ≠ 0 ∧
        Spells input pos (codeWord lengthCode 16) stop := by
  rw [lengthRun, (PrefixCode.neverBad_canonical hc.2.1 hc.2.2).bind_eq_bad]
  simp only [PrefixCode.canonical_symbol_eq_done hc.2.1 hc.2.2, runOf_eq_bad]
  constructor
  · rintro ⟨_, _, ⟨hne, hs⟩, rfl, hl, rfl⟩
    exact ⟨hl, hne, hs⟩
  · rintro ⟨hl, hne, hs⟩
    exact ⟨_, _, ⟨hne, hs⟩, rfl, hl, rfl⟩

/-- An entry leaves the lengths missing that it does not give. -/
lemma sub_times_eq {e : Entry} (h : e.InRange last) (m : ℕ) :
    m - (e.times - 1) = m + 1 - e.times := by
  have ht := Entry.one_le_times h
  omega

/-- A list of code lengths is read as an entry and the lengths missing after it. -/
lemma codeLengths_succ_eq_done (hc : IsLengthCode lengthCode) {m : ℕ} {ls : List ℕ} :
    codeLengths (.canonical (PrefixCode.levelsOf lengthCode)) last (m + 1) input pos =
        .done ls next ↔
      ∃ (e : Entry) (mid : ℕ) (rest : List ℕ), e.Legal lengthCode last ∧ e.times ≤ m + 1 ∧
        Spells input pos (e.bits lengthCode) mid ∧
        codeLengths (.canonical (PrefixCode.levelsOf lengthCode)) (some (e.value last))
          (m + 1 - e.times) input mid = .done rest next ∧
        ls = List.replicate e.times (e.value last) ++ rest := by
  rw [codeLengths]
  simp only [BitReader.bind_eq_done, lengthRun_eq_done hc, BitReader.require_eq_done_iff,
    BitReader.pure_eq_done]
  constructor
  · rintro ⟨_, _, ⟨e, he, rfl, hs⟩, _, _, ⟨hle, rfl⟩, rest, _, hr, rfl, rfl⟩
    rw [Nat.sub_add_cancel (Entry.one_le_times he.2)]
    rw [sub_times_eq he.2] at hr
    exact ⟨e, _, rest, he, Nat.le_add_of_sub_le hle, hs, hr, rfl⟩
  · rintro ⟨e, mid, rest, he, hle, hs, hr, rfl⟩
    rw [← sub_times_eq he.2] at hr
    refine ⟨_, mid, ⟨e, he, rfl, hs⟩, (), mid, ⟨Nat.sub_le_of_le_add hle, rfl⟩, rest, _, hr, ?_,
      rfl⟩
    rw [Nat.sub_add_cancel (Entry.one_le_times he.2)]

/-- It is refused at an entry, or after one. -/
lemma codeLengths_succ_eq_bad (hc : IsLengthCode lengthCode) {m : ℕ} :
    codeLengths (.canonical (PrefixCode.levelsOf lengthCode)) last (m + 1) input pos =
        .bad stop ↔
      (last = none ∧ lengthOf lengthCode 16 ≠ 0 ∧
        Spells input pos (codeWord lengthCode 16) stop) ∨
      ∃ (e : Entry) (mid : ℕ), e.Legal lengthCode last ∧
        Spells input pos (e.bits lengthCode) mid ∧
        (m + 1 < e.times ∧ stop = mid ∨
          e.times ≤ m + 1 ∧
            codeLengths (.canonical (PrefixCode.levelsOf lengthCode)) (some (e.value last))
              (m + 1 - e.times) input mid = .bad stop) := by
  rw [codeLengths]
  simp only [BitReader.bind_eq_bad, lengthRun_eq_done hc, lengthRun_eq_bad hc,
    BitReader.require_eq_bad, BitReader.require_eq_done_iff]
  constructor
  · rintro (h16 | ⟨_, _, ⟨e, he, rfl, hs⟩, ⟨hgt, rfl⟩ | ⟨_, _, ⟨hle, rfl⟩, hr | ⟨_, _, -, hr⟩⟩⟩)
    · exact .inl h16
    · have hlt : m < e.times - 1 := Nat.lt_of_not_le hgt
      exact .inr ⟨e, _, he, hs, .inl ⟨Nat.add_lt_of_lt_sub hlt, rfl⟩⟩
    · rw [sub_times_eq he.2] at hr
      exact .inr ⟨e, _, he, hs, .inr ⟨Nat.le_add_of_sub_le hle, hr⟩⟩
    · cases hr
  · rintro (h16 | ⟨e, mid, he, hs, ⟨hlt, rfl⟩ | ⟨hle, hr⟩⟩)
    · exact .inl h16
    · have hgt : ¬e.times - 1 ≤ m := Nat.not_le_of_lt (Nat.lt_sub_of_add_lt hlt)
      exact .inr ⟨_, _, ⟨e, he, rfl, hs⟩, .inl ⟨hgt, rfl⟩⟩
    · rw [← sub_times_eq he.2] at hr
      exact .inr ⟨_, mid, ⟨e, he, rfl, hs⟩,
        .inr ⟨(), mid, ⟨Nat.sub_le_of_le_add hle, rfl⟩, .inl hr⟩⟩

/-- What is read as a list of code lengths is held as entries. -/
lemma entries_of_codeLengths (hc : IsLengthCode lengthCode) {missing : ℕ} {ls : List ℕ}
    (h : codeLengths (.canonical (PrefixCode.levelsOf lengthCode)) last missing input pos =
      .done ls next) :
    ∃ es, LegalEntries lengthCode last es ∧ expandEntries last es = ls ∧ ls.length = missing ∧
      Spells input pos (es.flatMap (Entry.bits lengthCode)) next := by
  induction missing using Nat.strong_induction_on generalizing last pos ls with
  | _ missing ih =>
      cases missing with
      | zero =>
          rw [codeLengths, BitReader.pure_eq_done] at h
          obtain ⟨rfl, rfl⟩ := h
          exact ⟨[], trivial, rfl, rfl, Spells.nil_iff.mpr rfl⟩
      | succ m =>
          obtain ⟨e, mid, rest, he, hle, hs, hr, rfl⟩ := (codeLengths_succ_eq_done hc).mp h
          have hlt : m + 1 - e.times < m + 1 :=
            Nat.sub_lt (Nat.succ_pos m) (Entry.one_le_times he.2)
          obtain ⟨es, hes, rfl, hl, hrs⟩ := ih _ hlt hr
          refine ⟨e :: es, ⟨he, hes⟩, rfl, ?_, hs.append hrs⟩
          rw [List.length_append, List.length_replicate, hl, Nat.add_sub_cancel' hle]

/-- Entries that are held are read as the list of code lengths that they give. -/
lemma codeLengths_of_entries (hc : IsLengthCode lengthCode) {es : List Entry}
    (hes : LegalEntries lengthCode last es)
    (hs : Spells input pos (es.flatMap (Entry.bits lengthCode)) next) :
    codeLengths (.canonical (PrefixCode.levelsOf lengthCode)) last
      (expandEntries last es).length input pos = .done (expandEntries last es) next := by
  induction es generalizing last pos with
  | nil =>
      obtain rfl := Spells.nil_iff.mp hs
      rw [expandEntries, List.length_nil, codeLengths]
      rfl
  | cons e es ih =>
      obtain ⟨he, hes⟩ := hes
      obtain ⟨mid, hs, hrs⟩ := Spells.append_iff.mp hs
      have hr := ih hes hrs
      rw [expandEntries, List.length_append, List.length_replicate]
      obtain ⟨t, ht⟩ := Nat.exists_eq_add_of_le' (Entry.one_le_times he.2)
      rw [ht, Nat.add_right_comm]
      refine (codeLengths_succ_eq_done hc).mpr ⟨e, mid, _, he, by omega, hs, ?_, by rw [ht]⟩
      rw [ht, Nat.add_right_comm, Nat.add_sub_cancel_left]
      exact hr

/-- A list of code lengths is read exactly where entries for it are held. -/
theorem codeLengths_eq_done (hc : IsLengthCode lengthCode) {missing : ℕ} {ls : List ℕ} :
    codeLengths (.canonical (PrefixCode.levelsOf lengthCode)) last missing input pos =
        .done ls next ↔
      ∃ es, LegalEntries lengthCode last es ∧ expandEntries last es = ls ∧ ls.length = missing ∧
        Spells input pos (es.flatMap (Entry.bits lengthCode)) next := by
  refine ⟨entries_of_codeLengths hc, ?_⟩
  rintro ⟨es, hes, rfl, rfl, hs⟩
  exact codeLengths_of_entries hc hes hs

/-- Where a list of code lengths is refused an entry is held that is not allowed. -/
lemma badEntries_of_codeLengths (hc : IsLengthCode lengthCode) {missing : ℕ}
    (h : codeLengths (.canonical (PrefixCode.levelsOf lengthCode)) last missing input pos =
      .bad stop) :
    ∃ w, BadEntries lengthCode last missing w ∧ Spells input pos w stop := by
  induction missing using Nat.strong_induction_on generalizing last pos with
  | _ missing ih =>
      cases missing with
      | zero =>
          rw [codeLengths] at h
          cases h
      | succ m =>
          obtain ⟨rfl, h16, hs⟩ | ⟨e, mid, he, hs, ⟨hgt, rfl⟩ | ⟨hle, hr⟩⟩ :=
            (codeLengths_succ_eq_bad hc).mp h
          · exact ⟨_, .again (Nat.succ_pos m) h16, hs⟩
          · exact ⟨_, .overshoot e (Nat.succ_pos m) he hgt, hs⟩
          · have hlt : m + 1 - e.times < m + 1 :=
              Nat.sub_lt (Nat.succ_pos m) (Entry.one_le_times he.2)
            obtain ⟨w, hw, hrs⟩ := ih _ hlt hr
            -- nothing is refused once no length is missing
            have hne : e.times ≠ m + 1 := by
              intro heq
              rw [heq, Nat.sub_self, codeLengths] at hr
              cases hr
            exact ⟨_, .later e he (Nat.lt_of_le_of_ne hle hne) hw, hs.append hrs⟩

/-- A list of code lengths is refused at an entry that is held and not allowed. -/
lemma codeLengths_of_badEntries (hc : IsLengthCode lengthCode) {missing : ℕ} {w : List Bool}
    (hw : BadEntries lengthCode last missing w) (hs : Spells input pos w stop) :
    codeLengths (.canonical (PrefixCode.levelsOf lengthCode)) last missing input pos =
      .bad stop := by
  induction hw generalizing pos with
  | again h0 h16 =>
      obtain ⟨m, rfl⟩ := Nat.exists_eq_add_of_le' h0
      exact (codeLengths_succ_eq_bad hc).mpr (.inl ⟨rfl, h16, hs⟩)
  | overshoot e h0 he hgt =>
      obtain ⟨m, rfl⟩ := Nat.exists_eq_add_of_le' h0
      exact (codeLengths_succ_eq_bad hc).mpr (.inr ⟨e, stop, he, hs, .inl ⟨hgt, rfl⟩⟩)
  | later e he hlt _ ih =>
      obtain ⟨mid, hs, hrs⟩ := Spells.append_iff.mp hs
      obtain ⟨m, rfl⟩ := Nat.exists_eq_add_of_le' (Nat.zero_lt_of_lt hlt)
      exact (codeLengths_succ_eq_bad hc).mpr (.inr ⟨e, mid, he, hs, .inr ⟨hlt.le, ih hrs⟩⟩)

/-- A list of code lengths is refused exactly where an entry is held that is not
allowed. -/
theorem codeLengths_eq_bad (hc : IsLengthCode lengthCode) {missing : ℕ} :
    codeLengths (.canonical (PrefixCode.levelsOf lengthCode)) last missing input pos =
        .bad stop ↔
      ∃ w, BadEntries lengthCode last missing w ∧ Spells input pos w stop := by
  refine ⟨badEntries_of_codeLengths hc, ?_⟩
  rintro ⟨w, hw, hs⟩
  exact codeLengths_of_badEntries hc hw hs

end CodeLengths

end Block

end Deflate

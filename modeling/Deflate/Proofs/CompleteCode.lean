/-
Codes that fill the code space.

* `kraftSum`: the sum of `2 ^ -l` over the lengths `l` of the code words; a code is
  complete exactly if it is one (`isComplete_iff`), which takes at least two code words
  (`kraftSum_lt_one`);
* `eq_of_codeWord_prefix`: in a complete code no code word begins with another one;
* `canonical_symbol_eq_starved`: a complete code asks for more input exactly where the
  input ends inside a code word;
* `complete_iff_reads_words`: the lengths that are accepted, and how symbols are read in
  their code.
-/
import Mathlib.Tactic
import Deflate.Proofs.SymbolReading

namespace Deflate

/-! ### The Kraft sum -/

/-- The sum of `2 ^ -l` over the lengths `l` of the code words. -/
def kraftSum (lengths : List ℕ) : ℚ :=
  ((lengths.filter (· ≠ 0)).map fun l => 1 / 2 ^ l).sum

lemma kraftSum_cons (l : ℕ) (lengths : List ℕ) :
    kraftSum (l :: lengths) = (if l = 0 then 0 else 1 / 2 ^ l) + kraftSum lengths := by
  by_cases h : l = 0 <;> simp [kraftSum, h]

/-- What the code words take of the code space, counted in words of the greatest length,
is the Kraft sum of all of it. -/
lemma kraft_eq_kraftSum {lengths : List ℕ} (h : ∀ l ∈ lengths, l ≤ maxCodeLength) :
    (kraft lengths : ℚ) = 2 ^ maxCodeLength * kraftSum lengths := by
  induction lengths with
  | nil => simp [kraft, kraftSum]
  | cons l lengths ih =>
      obtain ⟨hl, hlengths⟩ := List.forall_mem_cons.mp h
      have hshare : (share l : ℚ) = 2 ^ maxCodeLength * if l = 0 then 0 else 1 / 2 ^ l := by
        by_cases h0 : l = 0
        · simp [share, h0]
        · rw [share, if_neg h0, if_neg h0, Nat.pow_eq, Nat.cast_pow, Nat.cast_ofNat,
            pow_sub₀ 2 two_ne_zero hl, one_div]
      calc (kraft (l :: lengths) : ℚ)
          = share l + kraft lengths := Nat.cast_add _ _
        _ = 2 ^ maxCodeLength * kraftSum (l :: lengths) := by
            rw [hshare, ih hlengths, kraftSum_cons, mul_add]

/-- The code words fill the code space exactly if their Kraft sum is one. -/
theorem isComplete_iff {lengths : List ℕ} (h : ∀ l ∈ lengths, l ≤ maxCodeLength) :
    IsComplete lengths ↔ kraftSum lengths = 1 := by
  have hpos : (2 : ℚ) ^ maxCodeLength ≠ 0 := pow_ne_zero _ two_ne_zero
  calc IsComplete lengths
      ↔ (kraft lengths : ℚ) = 2 ^ maxCodeLength := by
        rw [IsComplete, Nat.pow_eq]
        exact_mod_cast Iff.rfl
    _ ↔ kraftSum lengths = 1 := by
        rw [kraft_eq_kraftSum h]
        exact mul_eq_left₀ hpos

/-- A single code word leaves a part of the code space. -/
lemma kraftSum_lt_one {lengths : List ℕ} (h : codedCount lengths ≤ 1) : kraftSum lengths < 1 := by
  rw [codedCount, List.countP_eq_length_filter, Nat.le_one_iff_eq_zero_or_eq_one] at h
  rw [kraftSum]
  rcases h with h | h
  · rw [List.length_eq_zero_iff.mp h]
    simp
  · obtain ⟨l, hf⟩ := List.length_eq_one_iff.mp h
    have hl : l ≠ 0 := by
      have hm : l ∈ lengths.filter (· ≠ 0) := hf ▸ List.mem_singleton_self l
      simpa using (List.mem_filter.mp hm).2
    have hpow : (1 : ℚ) < 2 ^ l := one_lt_pow₀ one_lt_two hl
    rw [hf]
    simpa using inv_lt_one_of_one_lt₀ hpow

/-! ### Reading at the end of the input -/

namespace PrefixCode

variable {lengths : List ℕ} {input : ByteArray} {pos d rank : ℕ}

/-- From level `d` on no more than the bits of the longest words are missing. -/
lemma canonicalSymbol_ne_starved (hd : d ≤ maxCodeLength)
    (h : pos + (maxCodeLength - d) ≤ 8 * input.size) :
    canonicalSymbol ((levelsOf lengths).drop d) rank input pos ≠ .starved := by
  induction hk : maxCodeLength - d generalizing d rank pos with
  | zero =>
      obtain rfl : d = maxCodeLength := by omega
      rw [drop_levelsOf_all]
      intro hs
      cases hs
  | succ k ih =>
      rw [canonicalSymbol_drop lengths (by omega)]
      intro hs
      rcases BitReader.bind_eq_starved.mp hs with hbit | ⟨b, _, hb, hs⟩
      · have hend := BitReader.bit_eq_starved.mp hbit
        omega
      · obtain ⟨-, rfl⟩ := BitReader.bit_eq_done.mp hb
        cases hsym : (symbolsOfLength lengths (d + 1))[2 * rank + b.toNat]? with
        | some s =>
            rw [hsym] at hs
            cases hs
        | none =>
            rw [hsym] at hs
            refine ih (by omega) ?_ (by omega) hs
            rw [List.length_singleton]
            omega

section Complete

variable (hl : ∀ l ∈ lengths, l ≤ maxCodeLength) (hc : IsComplete lengths)

include hl hc

/-- A complete code reads a symbol wherever the longest words have room. -/
lemma exists_symbol_of_le (h : pos + maxCodeLength ≤ 8 * input.size) :
    ∃ symbol next, (canonical (levelsOf lengths)).symbol input pos = .done symbol next := by
  cases hr : (canonical (levelsOf lengths)).symbol input pos with
  | done symbol next => exact ⟨symbol, next, rfl⟩
  | starved =>
      refine absurd hr ?_
      rw [PrefixCode.symbol, ← List.drop_zero (l := levelsOf lengths)]
      exact canonicalSymbol_ne_starved (Nat.zero_le maxCodeLength) h
  | bad stop => exact absurd hr (@neverBad_canonical _ hl hc _ _ _)

/-- In a complete code no code word begins with another one. -/
theorem eq_of_codeWord_prefix {s t : ℕ} (hs : lengthOf lengths s ≠ 0) (ht : lengthOf lengths t ≠ 0)
    (h : codeWord lengths s <+: codeWord lengths t) : s = t := by
  -- an input that begins with the longer word is read as both symbols
  obtain ⟨input, hheld⟩ := exists_holds (codeWord lengths t)
  have hreadS := (canonical_symbol_eq_done hl hc).mpr ⟨hs, List.IsPrefix.trans h hheld, rfl⟩
  have hreadT := (canonical_symbol_eq_done hl hc).mpr ⟨ht, hheld, rfl⟩
  exact (Read.done.inj (hreadS.symm.trans hreadT)).1

/-- Any bits begin with a code word, or there is one that begins with them. -/
lemma exists_codeWord_prefix (w : List Bool) :
    ∃ symbol, lengthOf lengths symbol ≠ 0 ∧
      (codeWord lengths symbol <+: w ∨ w <+: codeWord lengths symbol) := by
  -- read the bits with as many bits after them as the longest words have
  obtain ⟨input, hheld⟩ := exists_holds (w ++ List.replicate maxCodeLength false)
  have hsize := hheld.le_size (Nat.zero_le _)
  rw [List.length_append, List.length_replicate] at hsize
  have hroom : 0 + maxCodeLength ≤ 8 * input.size := by omega
  obtain ⟨symbol, next, hr⟩ := exists_symbol_of_le hl hc hroom
  obtain ⟨hne, hword, -⟩ := (canonical_symbol_eq_done hl hc).mp hr
  exact ⟨symbol, hne, List.prefix_or_prefix_of_prefix hword (Holds.append_iff.mp hheld).1⟩

/-- A complete code asks for more input exactly where the input ends inside a code
word. -/
theorem canonical_symbol_eq_starved :
    (canonical (levelsOf lengths)).symbol input pos = .starved ↔
      ∃ symbol, lengthOf lengths symbol ≠ 0 ∧ 8 * input.size < pos + lengthOf lengths symbol ∧
        (bitsOf input).drop pos <+: codeWord lengths symbol := by
  have hrest : ((bitsOf input).drop pos).length = 8 * input.size - pos := by
    rw [List.length_drop, length_bitsOf]
  constructor
  · intro h
    have hnot : ∀ s, lengthOf lengths s ≠ 0 → ¬Holds input pos (codeWord lengths s) := by
      intro s hs hheld
      cases h.symm.trans ((canonical_symbol_eq_done hl hc).mpr ⟨hs, hheld, rfl⟩)
    obtain ⟨s, hs, hheld | hprefix⟩ := exists_codeWord_prefix hl hc ((bitsOf input).drop pos)
    · exact absurd hheld (hnot s hs)
    · refine ⟨s, hs, ?_, hprefix⟩
      by_contra hlong
      -- all of the code word is there
      have heq : (bitsOf input).drop pos = codeWord lengths s := by
        refine hprefix.eq_of_length_le ?_
        rw [hrest, length_codeWord]
        omega
      refine hnot s hs ?_
      rw [Holds, heq]
  · rintro ⟨s, hs, hshort, hprefix⟩
    cases hr : (canonical (levelsOf lengths)).symbol input pos with
    | done t next =>
        obtain ⟨ht, hheld, -⟩ := (canonical_symbol_eq_done hl hc).mp hr
        obtain rfl := eq_of_codeWord_prefix hl hc ht hs (List.IsPrefix.trans hheld hprefix)
        have hle := List.IsPrefix.length_le hheld
        rw [hrest, length_codeWord] at hle
        omega
    | starved => rfl
    | bad stop => exact absurd hr (@neverBad_canonical _ hl hc _ _ _)

end Complete

/-! ### The codes that are accepted -/

/-- A code with a Kraft sum of one is accepted by both rules, and it is the canonical
one. -/
lemma eq_canonical_of_kraftSum (hl : ∀ l ∈ lengths, l ≤ maxCodeLength)
    (hk : kraftSum lengths = 1) {code : PrefixCode}
    (h : ofLengths? lengths = some code ∨ complete? lengths = some code) :
    code = .canonical (levelsOf lengths) := by
  have htwo : 2 ≤ codedCount lengths := by
    by_contra hlt
    exact (kraftSum_lt_one (Nat.le_of_lt_succ (Nat.lt_of_not_le hlt))).ne hk
  rw [ofLengths?_of_two_le htwo, or_self, complete?, if_pos ((isComplete_iff hl).mpr hk)] at h
  exact (Option.some.inj h).symm

lemma isSome_complete?_iff (hl : ∀ l ∈ lengths, l ≤ maxCodeLength) :
    (complete? lengths).isSome ↔ kraftSum lengths = 1 := by
  rw [← isComplete_iff hl, complete?]
  split <;> simp [*]

/-- **A code is accepted if it fills the code space, and is then read by its words.** Of
several code words the Kraft sum must be one; for the lengths in a block header this is
asked of fewer as well, so they are refused. A code with this sum reads a symbol exactly
where its code word is held, whatever follows; it reads one wherever every code word would
fit, refuses no bits, and asks for more input exactly where the input ends inside a code
word. -/
theorem complete_iff_reads_words (hl : ∀ l ∈ lengths, l ≤ maxCodeLength) :
    (2 ≤ codedCount lengths → ((ofLengths? lengths).isSome ↔ kraftSum lengths = 1)) ∧
    ((complete? lengths).isSome ↔ kraftSum lengths = 1) ∧
    (codedCount lengths ≤ 1 → complete? lengths = none) ∧
    ∀ code, ofLengths? lengths = some code ∨ complete? lengths = some code →
      kraftSum lengths = 1 → ∀ (input : ByteArray) (pos : ℕ),
        (∀ symbol next, code.symbol input pos = .done symbol next ↔
          lengthOf lengths symbol ≠ 0 ∧ Spells input pos (codeWord lengths symbol) next) ∧
        ((∀ l ∈ lengths, pos + l ≤ 8 * input.size) → ∃ symbol, lengthOf lengths symbol ≠ 0 ∧
          code.symbol input pos = .done symbol (pos + lengthOf lengths symbol)) ∧
        (∀ stop, code.symbol input pos ≠ .bad stop) ∧
        (code.symbol input pos = .starved ↔ ∃ symbol, lengthOf lengths symbol ≠ 0 ∧
          8 * input.size < pos + lengthOf lengths symbol ∧
          (bitsOf input).drop pos <+: codeWord lengths symbol) := by
  have hsome := isSome_complete?_iff hl
  refine ⟨?_, hsome, ?_, ?_⟩
  · intro htwo
    rw [ofLengths?_of_two_le htwo, hsome]
  · intro hone
    rw [← Option.not_isSome_iff_eq_none, hsome]
    exact (kraftSum_lt_one hone).ne
  · intro code hcode hk input pos
    obtain rfl := eq_canonical_of_kraftSum hl hk hcode
    have hc := (isComplete_iff hl).mpr hk
    have hbad : ∀ stop, (canonical (levelsOf lengths)).symbol input pos ≠ .bad stop := by
      intro stop
      exact @neverBad_canonical _ hl hc _ _ _
    have hstarved := @canonical_symbol_eq_starved _ input pos hl hc
    refine ⟨fun _ _ => canonical_symbol_eq_done hl hc, ?_, hbad, hstarved⟩
    intro hfits
    cases hr : (canonical (levelsOf lengths)).symbol input pos with
    | done symbol next =>
        obtain ⟨hne, -, hnext⟩ := (canonical_symbol_eq_done hl hc).mp hr
        rw [length_codeWord] at hnext
        exact ⟨symbol, hne, hnext ▸ rfl⟩
    | starved =>
        obtain ⟨symbol, hne, hshort, -⟩ := hstarved.mp hr
        exact absurd (hfits _ (lengthOf_mem hne)) (Nat.not_le_of_lt hshort)
    | bad stop => exact absurd hr (hbad stop)

/-- One code word of each length, and a second one of the greatest. -/
def skewedLengths : List ℕ :=
  [1, 2, 3, 4, 5, 6, 7, 8, 9, 10, 11, 12, 13, 14, 15, 15]

/-- The last of these code words consists of fifteen set bits; after eight of them more
input is needed. -/
theorem reads_words_skewedLengths :
    (ofLengths? skewedLengths).isSome ∧ kraftSum skewedLengths = 1 ∧
      ∀ code, ofLengths? skewedLengths = some code →
        code.symbol ⟨#[255, 127]⟩ 0 = .done 15 15 ∧ code.symbol ⟨#[255]⟩ 0 = .starved := by
  have hl : ∀ l ∈ skewedLengths, l ≤ maxCodeLength := by decide
  have hk : kraftSum skewedLengths = 1 := (isComplete_iff hl).mp (by decide)
  obtain ⟨haccepted, -, -, hreads⟩ := complete_iff_reads_words hl
  refine ⟨(haccepted (by decide)).mpr hk, hk, ?_⟩
  intro code hcode
  obtain ⟨hdone, -, -, -⟩ := hreads code (.inl hcode) hk ⟨#[255, 127]⟩ 0
  obtain ⟨-, -, -, hstarved⟩ := hreads code (.inl hcode) hk ⟨#[255]⟩ 0
  constructor
  · exact (hdone 15 15).mpr ⟨by decide, by decide, by decide⟩
  · exact hstarved.mpr ⟨15, by decide, by decide, by decide⟩

end PrefixCode

end Deflate

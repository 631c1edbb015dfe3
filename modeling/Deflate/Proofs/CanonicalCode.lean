/-
Canonical prefix codes: the code words given by code lengths.

* `wordNumber` and `codeWord`: the code word of a symbol. The words of one
  length are consecutive numbers in the order of their symbols, the first of
  them (`firstWord`) follows the words of the lengths before it; a word is
  written most significant bit first;
* `filled`: how many words of a length begin with a code word; `filled_eq_kraft`
  and `filled_le`: in a complete code these are all words of the greatest
  length, and never more than there are;
* `canonicalSymbol_eq_done`: walking through the levels reads the number of a
  word relative to the code words before it;
* `canonical_symbol_eq_done` and `neverBad_canonical`: a complete code reads
  exactly its code words and refuses nothing.
-/
import Mathlib.Tactic
import Deflate.Proofs.FieldReading

namespace Deflate

/-! ### Code words -/

/-- The length of the code word of a symbol; `0` means that it has none. -/
def lengthOf (lengths : List ℕ) (symbol : ℕ) : ℕ :=
  lengths.getD symbol 0

/-- How many code words have the given length. -/
def wordCount (lengths : List ℕ) (length : ℕ) : ℕ :=
  if length = 0 then 0 else lengths.count length

/-- The number of the first code word of the given length. -/
def firstWord (lengths : List ℕ) : (length : ℕ) → ℕ
  | 0 => 0
  | n + 1 => 2 * (firstWord lengths n + wordCount lengths n)

/-- The number of the code word of a symbol. -/
def wordNumber (lengths : List ℕ) (symbol : ℕ) : ℕ :=
  firstWord lengths (lengthOf lengths symbol) +
    (lengths.take symbol).count (lengthOf lengths symbol)

/-- The code word of a symbol, most significant bit first. -/
def codeWord (lengths : List ℕ) (symbol : ℕ) : List Bool :=
  (field (lengthOf lengths symbol) (wordNumber lengths symbol)).reverse

@[simp] lemma length_codeWord (lengths : List ℕ) (symbol : ℕ) :
    (codeWord lengths symbol).length = lengthOf lengths symbol := by
  rw [codeWord, List.length_reverse, length_field]

lemma lengthOf_eq_iff {lengths : List ℕ} {symbol l : ℕ} (hl : l ≠ 0) :
    lengthOf lengths symbol = l ↔ lengths[symbol]? = some l := by
  rw [lengthOf, List.getD_eq_getElem?_getD]
  cases lengths[symbol]? with
  | none => simpa using hl.symm
  | some k => simp

lemma lengthOf_mem {lengths : List ℕ} {symbol : ℕ} (h : lengthOf lengths symbol ≠ 0) :
    lengthOf lengths symbol ∈ lengths :=
  List.mem_of_getElem? ((lengthOf_eq_iff h).mp rfl)

lemma fieldValue_append (u w : List Bool) :
    fieldValue (u ++ w) = fieldValue u + 2 ^ u.length * fieldValue w := by
  induction u with
  | nil => simp [fieldValue]
  | cons b u ih =>
      rw [List.cons_append, fieldValue, ih, fieldValue, List.length_cons]
      ring

/-! ### The part of the code space that is taken -/

/-- How many words of the given length begin with a code word. -/
def filled (lengths : List ℕ) (length : ℕ) : ℕ :=
  firstWord lengths length + wordCount lengths length

lemma firstWord_succ (lengths : List ℕ) (n : ℕ) :
    firstWord lengths (n + 1) = 2 * filled lengths n := rfl

lemma filled_zero (lengths : List ℕ) : filled lengths 0 = 0 := rfl

lemma filled_succ (lengths : List ℕ) (n : ℕ) :
    filled lengths (n + 1) = 2 * filled lengths n + lengths.count (n + 1) := by
  rw [filled, firstWord_succ, wordCount, if_neg (Nat.succ_ne_zero n)]

/-- The words that begin with a code word of at most `n` bits come before the
code words of any greater length. -/
lemma filled_mul_le_firstWord (lengths : List ℕ) (n k : ℕ) :
    2 ^ (k + 1) * filled lengths n ≤ firstWord lengths (n + k + 1) := by
  induction k with
  | zero => rw [firstWord_succ, Nat.zero_add, Nat.pow_one]
  | succ k ih =>
      rw [firstWord_succ, ← Nat.add_assoc, filled, Nat.pow_succ', Nat.mul_assoc]
      exact Nat.mul_le_mul_left 2 (Nat.le_trans ih (Nat.le_add_right _ _))

/-- The words of `n` bits that begin with a code word of length `l`. -/
def spaceAt (n l : ℕ) : ℕ :=
  if 0 < l ∧ l ≤ n then 2 ^ (n - l) else 0

lemma spaceAt_succ (n l : ℕ) :
    spaceAt (n + 1) l = 2 * spaceAt n l + if l = n + 1 then 1 else 0 := by
  rcases Nat.lt_trichotomy l (n + 1) with h | rfl | h
  · rcases Nat.eq_zero_or_pos l with rfl | hl
    · simp [spaceAt]
    · rw [spaceAt, if_pos ⟨hl, by omega⟩, spaceAt, if_pos ⟨hl, by omega⟩, if_neg (by omega),
        show n + 1 - l = (n - l) + 1 by omega, Nat.pow_succ', Nat.add_zero]
  · simp [spaceAt]
  · rw [spaceAt, if_neg (by omega), spaceAt, if_neg (by omega), if_neg (by omega)]

lemma filled_eq_sum (lengths : List ℕ) (n : ℕ) :
    filled lengths n = (lengths.map (spaceAt n)).sum := by
  induction n with
  | zero =>
      have h : ∀ l ∈ lengths, spaceAt 0 l = 0 := fun l _ => if_neg (by omega)
      rw [filled_zero, List.map_congr_left h]
      simp
  | succ n ih =>
      rw [filled_succ, ih, funext (spaceAt_succ n)]
      clear ih
      induction lengths with
      | nil => rfl
      | cons l lengths ih =>
          simp only [List.map_cons, List.sum_cons, List.count_cons, beq_iff_eq] at ih ⊢
          omega

/-- All the words of the greatest length that begin with a code word are what
the code lengths take of the code space. -/
theorem filled_eq_kraft {lengths : List ℕ} (h : ∀ l ∈ lengths, l ≤ maxCodeLength) :
    filled lengths maxCodeLength = kraft lengths := by
  have hs : ∀ l ∈ lengths, spaceAt maxCodeLength l = share l := by
    intro l hl
    have hle := h l hl
    rw [spaceAt, share]
    rcases Nat.eq_zero_or_pos l with rfl | hp
    · simp
    · rw [if_pos ⟨hp, hle⟩, if_neg (by omega), Nat.pow_eq]
  rw [filled_eq_sum, List.map_congr_left hs]
  rfl

lemma filled_le {lengths : List ℕ} (h : ∀ l ∈ lengths, l ≤ maxCodeLength)
    (hc : IsComplete lengths) {n : ℕ} (hn : n ≤ maxCodeLength) : filled lengths n ≤ 2 ^ n := by
  rcases Nat.eq_or_lt_of_le hn with rfl | hlt
  · rw [filled_eq_kraft h, hc, Nat.pow_eq]
  · obtain ⟨k, hk⟩ := Nat.exists_eq_add_of_lt hlt
    have h1 := filled_mul_le_firstWord lengths n k
    have h2 : firstWord lengths maxCodeLength ≤ 2 ^ maxCodeLength := by
      rw [← Nat.pow_eq, ← hc, ← filled_eq_kraft h]
      exact Nat.le_add_right _ _
    rw [← hk] at h1
    have h3 : 2 ^ (k + 1) * filled lengths n ≤ 2 ^ (k + 1) * 2 ^ n := by
      rw [← Nat.pow_add, show k + 1 + n = maxCodeLength by omega]
      exact Nat.le_trans h1 h2
    exact Nat.le_of_mul_le_mul_left h3 (Nat.two_pow_pos _)

lemma count_take_lt {lengths : List ℕ} {i l : ℕ} (h : lengths[i]? = some l) :
    (lengths.take i).count l < lengths.count l := by
  have hle := (List.take_sublist (i + 1) lengths).count_le l
  rw [List.take_add_one, h, Option.toList_some, List.count_append, List.count_singleton_self] at hle
  exact hle

/-- The code words of a complete code fit their lengths. -/
lemma wordNumber_lt {lengths : List ℕ} (h : ∀ l ∈ lengths, l ≤ maxCodeLength)
    (hc : IsComplete lengths) {symbol : ℕ} (hs : lengthOf lengths symbol ≠ 0) :
    wordNumber lengths symbol < 2 ^ lengthOf lengths symbol := by
  have hf := filled_le h hc (h _ (lengthOf_mem hs))
  have hlt := count_take_lt ((lengthOf_eq_iff hs).mp rfl)
  rw [filled, wordCount, if_neg hs] at hf
  rw [wordNumber]
  omega

/-! ### The levels of a code -/

/-- The symbols whose code words have the given length, where `first` is the
first symbol. -/
def symbolsFrom (first : ℕ) (lengths : List ℕ) (l : ℕ) : List ℕ :=
  (lengths.zipIdx first).filterMap fun (m, symbol) => if m = l then some symbol else none

lemma symbolsFrom_cons (first m : ℕ) (lengths : List ℕ) (l : ℕ) :
    symbolsFrom first (m :: lengths) l =
      if m = l then first :: symbolsFrom (first + 1) lengths l
      else symbolsFrom (first + 1) lengths l := by
  by_cases hm : m = l <;> simp [symbolsFrom, List.zipIdx_cons, hm]

/-- The symbols of one length are counted in their order. -/
lemma symbolsFrom_getElem? {first : ℕ} {lengths : List ℕ} {l i symbol : ℕ} :
    (symbolsFrom first lengths l)[i]? = some symbol ↔
      ∃ j, symbol = first + j ∧ lengths[j]? = some l ∧ (lengths.take j).count l = i := by
  induction lengths generalizing first i with
  | nil => simp [symbolsFrom]
  | cons m lengths ih =>
      rw [symbolsFrom_cons]
      by_cases hm : m = l
      · subst hm
        rw [if_pos rfl]
        cases i with
        | zero =>
            rw [List.getElem?_cons_zero, Option.some.injEq]
            constructor
            · rintro rfl
              exact ⟨0, rfl, rfl, rfl⟩
            · rintro ⟨j, rfl, -, hc⟩
              cases j with
              | zero => rfl
              | succ j => simp at hc
        | succ i =>
            rw [List.getElem?_cons_succ, ih]
            constructor
            · rintro ⟨j, rfl, hj, hc⟩
              exact ⟨j + 1, by omega, hj, by simp [hc]⟩
            · rintro ⟨j, rfl, hj, hc⟩
              cases j with
              | zero => simp at hc
              | succ j => exact ⟨j, by omega, hj, by simpa using hc⟩
      · rw [if_neg hm, ih]
        constructor
        · rintro ⟨j, rfl, hj, hc⟩
          exact ⟨j + 1, by omega, hj, by simp [hc, hm]⟩
        · rintro ⟨j, rfl, hj, hc⟩
          cases j with
          | zero => simp [hm] at hj
          | succ j => exact ⟨j, by omega, hj, by simpa [List.count_cons, hm] using hc⟩

lemma length_symbolsFrom (first : ℕ) (lengths : List ℕ) (l : ℕ) :
    (symbolsFrom first lengths l).length = lengths.count l := by
  induction lengths generalizing first with
  | nil => rfl
  | cons m lengths ih =>
      rw [symbolsFrom_cons, List.count_cons]
      by_cases hm : m = l
      · rw [if_pos hm, List.length_cons, ih, if_pos (by simpa using hm)]
      · rw [if_neg hm, ih, if_neg (by simpa using hm), Nat.add_zero]

lemma symbolsOfLength_getElem? {lengths : List ℕ} {l i symbol : ℕ} :
    (symbolsOfLength lengths l)[i]? = some symbol ↔
      lengths[symbol]? = some l ∧ (lengths.take symbol).count l = i := by
  rw [show symbolsOfLength lengths l = symbolsFrom 0 lengths l from rfl, symbolsFrom_getElem?]
  simp

@[simp] lemma length_symbolsOfLength (lengths : List ℕ) (l : ℕ) :
    (symbolsOfLength lengths l).length = lengths.count l :=
  length_symbolsFrom 0 lengths l

/-! ### Reading a complete code -/

/-- The number written by a bit and more bits after those of the number `x`, most
significant bit first. -/
lemma msb_cons (x : ℕ) (b : Bool) (w : List Bool) :
    2 ^ (b :: w).length * x + fieldValue (b :: w).reverse =
      2 ^ w.length * (2 * x + b.toNat) + fieldValue w.reverse := by
  rw [List.reverse_cons, fieldValue_append, List.length_cons, List.length_reverse]
  simp only [fieldValue]
  ring

/-- The first `n` bits of a longer code word lie beyond all code words of `n`
bits. -/
lemma filled_le_of_longer {lengths : List ℕ} {n symbol x : ℕ} {w : List Bool} (hw : w ≠ [])
    (hl : lengthOf lengths symbol = n + w.length)
    (hn : wordNumber lengths symbol = 2 ^ w.length * x + fieldValue w.reverse) :
    filled lengths n ≤ x := by
  obtain ⟨j, hj⟩ := Nat.exists_eq_succ_of_ne_zero (mt List.length_eq_zero_iff.mp hw)
  have hf := filled_mul_le_firstWord lengths n j
  have hv := fieldValue_lt w.reverse
  have hle : firstWord lengths (lengthOf lengths symbol) ≤ wordNumber lengths symbol :=
    Nat.le_add_right _ _
  rw [show n + j + 1 = lengthOf lengths symbol by omega, ← Nat.succ_eq_add_one, ← hj] at hf
  rw [List.length_reverse] at hv
  have hlt : 2 ^ w.length * filled lengths n < 2 ^ w.length * (x + 1) := by
    rw [Nat.mul_add_one]
    omega
  exact Nat.lt_succ_iff.mp (Nat.lt_of_mul_lt_mul_left hlt)

namespace PrefixCode

variable {lengths : List ℕ} {input : ByteArray} {pos next stop d rank symbol : ℕ}

lemma drop_levelsOf (lengths : List ℕ) {d : ℕ} (h : d < maxCodeLength) :
    (levelsOf lengths).drop d =
      (symbolsOfLength lengths (d + 1)).toArray :: (levelsOf lengths).drop (d + 1) := by
  rw [List.drop_eq_getElem_cons (by simpa [levelsOf] using h)]
  simp [levelsOf]

lemma drop_levelsOf_all (lengths : List ℕ) : (levelsOf lengths).drop maxCodeLength = [] := by
  simp [levelsOf]

/-- What is read at level `d` after `rank`, bit by bit: the symbol of this level,
or what the next level reads. -/
lemma canonicalSymbol_drop (lengths : List ℕ) (hd : d < maxCodeLength) :
    canonicalSymbol ((levelsOf lengths).drop d) rank =
      (do
        let code := 2 * rank + (← BitReader.bit).toNat
        match (symbolsOfLength lengths (d + 1))[code]? with
        | some symbol => pure symbol
        | none =>
            canonicalSymbol ((levelsOf lengths).drop (d + 1)) (code - lengths.count (d + 1))) := by
  rw [drop_levelsOf lengths hd, canonicalSymbol]
  congr 1
  funext b
  dsimp only
  split
  · rename_i h
    rw [List.size_toArray] at h
    simp [List.getElem?_eq_getElem h]
  · rename_i h
    rw [List.size_toArray] at h
    simp [List.getElem?_eq_none (Nat.le_of_not_lt h)]

/-- The bits of a word from bit `d` on: `rank` counts how far the bits before
them lie beyond the code words that those could have been. -/
def IsWordFrom (lengths : List ℕ) (d rank symbol : ℕ) (w : List Bool) : Prop :=
  w ≠ [] ∧ lengthOf lengths symbol = d + w.length ∧ d + w.length ≤ maxCodeLength ∧
    wordNumber lengths symbol = 2 ^ w.length * (rank + filled lengths d) + fieldValue w.reverse

/-- The rest of a word after its bit `d` is the end of the word, or the word goes
on beyond the code words of `d + 1` bits. -/
lemma isWordFrom_cons {b : Bool} {w : List Bool} (hd : d < maxCodeLength) :
    IsWordFrom lengths d rank symbol (b :: w) ↔
      (w = [] ∧ (symbolsOfLength lengths (d + 1))[2 * rank + b.toNat]? = some symbol) ∨
      ((symbolsOfLength lengths (d + 1))[2 * rank + b.toNat]? = none ∧
        IsWordFrom lengths (d + 1) (2 * rank + b.toNat - lengths.count (d + 1)) symbol w) := by
  have hf := filled_succ lengths d
  rw [IsWordFrom, msb_cons, List.length_cons, ← Nat.add_assoc, Nat.add_right_comm]
  cases w with
  | nil =>
      rw [symbolsOfLength_getElem?, ← lengthOf_eq_iff (by omega)]
      simp only [List.length_nil, List.reverse_nil, fieldValue, IsWordFrom]
      constructor
      · rintro ⟨-, hl, -, hn⟩
        rw [wordNumber, Nat.add_zero] at *
        rw [hl, firstWord_succ] at hn
        exact .inl ⟨trivial, hl, by omega⟩
      · rintro (⟨-, hl, hc⟩ | ⟨-, hw, -⟩)
        · refine ⟨by simp, hl, by omega, ?_⟩
          rw [wordNumber, hl, hc, firstWord_succ]
          omega
        · exact absurd rfl hw
  | cons c w =>
      constructor
      · rintro ⟨-, hl, hle, hn⟩
        have hx := filled_le_of_longer (List.cons_ne_nil c w) hl hn
        refine .inr ⟨?_, by simp, hl, hle, ?_⟩
        · rw [List.getElem?_eq_none_iff, length_symbolsOfLength]
          omega
        · rw [hn]
          congr 2
          omega
      · rintro (⟨hw, -⟩ | ⟨hnone, -, hl, hle, hn⟩)
        · exact absurd hw (by simp)
        · rw [List.getElem?_eq_none_iff, length_symbolsOfLength] at hnone
          refine ⟨by simp, hl, hle, ?_⟩
          rw [hn]
          congr 2
          omega

/-- From level `d` on, a symbol is read exactly where the rest of its word is
held. -/
theorem canonicalSymbol_eq_done (hd : d ≤ maxCodeLength) :
    canonicalSymbol ((levelsOf lengths).drop d) rank input pos = .done symbol next ↔
      ∃ w, IsWordFrom lengths d rank symbol w ∧ Spells input pos w next := by
  induction h : maxCodeLength - d generalizing d rank pos with
  | zero =>
      obtain rfl : d = maxCodeLength := by omega
      rw [drop_levelsOf_all]
      constructor
      · intro h
        cases h
      · rintro ⟨w, ⟨hw, -, hl, -⟩, -⟩
        have := List.length_pos_of_ne_nil hw
        omega
  | succ k ih =>
      rw [canonicalSymbol_drop lengths (by omega)]
      simp only [BitReader.bind_eq_done, BitReader.bit_eq_done]
      constructor
      · rintro ⟨b, _, hb, hr⟩
        cases hs : (symbolsOfLength lengths (d + 1))[2 * rank + b.toNat]? with
        | some s =>
            rw [hs] at hr
            obtain ⟨rfl, rfl⟩ := BitReader.pure_eq_done.mp hr
            exact ⟨[b], (isWordFrom_cons (by omega)).mpr (.inl ⟨rfl, hs⟩), hb⟩
        | none =>
            rw [hs] at hr
            obtain ⟨w, hw, hh⟩ := (ih (by omega) (by omega)).mp hr
            exact ⟨b :: w, (isWordFrom_cons (by omega)).mpr (.inr ⟨hs, hw⟩), hb.append hh⟩
      · rintro ⟨w, hw, hh⟩
        obtain ⟨b, w, rfl⟩ := List.exists_cons_of_ne_nil hw.1
        obtain ⟨hb, hh⟩ := Spells.cons_iff.mp hh
        refine ⟨b, _, hb, ?_⟩
        rcases (isWordFrom_cons (by omega)).mp hw with ⟨rfl, hs⟩ | ⟨hs, hw⟩
        · rw [hs]
          exact BitReader.pure_eq_done.mpr ⟨rfl, (Spells.nil_iff.mp hh).symm⟩
        · rw [hs]
          exact (ih (by omega) (by omega)).mpr ⟨w, hw, hh⟩

/-- Where the bits so far leave room in a complete code, no word is refused. -/
lemma canonicalSymbol_ne_bad (hd : d ≤ maxCodeLength)
    (hc : filled lengths maxCodeLength = 2 ^ maxCodeLength)
    (hr : rank + filled lengths d < 2 ^ d) :
    canonicalSymbol ((levelsOf lengths).drop d) rank input pos ≠ .bad stop := by
  induction h : maxCodeLength - d generalizing d rank pos with
  | zero =>
      obtain rfl : d = maxCodeLength := by omega
      omega
  | succ k ih =>
      rw [canonicalSymbol_drop lengths (by omega)]
      intro hbad
      obtain ⟨b, _, -, hb⟩ := BitReader.neverBad_bit.bind_eq_bad.mp hbad
      cases hs : (symbolsOfLength lengths (d + 1))[2 * rank + b.toNat]? with
      | some s =>
          rw [hs] at hb
          cases hb
      | none =>
          rw [hs] at hb
          rw [List.getElem?_eq_none_iff, length_symbolsOfLength] at hs
          -- the bit leaves room, since it did not complete a word of this length
          have hf := filled_succ lengths d
          have hbit := Bool.toNat_le b
          have hp := Nat.pow_succ (m := d) (n := 2)
          exact ih (by omega) (by omega) (by omega) hb

/-- A complete code reads a symbol exactly where its code word is held. -/
theorem canonical_symbol_eq_done (hl : ∀ l ∈ lengths, l ≤ maxCodeLength)
    (hc : IsComplete lengths) :
    (canonical (levelsOf lengths)).symbol input pos = .done symbol next ↔
      lengthOf lengths symbol ≠ 0 ∧ Spells input pos (codeWord lengths symbol) next := by
  rw [PrefixCode.symbol, ← List.drop_zero (l := levelsOf lengths),
    canonicalSymbol_eq_done (Nat.zero_le maxCodeLength)]
  constructor
  · rintro ⟨w, ⟨hw, hlw, -, hn⟩, hh⟩
    rw [filled_zero, Nat.zero_add, Nat.mul_zero, Nat.zero_add] at hn
    rw [Nat.zero_add] at hlw
    have hword : codeWord lengths symbol = w := by
      rw [codeWord, hn, hlw, ← List.length_reverse, field_fieldValue, List.reverse_reverse]
    rw [hword, hlw]
    exact ⟨mt List.length_eq_zero_iff.mp hw, hh⟩
  · rintro ⟨hne, hh⟩
    have hle := hl _ (lengthOf_mem hne)
    refine ⟨codeWord lengths symbol, ⟨?_, ?_, ?_, ?_⟩, hh⟩
    · rw [← List.length_pos_iff, length_codeWord]
      omega
    · rw [length_codeWord, Nat.zero_add]
    · rw [length_codeWord, Nat.zero_add]
      exact hle
    · have hlt := wordNumber_lt hl hc hne
      rw [codeWord, List.reverse_reverse, fieldValue_field, Nat.mod_eq_of_lt hlt, filled_zero]
      simp

/-- A complete code refuses nothing. -/
theorem neverBad_canonical (hl : ∀ l ∈ lengths, l ≤ maxCodeLength) (hc : IsComplete lengths) :
    BitReader.NeverBad (canonical (levelsOf lengths)).symbol := by
  intro input pos stop
  rw [PrefixCode.symbol, ← List.drop_zero (l := levelsOf lengths)]
  refine canonicalSymbol_ne_bad (Nat.zero_le maxCodeLength) ?_ ?_
  · rw [filled_eq_kraft hl, hc, Nat.pow_eq]
  · rw [filled_zero]
    decide

end PrefixCode

end Deflate

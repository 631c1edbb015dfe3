/-
Symbols as they are written in codes that are complete or have at most one code
word.

* `Allowed`: the code lengths that give a code; `ofLengths?_eq_some_iff` says that
  exactly these are accepted;
* `Letter`: a symbol as it is written, by its code word or, where there is a
  single code word, by a late set bit that stands for symbol `0`;
* `Misread`: bits that no letter begins with;
* `symbol_eq_done` and `symbol_eq_bad`: a symbol is read exactly where a letter
  is held, and refused exactly where such bits are, with one bit counted.
-/
import Mathlib.Tactic
import Deflate.Proofs.CanonicalCode

namespace Deflate

/-! ### Codes with at most one code word -/

/-- How many symbols have a code word. -/
def codedCount (lengths : List ℕ) : ℕ :=
  lengths.countP (· ≠ 0)

/-- The code lengths that give a code: the code is complete, or it has at most
one code word. -/
def Allowed (lengths : List ℕ) : Prop :=
  IsComplete lengths ∨ codedCount lengths ≤ 1

instance (lengths : List ℕ) : Decidable (Allowed lengths) :=
  inferInstanceAs (Decidable (_ ∨ _))

lemma mem_codedSymbols {lengths : List ℕ} {symbol l : ℕ} :
    (symbol, l) ∈ codedSymbols lengths ↔ l ≠ 0 ∧ lengthOf lengths symbol = l := by
  rw [codedSymbols, List.mem_filterMap]
  constructor
  · rintro ⟨⟨m, k⟩, hm, hs⟩
    rw [List.mk_mem_zipIdx_iff_getElem?] at hm
    dsimp only at hs
    obtain ⟨hne, hp⟩ := Option.ite_none_left_eq_some.mp hs
    cases hp
    exact ⟨hne, (lengthOf_eq_iff hne).mpr hm⟩
  · rintro ⟨hne, hl⟩
    refine ⟨(l, symbol), List.mk_mem_zipIdx_iff_getElem?.mpr ((lengthOf_eq_iff hne).mp hl), ?_⟩
    simp [hne]

lemma length_codedSymbols (lengths : List ℕ) :
    (codedSymbols lengths).length = codedCount lengths := by
  rw [codedSymbols, List.length_filterMap_eq_countP]
  calc lengths.zipIdx.countP _
      = lengths.zipIdx.countP ((fun l => decide (l ≠ 0)) ∘ Prod.fst) := by
        refine List.countP_congr fun p _ => ?_
        by_cases h : p.1 = 0 <;> simp [h]
    _ = (lengths.zipIdx.map Prod.fst).countP fun l => decide (l ≠ 0) := List.countP_map.symm
    _ = codedCount lengths := by rw [List.zipIdx_map_fst, codedCount]

namespace PrefixCode

/-- The code with the given lengths, if these are allowed. -/
def ofLengths (lengths : List ℕ) : PrefixCode :=
  (ofLengths? lengths).getD .empty

lemma ofLengths?_of_two_le {lengths : List ℕ} (h : 2 ≤ codedCount lengths) :
    ofLengths? lengths = complete? lengths := by
  rw [← length_codedSymbols] at h
  rw [ofLengths?]
  split
  · rename_i hc
    simp [hc] at h
  · rename_i hc
    simp [hc] at h
  · rfl

/-- Exactly the allowed lengths are accepted. -/
theorem ofLengths?_eq_some_iff {lengths : List ℕ} {code : PrefixCode} :
    ofLengths? lengths = some code ↔ Allowed lengths ∧ code = ofLengths lengths := by
  have key : (ofLengths? lengths).isSome ↔ Allowed lengths := by
    rcases Nat.lt_or_ge (codedCount lengths) 2 with h | h
    · refine iff_of_true ?_ (.inr (by omega))
      rw [← length_codedSymbols] at h
      rw [ofLengths?]
      split
      · rfl
      · rfl
      · rename_i h0 h1
        rcases hc : codedSymbols lengths with _ | ⟨⟨s, l⟩, _ | ⟨_, _⟩⟩
        · exact absurd hc h0
        · exact absurd hc (h1 s l)
        · simp [hc] at h
    · rw [ofLengths?_of_two_le h, complete?, Allowed, or_iff_left (by omega)]
      split <;> simp [*]
  rw [← key, ofLengths]
  cases ofLengths? lengths <;> simp [eq_comm]

end PrefixCode

/-! ### Letters -/

/-- Clear bits and a set bit after them. -/
def lateBits (zeros : ℕ) : List Bool :=
  List.replicate zeros false ++ [true]

@[simp] lemma length_lateBits (zeros : ℕ) : (lateBits zeros).length = zeros + 1 := by
  simp [lateBits]

/-- A symbol as it is written. -/
inductive Letter where
  /-- The symbol is written by its code word. -/
  | regular (symbol : ℕ)
  /-- Symbol `0`, written by a set bit after that many clear ones. -/
  | late (zeros : ℕ)
  deriving Repr, DecidableEq

namespace Letter

/-- The symbol written. -/
def symbol : Letter → ℕ
  | regular symbol => symbol
  | late _ => 0

/-- The bits of the letter. -/
def bits (lengths : List ℕ) : Letter → List Bool
  | regular symbol => codeWord lengths symbol
  | late zeros => lateBits zeros

/-- A symbol with a code word can be written by it. Where there is a single code
word and it has more than ten bits, a set bit in place of a later bit can be
written for symbol `0`. -/
def Legal (lengths : List ℕ) : Letter → Prop
  | regular symbol => lengthOf lengths symbol ≠ 0
  | late zeros =>
      codedCount lengths = 1 ∧ PrefixCode.directBits ≤ zeros ∧ ∃ l ∈ lengths, zeros < l

instance (lengths : List ℕ) : DecidablePred (Legal lengths)
  | regular _ => inferInstanceAs (Decidable (_ ≠ _))
  | late _ => inferInstanceAs (Decidable (_ ∧ _ ∧ _))

end Letter

/-- Bits that no letter begins with: any bit where there is no code word, and a
set bit among the first ten of a single code word. -/
inductive Misread (lengths : List ℕ) : List Bool → Prop where
  /-- No symbol has a code word. -/
  | unused (b : Bool) : codedCount lengths = 0 → Misread lengths [b]
  /-- The single code word has a clear bit where a set bit is read. -/
  | early (zeros : ℕ) : codedCount lengths = 1 → zeros < PrefixCode.directBits →
      (∃ l ∈ lengths, zeros < l) → Misread lengths (lateBits zeros)

/-! ### A single code word -/

lemma field_zero (n : ℕ) : field n 0 = List.replicate n false := by
  induction n with
  | zero => rfl
  | succ n ih => rw [field, Nat.zero_div, ih, List.replicate_succ, Nat.zero_testBit]

section Lone

variable {lengths : List ℕ} {symbol l : ℕ}

lemma eq_of_lone (h : codedSymbols lengths = [(symbol, l)]) {s : ℕ}
    (hs : lengthOf lengths s ≠ 0) : s = symbol ∧ lengthOf lengths s = l := by
  have hm := mem_codedSymbols.mpr ⟨hs, rfl⟩
  rw [h, List.mem_singleton, Prod.mk.injEq] at hm
  exact hm

lemma lengthOf_lone (h : codedSymbols lengths = [(symbol, l)]) :
    l ≠ 0 ∧ lengthOf lengths symbol = l :=
  mem_codedSymbols.mp (h ▸ List.mem_singleton_self _)

lemma codedCount_lone (h : codedSymbols lengths = [(symbol, l)]) : codedCount lengths = 1 := by
  rw [← length_codedSymbols, h, List.length_singleton]

lemma eq_zero_or_eq_of_lone (h : codedSymbols lengths = [(symbol, l)]) {m : ℕ}
    (hm : m ∈ lengths) : m = 0 ∨ m = l := by
  obtain ⟨s, hs⟩ := List.mem_iff_getElem?.mp hm
  refine or_iff_not_imp_left.mpr fun hne => ?_
  have hl := (lengthOf_eq_iff hne).mpr hs
  rw [← hl]
  exact (eq_of_lone h (by rw [hl]; exact hne)).2

/-- A bound that some code length passes is passed by that of the single code
word. -/
lemma exists_lt_iff_of_lone (h : codedSymbols lengths = [(symbol, l)]) {n : ℕ} :
    (∃ m ∈ lengths, n < m) ↔ n < l := by
  obtain ⟨hne, hl⟩ := lengthOf_lone h
  constructor
  · rintro ⟨m, hm, hlt⟩
    rcases eq_zero_or_eq_of_lone h hm with rfl | rfl <;> omega
  · exact fun hlt => ⟨l, hl ▸ lengthOf_mem (by omega), hlt⟩

/-- A single code word consists of clear bits. -/
lemma codeWord_lone (h : codedSymbols lengths = [(symbol, l)]) :
    codeWord lengths symbol = List.replicate l false := by
  obtain ⟨hne, hl⟩ := lengthOf_lone h
  obtain ⟨k, rfl⟩ := Nat.exists_eq_succ_of_ne_zero hne
  -- no shorter word comes before it, and no other word of its length
  have hf : filled lengths k = 0 := by
    have hs : ∀ m ∈ lengths, spaceAt k m = 0 := by
      intro m hm
      rcases eq_zero_or_eq_of_lone h hm with rfl | rfl <;> simp [spaceAt]
    rw [filled_eq_sum, List.map_congr_left hs]
    simp
  have hc : (lengths.take symbol).count (k + 1) = 0 := by
    rw [List.count_eq_zero, List.mem_take_iff_getElem]
    rintro ⟨i, hi, hg⟩
    have hi' : i < lengths.length := by omega
    have hli := (lengthOf_eq_iff (Nat.succ_ne_zero k)).mpr (List.getElem?_eq_some_iff.mpr ⟨hi', hg⟩)
    have := (eq_of_lone h (by rw [hli]; exact hne)).1
    omega
  rw [codeWord, wordNumber, hl, firstWord_succ, hf, Nat.succ_eq_add_one, hc, field_zero,
    List.reverse_replicate]

end Lone

/-! ### Reading a letter -/

namespace PrefixCode

variable {lengths : List ℕ} {input : ByteArray} {pos next stop symbol : ℕ}

/-- The next bit of a single code word: a set bit ends it, a zero bit goes on. -/
lemma loneSymbol_succ_eq_done {word start seen left : ℕ} :
    loneSymbol word start seen (left + 1) input pos = .done symbol next ↔
      (symbol = 0 ∧ directBits ≤ seen ∧ Spells input pos [true] next) ∨
        ∃ mid, Spells input pos [false] mid ∧
          loneSymbol word start (seen + 1) left input mid = .done symbol next := by
  rw [loneSymbol]
  simp only [BitReader.bind_eq_done, BitReader.bit_eq_done]
  constructor
  · rintro ⟨b, mid, hb, hr⟩
    cases b with
    | false => exact .inr ⟨mid, hb, hr⟩
    | true =>
        rw [if_pos rfl] at hr
        split at hr
        · cases hr
        · rename_i hd
          obtain ⟨rfl, rfl⟩ := BitReader.pure_eq_done.mp hr
          exact .inl ⟨rfl, Nat.le_of_not_lt hd, hb⟩
  · rintro (⟨rfl, hd, hb⟩ | ⟨mid, hb, hr⟩)
    · refine ⟨true, next, hb, ?_⟩
      rw [if_pos rfl, if_neg (Nat.not_lt_of_le hd)]
      exact BitReader.pure_eq_done.mpr ⟨rfl, rfl⟩
    · exact ⟨false, mid, hb, hr⟩

/-- A set bit that comes early is refused. -/
lemma loneSymbol_succ_eq_bad {word start seen left : ℕ} :
    loneSymbol word start seen (left + 1) input pos = .bad stop ↔
      (stop = start + 1 ∧ seen < directBits ∧ Holds input pos [true]) ∨
        ∃ mid, Spells input pos [false] mid ∧
          loneSymbol word start (seen + 1) left input mid = .bad stop := by
  rw [loneSymbol, BitReader.neverBad_bit.bind_eq_bad]
  simp only [BitReader.bit_eq_done]
  constructor
  · rintro ⟨b, mid, hb, hr⟩
    cases b with
    | false => exact .inr ⟨mid, hb, hr⟩
    | true =>
        rw [if_pos rfl] at hr
        split at hr
        · rename_i hd
          cases hr
          exact .inl ⟨rfl, hd, hb.1⟩
        · cases hr
  · rintro (⟨rfl, hd, hb⟩ | ⟨mid, hb, hr⟩)
    · refine ⟨true, _, ⟨hb, rfl⟩, ?_⟩
      rw [if_pos rfl, if_pos hd]
      rfl
    · exact ⟨false, mid, hb, hr⟩

/-- The rest of a single code word is read where it is held, and symbol `0` where
a late set bit is. -/
lemma loneSymbol_eq_done {word start seen left : ℕ} :
    loneSymbol word start seen left input pos = .done symbol next ↔
      (symbol = word ∧ Spells input pos (List.replicate left false) next) ∨
        (symbol = 0 ∧ ∃ zeros, zeros < left ∧ directBits ≤ seen + zeros ∧
          Spells input pos (lateBits zeros) next) := by
  induction left generalizing seen pos next with
  | zero =>
      rw [loneSymbol, BitReader.pure_eq_done, List.replicate_zero, Spells.nil_iff]
      simp [eq_comm]
  | succ left ih =>
      rw [loneSymbol_succ_eq_done, List.replicate_succ]
      constructor
      · rintro (⟨rfl, hd, hb⟩ | ⟨_, hb, hr⟩)
        · exact .inr ⟨rfl, 0, Nat.succ_pos left, hd, hb⟩
        · rcases ih.mp hr with ⟨rfl, hw⟩ | ⟨rfl, z, hz, hd, hw⟩
          · exact .inl ⟨rfl, hb.append hw⟩
          · exact .inr ⟨rfl, z + 1, by omega, by omega, hb.append hw⟩
      · rintro (⟨rfl, hw⟩ | ⟨rfl, z, hz, hd, hw⟩)
        · obtain ⟨hb, hw⟩ := Spells.cons_iff.mp hw
          exact .inr ⟨_, hb, ih.mpr (.inl ⟨rfl, hw⟩)⟩
        · cases z with
          | zero => exact .inl ⟨rfl, hd, hw⟩
          | succ z =>
              obtain ⟨hb, hw⟩ := Spells.cons_iff.mp hw
              exact .inr ⟨_, hb, ih.mpr (.inr ⟨rfl, z, by omega, by omega, hw⟩)⟩

/-- The rest of a single code word is refused where an early set bit is held. -/
lemma loneSymbol_eq_bad {word start seen left : ℕ} :
    loneSymbol word start seen left input pos = .bad stop ↔
      stop = start + 1 ∧ ∃ zeros, zeros < left ∧ seen + zeros < directBits ∧
        Holds input pos (lateBits zeros) := by
  induction left generalizing seen pos with
  | zero =>
      rw [loneSymbol]
      constructor
      · intro h
        cases h
      · rintro ⟨-, z, hz, -⟩
        omega
  | succ left ih =>
      rw [loneSymbol_succ_eq_bad]
      constructor
      · rintro (⟨rfl, hd, hb⟩ | ⟨_, hb, hr⟩)
        · exact ⟨rfl, 0, Nat.succ_pos left, hd, hb⟩
        · obtain ⟨rfl, z, hz, hd, hw⟩ := ih.mp hr
          exact ⟨rfl, z + 1, by omega, by omega, hb.holds_append_iff.mpr hw⟩
      · rintro ⟨rfl, z, hz, hd, hw⟩
        cases z with
        | zero => exact .inl ⟨rfl, hd, hw⟩
        | succ z =>
            obtain ⟨hb, hw⟩ := Holds.cons_iff.mp hw
            exact .inr ⟨_, ⟨hb, rfl⟩, ih.mpr ⟨rfl, z, by omega, by omega, hw⟩⟩

lemma lone_symbol_apply (word more : ℕ) (input : ByteArray) (pos : ℕ) :
    (lone word more).symbol input pos = loneSymbol word pos 0 (more + 1) input pos := rfl

/-- The three kinds of codes with allowed lengths. -/
lemma ofLengths_cases (h : Allowed lengths) :
    (codedCount lengths = 0 ∧ ofLengths lengths = .empty) ∨
      (∃ word l, codedSymbols lengths = [(word, l)] ∧ ofLengths lengths = .lone word (l - 1)) ∨
      (2 ≤ codedCount lengths ∧ IsComplete lengths ∧
        ofLengths lengths = .canonical (levelsOf lengths)) := by
  rw [← length_codedSymbols]
  rcases hc : codedSymbols lengths with _ | ⟨⟨word, l⟩, _ | ⟨x, rest⟩⟩
  · refine .inl ⟨rfl, ?_⟩
    rw [ofLengths, ofLengths?, hc]
    rfl
  · refine .inr (.inl ⟨word, l, rfl, ?_⟩)
    rw [ofLengths, ofLengths?, hc]
    rfl
  · have h2 : 2 ≤ codedCount lengths := by simp [← length_codedSymbols, hc]
    have hi : IsComplete lengths := h.resolve_right (by omega)
    refine .inr (.inr ⟨by simp, hi, ?_⟩)
    rw [ofLengths, ofLengths?_of_two_le h2, complete?, if_pos hi]
    rfl

/-- Without any code word no symbol is read. -/
lemma symbol_eq_done_of_empty (hc : codedCount lengths = 0) :
    empty.symbol input pos = .done symbol next ↔
      ∃ letter : Letter, letter.Legal lengths ∧ letter.symbol = symbol ∧
        Spells input pos (letter.bits lengths) next := by
  rw [PrefixCode.symbol]
  constructor
  · intro h
    obtain ⟨_, _, _, h⟩ := BitReader.bind_eq_done.mp h
    cases h
  · rintro ⟨letter, hleg, -⟩
    cases letter with
    | regular s =>
        have hm := mem_codedSymbols.mpr ⟨hleg, rfl⟩
        rw [← length_codedSymbols, List.length_eq_zero_iff] at hc
        simp [hc] at hm
    | late z =>
        have h1 := hleg.1
        omega

/-- A single code word is read where it is held, or a letter in its place. -/
lemma symbol_eq_done_of_lone {word l : ℕ} (hc : codedSymbols lengths = [(word, l)]) :
    (lone word (l - 1)).symbol input pos = .done symbol next ↔
      ∃ letter : Letter, letter.Legal lengths ∧ letter.symbol = symbol ∧
        Spells input pos (letter.bits lengths) next := by
  obtain ⟨hne, hw⟩ := lengthOf_lone hc
  rw [lone_symbol_apply, Nat.sub_add_cancel (Nat.one_le_iff_ne_zero.mpr hne), loneSymbol_eq_done,
    ← codeWord_lone hc]
  constructor
  · rintro (⟨rfl, hs⟩ | ⟨rfl, z, hz, hd, hs⟩)
    · refine ⟨.regular _, ?_, rfl, hs⟩
      rw [Letter.Legal, hw]
      exact hne
    · exact ⟨.late z, ⟨codedCount_lone hc, by omega, (exists_lt_iff_of_lone hc).mpr hz⟩, rfl, hs⟩
  · rintro ⟨letter, hleg, rfl, hs⟩
    cases letter with
    | regular s =>
        obtain ⟨rfl, -⟩ := eq_of_lone hc hleg
        exact .inl ⟨rfl, hs⟩
    | late z =>
        obtain ⟨-, hd, hz⟩ := hleg
        exact .inr ⟨rfl, z, (exists_lt_iff_of_lone hc).mp hz, by omega, hs⟩

/-- A symbol is read exactly where a letter for it is held. -/
theorem symbol_eq_done (ha : Allowed lengths) (hl : ∀ l ∈ lengths, l ≤ maxCodeLength) :
    (ofLengths lengths).symbol input pos = .done symbol next ↔
      ∃ letter : Letter, letter.Legal lengths ∧ letter.symbol = symbol ∧
        Spells input pos (letter.bits lengths) next := by
  rcases ofLengths_cases ha with ⟨hc, ho⟩ | ⟨word, l, hc, ho⟩ | ⟨hc, hi, ho⟩
  · rw [ho, symbol_eq_done_of_empty hc]
  · rw [ho, symbol_eq_done_of_lone hc]
  · rw [ho, canonical_symbol_eq_done hl hi]
    constructor
    · rintro ⟨hne, hs⟩
      exact ⟨.regular symbol, hne, rfl, hs⟩
    · rintro ⟨letter, hleg, rfl, hs⟩
      cases letter with
      | regular s => exact ⟨hleg, hs⟩
      | late z =>
          have h1 := hleg.1
          omega

/-- Without any code word a bit is refused. -/
lemma symbol_eq_bad_of_empty (hc : codedCount lengths = 0) :
    empty.symbol input pos = .bad stop ↔
      stop = pos + 1 ∧ ∃ w, Misread lengths w ∧ Holds input pos w := by
  rw [PrefixCode.symbol, BitReader.neverBad_bit.bind_eq_bad]
  simp only [BitReader.bit_eq_done]
  constructor
  · rintro ⟨b, _, hb, h⟩
    cases h
    exact ⟨hb.2, [b], .unused b hc, hb.1⟩
  · rintro ⟨rfl, w, hw, hh⟩
    cases hw with
    | unused b => exact ⟨b, _, ⟨hh, rfl⟩, rfl⟩
    | early z h1 => omega

/-- In place of a single code word an early set bit is refused. -/
lemma symbol_eq_bad_of_lone {word l : ℕ} (hc : codedSymbols lengths = [(word, l)]) :
    (lone word (l - 1)).symbol input pos = .bad stop ↔
      stop = pos + 1 ∧ ∃ w, Misread lengths w ∧ Holds input pos w := by
  obtain ⟨hne, -⟩ := lengthOf_lone hc
  have h1 := codedCount_lone hc
  rw [lone_symbol_apply, Nat.sub_add_cancel (Nat.one_le_iff_ne_zero.mpr hne), loneSymbol_eq_bad]
  refine and_congr_right fun _ => ?_
  constructor
  · rintro ⟨z, hz, hd, hh⟩
    exact ⟨_, .early z h1 (by omega) ((exists_lt_iff_of_lone hc).mpr hz), hh⟩
  · rintro ⟨w, hw, hh⟩
    cases hw with
    | unused b h0 => omega
    | early z _ hd hz => exact ⟨z, (exists_lt_iff_of_lone hc).mp hz, by omega, hh⟩

/-- A symbol is refused exactly where bits are held that no letter begins with;
one bit counts as read. -/
theorem symbol_eq_bad (ha : Allowed lengths) (hl : ∀ l ∈ lengths, l ≤ maxCodeLength) :
    (ofLengths lengths).symbol input pos = .bad stop ↔
      stop = pos + 1 ∧ ∃ w, Misread lengths w ∧ Holds input pos w := by
  rcases ofLengths_cases ha with ⟨hc, ho⟩ | ⟨word, l, hc, ho⟩ | ⟨hc, hi, ho⟩
  · rw [ho, symbol_eq_bad_of_empty hc]
  · rw [ho, symbol_eq_bad_of_lone hc]
  · rw [ho]
    refine iff_of_false (fun h => neverBad_canonical hl hi h) ?_
    rintro ⟨-, w, hw, -⟩
    cases hw <;> omega

end PrefixCode

end Deflate

/-
Reading the tokens of a coded block.

* `Coding.Legal.literal` and its like: what a block may say about its codes
  gives codes that can be read;
* `lengthSpans_getElem?` and `distanceSpans_getElem?`: the tables of numbers that
  symbols stand for;
* `token_of_letter` and `token_of_length`: a token by its first bits;
* `token_eq_done`: a token is read exactly where a phrase for it is held, or the
  end of the block;
* `token_eq_bad`: it is refused exactly where a phrase is held that is not
  allowed.
-/
import Mathlib.Tactic
import Deflate.Proofs.Flaw

namespace Deflate

/-! ### The codes of a block -/

lemma le_of_mem_expandEntries {lengthCode : List ℕ} {last : Option ℕ} {es : List Entry}
    (h : LegalEntries lengthCode last es) (hl : ∀ l ∈ last, l ≤ maxCodeLength) :
    ∀ l ∈ expandEntries last es, l ≤ maxCodeLength := by
  induction es generalizing last with
  | nil => simp [expandEntries]
  | cons e es ih =>
      obtain ⟨⟨-, hr⟩, hes⟩ := h
      have hv : e.value last ≤ maxCodeLength := by
        cases e with
        | length l => exact hr
        | again n =>
            obtain ⟨l, rfl⟩ := Option.ne_none_iff_exists'.mp hr.1
            exact hl l rfl
        | zeros n => exact Nat.zero_le _
        | moreZeros n => exact Nat.zero_le _
      intro l hm
      rcases List.mem_append.mp hm with hm | hm
      · rw [List.eq_of_mem_replicate hm]
        exact hv
      · exact ih hes (by simpa using hv) l hm

namespace Coding

variable {c : Coding}

lemma Legal.literal (h : c.Legal) : Allowed c.literalLengths := by
  cases c with
  | fixed => exact .inl (by decide +kernel)
  | dynamic header => exact h.2.2.2.2.1

lemma Legal.distance (h : c.Legal) : Allowed c.distanceLengths := by
  cases c with
  | fixed => exact .inl (by decide +kernel)
  | dynamic header => exact h.2.2.2.2.2

lemma Legal.literal_le (h : c.Legal) : ∀ l ∈ c.literalLengths, l ≤ maxCodeLength := by
  cases c with
  | fixed => decide +kernel
  | dynamic header =>
      exact fun l hl => le_of_mem_expandEntries h.2.2.1 (by simp) l (List.mem_of_mem_take hl)

lemma Legal.distance_le (h : c.Legal) : ∀ l ∈ c.distanceLengths, l ≤ maxCodeLength := by
  cases c with
  | fixed => decide +kernel
  | dynamic header =>
      exact fun l hl => le_of_mem_expandEntries h.2.2.1 (by simp) l (List.mem_of_mem_drop hl)

/-- The codes that every decoder knows are those of their lengths. -/
lemma codes_fixed : fixed.codes = .fixed := by
  have hl : PrefixCode.ofLengths BlockCodes.fixedLiteralLengths =
      .canonical (PrefixCode.levelsOf BlockCodes.fixedLiteralLengths) := by
    rw [PrefixCode.ofLengths, PrefixCode.ofLengths?_of_two_le (by decide +kernel),
      PrefixCode.complete?, if_pos (by decide +kernel), Option.getD_some]
  have hd : PrefixCode.ofLengths BlockCodes.fixedDistanceLengths =
      .canonical (PrefixCode.levelsOf BlockCodes.fixedDistanceLengths) := by
    rw [PrefixCode.ofLengths, PrefixCode.ofLengths?_of_two_le (by decide +kernel),
      PrefixCode.complete?, if_pos (by decide +kernel), Option.getD_some]
  rw [codes, literalLengths, distanceLengths, hl, hd]
  rfl

end Coding

/-! ### Numbers that symbols stand for -/

lemma lengthSpans_getElem? {k : ℕ} {s : Span} :
    lengthSpans[k]? = some s ↔ k < 29 ∧ s = ⟨lengthBase k, lengthExtra k⟩ := by
  have key : ∀ k < 29, lengthSpans[k]? = some ⟨lengthBase k, lengthExtra k⟩ := by decide
  rcases Nat.lt_or_ge k 29 with h | h
  · rw [key k h]
    simp [h, eq_comm]
  · rw [Array.getElem?_eq_none (by simpa [lengthSpans] using h)]
    simp [h]

lemma distanceSpans_getElem? {k : ℕ} {s : Span} :
    distanceSpans[k]? = some s ↔ k < 30 ∧ s = ⟨distanceBase k, distanceExtra k⟩ := by
  have key : ∀ k < 30, distanceSpans[k]? = some ⟨distanceBase k, distanceExtra k⟩ := by decide
  rcases Nat.lt_or_ge k 30 with h | h
  · rw [key k h]
    simp [h, eq_comm]
  · rw [Array.getElem?_eq_none (by simpa [distanceSpans] using h)]
    simp [h]

variable {input : ByteArray} {pos next stop : ℕ}

lemma Span.number_eq_done_iff {s : Span} {v : ℕ} :
    s.number input pos = .done v next ↔
      ∃ more, more < 2 ^ s.extra ∧ v = s.base + more ∧
        Spells input pos (field s.extra more) next := by
  simp only [number, BitReader.bind_eq_done, BitReader.pure_eq_done, BitReader.bits_eq_done_iff]
  constructor
  · rintro ⟨more, _, ⟨hlt, hm⟩, rfl, rfl⟩
    exact ⟨more, hlt, rfl, hm⟩
  · rintro ⟨more, hlt, rfl, hm⟩
    exact ⟨more, _, ⟨hlt, hm⟩, rfl, rfl⟩

lemma Span.neverBad_number (s : Span) : BitReader.NeverBad s.number :=
  (BitReader.neverBad_bits s.extra).bind fun _ => BitReader.neverBad_pure _

lemma Letter.lengthIndex_eq {l : Letter} {k : ℕ} (hs : l.symbol = 257 + k) : l.lengthIndex = k := by
  have h : l.lengthIndex = l.symbol - 257 := rfl
  omega

namespace Phrase

variable {c : Coding} {l : Letter} {k more : ℕ}

lemma legalLength_iff (hs : l.symbol = 257 + k) :
    LegalLength c l more ↔ l.Legal c.literalLengths ∧ k < 29 ∧ more < 2 ^ lengthExtra k := by
  rw [LegalLength, Letter.lengthIndex_eq hs, hs]
  refine and_congr_right fun _ => ?_
  rw [← and_assoc]
  exact and_congr_left fun _ => by omega

lemma lengthBits_eq (hs : l.symbol = 257 + k) :
    lengthBits c l more = l.bits c.literalLengths ++ field (lengthExtra k) more := by
  rw [lengthBits, Letter.lengthIndex_eq hs]

end Phrase

namespace BlockCodes

variable {c : Coding}

/-! ### Symbols -/

lemma literal_eq_done (hc : c.Legal) {symbol : ℕ} :
    c.codes.literal.symbol input pos = .done symbol next ↔
      ∃ letter : Letter, letter.Legal c.literalLengths ∧ letter.symbol = symbol ∧
        Spells input pos (letter.bits c.literalLengths) next :=
  PrefixCode.symbol_eq_done hc.literal hc.literal_le

lemma literal_eq_bad (hc : c.Legal) :
    c.codes.literal.symbol input pos = .bad stop ↔
      stop = pos + 1 ∧ ∃ w, Misread c.literalLengths w ∧ Holds input pos w :=
  PrefixCode.symbol_eq_bad hc.literal hc.literal_le

lemma distance_eq_done (hc : c.Legal) {symbol : ℕ} :
    c.codes.distance.symbol input pos = .done symbol next ↔
      ∃ letter : Letter, letter.Legal c.distanceLengths ∧ letter.symbol = symbol ∧
        Spells input pos (letter.bits c.distanceLengths) next :=
  PrefixCode.symbol_eq_done hc.distance hc.distance_le

lemma distance_eq_bad (hc : c.Legal) :
    c.codes.distance.symbol input pos = .bad stop ↔
      stop = pos + 1 ∧ ∃ w, Misread c.distanceLengths w ∧ Holds input pos w :=
  PrefixCode.symbol_eq_bad hc.distance hc.distance_le

/-! ### The distance of a copy -/

/-- The rest of a copy is read exactly where a distance is held. -/
lemma copyOf_eq_done_iff (hc : c.Legal) {length : ℕ} {t : Token} :
    c.codes.copyOf length input pos = .done t next ↔
      ∃ (distance : Letter) (more : ℕ), distance.Legal c.distanceLengths ∧ distance.symbol < 30 ∧
        more < 2 ^ distanceExtra distance.symbol ∧
        t = .copy length (distanceBase distance.symbol + more) ∧
        Spells input pos
          (distance.bits c.distanceLengths ++ field (distanceExtra distance.symbol) more) next := by
  simp only [copyOf, BitReader.bind_eq_done, BitReader.pure_eq_done, distance_eq_done hc,
    BitReader.accept_eq_done_iff, distanceSpans_getElem?, Span.number_eq_done_iff]
  constructor
  · rintro ⟨_, _, ⟨d, hd, rfl, hs⟩, _, _, ⟨⟨hlt, rfl⟩, rfl⟩, _, _, ⟨more, hm, rfl, hf⟩, rfl, rfl⟩
    exact ⟨d, more, hd, hlt, hm, rfl, hs.append hf⟩
  · rintro ⟨d, more, hd, hlt, hm, rfl, hs⟩
    obtain ⟨_, hs, hf⟩ := Spells.append_iff.mp hs
    exact ⟨_, _, ⟨d, hd, rfl, hs⟩, _, _, ⟨⟨hlt, rfl⟩, rfl⟩, _, _, ⟨more, hm, rfl, hf⟩, rfl, rfl⟩

/-- The rest of a copy is refused exactly where bits are held that no distance
begins with, or a symbol beyond the distances. -/
lemma copyOf_eq_bad (hc : c.Legal) {length : ℕ} :
    c.codes.copyOf length input pos = .bad stop ↔
      (stop = pos + 1 ∧ ∃ w, Misread c.distanceLengths w ∧ Holds input pos w) ∨
        ∃ distance : Letter, distance.Legal c.distanceLengths ∧ 30 ≤ distance.symbol ∧
          Spells input pos (distance.bits c.distanceLengths) stop := by
  rw [copyOf, BitReader.bind_eq_bad, distance_eq_bad hc]
  refine or_congr_right ?_
  simp only [distance_eq_done hc]
  constructor
  · rintro ⟨_, _, ⟨d, hd, rfl, hs⟩, hr⟩
    rcases BitReader.bind_eq_bad.mp hr with hr | ⟨span, _, -, hr⟩
    · obtain ⟨hn, rfl⟩ := BitReader.accept_eq_bad.mp hr
      refine ⟨d, hd, ?_, hs⟩
      by_contra hlt
      rw [distanceSpans_getElem?.mpr ⟨Nat.lt_of_not_le hlt, rfl⟩] at hn
      cases hn
    · exact ((span.neverBad_number.bind fun _ => BitReader.neverBad_pure _) hr).elim
  · rintro ⟨d, hd, hge, hs⟩
    refine ⟨_, _, ⟨d, hd, rfl, hs⟩, BitReader.bind_eq_bad.mpr (.inl ?_)⟩
    refine BitReader.accept_eq_bad.mpr ⟨?_, rfl⟩
    rw [Array.getElem?_eq_none_iff]
    exact hge

/-! ### Tokens by their first symbol -/

lemma tokenOf_literal {symbol : ℕ} (h : symbol < 256) :
    c.codes.tokenOf symbol = pure (.literal (UInt8.ofNat symbol)) :=
  if_pos h

lemma tokenOf_endOfBlock : c.codes.tokenOf 256 = pure .endOfBlock := rfl

lemma tokenOf_length (k : ℕ) :
    c.codes.tokenOf (257 + k) =
      (do
        let span ← BitReader.accept lengthSpans[k]?
        c.codes.copyOf (← span.number)) := by
  rw [tokenOf, if_neg (by rw [endOfBlockSymbol]; omega), if_neg (by rw [endOfBlockSymbol]; omega),
    endOfBlockSymbol, Nat.add_sub_cancel_left]

/-- After a length symbol a token is read where the extra bits of the length and
the rest of the copy are. -/
lemma tokenOf_length_eq_done {k : ℕ} {t : Token} :
    c.codes.tokenOf (257 + k) input pos = .done t next ↔
      k < 29 ∧ ∃ more mid, more < 2 ^ lengthExtra k ∧
        Spells input pos (field (lengthExtra k) more) mid ∧
        c.codes.copyOf (lengthBase k + more) input mid = .done t next := by
  rw [tokenOf_length]
  simp only [BitReader.bind_eq_done, BitReader.accept_eq_done_iff, lengthSpans_getElem?,
    Span.number_eq_done_iff]
  constructor
  · rintro ⟨_, _, ⟨⟨hk, rfl⟩, rfl⟩, _, _, ⟨more, hm, rfl, hf⟩, hr⟩
    exact ⟨hk, more, _, hm, hf, hr⟩
  · rintro ⟨hk, more, _, hm, hf, hr⟩
    exact ⟨_, _, ⟨⟨hk, rfl⟩, rfl⟩, _, _, ⟨more, hm, rfl, hf⟩, hr⟩

/-- After a length symbol a token is refused where the symbol is beyond the
lengths, or where the rest of the copy is. -/
lemma tokenOf_length_eq_bad {k : ℕ} :
    c.codes.tokenOf (257 + k) input pos = .bad stop ↔
      (29 ≤ k ∧ stop = pos) ∨
        k < 29 ∧ ∃ more mid, more < 2 ^ lengthExtra k ∧
          Spells input pos (field (lengthExtra k) more) mid ∧
          c.codes.copyOf (lengthBase k + more) input mid = .bad stop := by
  rw [tokenOf_length, BitReader.bind_eq_bad]
  refine or_congr ?_ ?_
  · rw [BitReader.accept_eq_bad, Array.getElem?_eq_none_iff]
    rfl
  · simp only [BitReader.accept_eq_done_iff, lengthSpans_getElem?,
      (Span.neverBad_number _).bind_eq_bad, Span.number_eq_done_iff]
    constructor
    · rintro ⟨_, _, ⟨⟨hk, rfl⟩, rfl⟩, _, _, ⟨more, hm, rfl, hf⟩, hr⟩
      exact ⟨hk, more, _, hm, hf, hr⟩
    · rintro ⟨hk, more, _, hm, hf, hr⟩
      exact ⟨_, _, ⟨⟨hk, rfl⟩, rfl⟩, _, _, ⟨more, hm, rfl, hf⟩, hr⟩

/-- A symbol is a literal byte, the end of the block, or a length symbol. -/
lemma symbol_cases (symbol : ℕ) : symbol < 256 ∨ symbol = 256 ∨ ∃ k, symbol = 257 + k := by
  rcases Nat.lt_or_ge symbol 257 with h | h
  · omega
  · exact .inr (.inr ⟨symbol - 257, by omega⟩)

/-- Where a letter is held, a token goes on with its symbol. -/
lemma token_of_letter (hc : c.Legal) {l : Letter} {mid : ℕ} (hl : l.Legal c.literalLengths)
    (hs : Spells input pos (l.bits c.literalLengths) mid) :
    c.codes.token input pos = c.codes.tokenOf l.symbol input mid := by
  rw [token, BitReader.bind_apply, (literal_eq_done hc).mpr ⟨l, hl, rfl, hs⟩]

/-- Where a length is held, a token goes on with its distance. -/
lemma token_of_length (hc : c.Legal) {l : Letter} {more mid : ℕ}
    (hlen : Phrase.LegalLength c l more)
    (hs : Spells input pos (Phrase.lengthBits c l more) mid) :
    c.codes.token input pos = c.codes.copyOf (lengthBase l.lengthIndex + more) input mid := by
  obtain ⟨k, hk⟩ := Nat.exists_eq_add_of_le hlen.2.1
  obtain ⟨hl, h29, hm⟩ := (Phrase.legalLength_iff hk).mp hlen
  rw [Phrase.lengthBits_eq hk] at hs
  obtain ⟨start, hs, hf⟩ := Spells.append_iff.mp hs
  have hspan : BitReader.accept lengthSpans[k]? input start =
      .done ⟨lengthBase k, lengthExtra k⟩ start :=
    BitReader.accept_eq_done_iff.mpr ⟨lengthSpans_getElem?.mpr ⟨h29, rfl⟩, rfl⟩
  have hnumber : Span.number ⟨lengthBase k, lengthExtra k⟩ input start =
      .done (lengthBase k + more) mid :=
    Span.number_eq_done_iff.mpr ⟨more, hm, rfl, hf⟩
  rw [token_of_letter hc hl hs, hk, tokenOf_length, BitReader.bind_apply, hspan]
  dsimp only
  rw [BitReader.bind_apply, hnumber, Letter.lengthIndex_eq hk]

/-! ### Tokens -/

/-- Where a token is read, a phrase for it is held, or the end of the block. -/
lemma phrase_of_token (hc : c.Legal) {t : Token} (h : c.codes.token input pos = .done t next) :
    (∃ p : Phrase, p.Written c ∧ p.token = t ∧ Spells input pos (p.bits c) next) ∨
      (t = .endOfBlock ∧ lengthOf c.literalLengths 256 ≠ 0 ∧
        Spells input pos (blockEnd c) next) := by
  obtain ⟨_, _, hsymbol, hr⟩ := BitReader.bind_eq_done.mp h
  obtain ⟨l, hl, rfl, hs⟩ := (literal_eq_done hc).mp hsymbol
  rcases symbol_cases l.symbol with hsym | hsym | ⟨k, hsym⟩
  · rw [tokenOf_literal hsym] at hr
    obtain ⟨rfl, rfl⟩ := BitReader.pure_eq_done.mp hr
    exact .inl ⟨.literal l, ⟨hl, hsym⟩, rfl, hs⟩
  · rw [hsym, tokenOf_endOfBlock] at hr
    obtain ⟨rfl, rfl⟩ := BitReader.pure_eq_done.mp hr
    cases l with
    | regular s =>
        obtain rfl : s = 256 := hsym
        exact .inr ⟨rfl, hl, hs⟩
    | late z => cases hsym
  · rw [hsym, tokenOf_length_eq_done] at hr
    obtain ⟨hk, more, _, hm, hf, hr⟩ := hr
    obtain ⟨d, dmore, hd, hlt, hdm, rfl, hds⟩ := (copyOf_eq_done_iff hc).mp hr
    have hlen : Phrase.LegalLength c l more := (Phrase.legalLength_iff hsym).mpr ⟨hl, hk, hm⟩
    refine .inl ⟨.copy l more d dmore, ⟨hlen, hd, hlt, hdm⟩, ?_, ?_⟩
    · rw [Phrase.token, Letter.lengthIndex_eq hsym]
    · rw [Phrase.bits, Phrase.lengthBits_eq hsym]
      exact (hs.append hf).append hds

/-- Where a phrase is held, its token is read. -/
lemma token_of_phrase (hc : c.Legal) {p : Phrase} (hp : p.Written c)
    (hs : Spells input pos (p.bits c) next) : c.codes.token input pos = .done p.token next := by
  cases p with
  | literal l =>
      rw [token_of_letter hc hp.1 hs, tokenOf_literal hp.2]
      rfl
  | copy l more d dmore =>
      obtain ⟨hlen, hd, hlt, hdm⟩ := hp
      obtain ⟨_, hs, hds⟩ := Spells.append_iff.mp hs
      rw [token_of_length hc hlen hs]
      exact (copyOf_eq_done_iff hc).mpr ⟨d, dmore, hd, hlt, hdm, rfl, hds⟩

/-- A token is read exactly where a phrase for it is held, or the end of the
block. -/
theorem token_eq_done (hc : c.Legal) {t : Token} :
    c.codes.token input pos = .done t next ↔
      (∃ p : Phrase, p.Written c ∧ p.token = t ∧ Spells input pos (p.bits c) next) ∨
        (t = .endOfBlock ∧ lengthOf c.literalLengths 256 ≠ 0 ∧
          Spells input pos (blockEnd c) next) := by
  refine ⟨phrase_of_token hc, ?_⟩
  rintro (⟨p, hp, rfl, hs⟩ | ⟨rfl, hl, hs⟩)
  · exact token_of_phrase hc hp hs
  · exact token_of_letter hc (l := .regular 256) hl hs

/-- Where a token is refused, a phrase is held that is not allowed. -/
lemma badPhrase_of_token (hc : c.Legal) (h : c.codes.token input pos = .bad stop) :
    ∃ w counted, BadPhrase c w counted ∧ Holds input pos w ∧ stop = pos + counted := by
  rcases BitReader.bind_eq_bad.mp h with h | ⟨_, _, hsymbol, hr⟩
  · obtain ⟨rfl, w, hw, hh⟩ := (literal_eq_bad hc).mp h
    exact ⟨w, 1, .word w hw, hh, rfl⟩
  · obtain ⟨l, hl, rfl, hs⟩ := (literal_eq_done hc).mp hsymbol
    rcases symbol_cases l.symbol with h | h | ⟨k, h⟩
    · rw [tokenOf_literal h] at hr
      cases hr
    · rw [h, tokenOf_endOfBlock] at hr
      cases hr
    · rcases tokenOf_length_eq_bad.mp (h ▸ hr) with ⟨hk, rfl⟩ | ⟨hk, more, _, hm, hf, hr⟩
      · exact ⟨_, _, .symbol l hl (by omega), hs⟩
      · have hlen : Phrase.LegalLength c l more := (Phrase.legalLength_iff h).mpr ⟨hl, hk, hm⟩
        have hls := hs.append hf
        rw [← Phrase.lengthBits_eq (c := c) h] at hls
        rcases (copyOf_eq_bad hc).mp hr with ⟨rfl, w, hw, hh⟩ | ⟨d, hd, hge, hds⟩
        · refine ⟨_, _, .distanceWord l more w hlen hw, hls.holds_append_iff.mpr hh, ?_⟩
          rw [hls.2, Nat.add_assoc]
        · exact ⟨_, _, .distanceSymbol l more d hlen hd hge, hls.append hds⟩

/-- Where a phrase is held that is not allowed, a token is refused. -/
lemma token_of_badPhrase (hc : c.Legal) {w : List Bool} {counted : ℕ} (h : BadPhrase c w counted)
    (hh : Holds input pos w) : c.codes.token input pos = .bad (pos + counted) := by
  cases h with
  | word w hw => exact BitReader.bind_eq_bad.mpr (.inl ((literal_eq_bad hc).mpr ⟨rfl, w, hw, hh⟩))
  | symbol l hl hgt =>
      obtain ⟨k, hk⟩ := Nat.exists_eq_add_of_le (show 257 ≤ l.symbol by omega)
      rw [token_of_letter hc hl ⟨hh, rfl⟩, hk, tokenOf_length_eq_bad]
      exact .inl ⟨by omega, rfl⟩
  | distanceWord l more w hlen hw =>
      obtain ⟨hl, hh⟩ := Holds.append_iff.mp hh
      rw [token_of_length hc hlen ⟨hl, rfl⟩]
      exact (copyOf_eq_bad hc).mpr (.inl ⟨rfl, w, hw, hh⟩)
  | distanceSymbol l more d hlen hd hge =>
      obtain ⟨hl, hh⟩ := Holds.append_iff.mp hh
      rw [token_of_length hc hlen ⟨hl, rfl⟩, List.length_append, ← Nat.add_assoc]
      exact (copyOf_eq_bad hc).mpr (.inr ⟨d, hd, hge, hh, rfl⟩)

/-- A token is refused exactly where a phrase is held that is not allowed. -/
theorem token_eq_bad (hc : c.Legal) :
    c.codes.token input pos = .bad stop ↔
      ∃ w counted, BadPhrase c w counted ∧ Holds input pos w ∧ stop = pos + counted := by
  refine ⟨badPhrase_of_token hc, ?_⟩
  rintro ⟨w, counted, hw, hh, rfl⟩
  exact token_of_badPhrase hc hw hh

end BlockCodes

end Deflate

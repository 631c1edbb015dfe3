/-
Reading what a block says about its codes.

* `inSymbolOrder_given` and `given_inSymbolOrder`: the lengths of the code of code
  lengths come in an order of their own;
* `preamble`: the part before the list of code lengths, and `ownCodes_eq` for what
  follows it; `preamble_eq_done` and `preamble_eq_bad` say where it is read and
  where it is refused;
* `ownCodes_eq_done` and `ownCodes_eq_bad`: the codes are read exactly where a header
  is held that can be written, and refused exactly where one is that is not allowed.
-/
import Mathlib.Tactic
import Deflate.Proofs.LengthReading

namespace Deflate

namespace Block

variable {input : ByteArray} {pos next stop : ℕ}

/-! ### The code of code lengths -/

/-- Looking up what is given in order for the first entries of a list. -/
lemma lookup_zip_map {l : List ℕ} {n symbol : ℕ} (f : ℕ → ℕ) :
    (l.zip ((l.take n).map f)).lookup symbol =
      if symbol ∈ l.take n then some (f symbol) else none := by
  induction l generalizing n with
  | nil => simp
  | cons a l ih =>
      cases n with
      | zero => simp
      | succ n =>
          rw [List.take_succ_cons, List.map_cons, List.zip_cons_cons, List.lookup_cons, ih]
          by_cases h : symbol = a
          · simp [h]
          · simp [h, beq_false_of_ne h]

/-- Looking up all entries of a list without repetitions gives back what was
given. -/
lemma map_lookup_zip {l given : List ℕ} (hn : l.Nodup) (hl : given.length ≤ l.length) :
    (l.take given.length).map (fun symbol => ((l.zip given).lookup symbol).getD 0) = given := by
  induction l generalizing given with
  | nil =>
      obtain rfl : given = [] := List.length_eq_zero_iff.mp (by simpa using hl)
      rfl
  | cons a l ih =>
      cases given with
      | nil => rfl
      | cons v given =>
          obtain ⟨ha, hn⟩ := List.nodup_cons.mp hn
          rw [List.length_cons, List.take_succ_cons, List.map_cons, List.zip_cons_cons]
          congr 1
          · simp
          · refine (List.map_congr_left fun symbol hs => ?_).trans (ih hn (by simpa using hl))
            have hne : symbol ≠ a := fun h => ha (h ▸ List.mem_of_mem_take hs)
            rw [List.lookup_cons, beq_false_of_ne hne]

lemma lengthOf_inSymbolOrder {given : List ℕ} {symbol : ℕ} (h : symbol < 19) :
    lengthOf (inSymbolOrder given) symbol = ((codeLengthOrder.zip given).lookup symbol).getD 0 := by
  rw [lengthOf, inSymbolOrder, List.getD_eq_getElem?_getD, List.getElem?_map,
    List.getElem?_range (by simpa [codeLengthOrder] using h)]
  rfl

lemma length_inSymbolOrder (given : List ℕ) : (inSymbolOrder given).length = 19 := by
  simp [inSymbolOrder, codeLengthOrder]

lemma lt_of_mem_codeLengthOrder {symbol : ℕ} (h : symbol ∈ codeLengthOrder) : symbol < 19 := by
  revert symbol
  decide

lemma mem_codeLengthOrder {symbol : ℕ} (h : symbol < 19) : symbol ∈ codeLengthOrder := by
  revert symbol
  decide

lemma codeLengthOrder_nodup : codeLengthOrder.Nodup := by
  decide

/-- The lengths of a code of code lengths are found again in what is given of
them. -/
lemma inSymbolOrder_given {lengthCode : List ℕ} {n : ℕ} (hl : lengthCode.length = 19)
    (h0 : ∀ symbol ∈ codeLengthOrder.drop n, lengthOf lengthCode symbol = 0) :
    inSymbolOrder ((codeLengthOrder.take n).map (lengthOf lengthCode)) = lengthCode := by
  have hlen := length_inSymbolOrder ((codeLengthOrder.take n).map (lengthOf lengthCode))
  refine List.ext_getElem (by omega) fun symbol h₁ h₂ => ?_
  have hs : symbol < 19 := by omega
  have key : lengthOf (inSymbolOrder ((codeLengthOrder.take n).map (lengthOf lengthCode))) symbol =
      lengthOf lengthCode symbol := by
    rw [lengthOf_inSymbolOrder hs, lookup_zip_map]
    split
    · rfl
    · rename_i hm
      have ho := mem_codeLengthOrder hs
      rw [← List.take_append_drop n codeLengthOrder, List.mem_append] at ho
      rw [h0 symbol (ho.resolve_left hm)]
      rfl
  rw [lengthOf, lengthOf, List.getD_eq_getElem?_getD, List.getD_eq_getElem?_getD,
    List.getElem?_eq_getElem h₁, List.getElem?_eq_getElem h₂] at key
  exact key

/-- What is given of the lengths of a code of code lengths is found again in
them. -/
lemma given_inSymbolOrder {given : List ℕ} (hl : given.length ≤ 19) :
    (codeLengthOrder.take given.length).map (lengthOf (inSymbolOrder given)) = given := by
  refine (List.map_congr_left fun symbol hs => ?_).trans (map_lookup_zip codeLengthOrder_nodup hl)
  exact lengthOf_inSymbolOrder (lt_of_mem_codeLengthOrder (List.mem_of_mem_take hs))

/-- The lengths that are not given are zero. -/
lemma lengthOf_inSymbolOrder_of_drop {given : List ℕ} (hl : given.length ≤ 19) {symbol : ℕ}
    (h : symbol ∈ codeLengthOrder.drop given.length) :
    lengthOf (inSymbolOrder given) symbol = 0 := by
  have hn := codeLengthOrder_nodup
  rw [← List.take_append_drop given.length codeLengthOrder] at hn
  have hnot : symbol ∉ codeLengthOrder.take given.length := fun ht =>
    List.disjoint_of_nodup_append hn ht h
  have hlook : (codeLengthOrder.zip ((codeLengthOrder.take given.length).map
      (lengthOf (inSymbolOrder given)))).lookup symbol = _ := lookup_zip_map _
  rw [given_inSymbolOrder hl, if_neg hnot] at hlook
  rw [lengthOf_inSymbolOrder (lt_of_mem_codeLengthOrder (List.mem_of_mem_drop h)), hlook]
  rfl

lemma inSymbolOrder_lt {given : List ℕ} {n : ℕ} (hn : 0 < n) (h : ∀ l ∈ given, l < n) :
    ∀ l ∈ inSymbolOrder given, l < n := by
  intro l hl
  obtain ⟨symbol, -, rfl⟩ := List.mem_map.mp hl
  cases hlook : (codeLengthOrder.zip given).lookup symbol with
  | none => exact hn
  | some l =>
      obtain ⟨_, _, hz, -⟩ := List.lookup_eq_some_iff.mp hlook
      exact h l (List.of_mem_zip (hz ▸ List.mem_append_right _ List.mem_cons_self)).2

/-! ### The codes of a block -/

lemma complete?_eq_some_iff {lengths : List ℕ} {code : PrefixCode} :
    PrefixCode.complete? lengths = some code ↔
      IsComplete lengths ∧ code = .canonical (PrefixCode.levelsOf lengths) := by
  rw [PrefixCode.complete?, Option.ite_none_right_eq_some, Option.some.injEq, eq_comm (b := code)]

lemma complete?_eq_none_iff {lengths : List ℕ} :
    PrefixCode.complete? lengths = none ↔ ¬IsComplete lengths := by
  rw [PrefixCode.complete?]
  split <;> simp [*]

lemma codesOfLengths?_eq_some_iff {literals : ℕ} {lengths : List ℕ} {codes : BlockCodes} :
    codesOfLengths? literals lengths = some codes ↔
      Allowed (lengths.take literals) ∧ Allowed (lengths.drop literals) ∧
        codes = ⟨PrefixCode.ofLengths (lengths.take literals),
          PrefixCode.ofLengths (lengths.drop literals)⟩ := by
  simp only [codesOfLengths?, Option.bind_eq_bind, Option.bind_eq_some_iff,
    PrefixCode.ofLengths?_eq_some_iff]
  constructor
  · rintro ⟨_, ⟨hd, rfl⟩, _, ⟨hl, rfl⟩, h⟩
    exact ⟨hl, hd, (Option.some.inj h).symm⟩
  · rintro ⟨hl, hd, rfl⟩
    exact ⟨_, ⟨hd, rfl⟩, _, ⟨hl, rfl⟩, rfl⟩

lemma codesOfLengths?_eq_none_iff {literals : ℕ} {lengths : List ℕ} :
    codesOfLengths? literals lengths = none ↔
      ¬(Allowed (lengths.take literals) ∧ Allowed (lengths.drop literals)) := by
  rw [← Option.not_isSome_iff_eq_none, Option.isSome_iff_exists]
  simp [codesOfLengths?_eq_some_iff]

/-- Reads the preamble of the codes that a block brings with it. -/
def preamble : BitReader Preamble := do
  let literals := 257 + (← BitReader.bits 5)
  let distances := 1 + (← BitReader.bits 5)
  let given := 4 + (← BitReader.bits 4)
  BitReader.require (literals ≤ maxLiteralSymbols ∧ distances ≤ maxDistanceSymbols)
  let inOrder ← (BitReader.bits 3).times given
  let _ ← BitReader.accept (PrefixCode.complete? (inSymbolOrder inOrder))
  return { literals, distances, given, lengthCode := inSymbolOrder inOrder }

/-- The codes of a block are read as a preamble and a list of code lengths. -/
lemma ownCodes_eq :
    ownCodes =
      (do
        let p ← preamble
        let lengths ← codeLengths (.canonical (PrefixCode.levelsOf p.lengthCode)) none
          (p.literals + p.distances)
        BitReader.accept (codesOfLengths? p.literals lengths)) := by
  simp only [ownCodes, preamble, BitReader.bind_assoc, BitReader.pure_bind]
  refine congrArg _ (funext fun literals => congrArg _ (funext fun distances => ?_))
  refine congrArg _ (funext fun given => congrArg _ (funext fun _ => ?_))
  refine congrArg _ (funext fun inOrder => ?_)
  rw [PrefixCode.complete?]
  split <;> rfl

lemma counts_eq {a b n : ℕ} (code : List ℕ) :
    (⟨257 + a, 1 + b, 4 + n, code⟩ : Preamble).counts = field 5 a ++ field 5 b ++ field 4 n := by
  rw [Preamble.counts, Nat.add_sub_cancel_left, Nat.add_sub_cancel_left, Nat.add_sub_cancel_left]

/-- The three counts of a preamble, one after the other. -/
lemma spells_counts_iff {a b n : ℕ} {code : List ℕ} :
    Spells input pos (⟨257 + a, 1 + b, 4 + n, code⟩ : Preamble).counts next ↔
      ∃ mid mid', Spells input pos (field 5 a) mid ∧ Spells input mid (field 5 b) mid' ∧
        Spells input mid' (field 4 n) next := by
  rw [counts_eq]
  constructor
  · intro hs
    obtain ⟨_, hs, hn⟩ := Spells.append_iff.mp hs
    obtain ⟨_, ha, hb⟩ := Spells.append_iff.mp hs
    exact ⟨_, _, ha, hb, hn⟩
  · rintro ⟨_, _, ha, hb, hn⟩
    exact (ha.append hb).append hn

/-- A preamble is its counts and what is given of the code of code lengths. -/
lemma spells_preamble_iff {a b n : ℕ} {given : List ℕ} (hl : given.length = 4 + n)
    (hn : 4 + n ≤ 19) :
    Spells input pos (⟨257 + a, 1 + b, 4 + n, inSymbolOrder given⟩ : Preamble).bits next ↔
      ∃ mid, Spells input pos (⟨257 + a, 1 + b, 4 + n, inSymbolOrder given⟩ : Preamble).counts mid ∧
        Spells input mid (given.flatMap (field 3)) next := by
  have hg := given_inSymbolOrder (hl.trans_le hn)
  rw [hl] at hg
  rw [Preamble.bits, ← List.flatMap_map, hg, Spells.append_iff]

lemma preamble_inRange {a b n : ℕ} {given : List ℕ} (ha : 257 + a ≤ 286) (hb : 1 + b ≤ 30)
    (hn : 4 + n ≤ 19) (hl : given.length = 4 + n) (hg : ∀ l ∈ given, l < 8) :
    (⟨257 + a, 1 + b, 4 + n, inSymbolOrder given⟩ : Preamble).InRange :=
  ⟨Nat.le_add_right _ _, ha, Nat.le_add_right _ _, hb, Nat.le_add_right _ _, hn,
    length_inSymbolOrder given, inSymbolOrder_lt (by decide) hg,
    fun _ hs => lengthOf_inSymbolOrder_of_drop (hl.trans_le hn) (hl ▸ hs)⟩

/-- A preamble whose numbers have the right sizes is made of fields. -/
lemma exists_fields {p : Preamble} (h : p.InRange) :
    ∃ a b n given, p = ⟨257 + a, 1 + b, 4 + n, inSymbolOrder given⟩ ∧ 257 + a ≤ 286 ∧
      1 + b ≤ 30 ∧ 4 + n ≤ 19 ∧ given.length = 4 + n ∧ ∀ l ∈ given, l < 8 := by
  obtain ⟨literals, distances, given, code⟩ := p
  obtain ⟨hl, hl', hd, hd', hg, hg', hlen, hlt, h0⟩ := h
  dsimp only at hl hl' hd hd' hg hg' hlen hlt h0
  obtain ⟨a, rfl⟩ := Nat.exists_eq_add_of_le hl
  obtain ⟨b, rfl⟩ := Nat.exists_eq_add_of_le hd
  obtain ⟨n, rfl⟩ := Nat.exists_eq_add_of_le hg
  refine ⟨a, b, n, (codeLengthOrder.take (4 + n)).map (lengthOf code), ?_, hl', hd', hg', ?_, ?_⟩
  · rw [inSymbolOrder_given hlen h0]
  · simpa [codeLengthOrder] using hg'
  · intro l hm
    obtain ⟨symbol, -, rfl⟩ := List.mem_map.mp hm
    by_cases hs : lengthOf code symbol = 0
    · omega
    · exact hlt _ (lengthOf_mem hs)

/-- A preamble is read exactly where it is held and its code is complete. -/
lemma preamble_eq_done {p : Preamble} :
    preamble input pos = .done p next ↔
      p.InRange ∧ IsComplete p.lengthCode ∧ Spells input pos p.bits next := by
  simp only [preamble, BitReader.bind_eq_done, BitReader.bits_eq_done_iff,
    BitReader.require_eq_done_iff, BitReader.times_bits_eq_done, BitReader.accept_eq_done_iff,
    complete?_eq_some_iff, BitReader.pure_eq_done]
  constructor
  · rintro ⟨a, _, ⟨-, ha⟩, b, _, ⟨-, hb⟩, n, _, ⟨hn, hns⟩, _, _, ⟨⟨hl, hd⟩, rfl⟩, given, _,
      ⟨hg, hlt, hgs⟩, _, _, ⟨⟨hc, -⟩, rfl⟩, rfl, rfl⟩
    refine ⟨preamble_inRange hl hd (by omega) hg hlt, hc, ?_⟩
    exact (spells_preamble_iff hg (by omega)).mpr
      ⟨_, spells_counts_iff.mpr ⟨_, _, ha, hb, hns⟩, hgs⟩
  · rintro ⟨hp, hc, hs⟩
    obtain ⟨a, b, n, given, rfl, hl, hd, hn, hg, hlt⟩ := exists_fields hp
    obtain ⟨_, hs, hgs⟩ := (spells_preamble_iff hg hn).mp hs
    obtain ⟨_, _, ha, hb, hns⟩ := spells_counts_iff.mp hs
    exact ⟨a, _, ⟨by omega, ha⟩, b, _, ⟨by omega, hb⟩, n, _, ⟨by omega, hns⟩, (), _,
      ⟨⟨hl, hd⟩, rfl⟩, given, _, ⟨hg, hlt, hgs⟩, _, _, ⟨⟨hc, rfl⟩, rfl⟩, rfl, rfl⟩

/-- A preamble is refused exactly where one is held with too many symbols or
with a code that is not complete. -/
lemma preamble_eq_bad :
    preamble input pos = .bad stop ↔
      (∃ p : Preamble, 257 ≤ p.literals ∧ p.literals ≤ 288 ∧ 1 ≤ p.distances ∧ p.distances ≤ 32 ∧
        4 ≤ p.given ∧ p.given ≤ 19 ∧ (286 < p.literals ∨ 30 < p.distances) ∧
        Spells input pos p.counts stop) ∨
      ∃ p : Preamble, p.InRange ∧ ¬IsComplete p.lengthCode ∧ Spells input pos p.bits stop := by
  simp only [preamble, (BitReader.neverBad_bits _).bind_eq_bad, BitReader.bits_eq_done_iff,
    BitReader.bind_eq_bad (r := BitReader.require _), BitReader.require_eq_bad,
    BitReader.require_eq_done_iff, ((BitReader.neverBad_bits 3).times _).bind_eq_bad,
    BitReader.times_bits_eq_done, BitReader.bind_eq_bad (r := BitReader.accept _),
    BitReader.accept_eq_bad, complete?_eq_none_iff]
  constructor
  · rintro ⟨a, _, ⟨ha, has⟩, b, _, ⟨hb, hbs⟩, n, _, ⟨hn, hns⟩,
      ⟨hnot, rfl⟩ | ⟨_, _, ⟨⟨hl, hd⟩, rfl⟩, given, _, ⟨hg, hlt, hgs⟩, ⟨hc, rfl⟩ | ⟨_, _, -, hr⟩⟩⟩
    · rw [maxLiteralSymbols, maxDistanceSymbols, Classical.not_and_iff_not_or_not] at hnot
      have hcs : Spells input pos (⟨257 + a, 1 + b, 4 + n, []⟩ : Preamble).counts _ :=
        spells_counts_iff.mpr ⟨_, _, has, hbs, hns⟩
      refine .inl ⟨_, ?_, ?_, ?_, ?_, ?_, ?_, ?_, hcs⟩ <;> dsimp only <;> omega
    · refine .inr ⟨_, preamble_inRange hl hd (by omega) hg hlt, hc, ?_⟩
      exact (spells_preamble_iff hg (by omega)).mpr
        ⟨_, spells_counts_iff.mpr ⟨_, _, has, hbs, hns⟩, hgs⟩
    · cases hr
  · rintro (⟨⟨literals, distances, given, code⟩, hl, hl', hd, hd', hg, hg', hgt, hs⟩ |
      ⟨p, hp, hc, hs⟩)
    · dsimp only at hl hl' hd hd' hg hg' hgt
      obtain ⟨a, rfl⟩ := Nat.exists_eq_add_of_le hl
      obtain ⟨b, rfl⟩ := Nat.exists_eq_add_of_le hd
      obtain ⟨n, rfl⟩ := Nat.exists_eq_add_of_le hg
      obtain ⟨_, _, has, hbs, hns⟩ := spells_counts_iff.mp hs
      refine ⟨a, _, ⟨by omega, has⟩, b, _, ⟨by omega, hbs⟩, n, _, ⟨by omega, hns⟩, .inl ⟨?_, rfl⟩⟩
      rw [maxLiteralSymbols, maxDistanceSymbols]
      omega
    · obtain ⟨a, b, n, given, rfl, hl, hd, hn, hg, hlt⟩ := exists_fields hp
      obtain ⟨_, hs, hgs⟩ := (spells_preamble_iff hg hn).mp hs
      obtain ⟨_, _, has, hbs, hns⟩ := spells_counts_iff.mp hs
      exact ⟨a, _, ⟨by omega, has⟩, b, _, ⟨by omega, hbs⟩, n, _, ⟨by omega, hns⟩,
        .inr ⟨(), _, ⟨⟨hl, hd⟩, rfl⟩, given, _, ⟨hg, hlt, hgs⟩, .inl ⟨hc, rfl⟩⟩⟩

/-- The code of a preamble can be read. -/
lemma isLengthCode_of_inRange {p : Preamble} (hp : p.InRange) (hc : IsComplete p.lengthCode) :
    IsLengthCode p.lengthCode := by
  obtain ⟨-, -, -, -, -, -, hlen, hlt, -⟩ := hp
  refine ⟨hlen.le, ?_, hc⟩
  intro l hl
  have h8 := hlt l hl
  rw [maxCodeLength]
  omega

/-- The codes of a block are read exactly where what the block says about them is
held. -/
theorem ownCodes_eq_done {codes : BlockCodes} :
    ownCodes input pos = .done codes next ↔
      ∃ h : Header, h.Legal ∧ codes = (Coding.dynamic h).codes ∧ Spells input pos h.bits next := by
  simp only [ownCodes_eq, BitReader.bind_eq_done, preamble_eq_done, BitReader.accept_eq_done_iff,
    codesOfLengths?_eq_some_iff]
  constructor
  · rintro ⟨p, _, ⟨hp, hc, hps⟩, _, _, hls, ⟨hl, hd, rfl⟩, rfl⟩
    have hcode := isLengthCode_of_inRange hp hc
    obtain ⟨es, hes, rfl, hlen, hess⟩ := (codeLengths_eq_done hcode).mp hls
    exact ⟨⟨p, es⟩, ⟨hp, hc, hes, hlen, hl, hd⟩, rfl, hps.append hess⟩
  · rintro ⟨h, ⟨hp, hc, hes, hlen, hl, hd⟩, rfl, hs⟩
    obtain ⟨_, hps, hess⟩ := Spells.append_iff.mp hs
    exact ⟨_, _, ⟨hp, hc, hps⟩, _, _,
      (codeLengths_eq_done (isLengthCode_of_inRange hp hc)).mpr ⟨_, hes, rfl, hlen, hess⟩,
      ⟨hl, hd, rfl⟩, rfl⟩

/-- The codes of a block are refused exactly where the block says something about
them that is not allowed. -/
theorem ownCodes_eq_bad :
    ownCodes input pos = .bad stop ↔ ∃ w, BadCodes w ∧ Spells input pos w stop := by
  simp only [ownCodes_eq, BitReader.bind_eq_bad, preamble_eq_bad, preamble_eq_done,
    BitReader.accept_eq_bad, codesOfLengths?_eq_none_iff]
  constructor
  · rintro ((⟨p, hl, hl', hd, hd', hg, hg', hgt, hs⟩ | ⟨p, hp, hc, hs⟩) |
      ⟨p, _, ⟨hp, hc, hps⟩, hbad | ⟨_, _, hls, hnot, rfl⟩⟩)
    · exact ⟨_, .counts p hl hl' hd hd' hg hg' hgt, hs⟩
    · exact ⟨_, .lengthCode p hp hc, hs⟩
    · obtain ⟨w, hw, hws⟩ := (codeLengths_eq_bad (isLengthCode_of_inRange hp hc)).mp hbad
      exact ⟨_, .entries p w hp hc hw, hps.append hws⟩
    · have hcode := isLengthCode_of_inRange hp hc
      obtain ⟨es, hes, rfl, hlen, hess⟩ := (codeLengths_eq_done hcode).mp hls
      exact ⟨_, .codes ⟨p, es⟩ hp hc hes hlen hnot, hps.append hess⟩
  · rintro ⟨w, hw, hs⟩
    cases hw with
    | counts p hl hl' hd hd' hg hg' hgt =>
        exact .inl (.inl ⟨p, hl, hl', hd, hd', hg, hg', hgt, hs⟩)
    | lengthCode p hp hc => exact .inl (.inr ⟨p, hp, hc, hs⟩)
    | entries p w hp hc hw =>
        obtain ⟨_, hps, hws⟩ := Spells.append_iff.mp hs
        exact .inr ⟨p, _, ⟨hp, hc, hps⟩,
          .inl ((codeLengths_eq_bad (isLengthCode_of_inRange hp hc)).mpr ⟨w, hw, hws⟩)⟩
    | codes h hp hc hes hlen hnot =>
        obtain ⟨_, hps, hess⟩ := Spells.append_iff.mp hs
        exact .inr ⟨_, _, ⟨hp, hc, hps⟩, .inr ⟨_, _,
          (codeLengths_eq_done (isLengthCode_of_inRange hp hc)).mpr ⟨_, hes, rfl, hlen, hess⟩,
          hnot, rfl⟩⟩

end Block

end Deflate

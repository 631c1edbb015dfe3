/-
Renditions of the two lists of code lengths of a block.

* `codeLengthLists`: reads the two lists, and `ownCodes_eq_codeLengthLists`: the codes of a
  block are what is accepted of them;
* `Renders` and `Begins`: entries that give two lists of the sizes announced, and a beginning
  of such entries; `begins_iff` says that this is a matter of the first entry and of the
  number of lengths given;
* `Offence`: the first entry with which entries stop to be such a beginning, with the bits of
  it that are looked at (`exists_offence`);
* `inflate_of_badCodes`: a decode is refused there;
* `codeLengthLists_inverts_renditions`: the lists read are exactly those rendered.
-/
import Mathlib.Tactic
import Deflate.Proofs.RoundTrip

namespace Deflate

/-! ### Entries in a row -/

namespace Entry

/-- The entry can be written after some length. -/
def Writable (lengthCode : List ℕ) (e : Entry) : Prop :=
  lengthOf lengthCode e.symbol ≠ 0 ∧ ∃ last, e.InRange last

/-- Only a repetition depends on the length before it, and only on whether there is
one. -/
lemma inRange_or (last : Option ℕ) {e : Entry} (h : ∃ l, e.InRange l) :
    e.InRange last ∨ last = none ∧ e.symbol = 16 := by
  obtain ⟨l, h⟩ := h
  cases e with
  | length v => exact .inl h
  | again n =>
      by_cases hlast : last = none
      · exact .inr ⟨hlast, rfl⟩
      · exact .inl ⟨hlast, h.2⟩
  | zeros n => exact .inl h
  | moreZeros n => exact .inl h

/-- An entry that gives several lengths is a repetition. -/
lemma symbol_of_one_lt_times {e : Entry} (h : 1 < e.times) : 16 ≤ e.symbol := by
  cases e with
  | length v => exact absurd h (Nat.lt_irrefl 1)
  | again n => exact Nat.le_refl 16
  | zeros n => exact Nat.le_succ 16
  | moreZeros n => exact Nat.le_add_right 16 2

end Entry

/-- The length given last by entries after `last`. -/
def lastAfter (last : Option ℕ) (es : List Entry) : Option ℕ :=
  es.foldl (fun last e => some (e.value last)) last

lemma eq_nil_of_lastAfter {last : Option ℕ} {es : List Entry} (h : lastAfter last es = none) :
    es = [] := by
  rcases List.eq_nil_or_concat es with hes | ⟨front, e, rfl⟩
  · exact hes
  · simp [lastAfter] at h

/-- The entries can stand one after the other after `last`, in whatever code they are
written. -/
def Follow (last : Option ℕ) : List Entry → Prop
  | [] => True
  | e :: es => e.InRange last ∧ Follow (some (e.value last)) es

instance decidableFollow : ∀ last es, Decidable (Follow last es)
  | _, [] => .isTrue trivial
  | last, e :: es =>
      have := decidableFollow (some (e.value last)) es
      inferInstanceAs (Decidable (_ ∧ _))

lemma follow_append {last : Option ℕ} {es more : List Entry} :
    Follow last (es ++ more) ↔ Follow last es ∧ Follow (lastAfter last es) more := by
  induction es generalizing last with
  | nil => simp [Follow, lastAfter]
  | cons e es ih => simp only [List.cons_append, Follow, ih, and_assoc, lastAfter, List.foldl_cons]

lemma expandEntries_append (last : Option ℕ) (es more : List Entry) :
    expandEntries last (es ++ more) =
      expandEntries last es ++ expandEntries (lastAfter last es) more := by
  induction es generalizing last with
  | nil => rfl
  | cons e es ih => simp only [List.cons_append, expandEntries, ih, List.append_assoc, lastAfter,
      List.foldl_cons]

lemma length_expandEntries_concat (last : Option ℕ) (es : List Entry) (e : Entry) :
    (expandEntries last (es ++ [e])).length = (expandEntries last es).length + e.times := by
  simp [expandEntries_append, expandEntries]

/-- Any number of lengths can be given one by one. -/
lemma follow_lengths (last : Option ℕ) (k : ℕ) :
    Follow last (List.replicate k (.length 0)) ∧
      (expandEntries last (List.replicate k (.length 0))).length = k := by
  induction k generalizing last with
  | zero => exact ⟨trivial, rfl⟩
  | succ k ih =>
      obtain ⟨hfollow, hlen⟩ := ih (some 0)
      refine ⟨⟨Nat.zero_le _, hfollow⟩, ?_⟩
      calc (expandEntries last (.length 0 :: List.replicate k (.length 0))).length
          = 1 + (expandEntries (some 0) (List.replicate k (.length 0))).length :=
            List.length_append
        _ = k + 1 := by rw [hlen, Nat.add_comm]

/-- Entries can be written if they can follow each other and have code words. -/
lemma legalEntries_iff {lengthCode : List ℕ} {last : Option ℕ} {es : List Entry} :
    LegalEntries lengthCode last es ↔
      Follow last es ∧ ∀ e ∈ es, lengthOf lengthCode e.symbol ≠ 0 := by
  induction es generalizing last with
  | nil => simp [LegalEntries, Follow]
  | cons e es ih =>
      rw [LegalEntries, Entry.Legal, ih, Follow, List.forall_mem_cons]
      tauto

/-! ### Renditions and their beginnings -/

/-- The entries give two lists of the sizes announced. -/
def Renders (p : Preamble) (es : List Entry) (literal distance : List ℕ) : Prop :=
  literal.length = p.literals ∧ distance.length = p.distances ∧ Follow none es ∧
    expandEntries none es = literal ++ distance

/-- More entries can be added to give two lists of the sizes announced. -/
def Begins (p : Preamble) (es : List Entry) : Prop :=
  ∃ more literal distance, Renders p (es ++ more) literal distance

section Renditions

variable {p : Preamble} {es good : List Entry} {e : Entry}

lemma Renders.length_eq {literal distance : List ℕ} (h : Renders p es literal distance) :
    (expandEntries none es).length = p.literals + p.distances := by
  obtain ⟨hliteral, hdistance, -, he⟩ := h
  rw [he, List.length_append, hliteral, hdistance]

/-- Entries that give as many lengths as announced give two lists. -/
lemma renders_of_length (hf : Follow none es)
    (hl : (expandEntries none es).length = p.literals + p.distances) :
    Renders p es ((expandEntries none es).take p.literals)
      ((expandEntries none es).drop p.literals) := by
  refine ⟨?_, ?_, hf, (List.take_append_drop _ _).symm⟩
  · rw [List.length_take, hl]
    omega
  · rw [List.length_drop, hl]
    omega

/-- Entries begin a rendition if they can follow each other and do not give too many
lengths: what is missing can be given one by one. -/
theorem begins_iff :
    Begins p es ↔
      Follow none es ∧ (expandEntries none es).length ≤ p.literals + p.distances := by
  constructor
  · rintro ⟨more, literal, distance, hr⟩
    have hlen := hr.length_eq
    obtain ⟨-, -, hf, -⟩ := hr
    refine ⟨(follow_append.mp hf).1, ?_⟩
    rw [expandEntries_append, List.length_append] at hlen
    omega
  · rintro ⟨hf, hle⟩
    obtain ⟨k, hk⟩ := Nat.exists_eq_add_of_le hle
    obtain ⟨hfollow, hlen⟩ := follow_lengths (lastAfter none es) k
    refine ⟨_, _, _, renders_of_length (follow_append.mpr ⟨hf, hfollow⟩) ?_⟩
    rw [expandEntries_append, List.length_append, hlen, hk]

/-- The entry `e` cannot stand after the beginning `good` of a rendition, which is seen from
its bits `w`. -/
inductive Offence (p : Preamble) (good : List Entry) : (e : Entry) → (w : List Bool) → Prop where
  /-- A repetition in first position, seen from its code word. -/
  | again (times : ℕ) : good = [] → Offence p good (.again times) (codeWord p.lengthCode 16)
  /-- A repetition that gives more lengths than are missing, seen from all of its bits. -/
  | overshoot (e : Entry) : 16 ≤ e.symbol → e.InRange (lastAfter none good) →
      p.literals + p.distances < (expandEntries none good).length + e.times →
      Offence p good e (e.bits p.lengthCode)

/-- An entry that ends a beginning of a rendition offends, if lengths were missing. -/
lemma exists_offence_of_begins (hgood : Begins p good)
    (hmissing : ¬∃ literal distance, Renders p good literal distance)
    (he : e.Writable p.lengthCode) (hbad : ¬Begins p (good ++ [e])) : ∃ w, Offence p good e w := by
  obtain ⟨hf, hle⟩ := begins_iff.mp hgood
  rw [begins_iff, length_expandEntries_concat, follow_append] at hbad
  rcases Entry.inRange_or (lastAfter none good) he.2 with hr | ⟨hlast, hs⟩
  · have hfollow : Follow (lastAfter none good) [e] := ⟨hr, trivial⟩
    have hover : p.literals + p.distances < (expandEntries none good).length + e.times := by
      by_contra hnot
      exact hbad ⟨⟨hf, hfollow⟩, Nat.le_of_not_lt hnot⟩
    have hne : (expandEntries none good).length ≠ p.literals + p.distances := by
      intro heq
      exact hmissing ⟨_, _, renders_of_length hf heq⟩
    exact ⟨_, .overshoot e (Entry.symbol_of_one_lt_times (by omega)) hr hover⟩
  · obtain rfl := eq_nil_of_lastAfter hlast
    cases e with
    | again times => exact ⟨_, .again times rfl⟩
    | length v =>
        obtain ⟨-, _, hr⟩ := he
        have hv : v ≤ 15 := hr
        have hv' : v = 16 := hs
        omega
    | zeros n => cases hs
    | moreZeros n => cases hs

/-- Entries that begin no rendition have a first entry that offends, if the lists are not
complete before. -/
theorem exists_offence (hes : ∀ e ∈ es, e.Writable p.lengthCode) (hbad : ¬Begins p es)
    (hmissing : ∀ good e rest, es = good ++ e :: rest →
      ¬∃ literal distance, Renders p good literal distance) :
    ∃ good e rest w, es = good ++ e :: rest ∧ Begins p good ∧ Offence p good e w := by
  induction es using List.reverseRecOn with
  | nil =>
      have hnil : Begins p [] := begins_iff.mpr ⟨trivial, Nat.zero_le _⟩
      exact absurd hnil hbad
  | append_singleton front last ih =>
      by_cases hfront : Begins p front
      · have hlast := hes last (List.mem_append_right _ (List.mem_singleton_self last))
        obtain ⟨w, hw⟩ :=
          exists_offence_of_begins hfront (hmissing front last [] rfl) hlast hbad
        exact ⟨front, last, [], w, rfl, hfront, hw⟩
      · obtain ⟨good, e, rest, w, rfl, hgood, hw⟩ := ih
          (fun e he => hes e (List.mem_append_left _ he)) hfront (by
            intro good e rest h
            exact hmissing good e (rest ++ [last]) (by simp [h]))
        exact ⟨good, e, rest ++ [last], w, by simp, hgood, hw⟩

end Renditions

/-! ### Reading the two lists -/

section Reading

variable {p : Preamble} {good : List Entry} {e : Entry} {w : List Bool}

/-- An item that is not allowed after legal entries. -/
lemma badEntries_append {lengthCode : List ℕ} {last : Option ℕ} {missing : ℕ}
    (hg : LegalEntries lengthCode last good) (hlt : (expandEntries last good).length < missing)
    (hw : BadEntries lengthCode (lastAfter last good)
      (missing - (expandEntries last good).length) w) :
    BadEntries lengthCode last missing (good.flatMap (Entry.bits lengthCode) ++ w) := by
  induction good generalizing last missing with
  | nil => exact hw
  | cons e good ih =>
      obtain ⟨he, hg⟩ := hg
      rw [expandEntries, List.length_append, List.length_replicate] at hlt hw
      rw [← Nat.sub_sub] at hw
      rw [List.flatMap_cons, List.append_assoc]
      exact .later e he (by omega) (ih hg (by omega) hw)

/-- The first entry that offends is an item that is not allowed. -/
lemma badEntries_of_offence (hg : LegalEntries p.lengthCode none good)
    (hlt : (expandEntries none good).length < p.literals + p.distances)
    (he : lengthOf p.lengthCode e.symbol ≠ 0) (ho : Offence p good e w) :
    BadEntries p.lengthCode none (p.literals + p.distances)
      (good.flatMap (Entry.bits p.lengthCode) ++ w) := by
  cases ho with
  | again times hgood =>
      subst hgood
      exact .again (Nat.zero_lt_of_lt hlt) he
  | overshoot e hs hr hover =>
      exact badEntries_append hg hlt (.overshoot e (by omega) ⟨he, hr⟩ (by omega))

/-- Where the codes of a block are not allowed the decode is refused. -/
lemma inflate_of_badCodes (inflater : Inflater) {input target : ByteArray} {q : Progress}
    {final : Bool} (hq : q.Legal) (hhead : q.current = .head) (hw : BadCodes w)
    (hs : q.bits ++ (final :: field 2 2 ++ w) <+: bitsOf input) :
    (inflater.inflate input target).2 =
      (target, .error (.corrupt (bytesBefore (q.bits ++ (final :: field 2 2 ++ w)).length)
        DecodeError.badItem)) := by
  have hf : Flaw q (final :: field 2 2 ++ w) (final :: field 2 2 ++ w).length :=
    .head _ hhead (.codes final w hw)
  have hd := decode_eq_corrupt_iff.mpr ⟨rfl, q, _, _, hq, hf, hs, rfl⟩
  rw [List.length_append]
  exact Inflater.inflate_eq_error_iff.mpr ⟨hd, rfl⟩

namespace Block

/-- Reads the two lists of code lengths that a block brings with it. -/
def codeLengthLists : BitReader (List ℕ × List ℕ) := do
  let p ← preamble
  let lengths ← codeLengths (.canonical (PrefixCode.levelsOf p.lengthCode)) none
    (p.literals + p.distances)
  return (lengths.take p.literals, lengths.drop p.literals)

/-- The codes with the given lengths, if both are accepted. -/
def codesOfLists? (literal distance : List ℕ) : Option BlockCodes := do
  let distance ← PrefixCode.ofLengths? distance
  let literal ← PrefixCode.ofLengths? literal
  return { literal, distance }

/-- The codes of a block are those of its two lists. -/
lemma ownCodes_eq_codeLengthLists :
    ownCodes = codeLengthLists >>= fun lists =>
      BitReader.accept (codesOfLists? lists.1 lists.2) := by
  rw [ownCodes_eq, codeLengthLists]
  simp only [BitReader.bind_assoc, BitReader.pure_bind]
  rfl

/-- After a preamble that is held, two lists are read exactly where a rendition of them is
held. -/
lemma codeLengthLists_eq_done (hp : p.InRange) (hc : IsComplete p.lengthCode)
    {input : ByteArray} {pos mid next : ℕ} (hs : Spells input pos p.bits mid)
    {literal distance : List ℕ} :
    codeLengthLists input pos = .done (literal, distance) next ↔
      ∃ es, Renders p es literal distance ∧ (∀ e ∈ es, lengthOf p.lengthCode e.symbol ≠ 0) ∧
        Spells input mid (es.flatMap (Entry.bits p.lengthCode)) next := by
  rw [codeLengthLists, BitReader.bind_apply, preamble_eq_done.mpr ⟨hp, hc, hs⟩]
  simp only [BitReader.bind_eq_done, codeLengths_eq_done (isLengthCode_of_inRange hp hc),
    BitReader.pure_eq_done]
  constructor
  · rintro ⟨_, _, ⟨es, hes, rfl, hlen, hess⟩, hlists, rfl⟩
    obtain ⟨rfl, rfl⟩ := Prod.mk.inj hlists
    obtain ⟨hf, hcoded⟩ := legalEntries_iff.mp hes
    exact ⟨es, renders_of_length hf hlen, hcoded, hess⟩
  · rintro ⟨es, hr, hcoded, hess⟩
    have hlen := hr.length_eq
    obtain ⟨hliteral, -, hf, he⟩ := hr
    refine ⟨_, _, ⟨es, legalEntries_iff.mpr ⟨hf, hcoded⟩, rfl, hlen, hess⟩, ?_, rfl⟩
    rw [he, ← hliteral, List.take_left, List.drop_left]

/-- **The two lists read are those rendered.** The codes of a block are what is accepted of
two lists. After a preamble that is held, whatever follows, two lists are read exactly where
entries with code words are held that render them, and the position after them is that behind
the last entry. Entries that begin no rendition of two lists of these sizes have a first one
that offends: a repetition in first position, or one that gives too many lengths. (What
follows complete lists is not read as an entry, so the lists are not complete before the last
entry.) At the head of any block the input is found corrupt there: as soon as the code word of
the former has been read, or all bits of the latter. -/
theorem codeLengthLists_inverts_renditions (hp : p.InRange) (hc : IsComplete p.lengthCode) :
    (ownCodes = codeLengthLists >>= fun lists =>
      BitReader.accept (codesOfLists? lists.1 lists.2)) ∧
    (∀ input pos mid, Spells input pos p.bits mid → ∀ literal distance next,
      codeLengthLists input pos = .done (literal, distance) next ↔
        ∃ es, Renders p es literal distance ∧ (∀ e ∈ es, lengthOf p.lengthCode e.symbol ≠ 0) ∧
          Spells input mid (es.flatMap (Entry.bits p.lengthCode)) next) ∧
    ∀ es, (∀ e ∈ es, e.Writable p.lengthCode) → ¬Begins p es →
      (∀ good e rest, es = good ++ e :: rest →
        ¬∃ literal distance, Renders p good literal distance) →
      ∃ good e rest w, es = good ++ e :: rest ∧ Begins p good ∧ Offence p good e w ∧
        ∀ (inflater : Inflater) (input target : ByteArray) (q : Progress) (final : Bool),
          let seen := q.bits ++ (final :: field 2 2 ++
            (p.bits ++ (good.flatMap (Entry.bits p.lengthCode) ++ w)))
          q.Legal → q.current = .head → seen <+: bitsOf input →
          (inflater.inflate input target).2 =
            (target, .error (.corrupt ((seen.length + 7) / 8) DecodeError.badItem)) := by
  refine ⟨ownCodes_eq_codeLengthLists, ?_, ?_⟩
  · intro input pos mid hs literal distance next
    exact codeLengthLists_eq_done hp hc hs
  · intro es hes hbad hmissing
    obtain ⟨good, e, rest, w, rfl, hgood, ho⟩ := exists_offence hes hbad hmissing
    refine ⟨good, e, rest, w, rfl, hgood, ho, ?_⟩
    intro inflater input target q final seen hq hhead hs
    obtain ⟨hf, hle⟩ := begins_iff.mp hgood
    have hlegal : LegalEntries p.lengthCode none good :=
      legalEntries_iff.mpr ⟨hf, fun e he => (hes e (List.mem_append_left _ he)).1⟩
    have hne : (expandEntries none good).length ≠ p.literals + p.distances := by
      intro heq
      exact hmissing good e rest rfl ⟨_, _, renders_of_length hf heq⟩
    have hcoded := (hes e (List.mem_append_right _ List.mem_cons_self)).1
    have hw := badEntries_of_offence hlegal (Nat.lt_of_le_of_ne hle hne) hcoded ho
    exact inflate_of_badCodes inflater hq hhead (.entries p _ hp hc hw) hs

/-- The greatest number of zeros twice, more than the header of the stream with blocks of all
kinds has room for. -/
def manyZeros : List Entry :=
  [.moreZeros 138, .moreZeros 138]

lemma manyZeros_eq_append {good rest : List Entry} (h : manyZeros = good ++ e :: rest) :
    e = .moreZeros 138 ∧ (good = [] ∨ good = [.moreZeros 138]) := by
  rcases good with _ | ⟨e₁, _ | ⟨e₂, good⟩⟩
  · simp only [manyZeros, List.nil_append, List.cons.injEq] at h
    exact ⟨h.1.symm, .inl rfl⟩
  · simp only [manyZeros, List.cons_append, List.nil_append, List.cons.injEq] at h
    exact ⟨h.2.1.symm, .inr (h.1 ▸ rfl)⟩
  · simp [manyZeros] at h

/-- The header of the stream with blocks of all kinds is read to its end, and with too many
zeros in place of its entries it is refused, after all bits of the second of them. -/
theorem codeLengthLists_mixedHeader :
    codeLengthLists (pack (mixedHeader.bits ++ [true])) 0 =
        .done (mixedHeader.lengths.take 258, mixedHeader.lengths.drop 258) 103 ∧
      (Inflater.fresh.inflate (pack (true :: field 2 2 ++ (mixedHeader.toPreamble.bits ++
        manyZeros.flatMap (Entry.bits mixedHeader.lengthCode)) ++ List.replicate 7 true))
        .empty).2 = (.empty, .error (.corrupt 12 DecodeError.badItem)) := by
  have hp : mixedHeader.toPreamble.InRange := by decide
  have hc : IsComplete mixedHeader.toPreamble.lengthCode := by decide
  obtain ⟨-, hread, hrefused⟩ := codeLengthLists_inverts_renditions hp hc
  constructor
  · have h8 : 8 ∣ (mixedHeader.bits ++ [true]).length := by decide +kernel
    have hh : Holds (pack (mixedHeader.bits ++ [true])) 0 mixedHeader.bits := by
      simp [Holds, bitsOf_pack h8]
    have hs : Spells _ 0 mixedHeader.bits 103 := ⟨hh, by decide +kernel⟩
    obtain ⟨mid, hps, hess⟩ := Spells.append_iff.mp hs
    have hf : Follow none mixedHeader.entries := by decide
    refine (hread _ _ _ hps _ _ _).mpr ⟨mixedHeader.entries, ?_, by decide, hess⟩
    exact renders_of_length hf (by decide +kernel)
  · have hover : ¬Begins mixedHeader.toPreamble manyZeros := by
      rw [begins_iff]
      decide +kernel
    have hwritable : ∀ e ∈ manyZeros, e.Writable mixedHeader.lengthCode := by
      intro e he
      obtain rfl : e = .moreZeros 138 := by simpa [manyZeros] using he
      exact ⟨by decide, none, by decide⟩
    have hmissing : ∀ good e rest, manyZeros = good ++ e :: rest →
        ¬∃ literal distance, Renders mixedHeader.toPreamble good literal distance := by
      rintro good e rest h ⟨literal, distance, hr⟩
      have hlen := hr.length_eq
      obtain ⟨-, rfl | rfl⟩ := manyZeros_eq_append h
      · cases hlen
      · revert hlen
        decide +kernel
    obtain ⟨good, e, rest, w, h, -, ho, hcorrupt⟩ := hrefused _ hwritable hover hmissing
    obtain ⟨rfl, rfl | rfl⟩ := manyZeros_eq_append h
    · cases ho with
      | overshoot _ _ _ hlt => exact absurd hlt (by decide +kernel)
    · cases ho with
      | overshoot _ _ _ hlt =>
          have h8 : 8 ∣ (true :: field 2 2 ++ (mixedHeader.toPreamble.bits ++
              manyZeros.flatMap (Entry.bits mixedHeader.lengthCode)) ++
              List.replicate 7 true).length := by decide +kernel
          have hs := hcorrupt .fresh _ .empty ⟨[], .head⟩ true ⟨trivial, trivial⟩ rfl
            (holds_pack h8 .empty)
          rw [ByteArray.append_empty] at hs
          exact hs

end Block

end Reading

end Deflate

/-
A decode reads exactly the streams that can be written.

* `reaches_progress` and `reaches_stream`: what is held is read, phrase by phrase
  and block by block;
* `Configuration.Parsed` and `Moves.parsed`: whatever has been read is the front of
  a stream that can be written;
* `Progress.IsAt.ends` and `Configuration.Parsed.flaw`: it ends at an item that is not
  allowed, and finds the input corrupt nowhere else.
-/
import Mathlib.Tactic
import Deflate.Proofs.Progress

namespace Deflate

variable {input : ByteArray} {pos next : ℕ} {out : List UInt8} {final : Bool} {coding : Coding}

/-! ### What is held is read -/

lemma reaches_copy {codes : BlockCodes} (distance left : ℕ) :
    Reaches input ⟨out, ⟨pos, .copying final codes distance left⟩⟩
      ⟨copyBack out distance left, ⟨pos, .coded final codes⟩⟩ := by
  induction left generalizing out with
  | zero => exact .single .copyEnd
  | succ left ih => exact .head .copyByte ih

lemma reaches_phrase (hc : coding.Legal) {p : Phrase} (hw : p.Written coding)
    (hr : p.token.InReach out.length) (hs : Spells input pos (p.bits coding) next) :
    Reaches input ⟨out, ⟨pos, .coded final coding.codes⟩⟩
      ⟨p.token.expand out, ⟨next, .coded final coding.codes⟩⟩ := by
  have ht : coding.codes.token input pos = .done p.token next :=
    BlockCodes.token_of_phrase hc hw hs
  cases p with
  | literal letter => exact .single (.literal ht)
  | copy length more distance more' => exact .head (.copy ht hr.2) (reaches_copy _ _)

lemma reaches_phrases (hc : coding.Legal) {ps : List Phrase} (hps : LegalPhrases coding out ps)
    (hs : Spells input pos (ps.flatMap (Phrase.bits coding)) next) :
    Reaches input ⟨out, ⟨pos, .coded final coding.codes⟩⟩
      ⟨expandPhrases out ps, ⟨next, .coded final coding.codes⟩⟩ := by
  induction ps generalizing out pos with
  | nil =>
      obtain rfl := Spells.nil_iff.mp hs
      exact .refl
  | cons p ps ih =>
      obtain ⟨hw, hr, hps⟩ := hps
      obtain ⟨_, hp, hs⟩ := Spells.append_iff.mp hs
      exact (reaches_phrase hc hw hr hp).trans (ih hps hs)

lemma reaches_bytes {bytes : List UInt8} {left : ℕ}
    (hs : Spells input pos (bitsOfBytes bytes) next) :
    Reaches input ⟨out, ⟨pos, .stored final (bytes.length + left)⟩⟩
      ⟨out ++ bytes, ⟨next, .stored final left⟩⟩ := by
  induction bytes generalizing out pos with
  | nil =>
      obtain rfl := Spells.nil_iff.mp hs
      rw [List.length_nil, Nat.zero_add, List.append_nil]
  | cons byte bytes ih =>
      obtain ⟨_, hb, hs⟩ := Spells.append_iff.mp hs
      have hm : Moves input ⟨out, ⟨pos, .stored final (bytes.length + left + 1)⟩⟩ _ :=
        .storedByte (BitReader.byte_eq_done.mpr hb)
      rw [List.length_cons, Nat.add_right_comm, List.append_cons]
      exact .head hm (ih hs)

/-- The part of a block that is held is read. -/
lemma reaches_current (current : Current) (hl : current.Legal pos out)
    (hs : Spells input pos current.bits next) :
    Reaches input ⟨out, ⟨pos, .head⟩⟩ ⟨current.expand out, ⟨next, current.phase⟩⟩ := by
  cases current with
  | head =>
      obtain rfl := Spells.nil_iff.mp hs
      exact .refl
  | stored final padding bytes left =>
      obtain ⟨_, hh, hs⟩ := Spells.append_iff.mp hs
      have hd := Block.head_eq_done.mpr ⟨_, .stored padding _ hl, hh⟩
      exact .head (.storedHead hd) (reaches_bytes hs)
  | coded final coding phrases =>
      obtain ⟨hc, hps⟩ := hl
      obtain ⟨_, hh, hs⟩ := Spells.append_iff.mp hs
      have hd := Block.head_eq_done.mpr ⟨_, .coded coding hc, hh⟩
      exact .head (.codedHead hd) (reaches_phrases hc hps hs)

/-- A block that is held is read. -/
lemma reaches_block {b : Block} (hl : b.Legal pos out) (hs : Spells input pos (b.bits final) next) :
    Reaches input ⟨out, ⟨pos, .head⟩⟩ ⟨b.expand out, ⟨next, .after final⟩⟩ := by
  cases b with
  | stored padding bytes =>
      have hr : Reaches input ⟨out, ⟨pos, .head⟩⟩ ⟨out ++ bytes, ⟨next, .stored final 0⟩⟩ :=
        reaches_current (.stored final padding bytes 0) hl hs
      exact hr.tail .storedEnd
  | coded coding phrases =>
      obtain ⟨hc, hps, h256⟩ := hl
      obtain ⟨mid, hs, he⟩ := Spells.append_iff.mp hs
      have hr : Reaches input ⟨out, ⟨pos, .head⟩⟩
          ⟨expandPhrases out phrases, ⟨mid, .coded final coding.codes⟩⟩ :=
        reaches_current (.coded final coding phrases) ⟨hc, hps⟩ hs
      exact hr.tail (.codedEnd ((BlockCodes.token_eq_done hc).mpr (.inr ⟨rfl, h256, he⟩)))

lemma reaches_blocks {bs : List Block} (hl : LegalBlocks pos out bs)
    (hs : Spells input pos (blocksBits bs) next) :
    Reaches input ⟨out, ⟨pos, .head⟩⟩ ⟨expandBlocks out bs, ⟨next, .head⟩⟩ := by
  induction bs generalizing out pos with
  | nil =>
      obtain rfl := Spells.nil_iff.mp hs
      exact .refl
  | cons b bs ih =>
      obtain ⟨hb, hl⟩ := hl
      obtain ⟨_, hbs, hs⟩ := Spells.append_iff.mp hs
      obtain rfl := hbs.2
      exact (reaches_block hb hbs).trans (ih hl hs)

/-- The front of a stream that is held is read. -/
theorem reaches_progress {p : Progress} (h : p.IsAt input pos out) :
    Reaches input .start ⟨out, ⟨pos, p.current.phase⟩⟩ := by
  obtain ⟨⟨he, hc⟩, hs, rfl⟩ := h
  obtain ⟨mid, hes, hcs⟩ := Spells.append_iff.mp hs
  have hmid : mid = (blocksBits p.earlier).length := hes.2.trans (Nat.zero_add _)
  exact (reaches_blocks he hes).trans (reaches_current p.current (hmid ▸ hc) hcs)

/-- A stream that is held is read. -/
theorem reaches_stream {s : Stream} (hl : s.Legal) (hs : Spells input 0 s.bits pos) :
    Reaches input .start ⟨s.output, ⟨pos, .finished⟩⟩ := by
  obtain ⟨he, hb⟩ := hl
  obtain ⟨mid, hes, hbs⟩ := Spells.append_iff.mp hs
  have hmid : mid = (blocksBits s.earlier).length := hes.2.trans (Nat.zero_add _)
  exact (reaches_blocks he hes).trans (reaches_block (hmid ▸ hb) hbs)

/-! ### What is read is held -/

/-- Whatever has been read up to here is the front of a stream that can be written;
a copy that is going on belongs to it as a whole. -/
def Configuration.Parsed (input : ByteArray) (c : Configuration) : Prop :=
  match c.machine.phase with
  | .head => ∃ earlier, Progress.IsAt input ⟨earlier, .head⟩ c.machine.position c.output
  | .stored final left =>
      ∃ earlier padding bytes,
        Progress.IsAt input ⟨earlier, .stored final padding bytes left⟩ c.machine.position c.output
  | .coded final codes =>
      ∃ earlier coding phrases, codes = coding.codes ∧
        Progress.IsAt input ⟨earlier, .coded final coding phrases⟩ c.machine.position c.output
  | .copying final codes distance left =>
      ∃ earlier coding phrases, codes = coding.codes ∧
        Progress.IsAt input ⟨earlier, .coded final coding phrases⟩ c.machine.position
          (copyBack c.output distance left)
  | .finished =>
      ∃ s : Stream, s.Legal ∧ Spells input 0 s.bits c.machine.position ∧ s.output = c.output

namespace Progress.IsAt

/-- At the beginning nothing has been read. -/
lemma start : IsAt input ⟨[], .head⟩ 0 [] where
  legal := ⟨trivial, trivial⟩
  spells := Spells.nil_iff.mpr rfl
  output := rfl

variable {earlier : List Block}

/-- More of a block is read. -/
lemma extend {current later : Current} {w : List Bool} {out' : List UInt8}
    (h : IsAt input ⟨earlier, current⟩ pos out)
    (hl : later.Legal (blocksBits earlier).length (expandBlocks [] earlier))
    (hb : later.bits = current.bits ++ w) (hs : Spells input pos w next)
    (ho : later.expand (expandBlocks [] earlier) = out') :
    IsAt input ⟨earlier, later⟩ next out' where
  legal := ⟨h.legal.1, hl⟩
  spells := by
    rw [bits, hb, ← List.append_assoc]
    exact h.spells.append hs
  output := ho

/-- At the head of a block all blocks before it have been read. -/
lemma position_of_head (h : IsAt input ⟨earlier, .head⟩ pos out) :
    pos = (blocksBits earlier).length := by
  have hp := h.spells.2
  rw [bits, Current.bits, List.append_nil, Nat.zero_add] at hp
  exact hp

/-- The head of a stored block is read. -/
lemma storedHead {length : ℕ} (h : IsAt input ⟨earlier, .head⟩ pos out)
    (hr : Block.head input pos = .done (final, .stored length) next) :
    ∃ padding, IsAt input ⟨earlier, .stored final padding [] length⟩ next out := by
  obtain ⟨w, hw, hs⟩ := Block.head_eq_done.mp hr
  obtain rfl := h.position_of_head
  cases hw with
  | stored padding length hl =>
      refine ⟨padding, h.extend ?_ ?_ hs ?_⟩
      · rw [Current.Legal, List.length_nil, Nat.zero_add]
        exact hl
      · simp [Current.bits]
      · exact (List.append_nil _).trans h.output

/-- The head of a coded block is read. -/
lemma codedHead {codes : BlockCodes} (h : IsAt input ⟨earlier, .head⟩ pos out)
    (hr : Block.head input pos = .done (final, .coded codes) next) :
    ∃ coding : Coding, codes = coding.codes ∧
      IsAt input ⟨earlier, .coded final coding []⟩ next out := by
  obtain ⟨w, hw, hs⟩ := Block.head_eq_done.mp hr
  cases hw with
  | coded coding hc =>
      refine ⟨coding, rfl, h.extend ⟨hc, trivial⟩ ?_ hs h.output⟩
      simp [Current.bits]

/-- One more byte of a stored block is read. -/
lemma byte {padding : List Bool} {bytes : List UInt8} {left : ℕ} {byte : UInt8}
    (h : IsAt input ⟨earlier, .stored final padding bytes (left + 1)⟩ pos out)
    (hs : Spells input pos (field 8 byte.toNat) next) :
    IsAt input ⟨earlier, .stored final padding (bytes ++ [byte]) left⟩ next (out ++ [byte]) := by
  have hn : (bytes ++ [byte]).length + left = bytes.length + (left + 1) := by
    rw [List.length_append, List.length_singleton]
    omega
  have ho : expandBlocks [] earlier ++ bytes = out := h.output
  refine h.extend ?_ ?_ hs ?_
  · rw [Current.Legal, hn]
    exact h.legal.2
  · rw [Current.bits, Current.bits, hn, bitsOfBytes_append, List.append_assoc]
    rfl
  · rw [Current.expand, ← List.append_assoc, ho]

/-- One more phrase of a coded block is read. -/
lemma phrase {phrases : List Phrase} {p : Phrase}
    (h : IsAt input ⟨earlier, .coded final coding phrases⟩ pos out) (hw : p.Written coding)
    (hr : p.token.InReach out.length) (hs : Spells input pos (p.bits coding) next) :
    IsAt input ⟨earlier, .coded final coding (phrases ++ [p])⟩ next (p.token.expand out) := by
  obtain ⟨hc, hps⟩ := h.legal.2
  have ho : expandPhrases (expandBlocks [] earlier) phrases = out := h.output
  refine h.extend ⟨hc, legalPhrases_concat.mpr ⟨hps, hw, ho.symm ▸ hr⟩⟩ ?_ hs ?_
  · rw [Current.bits, Current.bits, List.flatMap_append, List.flatMap_singleton, List.append_assoc]
  · rw [Current.expand, expandPhrases_concat, ho]

/-- One more token of a coded block is read. -/
lemma token {phrases : List Phrase} {t : Token}
    (h : IsAt input ⟨earlier, .coded final coding phrases⟩ pos out)
    (ht : coding.codes.token input pos = .done t next) (hne : t ≠ .endOfBlock)
    (hr : t.InReach out.length) :
    ∃ p, IsAt input ⟨earlier, .coded final coding (phrases ++ [p])⟩ next (t.expand out) := by
  rcases BlockCodes.phrase_of_token h.legal.2.1 ht with ⟨p, hw, rfl, hs⟩ | ⟨rfl, -⟩
  · exact ⟨p, h.phrase hw hr hs⟩
  · exact absurd rfl hne

/-- The rest of a block is read. -/
lemma parsed_after {current : Current} {b : Block} {w : List Bool}
    (h : IsAt input ⟨earlier, current⟩ pos out)
    (hl : b.Legal (blocksBits earlier).length (expandBlocks [] earlier))
    (hb : b.bits final = current.bits ++ w) (hs : Spells input pos w next)
    (ho : b.expand (expandBlocks [] earlier) = out) :
    Configuration.Parsed input ⟨out, ⟨next, .after final⟩⟩ := by
  have hw : Spells input 0 (blocksBits earlier ++ b.bits final) next := by
    rw [hb, ← List.append_assoc]
    exact h.spells.append hs
  cases final with
  | true => exact ⟨⟨earlier, b⟩, ⟨h.legal.1, hl⟩, hw, ho⟩
  | false =>
      have hl' : LegalBlocks 0 [] (earlier ++ [b]) :=
        legalBlocks_concat.mpr ⟨h.legal.1, (Nat.zero_add _).symm ▸ hl⟩
      have ho' : expandBlocks [] (earlier ++ [b]) = out := (expandBlocks_concat ..).trans ho
      refine ⟨earlier ++ [b], ⟨hl', trivial⟩, ?_, ho'⟩
      rw [bits, blocksBits_concat, Current.bits, List.append_nil]
      exact hw

/-- The machine is where the bits read end. -/
lemma position_eq {p : Progress} (h : p.IsAt input pos out) : pos = p.bits.length :=
  h.spells.2.trans (Nat.zero_add _)

end Progress.IsAt

lemma parsed_start : Configuration.start.Parsed input :=
  ⟨[], .start⟩

/-- A move leads from the front of a stream to the front of a stream. -/
theorem Moves.parsed {c d : Configuration} (h : Moves input c d) (hc : c.Parsed input) :
    d.Parsed input := by
  cases h with
  | storedHead hr =>
      obtain ⟨earlier, hp⟩ := hc
      obtain ⟨padding, hp⟩ := hp.storedHead hr
      exact ⟨earlier, padding, [], hp⟩
  | codedHead hr =>
      obtain ⟨earlier, hp⟩ := hc
      obtain ⟨coding, rfl, hp⟩ := hp.codedHead hr
      exact ⟨earlier, coding, [], rfl, hp⟩
  | storedByte hr =>
      obtain ⟨earlier, padding, bytes, hp⟩ := hc
      exact ⟨earlier, padding, _, hp.byte (BitReader.byte_eq_done.mp hr)⟩
  | storedEnd =>
      obtain ⟨earlier, padding, bytes, hp⟩ := hc
      exact hp.parsed_after (b := .stored padding bytes) hp.legal.2 (List.append_nil _).symm
        (Spells.nil_iff.mpr rfl) hp.output
  | literal hr =>
      obtain ⟨earlier, coding, phrases, rfl, hp⟩ := hc
      obtain ⟨p, hp⟩ := hp.token hr Token.noConfusion trivial
      exact ⟨earlier, coding, phrases ++ [p], rfl, hp⟩
  | copy hr hd =>
      -- from here on the whole copy counts as read, and its bytes as output
      obtain ⟨earlier, coding, phrases, rfl, hp⟩ := hc
      obtain ⟨p, hp⟩ := hp.token hr Token.noConfusion ⟨(BlockCodes.token_eq_copy hr).2.2.1, hd⟩
      exact ⟨earlier, coding, phrases ++ [p], rfl, hp⟩
  | codedEnd hr =>
      obtain ⟨earlier, coding, phrases, rfl, hp⟩ := hc
      rcases BlockCodes.phrase_of_token hp.legal.2.1 hr with ⟨p, -, ht, -⟩ | ⟨-, h256, hs⟩
      · cases p <;> cases ht
      · exact hp.parsed_after (b := .coded coding phrases) ⟨hp.legal.2.1, hp.legal.2.2, h256⟩ rfl hs
          hp.output
  | copyByte =>
      obtain ⟨earlier, coding, phrases, rfl, hp⟩ := hc
      exact ⟨earlier, coding, phrases, rfl, hp⟩
  | copyEnd =>
      obtain ⟨earlier, coding, phrases, rfl, hp⟩ := hc
      exact ⟨earlier, coding, phrases, rfl, hp⟩

/-- Whatever has been read is the front of a stream that can be written. -/
theorem Reaches.parsed {c : Configuration} (h : Reaches input .start c) : c.Parsed input := by
  induction h with
  | refl => exact parsed_start
  | tail _ hm ih => exact hm.parsed ih

/-! ### How a decode ends -/

/-- An item that is not allowed ends the decode. -/
lemma Progress.IsAt.ends {p : Progress} {w : List Bool} {counted : ℕ} (h : p.IsAt input pos out)
    (hf : Flaw p w counted) (hw : Holds input pos w) :
    Ends input ⟨out, ⟨pos, p.current.phase⟩⟩ (.corrupt (pos + counted)) := by
  obtain ⟨earlier, current⟩ := p
  cases hf with
  | head w hc hb =>
      obtain rfl : current = .head := hc
      rw [← h.position_eq] at hb
      exact ends_head_iff.mpr (Block.head_eq_bad.mpr ⟨w, hb, hw, rfl⟩)
  | phrase final coding phrases w counted hc hb =>
      obtain rfl : current = .coded final coding phrases := hc
      have ht : coding.codes.token input pos = .bad (pos + counted) :=
        BlockCodes.token_of_badPhrase h.legal.2.1 hb hw
      exact ends_coded_iff.mpr (.inl ht)
  | reach final coding phrases next hc hn hr =>
      obtain rfl : current = .coded final coding phrases := hc
      have ht : coding.codes.token input pos = .done next.token (pos + (next.bits coding).length) :=
        BlockCodes.token_of_phrase h.legal.2.1 hn ⟨hw, rfl⟩
      rw [h.output] at hr
      refine ends_coded_iff.mpr (.inr ?_)
      cases next with
      | literal letter => exact absurd trivial hr
      | copy length more distance more' =>
          refine ⟨_, _, ht, ?_⟩
          by_contra hge
          exact hr ⟨(BlockCodes.token_eq_copy ht).2.2.1, Nat.le_of_not_lt hge⟩

/-- A decode that finds the input corrupt does so at an item that is not allowed. -/
lemma Configuration.Parsed.flaw {c : Configuration} {stop : ℕ} (hc : c.Parsed input)
    (he : Ends input c (.corrupt stop)) :
    ∃ p w counted, p.IsAt input c.machine.position c.output ∧ Flaw p w counted ∧
      Holds input c.machine.position w ∧ stop = c.machine.position + counted := by
  obtain ⟨out, pos, phase⟩ := c
  cases phase with
  | head =>
      obtain ⟨earlier, hp⟩ := hc
      obtain ⟨w, hb, hw, hstop⟩ := Block.head_eq_bad.mp (ends_head_iff.mp he)
      have hf : Flaw ⟨earlier, .head⟩ w w.length := .head w rfl (hp.position_eq ▸ hb)
      exact ⟨_, w, w.length, hp, hf, hw, hstop⟩
  | stored final left => exact absurd he not_ends_stored
  | coded final codes =>
      obtain ⟨earlier, coding, phrases, rfl, hp⟩ := hc
      rcases ends_coded_iff.mp he with ht | ⟨length, distance, ht, hd⟩
      · obtain ⟨w, counted, hb, hw, hstop⟩ := (BlockCodes.token_eq_bad hp.legal.2.1).mp ht
        exact ⟨_, w, counted, hp, .phrase final coding phrases w counted rfl hb, hw, hstop⟩
      · rcases BlockCodes.phrase_of_token hp.legal.2.1 ht with ⟨p, hn, hpt, hw, hstop⟩ | ⟨h, -⟩
        · refine ⟨_, _, _, hp, .reach final coding phrases p rfl hn ?_, hw, hstop⟩
          rw [hpt, hp.output]
          exact fun hr => absurd hr.2 (Nat.not_le_of_lt hd)
        · cases h
  | copying final codes distance left => exact absurd he not_ends_copying
  | finished => cases he

end Deflate

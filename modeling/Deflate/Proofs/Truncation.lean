/-
Streams that are cut off.

* `Stream.stops`: for each byte of the output the position behind the item that gives
  it, a literal, a whole copy or a stored byte;
* `StopsBetween`: a list of such positions for the bytes by which an output grows;
* `BitReader.Persists`: what the reader reads of a front part of an input, it reads of
  the whole; so it starves where its item ends behind the front part;
* `BitReader.Restricts` and `Moves.extract`: what a reader and a decode have read within a
  front part they read of it alone; so `Ends.lt_position_of_starved`: a decode that starves has
  looked beyond the whole input;
* `starves_phrases`, `starves_bytes`, `starves_block` and `starves_blocks`: a decode of
  the front part starves after the bytes whose items are in it;
* `Inflater.inflate_cut`: the error of every front part of a stream.
-/
import Mathlib.Tactic
import Deflate.Proofs.PrefixStability

namespace Deflate

/-! ### Where the bytes of an output are complete -/

/-- How many bytes a token gives. -/
def Token.size : Token → ℕ
  | literal _ => 1
  | copy length _ => length
  | endOfBlock => 0

/-- For each byte that phrases at `pos` give, the position behind its phrase: all
bytes of a copy are complete at once. -/
def phraseStops (c : Coding) (pos : ℕ) : List Phrase → List ℕ
  | [] => []
  | p :: ps =>
      List.replicate p.token.size (pos + (p.bits c).length) ++
        phraseStops c (pos + (p.bits c).length) ps

/-- For each of the stored bytes at `pos` the position behind it. -/
def byteStops (pos : ℕ) : List UInt8 → List ℕ
  | [] => []
  | _ :: bytes => (pos + 8) :: byteStops (pos + 8) bytes

/-- For each byte that a block at `pos` gives, the position behind its item. -/
def Block.stops (pos : ℕ) (final : Bool) : Block → List ℕ
  | stored padding bytes => byteStops (pos + (storedHead final padding bytes.length).length) bytes
  | coded coding phrases => phraseStops coding (pos + (codedHead final coding).length) phrases

/-- The same of blocks none of which is the final one. -/
def blockStops (pos : ℕ) : List Block → List ℕ
  | [] => []
  | b :: bs => b.stops pos false ++ blockStops (pos + (b.bits false).length) bs

/-- For each byte of the output of a stream the position behind its item. -/
def Stream.stops (s : Stream) : List ℕ :=
  blockStops 0 s.earlier ++ s.last.stops (blocksBits s.earlier).length true

/-- The stops lie between two positions, one for each byte by which an output grows. -/
structure StopsBetween (pos next : ℕ) (out out' : List UInt8) (stops : List ℕ) : Prop where
  /-- No stop lies before the first position. -/
  le_of_mem : ∀ stop ∈ stops, pos ≤ stop
  /-- No stop lies behind the second position. -/
  mem_le : ∀ stop ∈ stops, stop ≤ next
  /-- There is a stop for each byte. -/
  length_eq : out.length + stops.length = out'.length

namespace StopsBetween

variable {pos mid next limit : ℕ} {out out' out'' : List UInt8} {stops stops' : List ℕ}

lemma nil (pos : ℕ) (out : List UInt8) : StopsBetween pos pos out out [] where
  le_of_mem := by simp
  mem_le := by simp
  length_eq := rfl

lemma append (h : StopsBetween pos mid out out' stops)
    (h' : StopsBetween mid next out' out'' stops')
    (hpos : pos ≤ mid) (hnext : mid ≤ next) :
    StopsBetween pos next out out'' (stops ++ stops') where
  le_of_mem := List.forall_mem_append.mpr
    ⟨h.le_of_mem, fun stop hm => hpos.trans (h'.le_of_mem stop hm)⟩
  mem_le := List.forall_mem_append.mpr
    ⟨fun stop hm => (h.mem_le stop hm).trans hnext, h'.mem_le⟩
  length_eq := by
    rw [List.length_append, ← Nat.add_assoc, h.length_eq, h'.length_eq]

lemma mono (h : StopsBetween mid next out out' stops) (hpos : pos ≤ mid) :
    StopsBetween pos next out out' stops :=
  ⟨fun stop hm => hpos.trans (h.le_of_mem stop hm), h.mem_le, h.length_eq⟩

lemma next_mono (h : StopsBetween pos mid out out' stops) (hnext : mid ≤ next) :
    StopsBetween pos next out out' stops :=
  ⟨h.le_of_mem, fun stop hm => (h.mem_le stop hm).trans hnext, h.length_eq⟩

/-- Below the first position no byte is complete. -/
lemma countP_eq_zero (h : StopsBetween pos next out out' stops) (hl : limit < pos) :
    stops.countP (· ≤ limit) = 0 := by
  refine List.countP_eq_zero.mpr fun stop hm => ?_
  have := h.le_of_mem stop hm
  simp only [decide_eq_true_eq]
  omega

/-- From the second position on all bytes are complete. -/
lemma length_add_countP (h : StopsBetween pos next out out' stops) (hl : next ≤ limit) :
    out.length + stops.countP (· ≤ limit) = out'.length := by
  rw [← h.length_eq, List.countP_eq_length.mpr]
  intro stop hm
  exact decide_eq_true ((h.mem_le stop hm).trans hl)

end StopsBetween

section Stops

lemma length_copyBack (out : List UInt8) (distance length : ℕ) :
    (copyBack out distance length).length = out.length + length := by
  induction length generalizing out with
  | zero => rfl
  | succ n ih =>
      rw [copyBack, ih, List.length_append, List.length_singleton]
      omega

lemma Token.length_expand (t : Token) (out : List UInt8) :
    (t.expand out).length = out.length + t.size := by
  cases t with
  | literal byte => exact List.length_append
  | copy length distance => exact length_copyBack out distance length
  | endOfBlock => rfl

/-- All bytes of a token are complete at one position. -/
lemma StopsBetween.token {pos next : ℕ} {out out' : List UInt8} {stops : List ℕ} (t : Token)
    (h : StopsBetween pos next (t.expand out) out' stops) (hnext : pos ≤ next) :
    StopsBetween pos next out out' (List.replicate t.size pos ++ stops) where
  le_of_mem := List.forall_mem_append.mpr
    ⟨fun stop hm => (List.eq_of_mem_replicate hm).ge, h.le_of_mem⟩
  mem_le := List.forall_mem_append.mpr
    ⟨fun stop hm => (List.eq_of_mem_replicate hm).le.trans hnext, h.mem_le⟩
  length_eq := by
    rw [← h.length_eq, List.length_append, List.length_replicate, Token.length_expand,
      Nat.add_assoc]

variable (c : Coding) (pos : ℕ) (out : List UInt8)

/-- The bytes of phrases are complete between the positions where they begin and end. -/
lemma stopsBetween_phrases (ps : List Phrase) :
    StopsBetween pos (pos + (ps.flatMap (Phrase.bits c)).length) out (expandPhrases out ps)
      (phraseStops c pos ps) := by
  induction ps generalizing pos out with
  | nil => exact .nil pos out
  | cons p ps ih =>
      rw [List.flatMap_cons, List.length_append, ← Nat.add_assoc]
      exact ((ih _ _).token p.token (Nat.le_add_right _ _)).mono (Nat.le_add_right _ _)

/-- No byte is complete before the first phrase ends. -/
lemma stopsBetween_phrases_cons (p : Phrase) (ps : List Phrase) :
    StopsBetween (pos + (p.bits c).length) (pos + ((p :: ps).flatMap (Phrase.bits c)).length) out
      (expandPhrases out (p :: ps)) (phraseStops c pos (p :: ps)) := by
  rw [List.flatMap_cons, List.length_append, ← Nat.add_assoc]
  exact (stopsBetween_phrases c _ _ ps).token p.token (Nat.le_add_right _ _)

/-- Stored bytes are complete one after the other. -/
lemma stopsBetween_bytes (bytes : List UInt8) :
    StopsBetween pos (pos + (bitsOfBytes bytes).length) out (out ++ bytes)
      (byteStops pos bytes) := by
  induction bytes generalizing pos out with
  | nil =>
      rw [List.append_nil]
      exact .nil pos out
  | cons byte bytes ih =>
      rw [bitsOfBytes_cons, List.length_append, length_field, ← Nat.add_assoc, List.append_cons]
      exact ((ih _ _).token (.literal byte) (Nat.le_add_right _ _)).mono (Nat.le_add_right _ _)

/-- No stored byte is complete before the first one ends. -/
lemma stopsBetween_bytes_cons (byte : UInt8) (bytes : List UInt8) :
    StopsBetween (pos + 8) (pos + (bitsOfBytes (byte :: bytes)).length) out
      (out ++ byte :: bytes) (byteStops pos (byte :: bytes)) := by
  rw [bitsOfBytes_cons, List.length_append, length_field, ← Nat.add_assoc, List.append_cons]
  exact (stopsBetween_bytes _ _ bytes).token (.literal byte) (Nat.le_add_right _ _)

lemma stopsBetween_block (final : Bool) (b : Block) :
    StopsBetween pos (pos + (b.bits final).length) out (b.expand out) (b.stops pos final) := by
  cases b with
  | stored padding bytes =>
      rw [Block.bits, List.length_append, ← Nat.add_assoc]
      exact (stopsBetween_bytes _ out bytes).mono (Nat.le_add_right _ _)
  | coded coding phrases =>
      rw [Block.bits, List.length_append, List.length_append, ← Nat.add_assoc, ← Nat.add_assoc]
      exact ((stopsBetween_phrases coding _ out phrases).mono (Nat.le_add_right _ _)).next_mono
        (Nat.le_add_right _ _)

lemma stopsBetween_blocks (bs : List Block) :
    StopsBetween pos (pos + (blocksBits bs).length) out (expandBlocks out bs)
      (blockStops pos bs) := by
  induction bs generalizing pos out with
  | nil => exact .nil pos out
  | cons b bs ih =>
      rw [blocksBits_cons, List.length_append, ← Nat.add_assoc]
      exact (stopsBetween_block pos out false b).append (ih _ _) (Nat.le_add_right _ _)
        (Nat.le_add_right _ _)

/-- The bytes of the blocks before the final one. -/
lemma Stream.stopsBetween_earlier (s : Stream) :
    StopsBetween 0 (blocksBits s.earlier).length [] (expandBlocks [] s.earlier)
      (blockStops 0 s.earlier) := by
  have h := stopsBetween_blocks 0 [] s.earlier
  rwa [Nat.zero_add] at h

/-- There is a stop for each byte of the output of a stream. -/
lemma Stream.length_stops (s : Stream) : s.stops.length = s.output.length := by
  have hlast := stopsBetween_block (blocksBits s.earlier).length (expandBlocks [] s.earlier) true
    s.last
  have h := s.stopsBetween_earlier.append hlast (Nat.zero_le _) (Nat.le_add_right _ _)
  exact (Nat.zero_add _).symm.trans h.length_eq

end Stops

/-! ### Readers of a front part -/

section FrontPart

variable {input : ByteArray} {n pos next : ℕ} {w : List Bool}

namespace Spells

/-- What is held before the end of a front part is held in it. -/
lemma extract (h : Spells input pos w next) (hn : next ≤ 8 * n) :
    Spells (input.extract 0 n) pos w next := by
  obtain ⟨hw, rfl⟩ := h
  refine ⟨?_, rfl⟩
  rw [Holds, bitsOf_extract, List.drop_take, List.prefix_take_iff]
  exact ⟨hw, by omega⟩

/-- What a front part holds, the whole holds. -/
lemma of_extract (h : Spells (input.extract 0 n) pos w next) : Spells input pos w next := by
  obtain ⟨hw, rfl⟩ := h
  refine ⟨?_, rfl⟩
  rw [Holds, bitsOf_extract, List.drop_take] at hw
  exact hw.trans (List.take_prefix _ _)

end Spells

namespace BitReader

variable {α : Type} {r : BitReader α}

/-- What the reader reads of a front part of an input, it reads of the whole. -/
def Persists (r : BitReader α) : Prop :=
  ∀ ⦃input : ByteArray⦄ ⦃n pos : ℕ⦄, r (input.extract 0 n) pos ≠ .starved →
    r input pos = r (input.extract 0 n) pos

/-- A reader starves in a front part if its item ends behind it. -/
lemma Persists.eq_starved {a : α} (hr : Persists r) (hs : Steps r)
    (h : r input pos = .done a next) (hn : 8 * n < next) :
    r (input.extract 0 n) pos = .starved := by
  by_contra hne
  have hfront := (hr hne).symm.trans h
  have hle := (hs hfront).2
  rw [ByteArray.size_extract] at hle
  omega

/-- An item that ends in a front part of an input is read there. -/
def Restricts (r : BitReader α) : Prop :=
  ∀ ⦃input : ByteArray⦄ ⦃n pos next : ℕ⦄ ⦃a : α⦄, r input pos = .done a next → next ≤ 8 * n →
    r (input.extract 0 n) pos = .done a next

lemma restricts_byte : Restricts byte := fun _ _ _ _ _ h hn =>
  byte_eq_done.mpr ((byte_eq_done.mp h).extract hn)

lemma persists_byte : Persists byte := by
  intro input n pos h
  cases hr : byte (input.extract 0 n) pos with
  | done b next => exact byte_eq_done.mpr (byte_eq_done.mp hr).of_extract
  | starved => exact absurd hr h
  | bad stop => exact absurd hr (@neverBad_byte _ _ _)

end BitReader

lemma Block.persists_head : BitReader.Persists head := by
  intro input n pos h
  cases hr : head (input.extract 0 n) pos with
  | done r next =>
      obtain ⟨w, hw, hs⟩ := head_eq_done.mp hr
      exact head_eq_done.mpr ⟨w, hw, hs.of_extract⟩
  | starved => exact absurd hr h
  | bad stop =>
      obtain ⟨w, hw, hs⟩ := head_eq_bad.mp hr
      exact head_eq_bad.mpr ⟨w, hw, hs.of_extract⟩

lemma BlockCodes.persists_token {c : Coding} (hc : c.Legal) : BitReader.Persists c.codes.token := by
  intro input n pos h
  cases hr : c.codes.token (input.extract 0 n) pos with
  | done t next =>
      rcases (token_eq_done hc).mp hr with ⟨p, hp, ht, hs⟩ | ⟨ht, h256, hs⟩
      · exact (token_eq_done hc).mpr (.inl ⟨p, hp, ht, hs.of_extract⟩)
      · exact (token_eq_done hc).mpr (.inr ⟨ht, h256, hs.of_extract⟩)
  | starved => exact absurd hr h
  | bad stop =>
      obtain ⟨w, counted, hw, hh, hstop⟩ := (token_eq_bad hc).mp hr
      have hs : Spells (input.extract 0 n) pos w (pos + w.length) := ⟨hh, rfl⟩
      exact (token_eq_bad hc).mpr ⟨w, counted, hw, hs.of_extract.1, hstop⟩

lemma Block.restricts_head : BitReader.Restricts head := by
  intro input n pos next r h hn
  obtain ⟨w, hw, hs⟩ := head_eq_done.mp h
  exact head_eq_done.mpr ⟨w, hw, hs.extract hn⟩

lemma BlockCodes.restricts_token {c : Coding} (hc : c.Legal) :
    BitReader.Restricts c.codes.token := by
  intro input n pos next t h hn
  rcases (token_eq_done hc).mp h with ⟨p, hp, ht, hs⟩ | ⟨ht, h256, hs⟩
  · exact (token_eq_done hc).mpr (.inl ⟨p, hp, ht, hs.extract hn⟩)
  · exact (token_eq_done hc).mpr (.inr ⟨ht, h256, hs.extract hn⟩)

end FrontPart

/-! ### Decodes of a front part -/

section Starved

variable {input more : ByteArray} {n : ℕ} {c d : Configuration}

/-- A move whose item ends in a front part is made there. -/
lemma Moves.extract (h : Moves input c d) (hc : c.Parsed (input.extract 0 n))
    (hn : d.machine.position ≤ 8 * n) : Moves (input.extract 0 n) c d := by
  cases h with
  | storedHead hr => exact .storedHead (Block.restricts_head hr hn)
  | codedHead hr => exact .codedHead (Block.restricts_head hr hn)
  | storedByte hr => exact .storedByte (BitReader.restricts_byte hr hn)
  | storedEnd => exact .storedEnd
  | literal hr =>
      obtain ⟨earlier, coding, phrases, rfl, hp⟩ := hc
      exact .literal (BlockCodes.restricts_token hp.legal.2.1 hr hn)
  | copy hr hd =>
      obtain ⟨earlier, coding, phrases, rfl, hp⟩ := hc
      exact .copy (BlockCodes.restricts_token hp.legal.2.1 hr hn) hd
  | codedEnd hr =>
      obtain ⟨earlier, coding, phrases, rfl, hp⟩ := hc
      have hn' : _ ≤ 8 * n := hn
      exact .codedEnd (BlockCodes.restricts_token hp.legal.2.1 hr hn')
  | copyByte => exact .copyByte
  | copyEnd => exact .copyEnd

/-- **A decode that starves has looked at the whole input**: however the input goes on, the
item that it starves at ends behind all of it. -/
theorem Ends.lt_position_of_starved (he : Ends input c .starved) (hr : Reaches input .start c)
    (hm : Moves (input ++ more) c d) : 8 * input.size < d.machine.position := by
  have hfront : (input ++ more).extract 0 input.size = input := ByteArray.extract_append_eq_left rfl
  by_contra hge
  have hc := hr.parsed
  rw [← hfront] at hc he
  exact he.not_moves (hm.extract hc (Nat.le_of_not_lt hge))

end Starved

/-- From `c` on a decode starves with `produced` bytes of output. -/
def Starves (input : ByteArray) (c : Configuration) (produced : ℕ) : Prop :=
  ∃ d, Reaches input c d ∧ Ends input d .starved ∧ d.output.length = produced

section Cut

variable {input : ByteArray} {n pos next : ℕ} {out : List UInt8} {final : Bool} {coding : Coding}

lemma Starves.of_reaches {c d : Configuration} {produced : ℕ} (hr : Reaches input c d)
    (h : Starves input d produced) : Starves input c produced := by
  obtain ⟨e, he, hv, hlen⟩ := h
  exact ⟨e, hr.trans he, hv, hlen⟩

/-- At a head that is cut off a decode starves, and so it does at a token and at a
byte. -/
lemma ends_cut_head {r : Bool × Block.Body} (h : Block.head input pos = .done r next)
    (hn : 8 * n < next) : Ends (input.extract 0 n) ⟨out, ⟨pos, .head⟩⟩ .starved :=
  toStep_eq_halt.mpr (.inr (.inl ⟨Block.persists_head.eq_starved Block.steps_head h hn, rfl⟩))

lemma ends_cut_token {t : Token} (hc : coding.Legal)
    (h : coding.codes.token input pos = .done t next) (hn : 8 * n < next) :
    Ends (input.extract 0 n) ⟨out, ⟨pos, .coded final coding.codes⟩⟩ .starved :=
  toStep_eq_halt.mpr (.inr (.inl
    ⟨(BlockCodes.persists_token hc).eq_starved (BlockCodes.steps_token _) h hn, rfl⟩))

lemma ends_cut_byte {byte : UInt8} {left : ℕ} (h : BitReader.byte input pos = .done byte next)
    (hn : 8 * n < next) :
    Ends (input.extract 0 n) ⟨out, ⟨pos, .stored final (left + 1)⟩⟩ .starved :=
  toStep_eq_halt.mpr (.inr (.inl
    ⟨BitReader.persists_byte.eq_starved BitReader.steps_byte h hn, rfl⟩))

/-- Where phrases are cut off the decode of the front part starves, after the bytes of
the phrases that are in it. -/
lemma starves_phrases (hc : coding.Legal) {ps : List Phrase} (hps : LegalPhrases coding out ps)
    (hs : Spells input pos (ps.flatMap (Phrase.bits coding)) next) (hpos : pos ≤ 8 * n)
    (hn : 8 * n < next) :
    Starves (input.extract 0 n) ⟨out, ⟨pos, .coded final coding.codes⟩⟩
      (out.length + (phraseStops coding pos ps).countP (· ≤ 8 * n)) := by
  induction ps generalizing out pos with
  | nil =>
      obtain rfl := Spells.nil_iff.mp hs
      omega
  | cons p ps ih =>
      have hstops := stopsBetween_phrases_cons coding pos out p ps
      obtain ⟨hw, hr, hps⟩ := hps
      obtain ⟨mid, hp, hs⟩ := Spells.append_iff.mp hs
      obtain rfl := hp.2
      by_cases hmid : pos + (p.bits coding).length ≤ 8 * n
      · have h := ih hps hs hmid
        have hcount : (List.replicate p.token.size (pos + (p.bits coding).length)).countP
            (· ≤ 8 * n) = p.token.size := by
          rw [List.countP_replicate, if_pos (decide_eq_true hmid)]
        rw [Token.length_expand, Nat.add_assoc, ← hcount, ← List.countP_append] at h
        exact h.of_reaches (reaches_phrase hc hw hr (hp.extract hmid))
      · have hcut := Nat.lt_of_not_le hmid
        rw [hstops.countP_eq_zero hcut]
        exact ⟨_, .refl, ends_cut_token hc (BlockCodes.token_of_phrase hc hw hp) hcut, rfl⟩

/-- Where stored bytes are cut off the decode of the front part starves, after the bytes
that are in it. -/
lemma starves_bytes {bytes : List UInt8} (hs : Spells input pos (bitsOfBytes bytes) next)
    (hpos : pos ≤ 8 * n) (hn : 8 * n < next) :
    Starves (input.extract 0 n) ⟨out, ⟨pos, .stored final bytes.length⟩⟩
      (out.length + (byteStops pos bytes).countP (· ≤ 8 * n)) := by
  induction bytes generalizing out pos with
  | nil =>
      obtain rfl := Spells.nil_iff.mp hs
      omega
  | cons byte bytes ih =>
      have hstops := stopsBetween_bytes_cons pos out byte bytes
      obtain ⟨mid, hb, hs⟩ := Spells.append_iff.mp hs
      obtain rfl : mid = pos + 8 := hb.2.trans (congrArg (pos + ·) (length_field ..))
      by_cases hmid : pos + 8 ≤ 8 * n
      · have hm : Moves (input.extract 0 n) ⟨out, ⟨pos, .stored final (bytes.length + 1)⟩⟩ _ :=
          .storedByte (BitReader.byte_eq_done.mpr (hb.extract hmid))
        refine Starves.of_reaches (.single hm) ?_
        have hcount : (byteStops pos (byte :: bytes)).countP (· ≤ 8 * n) =
            1 + (byteStops (pos + 8) bytes).countP (· ≤ 8 * n) := by
          rw [byteStops, List.countP_cons, if_pos (decide_eq_true hmid), Nat.add_comm]
        rw [hcount, ← Nat.add_assoc, ← List.length_singleton, ← List.length_append]
        exact ih hs hmid
      · have hcut := Nat.lt_of_not_le hmid
        rw [hstops.countP_eq_zero hcut]
        exact ⟨_, .refl, ends_cut_byte (BitReader.byte_eq_done.mpr hb) hcut, rfl⟩

/-- Where a block is cut off the decode of the front part starves, after the bytes whose
items are in it. -/
lemma starves_block {b : Block} (hl : b.Legal pos out) (hs : Spells input pos (b.bits final) next)
    (hn : 8 * n < next) :
    Starves (input.extract 0 n) ⟨out, ⟨pos, .head⟩⟩
      (out.length + (b.stops pos final).countP (· ≤ 8 * n)) := by
  cases b with
  | stored padding bytes =>
      obtain ⟨mid, hh, hs⟩ := Spells.append_iff.mp hs
      obtain rfl := hh.2
      have hd := Block.head_eq_done.mpr ⟨_, .stored padding _ hl, hh⟩
      by_cases hmid : pos + (storedHead final padding bytes.length).length ≤ 8 * n
      · have hd' := Block.head_eq_done.mpr ⟨_, .stored padding _ hl, hh.extract hmid⟩
        exact (starves_bytes hs hmid hn).of_reaches (.single (.storedHead hd'))
      · have hcut := Nat.lt_of_not_le hmid
        rw [Block.stops, (stopsBetween_bytes _ out bytes).countP_eq_zero hcut]
        exact ⟨_, .refl, ends_cut_head hd hcut, rfl⟩
  | coded coding phrases =>
      obtain ⟨hc, hps, h256⟩ := hl
      obtain ⟨stop, hs, he⟩ := Spells.append_iff.mp hs
      obtain ⟨mid, hh, hs⟩ := Spells.append_iff.mp hs
      obtain rfl := hh.2
      have hd := Block.head_eq_done.mpr ⟨_, .coded coding hc, hh⟩
      by_cases hmid : pos + (codedHead final coding).length ≤ 8 * n
      · have hd' := Block.head_eq_done.mpr ⟨_, .coded coding hc, hh.extract hmid⟩
        refine Starves.of_reaches (.single (.codedHead hd')) ?_
        by_cases hstop : stop ≤ 8 * n
        · -- all phrases are in the front part, and the end of the block is cut off
          have ht := (BlockCodes.token_eq_done hc).mpr (.inr ⟨rfl, h256, he⟩)
          have hr : Reaches (input.extract 0 n) ⟨out, ⟨_, .coded final coding.codes⟩⟩ _ :=
            reaches_phrases hc hps (hs.extract hstop)
          obtain rfl := hs.2
          rw [Block.stops, (stopsBetween_phrases ..).length_add_countP hstop]
          exact ⟨_, hr, ends_cut_token hc ht hn, rfl⟩
        · exact starves_phrases hc hps hs hmid (Nat.lt_of_not_le hstop)
      · have hcut := Nat.lt_of_not_le hmid
        rw [Block.stops, (stopsBetween_phrases coding _ out phrases).countP_eq_zero hcut]
        exact ⟨_, .refl, ends_cut_head hd hcut, rfl⟩

/-- The same of blocks none of which is the final one. -/
lemma starves_blocks {bs : List Block} (hl : LegalBlocks pos out bs)
    (hs : Spells input pos (blocksBits bs) next) (hpos : pos ≤ 8 * n) (hn : 8 * n < next) :
    Starves (input.extract 0 n) ⟨out, ⟨pos, .head⟩⟩
      (out.length + (blockStops pos bs).countP (· ≤ 8 * n)) := by
  induction bs generalizing out pos with
  | nil =>
      obtain rfl := Spells.nil_iff.mp hs
      omega
  | cons b bs ih =>
      obtain ⟨hb, hl⟩ := hl
      obtain ⟨mid, hbs, hs⟩ := Spells.append_iff.mp hs
      obtain rfl := hbs.2
      rw [blockStops, List.countP_append, ← Nat.add_assoc]
      by_cases hmid : pos + (b.bits false).length ≤ 8 * n
      · rw [(stopsBetween_block ..).length_add_countP hmid]
        exact (ih hl hs hmid).of_reaches (reaches_block hb (hbs.extract hmid))
      · have hcut := Nat.lt_of_not_le hmid
        rw [(stopsBetween_blocks _ out bs).countP_eq_zero hcut, Nat.add_zero]
        exact starves_block hb hbs hcut

/-- Where a stream is cut off the decode of the front part starves, after the bytes whose
items are in it. -/
theorem Stream.starves {s : Stream} (hl : s.Legal) (hs : Holds input 0 s.bits)
    (hn : 8 * n < s.bits.length) :
    Starves (input.extract 0 n) .start (s.stops.countP (· ≤ 8 * n)) := by
  obtain ⟨he, hb⟩ := hl
  obtain ⟨hes, hbs⟩ := Holds.append_iff.mp hs
  rw [Nat.zero_add] at hbs
  rw [bits, List.length_append] at hn
  have hearlier : Spells input 0 (blocksBits s.earlier) (blocksBits s.earlier).length :=
    ⟨hes, (Nat.zero_add _).symm⟩
  rw [stops, List.countP_append]
  by_cases hmid : (blocksBits s.earlier).length ≤ 8 * n
  · have hcount : (blockStops 0 s.earlier).countP (· ≤ 8 * n) =
        (expandBlocks [] s.earlier).length :=
      (Nat.zero_add _).symm.trans (s.stopsBetween_earlier.length_add_countP hmid)
    rw [hcount]
    exact (starves_block hb ⟨hbs, rfl⟩ hn).of_reaches
      (reaches_blocks he (hearlier.extract hmid))
  · have hcut := Nat.lt_of_not_le hmid
    rw [(stopsBetween_block _ [] true s.last).countP_eq_zero hcut, Nat.add_zero,
      ← Nat.zero_add ((blockStops 0 s.earlier).countP _)]
    exact starves_blocks he hearlier (Nat.zero_le _) hcut

end Cut

/-! ### Front parts of a stream -/

/-- **Truncation is counted exactly**: of a stream packed into bytes, every front part
but the whole is truncated at its own end, and the count of bytes is that of the bytes
of the output whose literal, whole copy or stored byte lies in it. A longer front part
counts no fewer bytes, and none counts more than the output has. -/
theorem Inflater.inflate_cut (inflater : Inflater) (target : ByteArray) {s : Stream}
    (hs : s.Legal) {fill : List Bool} (hf : fill.length < 8)
    (h8 : 8 ∣ (s.bits ++ fill).length) :
    (∀ n < (pack (s.bits ++ fill)).size,
      (inflater.inflate ((pack (s.bits ++ fill)).extract 0 n) target).2 =
        (target, .error (.truncated n (s.stops.countP (· ≤ 8 * n))))) ∧
    (∀ m n, m ≤ n → s.stops.countP (· ≤ 8 * m) ≤ s.stops.countP (· ≤ 8 * n)) ∧
    s.stops.length = s.output.length ∧
    ∀ n, s.stops.countP (· ≤ 8 * n) ≤ s.output.length := by
  refine ⟨fun n hn => ?_, fun m n hmn => ?_, s.length_stops, fun n => ?_⟩
  · have hsize := size_pack h8
    rw [List.length_append] at hsize
    have hheld : Holds (pack (s.bits ++ fill)) 0 s.bits := by
      have h := holds_pack h8 .empty
      rwa [ByteArray.append_empty] at h
    obtain ⟨c, hr, he, hlen⟩ := Stream.starves hs hheld (n := n) (by omega)
    refine Inflater.inflate_eq_error_iff.mpr ⟨?_, rfl⟩
    rw [decode_eq_of_reaches hr he, Configuration.report, size_extract hn.le, hlen]
  · refine List.countP_mono_left fun stop _ h => ?_
    simp only [decide_eq_true_eq] at h ⊢
    omega
  · rw [← s.length_stops]
    exact List.countP_le_length

/-- The first ten bytes of the stream with blocks of all kinds hold two stored bytes and a
literal byte, and all but the last bits of a copy; with one more byte the copy of `258`
bytes is whole. -/
theorem inflate_cut_mixedStream :
    mixedStream.Legal ∧ [true, false].length < 8 ∧
      8 ∣ (mixedStream.bits ++ [true, false]).length ∧
      (Inflater.fresh.inflate ((pack (mixedStream.bits ++ [true, false])).extract 0 10) ⟨#[9]⟩).2 =
        (⟨#[9]⟩, .error (.truncated 10 3)) ∧
      (Inflater.fresh.inflate ((pack (mixedStream.bits ++ [true, false])).extract 0 11) ⟨#[9]⟩).2 =
        (⟨#[9]⟩, .error (.truncated 11 261)) := by
  have hfill : [true, false].length < 8 := by decide
  obtain ⟨hcut, -, -, -⟩ :=
    Inflater.inflate_cut .fresh ⟨#[9]⟩ mixedStream_legal hfill mixedStream_fill
  have hsize : 8 * (pack (mixedStream.bits ++ [true, false])).size = 208 := by
    rw [size_pack mixedStream_fill, List.length_append, length_mixedStream_bits]
    rfl
  have hten : mixedStream.stops.countP (· ≤ 8 * 10) = 3 := by decide +kernel
  have heleven : mixedStream.stops.countP (· ≤ 8 * 11) = 261 := by decide +kernel
  refine ⟨mixedStream_legal, hfill, mixedStream_fill, ?_, ?_⟩
  · rw [hcut 10 (by omega), hten]
  · rw [hcut 11 (by omega), heleven]

end Deflate

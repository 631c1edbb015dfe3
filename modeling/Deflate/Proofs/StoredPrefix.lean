/-
Stored blocks in front of an input.

* `Chunk`: a stored block that is not the final one, in whole bytes; `Chunk.encodeAll`
  and `Chunk.contents` are the bytes of several and the bytes they stand for;
* `reaches_chunks`: they are read, and the decode of the rest starts behind what they
  stand for;
* `resultBehind`: the result of a decode after bytes that stand for other bytes;
* `decode_chunks_append` and `exists_corrupt_of_chunks_append`: a decode behind stored
  blocks gives the result of the rest, or finds it corrupt where the rest is;
* `Inflater.inflate_chunks_append`: the same of an inflater.
-/
import Mathlib.Tactic
import Deflate.Proofs.History
import Deflate.Proofs.Relocation
import Deflate.Proofs.PrefixStability

namespace Deflate

/-! ### Chunks -/

/-- A stored block that is not the final one and begins at a byte. -/
structure Chunk where
  /-- The byte that holds the head of the block, and above it any five bits. -/
  first : UInt8
  /-- The bytes of the block. -/
  data : List UInt8
  /-- The block is stored, and not the final one. -/
  first_mod : first.toNat % 8 = 0
  /-- The length can be written. -/
  length_le : data.length ≤ 65535

/-- The two lowest bytes of a number, the lower one first. -/
def twoBytes (v : ℕ) : List UInt8 :=
  [UInt8.ofNat v, UInt8.ofNat (v / 256)]

lemma bitsOfBytes_twoBytes (v : ℕ) : bitsOfBytes (twoBytes v) = field 16 v := by
  have hbyte : ∀ w, field 8 (UInt8.ofNat w).toNat = field 8 w := by
    intro w
    rw [UInt8.toNat_ofNat', field_mod]
  rw [show (16 : ℕ) = 8 + 8 from rfl, field_add, twoBytes, bitsOfBytes_cons, bitsOfBytes_cons,
    hbyte, hbyte, bitsOfBytes_nil, List.append_nil]
  rfl

namespace Chunk

/-- The bytes of the block: its first byte, the length and its complement, and the
data. -/
def encode (c : Chunk) : List UInt8 :=
  c.first :: (twoBytes c.data.length ++ twoBytes (65535 - c.data.length) ++ c.data)

/-- The block itself, padded with the five bits of its first byte. -/
def block (c : Chunk) : Block :=
  .stored (field 5 (c.first.toNat / 8)) c.data

/-- The bytes of chunks one after the other. -/
def encodeAll (chunks : List Chunk) : ByteArray :=
  ⟨(chunks.flatMap encode).toArray⟩

/-- The bytes that chunks stand for. -/
def contents (chunks : List Chunk) : List UInt8 :=
  chunks.flatMap data

/-- The first byte begins with the bits of a stored block. -/
lemma field_first (c : Chunk) :
    field 8 c.first.toNat = false :: field 2 0 ++ field 5 (c.first.toNat / 8) := by
  have hlow : field 3 c.first.toNat = field 3 0 := by
    rw [← field_mod 3 c.first.toNat]
    exact congrArg (field 3) c.first_mod
  rw [show (8 : ℕ) = 3 + 5 from rfl, field_add, hlow]
  rfl

lemma bitsOfBytes_encode (c : Chunk) : bitsOfBytes c.encode = c.block.bits false := by
  rw [encode, block, Block.bits, storedHead, bitsOfBytes_cons, bitsOfBytes_append,
    bitsOfBytes_append, bitsOfBytes_twoBytes, bitsOfBytes_twoBytes, field_first]
  simp only [List.append_assoc]

lemma bitsOf_encodeAll (chunks : List Chunk) :
    bitsOf (encodeAll chunks) = blocksBits (chunks.map block) := by
  rw [bitsOf, encodeAll]
  induction chunks with
  | nil => rfl
  | cons c chunks ih =>
      rw [List.flatMap_cons, bitsOfBytes_append, bitsOfBytes_encode, ih]
      rfl

lemma expandBlocks_block (out : List UInt8) (chunks : List Chunk) :
    expandBlocks out (chunks.map block) = out ++ contents chunks := by
  induction chunks generalizing out with
  | nil => exact (List.append_nil out).symm
  | cons c chunks ih => exact (ih _).trans (List.append_assoc ..)

/-- Chunks can be written from a byte boundary on. -/
lemma legalBlocks_block {pos : ℕ} (hpos : 8 ∣ pos) (out : List UInt8) (chunks : List Chunk) :
    LegalBlocks pos out (chunks.map block) := by
  induction chunks generalizing pos out with
  | nil => trivial
  | cons c chunks ih =>
      have hpadding : (field 5 (c.first.toNat / 8)).length = 5 := length_field ..
      refine ⟨⟨by omega, by omega, c.length_le⟩, ih ?_ _⟩
      rw [← bitsOfBytes_encode, length_bitsOfBytes]
      exact hpos.add ⟨_, rfl⟩

end Chunk

open Chunk

variable {input : ByteArray} {c : Configuration}

/-- A decode reads the chunks in front of an input, and goes on behind what they stand
for. -/
lemma reaches_chunks (chunks : List Chunk) (input : ByteArray) :
    Reaches (encodeAll chunks ++ input) .start
      ((Configuration.start.behind (contents chunks)).shift (8 * (encodeAll chunks).size)) := by
  have hl : LegalBlocks 0 [] (chunks.map block) := legalBlocks_block (Nat.dvd_zero _) _ _
  have hs : Spells (encodeAll chunks ++ input) 0 (blocksBits (chunks.map block))
      (8 * (encodeAll chunks).size) := by
    refine ⟨?_, ?_⟩
    · rw [Holds, List.drop_zero, bitsOf_append, bitsOf_encodeAll]
      exact List.prefix_append _ _
    · rw [← bitsOf_encodeAll, length_bitsOf, Nat.zero_add]
  have h := reaches_blocks hl hs
  rw [expandBlocks_block, List.nil_append] at h
  rw [Configuration.behind, Configuration.start, List.append_nil]
  exact h

/-- From there on it goes the way of a decode of the input behind other output. -/
lemma reaches_chunks_append {chunks : List Chunk}
    (h : Reaches input (Configuration.start.behind (contents chunks)) c) :
    Reaches (encodeAll chunks ++ input) .start (c.shift (8 * (encodeAll chunks).size)) :=
  (reaches_chunks chunks input).trans (h.shift _)

/-! ### Results -/

/-- The result of a decode after `size` bytes of input that stand for the bytes
`history`. -/
def resultBehind (size : ℕ) (history : List UInt8) :
    Except DecodeError (Outcome × ByteArray) → Except DecodeError (Outcome × ByteArray)
  | .ok (outcome, decoded) =>
      .ok (⟨size + outcome.consumed, history.length + outcome.produced, outcome.trailing⟩,
        ⟨history.toArray⟩ ++ decoded)
  | .error (.truncated consumed produced) =>
      .error (.truncated (size + consumed) (history.length + produced))
  | .error (.corrupt offset detail) => .error (.corrupt (size + offset) detail)

/-- What is said of a configuration that stands behind other output and later in the
input. -/
lemma report_shift (before input : ByteArray) (history : List UInt8) (c : Configuration)
    (v : Verdict) :
    ((c.behind history).shift (8 * before.size)).report (before ++ input)
        (v.shift (8 * before.size)) =
      resultBehind before.size history (c.report input v) := by
  cases v with
  | complete =>
      simp only [Verdict.shift, Configuration.report, Configuration.shift, Configuration.behind,
        Machine.shift, resultBehind, bytesBefore_add, ByteArray.size_append, List.length_append,
        Nat.add_sub_add_left]
      rw [toArray_append]
  | starved =>
      simp only [Verdict.shift, Configuration.report, Configuration.shift, Configuration.behind,
        resultBehind, ByteArray.size_append, List.length_append]
  | corrupt stop => simp only [Verdict.shift, Configuration.report, resultBehind, bytesBefore_add]

/-- Where a decode of the input behind other output ends decides the result behind
chunks that stand for this output. -/
lemma decode_chunks_of_ends {chunks : List Chunk} {d : Configuration} {v : Verdict}
    {history : List UInt8}
    (h : Reaches input (Configuration.start.behind (contents chunks)) (d.behind history))
    (hv : Ends input (d.behind history) v) :
    decode (encodeAll chunks ++ input) =
      resultBehind (encodeAll chunks).size history (d.report input v) := by
  rw [decode_eq_of_reaches (reaches_chunks_append h) (hv.shift _), report_shift]

/-! ### Decodes behind chunks -/

/-- A decode that does not find the input corrupt has the same result behind chunks. -/
theorem decode_chunks_append {r : Except DecodeError (Outcome × ByteArray)} (chunks : List Chunk)
    (h : decode input = r) (hr : ∀ offset detail, r ≠ .error (.corrupt offset detail)) :
    decode (encodeAll chunks ++ input) =
      resultBehind (encodeAll chunks).size (contents chunks) r := by
  obtain ⟨c, v, hc, he, hd⟩ := exists_reaches input
  have hv : ∀ stop, v ≠ .corrupt stop := by
    rintro stop rfl
    exact hr _ _ (h.symm.trans hd)
  rw [← h, hd]
  exact decode_chunks_of_ends (hc.behind trivial _) (he.behind hv _)

/-- A decode that finds the input corrupt does so no earlier than at the position of any
configuration on its way. -/
lemma position_le_of_corrupt {offset : ℕ} {detail : String} (h : Reaches input .start c)
    (hd : decode input = .error (.corrupt offset detail)) :
    bytesBefore c.machine.position ≤ offset := by
  obtain ⟨d, v, hr, he⟩ := exists_ends input c
  rw [decode_eq_of_reaches (h.trans hr) he] at hd
  cases v with
  | complete => cases hd
  | starved => cases hd
  | corrupt stop =>
      cases hd
      obtain ⟨p, w, counted, -, -, -, rfl⟩ := (Reaches.parsed (h.trans hr)).flaw he
      exact bytesBefore_mono (Nat.le_add_right_of_le (Reaches.position_le hr))

/-- Chunks in front of an input make it corrupt nowhere: a decode that finds it corrupt
behind them does so without them, and no later. -/
theorem exists_corrupt_of_chunks_append {chunks : List Chunk} {offset : ℕ} {detail : String}
    (h : decode (encodeAll chunks ++ input) = .error (.corrupt offset detail)) :
    ∃ k, decode input = .error (.corrupt k detail) ∧ (encodeAll chunks).size + k ≤ offset := by
  obtain ⟨c, v, hr, he, hd⟩ := exists_reaches input
  have hr' : Reaches input (Configuration.start.behind (contents chunks))
      (c.behind (contents chunks)) := hr.behind trivial _
  rcases he.behind_cases (contents chunks) with he' | ⟨stop, d, -, rfl, hm, rfl⟩
  · -- the decode of the input alone ends in the same way
    rw [decode_chunks_of_ends hr' he', ← hd] at h
    cases hdec : decode input with
    | ok r =>
        rw [hdec] at h
        cases h
    | error e =>
        rw [hdec] at h
        cases e with
        | truncated consumed produced => cases h
        | corrupt k detail =>
            cases h
            exact ⟨k, rfl, Nat.le_refl _⟩
  · -- the decode of the input alone refuses a copy that is in reach behind the chunks
    have hdetail : detail = DecodeError.badItem := (decode_eq_corrupt_iff.mp h).1
    have hle := position_le_of_corrupt (reaches_chunks_append (hr'.tail hm)) h
    rw [Configuration.shift, Machine.shift, bytesBefore_add] at hle
    exact ⟨_, hdetail ▸ hd, hle⟩

/-! ### Inflaters behind chunks -/

/-- **Stored blocks in front shift a decode and change nothing else**: what is decoded
alone is decoded behind them, after their bytes; what is truncated alone is truncated
behind them; and what is corrupt behind them is corrupt alone, no later. -/
theorem Inflater.inflate_chunks_append (i j : Inflater) (chunks : List Chunk)
    (input s t : ByteArray) :
    (∀ outcome decoded, (i.inflate input s).2 = (s ++ decoded, .ok outcome) →
      (j.inflate (encodeAll chunks ++ input) t).2 =
        (t ++ (⟨(contents chunks).toArray⟩ ++ decoded),
          .ok ⟨(encodeAll chunks).size + outcome.consumed,
            (contents chunks).length + outcome.produced, outcome.trailing⟩)) ∧
    (∀ consumed produced, (i.inflate input s).2.2 = .error (.truncated consumed produced) →
      (j.inflate (encodeAll chunks ++ input) t).2 =
        (t, .error (.truncated ((encodeAll chunks).size + input.size)
          ((contents chunks).length + produced)))) ∧
    ∀ offset detail,
      (j.inflate (encodeAll chunks ++ input) t).2.2 = .error (.corrupt offset detail) →
        ∃ k, (i.inflate input s).2 = (s, .error (.corrupt k detail)) ∧
          (encodeAll chunks).size + k ≤ offset := by
  refine ⟨fun outcome decoded h => ?_, fun consumed produced h => ?_, fun offset detail h => ?_⟩
  · obtain ⟨_, hd, hout⟩ := Inflater.inflate_eq_ok_iff.mp h
    obtain rfl := (ByteArray.append_right_inj s).mp hout
    have hb := decode_chunks_append chunks hd (by simp)
    exact Inflater.inflate_eq_ok_iff.mpr ⟨_, hb, rfl⟩
  · have hd := Inflater.decode_of_inflate_error h
    obtain rfl := consumed_of_truncated hd
    have hb := decode_chunks_append chunks hd (by simp)
    exact Inflater.inflate_eq_error_iff.mpr ⟨hb, rfl⟩
  · obtain ⟨k, hd, hk⟩ := exists_corrupt_of_chunks_append (Inflater.decode_of_inflate_error h)
    exact ⟨k, Inflater.inflate_eq_error_iff.mpr ⟨hd, rfl⟩, hk⟩

/-- Five bytes in two blocks, the first of which has bits of its own above its head. -/
def twoChunks : List Chunk :=
  [⟨0xA8, [104, 105, 33], by decide, by decide⟩, ⟨0, [7, 7], by decide, by decide⟩]

/-- Behind these blocks a stream is decoded, the empty input is truncated, and a block
of the fourth kind is corrupt as it is alone. -/
theorem inflate_chunks_append_twoChunks :
    (Inflater.fresh.inflate (encodeAll twoChunks ++ mixedBytes) ⟨#[1]⟩).2 =
        (⟨#[1]⟩ ++ (⟨#[104, 105, 33, 7, 7]⟩ ++ ⟨mixedStream.output.toArray⟩),
          .ok ⟨15 + 26, 5 + 265, mixedBytes.size - 26⟩) ∧
      (Inflater.fresh.inflate (encodeAll twoChunks ++ .empty) ⟨#[1]⟩).2 =
        (⟨#[1]⟩, .error (.truncated (15 + 0) (5 + 0))) ∧
      (Inflater.fresh.inflate (encodeAll twoChunks ++ fourthKind) ⟨#[1]⟩).2.2 =
        .error (.corrupt (15 + 1) DecodeError.badItem) ∧
      ∃ k, (Inflater.fresh.inflate fourthKind .empty).2 =
        (.empty, .error (.corrupt k DecodeError.badItem)) ∧ 15 + k ≤ 15 + 1 := by
  have he : Ends fourthKind (Configuration.start.behind (contents twoChunks)) (.corrupt 3) :=
    ends_head_iff.mpr rfl
  have hcorrupt : (Inflater.fresh.inflate (encodeAll twoChunks ++ fourthKind) ⟨#[1]⟩).2 =
      (⟨#[1]⟩, .error (.corrupt (15 + 1) DecodeError.badItem)) :=
    Inflater.inflate_eq_error_iff.mpr ⟨decode_chunks_of_ends .refl he, rfl⟩
  obtain ⟨hok, -, -⟩ :=
    Inflater.inflate_chunks_append .fresh .fresh twoChunks mixedBytes .empty ⟨#[1]⟩
  obtain ⟨-, htruncated, -⟩ :=
    Inflater.inflate_chunks_append .fresh .fresh twoChunks .empty .empty ⟨#[1]⟩
  obtain ⟨-, -, hback⟩ :=
    Inflater.inflate_chunks_append .fresh .fresh twoChunks fourthKind .empty ⟨#[1]⟩
  exact ⟨hok _ _ inflate_mixedBytes, htruncated _ _ (congrArg Prod.snd inflate_empty),
    congrArg Prod.snd hcorrupt, hback _ _ (congrArg Prod.snd hcorrupt)⟩

end Deflate

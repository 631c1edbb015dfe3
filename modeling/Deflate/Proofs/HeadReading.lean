/-
Reading the head of a block.

* `spells_align_iff`: bits at a byte boundary, and the padding before it;
* `storedLength_eq_done` and `storedLength_eq_bad`: the length of a stored block;
* `IsHead`: the heads that can be written, with what they say;
* `spells_stored_iff`: the kind of a stored block, the padding and what follows;
* `head_eq_done` and `head_eq_bad`: a head is read exactly where it is held, and
  refused exactly where one is held that is not allowed.
-/
import Mathlib.Tactic
import Deflate.Proofs.CodesReading

namespace Deflate

namespace Block

variable {input : ByteArray} {pos next stop : ℕ}

/-! ### The head of a block -/

/-- Bits are held from the next byte boundary on exactly where they are held after
padding. -/
lemma spells_align_iff {w : List Bool} (hw : w ≠ []) :
    Spells input ((pos + 7) / 8 * 8) w next ↔
      ∃ padding : List Bool, padding.length < 8 ∧ 8 ∣ pos + padding.length ∧
        Spells input pos (padding ++ w) next := by
  constructor
  · intro hs
    -- the bits up to the boundary are there, since bits after it are
    have hl := hs.1.length_le
    have hpos := List.length_pos_iff.mpr hw
    rw [List.length_drop, length_bitsOf] at hl
    have hle : pos + ((pos + 7) / 8 * 8 - pos) ≤ 8 * input.size := by omega
    obtain ⟨padding, hlen, hp⟩ := Holds.exists_of_le hle
    have hmid : (pos + 7) / 8 * 8 = pos + padding.length := by omega
    rw [hmid] at hs
    exact ⟨padding, by omega, by omega, Spells.append ⟨hp, rfl⟩ hs⟩
  · rintro ⟨padding, hlt, hdvd, hs⟩
    obtain ⟨_, ⟨-, rfl⟩, hs⟩ := Spells.append_iff.mp hs
    rw [show (pos + 7) / 8 * 8 = pos + padding.length by omega]
    exact hs

/-- The length of a stored block is read exactly where it is held with its
complement from the next byte boundary on. -/
lemma storedLength_eq_done {length : ℕ} :
    storedLength input pos = .done length next ↔
      length ≤ 65535 ∧ Spells input ((pos + 7) / 8 * 8)
        (field 16 length ++ field 16 (65535 - length)) next := by
  simp only [storedLength, BitReader.bind_eq_done, BitReader.align_eq_done,
    BitReader.bits_eq_done_iff, BitReader.require_eq_done_iff, BitReader.pure_eq_done]
  constructor
  · rintro ⟨_, _, rfl, l, _, ⟨hl, hls⟩, m, _, ⟨-, hms⟩, _, _, ⟨hlm, rfl⟩, rfl, rfl⟩
    obtain rfl : m = 65535 - l := by omega
    exact ⟨by omega, hls.append hms⟩
  · rintro ⟨hl, hs⟩
    obtain ⟨_, hls, hms⟩ := Spells.append_iff.mp hs
    exact ⟨(), _, rfl, length, _, ⟨by omega, hls⟩, 65535 - length, _, ⟨by omega, hms⟩, (), _,
      ⟨by omega, rfl⟩, rfl, rfl⟩

/-- It is refused exactly where the complement held is not that of the length. -/
lemma storedLength_eq_bad :
    storedLength input pos = .bad stop ↔
      ∃ length complement, length ≤ 65535 ∧ complement ≤ 65535 ∧ length + complement ≠ 65535 ∧
        Spells input ((pos + 7) / 8 * 8) (field 16 length ++ field 16 complement) stop := by
  simp only [storedLength, BitReader.neverBad_align.bind_eq_bad, BitReader.align_eq_done,
    (BitReader.neverBad_bits _).bind_eq_bad, BitReader.bits_eq_done_iff,
    BitReader.bind_eq_bad (r := BitReader.require _), BitReader.require_eq_bad]
  constructor
  · rintro ⟨_, _, rfl, l, _, ⟨hl, hls⟩, m, _, ⟨hm, hms⟩, ⟨hlm, rfl⟩ | ⟨_, _, -, hr⟩⟩
    · exact ⟨l, m, by omega, by omega, hlm, hls.append hms⟩
    · cases hr
  · rintro ⟨l, m, hl, hm, hlm, hs⟩
    obtain ⟨_, hls, hms⟩ := Spells.append_iff.mp hs
    exact ⟨(), _, rfl, l, _, ⟨by omega, hls⟩, m, _, ⟨by omega, hms⟩, .inl ⟨hlm, rfl⟩⟩

/-- The head of a block is read as its final flag, its kind and the rest. -/
lemma head_eq_done_iff {final : Bool} {body : Body} :
    head input pos = .done (final, body) next ↔
      ∃ kind < 4, Spells input pos (final :: field 2 kind) (pos + 3) ∧
        bodyOf kind input (pos + 3) = .done body next := by
  simp only [head, BitReader.bind_eq_done, BitReader.bit_eq_done, BitReader.bits_eq_done_iff,
    BitReader.pure_eq_done, Prod.mk.injEq]
  constructor
  · rintro ⟨_, _, hf, kind, _, ⟨hk, hks⟩, _, _, hb, ⟨rfl, rfl⟩, rfl⟩
    have hs := hf.append hks
    obtain rfl := hs.2
    exact ⟨kind, hk, hs, hb⟩
  · rintro ⟨kind, hk, hs, hb⟩
    obtain ⟨hf, hks⟩ := Spells.cons_iff.mp hs
    exact ⟨final, _, hf, kind, _, ⟨hk, hks⟩, body, _, hb, ⟨rfl, rfl⟩, rfl⟩

lemma head_eq_bad_iff :
    head input pos = .bad stop ↔
      ∃ (final : Bool) (kind : ℕ), kind < 4 ∧ Spells input pos (final :: field 2 kind) (pos + 3) ∧
        bodyOf kind input (pos + 3) = .bad stop := by
  simp only [head, BitReader.neverBad_bit.bind_eq_bad, BitReader.bit_eq_done,
    (BitReader.neverBad_bits _).bind_eq_bad, BitReader.bits_eq_done_iff,
    BitReader.bind_eq_bad (r := bodyOf _)]
  constructor
  · rintro ⟨final, _, hf, kind, _, ⟨hk, hks⟩, hb | ⟨_, _, -, hr⟩⟩
    · have hs := hf.append hks
      obtain rfl := hs.2
      exact ⟨final, kind, hk, hs, hb⟩
    · cases hr
  · rintro ⟨final, kind, hk, hs, hb⟩
    obtain ⟨hf, hks⟩ := Spells.cons_iff.mp hs
    exact ⟨final, _, hf, kind, _, ⟨hk, hks⟩, .inl hb⟩

/-- What the head of a block reads as: a stored block or a coded one. -/
inductive IsHead (pos : ℕ) (final : Bool) : (body : Body) → (w : List Bool) → Prop where
  /-- The head of a stored block. -/
  | stored (padding : List Bool) (length : ℕ) : LegalStored pos padding length →
      IsHead pos final (.stored length) (storedHead final padding length)
  /-- The head of a coded block. -/
  | coded (coding : Coding) : coding.Legal →
      IsHead pos final (.coded coding.codes) (codedHead final coding)

lemma field_ne_nil {n v : ℕ} (hn : 0 < n) (w : List Bool) : field n v ++ w ≠ [] := by
  intro h
  have hl := congrArg List.length h
  rw [List.length_append, length_field, List.length_nil] at hl
  omega

/-- The final flag and the kind of a block, and bits after them. -/
lemma spells_kind_append_iff {final : Bool} {kind : ℕ} {w : List Bool} :
    Spells input pos (final :: field 2 kind ++ w) next ↔
      Spells input pos (final :: field 2 kind) (pos + 3) ∧ Spells input (pos + 3) w next := by
  rw [Spells.append_iff]
  constructor
  · rintro ⟨mid, hs, hw⟩
    obtain rfl : mid = pos + 3 := hs.2
    exact ⟨hs, hw⟩
  · rintro ⟨hs, hw⟩
    exact ⟨_, hs, hw⟩

/-- The final flag and the kind of a stored block, and bits at the next byte
boundary after them. -/
lemma spells_stored_iff {final : Bool} {w : List Bool} (hw : w ≠ []) :
    Spells input pos (final :: field 2 0) (pos + 3) ∧
        Spells input ((pos + 3 + 7) / 8 * 8) w next ↔
      ∃ padding : List Bool, padding.length < 8 ∧ 8 ∣ pos + 3 + padding.length ∧
        Spells input pos (final :: field 2 0 ++ padding ++ w) next := by
  rw [spells_align_iff hw]
  constructor
  · rintro ⟨hs, padding, hlt, hdvd, hws⟩
    refine ⟨padding, hlt, hdvd, ?_⟩
    rw [List.append_assoc]
    exact spells_kind_append_iff.mpr ⟨hs, hws⟩
  · rintro ⟨padding, hlt, hdvd, hs⟩
    rw [List.append_assoc] at hs
    obtain ⟨hs, hws⟩ := spells_kind_append_iff.mp hs
    exact ⟨hs, padding, hlt, hdvd, hws⟩

/-- What is read as the head of a block is held. -/
lemma isHead_of_head {final : Bool} {body : Body} (h : head input pos = .done (final, body) next) :
    ∃ w, IsHead pos final body w ∧ Spells input pos w next := by
  obtain ⟨kind, hk, hs, hb⟩ := head_eq_done_iff.mp h
  obtain rfl | rfl | rfl | rfl : kind = 0 ∨ kind = 1 ∨ kind = 2 ∨ kind = 3 := by omega
  · obtain ⟨length, _, hl, hp⟩ := BitReader.bind_eq_done.mp hb
    obtain ⟨rfl, rfl⟩ := BitReader.pure_eq_done.mp hp
    obtain ⟨hle, hls⟩ := storedLength_eq_done.mp hl
    obtain ⟨padding, hlt, hdvd, hws⟩ :=
      (spells_stored_iff (field_ne_nil (by decide) _)).mp ⟨hs, hls⟩
    refine ⟨_, .stored padding length ⟨hlt, hdvd, hle⟩, ?_⟩
    rw [storedHead, List.append_assoc]
    exact hws
  · obtain ⟨rfl, rfl⟩ := BitReader.pure_eq_done.mp hb
    rw [← Coding.codes_fixed]
    refine ⟨_, .coded .fixed trivial, ?_⟩
    rw [codedHead, Coding.bits, List.append_nil]
    exact hs
  · obtain ⟨codes, _, hc, hp⟩ := BitReader.bind_eq_done.mp hb
    obtain ⟨rfl, rfl⟩ := BitReader.pure_eq_done.mp hp
    obtain ⟨header, hh, rfl, hhs⟩ := ownCodes_eq_done.mp hc
    exact ⟨_, .coded (.dynamic header) hh, hs.append hhs⟩
  · cases hb

/-- The head of a block that is held is read. -/
lemma head_of_isHead {final : Bool} {body : Body} {w : List Bool} (hw : IsHead pos final body w)
    (hs : Spells input pos w next) : head input pos = .done (final, body) next := by
  rw [head_eq_done_iff]
  cases hw with
  | stored padding length hl =>
      rw [storedHead, List.append_assoc] at hs
      obtain ⟨hs, hls⟩ :=
        (spells_stored_iff (field_ne_nil (by decide) _)).mpr ⟨padding, hl.1, hl.2.1, hs⟩
      refine ⟨0, by decide, hs, BitReader.bind_eq_done.mpr ⟨length, _, ?_, rfl⟩⟩
      exact storedLength_eq_done.mpr ⟨hl.2.2, hls⟩
  | coded coding hc =>
      obtain ⟨hs, hcs⟩ := spells_kind_append_iff.mp hs
      cases coding with
      | fixed =>
          obtain rfl := Spells.nil_iff.mp hcs
          exact ⟨1, by decide, hs, BitReader.pure_eq_done.mpr ⟨by rw [Coding.codes_fixed], rfl⟩⟩
      | dynamic h =>
          exact ⟨2, by decide, hs, BitReader.bind_eq_done.mpr ⟨_, _,
            ownCodes_eq_done.mpr ⟨h, hc, rfl, hcs⟩, rfl⟩⟩

/-- The head of a block is read exactly where it is held. -/
theorem head_eq_done {final : Bool} {body : Body} :
    head input pos = .done (final, body) next ↔
      ∃ w, IsHead pos final body w ∧ Spells input pos w next := by
  refine ⟨isHead_of_head, ?_⟩
  rintro ⟨w, hw, hs⟩
  exact head_of_isHead hw hs

/-- Where the head of a block is refused one is held that is not allowed. -/
lemma badHead_of_head (h : head input pos = .bad stop) :
    ∃ w, BadHead pos w ∧ Spells input pos w stop := by
  obtain ⟨final, kind, hk, hs, hb⟩ := head_eq_bad_iff.mp h
  obtain rfl | rfl | rfl | rfl : kind = 0 ∨ kind = 1 ∨ kind = 2 ∨ kind = 3 := by omega
  · rcases BitReader.bind_eq_bad.mp hb with hb | ⟨_, _, -, hb⟩
    · obtain ⟨l, m, hl, hm, hlm, hls⟩ := storedLength_eq_bad.mp hb
      obtain ⟨padding, hlt, hdvd, hws⟩ :=
        (spells_stored_iff (field_ne_nil (by decide) _)).mp ⟨hs, hls⟩
      refine ⟨_, .stored final padding l m ⟨hlt, hdvd, hl⟩ hm hlm, ?_⟩
      rw [List.append_assoc]
      exact hws
    · cases hb
  · cases hb
  · rcases BitReader.bind_eq_bad.mp hb with hb | ⟨_, _, -, hb⟩
    · obtain ⟨w, hw, hws⟩ := ownCodes_eq_bad.mp hb
      exact ⟨_, .codes final w hw, hs.append hws⟩
    · cases hb
  · cases hb
    exact ⟨_, .kind final, hs⟩

/-- The head of a block that is held and not allowed is refused. -/
lemma head_of_badHead {w : List Bool} (hw : BadHead pos w) (hs : Spells input pos w stop) :
    head input pos = .bad stop := by
  rw [head_eq_bad_iff]
  cases hw with
  | kind final =>
      obtain rfl := hs.2
      exact ⟨final, 3, by decide, hs, rfl⟩
  | stored final padding l m hl hm hlm =>
      rw [List.append_assoc] at hs
      obtain ⟨hs, hls⟩ :=
        (spells_stored_iff (field_ne_nil (by decide) _)).mpr ⟨padding, hl.1, hl.2.1, hs⟩
      refine ⟨final, 0, by decide, hs, BitReader.bind_eq_bad.mpr (.inl ?_)⟩
      exact storedLength_eq_bad.mpr ⟨l, m, hl.2.2, hm, hlm, hls⟩
  | codes final w hw =>
      obtain ⟨hs, hws⟩ := spells_kind_append_iff.mp hs
      exact ⟨final, 2, by decide, hs,
        BitReader.bind_eq_bad.mpr (.inl (ownCodes_eq_bad.mpr ⟨w, hw, hws⟩))⟩

/-- The head of a block is refused exactly where one is held that is not
allowed. -/
theorem head_eq_bad :
    head input pos = .bad stop ↔ ∃ w, BadHead pos w ∧ Spells input pos w stop := by
  refine ⟨badHead_of_head, ?_⟩
  rintro ⟨w, hw, hs⟩
  exact head_of_badHead hw hs

end Block

end Deflate

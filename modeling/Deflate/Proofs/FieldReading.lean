/-
What the readers of fields read.

* `bind_eq_bad`, `accept_eq_bad`, `require_eq_bad`: where a compound reader
  refuses, and `bind_eq_starved`: where it starves;
* `bit_eq_done`, `bits_eq_done_iff`, `times_bits_eq_done`, `byte_eq_done`: a
  field is read exactly where its bits are held;
* `NeverBad`: readers that refuse nothing; fields and the next byte boundary
  are read by such readers.
-/
import Mathlib.Tactic
import Deflate.Proofs.Bits

namespace Deflate

namespace BitReader

variable {α β : Type} {input : ByteArray} {pos next stop : ℕ}

/-! ### Compound readers -/

/-- A sequence that refuses does so in its first reader or in the reader
selected. -/
lemma bind_eq_bad {r : BitReader α} {f : α → BitReader β} :
    (r >>= f) input pos = .bad stop ↔
      r input pos = .bad stop ∨
        ∃ a mid, r input pos = .done a mid ∧ f a input mid = .bad stop := by
  rw [bind_apply]
  cases r input pos <;> simp

/-- A sequence that starves does so in its first reader or in the reader selected. -/
lemma bind_eq_starved {r : BitReader α} {f : α → BitReader β} :
    (r >>= f) input pos = .starved ↔
      r input pos = .starved ∨
        ∃ a mid, r input pos = .done a mid ∧ f a input mid = .starved := by
  rw [bind_apply]
  cases r input pos <;> simp

lemma bind_assoc {γ : Type} (r : BitReader α) (f : α → BitReader β) (g : β → BitReader γ) :
    r >>= f >>= g = r >>= fun a => f a >>= g := by
  funext input pos
  simp only [bind_apply]
  cases r input pos <;> rfl

lemma pure_bind (a : α) (f : α → BitReader β) : pure a >>= f = f a := rfl

lemma pure_eq_done {a b : α} :
    (pure a : BitReader α) input pos = .done b next ↔ a = b ∧ pos = next := by
  rw [pure_apply, Read.done.injEq]

lemma accept_eq_done_iff {o : Option α} {a : α} :
    accept o input pos = .done a next ↔ o = some a ∧ next = pos := by
  refine ⟨accept_eq_done, ?_⟩
  rintro ⟨rfl, rfl⟩
  rfl

/-- What is refused ends where the reader stands. -/
lemma accept_eq_bad {o : Option α} :
    accept o input pos = .bad stop ↔ o = none ∧ stop = pos := by
  cases o with
  | none => exact ⟨fun h => ⟨rfl, (Read.bad.inj h).symm⟩, fun h => h.2 ▸ rfl⟩
  | some a =>
      refine iff_of_false ?_ ?_
      · intro h
        cases h
      · rintro ⟨h, -⟩
        cases h

lemma require_eq_done_iff {p : Prop} [Decidable p] {u : Unit} :
    require p input pos = .done u next ↔ p ∧ next = pos := by
  refine ⟨require_eq_done, ?_⟩
  rintro ⟨hp, rfl⟩
  rw [require, if_pos hp]
  rfl

lemma require_eq_bad {p : Prop} [Decidable p] :
    require p input pos = .bad stop ↔ ¬p ∧ stop = pos := by
  rw [require]
  split
  · refine iff_of_false ?_ fun h => h.1 ‹p›
    intro h
    cases h
  · exact ⟨fun h => ⟨‹¬p›, (Read.bad.inj h).symm⟩, fun h => h.2 ▸ rfl⟩

/-! ### Readers that refuse nothing -/

/-- The reader refuses nothing: it reads its item or starves. -/
def NeverBad (r : BitReader α) : Prop :=
  ∀ ⦃input : ByteArray⦄ ⦃pos stop : ℕ⦄, r input pos ≠ .bad stop

lemma neverBad_pure (a : α) : NeverBad (pure a : BitReader α) := by
  intro input pos stop h
  cases h

/-- A sequence refuses nothing if its readers do not. -/
lemma NeverBad.bind {r : BitReader α} {f : α → BitReader β} (hr : NeverBad r)
    (hf : ∀ a, NeverBad (f a)) : NeverBad (r >>= f) := by
  intro input pos stop h
  rcases bind_eq_bad.mp h with h | ⟨a, mid, -, h⟩
  · exact hr h
  · exact hf a h

/-- After a reader that refuses nothing, only the reader selected can refuse. -/
lemma NeverBad.bind_eq_bad {r : BitReader α} {f : α → BitReader β} (hr : NeverBad r) :
    (r >>= f) input pos = .bad stop ↔
      ∃ a mid, r input pos = .done a mid ∧ f a input mid = .bad stop := by
  rw [BitReader.bind_eq_bad]
  exact or_iff_right (@hr input pos stop)

lemma neverBad_bit : NeverBad bit := by
  intro input pos stop h
  rw [bit] at h
  split at h <;> cases h

/-- Any bits make a number, so none of them is refused. -/
lemma neverBad_bits (n : ℕ) : NeverBad (bits n) := by
  induction n with
  | zero => exact neverBad_pure 0
  | succ n ih => exact neverBad_bit.bind fun _ => ih.bind fun _ => neverBad_pure _

lemma NeverBad.times {r : BitReader α} (hr : NeverBad r) (n : ℕ) : NeverBad (r.times n) := by
  induction n with
  | zero => exact neverBad_pure []
  | succ n ih => exact hr.bind fun _ => ih.bind fun _ => neverBad_pure _

lemma neverBad_byte : NeverBad byte :=
  (neverBad_bits 8).bind fun _ => neverBad_pure _

lemma neverBad_align : NeverBad align := by
  intro input pos stop h
  cases h

/-! ### Fields -/

/-- A bit is read exactly where it is held. -/
lemma bit_eq_done {b : Bool} :
    bit input pos = .done b next ↔ Spells input pos [b] next := by
  rw [Spells, Holds.singleton_iff, bitsOf, bitsOfBytes_getElem?, bit, List.length_singleton]
  split
  · rename_i h
    have hd : input.data.toList[pos / 8]? = some input[pos / 8] := by
      rw [Array.getElem?_toList, ByteArray.getElem_eq_getElem_data, Array.getElem?_eq_getElem]
    rw [hd, Option.map_some, Read.done.injEq, Option.some.injEq, eq_comm (b := next)]
  · rename_i h
    have hd : input.data.toList[pos / 8]? = none := by
      rw [Array.getElem?_toList, Array.getElem?_eq_none]
      rw [ByteArray.size_data]
      omega
    simp [hd]

/-- A bit is missing exactly at the end of the input. -/
lemma bit_eq_starved : bit input pos = .starved ↔ 8 * input.size ≤ pos := by
  rw [bit]
  split
  · refine iff_of_false ?_ (by omega)
    intro h
    cases h
  · exact iff_of_true rfl (by omega)

/-- A field is read exactly where its bits are held. -/
theorem bits_eq_done_iff {n v : ℕ} :
    bits n input pos = .done v next ↔ v < 2 ^ n ∧ Spells input pos (field n v) next := by
  induction n generalizing pos v next with
  | zero =>
      rw [bits, pure_eq_done, field, Spells.nil_iff, Nat.pow_zero, Nat.lt_one_iff]
      exact and_congr eq_comm eq_comm
  | succ n ih =>
      simp only [bits, bind_eq_done, pure_eq_done, bit_eq_done, ih, field, Nat.pow_succ]
      constructor
      · rintro ⟨low, mid, hl, high, _, ⟨hlt, hh⟩, rfl, rfl⟩
        have hb := Bool.toNat_le low
        have hd : (low.toNat + 2 * high) / 2 = high := by omega
        have ht : (low.toNat + 2 * high).testBit 0 = low := by
          cases low <;> simp [Nat.testBit_zero]
        rw [ht, hd]
        exact ⟨by omega, hl.append hh⟩
      · rintro ⟨hlt, hv⟩
        obtain ⟨hl, hh⟩ := Spells.cons_iff.mp hv
        refine ⟨_, _, hl, v / 2, _, ⟨by omega, hh⟩, ?_, rfl⟩
        rw [toNat_testBit_zero]
        omega

/-- A row of fields is read exactly where all their bits are held. -/
theorem times_bits_eq_done {k n : ℕ} {vs : List ℕ} :
    (bits k).times n input pos = .done vs next ↔
      vs.length = n ∧ (∀ v ∈ vs, v < 2 ^ k) ∧ Spells input pos (vs.flatMap (field k)) next := by
  induction n generalizing pos vs next with
  | zero =>
      rw [times, pure_eq_done]
      constructor
      · rintro ⟨rfl, rfl⟩
        exact ⟨rfl, by simp, Spells.nil_iff.mpr rfl⟩
      · rintro ⟨hl, -, hs⟩
        obtain rfl := List.length_eq_zero_iff.mp hl
        exact ⟨rfl, (Spells.nil_iff.mp hs).symm⟩
  | succ n ih =>
      simp only [times, bind_eq_done, pure_eq_done, bits_eq_done_iff, ih]
      constructor
      · rintro ⟨v, _, ⟨hlt, hv⟩, vs, _, ⟨rfl, hall, hvs⟩, rfl, rfl⟩
        exact ⟨rfl, List.forall_mem_cons.mpr ⟨hlt, hall⟩, hv.append hvs⟩
      · rintro ⟨hl, hall, hs⟩
        obtain ⟨v, vs, rfl⟩ := List.exists_cons_of_length_eq_add_one hl
        obtain ⟨_, hv, hvs⟩ := Spells.append_iff.mp hs
        obtain ⟨hlt, hall⟩ := List.forall_mem_cons.mp hall
        exact ⟨v, _, ⟨hlt, hv⟩, vs, _, ⟨Nat.succ.inj hl, hall, hvs⟩, rfl, rfl⟩

/-- A byte is read exactly where its bits are held. -/
lemma byte_eq_done {b : UInt8} :
    byte input pos = .done b next ↔ Spells input pos (field 8 b.toNat) next := by
  simp only [byte, bind_eq_done, pure_eq_done, bits_eq_done_iff]
  constructor
  · rintro ⟨v, _, ⟨hlt, hv⟩, rfl, rfl⟩
    rw [UInt8.toNat_ofNat', Nat.mod_eq_of_lt hlt]
    exact hv
  · exact fun hb => ⟨b.toNat, _, ⟨b.toNat_lt, hb⟩, UInt8.ofNat_toNat, rfl⟩

lemma align_eq_done {u : Unit} :
    align input pos = .done u next ↔ next = (pos + 7) / 8 * 8 :=
  ⟨fun h => (Read.done.inj h).2.symm, fun h => h ▸ rfl⟩

end BitReader

end Deflate

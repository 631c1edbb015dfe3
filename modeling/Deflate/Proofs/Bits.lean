/-
The bits of a byte string as a list, and what the readers of fields read there.

* `field` and `fieldValue`: a number in a fixed count of bits, least
  significant bit first, and back;
* `bitsOf` and `packed`: the bits of a byte string, and the bytes with given
  bits; `bitsOf_pack` says that these are inverse;
* `Holds`: from a position on the input begins with given bits;
* `Spells`: between two positions the input holds given bits.
-/
import Mathlib.Tactic
import Deflate.Block

namespace Deflate

/-! ### Fields -/

/-- The number `v` in `n` bits, least significant bit first. -/
def field : (n v : ℕ) → List Bool
  | 0, _ => []
  | n + 1, v => v.testBit 0 :: field n (v / 2)

/-- The number given by bits, least significant bit first. -/
def fieldValue : List Bool → ℕ
  | [] => 0
  | b :: w => b.toNat + 2 * fieldValue w

@[simp] lemma length_field (n v : ℕ) : (field n v).length = n := by
  induction n generalizing v with
  | zero => rfl
  | succ n ih => rw [field, List.length_cons, ih]

lemma toNat_testBit_zero (v : ℕ) : (v.testBit 0).toNat = v % 2 := by
  rw [Nat.testBit_zero]
  rcases Nat.mod_two_eq_zero_or_one v with h | h <;> simp [h]

/-- A field of `n` bits keeps the `n` lowest bits of a number. -/
lemma fieldValue_field (n v : ℕ) : fieldValue (field n v) = v % 2 ^ n := by
  induction n generalizing v with
  | zero => simp [field, fieldValue, Nat.mod_one]
  | succ n ih =>
      rw [field, fieldValue, ih, toNat_testBit_zero, Nat.pow_succ', Nat.mod_mul]

lemma fieldValue_lt (w : List Bool) : fieldValue w < 2 ^ w.length := by
  induction w with
  | nil => simp [fieldValue]
  | cons b w ih =>
      have hb := Bool.toNat_le b
      rw [fieldValue, List.length_cons, Nat.pow_succ]
      omega

/-- Every word is the field of its value. -/
lemma field_fieldValue (w : List Bool) : field w.length (fieldValue w) = w := by
  induction w with
  | nil => rfl
  | cons b w ih =>
      have hd : (b.toNat + 2 * fieldValue w) / 2 = fieldValue w := by
        have hb := Bool.toNat_le b
        omega
      have hb : (b.toNat + 2 * fieldValue w).testBit 0 = b := by
        cases b <;> simp [Nat.testBit_zero]
      rw [fieldValue, List.length_cons, field, hd, hb, ih]

/-- Only the lowest bits of a number are written. -/
lemma field_mod (n v : ℕ) : field n (v % 2 ^ n) = field n v := by
  have h := field_fieldValue (field n v)
  rwa [length_field, fieldValue_field] at h

/-- A field is two fields, the lower one first. -/
lemma field_add (m n v : ℕ) : field (m + n) v = field m v ++ field n (v / 2 ^ m) := by
  induction m generalizing v with
  | zero => simp [field]
  | succ m ih =>
      rw [Nat.succ_add, field, field, ih, Nat.div_div_eq_div_mul, ← Nat.pow_succ',
        List.cons_append]

/-- Each bit of a field is that bit of the number. -/
lemma field_getElem? {n i : ℕ} (v : ℕ) (h : i < n) : (field n v)[i]? = some (v.testBit i) := by
  induction n generalizing v i with
  | zero => omega
  | succ n ih =>
      cases i with
      | zero => rfl
      | succ i => rw [field, List.getElem?_cons_succ, ih _ (by omega), Nat.testBit_div_two]

/-! ### The bits of a byte string -/

/-- The bits of bytes, least significant bit of each byte first. -/
def bitsOfBytes (bytes : List UInt8) : List Bool :=
  bytes.flatMap fun byte => field 8 byte.toNat

/-- The bits of a byte string. -/
def bitsOf (input : ByteArray) : List Bool :=
  bitsOfBytes input.data.toList

@[simp] lemma bitsOfBytes_nil : bitsOfBytes [] = [] := rfl

@[simp] lemma bitsOfBytes_cons (byte : UInt8) (bytes : List UInt8) :
    bitsOfBytes (byte :: bytes) = field 8 byte.toNat ++ bitsOfBytes bytes := rfl

@[simp] lemma bitsOfBytes_append (bytes more : List UInt8) :
    bitsOfBytes (bytes ++ more) = bitsOfBytes bytes ++ bitsOfBytes more :=
  List.flatMap_append

@[simp] lemma length_bitsOfBytes (bytes : List UInt8) :
    (bitsOfBytes bytes).length = 8 * bytes.length := by
  induction bytes with
  | nil => rfl
  | cons byte bytes ih =>
      rw [bitsOfBytes_cons, List.length_append, length_field, ih, List.length_cons]
      omega

@[simp] lemma length_bitsOf (input : ByteArray) : (bitsOf input).length = 8 * input.size := by
  rw [bitsOf, length_bitsOfBytes, Array.length_toList, ByteArray.size_data]

lemma bitsOf_append (input more : ByteArray) :
    bitsOf (input ++ more) = bitsOf input ++ bitsOf more := by
  rw [bitsOf, ByteArray.data_append, Array.toList_append, bitsOfBytes_append]
  rfl

/-- A bit of a byte string is found by its byte and its place in it. -/
lemma bitsOfBytes_getElem? (bytes : List UInt8) (pos : ℕ) :
    (bitsOfBytes bytes)[pos]? = bytes[pos / 8]?.map fun byte => byte.toNat.testBit (pos % 8) := by
  induction bytes generalizing pos with
  | nil => rfl
  | cons byte bytes ih =>
      rw [bitsOfBytes_cons]
      rcases Nat.lt_or_ge pos 8 with h | h
      · rw [List.getElem?_append_left (by simpa using h), field_getElem? _ h,
          Nat.div_eq_of_lt h, Nat.mod_eq_of_lt h]
        rfl
      · obtain ⟨k, rfl⟩ := Nat.exists_eq_add_of_le h
        rw [List.getElem?_append_right (by simp), length_field, ih,
          Nat.add_sub_cancel_left, show (8 + k) / 8 = k / 8 + 1 by omega, Nat.add_mod_left,
          List.getElem?_cons_succ]

/-- The bytes with the given bits, eight bits a byte; bits that do not fill a
byte are dropped. -/
def packed : List Bool → List UInt8
  | b₀ :: b₁ :: b₂ :: b₃ :: b₄ :: b₅ :: b₆ :: b₇ :: w =>
      UInt8.ofNat (fieldValue [b₀, b₁, b₂, b₃, b₄, b₅, b₆, b₇]) :: packed w
  | _ => []

/-- The byte string with the given bits. -/
def pack (w : List Bool) : ByteArray :=
  ⟨(packed w).toArray⟩

lemma field_toNat_ofNat {w : List Bool} (h : w.length = 8) :
    field 8 (UInt8.ofNat (fieldValue w)).toNat = w := by
  have hv := fieldValue_lt w
  rw [h] at hv
  rw [UInt8.toNat_ofNat', Nat.mod_eq_of_lt hv, ← h, field_fieldValue]

lemma bitsOfBytes_packed {w : List Bool} (h : 8 ∣ w.length) : bitsOfBytes (packed w) = w := by
  fun_induction packed w with
  | case1 b₀ b₁ b₂ b₃ b₄ b₅ b₆ b₇ w ih =>
      have hw : 8 ∣ w.length := by
        simp only [List.length_cons] at h
        omega
      rw [bitsOfBytes_cons, ih hw, field_toNat_ofNat rfl]
      rfl
  | case2 w hw =>
      -- of fewer than eight bits only none fill up their bytes
      match w, hw, h with
      | [], _, _ => rfl
      | [_], _, h => simp at h
      | [_, _], _, h => simp at h
      | [_, _, _], _, h => simp at h
      | [_, _, _, _], _, h => simp at h
      | [_, _, _, _, _], _, h => simp at h
      | [_, _, _, _, _, _], _, h => simp at h
      | [_, _, _, _, _, _, _], _, h => simp at h
      | _ :: _ :: _ :: _ :: _ :: _ :: _ :: _ :: _, hw, _ =>
          exact absurd rfl (hw _ _ _ _ _ _ _ _ _)

/-- A byte string made of full bytes has the bits it was made of. -/
theorem bitsOf_pack {w : List Bool} (h : 8 ∣ w.length) : bitsOf (pack w) = w :=
  bitsOfBytes_packed h

/-- Full bytes have eight bits each. -/
lemma size_pack {w : List Bool} (h : 8 ∣ w.length) : 8 * (pack w).size = w.length := by
  rw [← length_bitsOf, bitsOf_pack h]

/-! ### Bits held from a position on -/

/-- From position `pos` on the input begins with the bits `w`. -/
def Holds (input : ByteArray) (pos : ℕ) (w : List Bool) : Prop :=
  w <+: (bitsOf input).drop pos

instance (input : ByteArray) (pos : ℕ) : DecidablePred (Holds input pos) :=
  fun _ => inferInstanceAs (Decidable (_ <+: _))

namespace Holds

variable {input : ByteArray} {pos : ℕ}

@[simp] lemma nil : Holds input pos [] := List.nil_prefix

/-- A word is held in two parts, the second right behind the first. -/
lemma append_iff {w₁ w₂ : List Bool} :
    Holds input pos (w₁ ++ w₂) ↔ Holds input pos w₁ ∧ Holds input (pos + w₁.length) w₂ := by
  simp only [Holds]
  constructor
  · rintro ⟨t, ht⟩
    rw [← List.drop_drop, ← ht, List.append_assoc, List.drop_left]
    exact ⟨List.prefix_append _ _, List.prefix_append _ _⟩
  · rintro ⟨⟨t, ht⟩, h⟩
    rw [← List.drop_drop, ← ht, List.drop_left] at h
    rw [← ht]
    exact (List.prefix_append_right_inj w₁).mpr h

lemma singleton_iff {b : Bool} : Holds input pos [b] ↔ (bitsOf input)[pos]? = some b := by
  rw [Holds, List.prefix_iff_getElem?]
  simp

lemma cons_iff {b : Bool} {w : List Bool} :
    Holds input pos (b :: w) ↔ Holds input pos [b] ∧ Holds input (pos + 1) w :=
  @append_iff _ _ [b] w

/-- Bits that are held lie in the input. -/
lemma le_size {w : List Bool} (h : Holds input pos w) (hp : pos ≤ 8 * input.size) :
    pos + w.length ≤ 8 * input.size := by
  have hl := h.length_le
  rw [List.length_drop, length_bitsOf] at hl
  omega

/-- As many bits are held as there are. -/
lemma exists_of_le {n : ℕ} (h : pos + n ≤ 8 * input.size) :
    ∃ w, w.length = n ∧ Holds input pos w := by
  refine ⟨((bitsOf input).drop pos).take n, ?_, List.take_prefix _ _⟩
  rw [List.length_take, List.length_drop, length_bitsOf]
  omega

end Holds

/-- Bits packed into bytes stand at the front of them, whatever follows. -/
lemma holds_pack {w fill : List Bool} (h8 : 8 ∣ (w ++ fill).length) (rest : ByteArray) :
    Holds (pack (w ++ fill) ++ rest) 0 w := by
  rw [Holds, List.drop_zero, bitsOf_append, bitsOf_pack h8, List.append_assoc]
  exact List.prefix_append _ _

/-- There are inputs that begin with given bits. -/
lemma exists_holds (w : List Bool) : ∃ input, Holds input 0 w := by
  have h8 : 8 ∣ (w ++ List.replicate (7 * w.length) false).length := by
    rw [List.length_append, List.length_replicate]
    exact ⟨w.length, by ring⟩
  exact ⟨_, holds_pack h8 .empty⟩

/-- From `pos` up to `next` the input holds the bits `w`. -/
def Spells (input : ByteArray) (pos : ℕ) (w : List Bool) (next : ℕ) : Prop :=
  Holds input pos w ∧ next = pos + w.length

namespace Spells

variable {input : ByteArray} {pos mid next : ℕ} {u w : List Bool}

lemma nil_iff : Spells input pos [] next ↔ next = pos := by
  simp [Spells]

lemma append_iff :
    Spells input pos (u ++ w) next ↔ ∃ mid, Spells input pos u mid ∧ Spells input mid w next := by
  simp only [Spells, Holds.append_iff, List.length_append]
  constructor
  · rintro ⟨⟨hu, hw⟩, rfl⟩
    exact ⟨_, ⟨hu, rfl⟩, hw, (Nat.add_assoc _ _ _).symm⟩
  · rintro ⟨_, ⟨hu, rfl⟩, hw, rfl⟩
    exact ⟨⟨hu, hw⟩, Nat.add_assoc _ _ _⟩

lemma append (hu : Spells input pos u mid) (hw : Spells input mid w next) :
    Spells input pos (u ++ w) next :=
  append_iff.mpr ⟨mid, hu, hw⟩

lemma cons_iff {b : Bool} :
    Spells input pos (b :: w) next ↔
      Spells input pos [b] (pos + 1) ∧ Spells input (pos + 1) w next := by
  rw [← List.singleton_append, append_iff]
  constructor
  · rintro ⟨_, ⟨hb, rfl⟩, hw⟩
    exact ⟨⟨hb, rfl⟩, hw⟩
  · rintro ⟨hb, hw⟩
    exact ⟨_, hb, hw⟩

/-- What is held after the bits `u` is held with them. -/
lemma holds_append_iff (hu : Spells input pos u mid) :
    Holds input pos (u ++ w) ↔ Holds input mid w := by
  rw [Holds.append_iff, ← hu.2]
  exact and_iff_right hu.1

end Spells

end Deflate

/-
What a source gives, item by item.

* `gather`: what is collected from a source, by its items alone;
* `gather_readOnce`: a call takes from the source what its items say;
* `collectFrom_eq_gather` and `collect_eq_gather`: so collecting comes to the same,
  whatever room its calls offer;
* `gather_congr_mode`: without interruptions it does not matter how the source is driven.
-/
import Mathlib.Tactic
import Deflate.Transfer.Collect

namespace Deflate

/-- What is collected after `received`, and what the source has left: the bytes of the
items up to the first empty one, the first fault that is not retried or the end. -/
def gather (mode : Mode) (received : ByteArray) :
    List Delivery → Except ReadError ByteArray × List Delivery
  | [] => (.ok received, [])
  | .pending :: rest => gather mode received rest
  | .fail fault :: rest =>
      if mode.Retries fault then gather mode received rest
      else (.error ⟨received.size, fault⟩, rest)
  | .bytes chunk :: rest =>
      if chunk.isEmpty then (.ok received, rest) else gather mode (received ++ chunk) rest

variable {mode : Mode} {received chunk : ByteArray} {source rest : List Delivery}

lemma isEmpty_eq_false_iff : chunk.isEmpty = false ↔ 0 < chunk.size := by
  rw [ByteArray.isEmpty, beq_eq_false_iff_ne, Nat.pos_iff_ne_zero]

lemma gather_bytes (h : 0 < chunk.size) :
    gather mode received (.bytes chunk :: rest) = gather mode (received ++ chunk) rest := by
  rw [gather, isEmpty_eq_false_iff.mpr h, if_neg Bool.false_ne_true]

/-- A chunk can be given in two parts. -/
lemma gather_split {room : ℕ} (hroom : 0 < room) (h : room < chunk.size) :
    gather mode (received ++ chunk.extract 0 room)
        (.bytes (chunk.extract room chunk.size) :: rest) =
      gather mode received (.bytes chunk :: rest) := by
  have hrest : 0 < (chunk.extract room chunk.size).size := by
    rw [ByteArray.size_extract]
    omega
  rw [gather_bytes hrest, gather_bytes (hroom.trans h), ByteArray.append_assoc,
    ← ByteArray.extract_eq_extract_append_extract room (Nat.zero_le room) h.le,
    ByteArray.extract_zero_size]

/-- A call that offers room takes from the source what its items say. -/
lemma gather_readOnce (mode : Mode) (received : ByteArray) {room : ℕ} (hroom : 0 < room)
    (source : List Delivery) :
    gather mode received source =
      match readOnce room source with
      | (.ok chunk, rest) =>
          if chunk.isEmpty then (.ok received, rest) else gather mode (received ++ chunk) rest
      | (.error fault, rest) =>
          if mode.Retries fault then gather mode received rest
          else (.error ⟨received.size, fault⟩, rest) := by
  induction source with
  | nil => rfl
  | cons item rest ih =>
      cases item with
      | pending => exact ih
      | fail fault => rfl
      | bytes chunk =>
          rw [readOnce]
          by_cases hfits : chunk.size ≤ room
          · rw [if_pos hfits]
            rfl
          · have hlt := Nat.lt_of_not_le hfits
            have hpos : 0 < (chunk.extract 0 room).size := by
              rw [ByteArray.size_extract]
              omega
            rw [if_neg hfits]
            dsimp only
            rw [isEmpty_eq_false_iff.mpr hpos, if_neg Bool.false_ne_true, gather_split hroom hlt]

/-- Collecting gives what the items of the source say, whatever room the calls offer. -/
theorem collectFrom_eq_gather (mode : Mode) (rooms : Rooms) (calls : ℕ) (received : ByteArray)
    (source : List Delivery) :
    collectFrom mode rooms calls received source = gather mode received source := by
  induction hn : supply source using Nat.strong_induction_on
    generalizing calls received source with
  | h n ih =>
      subst hn
      have hroom := rooms.room_pos calls
      rw [collectFrom_eq, gather_readOnce mode received hroom]
      rcases hread : readOnce (rooms.room calls) source with ⟨fault | chunk, rest⟩
      · dsimp only
        rw [ih _ (supply_lt_of_error hroom hread) _ _ _ rfl]
      · dsimp only
        by_cases hempty : chunk.isEmpty = true
        · rw [if_pos hempty, if_pos hempty]
        · rw [if_neg hempty, if_neg hempty, ih _ (supply_lt_of_ok hroom hread hempty) _ _ _ rfl]

lemma collect_eq_gather (mode : Mode) (source : List Delivery) :
    collect mode source = gather mode .empty source :=
  collectFrom_eq_gather ..

/-- Without interruptions it does not matter how the source is driven. -/
lemma gather_congr_mode (mode mode' : Mode)
    (h : ∀ fault, Delivery.fail fault ∈ source → ¬fault.IsInterruption) (received : ByteArray) :
    gather mode received source = gather mode' received source := by
  induction source generalizing received with
  | nil => rfl
  | cons item rest ih =>
      have hrest : ∀ fault, Delivery.fail fault ∈ rest → ¬fault.IsInterruption :=
        fun fault hm => h fault (List.mem_cons_of_mem _ hm)
      cases item with
      | pending => exact ih hrest received
      | fail fault =>
          have hfault := h fault List.mem_cons_self
          rw [gather, gather, if_neg fun hr => hfault hr.2, if_neg fun hr => hfault hr.2]
      | bytes chunk =>
          rw [gather, gather, ih hrest]

end Deflate

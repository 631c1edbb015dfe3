/-
What a sink has accepted.

* `Sink.accepted_of_ok` and `Sink.accepted_of_error`: one write;
* `Sink.used_of_ok` and `Sink.used_of_error`: the answers that it uses up;
* `Sink.writeAll_of_empty` to `Sink.writeAll_of_fault`: offering bytes until all are accepted,
  by the first write;
* `Sink.writeAll_accepted`: what has been accepted of them, and what is left;
* `Sink.deliver_accepted` and `Sink.deliver_cases`: the same of a whole output;
* `Sink.deliver_of_willing`: a sink that accepts everything.
-/
import Mathlib.Tactic
import Deflate.Transfer.Sink

namespace Deflate

namespace Sink

variable {mode : Mode} {sink called : Sink} {offered rest : ByteArray} {fault : Fault} {n : ℕ}

/-! ### One write -/

/-- A write that succeeds accepts as many of the bytes offered as it says. -/
lemma accepted_of_ok (h : sink.write offered = (called, .ok n)) :
    n ≤ offered.size ∧ called.accepted = sink.accepted ++ offered.extract 0 n := by
  rw [write] at h
  dsimp only at h
  split at h
  · cases h
  · obtain ⟨rfl, hn⟩ := Prod.mk.inj h
    obtain rfl := Except.ok.inj hn
    exact ⟨Nat.min_le_right .., rfl⟩
  · cases h
    exact ⟨Nat.le_refl _, by rw [ByteArray.extract_zero_size]⟩

/-- A write that fails accepts nothing. -/
lemma accepted_of_error (h : sink.write offered = (called, .error fault)) :
    called.accepted = sink.accepted := by
  rw [write] at h
  dsimp only at h
  split at h
  · cases h
    rfl
  · cases h
  · cases h

/-- The answers that are used up for the next one: only the last of them does not wait. -/
lemma exists_used_nextWrite (replies : List WriteReply) :
    ∃ used, replies = used ++ (nextWrite replies).2 ∧
      match (nextWrite replies).1 with
      | none => .take 0 ∉ used
      | some (.error fault) => .fail fault ∈ used ∧ .take 0 ∉ used
      | some (.ok n) => .take 0 ∈ used ↔ n = 0 := by
  induction replies with
  | nil => exact ⟨[], rfl, List.not_mem_nil⟩
  | cons reply replies ih =>
      cases reply with
      | fail fault => exact ⟨[.fail fault], rfl, by simp [nextWrite]⟩
      | take n => exact ⟨[.take n], rfl, by simp [nextWrite, eq_comm]⟩
      | pending =>
          obtain ⟨used, hused, hlast⟩ := ih
          refine ⟨.pending :: used, congrArg (WriteReply.pending :: ·) hused, ?_⟩
          rw [nextWrite]
          revert hlast
          rcases (nextWrite replies).1 with _ | _ | n <;> simp

/-- A write that succeeds uses up answers, and it accepts nothing of some bytes exactly if
one of them says that. -/
lemma used_of_ok (h : sink.write offered = (called, .ok n)) (hsize : offered.size ≠ 0) :
    ∃ used, sink.writes = used ++ called.writes ∧ (.take 0 ∈ used ↔ n = 0) := by
  obtain ⟨used, hused, hlast⟩ := exists_used_nextWrite sink.writes
  have hw := writes_write sink offered
  rw [h] at hw
  refine ⟨used, hw ▸ hused, ?_⟩
  rw [write] at h
  dsimp only at h
  split at h
  · cases h
  · rename_i m hm
    rw [hm] at hlast
    obtain rfl := Except.ok.inj (congrArg Prod.snd h)
    refine hlast.trans ?_
    omega
  · rename_i hm
    rw [hm] at hlast
    obtain rfl := Except.ok.inj (congrArg Prod.snd h)
    exact iff_of_false hlast hsize

/-- A write that fails uses up the answer that says so. -/
lemma used_of_error (h : sink.write offered = (called, .error fault)) :
    ∃ used, sink.writes = used ++ called.writes ∧ .fail fault ∈ used ∧ .take 0 ∉ used := by
  obtain ⟨used, hused, hlast⟩ := exists_used_nextWrite sink.writes
  have hw := writes_write sink offered
  rw [h] at hw
  refine ⟨used, hw ▸ hused, ?_⟩
  rw [write] at h
  dsimp only at h
  split at h
  · rename_i f hf
    rw [hf] at hlast
    obtain rfl := Except.error.inj (congrArg Prod.snd h)
    exact hlast
  · cases h
  · cases h

/-! ### All writes -/

lemma writeAll_of_empty (hz : rest.size = 0) : sink.writeAll mode rest = (sink, .ok ()) := by
  rw [writeAll_eq, if_pos hz]

lemma writeAll_of_nothing (hz : rest.size ≠ 0) (h : sink.write rest = (called, .ok 0)) :
    sink.writeAll mode rest = (called, .error (acceptsNothing mode)) := by
  rw [writeAll_eq, if_neg hz, h]
  exact if_pos rfl

lemma writeAll_of_some (hz : rest.size ≠ 0) (h : sink.write rest = (called, .ok n))
    (hn : n ≠ 0) :
    sink.writeAll mode rest = called.writeAll mode (rest.extract n rest.size) := by
  rw [writeAll_eq, if_neg hz, h]
  exact if_neg hn

lemma writeAll_of_fault (hz : rest.size ≠ 0) (h : sink.write rest = (called, .error fault))
    (hr : ¬mode.Retries fault) : sink.writeAll mode rest = (called, .error fault) := by
  rw [writeAll_eq, if_neg hz, h]
  exact if_neg hr

lemma writeAll_of_retried (hz : rest.size ≠ 0) (h : sink.write rest = (called, .error fault))
    (hr : mode.Retries fault) : sink.writeAll mode rest = called.writeAll mode rest := by
  rw [writeAll_eq, if_neg hz, h]
  exact if_pos hr

/-- Of the bytes offered until all are accepted a front part is accepted, and nothing is
left of them exactly after a success. -/
lemma writeAll_accepted (mode : Mode) (sink : Sink) (rest : ByteArray) :
    ∃ taken left, taken ++ left = rest ∧
      (sink.writeAll mode rest).1.accepted = sink.accepted ++ taken ∧
      ((sink.writeAll mode rest).2 = .ok () ↔ left = .empty) := by
  have hempty : ∀ {left : ByteArray}, left.size ≠ 0 → left ≠ .empty := fun hz h =>
    hz (congrArg ByteArray.size h)
  induction sink, rest using writeAll_induction mode with
  | empty sink rest hz =>
      obtain rfl := ByteArray.size_eq_zero_iff.mp hz
      rw [writeAll_of_empty hz]
      exact ⟨.empty, .empty, ByteArray.empty_append, ByteArray.append_empty.symm, by simp⟩
  | nothing sink rest called hz h =>
      obtain ⟨-, ha⟩ := accepted_of_ok h
      rw [ByteArray.extract_same] at ha
      rw [writeAll_of_nothing hz h]
      exact ⟨.empty, rest, ByteArray.empty_append, ha, by simp [hempty hz]⟩
  | some sink rest called n hz h hn ih =>
      rw [writeAll_of_some hz h hn]
      obtain ⟨hle, ha⟩ := accepted_of_ok h
      obtain ⟨taken, left, hrest, hi, hok⟩ := ih
      refine ⟨rest.extract 0 n ++ taken, left, ?_, ?_, hok⟩
      · rw [ByteArray.append_assoc, hrest,
          ← ByteArray.extract_eq_extract_append_extract n (Nat.zero_le n) hle,
          ByteArray.extract_zero_size]
      · rw [hi, ha, ByteArray.append_assoc]
  | retried sink rest called fault hz h hr ih =>
      rw [writeAll_of_retried hz h hr]
      obtain ⟨taken, left, hrest, hi, hok⟩ := ih
      exact ⟨taken, left, hrest, hi.trans (congrArg (· ++ taken) (accepted_of_error h)), hok⟩
  | fault sink rest called fault hz h hr =>
      rw [writeAll_of_fault hz h hr]
      have ha := accepted_of_error h
      exact ⟨.empty, rest, ByteArray.empty_append, ha.trans ByteArray.append_empty.symm,
        by simp [hempty hz]⟩

lemma flush_accepted (sink : Sink) : sink.flush.1.accepted = sink.accepted := by
  rw [flush]
  dsimp only
  split <;> rfl

lemma flush_writes (sink : Sink) : sink.flush.1.writes = sink.writes := by
  rw [flush]
  dsimp only
  split <;> rfl

/-! ### A whole output -/

/-- Of a whole output a front part is accepted, and all of it if the call succeeds. -/
lemma deliver_accepted (mode : Mode) (sink : Sink) (output : ByteArray) :
    ∃ taken left, taken ++ left = output ∧
      (sink.deliver mode output).1.accepted = sink.accepted ++ taken ∧
      ((sink.deliver mode output).2 = .ok () → left = .empty) := by
  obtain ⟨taken, left, hout, ha, hok⟩ := writeAll_accepted mode sink output
  refine ⟨taken, left, hout, ?_, ?_⟩
  · rw [← ha, deliver]
    cases h : sink.writeAll mode output with
    | mk written result =>
        cases result with
        | ok => exact flush_accepted written
        | error fault => rfl
  · intro h
    rw [deliver] at h
    split at h
    · rename_i written hw
      exact hok.mp (congrArg Prod.snd hw)
    · cases h

/-- A sink that had accepted nothing ends with a front part of the output after a fault,
and with the output after a success. -/
lemma deliver_cases (mode : Mode) (output : ByteArray) (h : sink.accepted = .empty) :
    (∃ called fault, sink.deliver mode output = (called, .error fault) ∧
      ∃ rest, called.accepted ++ rest = output) ∨
    ∃ called, sink.deliver mode output = (called, .ok ()) ∧ called.accepted = output := by
  obtain ⟨taken, left, hout, ha, hok⟩ := deliver_accepted mode sink output
  rw [h, ByteArray.empty_append] at ha
  cases hs : sink.deliver mode output with
  | mk called result =>
      rw [hs] at ha hok
      obtain rfl : called.accepted = taken := ha
      cases result with
      | error fault => exact .inl ⟨called, fault, rfl, left, hout⟩
      | ok =>
          obtain rfl := hok rfl
          exact .inr ⟨called, rfl, ByteArray.append_empty.symm.trans hout⟩

/-! ### A sink without further answers -/

/-- A sink without further answers to writes accepts everything. -/
lemma writeAll_of_willing (mode : Mode) (rest : ByteArray) (h : sink.writes = []) :
    ∃ called, sink.writeAll mode rest = (called, .ok ()) ∧ called.flushes = sink.flushes := by
  by_cases hz : rest.size = 0
  · exact ⟨sink, writeAll_of_empty hz, rfl⟩
  · obtain ⟨called, hw, hc⟩ :
        ∃ called, sink.write rest = (called, .ok rest.size) ∧ called.flushes = sink.flushes := by
      rw [write, h]
      exact ⟨_, rfl, rfl⟩
    have hleft : (rest.extract rest.size rest.size).size = 0 := by
      rw [ByteArray.extract_same]
      rfl
    exact ⟨called, (writeAll_of_some hz hw hz).trans (writeAll_of_empty hleft), hc⟩

/-- The flush decides whether a sink fails that accepts everything. -/
lemma deliver_of_willing (mode : Mode) (output : ByteArray) (h : sink.writes = []) :
    (sink.deliver mode output).2 =
      match (nextFlush sink.flushes).1 with
      | some fault => .error fault
      | none => .ok () := by
  obtain ⟨called, hw, hc⟩ := writeAll_of_willing mode output h
  rw [deliver, hw]
  dsimp only
  rw [flush, hc]
  dsimp only
  cases (nextFlush sink.flushes).1 <;> rfl

end Sink

end Deflate

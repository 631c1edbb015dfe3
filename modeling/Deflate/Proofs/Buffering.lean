/-
Runs in a buffer, in terms of moves.

* `Buffer.configuration`: a machine with its output in a buffer;
* `runGrowing`: runs one after the other in a buffer that grows, all on the whole input;
* `run_reaches` and `runGrowing_reaches`: a run makes moves, and its verdict is that
  of the configuration reached, whatever the buffer's size and growth;
* `run_of_move`, `runGrowing_of_paused` and their like: a run step by step.
-/
import Mathlib.Tactic
import Deflate.Proofs.Execution

namespace Deflate

variable {input : ByteArray} {c : Configuration}

/-! ### Runs in a buffer -/

lemma toArray_append (out more : List UInt8) :
    (⟨(out ++ more).toArray⟩ : ByteArray) = ⟨out.toArray⟩ ++ ⟨more.toArray⟩ := by
  refine ByteArray.ext ?_
  rw [ByteArray.data_append, List.append_toArray]

/-- The configuration of a machine with its output in a buffer. -/
def Buffer.configuration (b : Buffer) (m : Machine) : Configuration where
  output := b.contents.data.toList
  machine := m

/-- A step emits a byte only for an item that has been read. -/
lemma toStep_eq_emit {α : Type} {r : Read α} {f : α → ℕ → Step} {source : Source} {n : Machine}
    (h : r.toStep f = .emit source n) :
    ∃ a next, r = .done a next ∧ f a next = .emit source n := by
  cases r with
  | done a next => exact ⟨a, next, rfl, h⟩
  | starved => cases h
  | bad stop => cases h

/-- Only a copy takes a byte from the output. -/
lemma step_eq_back {produced distance : ℕ} {m n : Machine}
    (h : m.step input produced = .emit (.back distance) n) :
    ∃ pos final codes left, m = ⟨pos, .copying final codes distance left⟩ := by
  obtain ⟨pos, phase⟩ := m
  cases phase with
  | head =>
      obtain ⟨⟨final, body⟩, next, -, he⟩ := toStep_eq_emit h
      cases body <;> cases he
  | stored final left =>
      cases left with
      | zero => cases h
      | succ left =>
          obtain ⟨byte, next, -, he⟩ := toStep_eq_emit h
          cases he
  | coded final codes =>
      obtain ⟨token, next, -, he⟩ := toStep_eq_emit h
      cases token with
      | literal byte => cases he
      | copy length d =>
          dsimp only at he
          split at he <;> cases he
      | endOfBlock => cases he
  | copying final codes d left =>
      cases left with
      | zero => cases h
      | succ left =>
          cases h
          exact ⟨pos, final, codes, left + 1, rfl⟩
  | finished => cases h

namespace Buffer

lemma length_output (b : Buffer) (m : Machine) : (b.configuration m).output.length = b.filled := by
  rw [configuration, Array.length_toList, ByteArray.size_data, size_contents]

/-- A byte that is put into the buffer is appended to the output. -/
lemma configuration_put {b : Buffer} {m n : Machine} (byte : UInt8) (room : b.HasRoom) :
    (b.put byte room).configuration n = ⟨(b.configuration m).output ++ [byte], n⟩ := by
  rw [configuration, contents_put, ByteArray.data_push, Array.toList_push]
  rfl

/-- More room is no progress of the decode. -/
lemma configuration_enlarge (b : Buffer) (size : ℕ) (m : Machine) :
    (b.enlarge size).configuration m = b.configuration m := by
  rw [configuration, contents_enlarge]
  rfl

lemma hasRoom_put {b : Buffer} {byte : UInt8} {room : b.HasRoom} :
    (b.put byte room).HasRoom ↔ b.filled + 1 < b.bytes.size := by
  rw [HasRoom, size_put]
  rfl

/-- The byte found in the buffer is that of the output. -/
lemma resolve_eq {b : Buffer} {m n : Machine} {source : Source}
    (hs : m.step input b.filled = .emit source n) (hr : (b.configuration m).InReach) :
    b.resolve source = source.byteAfter (b.configuration m).output := by
  cases source with
  | literal byte => rfl
  | back distance =>
      obtain ⟨pos, final, codes, left, rfl⟩ := step_eq_back hs
      obtain ⟨hd, hle⟩ : 1 ≤ distance ∧ distance ≤ (b.configuration _).output.length := hr
      rw [length_output] at hle
      have hlt : b.filled - distance < b.contents.size := by
        rw [size_contents]
        omega
      rw [resolve_back b hlt, Source.byteAfter, length_output, configuration,
        List.getD_eq_getElem?_getD, List.getElem?_eq_getElem (by simpa using hlt)]
      rfl

end Buffer

/-- A run in a buffer makes moves, and its verdict is that of the configuration
reached. -/
theorem run_reaches (input : ByteArray) {b : Buffer} {m : Machine}
    (hr : (b.configuration m).InReach) :
    Reaches input (b.configuration m)
        ((run input b m).buffer.configuration (run input b m).machine) ∧
      ∀ v, (run input b m).verdict? = some v →
        Ends input ((run input b m).buffer.configuration (run input b m).machine) v := by
  fun_induction run input b m with
  | case1 b m n hs ih =>
      have hm : Moves input (b.configuration m) (b.configuration n) :=
        moves_of_step_move (by rw [Buffer.length_output]; exact hs)
      obtain ⟨h, hv⟩ := ih (hm.inReach hr)
      exact ⟨.head hm h, hv⟩
  | case2 b m source n hs room ih =>
      have hm : Moves input (b.configuration m)
          ((b.put (b.resolve source) room).configuration n) := by
        rw [Buffer.configuration_put (m := m), Buffer.resolve_eq hs hr]
        exact moves_of_step_emit (by rw [Buffer.length_output]; exact hs)
      obtain ⟨h, hv⟩ := ih (hm.inReach hr)
      exact ⟨.head hm h, hv⟩
  | case3 b m source n hs full =>
      refine ⟨.refl, ?_⟩
      intro v hv
      cases hv
  | case4 b m v hs =>
      refine ⟨.refl, ?_⟩
      intro w hw
      cases hw
      rw [Ends, Buffer.length_output]
      exact hs

/-- Enlarges the buffer and resumes the machine until the decode ends, always on the whole
input. -/
def runGrowing (growth : Growth) (input : ByteArray) (buffer : Buffer) (m : Machine) :
    Buffer × Machine × Verdict :=
  match _ : run input buffer m with
  | ⟨buffer', m', some verdict⟩ => (buffer', m', verdict)
  | ⟨buffer', m', none⟩ =>
      runGrowing growth input (buffer'.enlarge (growth.next buffer'.bytes.size)) m'
termination_by 2 * m.weight input + if buffer.HasRoom then 0 else 1
decreasing_by exact weight_resumed_lt ‹run input buffer m = _› (growth.lt_next _)

/-- So does a run in a buffer that grows, up to the end of the decode. -/
theorem runGrowing_reaches (growth : Growth) (input : ByteArray) {b : Buffer} {m : Machine}
    (hr : (b.configuration m).InReach) :
    Reaches input (b.configuration m)
        ((runGrowing growth input b m).1.configuration (runGrowing growth input b m).2.1) ∧
      Ends input ((runGrowing growth input b m).1.configuration (runGrowing growth input b m).2.1)
        (runGrowing growth input b m).2.2 := by
  fun_induction runGrowing growth input b m with
  | case1 b m b' m' v hrun =>
      obtain ⟨h, hv⟩ := run_reaches input hr
      rw [hrun] at h hv
      exact ⟨h, hv v rfl⟩
  | case2 b m b' m' hrun ih =>
      obtain ⟨h, -⟩ := run_reaches input hr
      rw [hrun] at h
      rw [Buffer.configuration_enlarge] at ih
      obtain ⟨h', hv⟩ := ih (h.inReach hr)
      exact ⟨h.trans h', hv⟩

/-! ### Runs step by step -/

section Steps

variable {b b' : Buffer} {m m' n : Machine} {source : Source} {v : Verdict}

lemma run_of_move (h : m.step input b.filled = .move n) : run input b m = run input b n := by
  rw [run.eq_def, h]

lemma run_of_emit (h : m.step input b.filled = .emit source n) (room : b.HasRoom) :
    run input b m = run input (b.put (b.resolve source) room) n := by
  rw [run.eq_def, h]
  exact dif_pos room

/-- Without room for its byte the machine stays where it is. -/
lemma run_of_full (h : m.step input b.filled = .emit source n) (full : ¬b.HasRoom) :
    run input b m = ⟨b, m, none⟩ := by
  rw [run.eq_def, h]
  exact dif_neg full

lemma run_of_halt (h : m.step input b.filled = .halt v) : run input b m = ⟨b, m, some v⟩ := by
  rw [run.eq_def, h]

/-- What a run comes to is all that the runs after it depend on. -/
lemma runGrowing_congr (growth : Growth) (h : run input b m = run input b' m') :
    runGrowing growth input b m = runGrowing growth input b' m' := by
  rw [runGrowing.eq_def, runGrowing.eq_def growth input b', h]

/-- After a run without a verdict the next one goes on in a larger buffer. -/
lemma runGrowing_of_paused (growth : Growth) (h : run input b m = ⟨b', m', none⟩) :
    runGrowing growth input b m =
      runGrowing growth input (b'.enlarge (growth.next b'.bytes.size)) m' := by
  rw [runGrowing.eq_def, h]

lemma runGrowing_of_verdict (growth : Growth) (h : run input b m = ⟨b', m', some v⟩) :
    runGrowing growth input b m = (b', m', v) := by
  rw [runGrowing.eq_def, h]

end Steps

end Deflate

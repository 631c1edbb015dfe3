/-
Decoding a whole stream into a buffer that grows.

* `Run` and `run`: the machine runs until it halts or its next byte has no
  room; `weight_run_lt`: a run that had room and ran out of it made progress;
* `Growth`: how a buffer that is too small is enlarged;
* `Counts` and `runRounds`: runs one after the other, each on what the one before
  has left of the input, until the machine halts; what they read and write is
  counted;
* `initialSize`, `Growth.doubling` and `runStream`: the buffer that decodes
  use;
* `decode`: the outcome and the output, or the error, by what has been counted.
-/
import Deflate.Buffer
import Deflate.DecodeError

namespace Deflate

/-! ### Runs in a buffer of fixed length -/

/-- Where a run ends. -/
structure Run where
  /-- The buffer with all output so far. -/
  buffer : Buffer
  /-- Where the decode stands. -/
  machine : Machine
  /-- How the decode ended, or `none` if its next byte has no room. -/
  verdict? : Option Verdict

/-- Runs the machine until the decode ends or a byte has no room. -/
def run (input : ByteArray) (buffer : Buffer) (m : Machine) : Run :=
  match _ : m.step input buffer.filled with
  | .move next => run input buffer next
  | .emit source next =>
      if room : buffer.HasRoom then run input (buffer.put (buffer.resolve source) room) next
      else ⟨buffer, m, none⟩
  | .halt verdict => ⟨buffer, m, some verdict⟩
termination_by m.weight input
decreasing_by
  all_goals exact Machine.step_weight (by rw [‹m.step input buffer.filled = _›]; rfl)

theorem weight_run_le (input : ByteArray) (buffer : Buffer) (m : Machine) :
    (run input buffer m).machine.weight input ≤ m.weight input := by
  fun_induction run input buffer m with
  | case1 buffer m next h ih =>
      exact Nat.le_trans ih (Nat.le_of_lt (Machine.step_weight (by rw [h]; rfl)))
  | case2 buffer m source next h room ih =>
      exact Nat.le_trans ih (Nat.le_of_lt (Machine.step_weight (by rw [h]; rfl)))
  | case3 => exact Nat.le_refl _
  | case4 => exact Nat.le_refl _

/-- A run that had room and ran out of it made progress. -/
theorem weight_run_lt {input : ByteArray} {buffer : Buffer} {m : Machine}
    (room : buffer.HasRoom) (h : (run input buffer m).verdict? = none) :
    (run input buffer m).machine.weight input < m.weight input := by
  fun_induction run input buffer m with
  | case1 buffer m next hs ih =>
      exact Nat.lt_trans (ih room h) (Machine.step_weight (by rw [hs]; rfl))
  | case2 buffer m source next hs _ ih =>
      exact Nat.lt_of_le_of_lt (weight_run_le ..) (Machine.step_weight (by rw [hs]; rfl))
  | case3 buffer m source next hs full => exact absurd room full
  | case4 => cases h

/-! ### Runs in a buffer that grows -/

/-- A rule for the next size of a buffer that is too small. -/
structure Growth where
  /-- The next size. -/
  next : Nat → Nat
  /-- The buffer gets larger. -/
  lt_next : ∀ size, size < next size

/-- A machine that has run out of room makes progress in a larger buffer: what decides
first is the weight, then whether there is room. -/
theorem weight_resumed_lt {input : ByteArray} {buffer buffer' : Buffer} {m m' : Machine}
    {size : Nat} (h : run input buffer m = ⟨buffer', m', none⟩) (hs : buffer'.bytes.size < size) :
    2 * m'.weight input + (if (buffer'.enlarge size).HasRoom then 0 else 1) <
      2 * m.weight input + if buffer.HasRoom then 0 else 1 := by
  have hle := weight_run_le input buffer m
  have hlt := fun room => weight_run_lt room (congrArg Run.verdict? h)
  rw [h] at hle hlt
  dsimp only at hle hlt
  rw [if_pos (buffer'.hasRoom_enlarge hs)]
  split
  · have := hlt ‹_›
    omega
  · omega

/-! ### Rounds over what is left of the input -/

/-- The bytes that hold the bits before a position. -/
def bytesBefore (pos : Nat) : Nat :=
  (pos + 7) / 8

/-- How many bytes a decode has read and written. -/
structure Counts where
  /-- The bytes of input. -/
  read : Nat
  /-- The bytes of output. -/
  written : Nat
  deriving Repr, DecidableEq

/-- Nothing has been read or written. -/
def Counts.zero : Counts where
  read := 0
  written := 0

/-- How many bytes of its input a run has read, from the first one on: those that hold
the bits that count as read, and all of them if the next item does not end in them. -/
def Run.read (input : ByteArray) (r : Run) : Nat :=
  match r.verdict? with
  | some .starved => input.size
  | some (.corrupt stop) => bytesBefore stop
  | _ => bytesBefore r.machine.position

/-- Counts what a run of the machine has read and written. The machine may stand in the
middle of the first byte, which has been counted before. -/
def Counts.add (counts : Counts) (input : ByteArray) (buffer : Buffer) (m : Machine) (r : Run) :
    Counts where
  read := counts.read + (r.read input - bytesBefore m.position)
  written := counts.written + (r.buffer.filled - buffer.filled)

namespace Machine

/-- What is left of the input: the byte that holds the next bit, and those after it. -/
def rest (m : Machine) (input : ByteArray) : ByteArray :=
  input.extract (m.position / 8) input.size

/-- The machine in what is left of the input. -/
def onRest (m : Machine) : Machine where
  position := m.position % 8
  phase := m.phase

theorem size_rest (m : Machine) (input : ByteArray) :
    (m.rest input).size = input.size - m.position / 8 := by
  rw [rest, ByteArray.size_extract, Nat.min_self]

theorem weight_onRest (m : Machine) (input : ByteArray) :
    m.onRest.weight (m.rest input) = m.weight input := by
  simp only [weight, size_rest, onRest]
  omega

end Machine

/-- Decodes in rounds, and counts what they read and write. After a round without a
verdict the buffer is enlarged, and the next one gets what is left of the input. -/
def runRounds (growth : Growth) (input : ByteArray) (buffer : Buffer) (m : Machine)
    (counts : Counts) : Buffer × Machine × Verdict × Counts :=
  match _ : run input buffer m with
  | ⟨buffer', m', some verdict⟩ =>
      (buffer', m', verdict, counts.add input buffer m ⟨buffer', m', some verdict⟩)
  | ⟨buffer', m', none⟩ =>
      runRounds growth (m'.rest input) (buffer'.enlarge (growth.next buffer'.bytes.size)) m'.onRest
        (counts.add input buffer m ⟨buffer', m', none⟩)
termination_by 2 * m.weight input + if buffer.HasRoom then 0 else 1
decreasing_by
  rw [Machine.weight_onRest]
  exact weight_resumed_lt ‹run input buffer m = _› (growth.lt_next _)

/-! ### Decoding -/

/-- The least size of the buffer, and the least that is added to it. -/
def leastGrowth : Nat := 32768

/-- The greatest first size of the buffer. -/
def greatestInitialSize : Nat := 67108864

/-- Counts of bytes are below this. -/
def byteCountLimit : Nat := 18446744073709551616

/-- The first size of the buffer for an input of the given length: four times
the length, within bounds. -/
def initialSize (length : Nat) : Nat :=
  min (max (min (4 * length) (byteCountLimit - 1)) leastGrowth) greatestInitialSize

/-- The buffer is doubled, or more if it is small. -/
def Growth.doubling : Growth where
  next size := size + max size leastGrowth
  lt_next size := by
    have h : 0 < max size leastGrowth :=
      Nat.lt_of_lt_of_le (by decide) (Nat.le_max_right size leastGrowth)
    omega

/-- Runs a machine on the input in a buffer of the usual first size and
growth. -/
def runStream (input : ByteArray) (m : Machine) : Buffer × Machine × Verdict × Counts :=
  runRounds .doubling input (.ofSize (initialSize input.size)) m .zero

/-- What a decode of `size` bytes that has ended says: the counts and the output, or the
error. -/
def Counts.report (counts : Counts) (size : Nat) (buffer : Buffer) :
    Verdict → Except DecodeError (Outcome × ByteArray)
  | .complete =>
      .ok (⟨counts.read, counts.written, size - counts.read⟩,
        buffer.bytes.extract 0 counts.written)
  | .starved => .error (.truncated counts.read counts.written)
  | .corrupt _ => .error (.corrupt counts.read DecodeError.badItem)

/-- Decodes the stream at the front of the input. -/
def decode (input : ByteArray) : Except DecodeError (Outcome × ByteArray) :=
  let (buffer, _, verdict, counts) := runStream input .start
  counts.report input.size buffer verdict

end Deflate

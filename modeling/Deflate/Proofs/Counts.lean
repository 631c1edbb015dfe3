/-
What the rounds of a decode count.

* `Run.shift` and `run_shift`: a run on what is left of an input is the run on the whole
  input, with all positions counted from where the rest begins;
* `read_shift`: how far into the input a run has looked, with bytes in front of it;
* `le_read`: a run reads at least the byte that it starts in, so the counts never go back;
* `runRounds_append` and `runRounds_eq`: the rounds come to the end of the runs on the whole
  input, and what they count adds up to the absolute positions;
* `report`: what these positions say of a decode that has ended.
-/
import Mathlib.Tactic
import Deflate.Proofs.Buffering
import Deflate.Proofs.History
import Deflate.Proofs.Parsing
import Deflate.Proofs.Relocation

namespace Deflate

variable {before input : ByteArray} {b : Buffer} {m : Machine}

/-! ### Positions in bytes -/

lemma bytesBefore_add (n pos : ℕ) : bytesBefore (8 * n + pos) = n + bytesBefore pos := by
  rw [bytesBefore, bytesBefore]
  omega

lemma bytesBefore_mono {p q : ℕ} (h : p ≤ q) : bytesBefore p ≤ bytesBefore q :=
  Nat.div_le_div_right (Nat.add_le_add_right h 7)

lemma bytesBefore_le {pos n : ℕ} (h : pos ≤ 8 * n) : bytesBefore pos ≤ n := by
  rw [bytesBefore]
  omega

/-! ### Runs on the rest of an input -/

/-- The run when `n` more bits stand in front. -/
def Run.shift (n : ℕ) (r : Run) : Run where
  buffer := r.buffer
  machine := r.machine.shift n
  verdict? := r.verdict?.map (Verdict.shift n)

/-- With bytes in front of the input a run goes the same way. -/
theorem run_shift (before input : ByteArray) (b : Buffer) (m : Machine) :
    run (before ++ input) b (m.shift (8 * before.size)) =
      (run input b m).shift (8 * before.size) := by
  fun_induction run input b m with
  | case1 b m n hs ih =>
      rw [run_of_move (by rw [Machine.step_shift, hs]; rfl), ih]
  | case2 b m source n hs room ih =>
      rw [run_of_emit (by rw [Machine.step_shift, hs]; rfl) room, ih]
  | case3 b m source n hs full =>
      rw [run_of_full (by rw [Machine.step_shift, hs]; rfl) full]
      rfl
  | case4 b m v hs =>
      rw [run_of_halt (by rw [Machine.step_shift, hs]; rfl)]
      rfl

/-- It reads as many bytes more as stand in front. -/
lemma read_shift (before input : ByteArray) (r : Run) :
    (r.shift (8 * before.size)).read (before ++ input) = before.size + r.read input := by
  obtain ⟨b, m, v⟩ := r
  rcases v with _ | _ | _ | stop
  · exact bytesBefore_add ..
  · exact bytesBefore_add ..
  · exact ByteArray.size_append
  · exact bytesBefore_add ..

lemma Machine.shift_zero (m : Machine) : m.shift 0 = m := by
  rw [shift, Nat.zero_add]

/-- The machine in what is left of the input, where this begins in the whole. -/
lemma Machine.shift_onRest (m : Machine) (n : ℕ) :
    m.onRest.shift (8 * (n + m.position / 8)) = m.shift (8 * n) := by
  have hpos : 8 * (n + m.position / 8) + m.position % 8 = 8 * n + m.position := by omega
  rw [shift, shift, onRest, hpos]

/-- What is left of the input begins after the bytes that have been read to their last bit. -/
lemma Machine.rest_append (before : ByteArray) (h : m.position ≤ 8 * input.size) :
    (before ++ input.extract 0 (m.position / 8)).size = before.size + m.position / 8 ∧
      (before ++ input.extract 0 (m.position / 8)) ++ m.rest input = before ++ input := by
  have hle : m.position / 8 ≤ input.size := by omega
  refine ⟨?_, ?_⟩
  · rw [ByteArray.size_append, ByteArray.size_extract, Nat.min_eq_left hle, Nat.sub_zero]
  · rw [ByteArray.append_assoc, rest,
      ← ByteArray.extract_eq_extract_append_extract _ (Nat.zero_le _) hle,
      ByteArray.extract_zero_size]

/-! ### What a run reads and writes -/

/-- A run that starts on the way of a decode reads at least what has been read before. -/
lemma le_read (h : Reaches input .start (b.configuration m)) (hr : (b.configuration m).InReach) :
    bytesBefore m.position ≤ (run input b m).read input := by
  obtain ⟨hreach, hv⟩ := run_reaches input hr
  have hpos : m.position ≤ (run input b m).machine.position := hreach.position_le
  have hend : Reaches input .start _ := h.trans hreach
  rcases hverdict : (run input b m).verdict? with _ | _ | _ | stop <;>
    simp only [Run.read, hverdict]
  · exact bytesBefore_mono hpos
  · exact bytesBefore_mono hpos
  · exact bytesBefore_le h.position_le_size
  · obtain ⟨p, w, counted, -, -, -, rfl⟩ := hend.parsed.flaw (hv _ hverdict)
    exact bytesBefore_mono (Nat.le_add_right_of_le hpos)

/-- A run only adds to its output. -/
lemma filled_le_run (input : ByteArray) (b : Buffer) (m : Machine) :
    b.filled ≤ (run input b m).buffer.filled := by
  fun_induction run input b m with
  | case1 b m n hs ih => exact ih
  | case2 b m source n hs room ih => exact (Nat.le_succ _).trans ih
  | case3 => exact Nat.le_refl _
  | case4 => exact Nat.le_refl _

/-- So if the counts are those of all that was read and written before a run, they are so
after it. -/
lemma Counts.add_run {counts : Counts} {start : ℕ}
    (hc : counts = ⟨start + bytesBefore m.position, b.filled⟩)
    (hread : bytesBefore m.position ≤ (run input b m).read input) :
    counts.add input b m (run input b m) =
      ⟨start + (run input b m).read input, (run input b m).buffer.filled⟩ := by
  have hwritten := filled_le_run input b m
  subst hc
  rw [add]
  dsimp only
  congr 1 <;> omega

/-! ### Rounds -/

lemma configuration_ofSize (size : ℕ) :
    (Buffer.ofSize size).configuration .start = .start := by
  rw [Buffer.configuration, Buffer.contents_ofSize]
  rfl

/-- The counts of all that was read and written before a round become those of all that was
read and written after it. -/
lemma Counts.add_round {counts : Counts}
    (hc : counts = ⟨before.size + bytesBefore m.position, b.filled⟩)
    (h : Reaches (before ++ input) .start (b.configuration (m.shift (8 * before.size)))) :
    counts.add input b m (run input b m) =
      ⟨((run input b m).shift (8 * before.size)).read (before ++ input),
        (run input b m).buffer.filled⟩ := by
  have hle := le_read h (h.inReach trivial)
  rw [run_shift, read_shift, Machine.shift, bytesBefore_add] at hle
  rw [read_shift]
  exact add_run hc (Nat.le_of_add_le_add_left hle)

/-- Rounds on what bytes in front have left of an input come to the end of the runs on the
whole input; and if they start with the absolute counts, they end with them. -/
theorem runRounds_append (growth : Growth) {counts : Counts}
    (hc : counts = ⟨before.size + bytesBefore m.position, b.filled⟩)
    (h : Reaches (before ++ input) .start (b.configuration (m.shift (8 * before.size)))) :
    let whole := runGrowing growth (before ++ input) b (m.shift (8 * before.size))
    ∃ n rest w, whole.2 = (Machine.shift (8 * n) rest, Verdict.shift (8 * n) w) ∧
      runRounds growth input b m counts =
        (whole.1, rest, w,
          ⟨(⟨whole.1, whole.2.1, some whole.2.2⟩ : Run).read (before ++ input),
            whole.1.filled⟩) := by
  fun_induction runRounds growth input b m counts generalizing before with
  | case1 input b m counts b' m' v hrun =>
      intro whole
      have hadd := Counts.add_round hc h
      have hshift := run_shift before input b m
      rw [hrun] at hadd hshift
      have hwhole : whole = (b', m'.shift (8 * before.size), v.shift (8 * before.size)) :=
        runGrowing_of_verdict growth hshift
      rw [hwhole, hadd]
      exact ⟨before.size, m', v, rfl, rfl⟩
  | case2 input b m counts b' m' hrun ih =>
      have hadd := Counts.add_round hc h
      have hshift := run_shift before input b m
      have hreach := h.trans (run_reaches (before ++ input) (h.inReach trivial)).1
      rw [hrun] at hadd hshift
      rw [hshift] at hreach
      -- the bytes that have been read to their last bit go over to those in front
      have hle : m'.position ≤ 8 * input.size := by
        have hend : 8 * before.size + m'.position ≤ 8 * (before ++ input).size :=
          Reaches.position_le_size hreach
        rw [ByteArray.size_append] at hend
        omega
      obtain ⟨hsize, happ⟩ := m'.rest_append before hle
      have hmachine := m'.shift_onRest before.size
      rw [runGrowing_of_paused growth hshift]
      dsimp only
      rw [← hmachine, ← hsize, ← happ]
      refine ih ?_ ?_
      · have hbytes := bytesBefore_add (m'.position / 8) (m'.position % 8)
        rw [Nat.div_add_mod] at hbytes
        rw [hadd, read_shift, hsize, Nat.add_assoc]
        exact congrArg (fun n => Counts.mk (before.size + n) b'.filled) hbytes
      · rw [happ, hsize, hmachine, Buffer.configuration_enlarge]
        exact hreach

/-- **What the rounds count adds up to the absolute positions**: rounds on what is left of an
input come to the end of the runs on the whole input, with its verdict and its output. -/
theorem runRounds_eq (growth : Growth) (input : ByteArray) (size : ℕ) :
    let whole := runGrowing growth input (.ofSize size) .start
    ∃ n rest w, whole.2 = (Machine.shift (8 * n) rest, Verdict.shift (8 * n) w) ∧
      runRounds growth input (.ofSize size) .start .zero =
        (whole.1, rest, w,
          ⟨(⟨whole.1, whole.2.1, some whole.2.2⟩ : Run).read input, whole.1.filled⟩) := by
  have hzero : Counts.zero = ⟨ByteArray.empty.size + bytesBefore Machine.start.position,
      (Buffer.ofSize size).filled⟩ := rfl
  have hstart : Machine.start.shift (8 * ByteArray.empty.size) = .start := Machine.shift_zero _
  have hreach : Reaches (.empty ++ input) .start
      ((Buffer.ofSize size).configuration (Machine.start.shift (8 * ByteArray.empty.size))) := by
    rw [hstart, configuration_ofSize]
  have h := runRounds_append growth hzero hreach
  rw [ByteArray.empty_append, hstart] at h
  exact h

/-! ### What is said of the counts -/

/-- What a decode that has ended says, by its absolute positions. -/
def report (input : ByteArray) (buffer : Buffer) (m : Machine) :
    Verdict → Except DecodeError (Outcome × ByteArray)
  | .complete =>
      let consumed := bytesBefore m.position
      .ok (⟨consumed, buffer.filled, input.size - consumed⟩, buffer.contents)
  | .starved => .error (.truncated input.size buffer.filled)
  | .corrupt stop => .error (.corrupt (bytesBefore stop) DecodeError.badItem)

/-- The absolute counts say the same, from wherever the verdict counts its position. -/
lemma Counts.report_eq (input : ByteArray) (b : Buffer) (m : Machine) (n : ℕ) (w : Verdict) :
    (Counts.mk ((⟨b, m, some (w.shift n)⟩ : Run).read input) b.filled).report input.size b w =
      Deflate.report input b m (w.shift n) := by
  cases w <;> rfl

/-- So the counts of all rounds say what is said of the runs on the whole input. -/
theorem report_runStream (input : ByteArray) :
    let whole := runGrowing .doubling input (.ofSize (initialSize input.size)) .start
    let (buffer, _, verdict, counts) := runStream input .start
    counts.report input.size buffer verdict = report input whole.1 whole.2.1 whole.2.2 := by
  intro whole
  obtain ⟨n, rest, w, hend, hrounds⟩ :=
    runRounds_eq .doubling input (initialSize input.size)
  rw [runStream, hrounds]
  dsimp only
  rw [hend]
  exact Counts.report_eq ..

end Deflate

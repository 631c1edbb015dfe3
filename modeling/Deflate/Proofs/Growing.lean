/-
Decodes in a buffer that grows, and with room for every byte.

* `runFreely`: a decode to its end with room for every byte; `runFreely_eq_iff` says that
  it makes moves up to the end of the decode;
* `run_resume` and `run_paused`: a run that pauses has filled its buffer and stands before
  one more byte, and resuming it leads to the same end;
* `Resumes` and `Rounds`: the rounds of a decode in a buffer that grows;
* `Run.Follows`: what a round leaves, compared with the decode that has room for every
  byte;
* `exists_counts`: the counts of the rounds, added up, are the places in input and output;
* `runGrowing_follows`: the rounds come to the same end, whatever the sizes of the buffer.
-/
import Mathlib.Tactic
import Deflate.Proofs.History
import Deflate.Proofs.Truncation

namespace Deflate

/-! ### Room for every byte -/

/-- Decodes to the end, with room for every byte of output. -/
def runFreely (input : ByteArray) (c : Configuration) : Configuration × Verdict :=
  match _ : c.machine.step input c.output.length with
  | .move next => runFreely input ⟨c.output, next⟩
  | .emit source next => runFreely input ⟨c.output ++ [source.byteAfter c.output], next⟩
  | .halt verdict => (c, verdict)
termination_by c.machine.weight input
decreasing_by
  all_goals exact Machine.step_weight (by rw [‹c.machine.step input c.output.length = _›]; rfl)

variable {input : ByteArray} {c d : Configuration} {v : Verdict}

/-- With room for every byte a decode makes moves up to its end. -/
lemma runFreely_reaches (input : ByteArray) (c : Configuration) :
    Reaches input c (runFreely input c).1 ∧
      Ends input (runFreely input c).1 (runFreely input c).2 := by
  fun_induction runFreely input c with
  | case1 c m hs ih => exact ⟨.head (moves_of_step_move hs) ih.1, ih.2⟩
  | case2 c source m hs ih => exact ⟨.head (moves_of_step_emit hs) ih.1, ih.2⟩
  | case3 c v hs => exact ⟨.refl, hs⟩

/-- With room for every byte a decode comes to the configuration where it ends, and to no
other one. -/
theorem runFreely_eq_iff :
    runFreely input c = (d, v) ↔ Reaches input c d ∧ Ends input d v := by
  obtain ⟨hr, he⟩ := runFreely_reaches input c
  constructor
  · intro h
    rw [h] at hr he
    exact ⟨hr, he⟩
  · rintro ⟨hd, hv⟩
    obtain ⟨hc, hw⟩ := hr.ends_unique he hd hv
    exact Prod.ext hc hw

/-- A decode that has got somewhere goes on to the same end. -/
lemma runFreely_of_reaches (h : Reaches input c d) : runFreely input c = runFreely input d := by
  obtain ⟨hr, he⟩ := runFreely_reaches input d
  exact runFreely_eq_iff.mpr ⟨h.trans hr, he⟩

/-- What a decode gives is what is said where it ends with room for every byte. -/
lemma decode_eq_runFreely (input : ByteArray) :
    decode input = (runFreely input .start).1.report input (runFreely input .start).2 := by
  obtain ⟨hr, he⟩ := runFreely_reaches input .start
  exact decode_eq_of_reaches hr he

/-! ### One run in a buffer of fixed size -/

section Run

variable {b : Buffer} {m : Machine}

/-- A run does not change the size of its buffer. -/
lemma size_run (input : ByteArray) (b : Buffer) (m : Machine) :
    (run input b m).buffer.bytes.size = b.bytes.size := by
  fun_induction run input b m with
  | case1 b m n hs ih => exact ih
  | case2 b m source n hs room ih => exact ih.trans (b.size_put _ room)
  | case3 => rfl
  | case4 => rfl

/-- A run that pauses has filled its buffer and stands before one more byte. -/
lemma run_paused (h : (run input b m).verdict? = none) :
    (run input b m).buffer.filled = (run input b m).buffer.bytes.size ∧
      ∃ source n, (run input b m).machine.step input (run input b m).buffer.filled =
        .emit source n := by
  fun_induction run input b m with
  | case1 b m n hs ih => exact ih h
  | case2 b m source n hs room ih => exact ih h
  | case3 b m source n hs full =>
      exact ⟨b.filled_le.antisymm (Nat.le_of_not_lt full), source, n, hs⟩
  | case4 => cases h

/-- From where a run stops, the decode comes to the same end. -/
lemma run_resume (input : ByteArray) (hr : (b.configuration m).InReach) :
    runFreely input ((run input b m).buffer.configuration (run input b m).machine) =
      runFreely input (b.configuration m) :=
  (runFreely_of_reaches (run_reaches input hr).1).symm

/-- A run that does not pause comes to the end of the decode. -/
lemma runFreely_of_verdict (hr : (b.configuration m).InReach)
    (h : (run input b m).verdict? = some v) :
    runFreely input (b.configuration m) =
      ((run input b m).buffer.configuration (run input b m).machine, v) := by
  obtain ⟨hreach, hv⟩ := run_reaches input hr
  exact runFreely_eq_iff.mpr ⟨hreach, hv v h⟩

end Run

/-! ### Rounds -/

/-- One round of a decode in a buffer that grows: the run pauses, and the buffer is
enlarged. -/
inductive Resumes (growth : Growth) (input : ByteArray) :
    Buffer × Machine → Buffer × Machine → Prop where
  | intro {b b' : Buffer} {m m' : Machine} : run input b m = ⟨b', m', none⟩ →
      Resumes growth input (b, m) (b'.enlarge (growth.next b'.bytes.size), m')

/-- Many rounds. -/
abbrev Rounds (growth : Growth) (input : ByteArray) :
    Buffer × Machine → Buffer × Machine → Prop :=
  Relation.ReflTransGen (Resumes growth input)

/-- What a run in a buffer leaves, compared with the end of the decode that has room for
every byte. -/
structure Run.Follows (r : Run) (input : ByteArray) (c : Configuration) (v : Verdict) : Prop where
  /-- The bytes written are a front part of the output. -/
  contents_append : ∃ more, r.buffer.contents ++ more = ⟨c.output.toArray⟩
  /-- From where the run stops, the decode comes to this end. -/
  resumes : runFreely input (r.buffer.configuration r.machine) = (c, v)
  /-- The run pauses exactly if the buffer has not enough room for the output. -/
  paused_iff : r.verdict? = none ↔ r.buffer.bytes.size < c.output.length
  /-- If it does not pause it has come to the end, and all output is in the buffer. -/
  of_verdict : ∀ w, r.verdict? = some w →
    w = v ∧ r.machine = c.machine ∧ r.buffer.contents = ⟨c.output.toArray⟩

section Rounds

variable {growth : Growth} {x y : Buffer × Machine}

/-- The output of a decode only grows. -/
lemma exists_append_of_reaches (h : Reaches input c d) :
    ∃ more : ByteArray, (⟨c.output.toArray⟩ : ByteArray) ++ more = ⟨d.output.toArray⟩ := by
  obtain ⟨more, hmore⟩ := Reaches.output_prefix h
  exact ⟨⟨more.toArray⟩, by rw [← toArray_append, hmore]⟩

/-- A run follows the decode that has room for every byte. -/
lemma run_follows {b : Buffer} {m : Machine} (hr : (b.configuration m).InReach)
    (h : runFreely input (b.configuration m) = (c, v)) :
    (run input b m).Follows input c v := by
  have hresume := (run_resume input hr).trans h
  obtain ⟨hc, hv⟩ := runFreely_eq_iff.mp hresume
  have hverdict : ∀ w, (run input b m).verdict? = some w →
      (run input b m).buffer.configuration (run input b m).machine = c ∧ w = v := fun w hw =>
    Prod.mk.inj ((runFreely_of_verdict hr hw).symm.trans h)
  refine ⟨exists_append_of_reaches hc, hresume, ⟨fun hp => ?_, fun hlt => ?_⟩, fun w hw => ?_⟩
  · -- the byte that has no room is one more byte of the output
    obtain ⟨hfull, source, n, hs⟩ := run_paused hp
    rw [← (run input b m).buffer.length_output (run input b m).machine] at hs hfull
    have hm := moves_of_step_emit (c := (run input b m).buffer.configuration _) hs
    rcases hc.cases_head with rfl | ⟨_, hm', hc'⟩
    · exact absurd hm hv.not_moves
    · obtain rfl := moves_rightUnique hm hm'
      have hlen := (Reaches.output_prefix hc').length_le
      rw [List.length_append, List.length_singleton] at hlen
      omega
  · by_contra hne
    obtain ⟨w, hw⟩ := Option.ne_none_iff_exists'.mp hne
    obtain ⟨rfl, -⟩ := hverdict w hw
    rw [Buffer.length_output] at hlt
    exact absurd (run input b m).buffer.filled_le (Nat.not_le_of_lt hlt)
  · obtain ⟨rfl, rfl⟩ := hverdict w hw
    exact ⟨rfl, rfl, rfl⟩

/-- A round makes moves. -/
lemma Resumes.reaches (h : Resumes growth input x y) (hr : (x.1.configuration x.2).InReach) :
    Reaches input ((run input x.1 x.2).buffer.configuration (run input x.1 x.2).machine)
      (y.1.configuration y.2) ∧ (y.1.configuration y.2).InReach := by
  obtain ⟨hrun⟩ := h
  obtain ⟨hreach, -⟩ := run_reaches input hr
  rw [hrun] at hreach ⊢
  rw [Buffer.configuration_enlarge]
  exact ⟨.refl, hreach.inReach hr⟩

/-- Many rounds make moves. -/
lemma Rounds.reaches (h : Rounds growth input x y) (hr : (x.1.configuration x.2).InReach) :
    Reaches input (x.1.configuration x.2) (y.1.configuration y.2) ∧
      (y.1.configuration y.2).InReach := by
  induction h with
  | refl => exact ⟨.refl, hr⟩
  | tail _ hs ih =>
      obtain ⟨hreach, hin⟩ := ih
      obtain ⟨hy, hin'⟩ := hs.reaches hin
      exact ⟨(hreach.trans (run_reaches input hin).1).trans hy, hin'⟩

/-- What has been written in one round is not altered in later ones. -/
lemma Rounds.contents_append (h : Rounds growth input x y) (hr : (x.1.configuration x.2).InReach) :
    ∃ more, (run input x.1 x.2).buffer.contents ++ more = (run input y.1 y.2).buffer.contents := by
  rcases h.cases_head with rfl | ⟨z, hz, h⟩
  · exact ⟨.empty, ByteArray.append_empty⟩
  · obtain ⟨hreach, hin⟩ := hz.reaches hr
    obtain ⟨hy, hin'⟩ := Rounds.reaches h hin
    exact exists_append_of_reaches ((hreach.trans hy).trans (run_reaches input hin').1)

/-- There is a last round, and it leaves what the whole decode leaves. -/
lemma exists_last_round (growth : Growth) (input : ByteArray) (b : Buffer) (m : Machine) :
    ∃ last, Rounds growth input (b, m) last ∧
      run input last.1 last.2 =
        ⟨(runGrowing growth input b m).1, (runGrowing growth input b m).2.1,
          some (runGrowing growth input b m).2.2⟩ := by
  fun_induction runGrowing growth input b m with
  | case1 b m b' m' v hrun => exact ⟨(b, m), .refl, hrun⟩
  | case2 b m b' m' hrun ih =>
      obtain ⟨last, hl, hlast⟩ := ih
      exact ⟨last, .head (.intro hrun) hl, hlast⟩

end Rounds

/-! ### The whole decode -/

/-- Rounds on what is left of the input count what the runs on the whole input come to. -/
lemma exists_counts (growth : Growth) (size : ℕ) :
    let whole := runGrowing growth input (.ofSize size) .start
    ∃ rest w counts,
      runRounds growth input (.ofSize size) .start .zero = (whole.1, rest, w, counts) ∧
        counts.read = (Run.mk whole.1 whole.2.1 (some whole.2.2)).read input ∧
        counts.written = whole.1.contents.size ∧
        counts.report input.size whole.1 w = report input whole.1 whole.2.1 whole.2.2 := by
  intro whole
  obtain ⟨n, rest, w, hwhole, hrounds⟩ := runRounds_eq growth input size
  have hw : w.shift (8 * n) = whole.2.2 := (congrArg Prod.snd hwhole).symm
  refine ⟨rest, w, _, hrounds, rfl, whole.1.size_contents.symm, ?_⟩
  rw [← hw]
  exact Counts.report_eq ..

/-- **A buffer that grows is as good as room for every byte**: whatever its first size and
its growth, a decode ends after finitely many rounds, and its machine, verdict, output and
report are those of the decode that has room for every byte. Every round writes a front
part of this output and pauses exactly if the output has not enough room; a round that does
not pause has come to the end; and what a round has written no later round alters. Rounds
that only get what is left of the input come to the same end, and what they read and write
adds up to the positions there. So the result of an inflater is that of the decode with room
for every byte, and if this starves, all its output is counted. -/
theorem runGrowing_follows (growth : Growth) (input : ByteArray) (size : ℕ) :
    let first := (Buffer.ofSize size, Machine.start)
    let final := runFreely input .start
    (∃ last buffer, Rounds growth input first last ∧
      run input last.1 last.2 = ⟨buffer, final.1.machine, some final.2⟩ ∧
      runGrowing growth input first.1 first.2 = (buffer, final.1.machine, final.2) ∧
      buffer.contents = ⟨final.1.output.toArray⟩ ∧
      report input buffer final.1.machine final.2 = final.1.report input final.2 ∧
      ∃ rest w counts, runRounds growth input first.1 first.2 .zero = (buffer, rest, w, counts) ∧
        counts.read = (Run.mk buffer final.1.machine (some final.2)).read input ∧
        counts.written = final.1.output.length ∧
        counts.report input.size buffer w = final.1.report input final.2) ∧
    (∀ x y, Rounds growth input first x → Rounds growth input x y →
      (run input x.1 x.2).Follows input final.1 final.2 ∧
      ∃ more, (run input x.1 x.2).buffer.contents ++ more = (run input y.1 y.2).buffer.contents) ∧
    ∀ (inflater : Inflater) (target : ByteArray),
      (inflater.inflate input target).2 =
        (match final.1.report input final.2 with
          | .ok (outcome, decoded) => (target ++ decoded, .ok outcome)
          | .error e => (target, .error e)) ∧
      (final.2 = .starved → (inflater.inflate input target).2 =
        (target, .error (.truncated input.size final.1.output.length))) := by
  intro first final
  have hfirst : first.1.configuration first.2 = .start := configuration_ofSize size
  have hin : (first.1.configuration first.2).InReach := trivial
  have hend : runFreely input (first.1.configuration first.2) = final := by rw [hfirst]
  have hfollows : ∀ x, Rounds growth input first x →
      (run input x.1 x.2).Follows input final.1 final.2 ∧ (x.1.configuration x.2).InReach := by
    intro x hx
    obtain ⟨hreach, hx⟩ := Rounds.reaches hx hin
    exact ⟨run_follows hx ((runFreely_of_reaches hreach).symm.trans hend), hx⟩
  refine ⟨?_, fun x y hx hy => ?_, fun inflater target => ⟨?_, fun hs => ?_⟩⟩
  · obtain ⟨last, hlast, hrun⟩ := exists_last_round growth input first.1 first.2
    obtain ⟨hverdict, hmachine, hcontents⟩ :=
      (hfollows last hlast).1.of_verdict _ (congrArg Run.verdict? hrun)
    rw [hrun] at hmachine hcontents
    dsimp only at hverdict hmachine hcontents
    have hreport : report input (runGrowing growth input first.1 first.2).1 final.1.machine
        final.2 = final.1.report input final.2 := by
      have hc : (runGrowing growth input first.1 first.2).1.configuration final.1.machine =
          final.1 := by
        rw [Buffer.configuration, hcontents]
      rw [report_eq, hc]
    obtain ⟨rest, w, counts, hrounds, hread, hwritten, hcounts⟩ := exists_counts growth size
    rw [hcontents] at hwritten
    rw [hmachine, hverdict] at hread hcounts
    refine ⟨last, (runGrowing growth input first.1 first.2).1, hlast, ?_, ?_, hcontents,
      hreport, rest, w, counts, hrounds, hread, hwritten, hcounts.trans hreport⟩
    · rw [hrun, hmachine, hverdict]
    · rw [← hmachine, ← hverdict]
  · obtain ⟨hf, hx⟩ := hfollows x hx
    exact ⟨hf, Rounds.contents_append hy hx⟩
  · have h := Inflater.inflate_eq inflater input target
    rw [decode_eq_runFreely] at h
    exact h
  · refine Inflater.inflate_eq_error_iff.mpr ⟨?_, rfl⟩
    rw [decode_eq_runFreely]
    exact congrArg (Configuration.report input final.1) hs

/-- The buffer gets one byte larger. -/
def Growth.byOne : Growth where
  next size := size + 1
  lt_next := Nat.lt_succ_self

/-- The first eleven bytes of the stream with blocks of all kinds. -/
def elevenBytes : ByteArray :=
  mixedBytes.extract 0 11

lemma runFreely_mixedBytes :
    runFreely mixedBytes .start = (⟨mixedStream.output, ⟨206, .finished⟩⟩, .complete) := by
  have hs : Spells mixedBytes 0 mixedStream.bits 206 :=
    ⟨holds_mixedBytes, by rw [length_mixedStream_bits]⟩
  exact runFreely_eq_iff.mpr ⟨reaches_stream mixedStream_legal hs, rfl⟩

lemma runFreely_elevenBytes :
    ∃ c, runFreely elevenBytes .start = (c, .starved) ∧ c.output.length = 261 := by
  have hcut : 8 * 11 < mixedStream.bits.length := by
    rw [length_mixedStream_bits]
    decide
  have hcount : mixedStream.stops.countP (· ≤ 8 * 11) = 261 := by decide +kernel
  obtain ⟨c, hr, he, hlen⟩ := Stream.starves mixedStream_legal holds_mixedBytes hcut
  exact ⟨c, runFreely_eq_iff.mpr ⟨hr, he⟩, hlen.trans hcount⟩

/-- A buffer that starts with five bytes and grows by one byte pauses in the middle of the
first copy and ends with the whole output; and a buffer that is full just where the input
ends does not pause, and all its bytes are counted. -/
theorem runGrowing_follows_mixedBytes :
    (run mixedBytes (.ofSize 5) .start).verdict? = none ∧
      (∃ buffer, runGrowing .byOne mixedBytes (.ofSize 5) .start =
          (buffer, ⟨206, .finished⟩, .complete) ∧
        buffer.contents = ⟨mixedStream.output.toArray⟩) ∧
      (run elevenBytes (.ofSize 261) .start).verdict? ≠ none ∧
      (Inflater.fresh.inflate elevenBytes ⟨#[9]⟩).2 =
        (⟨#[9]⟩, .error (.truncated elevenBytes.size 261)) := by
  obtain ⟨⟨_, buffer, -, -, hend, hcontents, -⟩, hrounds, -⟩ :=
    runGrowing_follows .byOne mixedBytes 5
  obtain ⟨-, hcut, hinflate⟩ := runGrowing_follows .byOne elevenBytes 261
  obtain ⟨c, hc, hlen⟩ := runFreely_elevenBytes
  rw [runFreely_mixedBytes] at hend hcontents hrounds
  rw [hc] at hcut hinflate
  have hpaused := (hrounds _ _ .refl .refl).1.paused_iff
  have hfull := (hcut _ _ .refl .refl).1.paused_iff
  rw [size_run, length_mixedStream_output] at hpaused
  rw [size_run, hlen] at hfull
  have hfive : (Buffer.ofSize 5).bytes.size = 5 := Buffer.size_zeros 5
  have hsize : (Buffer.ofSize 261).bytes.size = 261 := Buffer.size_zeros 261
  refine ⟨hpaused.mpr (hfive.trans_lt (by decide)), ⟨buffer, hend, hcontents⟩, fun h => ?_, ?_⟩
  · exact absurd (hfull.mp h) (hsize.ge.not_gt)
  · rw [(hinflate .fresh ⟨#[9]⟩).2 rfl, hlen]

end Deflate

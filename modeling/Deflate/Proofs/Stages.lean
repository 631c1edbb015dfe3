/-
A run is its stages one after the other.

* `inflateStream_of_unread`, `inflateStream_of_undecoded` and `inflateStream_of_decoded`:
  the run by the stage that it comes to;
* `Snapshot.Records`: what the record of a run says;
* `inflateStream_stages`: the run for all sources and sinks.
-/
import Mathlib.Tactic
import Deflate.Pipeline
import Deflate.Proofs.PrefixStability
import Deflate.Proofs.Writing

namespace Deflate

variable {clock : Clock} {mode : Mode} {source left : List Delivery} {sink called : Sink}
  {input output : ByteArray} {outcome : Outcome}

/-! ### Collecting by single calls -/

section Collect

variable {rooms : Rooms} {calls : ℕ} {received chunk : ByteArray} {fault : Fault}

lemma collectFrom_of_bytes (h : readOnce (rooms.room calls) source = (.ok chunk, left))
    (hc : chunk.isEmpty = false) :
    collectFrom mode rooms calls received source =
      collectFrom mode rooms (calls + 1) (received ++ chunk) left := by
  rw [collectFrom_eq, h]
  exact if_neg (by rw [hc]; exact Bool.false_ne_true)

lemma collectFrom_of_end (h : readOnce (rooms.room calls) source = (.ok .empty, left)) :
    collectFrom mode rooms calls received source = (.ok received, left) := by
  rw [collectFrom_eq, h]
  exact if_pos rfl

lemma collectFrom_of_fault (h : readOnce (rooms.room calls) source = (.error fault, left))
    (hr : ¬ mode.Retries fault) :
    collectFrom mode rooms calls received source = (.error ⟨received.size, fault⟩, left) := by
  rw [collectFrom_eq, h]
  exact if_neg hr

end Collect

/-! ### The stages -/

/-- If the source fails, the sink is not called. -/
lemma inflateStream_of_unread {e : ReadError} (h : collect mode source = (.error e, left)) :
    inflateStream clock mode source sink = ⟨.error (.read e), left, sink, []⟩ := by
  rw [inflateStream, h]
  rfl

/-- If the input is not a stream, the sink is not called. -/
lemma inflateStream_of_undecoded {e : DecodeError} (h : collect mode source = (.ok input, left))
    (hd : decode input = .error e) :
    inflateStream clock mode source sink =
      ⟨.error (.decode e), left, sink, [.inputCollected input.size]⟩ := by
  have hi : (Inflater.fresh.inflate input .empty).2 = (.empty, .error e) :=
    Inflater.inflate_eq_error_iff.mpr ⟨hd, rfl⟩
  rw [inflateStream, h]
  dsimp only
  rw [hi]
  rfl

/-- After a decode the sink is called for the whole output. -/
lemma inflateStream_of_decoded (h : collect mode source = (.ok input, left))
    (hd : decode input = .ok (outcome, output)) :
    inflateStream clock mode source sink =
      match sink.deliver mode output with
      | (called, .error fault) =>
          ⟨.error (.write fault), left, called, .inputCollected input.size :: outcome.events⟩
      | (called, .ok ()) =>
          ⟨.ok (snapshotOf clock input.size outcome), left, called,
            .inputCollected input.size :: outcome.events ++ [.outputWritten output.size]⟩ := by
  have hi : (Inflater.fresh.inflate input .empty).2 = (output, .ok outcome) :=
    Inflater.inflate_eq_ok_iff.mpr ⟨output, hd, ByteArray.empty_append.symm⟩
  rw [inflateStream, h]
  dsimp only
  rw [hi]
  rfl

/-- The run takes from the source what collecting takes. -/
lemma inflateStream_source (clock : Clock) (mode : Mode) (source : List Delivery) (sink : Sink) :
    (inflateStream clock mode source sink).source = (collect mode source).2 := by
  rw [inflateStream]
  dsimp only
  split
  · rfl
  · split
    · rfl
    · split <;> rfl

/-- Of a source only what is collected counts, and what is left. -/
lemma inflateStream_congr {source' : List Delivery}
    (h : (collect mode source).1 = (collect mode source').1) :
    inflateStream clock mode source sink =
      { inflateStream clock mode source' sink with source := (collect mode source).2 } := by
  rw [inflateStream, inflateStream]
  revert h
  rcases collect mode source with ⟨collected, left⟩
  rcases collect mode source' with ⟨collected', left'⟩
  rintro (rfl : collected = collected')
  rcases collected with _ | input
  · rfl
  · dsimp only
    rcases (Inflater.fresh.inflate input .empty).2 with ⟨output, _ | outcome⟩
    · rfl
    · dsimp only
      rcases sink.deliver mode output with ⟨called, _ | _⟩ <;> rfl

/-! ### The record and the report -/

/-- The record of a run on `input` with this outcome and output. -/
structure Snapshot.Records (s : Snapshot) (input : ByteArray) (outcome : Outcome)
    (output : ByteArray) : Prop where
  /-- The whole input is counted. -/
  bytesIn_eq : s.bytesIn = input.size
  /-- The whole output is counted. -/
  bytesOut_eq : s.bytesOut = output.size
  /-- What has not been consumed of the input is what follows the stream. -/
  bytesIn_eq_add : s.bytesIn = outcome.consumed + s.bytesTrailing
  /-- Every stage has a time. -/
  hasAll : s.stages.hasAll Stage.all = true

/-- Whatever the clock says, the three stages are recorded. -/
lemma hasAll_timerOf (clock : Clock) : (timerOf clock).stages.hasAll Stage.all = true := rfl

lemma snapshotOf_records (clock : Clock) (hd : decode input = .ok (outcome, output)) :
    (snapshotOf clock input.size outcome).Records input outcome output where
  bytesIn_eq := Nat.zero_add _
  bytesOut_eq := (Nat.zero_add _).trans (produced_eq_size hd)
  bytesIn_eq_add := by
    have htrailing : (snapshotOf clock input.size outcome).bytesTrailing = outcome.trailing :=
      Nat.zero_add _
    have hin : (snapshotOf clock input.size outcome).bytesIn = input.size := Nat.zero_add _
    rw [hin, htrailing, consumed_add_trailing hd]
  hasAll := hasAll_timerOf clock

/-- A decode reports what follows the stream, if anything does, and its counts. -/
lemma events_of_decode (hd : decode input = .ok (outcome, output)) :
    outcome.events =
      (if 0 < outcome.trailing then [.trailingIgnored outcome.trailing outcome.consumed]
        else []) ++ [.inflateComplete outcome.consumed output.size] := by
  rw [← produced_eq_size hd]
  rfl

/-! ### The run -/

/-- **A run is its stages one after the other**, and the sink is called only after a
successful decode. If the source fails, or if the input is not a stream, this failure is
the result and the sink is as it was, without a call. If the input gives an output, the
calls of the sink are those that deliver it, what has been accepted is a front part of
the output, and the run fails with the fault of the sink, or all has been accepted and
the run is recorded. What is reported tells the stages that succeeded. -/
theorem inflateStream_stages (clock : Clock) (mode : Mode) (source : List Delivery)
    (writes : List WriteReply) (flushes : List FlushReply) :
    let sink := Sink.ofReplies writes flushes
    let run := inflateStream clock mode source sink
    run.source = (collect mode source).2 ∧
    (∀ e, (collect mode source).1 = .error e →
      run.result = .error (.read e) ∧ run.sink = sink ∧ run.events = []) ∧
    (∀ input e, (collect mode source).1 = .ok input → inflateAlone input = .error e →
      run.result = .error (.decode e) ∧ run.sink = sink ∧
        run.events = [.inputCollected input.size]) ∧
    ∀ input output, (collect mode source).1 = .ok input → inflateAlone input = .ok output →
      ∃ outcome, (Inflater.fresh.inflate input .empty).2 = (output, .ok outcome) ∧
        run.sink = (sink.deliver mode output).1 ∧
        (∃ rest, run.sink.accepted ++ rest = output) ∧
        (∀ fault, (sink.deliver mode output).2 = .error fault →
          run.result = .error (.write fault) ∧
          run.events = .inputCollected input.size ::
            ((if 0 < outcome.trailing then [.trailingIgnored outcome.trailing outcome.consumed]
              else []) ++ [.inflateComplete outcome.consumed output.size])) ∧
        ((sink.deliver mode output).2 = .ok () →
          (∃ snapshot, run.result = .ok snapshot ∧ snapshot.Records input outcome output) ∧
          run.sink.accepted = output ∧
          run.events = .inputCollected input.size ::
            ((if 0 < outcome.trailing then [.trailingIgnored outcome.trailing outcome.consumed]
              else []) ++ [.inflateComplete outcome.consumed output.size,
                .outputWritten output.size])) := by
  intro sink run
  refine ⟨inflateStream_source .., ?_, ?_, ?_⟩
  · intro e he
    have hrun : run = ⟨.error (.read e), _, sink, []⟩ := inflateStream_of_unread (Prod.ext he rfl)
    rw [hrun]
    exact ⟨rfl, rfl, rfl⟩
  · intro input e hc he
    have hrun : run = ⟨.error (.decode e), _, sink, [.inputCollected input.size]⟩ :=
      inflateStream_of_undecoded (Prod.ext hc rfl) (inflateAlone_eq_error_iff.mp he)
    rw [hrun]
    exact ⟨rfl, rfl, rfl⟩
  · intro input output hc ho
    obtain ⟨outcome, hd⟩ := inflateAlone_eq_ok_iff.mp ho
    have hi : (Inflater.fresh.inflate input .empty).2 = (output, .ok outcome) :=
      Inflater.inflate_eq_ok_iff.mpr ⟨output, hd, ByteArray.empty_append.symm⟩
    have hrun : run = _ := inflateStream_of_decoded (Prod.ext hc rfl) hd
    rw [hrun, events_of_decode hd]
    -- the sink starts without accepted bytes, so all that it has in the end are of the output
    have hempty : sink.accepted = .empty := rfl
    rcases Sink.deliver_cases mode output hempty with
      ⟨called, fault, hs, hrest⟩ | ⟨called, hs, hall⟩
    · rw [hs]
      refine ⟨outcome, hi, rfl, hrest, ?_, ?_⟩
      · intro fault' hf
        obtain rfl := Except.error.inj hf
        exact ⟨rfl, rfl⟩
      · rintro ⟨⟩
    · rw [hs]
      refine ⟨outcome, hi, rfl, ⟨.empty, ByteArray.append_empty.trans hall⟩, ?_, ?_⟩
      · rintro fault' ⟨⟩
      · intro _
        exact ⟨⟨_, rfl, snapshotOf_records clock hd⟩, hall, by simp⟩

lemma collect_mixedBytes (source : List Delivery) :
    collect .blocking (.bytes mixedBytes :: source) =
      collectFrom .blocking .even 1 mixedBytes source := by
  have hroom : mixedBytes.size ≤ Rooms.even.room 0 := by decide
  have hread : readOnce (Rooms.even.room 0) (.bytes mixedBytes :: source) =
      (.ok mixedBytes, source) := by
    rw [readOnce, if_pos hroom]
  rw [collect, collectFrom_of_bytes hread (by decide), ByteArray.empty_append]

/-- A run whose sink accepts everything, by a clock that stands still. -/
def willingRun (source : List Delivery) (flushes : List FlushReply) : PipelineRun :=
  inflateStream .still .blocking source (.ofReplies [] flushes)

/-- A source that fails after a whole stream, an input that is no stream, a sink whose
flush fails, and a run that is recorded. -/
theorem inflateStream_stages_fourRuns :
    ((willingRun [.bytes mixedBytes, .fail (.plain .timedOut)] []).result =
        .error (.read ⟨27, .plain .timedOut⟩) ∧
      (willingRun [.bytes mixedBytes, .fail (.plain .timedOut)] []).sink = .ofReplies [] []) ∧
    ((willingRun [] []).result = .error (.decode (.truncated 0 0)) ∧
      (willingRun [] []).sink = .ofReplies [] []) ∧
    (willingRun [.bytes mixedBytes] [.fail (.plain .interrupted)]).result =
      .error (.write (.plain .interrupted)) ∧
    (willingRun [.bytes mixedBytes] []).sink.accepted = ⟨mixedStream.output.toArray⟩ ∧
    (willingRun [.bytes mixedBytes] []).events =
      [.inputCollected 27, .trailingIgnored 1 26, .inflateComplete 26 265, .outputWritten 265] := by
  have hfault : (collect .blocking [.bytes mixedBytes, .fail (.plain .timedOut)]).1 =
      .error ⟨27, .plain .timedOut⟩ := by
    rw [collect_mixedBytes, collectFrom_of_fault rfl (by decide)]
    rfl
  have hempty : (collect .blocking []).1 = .ok .empty := by
    rw [collect, collectFrom_of_end rfl]
  have hmixed : (collect .blocking [.bytes mixedBytes]).1 = .ok mixedBytes := by
    rw [collect_mixedBytes, collectFrom_of_end rfl]
  have hout : inflateAlone mixedBytes = .ok ⟨mixedStream.output.toArray⟩ := by
    rw [inflateAlone, inflate_mixedBytes, ByteArray.empty_append]
  have hnone : inflateAlone .empty = .error (.truncated 0 0) := by
    rw [inflateAlone, inflate_empty]
  obtain ⟨-, hread, -⟩ := inflateStream_stages .still .blocking
    [.bytes mixedBytes, .fail (.plain .timedOut)] [] []
  obtain ⟨-, -, hdecode, -⟩ := inflateStream_stages .still .blocking [] [] []
  obtain ⟨-, -, -, hwrite⟩ := inflateStream_stages .still .blocking [.bytes mixedBytes] []
    [.fail (.plain .interrupted)]
  obtain ⟨-, -, -, hall⟩ := inflateStream_stages .still .blocking [.bytes mixedBytes] [] []
  obtain ⟨hr, hs, -⟩ := hread _ hfault
  obtain ⟨hr', hs', -⟩ := hdecode _ _ hempty hnone
  obtain ⟨_, -, -, -, hflush, -⟩ := hwrite _ _ hmixed hout
  obtain ⟨outcome, hi, -, -, -, hdone⟩ := hall _ _ hmixed hout
  obtain ⟨-, ha, he⟩ := hdone (Sink.deliver_of_willing .blocking _ rfl)
  obtain rfl : outcome = ⟨26, 265, mixedBytes.size - 26⟩ :=
    Except.ok.inj (congrArg Prod.snd (hi.symm.trans inflate_mixedBytes))
  refine ⟨⟨hr, hs⟩, ⟨hr', hs'⟩, ?_, ha, ?_⟩
  · exact (hflush _ (Sink.deliver_of_willing .blocking _ rfl)).1
  · rw [willingRun, he]
    have hsize : (⟨mixedStream.output.toArray⟩ : ByteArray).size = 265 := length_mixedStream_output
    rw [hsize]
    decide

end Deflate

/-
A whole run: the input is collected, decoded and written.

* `PipelineRun`: the record or the failure, what the source has left, the sink
  and the events;
* `timerOf` and `snapshotOf`: the measurement and the record of a run;
* `inflateStream`: one run; the sink is called only after a successful decode.
-/
import Deflate.Failure
import Deflate.Inflater
import Deflate.Telemetry.Snapshot
import Deflate.Transfer.Sink

namespace Deflate

/-- What a run leaves behind. -/
structure PipelineRun where
  /-- The record of the run, or why it failed. -/
  result : Except Failure Snapshot
  /-- What the source has left. -/
  source : List Delivery
  /-- The sink with its calls. -/
  sink : Sink
  /-- The events in their order. -/
  events : List Event

/-- The events of collecting an input. -/
def collectEvents : Except ReadError ByteArray → List Event
  | .ok input => [.inputCollected input.size]
  | .error _ => []

/-- The measurement of a run by the readings of a clock: at the start, before
and after each stage, and at the end. -/
def timerOf (clock : Clock) : Timer :=
  let started := Timer.startAt (clock.reading 0)
  let read := started.recordFirst .read (clock.reading 1) (clock.reading 2)
  let decoded := read.recordFirst .decompress (clock.reading 3) (clock.reading 4)
  let written := decoded.recordFirst .write (clock.reading 5) (clock.reading 6)
  written.finishAt (clock.reading 7)

/-- The record of a run that took `length` bytes with this outcome. -/
def snapshotOf (clock : Clock) (length : Nat) (outcome : Outcome) : Snapshot :=
  let counters := (Counters.zero.addInput length).addDecode outcome
  Snapshot.of counters (timerOf clock) (clock.reading 8)

/-- Collects the input, decodes it and writes the output. A run that waits and one
that gives way go through the same stages; they differ in the calls that drive
the source and the sink, and in nothing that happens between them. -/
def inflateStream (clock : Clock) (mode : Mode) (source : List Delivery) (sink : Sink) :
    PipelineRun :=
  let (collected, left) := collect mode source
  let before := collectEvents collected
  match collected with
  | .error error =>
      { result := .error (.read error), source := left, sink, events := before }
  | .ok input =>
      match (Inflater.fresh.inflate input .empty).2 with
      | (_, .error error) =>
          { result := .error (.decode error), source := left, sink, events := before }
      | (output, .ok outcome) =>
          let decoded := before ++ outcome.events
          match sink.deliver mode output with
          | (called, .error fault) =>
              { result := .error (.write fault), source := left, sink := called, events := decoded }
          | (called, .ok ()) =>
              { result := .ok (snapshotOf clock input.size outcome)
                source := left
                sink := called
                events := decoded ++ [.outputWritten output.size] }

end Deflate

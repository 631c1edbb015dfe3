/-
Measuring a run.

* `Clock`: the instants that readings of a clock give, never going back;
* `Timer`: when a run started and ended, and the times of its stages;
* `Timer.record`: adds the time between two instants to a stage; for a stage
  that has no time yet it never fails and is `Timer.recordFirst`;
* `Counters`: the bytes that a run took and gave.
-/
import Deflate.Telemetry.Stage
import Deflate.DecodeError

namespace Deflate

/-- A point in time, as the time from some fixed one. -/
abbrev Instant : Type := Duration

/-- The instants that the readings of a clock give, in their order. -/
structure Clock where
  /-- The instant of a reading. -/
  reading : Nat → Instant
  /-- Later readings give no earlier instants. -/
  le_succ : ∀ n, reading n ≤ reading (n + 1)

/-- A clock that stands still. -/
def Clock.still : Clock where
  reading _ := .zero
  le_succ _ := Nat.le_refl _

/-- The measurement of a run. -/
structure Timer where
  /-- When the run started. -/
  start : Instant
  /-- When the run ended, if it has. -/
  stop? : Option Instant
  /-- The times of its stages. -/
  stages : StageTimes
  deriving Repr, DecidableEq

namespace Timer

/-- A run that starts now. -/
def startAt (now : Instant) : Timer where
  start := now
  stop? := none
  stages := .empty

/-- Adds to the time of a stage. -/
def addStage (timer : Timer) (stage : Stage) (d : Duration) : Except Overflow Timer := do
  return { timer with stages := ← timer.stages.add stage d }

/-- Adds the time between two instants to a stage. -/
def record (timer : Timer) (stage : Stage) (before after : Instant) : Except Overflow Timer :=
  timer.addStage stage (after.since before)

/-- Records the time between two instants for a stage that has none yet. -/
def recordFirst (timer : Timer) (stage : Stage) (before after : Instant) : Timer :=
  { timer with stages := timer.stages.set stage (after.since before) }

/-- The run ends now. -/
def finishAt (timer : Timer) (now : Instant) : Timer :=
  { timer with stop? := some now }

/-- How long the run took, up to now if it has not ended. -/
def elapsed (timer : Timer) (now : Instant) : Duration :=
  (timer.stop?.getD now).since timer.start

/-- The first time of a stage is added to nothing, so it is never too long. -/
theorem record_eq_recordFirst {timer : Timer} {stage : Stage} (before after : Instant)
    (h : timer.stages.get? stage = none) :
    timer.record stage before after = .ok (timer.recordFirst stage before after) := by
  rw [record, addStage, StageTimes.add_of_get?_eq_none h]
  rfl

end Timer

/-- The bytes that a run took and gave. -/
structure Counters where
  /-- The bytes of input. -/
  bytesIn : Nat
  /-- The bytes of output. -/
  bytesOut : Nat
  /-- The bytes of input after the stream. -/
  bytesTrailing : Nat
  deriving Repr, DecidableEq

namespace Counters

/-- Nothing has been counted. -/
def zero : Counters where
  bytesIn := 0
  bytesOut := 0
  bytesTrailing := 0

/-- Counts an input. -/
def addInput (c : Counters) (length : Nat) : Counters :=
  { c with bytesIn := c.bytesIn + length }

/-- Counts a successful decode. -/
def addDecode (c : Counters) (o : Outcome) : Counters :=
  { c with
    bytesOut := c.bytesOut + o.produced
    bytesTrailing := c.bytesTrailing + o.trailing }

end Counters

end Deflate

/-
The record of a run.

* `Snapshot`: the counts, the ratio of output to input, the rate of output, the
  time of the run and of its stages;
* `Snapshot.of`: the record of a run from its counters and its measurement;
* `Snapshot.isSane`: every stage is recorded and together they took no longer
  than the run.
-/
import Deflate.Telemetry.Timer

namespace Deflate

/-- The record of a run. -/
structure Snapshot where
  /-- The bytes of input. -/
  bytesIn : Nat
  /-- The bytes of output. -/
  bytesOut : Nat
  /-- The bytes of input after the stream. -/
  bytesTrailing : Nat
  /-- The output for each byte of input. -/
  expansionRatio : Float
  /-- The output for each second. -/
  throughput : Float
  /-- The time of the run. -/
  elapsed : Duration
  /-- The times of its stages. -/
  stages : StageTimes
  deriving Repr

namespace Snapshot

/-- The output for each byte of input, zero without input. -/
def ratio (bytesOut bytesIn : Nat) : Float :=
  if 0 < bytesIn then bytesOut.toUInt64.toFloat / bytesIn.toUInt64.toFloat else 0

/-- The output for each second, zero if no time has passed. -/
def rate (bytesOut : Nat) (elapsed : Duration) : Float :=
  if 0 < elapsed.seconds then bytesOut.toUInt64.toFloat / elapsed.seconds else 0

/-- The record of a run measured up to now. -/
def of (counters : Counters) (timer : Timer) (now : Instant) : Snapshot where
  bytesIn := counters.bytesIn
  bytesOut := counters.bytesOut
  bytesTrailing := counters.bytesTrailing
  expansionRatio := ratio counters.bytesOut counters.bytesIn
  throughput := rate counters.bytesOut (timer.elapsed now)
  elapsed := timer.elapsed now
  stages := timer.stages

/-- The time of all stages together. -/
def totalStageTime (s : Snapshot) : Except Overflow Duration :=
  s.stages.total

/-- Every stage is recorded, and together they took no longer than the run. The
times are added up only if every stage is recorded. -/
def isSane (s : Snapshot) : Except Overflow Bool :=
  if s.stages.hasAll Stage.all then return decide ((← s.totalStageTime) ≤ s.elapsed)
  else return false

end Snapshot

end Deflate

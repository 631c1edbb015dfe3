/-
The stages of a run and the time that each of them took.

* `Stage`: reading, decoding and writing, with names and places;
* `StageTimes`: the time recorded for each stage, if any;
* `StageTimes.add`: adds to the time of a stage;
* `StageTimes.total` and `StageTimes.hasAll`: the time of all stages together,
  and whether certain stages have been recorded.
-/
import Deflate.Telemetry.Duration

namespace Deflate

/-- A stage of a run. -/
inductive Stage where
  | read
  | decompress
  | write
  deriving Repr, DecidableEq

namespace Stage

/-- The stages in their order. -/
def all : List Stage := [read, decompress, write]

def name : Stage → String
  | read => "read"
  | decompress => "decompress"
  | write => "write"

/-- The place of a stage in their order. -/
def index : Stage → Nat
  | read => 0
  | decompress => 1
  | write => 2

/-- The stage of that name. -/
def ofName? (name : String) : Option Stage :=
  all.find? fun stage => stage.name = name

end Stage

/-- The time recorded for each stage. -/
structure StageTimes where
  read : Option Duration
  decompress : Option Duration
  write : Option Duration
  deriving Repr, DecidableEq

namespace StageTimes

/-- No stage is recorded. -/
def empty : StageTimes where
  read := none
  decompress := none
  write := none

/-- The time recorded for a stage, if any. -/
def get? (times : StageTimes) : Stage → Option Duration
  | .read => times.read
  | .decompress => times.decompress
  | .write => times.write

/-- Records a time for a stage in place of any before it. -/
def set (times : StageTimes) (stage : Stage) (d : Duration) : StageTimes :=
  match stage with
  | .read => { times with read := some d }
  | .decompress => { times with decompress := some d }
  | .write => { times with write := some d }

theorem get?_set (times : StageTimes) (stage other : Stage) (d : Duration) :
    (times.set stage d).get? other = if other = stage then some d else times.get? other := by
  cases stage <;> cases other <;> rfl

/-- The time of a stage; one that is not recorded took none. -/
def get (times : StageTimes) (stage : Stage) : Duration :=
  (times.get? stage).getD .zero

/-- Adds to the time of a stage. -/
def add (times : StageTimes) (stage : Stage) (d : Duration) : Except Overflow StageTimes := do
  return times.set stage (← (times.get stage).add d)

/-- The first time added to a stage is its time. -/
theorem add_of_get?_eq_none {times : StageTimes} {stage : Stage} {d : Duration}
    (h : times.get? stage = none) : times.add stage d = .ok (times.set stage d) := by
  rw [add, get, h, Option.getD_none, Duration.zero_add]
  rfl

/-- The stages recorded, with their times. -/
def recorded (times : StageTimes) : List (Stage × Duration) :=
  Stage.all.filterMap fun stage => (times.get? stage).map (stage, ·)

/-- The time of all stages together. -/
def total (times : StageTimes) : Except Overflow Duration :=
  Duration.sum (times.recorded.map (·.2))

/-- All the stages given are recorded. -/
def hasAll (times : StageTimes) (stages : List Stage) : Bool :=
  stages.all fun stage => (times.get? stage).isSome

end StageTimes

end Deflate

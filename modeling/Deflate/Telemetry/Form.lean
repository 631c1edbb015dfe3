/-
The form in which the record of a run is kept.

* `Duration.toJson`, `StageTimes.toJson`, `Snapshot.toJson`: the form;
* `StageOrder`: an order of all stages, and `StageTimes.recordedIn`: the times
  in that order; `Snapshot.toJsonWith` writes them in any;
* `Snapshot.isWritable_toJsonWith`: the form can always be written;
* `Duration.ofJson?`, `StageTimes.ofJson?`, `Snapshot.ofJson?`: reading it; the
  fields of a duration are fixed, elsewhere unknown fields are passed over, and
  of the times given for one stage the last counts;
* `Stage.ofJson?`: a stage by its name.
-/
import Deflate.Json.Reader
import Deflate.Json.Writer
import Deflate.Telemetry.Snapshot

namespace Deflate

/-- The stage that a value names: its name, or a record with the name as its
only key and no value. -/
def Stage.ofJson? : Json → Option Stage
  | .text (some name) => ofName? name
  | .record [(some name, .null)] => ofName? name
  | _ => none

namespace Duration

/-- Nanoseconds are read below this. -/
def nanosReadLimit : Nat := 4294967296

def fieldNames : List String := ["secs", "nanos"]

def toJson (d : Duration) : Json :=
  .object [("secs", .natural d.secs), ("nanos", .natural d.nanos)]

/-- Nanoseconds of a second or more count as seconds. -/
def ofJson? (value : Json) : Option Duration := do
  let [secs, nanos] ← value.fields? fieldNames true | none
  let secs ← secs.natural?
  let nanos ← nanos.natural?
  if nanos < nanosReadLimit then carried? secs nanos else none

theorem isWritable_toJson (d : Duration) : d.toJson.IsWritable := by
  refine Json.isWritable_object fun field hfield => ?_
  simp only [List.mem_cons, List.not_mem_nil, or_false] at hfield
  rcases hfield with rfl | rfl <;> exact Json.isWritable_natural _

end Duration

/-- An order of the stages. -/
structure StageOrder where
  stages : List Stage
  perm : stages.Perm Stage.all

/-- The stages in the order in which a run comes to them. -/
def StageOrder.usual : StageOrder where
  stages := Stage.all
  perm := .refl _

namespace StageTimes

def fieldNames : List String := ["times"]

/-- The times of the stages given, in their order. -/
def entriesToJson (entries : List (Stage × Duration)) : Json :=
  .object [("times", .object (entries.map fun (stage, d) => (stage.name, d.toJson)))]

def toJson (times : StageTimes) : Json :=
  entriesToJson times.recorded

/-- The stages recorded, with their times, in an order of the stages. -/
def recordedIn (times : StageTimes) (order : StageOrder) : List (Stage × Duration) :=
  order.stages.filterMap fun stage => (times.get? stage).map (stage, ·)

/-- Every order writes the same times. -/
theorem recordedIn_perm (times : StageTimes) (order : StageOrder) :
    (times.recordedIn order).Perm times.recorded :=
  order.perm.filterMap _

/-- The names of the stages are texts and their times are numbers, so both can be
written. -/
theorem isWritable_entriesToJson (entries : List (Stage × Duration)) :
    (entriesToJson entries).IsWritable := by
  refine Json.isWritable_object fun field hfield => ?_
  obtain rfl := List.mem_singleton.mp hfield
  refine Json.isWritable_object fun entry hentry => ?_
  obtain ⟨⟨stage, d⟩, -, rfl⟩ := List.mem_map.mp hentry
  exact d.isWritable_toJson

/-- Records one time more. -/
def readEntry (times : StageTimes) (entry : Option String × Json) : Option StageTimes := do
  let stage ← Stage.ofName? (← entry.1)
  return times.set stage (← Duration.ofJson? entry.2)

/-- The times in a record. -/
def ofEntries? : Json → Option StageTimes
  | .record entries => entries.foldlM readEntry .empty
  | _ => none

def ofJson? (value : Json) : Option StageTimes := do
  let [times] ← value.fields? fieldNames false | none
  ofEntries? times

end StageTimes

namespace Snapshot

def fieldNames : List String :=
  ["bytes_in", "bytes_out", "bytes_trailing", "expansion_ratio",
    "throughput_out_bytes_per_sec", "elapsed", "stage_times"]

/-- The form with the times of the stages written in the order given. -/
def toJsonWith (s : Snapshot) (entries : List (Stage × Duration)) : Json :=
  .object
    [("bytes_in", .natural s.bytesIn),
      ("bytes_out", .natural s.bytesOut),
      ("bytes_trailing", .natural s.bytesTrailing),
      ("expansion_ratio", .float s.expansionRatio),
      ("throughput_out_bytes_per_sec", .float s.throughput),
      ("elapsed", s.elapsed.toJson),
      ("stage_times", StageTimes.entriesToJson entries)]

def toJson (s : Snapshot) : Json :=
  s.toJsonWith s.stages.recorded

/-- The form of a record can be written. -/
theorem isWritable_toJsonWith (s : Snapshot) (entries : List (Stage × Duration)) :
    (s.toJsonWith entries).IsWritable := by
  refine Json.isWritable_object fun field hfield => ?_
  simp only [List.mem_cons, List.not_mem_nil, or_false] at hfield
  rcases hfield with rfl | rfl | rfl | rfl | rfl | rfl | rfl
  · exact Json.isWritable_natural _
  · exact Json.isWritable_natural _
  · exact Json.isWritable_natural _
  · exact Json.isWritable_float _
  · exact Json.isWritable_float _
  · exact s.elapsed.isWritable_toJson
  · exact StageTimes.isWritable_entriesToJson entries

def ofJson? (value : Json) : Option Snapshot := do
  let [bytesIn, bytesOut, bytesTrailing, ratio, throughput, elapsed, stages] ←
    value.fields? fieldNames false | none
  return {
    bytesIn := ← bytesIn.natural?
    bytesOut := ← bytesOut.natural?
    bytesTrailing := ← bytesTrailing.natural?
    expansionRatio := ← ratio.float?
    throughput := ← throughput.float?
    elapsed := ← Duration.ofJson? elapsed
    stages := ← StageTimes.ofJson? stages }

end Snapshot

end Deflate

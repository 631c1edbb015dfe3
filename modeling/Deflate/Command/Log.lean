/-
Which events the command shows, and how.

* `Event.part` and `Event.fields`: where an event comes from and what it has;
* `Scope`: a stretch of a run that its events belong to; there is one;
* `LogFilter`: directives, read by `LogFilter.ofText?`; `LogFilter.ofSetting`
  falls back to warnings;
* `LogFilter.deciding?`: of the directives that hold anywhere the one that
  names a part most exactly decides; `LogFilter.shows`: an event is shown by it
  or by a directive for the scope around it;
* `LogFilter.lines`: the lines shown for some events;
* `LogFilter.completion`: the line with the record of a run, shown after it.
-/
import Deflate.Command.Arguments
import Deflate.Command.Directive
import Deflate.Telemetry.Form

namespace Deflate

namespace Event

/-- The part of the program that an event comes from. -/
def part : Event → String
  | inputCollected _ => "inflate_core::collect"
  | trailingIgnored .. => "inflate_core::compression::deflate"
  | inflateComplete .. => "inflate_core::compression::deflate"
  | outputWritten _ => "inflate_core::pipeline"

/-- The names of what an event has: its counts and its message. -/
def fields (e : Event) : List String :=
  e.counts.map (·.1) ++ ["message"]

end Event

namespace Command

/-- A stretch of a run that its events belong to. -/
structure Scope where
  /-- The part of the program that it belongs to. -/
  part : String
  name : String
  level : Level
  deriving Repr, DecidableEq

/-- The scope of a whole run. -/
def Scope.run : Scope where
  part := "inflate_core::pipeline"
  name := "inflate_stream_async"
  level := .debug

/-- What is shown. -/
structure LogFilter where
  /-- The directives in the order given. -/
  directives : List Directive
  deriving Repr, DecidableEq

namespace LogFilter

/-- Shows the events of all parts down to a level. -/
def downTo (least : Level) : LogFilter where
  directives := [⟨none, none, none, some least⟩]

/-- Reads directives with commas between them; empty ones do not count. Without
any, errors are shown. -/
def ofText? (text : String) : Option LogFilter := do
  let directives ← ((text.splitOn ",").filter (· ≠ "")).mapM Directive.ofText?
  return if directives.isEmpty then downTo .error else ⟨directives⟩

/-- The filter of a setting; without one, or if it cannot be read, warnings are
shown. -/
def ofSetting (setting? : Option String) : LogFilter :=
  (setting?.bind ofText?).getD (downTo .warn)

/-- Keeps the last of the directives that are about the same events. -/
def keepLast (d : Directive) (kept : List Directive) : List Directive :=
  if kept.any fun e => d.IsAlike e then kept else d :: kept

/-- The directives in force: of those about the same events the last one. -/
def inForce (filter : LogFilter) : List Directive :=
  filter.directives.foldr keepLast []

/-- Some directive reaches down to the level, whether it is in force or not; one
that asks for a value reaches down to all levels. -/
def reaches (filter : LogFilter) (level : Level) : Bool :=
  filter.directives.any fun d => d.shows level || d.asksValue

/-! ### Directives that hold anywhere -/

/-- Of two directives the more exact one; of equally exact ones the later. -/
def better (chosen? : Option Directive) (d : Directive) : Option Directive :=
  match chosen? with
  | none => some d
  | some chosen => if d.isAsExact chosen then some d else some chosen

/-- The directive that decides about a part, and about what has these fields; of
a scope the fields are not looked at. -/
def deciding? (filter : LogFilter) (part : String) (fields? : Option (List String)) :
    Option Directive :=
  let concerned := filter.inForce.filter fun d =>
    d.isStatic && d.concerns part &&
      d.count?.all fun count => fields?.all (·.contains count.name)
  concerned.foldl better none

/-! ### Directives for a scope -/

/-- The directives for the scope. -/
def within (filter : LogFilter) (scope : Scope) : List Directive :=
  filter.inForce.filter fun d =>
    d.concerns scope.part && d.scope? = some scope.name && d.count?.isNone

/-- The scope is kept track of. -/
def follows (filter : LogFilter) (scope : Scope) : Bool :=
  filter.reaches scope.level &&
    (!(filter.within scope).isEmpty ||
      (filter.deciding? scope.part none).any (·.shows scope.level))

/-! ### Events -/

/-- An event of the part with this level and these fields is shown, whatever
the scope. -/
def showsAnywhere (filter : LogFilter) (part : String) (level : Level) (fields : List String) :
    Bool :=
  (filter.deciding? part (some fields)).any (·.shows level)

/-- An event inside of the scope is shown. -/
def shows (filter : LogFilter) (scope : Scope) (e : Event) : Bool :=
  (filter.follows scope && (filter.within scope).any (·.shows e.level)) ||
    filter.showsAnywhere e.part e.level e.fields

/-- How a line names the scope, where it is kept track of. -/
def context (filter : LogFilter) (scope : Scope) : String :=
  if filter.follows scope then s!"{scope.name}: " else ""

/-- The line of an event. -/
def line (filter : LogFilter) (scope : Scope) (e : Event) : String :=
  s!"{e.level.name} {filter.context scope}{e.part}: {e.text}"

/-- The lines shown for the events of a run. -/
def lines (filter : LogFilter) (events : List Event) : List String :=
  (events.filter (filter.shows .run)).map (filter.line .run)

/-! ### The record of a run -/

/-- The fields of the event that the command reports after a run. -/
def completionFields : List String := ["telemetry", "message"]

/-- The line that the command shows after a run, outside of all scopes. The
record of the run is written down only if the line is shown. -/
def completion (filter : LogFilter) (order : StageOrder) (s : Snapshot) :
    Except Json.WriteFault (List String) :=
  if filter.showsAnywhere programName .debug completionFields then do
    let telemetry ← (s.toJsonWith (s.stages.recordedIn order)).write
    return [s!"{Level.debug.name} {programName}: run complete telemetry={telemetry}"]
  else .ok []

end LogFilter

end Command

end Deflate

/-
What the command says about an error.

* `Report`: an error with what the command was doing when it came up;
* `Report.failure?`: the failure of the run that is behind a report;
* `Report.text`: all that a report says, from the outside in.
-/
import Deflate.Failure
import Deflate.Json.Writer

namespace Deflate.Command

/-- An error. -/
inductive Report where
  /-- The run failed. -/
  | failed (failure : Failure)
  /-- The record of the run cannot be written down. -/
  | unwritable (fault : Json.WriteFault)
  /-- An error while the command was doing something. -/
  | during (doing : String) (report : Report)
  deriving Repr, DecidableEq

namespace Report

/-- The failure of the run that is behind the report, if there is one. -/
def failure? : Report → Option Failure
  | failed failure => some failure
  | unwritable _ => none
  | during _ report => report.failure?

/-- What the report says, from the outside in. -/
def messages : Report → List String
  | failed failure => failure.message :: failure.sources
  | unwritable fault => [fault.message]
  | during doing report => doing :: report.messages

/-- The report in one line. -/
def text (report : Report) : String :=
  ": ".intercalate report.messages

end Report

end Deflate.Command

/-
How a run can fail.

* `Failure`: the input fails, it is not a complete stream, or the output fails;
* `Failure.label`, `Failure.message` and `Failure.sources`: what is said about
  it, and about the faults behind it;
* `Failure.isBrokenPipe`: the receiver of the output has gone away.
-/
import Deflate.DecodeError
import Deflate.Transfer.Collect

namespace Deflate

/-- Why a run failed. -/
inductive Failure where
  /-- The input failed before its end. -/
  | read (error : ReadError)
  /-- The input is not a complete stream. -/
  | decode (error : DecodeError)
  /-- The output failed. -/
  | write (fault : Fault)
  deriving Repr, DecidableEq

namespace Failure

/-- A short name of the stage that failed. -/
def label : Failure → String
  | read _ => "stream read"
  | decode _ => "decode"
  | write _ => "write"

def message : Failure → String
  | read error => error.message
  | decode error => error.message
  | write fault => s!"output write failed: {fault.text}"

/-- The faults behind the failure. -/
def sources : Failure → List String
  | read error => [error.source.text]
  | decode _ => []
  | write fault => [fault.text]

/-- The receiver of the output has gone away. -/
def isBrokenPipe : Failure → Bool
  | write fault => fault.kind = .brokenPipe
  | _ => false

end Failure

end Deflate

/-
What is reported while a stream is decoded.

* `Level`: how grave an event is;
* `Event`: the events, each with a level, a message and counts;
* `Event.line`: an event as one line of text;
* `Outcome.events`: what a successful decode reports.
-/
import Deflate.DecodeError

namespace Deflate

/-- How grave an event is, from the least grave on. -/
inductive Level where
  | trace
  | debug
  | info
  | warn
  | error
  deriving Repr, DecidableEq

namespace Level

/-- The place of a level in the order of gravity. -/
def rank : Level → Nat
  | trace => 0
  | debug => 1
  | info => 2
  | warn => 3
  | error => 4

def name : Level → String
  | trace => "TRACE"
  | debug => "DEBUG"
  | info => "INFO"
  | warn => "WARN"
  | error => "ERROR"

end Level

/-- An event. -/
inductive Event where
  /-- The whole input has been collected. -/
  | inputCollected (bytes : Nat)
  /-- Bytes follow the final block. -/
  | trailingIgnored (trailing consumed : Nat)
  /-- The stream has been decoded. -/
  | inflateComplete (consumed produced : Nat)
  /-- The whole output has been written. -/
  | outputWritten (bytes : Nat)
  deriving Repr, DecidableEq

namespace Event

def level : Event → Level
  | trailingIgnored .. => .warn
  | _ => .debug

def message : Event → String
  | inputCollected _ => "input collected"
  | trailingIgnored .. => "ignoring bytes after final deflate block"
  | inflateComplete .. => "raw inflate complete"
  | outputWritten _ => "output written"

/-- The counts of an event by name. -/
def counts : Event → List (String × Nat)
  | inputCollected bytes => [("bytes", bytes)]
  | trailingIgnored trailing consumed => [("trailing", trailing), ("consumed", consumed)]
  | inflateComplete consumed produced => [("consumed", consumed), ("produced", produced)]
  | outputWritten bytes => [("bytes", bytes)]

/-- The message and the counts. -/
def text (e : Event) : String :=
  " ".intercalate (e.message :: e.counts.map fun (name, n) => s!"{name}={n}")

/-- The event as one line. -/
def line (e : Event) : String :=
  s!"{e.level.name} {e.text}"

end Event

/-- What a successful decode reports. -/
def Outcome.events (o : Outcome) : List Event :=
  (if 0 < o.trailing then [.trailingIgnored o.trailing o.consumed] else []) ++
    [.inflateComplete o.consumed o.produced]

end Deflate

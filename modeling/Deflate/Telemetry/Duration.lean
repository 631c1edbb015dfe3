/-
Lengths of time, in whole seconds and nanoseconds.

* `Duration`: fewer than `2 ^ 64` seconds and fewer than `10 ^ 9` nanoseconds;
* `Duration.carried?`: the duration of any number of seconds and nanoseconds,
  if it is not too long;
* `Duration.add`: the sum of two, or an `Overflow`;
* `Duration.Tally` and `Duration.sum`: the sum of several, whose seconds and
  nanoseconds are added up apart, or an `Overflow`;
* `Duration.since`: the time from one instant to another;
* `Duration.seconds`: the duration as a floating-point number.
-/

namespace Deflate

/-- Durations are shorter than this many seconds. -/
def secondsLimit : Nat := 18446744073709551616

/-- The nanoseconds in a second. -/
def nanosPerSecond : Nat := 1000000000

/-- A length of time. -/
structure Duration where
  /-- The whole seconds. -/
  secs : Nat
  /-- The nanoseconds after them. -/
  nanos : Nat
  /-- The seconds are fewer than the limit. -/
  secs_lt : secs < secondsLimit
  /-- The nanoseconds are less than a second. -/
  nanos_lt : nanos < nanosPerSecond
  deriving Repr, DecidableEq

/-- A duration that is too long. -/
inductive Overflow where
  /-- It is the sum of two. -/
  | adding
  /-- It is the sum of several. -/
  | summing
  deriving Repr, DecidableEq

def Overflow.message : Overflow → String
  | adding => "overflow when adding durations"
  | summing => "overflow in iter::sum over durations"

namespace Duration

/-- No time. -/
def zero : Duration where
  secs := 0
  nanos := 0
  secs_lt := by decide
  nanos_lt := by decide

/-- The length in nanoseconds. -/
def toNanos (d : Duration) : Nat :=
  d.secs * nanosPerSecond + d.nanos

/-- The length of that many seconds and nanoseconds, if it is not too long. -/
def carried? (secs nanos : Nat) : Option Duration :=
  if h : secs + nanos / nanosPerSecond < secondsLimit then
    some
      { secs := secs + nanos / nanosPerSecond
        nanos := nanos % nanosPerSecond
        secs_lt := h
        nanos_lt := Nat.mod_lt _ (by decide) }
  else none

/-- The sum of two durations: a second among the nanoseconds is carried. -/
def add (a b : Duration) : Except Overflow Duration :=
  if hsecs : a.secs + b.secs < secondsLimit then
    if hnanos : a.nanos + b.nanos < nanosPerSecond then
      .ok
        { secs := a.secs + b.secs
          nanos := a.nanos + b.nanos
          secs_lt := hsecs
          nanos_lt := hnanos }
    else if hcarry : a.secs + b.secs + 1 < secondsLimit then
      .ok
        { secs := a.secs + b.secs + 1
          nanos := a.nanos + b.nanos - nanosPerSecond
          secs_lt := hcarry
          nanos_lt := by
            have h1 := a.nanos_lt
            have h2 := b.nanos_lt
            omega }
    else .error .adding
  else .error .adding

theorem zero_add (d : Duration) : zero.add d = .ok d := by
  have h1 := d.secs_lt
  have h2 := d.nanos_lt
  simp [add, zero, h1, h2]

/-- Seconds and nanoseconds that are added up. -/
structure Tally where
  /-- The seconds. -/
  secs : Nat
  /-- The nanoseconds, whole seconds of them not yet carried. -/
  nanos : Nat
  deriving Repr, DecidableEq

/-- The nanoseconds of a tally are below this. -/
def tallyLimit : Nat := 18446744073709551616

/-- Adds a duration to a tally. The nanoseconds are carried before they become
too many. -/
def Tally.add? (t : Tally) (d : Duration) : Option Tally :=
  if t.secs + d.secs < secondsLimit then
    if t.nanos + d.nanos < tallyLimit then some ⟨t.secs + d.secs, t.nanos + d.nanos⟩
    else if t.secs + d.secs + t.nanos / nanosPerSecond < secondsLimit then
      some ⟨t.secs + d.secs + t.nanos / nanosPerSecond, t.nanos % nanosPerSecond + d.nanos⟩
    else none
  else none

/-- The duration that a tally comes to, if it is not too long. -/
def Tally.duration? (t : Tally) : Option Duration :=
  carried? t.secs t.nanos

/-- The sum of several durations. -/
def sum (ds : List Duration) : Except Overflow Duration :=
  match (ds.foldlM Tally.add? ⟨0, 0⟩).bind Tally.duration? with
  | some d => .ok d
  | none => .error .summing

instance : LE Duration where
  le a b := a.toNanos ≤ b.toNanos

theorem le_def {a b : Duration} : a ≤ b ↔ a.toNanos ≤ b.toNanos :=
  Iff.rfl

instance (a b : Duration) : Decidable (a ≤ b) :=
  decidable_of_iff _ le_def.symm

/-- The time from `earlier` to `later`, none if they are out of order. -/
def since (later earlier : Duration) : Duration :=
  let nanos := later.toNanos - earlier.toNanos
  { secs := nanos / nanosPerSecond
    nanos := nanos % nanosPerSecond
    secs_lt := by
      have h1 := later.secs_lt
      have h2 := later.nanos_lt
      have h3 : later.toNanos < secondsLimit * nanosPerSecond := by
        simp only [toNanos, secondsLimit, nanosPerSecond] at *
        omega
      exact Nat.div_lt_of_lt_mul (by rw [Nat.mul_comm]; omega)
    nanos_lt := Nat.mod_lt _ (by decide) }

/-- The length in seconds as a floating-point number: the sum of the nearest
numbers to the seconds and to the nanoseconds. -/
def seconds (d : Duration) : Float :=
  d.secs.toUInt64.toFloat + d.nanos.toUInt64.toFloat / nanosPerSecond.toUInt64.toFloat

/-- The length in millionths of a second. -/
def micros (d : Duration) : Float :=
  d.seconds * (1000000 : UInt64).toFloat

end Duration

end Deflate

/-
Numbers of the JSON notation.

* `Numeral`: a number as it is written, by its digits;
* `takeDigits`: digits are taken as long as the number stays below `2 ^ 64`,
  and the others are dropped;
* `Numeral.value`: a whole number that is small enough stays one; every other
  number is the number that its leading digits make, multiplied or divided by a
  power of ten in floating point.
-/
import Deflate.Json.Basic

namespace Deflate

/-- A number as it is written. -/
structure Numeral where
  /-- A minus sign stands before the digits. -/
  negative : Bool
  /-- The digits before the point. -/
  whole : List Nat
  /-- The digits after the point, if there is one. -/
  fraction : List Nat
  /-- The sign and the digits of the exponent, if there is one. -/
  exponent? : Option (Bool × List Nat)

namespace Numeral

/-- Whole numbers are below this. -/
def wholeLimit : Nat := 18446744073709551616

/-- Exponents are at most this. -/
def exponentLimit : Nat := 2147483647

/-- The greatest power of ten that is a floating-point number. -/
def greatestPower : Nat := 308

/-- Takes digits after those of `n` as long as the number stays below the limit;
the digits not taken are left. -/
def takeDigits (n : Nat) : List Nat → Nat × List Nat
  | [] => (n, [])
  | d :: ds => if 10 * n + d < wholeLimit then takeDigits (10 * n + d) ds else (n, d :: ds)

/-- The number that digits make. -/
def ofDigits (ds : List Nat) : Nat :=
  ds.foldl (fun n d => 10 * n + d) 0

/-- A power of ten. -/
def powerOfTen (k : Nat) : Float :=
  Float.ofScientific 1 false k

/-- Divides by a power of ten, by the greatest one first if need be. -/
def scaleDown (x : Float) (k : Nat) : Float :=
  if k ≤ greatestPower then x / powerOfTen k
  else if x == 0 then x
  else scaleDown (x / powerOfTen greatestPower) (k - greatestPower)
termination_by k
decreasing_by
  simp only [greatestPower] at *
  omega

/-- Multiplies by a power of ten, unless the result is too large. -/
def scaleUp? (x : Float) (k : Nat) : Option Float :=
  if k ≤ greatestPower then
    let y := x * powerOfTen k
    if y.isInf then none else some y
  else if x == 0 then some x
  else none

/-- The significant digits that are taken, and the power of ten to multiply them
by: dropped whole digits raise it, and digits taken after the point lower it. -/
def significant (m : Numeral) : Nat × Int :=
  let (n, dropped) := takeDigits 0 m.whole
  let (n, unused) := takeDigits n m.fraction
  (n, (dropped.length : Int) - (m.fraction.length - unused.length : Nat))

/-- The magnitude as a floating-point number, if it is not too large. -/
def magnitude? (m : Numeral) : Option Float :=
  let (n, power) := m.significant
  let x := n.toUInt64.toFloat
  let scaled (power : Int) : Option Float :=
    match power with
    | .ofNat k => scaleUp? x k
    | .negSucc k => some (scaleDown x (k + 1))
  match m.exponent? with
  | none => scaled power
  | some (down, digits) =>
      let exponent := ofDigits digits
      if exponentLimit < exponent then
        if n ≠ 0 ∧ !down then none else some 0
      else scaled (if down then power - exponent else power + exponent)

/-- The number is written without point, exponent and sign. -/
def isPlain (m : Numeral) : Bool :=
  !m.negative && m.fraction.isEmpty && m.exponent?.isNone

/-- The value of a number. -/
def value (m : Numeral) : Json :=
  if m.isPlain && ofDigits m.whole < wholeLimit then .natural (ofDigits m.whole)
  else match m.magnitude? with
    | some x => .float (if m.negative then -x else x)
    | none => .excess

end Numeral

end Deflate

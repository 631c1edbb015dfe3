/-
Reading the JSON notation.

* `Json.blanks`, `Json.numeral`, `Json.quoted`: reading white space, a number
  and the rest of a quoted text;
* `Json.value`, `Json.items`, `Json.members`: reading a value, the rest of a
  list and the rest of a record, with a bound on how often they call each
  other;
* `Json.ofText?`: the value that a whole text writes.
-/
import Deflate.Json.Number

namespace Deflate

namespace Json

/-- A character between the parts of a value. -/
def isBlank (c : Char) : Bool :=
  c = ' ' || c = '\n' || c = '\t' || c = '\r'

/-- What follows the white space. -/
def blanks (cs : List Char) : List Char :=
  cs.dropWhile isBlank

/-! ### Numbers -/

/-- The leading digits and what follows them. -/
def digits (cs : List Char) : List Nat × List Char :=
  ((cs.takeWhile Char.isDigit).map fun c => c.toNat - '0'.toNat, cs.dropWhile Char.isDigit)

/-- Reads the digits before the point: none may follow a leading zero. -/
def wholeDigits (cs : List Char) : Option (List Nat × List Char) :=
  match digits cs with
  | ([], _) => none
  | (0 :: _ :: _, _) => none
  | read => some read

/-- Reads a point and the digits after it, if there is one. -/
def fractionDigits : List Char → Option (List Nat × List Char)
  | '.' :: cs =>
      match digits cs with
      | ([], _) => none
      | read => some read
  | cs => some ([], cs)

/-- Reads the sign of an exponent: whether it is a minus, and what follows. -/
def exponentSign : List Char → Bool × List Char
  | '-' :: cs => (true, cs)
  | '+' :: cs => (false, cs)
  | cs => (false, cs)

/-- Reads an exponent, if there is one. -/
def exponentDigits : List Char → Option (Option (Bool × List Nat) × List Char)
  | c :: cs =>
      if c = 'e' || c = 'E' then
        let (down, cs) := exponentSign cs
        match digits cs with
        | ([], _) => none
        | (ds, rest) => some (some (down, ds), rest)
      else some (none, c :: cs)
  | [] => some (none, [])

/-- Reads the sign of a number. -/
def numberSign : List Char → Bool × List Char
  | '-' :: cs => (true, cs)
  | cs => (false, cs)

/-- Reads a number. -/
def numeral (cs : List Char) : Option (Numeral × List Char) := do
  let (negative, cs) := numberSign cs
  let (whole, cs) ← wholeDigits cs
  let (fraction, cs) ← fractionDigits cs
  let (exponent?, cs) ← exponentDigits cs
  return ({ negative, whole, fraction, exponent? }, cs)

/-! ### Texts -/

/-- One piece of a quoted text. -/
inductive Piece where
  /-- A character. -/
  | char (c : Char)
  /-- A sixteen-bit unit, given by its number. -/
  | unit (n : Nat)

/-- The value of a hexadecimal digit. -/
def hexDigit? (c : Char) : Option Nat :=
  if c.isDigit then some (c.toNat - '0'.toNat)
  else if 'a' ≤ c ∧ c ≤ 'f' then some (c.toNat - 'a'.toNat + 10)
  else if 'A' ≤ c ∧ c ≤ 'F' then some (c.toNat - 'A'.toNat + 10)
  else none

/-- The unit that four hexadecimal digits write. -/
def unit? (a b c d : Char) : Option Nat :=
  ([a, b, c, d].mapM hexDigit?).map (·.foldl (fun n d => 16 * n + d) 0)

/-- The character that an escape of one letter stands for. -/
def escaped? : Char → Option Char
  | '"' => some '"'
  | '\\' => some '\\'
  | '/' => some '/'
  | 'b' => some '\x08'
  | 'f' => some '\x0c'
  | 'n' => some '\n'
  | 'r' => some '\r'
  | 't' => some '\t'
  | _ => none

/-- Reads the rest of a quoted text and the quote that ends it. -/
def quoted : List Char → Option (List Piece × List Char)
  | [] => none
  | '"' :: cs => some ([], cs)
  | '\\' :: 'u' :: a :: b :: c :: d :: cs => do
      let n ← unit? a b c d
      let (pieces, rest) ← quoted cs
      return (.unit n :: pieces, rest)
  | '\\' :: e :: cs => do
      let c ← escaped? e
      let (pieces, rest) ← quoted cs
      return (.char c :: pieces, rest)
  | c :: cs => do
      if c < ' ' then none
      else
        let (pieces, rest) ← quoted cs
        return (.char c :: pieces, rest)

/-- The unit begins a pair. -/
def isLeading (n : Nat) : Bool := 0xD800 ≤ n && n ≤ 0xDBFF

/-- The unit ends a pair. -/
def isTrailing (n : Nat) : Bool := 0xDC00 ≤ n && n ≤ 0xDFFF

/-- The character that a pair of units stands for. -/
def pair (high low : Nat) : Char :=
  Char.ofNat (0x10000 + (high - 0xD800) * 0x400 + (low - 0xDC00))

/-- The characters of the pieces, if all units pair up. -/
def assemble : List Piece → Option (List Char)
  | [] => some []
  | .char c :: ps => (assemble ps).map (c :: ·)
  | .unit high :: .unit low :: ps =>
      if isLeading high then
        if isTrailing low then (assemble ps).map (pair high low :: ·) else none
      else if isTrailing high then none
      else (assemble (.unit low :: ps)).map (Char.ofNat high :: ·)
  | .unit n :: ps =>
      if isLeading n || isTrailing n then none
      else (assemble ps).map (Char.ofNat n :: ·)

/-- The text of the pieces, if all units pair up. -/
def textOf (pieces : List Piece) : Option String :=
  (assemble pieces).map String.ofList

/-! ### Values -/

mutual

/-- Reads a value. -/
def value : (bound : Nat) → List Char → Option (Json × List Char)
  | 0, _ => none
  | bound + 1, cs =>
      match blanks cs with
      | 'n' :: 'u' :: 'l' :: 'l' :: cs => some (.null, cs)
      | 't' :: 'r' :: 'u' :: 'e' :: cs => some (.bool true, cs)
      | 'f' :: 'a' :: 'l' :: 's' :: 'e' :: cs => some (.bool false, cs)
      | '"' :: cs => (quoted cs).map fun (pieces, rest) => (.text (textOf pieces), rest)
      | '[' :: cs =>
          match blanks cs with
          | ']' :: rest => some (.list [], rest)
          | cs => (items bound cs).map fun (read, rest) => (.list read, rest)
      | '\x7b' :: cs =>
          match blanks cs with
          | '\x7d' :: rest => some (.record [], rest)
          | cs => (members bound cs).map fun (read, rest) => (.record read, rest)
      | cs => (numeral cs).map fun (m, rest) => (m.value, rest)

/-- Reads the items of a list and the bracket that ends it. -/
def items : (bound : Nat) → List Char → Option (List Json × List Char)
  | 0, _ => none
  | bound + 1, cs => do
      let (first, cs) ← value bound cs
      match blanks cs with
      | ',' :: cs =>
          let (others, rest) ← items bound cs
          return (first :: others, rest)
      | ']' :: rest => return ([first], rest)
      | _ => none

/-- Reads the fields of a record and the brace that ends it. -/
def members : (bound : Nat) → List Char → Option (List (Option String × Json) × List Char)
  | 0, _ => none
  | bound + 1, cs =>
      match blanks cs with
      | '"' :: cs => do
          let (pieces, cs) ← quoted cs
          match blanks cs with
          | ':' :: cs =>
              let (first, cs) ← value bound cs
              match blanks cs with
              | ',' :: cs =>
                  let (others, rest) ← members bound cs
                  return ((textOf pieces, first) :: others, rest)
              | '\x7d' :: rest => return ([(textOf pieces, first)], rest)
              | _ => none
          | _ => none
      | _ => none

end

/-- The value that the text writes, with nothing but white space around it. Each
call for a part is made after a character has been read or makes the next one
do so, so twice the length is bound enough. -/
def ofText? (text : String) : Option Json :=
  match value (2 * text.length + 2) text.toList with
  | some (read, rest) => if (blanks rest).isEmpty then some read else none
  | none => none

end Json

end Deflate

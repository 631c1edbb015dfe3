/-
Values that a count is compared with.

* `isNumeral`: a text is a number, which may be without bounds or no number at all;
* `isValue`: a text is a number or a pattern.
-/
import Deflate.Command.Pattern

namespace Deflate.Command

/-- A sign in front is left out. -/
def dropSign (text : List Char) : List Char :=
  if text.head?.any (fun c => c = '+' || c = '-') then text.tail else text

/-- Digits and no more, at least one. -/
def areDigits (text : List Char) : Bool :=
  !text.isEmpty && text.all Char.isDigit

/-- Digits with at most one point before, between or after them. -/
def isFraction (text : List Char) : Bool :=
  areDigits (text.filter (· ≠ '.')) && text.countP (· = '.') ≤ 1

/-- The words that stand for a number, in any case. -/
def numberWords : List String := ["inf", "infinity", "nan"]

/-- A text is a number: a sign or none, and a word, or digits with at most one
point and then perhaps the power of ten they are multiplied with. -/
def isNumeral (text : List Char) : Bool :=
  let text := (dropSign text).map Char.toLower
  let fraction := text.takeWhile (· ≠ 'e')
  let power? := (text.drop fraction.length).tail?
  numberWords.contains (String.ofList text) ||
    isFraction fraction && power?.all (areDigits ∘ dropSign)

/-- A text is a value that can be asked for. -/
def isValue (text : List Char) : Bool :=
  isNumeral text || isPattern text

end Deflate.Command

/-
Directives, which say what events are shown.

A directive may name a part of the program, a scope in it in brackets, and
inside the brackets a count in braces, perhaps with the value wanted; after an
equals sign stands the least grave level shown.

* `Directive`: what a directive says, with `Directive.concerns` for the parts it
  is about and `Directive.shows` for the levels;
* `Directive.ofText?`: reads a directive. The signs between the words are looked
  for in the text without blanks around it, the words are taken out of the whole
  text at the same bytes, so that a blank in front shifts all of them; no word
  begins or ends within a character.
-/
import Deflate.Command.Alphanumeric
import Deflate.Command.Value
import Deflate.Event

namespace Deflate.Command

/-- A count that is asked for. -/
structure CountFilter where
  /-- The name of the count. -/
  name : String
  /-- The value wanted. -/
  value? : Option String
  deriving Repr, DecidableEq

/-- Shows events down to a level. -/
structure Directive where
  /-- The beginning of the names of the parts, or all parts. -/
  part? : Option String
  /-- The scope whose events are meant, or all events. -/
  scope? : Option String
  /-- The count that events have, or any events. -/
  count? : Option CountFilter
  /-- The least grave level shown, or none at all. -/
  least? : Option Level
  deriving Repr, DecidableEq

/-! ### Levels -/

/-- The levels by their numbers; nothing is shown at the first. -/
def leastByNumber : List (Option Level) :=
  [none, some .error, some .warn, some .info, some .debug, some .trace]

/-- The levels by their names. -/
def leastByName : List (String × Option Level) :=
  [("off", none), ("error", some .error), ("warn", some .warn), ("info", some .info),
    ("debug", some .debug), ("trace", some .trace)]

/-- The number that a word of digits stands for, with a plus sign or not. -/
def numberOf? (word : List Char) : Option Nat :=
  let digits := if word.head? = some '+' then word.tail else word
  if !digits.isEmpty && digits.all Char.isDigit then
    some (digits.foldl (fun n c => 10 * n + (c.toNat - 48)) 0)
  else none

/-- The level that a word stands for: its number, or its name in any case. -/
def leastOf? (word : List Char) : Option (Option Level) :=
  match numberOf? word with
  | some n => leastByNumber[n]?
  | none => leastByName.lookup (String.ofList (word.map Char.toLower))

/-- The level that a word after an equals sign stands for; no word shows all. -/
def leastAfterSign? : List Char → Option (Option Level)
  | [] => some (some .trace)
  | word => leastOf? word

/-! ### Signs and words -/

/-- A list of characters without the blanks at both ends. -/
def trimBlanks (text : List Char) : List Char :=
  ((text.dropWhile isBlank).reverse.dropWhile isBlank).reverse

/-- The number of bytes of some characters. -/
def bytesIn (text : List Char) : Nat :=
  (String.ofList text).utf8ByteSize

/-- Some bytes at the beginning of a text, and the text after them, if they end
with a character. -/
def splitBytes? : Nat → List Char → Option (List Char × List Char)
  | 0, text => some ([], text)
  | _, [] => none
  | n, c :: text =>
      if c.utf8Size ≤ n then
        (splitBytes? (n - c.utf8Size) text).map fun (bytes, rest) => (c :: bytes, rest)
      else none

/-- What is left to read of a directive. -/
structure Cursor where
  /-- The characters left that signs are looked for in. -/
  signs : List Char
  /-- The number of bytes gone over. -/
  offset : Nat
  /-- The whole text, which words are taken from. -/
  text : List Char

namespace Cursor

/-- The start of a text. -/
def ofText (text : List Char) : Cursor :=
  ⟨trimBlanks text, 0, text⟩

/-- Goes over some characters. -/
def drop (c : Cursor) (n : Nat) : Cursor :=
  { c with signs := c.signs.drop n, offset := c.offset + bytesIn (c.signs.take n) }

/-- The text from the cursor on. -/
def letters? (c : Cursor) : Option (List Char) :=
  (splitBytes? c.offset c.text).map (·.2)

/-- The word before the next of some signs, and what follows the word. -/
def word? (c : Cursor) (ends : List Char) : Option (List Char × Cursor) := do
  let signs := c.signs.takeWhile fun sign => !ends.contains sign
  let (word, _) ← splitBytes? (bytesIn signs) (← c.letters?)
  return (word, c.drop signs.length)

end Cursor

/-! ### Directives -/

namespace CountFilter

/-- Reads a count, which may not be empty; what follows a second equals sign does
not count. A value is a truth value, a number or a pattern. -/
def ofText? (text : List Char) : Option CountFilter :=
  match (String.ofList text).splitOn "=" with
  | [""] => none
  | [name] => some ⟨name, none⟩
  | name :: value :: _ => if isValue value.toList then some ⟨name, some value⟩ else none
  | [] => none

end CountFilter

namespace Directive

/-- The first character of the name of a part. -/
def isFirst (c : Char) : Bool :=
  c = '-' || c = ':' || c = '_' || isAlphanumeric c

/-- Reads the level at the end of a directive; a directive without one shows
all. -/
def atEnd? (d : Directive) (c : Cursor) : Option Directive :=
  match c.signs with
  | [] => some d
  | '=' :: _ => do return { d with least? := ← leastAfterSign? (← (c.drop 1).letters?) }
  | _ => none

/-- Reads a scope in brackets, after the opening one, and the level. -/
def atScope? (part? : Option String) (c : Cursor) : Option Directive := do
  let (name, rest) ← c.word? [']', '\x7b']
  match rest.signs with
  | ']' :: _ => atEnd? ⟨part?, some (String.ofList name), none, some .trace⟩ (rest.drop 1)
  | '\x7b' :: _ =>
      let (field, rest) ← (rest.drop 1).word? ['\x7d']
      let count ← CountFilter.ofText? field
      let scope? := if name.isEmpty then none else some (String.ofList name)
      match rest.signs with
      | '\x7d' :: ']' :: _ => atEnd? ⟨part?, scope?, some count, some .trace⟩ (rest.drop 2)
      | _ => none
  | _ => none

/-- Reads a directive. A word alone is a level if it can be one. -/
def ofText? (text : String) : Option Directive :=
  let start := Cursor.ofText text.toList
  match start.signs with
  | [] => none
  | '[' :: _ => atScope? none (start.drop 1)
  | first :: _ =>
      if !isFirst first then none
      else if start.signs.any fun sign => sign = '=' || sign = '[' then do
        let (name, rest) ← start.word? ['=', '[']
        match rest.signs with
        | '[' :: _ => atScope? (some (String.ofList name)) (rest.drop 1)
        | _ => atEnd? ⟨some (String.ofList name), none, none, some .trace⟩ rest
      else
        match leastOf? text.toList with
        | some least? => some ⟨none, none, none, least?⟩
        | none => some ⟨some text, none, none, some .trace⟩

/-- The directive is about the part. -/
def concerns (d : Directive) (part : String) : Bool :=
  d.part?.all fun name => name.toList.isPrefixOf part.toList

/-- The directive shows events of that level. -/
def shows (d : Directive) (level : Level) : Bool :=
  d.least?.any fun least => least.rank ≤ level.rank

/-- The directive asks for a value. -/
def asksValue (d : Directive) : Bool :=
  d.count?.any (·.value?.isSome)

/-- The directive holds anywhere, in a scope or not, and whatever the values. -/
def isStatic (d : Directive) : Bool :=
  d.scope?.isNone && !d.asksValue

/-- Two directives are about the same events. -/
def IsAlike (d e : Directive) : Prop :=
  d.part? = e.part? ∧ d.scope? = e.scope? ∧ d.count? = e.count?

instance (d e : Directive) : Decidable (d.IsAlike e) :=
  inferInstanceAs (Decidable (_ ∧ _))

/-- How exactly the directive names the parts. -/
def exactness (d : Directive) : Nat :=
  match d.part? with
  | none => 0
  | some name => name.utf8ByteSize + 1

/-- A directive is at least as exact as another one, by the names of the parts
and then by the name of the count. -/
def isAsExact (d e : Directive) : Bool :=
  if d.exactness = e.exactness then
    match d.count?, e.count? with
    | _, none => true
    | none, some _ => false
    | some c, some c' => !(c.name < c'.name)
  else e.exactness < d.exactness

end Directive

end Deflate.Command

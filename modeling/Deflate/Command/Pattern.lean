/-
Patterns that values are compared with.

A pattern is made of letters, of classes of letters in brackets and of groups in
parentheses, side by side or as branches, once or repeated. What it matches
shows nowhere, so that only the reading of it is described here. The kinds of
characters and the two cases of a letter are known for bytes alone, and no
pattern may match a part of a character.

* `Modes`: the ways of reading, which a group can change, with `Modes.escape?`
  for what follows a backslash and `Modes.member?` for a member of a class;
* `ClassReading`, `GroupReading`: what has been read of a class or of a group;
  parts inside of each other are counted by their heights;
* `Reading.step?`: reads the next part, at least one character of it;
* `isPattern`: a text is a pattern: all of it can be read, and then no group and
  no class is open.
-/
import Deflate.Command.Alphanumeric
import Deflate.Json.Reader

namespace Deflate.Command

/-! ### Modes -/

/-- The ways in which a pattern is read. -/
structure Modes where
  /-- Whole characters are meant, not bytes. -/
  whole : Bool
  /-- A letter is meant in both cases. -/
  caseless : Bool
  /-- Blanks and comments are left out. -/
  spaced : Bool

namespace Modes

/-- The letters of the modes; some make no difference to the reading. -/
def letters : List Char :=
  ['i', 'm', 's', 'U', 'u', 'R', 'x']

/-- Changes one mode: it is on if its letter is there, and off if the letter
follows a minus sign. -/
def changeOne (signs : List Char) (letter : Char) (old : Bool) : Bool :=
  if (signs.takeWhile (· ≠ '-')).contains letter then true
  else if signs.contains letter then false
  else old

/-- Changes the modes by letters and a minus sign, each at most once, the sign not
at the end. -/
def change? (m : Modes) (signs : List Char) : Option Modes :=
  if signs.eraseDups.length = signs.length && signs.all (fun c => ('-' :: letters).contains c) &&
      signs.getLast? ≠ some '-' then
    some ⟨changeOne signs 'u' m.whole, changeOne signs 'i' m.caseless,
      changeOne signs 'x' m.spaced⟩
  else none

/-- Goes over blanks and comments, which run from a number sign to the end of the
line. -/
def skipBlanks (inComment : Bool) : List Char → List Char
  | [] => []
  | c :: rest =>
      if inComment then skipBlanks (c ≠ '\n') rest
      else if c = '#' then skipBlanks true rest
      else if isBlank c then skipBlanks false rest
      else c :: rest

/-- Goes over what is left out. -/
def skip (m : Modes) (text : List Char) : List Char :=
  if m.spaced then skipBlanks false text else text

/-- The next character after blanks, which may have a number sign among them. -/
def next? (m : Modes) (text : List Char) : Option Char :=
  if m.spaced then
    match text.dropWhile isBlank with
    | '#' :: rest => (rest.dropWhile isBlank).head?
    | rest => rest.head?
  else text.head?

/-! ### Letters -/

/-- What a sign stands for. -/
inductive Sign where
  /-- A character. -/
  | letter (c : Char)
  /-- A kind of characters. -/
  | kind
  /-- A place between characters. -/
  | place

/-- The characters that letters after a backslash stand for. -/
def controls : List (Char × Char) :=
  [('a', '\x07'), ('f', '\x0c'), ('t', '\t'), ('n', '\n'), ('r', '\r'), ('v', '\x0b')]

/-- Reads the number of a character in hexadecimal digits, so many of them, after
what the digits before stand for. -/
def code? (m : Modes) : Nat → Nat → List Char → Option (Char × List Char)
  | 0, value, rest => if value.isValidChar then some (Char.ofNat value, rest) else none
  | digits + 1, value, text =>
      match m.skip text with
      | [] => none
      | c :: rest =>
          match Json.hexDigit? c with
          | some digit => m.code? digits (16 * value + digit) rest
          | none => none

/-- Reads what follows a backslash. A character of two digits is a byte, and no
byte beyond the first 128 is a character. -/
def escape? (m : Modes) : List Char → Option (Sign × List Char)
  | [] => none
  | 'x' :: rest => do
      let (c, rest) ← m.code? 2 0 rest
      if m.whole || c.toNat < 128 then some (.letter c, rest) else none
  | 'u' :: rest => (m.code? 4 0 rest).map fun (c, rest) => (.letter c, rest)
  | 'U' :: rest => (m.code? 8 0 rest).map fun (c, rest) => (.letter c, rest)
  | c :: rest =>
      match controls.lookup c with
      | some control => some (.letter control, rest)
      | none =>
          if ['A', 'z'].contains c then some (.place, rest)
          else if ['b', 'B', '<', '>'].contains c then
            if m.whole then none else some (.place, rest)
          else if ['d', 's', 'w'].contains c then
            if m.whole then none else some (.kind, rest)
          else if c.toNat < 128 && !c.isAlphanum then some (.letter c, rest)
          else none

/-- Reads a character, after a backslash or not. -/
def sign? (m : Modes) : List Char → Option (Sign × List Char)
  | [] => none
  | '\\' :: rest => m.escape? rest
  | c :: rest => some (.letter c, rest)

/-- Letters can be compared: in both cases only as bytes. -/
def comparesLetters (m : Modes) : Bool :=
  !(m.whole && m.caseless)

/-! ### Members of classes -/

/-- A character can be a member of a class. -/
def isMember (m : Modes) (c : Char) : Bool :=
  m.comparesLetters && (m.whole || c.toNat < 128)

/-- The names of the kinds of characters. -/
def kindNames : List String :=
  ["alnum", "alpha", "ascii", "blank", "cntrl", "digit", "graph", "lower", "print", "punct",
    "space", "upper", "word", "xdigit"]

/-- Reads the name of a kind between colons, after a bracket; the kind may be
turned round. -/
def namedKind? : List Char → Option (Bool × List Char)
  | ':' :: rest =>
      let isTurned := rest.head? = some '^'
      let rest := if isTurned then rest.tail else rest
      let name := rest.takeWhile (· ≠ ':')
      match rest.drop name.length with
      | ':' :: ']' :: rest =>
          if kindNames.contains (String.ofList name) then some (isTurned, rest) else none
      | _ => none
  | _ => none

/-- Reads a member of a class: a kind, a letter, or the letters from one on to a
later one. A minus sign at the end or before another one is a letter. -/
def member? (m : Modes) (text : List Char) : Option (List Char) := do
  let (first, rest) ← m.sign? text
  let isRange := match m.skip rest with
    | '-' :: rest => m.next? rest ≠ some ']' && m.next? rest ≠ some '-'
    | _ => false
  match first, isRange with
  | .letter c, false => if m.isMember c then some rest else none
  | .kind, false => some rest
  | .letter c, true =>
      let (last, rest) ← m.sign? (m.skip (m.skip rest).tail)
      match last with
      | .letter d => if m.isMember c && m.isMember d && c.toNat ≤ d.toNat then some rest else none
      | _ => none
  | _, _ => none

end Modes

/-- The height of what has parts of some heights; a part alone stands for itself. -/
def heightOf : List Nat → Nat
  | [] => 0
  | [height] => height
  | heights => heights.foldl max 0 + 1

/-! ### Classes -/

/-- Where the reader of a class is. -/
inductive ClassPlace where
  /-- After the bracket. -/
  | opening
  /-- Where minus signs and a closing bracket are letters. -/
  | leading
  /-- Among the members. -/
  | inside
  deriving DecidableEq

/-- What has been read of a class. -/
structure ClassReading where
  /-- Where the reader is. -/
  place : ClassPlace
  /-- The height of what stands before an operator. -/
  operand? : Option Nat
  /-- The heights of the members. -/
  members : List Nat

namespace ClassReading

/-- The start of a class. -/
def start : ClassReading :=
  ⟨.opening, none, []⟩

/-- The class with one more member. -/
def add (c : ClassReading) (height : Nat) : ClassReading :=
  { c with place := .inside, members := height :: c.members }

/-- The height of the members, and of what stands before the operator. -/
def content (c : ClassReading) : Nat :=
  match c.operand? with
  | none => heightOf c.members
  | some operand => max operand (heightOf c.members) + 1

/-- The class after an operator. -/
def operate (c : ClassReading) : ClassReading :=
  ⟨.inside, some c.content, []⟩

/-- The height of the class. -/
def height (c : ClassReading) : Nat :=
  c.content + 1

end ClassReading

/-! ### Groups -/

/-- What has been read of a group. -/
structure GroupReading where
  /-- The modes around the group. -/
  around : Modes
  /-- The heights of the branches before this one. -/
  branches : List Nat
  /-- The heights of the parts of this branch, the last one first. -/
  parts : List Nat
  /-- The last part can be repeated. -/
  repeatable : Bool

namespace GroupReading

/-- The start of a group. -/
def start (around : Modes) : GroupReading :=
  ⟨around, [], [], false⟩

/-- The group with one more part. -/
def add (g : GroupReading) (height : Nat) : GroupReading :=
  { g with parts := height :: g.parts, repeatable := true }

/-- The group with a change of the modes. -/
def addChange (g : GroupReading) : GroupReading :=
  { g with parts := 0 :: g.parts, repeatable := false }

/-- The group with its last part repeated. -/
def repeated? (g : GroupReading) : Option GroupReading :=
  match g.repeatable, g.parts with
  | true, height :: parts => some { g with parts := (height + 1) :: parts }
  | _, _ => none

/-- The group with one more branch. -/
def branch (g : GroupReading) : GroupReading :=
  { g with branches := heightOf g.parts :: g.branches, parts := [], repeatable := false }

/-- The height of what is in the group. -/
def content (g : GroupReading) : Nat :=
  heightOf (heightOf g.parts :: g.branches)

end GroupReading

/-- Reads the name of a group up to the closing angle: a letter and more letters,
digits and some signs. -/
def groupName? (text : List Char) : Option (List Char × List Char) :=
  let name := text.takeWhile (· ≠ '>')
  match name, text.drop name.length with
  | first :: others, '>' :: rest =>
      if (first = '_' || isLetter first) &&
          others.all (fun c => ['_', '.', '[', ']'].contains c || isAlphanumeric c) then
        some (name, rest)
      else none
  | _, _ => none

/-! ### Patterns -/

/-- What has been read of a pattern. -/
structure Reading where
  /-- The modes. -/
  modes : Modes
  /-- The names of the groups. -/
  names : List (List Char)
  /-- The innermost open group, or the whole. -/
  group : GroupReading
  /-- What is around that group, from the inside out. -/
  groups : List GroupReading
  /-- The open classes, from the inside out. -/
  classes : List ClassReading

namespace Reading

/-- The start of a pattern. -/
def start : Reading :=
  let modes := ⟨true, false, false⟩
  ⟨modes, [], GroupReading.start modes, [], []⟩

/-- Adds a part to the group. -/
def add (r : Reading) (height : Nat) : Reading :=
  { r with group := r.group.add height }

/-- Opens a group that is read in some modes. -/
def enter (r : Reading) (modes : Modes) : Reading :=
  { r with modes, group := GroupReading.start r.modes, groups := r.group :: r.groups }

/-- Closes the group; the modes around it hold again. -/
def leave? (r : Reading) : Option Reading :=
  match r.groups with
  | [] => none
  | group :: groups =>
      some { r with
        modes := r.group.around, group := group.add (r.group.content + 1), groups }

/-- Reads what follows an opening parenthesis: a name, a change of the modes for
the group or for the rest around it, or neither. -/
def opened? (r : Reading) (text : List Char) : Option (Reading × List Char) :=
  match text with
  | '?' :: 'P' :: '<' :: rest | '?' :: '<' :: rest => do
      let (name, rest) ← groupName? rest
      if r.names.contains name then none
      else some ({ r.enter r.modes with names := name :: r.names }, rest)
  | '?' :: rest =>
      let signs := rest.takeWhile fun c => c ≠ ':' && c ≠ ')'
      match rest.drop signs.length, r.modes.change? signs with
      | ':' :: rest, some modes => some (r.enter modes, rest)
      | ')' :: rest, some modes =>
          if signs.isEmpty then none
          else some ({ r with modes, group := r.group.addChange }, rest)
      | _, _ => none
  | _ => some (r.enter r.modes, text)

/-- Reads the next part outside of classes. -/
def groupStep? (r : Reading) (text : List Char) : Option (Reading × List Char) :=
  match text with
  | '(' :: rest => r.opened? (r.modes.skip rest)
  | ')' :: rest => r.leave?.map (·, rest)
  | '[' :: rest => some ({ r with classes := [ClassReading.start] }, rest)
  | '|' :: rest => some ({ r with group := r.group.branch }, rest)
  | '*' :: rest | '+' :: rest | '?' :: rest =>
      r.group.repeated?.map fun group =>
        ({ r with group }, if rest.head? = some '?' then rest.tail else rest)
  | '\x7b' :: _ => none
  | '.' :: rest => if r.modes.whole then some (r.add 0, rest) else none
  | '^' :: rest | '$' :: rest => some (r.add 0, rest)
  | _ =>
      match r.modes.sign? text with
      | some (.letter _, rest) => if r.modes.comparesLetters then some (r.add 0, rest) else none
      | some (_, rest) => some (r.add 0, rest)
      | none => none

/-- Reads the next part inside of a class, which has others around it. -/
def classStep? (r : Reading) (c : ClassReading) (around : List ClassReading)
    (text : List Char) : Option (Reading × List Char) :=
  let become (c : ClassReading) (rest : List Char) : Option (Reading × List Char) :=
    some ({ r with classes := c :: around }, rest)
  match text with
  | '[' :: rest =>
      match Modes.namedKind? rest with
      | some (isTurned, rest) =>
          if r.modes.comparesLetters && (r.modes.whole || !isTurned) then become (c.add 0) rest
          else none
      | none => some ({ r with classes := ClassReading.start :: c :: around }, rest)
  | ']' :: rest =>
      match around with
      | [] => some ({ r with classes := [] }.add c.height, rest)
      | outer :: around => some ({ r with classes := outer.add c.height :: around }, rest)
  | '&' :: '&' :: rest | '-' :: '-' :: rest | '~' :: '~' :: rest => become c.operate rest
  | _ => (r.modes.member? text).bind (become (c.add 0))

/-- Reads the next part at the start of a class, which has others around it. -/
def classStart? (r : Reading) (c : ClassReading) (around : List ClassReading)
    (text : List Char) : Option (Reading × List Char) :=
  let addLetter (letter : Char) (place : ClassPlace) (rest : List Char) :
      Option (Reading × List Char) :=
    if r.modes.isMember letter then
      some ({ r with classes := { c.add 0 with place } :: around }, rest)
    else none
  match c.place, c.members, text with
  | .opening, [], '^' :: rest =>
      if r.modes.whole then some ({ r with classes := { c with place := .leading } :: around }, rest)
      else none
  | _, _, '-' :: rest => addLetter '-' .leading rest
  | _, [], ']' :: rest => addLetter ']' .inside rest
  | _, _, _ => r.classStep? c around text

/-- Reads the next part. -/
def step? (r : Reading) (text : List Char) : Option (Reading × List Char) :=
  match r.classes with
  | [] => r.groupStep? text
  | c :: around =>
      if c.place = .inside then r.classStep? c around text else r.classStart? c around text

/-- Reads a text to its end in a number of steps. -/
def read? : Nat → Reading → List Char → Option Reading
  | 0, _, _ => none
  | steps + 1, r, text =>
      match r.modes.skip text with
      | [] => some r
      | text =>
          match r.step? text with
          | some (r, rest) => read? steps r rest
          | none => none

/-- The greatest height of a pattern. -/
def maxHeight : Nat := 250

/-- Nothing is open, and the pattern is not too high. -/
def isComplete (r : Reading) : Bool :=
  r.groups.isEmpty && r.classes.isEmpty && r.group.content ≤ maxHeight

end Reading

/-- A text is a pattern. -/
def isPattern (text : List Char) : Bool :=
  (Reading.start.read? (text.length + 1) text).any Reading.isComplete

end Deflate.Command

/-
Text without the sequences that steer a terminal.

An escape character begins a sequence; most sequences have a final character,
and strings for a device or a title last until they are closed. Characters of a
sequence are not shown, nor are control characters, apart from those that
arrange the text in lines and columns.

* `Steering`: how far a sequence has come, with `Steering.after` for the next
  character and `Steering.shows` for the characters shown;
* `plainText`: a text with nothing but what is shown.
-/

namespace Deflate.Command

/-- How far a sequence has come. -/
inductive Steering where
  /-- There is no sequence. -/
  | idle
  /-- The escape character has been read. -/
  | escape
  /-- A short sequence has begun. -/
  | short
  /-- A control sequence has begun. -/
  | control
  /-- A device string has begun. -/
  | device
  /-- A device string is among its parameters. -/
  | deviceParameters
  /-- A device string is after its parameters. -/
  | deviceMiddle
  /-- The body of a string. -/
  | string
  /-- The body of a title. -/
  | title
  deriving Repr, DecidableEq

/-- A control character that arranges text. -/
def isArranging (c : Char) : Bool :=
  c = '\t' || c = '\n' || c = '\x0c' || c = '\x0d'

/-- A character whose encoding has the byte that closes a string. -/
def closesString (c : Char) : Bool :=
  128 ≤ c.toNat && (String.utf8EncodeChar c).contains 0x9c

namespace Steering

/-- The character is shown. Inside of a sequence only a character that arranges
text is, unless the sequence is a string. -/
def shows : Steering → Char → Bool
  | idle, c => isArranging c || (0x20 ≤ c.toNat && c ≠ '\x7f')
  | escape, c | short, c | control, c => isArranging c
  | _, _ => false

/-- The character after an escape character decides on the kind of sequence. -/
def opened (c : Char) : Steering :=
  match c with
  | '[' => control
  | ']' => title
  | 'P' => device
  | 'X' | '^' | '_' => string
  | _ =>
      if 0x20 ≤ c.toNat && c.toNat ≤ 0x2f then short
      else if 0x30 ≤ c.toNat && c.toNat ≤ 0x7e then idle
      else escape

/-- What follows a character of the head of a device string, where the
parameters end with a character from `limit` on. -/
def deviceHead (limit : Nat) (here : Steering) (c : Char) : Steering :=
  if 0x20 ≤ c.toNat && c.toNat ≤ 0x2f then deviceMiddle
  else if limit ≤ c.toNat && c.toNat ≤ 0x7e then string
  else if 0x30 ≤ c.toNat && c.toNat < limit then deviceParameters
  else here

/-- What follows a character that is not shown. -/
def after (s : Steering) (c : Char) : Steering :=
  if c = '\x1b' then escape
  else if c = '\x18' || c = '\x1a' then idle
  else match s with
    | idle => idle
    | escape => opened c
    | short => if 0x30 ≤ c.toNat && c.toNat ≤ 0x7e then idle else short
    | control => if 0x40 ≤ c.toNat && c.toNat ≤ 0x7e then idle else control
    | device => deviceHead 0x40 device c
    | deviceParameters => deviceHead 0x3c deviceParameters c
    | deviceMiddle => deviceHead 0x30 deviceMiddle c
    | string => if closesString c then idle else string
    | title => if c = '\x07' then idle else title

end Steering

/-- The characters shown. A sequence that is interrupted by a character that is
shown goes on only with the next character that is not, or is given up at a
character beyond the first 128. -/
def shownChars (showing : Bool) (s : Steering) : List Char → List Char
  | [] => []
  | c :: rest =>
      if (if showing then Steering.idle else s).shows c then
        c :: shownChars true (if 128 ≤ c.toNat then .idle else s) rest
      else shownChars false (s.after c) rest

/-- A text with nothing but what is shown. -/
def plainText (text : String) : String :=
  String.ofList (shownChars false .idle text.toList)

theorem shownChars_eq_self {text : List Char} (showing : Bool)
    (h : ∀ c ∈ text, Steering.idle.shows c = true) :
    shownChars showing .idle text = text := by
  induction text generalizing showing with
  | nil => rfl
  | cons c rest ih =>
      obtain ⟨hc, hrest⟩ := List.forall_mem_cons.1 h
      simp only [shownChars, ite_self, hc, if_true, ih true hrest]

end Deflate.Command

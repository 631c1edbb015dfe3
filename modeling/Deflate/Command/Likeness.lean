/-
How alike two words are.

Characters of two words match if they are equal and their places lie within a
window; each character matches at most once, from the left. The likeness is the
mean of three shares: the characters of each word that match, and the matches
that stand in the same order in both words.

* `Likeness.ofWords`: the likeness of two words, as a fraction;
* `Likeness.IsClose`: it is large enough to take one word for the other;
* `closest?`: the word most alike to a word, if there is a close one.
-/

namespace Deflate.Command

/-- How alike two words are, as a fraction. -/
structure Likeness where
  numerator : Nat
  denominator : Nat
  deriving Repr, DecidableEq

namespace Likeness

/-- How far apart the places of characters that match may be. -/
def window (a b : List Char) : Nat :=
  max a.length b.length / 2 - 1

/-- The first place in a word, within the window around `i`, where `c` stands
and that has not been taken. -/
def partner? (window : Nat) (b : List Char) (taken : List Nat) (i : Nat) (c : Char) :
    Option Nat :=
  (List.range b.length).find? fun j =>
    i ≤ j + window && j ≤ i + window && b[j]? = some c && !taken.contains j

/-- The characters, given with their places, that match in a word, each with its
place there. -/
def partners (window : Nat) (b : List Char) (taken : List Nat) :
    List (Char × Nat) → List (Char × Nat)
  | [] => []
  | (c, i) :: rest =>
      match partner? window b taken i c with
      | some j => (c, j) :: partners window b (j :: taken) rest
      | none => partners window b taken rest

/-- How many places of two lists hold different characters. -/
def differences (a b : List Char) : Nat :=
  (a.zip b).countP fun pair => pair.1 ≠ pair.2

/-- The likeness of two words. -/
def ofWords (a b : List Char) : Likeness :=
  let found := partners (window a b) b [] a.zipIdx
  let places := found.map (·.2)
  let others := (b.zipIdx.filter fun pair => places.contains pair.2).map (·.1)
  let count := found.length
  let ordered := count - differences (found.map (·.1)) others / 2
  if count = 0 then ⟨0, 1⟩
  else
    { numerator :=
        count * count * b.length + count * count * a.length + ordered * a.length * b.length
      denominator := 3 * a.length * b.length * count }

/-- One word can be taken for the other: the likeness is seven tenths at least. -/
def IsClose (l : Likeness) : Prop :=
  7 * l.denominator ≤ 10 * l.numerator

instance (l : Likeness) : Decidable l.IsClose :=
  inferInstanceAs (Decidable (_ ≤ _))

/-- A likeness is at most another one. -/
def IsAtMost (l m : Likeness) : Prop :=
  l.numerator * m.denominator ≤ m.numerator * l.denominator

instance (l m : Likeness) : Decidable (l.IsAtMost m) :=
  inferInstanceAs (Decidable (_ ≤ _))

end Likeness

/-- The better of a choice made so far and a word; of two words equally alike
the later one. -/
def closer (word : String) (chosen? : Option String) (candidate : String) : Option String :=
  let likeness (other : String) := Likeness.ofWords word.toList other.toList
  if (likeness candidate).IsClose then
    match chosen? with
    | none => some candidate
    | some chosen =>
        if (likeness chosen).IsAtMost (likeness candidate) then some candidate else some chosen
  else chosen?

/-- Of some words the one most alike to a word, if there is a close one. -/
def closest? (word : String) (candidates : List String) : Option String :=
  candidates.foldl (closer word) none

end Deflate.Command

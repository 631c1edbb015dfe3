/-
A decoder that is used again and again.

* `Inflater`: remembers where its last decode stopped;
* `Inflater.inflate`: decodes an input and appends the output to a target,
  which is left as it is if the decode fails;
* `inflateAlone`: what a fresh inflater makes of an input;
* `Session`: an inflater and several targets, with the steps that can be taken
  on them.
-/
import Deflate.Decode
import Deflate.Event

namespace Deflate

/-- A decoder with what is left of its last decode. -/
structure Inflater where
  /-- Where the last decode stopped. -/
  machine : Machine
  deriving Repr, DecidableEq

namespace Inflater

/-- An inflater that has decoded nothing yet. -/
def fresh : Inflater where
  machine := .start

/-- The inflater at the start of a stream, whatever it did before. -/
def reset (_ : Inflater) : Inflater :=
  fresh

/-- The target with the decoded bytes after it; an empty target takes the
decoded bytes as they are. -/
def append (target decoded : ByteArray) : ByteArray :=
  if target.isEmpty then decoded else target ++ decoded

theorem append_eq (target decoded : ByteArray) :
    append target decoded = target ++ decoded := by
  rw [append]
  split
  · rename_i h
    have ht : target = .empty := ByteArray.size_eq_zero_iff.mp (by simpa [ByteArray.isEmpty] using h)
    rw [ht, ByteArray.empty_append]
  · rfl

/-- Decodes the input and appends the output to the target. -/
def inflate (inflater : Inflater) (input target : ByteArray) :
    Inflater × ByteArray × Except DecodeError Outcome :=
  let (buffer, m, verdict, counts) := runStream input inflater.reset.machine
  match counts.report input.size buffer verdict with
  | .ok (outcome, decoded) => (⟨m⟩, append target decoded, .ok outcome)
  | .error e => (⟨m⟩, target, .error e)

end Inflater

/-- Decodes the input by itself. -/
def inflateAlone (input : ByteArray) : Except DecodeError ByteArray :=
  match (Inflater.fresh.inflate input .empty).2 with
  | (output, .ok _) => .ok output
  | (_, .error e) => .error e

/-- An inflater and `n` targets. -/
structure Session (n : Nat) where
  /-- The inflater that all decodes use. -/
  inflater : Inflater
  /-- The targets. -/
  targets : Vector ByteArray n

namespace Session

/-- A fresh inflater and empty targets. -/
def start (n : Nat) : Session n where
  inflater := .fresh
  targets := Vector.replicate n .empty

/-- What can be done in a session. -/
inductive Action (n : Nat) where
  /-- Take a fresh inflater. -/
  | renew
  /-- Append bytes to a target. -/
  | push (target : Fin n) (bytes : ByteArray)
  /-- Empty a target. -/
  | clear (target : Fin n)
  /-- Decode an input into a target. -/
  | inflate (input : ByteArray) (target : Fin n)
  /-- Decode the content of one target into another or the same. -/
  | chain (source target : Fin n)

/-- Decodes an input into a target. -/
def inflate {n : Nat} (s : Session n) (input : ByteArray) (k : Fin n) :
    Session n × Except DecodeError Outcome :=
  let (inflater, target, result) := s.inflater.inflate input s.targets[k]
  (⟨inflater, s.targets.set k target⟩, result)

/-- Takes one step; a decode gives its result. -/
def act {n : Nat} (s : Session n) : Action n → Session n × Option (Except DecodeError Outcome)
  | .renew => ({ s with inflater := .fresh }, none)
  | .push k bytes => ({ s with targets := s.targets.set k (s.targets[k] ++ bytes) }, none)
  | .clear k => ({ s with targets := s.targets.set k .empty }, none)
  | .inflate input k =>
      let (next, result) := s.inflate input k
      (next, some result)
  | .chain source k =>
      let (next, result) := s.inflate s.targets[source] k
      (next, some result)

end Session

end Deflate

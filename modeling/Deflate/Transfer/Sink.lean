/-
Writing the whole output.

* `WriteReply` and `FlushReply`: how a sink answers the calls to come;
* `Sink`: its answers, the calls made and the bytes accepted so far;
* `Sink.write` and `Sink.flush`: one call each;
* `Sink.writeAllBlocking` and `Sink.writeAllCooperative`: what has not been accepted
  is offered until everything has, by waiting and by giving way;
  `Sink.writeAll_eq` says how they differ;
* `Sink.deliver`: writes the whole output and flushes.
-/
import Deflate.Transfer.Fault

namespace Deflate

/-- How a sink answers a write. -/
inductive WriteReply where
  /-- At most `n` of the bytes offered are accepted. -/
  | take (n : Nat)
  /-- The call fails. -/
  | fail (fault : Fault)
  /-- The call has to wait. -/
  | pending
  deriving Repr, DecidableEq

/-- How a sink answers a flush. -/
inductive FlushReply where
  /-- The call fails. -/
  | fail (fault : Fault)
  /-- The call has to wait. -/
  | pending
  deriving Repr, DecidableEq

/-- A call on a sink. -/
inductive SinkCall where
  /-- Bytes were offered. -/
  | write (offered : ByteArray)
  /-- A flush was asked for. -/
  | flush

/-- A receiver of bytes. A sink without further answers accepts everything. -/
structure Sink where
  /-- The answers to the writes to come. -/
  writes : List WriteReply
  /-- The answers to the flushes to come. -/
  flushes : List FlushReply
  /-- The calls made, the first one first. -/
  calls : Array SinkCall
  /-- The bytes accepted. -/
  accepted : ByteArray

namespace Sink

/-- A sink that has not been called. -/
def ofReplies (writes : List WriteReply) (flushes : List FlushReply) : Sink where
  writes := writes
  flushes := flushes
  calls := #[]
  accepted := .empty

/-- The next answer to a write, after any waiting, and the answers after it. -/
def nextWrite : List WriteReply → Option (Except Fault Nat) × List WriteReply
  | [] => (none, [])
  | .pending :: rest => nextWrite rest
  | .fail fault :: rest => (some (.error fault), rest)
  | .take n :: rest => (some (.ok n), rest)

/-- The next answer to a flush, after any waiting, and the answers after it. -/
def nextFlush : List FlushReply → Option Fault × List FlushReply
  | [] => (none, [])
  | .pending :: rest => nextFlush rest
  | .fail fault :: rest => (some fault, rest)

/-- Offers bytes; the result is how many of them were accepted. -/
def write (sink : Sink) (offered : ByteArray) : Sink × Except Fault Nat :=
  let (reply, rest) := nextWrite sink.writes
  let called := { sink with writes := rest, calls := sink.calls.push (.write offered) }
  match reply with
  | some (.error fault) => (called, .error fault)
  | some (.ok n) =>
      let taken := min n offered.size
      ({ called with accepted := sink.accepted ++ offered.extract 0 taken }, .ok taken)
  | none => ({ called with accepted := sink.accepted ++ offered }, .ok offered.size)

/-- Asks for a flush. -/
def flush (sink : Sink) : Sink × Except Fault Unit :=
  let (reply, rest) := nextFlush sink.flushes
  let called := { sink with flushes := rest, calls := sink.calls.push .flush }
  match reply with
  | some fault => (called, .error fault)
  | none => (called, .ok ())

/-- The fault of a sink that accepts nothing. -/
def acceptsNothing : Mode → Fault
  | .blocking => .told .writeZero "failed to write whole buffer"
  | .cooperative => .plain .writeZero

/-! ### Every write ends -/

theorem length_nextWrite (replies : List WriteReply) :
    (nextWrite replies).2.length ≤ replies.length := by
  induction replies with
  | nil => exact Nat.le_refl _
  | cons reply rest ih => cases reply <;> simp only [nextWrite, List.length_cons] <;> omega

theorem length_nextWrite_lt {replies : List WriteReply} {reply : Except Fault Nat}
    (h : (nextWrite replies).1 = some reply) :
    (nextWrite replies).2.length < replies.length := by
  induction replies with
  | nil => cases h
  | cons first rest ih =>
      cases first with
      | pending =>
          have := ih h
          simp only [nextWrite, List.length_cons]
          omega
      | fail fault =>
          simp only [nextWrite, List.length_cons]
          omega
      | take n =>
          simp only [nextWrite, List.length_cons]
          omega

theorem writes_write (sink : Sink) (offered : ByteArray) :
    (sink.write offered).1.writes = (nextWrite sink.writes).2 := by
  rw [write]
  dsimp only
  split <;> rfl

/-- A call that fails uses up an answer. -/
theorem length_writes_of_error {sink called : Sink} {offered : ByteArray} {fault : Fault}
    (h : sink.write offered = (called, .error fault)) :
    called.writes.length < sink.writes.length := by
  have hw := writes_write sink offered
  rw [h] at hw
  rw [write] at h
  dsimp only at h hw
  split at h
  · rename_i hr
    rw [hw]
    exact length_nextWrite_lt hr
  · cases h
  · cases h

/-- A call that succeeds uses up an answer, or all bytes are accepted. -/
theorem length_writes_of_ok {sink called : Sink} {offered : ByteArray} {n : Nat}
    (h : sink.write offered = (called, .ok n)) :
    called.writes.length < sink.writes.length ∨
      called.writes.length ≤ sink.writes.length ∧ n = offered.size := by
  have hw := writes_write sink offered
  rw [h] at hw
  rw [write] at h
  dsimp only at h hw
  rw [hw]
  split at h
  · cases h
  · rename_i hr
    exact .inl (length_nextWrite_lt hr)
  · cases h
    exact .inr ⟨length_nextWrite sink.writes, rfl⟩

/-- After a call that succeeds fewer bytes are left, or fewer answers. -/
theorem left_lt_of_ok {sink called : Sink} {rest : ByteArray} {n : Nat}
    (h : sink.write rest = (called, .ok n)) (hz : rest.size ≠ 0) :
    called.writes.length + (rest.extract n rest.size).size < sink.writes.length + rest.size := by
  have hpos := Nat.pos_of_ne_zero hz
  rw [ByteArray.size_extract]
  rcases length_writes_of_ok h with hw | hw <;> omega

/-! ### Both ways of writing -/

/-- Offers the bytes by calls that wait until all of them have been accepted. A call
that was interrupted is made again. -/
def writeAllBlocking (sink : Sink) (rest : ByteArray) : Sink × Except Fault Unit :=
  if _ : rest.size = 0 then (sink, .ok ())
  else
    match _ : sink.write rest with
    | (called, .ok n) =>
        if n = 0 then (called, .error (acceptsNothing .blocking))
        else called.writeAllBlocking (rest.extract n rest.size)
    | (called, .error fault) =>
        if fault.IsInterruption then called.writeAllBlocking rest else (called, .error fault)
termination_by sink.writes.length + rest.size
decreasing_by
  · exact left_lt_of_ok ‹sink.write rest = _› ‹_›
  · exact Nat.add_lt_add_right (length_writes_of_error ‹sink.write rest = _›) _

/-- Offers the bytes by calls that give way until all of them have been accepted. Any
fault ends it: there is no branch for an interruption. -/
def writeAllCooperative (sink : Sink) (rest : ByteArray) : Sink × Except Fault Unit :=
  if _ : rest.size = 0 then (sink, .ok ())
  else
    match _ : sink.write rest with
    | (called, .ok n) =>
        if n = 0 then (called, .error (acceptsNothing .cooperative))
        else called.writeAllCooperative (rest.extract n rest.size)
    | (called, .error fault) => (called, .error fault)
termination_by sink.writes.length + rest.size
decreasing_by exact left_lt_of_ok ‹sink.write rest = _› ‹_›

/-- Offers the bytes until all of them have been accepted. -/
def writeAll (mode : Mode) (sink : Sink) (rest : ByteArray) : Sink × Except Fault Unit :=
  match mode with
  | .blocking => sink.writeAllBlocking rest
  | .cooperative => sink.writeAllCooperative rest

/-- Both ways of writing differ only in which faults they get over and in how they call
that nothing is accepted. -/
theorem writeAll_eq (mode : Mode) (sink : Sink) (rest : ByteArray) :
    sink.writeAll mode rest =
      if rest.size = 0 then (sink, .ok ())
      else
        match sink.write rest with
        | (called, .ok n) =>
            if n = 0 then (called, .error (acceptsNothing mode))
            else called.writeAll mode (rest.extract n rest.size)
        | (called, .error fault) =>
            if mode.Retries fault then called.writeAll mode rest else (called, .error fault) := by
  cases mode with
  | blocking =>
      simp only [writeAll, Mode.retries_blocking]
      rw [writeAllBlocking]
      split
      · rfl
      · split <;> simp only [*]
  | cooperative =>
      simp only [writeAll, if_neg Mode.not_retries_cooperative]
      rw [writeAllCooperative]
      split
      · rfl
      · split <;> simp only [*]

/-- What holds after the last call and is carried from each call to the one before it
holds of all writing. -/
theorem writeAll_induction (mode : Mode) {motive : Sink → ByteArray → Prop}
    (empty : ∀ sink rest, rest.size = 0 → motive sink rest)
    (nothing : ∀ sink rest called, rest.size ≠ 0 → sink.write rest = (called, .ok 0) →
      motive sink rest)
    (some : ∀ sink rest called n, rest.size ≠ 0 → sink.write rest = (called, .ok n) → n ≠ 0 →
      motive called (rest.extract n rest.size) → motive sink rest)
    (retried : ∀ sink rest called fault, rest.size ≠ 0 →
      sink.write rest = (called, .error fault) → mode.Retries fault → motive called rest →
      motive sink rest)
    (fault : ∀ sink rest called fault, rest.size ≠ 0 →
      sink.write rest = (called, .error fault) → ¬mode.Retries fault → motive sink rest)
    (sink : Sink) (rest : ByteArray) : motive sink rest := by
  if hz : rest.size = 0 then exact empty sink rest hz
  else
    match h : sink.write rest with
    | (called, .ok n) =>
        if hn : n = 0 then
          subst hn
          exact nothing sink rest called hz h
        else
          exact some sink rest called n hz h hn
            (writeAll_induction mode empty nothing some retried fault called _)
    | (called, .error f) =>
        if hr : mode.Retries f then
          exact retried sink rest called f hz h hr
            (writeAll_induction mode empty nothing some retried fault called rest)
        else exact fault sink rest called f hz h hr
termination_by sink.writes.length + rest.size
decreasing_by
  · exact left_lt_of_ok h hz
  · exact Nat.add_lt_add_right (length_writes_of_error h) _

/-- Writes the whole output and flushes. -/
def deliver (mode : Mode) (sink : Sink) (output : ByteArray) : Sink × Except Fault Unit :=
  match sink.writeAll mode output with
  | (written, .ok ()) => written.flush
  | (written, .error fault) => (written, .error fault)

end Sink

end Deflate

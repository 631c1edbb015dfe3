/-
Collecting the whole input.

* `Delivery`: what a source has ready, in the order of the calls that will get
  it; `readOnce` is one call with room for some bytes;
* `Rooms`: how much room each call offers;
* `collectBlocking` and `collectCooperative`: calls until the end of the input or
  a fault, by waiting and by giving way; `collectFrom_eq` says how they differ;
* `collect`: the result is the bytes of all calls, or the fault with the number of
  bytes before it, and what the source has left.
-/
import Deflate.Transfer.Fault

namespace Deflate

/-- What a source has ready for a call. -/
inductive Delivery where
  /-- Bytes; no bytes are the end of the input. -/
  | bytes (chunk : ByteArray)
  /-- The call fails. -/
  | fail (fault : Fault)
  /-- The call has to wait. -/
  | pending

/-- One call with room for `room` bytes: a chunk that is larger stays for the
next call with the rest of it, and an exhausted source is at its end. -/
def readOnce (room : Nat) : List Delivery → Except Fault ByteArray × List Delivery
  | [] => (.ok .empty, [])
  | .pending :: rest => readOnce room rest
  | .fail fault :: rest => (.error fault, rest)
  | .bytes chunk :: rest =>
      if chunk.size ≤ room then (.ok chunk, rest)
      else (.ok (chunk.extract 0 room), .bytes (chunk.extract room chunk.size) :: rest)

/-- The room offered by each call. -/
structure Rooms where
  /-- The room offered by a call after `n` others. -/
  room : Nat → Nat
  /-- Every call offers some room. -/
  room_pos : ∀ n, 0 < room n

/-- Every call offers the same room. -/
def Rooms.even : Rooms where
  room _ := 32768
  room_pos _ := by decide

/-- The input failed after some bytes of it. -/
structure ReadError where
  /-- The bytes before the fault. -/
  received : Nat
  /-- The fault. -/
  source : Fault
  deriving Repr, DecidableEq

def ReadError.message (e : ReadError) : String :=
  s!"input stream failed after {e.received} bytes: {e.source.text}"

/-- What an item delivers, by its bytes and itself. -/
def Delivery.supply : Delivery → Nat
  | bytes chunk => chunk.size + 1
  | _ => 1

/-- What a source can still deliver, by bytes and items. -/
def supply (source : List Delivery) : Nat :=
  source.foldr (fun item rest => item.supply + rest) 0

theorem supply_cons_bytes (chunk : ByteArray) (rest : List Delivery) :
    supply (.bytes chunk :: rest) = chunk.size + 1 + supply rest := rfl

theorem supply_cons_pending (rest : List Delivery) :
    supply (.pending :: rest) = 1 + supply rest := rfl

theorem supply_cons_fail (fault : Fault) (rest : List Delivery) :
    supply (.fail fault :: rest) = 1 + supply rest := rfl

/-- A call that fails or delivers bytes takes something from the source. -/
theorem supply_readOnce {room : Nat} (hroom : 0 < room) (source : List Delivery) :
    (readOnce room source).1 = .ok .empty ∨
      supply (readOnce room source).2 < supply source := by
  induction source with
  | nil => exact .inl rfl
  | cons item rest ih =>
      cases item with
      | pending =>
          rw [readOnce, supply_cons_pending]
          rcases ih with h | h
          · exact .inl h
          · exact .inr (by omega)
      | fail fault =>
          rw [readOnce, supply_cons_fail]
          exact .inr (by dsimp only; omega)
      | bytes chunk =>
          rw [readOnce, supply_cons_bytes]
          split
          · exact .inr (by dsimp only; omega)
          · refine .inr ?_
            dsimp only
            rw [supply_cons_bytes, ByteArray.size_extract]
            omega

/-- A call that delivers bytes takes something from the source. -/
theorem supply_lt_of_ok {room : Nat} (hroom : 0 < room) {source rest : List Delivery}
    {chunk : ByteArray} (h : readOnce room source = (.ok chunk, rest))
    (hc : ¬chunk.isEmpty = true) : supply rest < supply source := by
  have hs := supply_readOnce hroom source
  rw [h] at hs
  rcases hs with he | hlt
  · cases he
    exact absurd rfl hc
  · exact hlt

/-- So does a call that fails. -/
theorem supply_lt_of_error {room : Nat} (hroom : 0 < room) {source rest : List Delivery}
    {fault : Fault} (h : readOnce room source = (.error fault, rest)) :
    supply rest < supply source := by
  have hs := supply_readOnce hroom source
  rw [h] at hs
  rcases hs with he | hlt
  · cases he
  · exact hlt

/-! ### Both ways of collecting -/

/-- What has been collected after `calls` calls that wait, and what the source has
left at the end. A call that was interrupted is made again. -/
def collectBlocking (rooms : Rooms) (calls : Nat) (received : ByteArray)
    (source : List Delivery) : Except ReadError ByteArray × List Delivery :=
  match h : readOnce (rooms.room calls) source with
  | (.ok chunk, rest) =>
      if chunk.isEmpty then (.ok received, rest)
      else collectBlocking rooms (calls + 1) (received ++ chunk) rest
  | (.error fault, rest) =>
      if fault.IsInterruption then collectBlocking rooms (calls + 1) received rest
      else (.error ⟨received.size, fault⟩, rest)
termination_by supply source
decreasing_by
  · exact supply_lt_of_ok (rooms.room_pos calls) h ‹_›
  · exact supply_lt_of_error (rooms.room_pos calls) h

/-- What has been collected after `calls` calls that give way, and what the source
has left at the end. Any fault ends it: there is no branch for an interruption. -/
def collectCooperative (rooms : Rooms) (calls : Nat) (received : ByteArray)
    (source : List Delivery) : Except ReadError ByteArray × List Delivery :=
  match _ : readOnce (rooms.room calls) source with
  | (.ok chunk, rest) =>
      if chunk.isEmpty then (.ok received, rest)
      else collectCooperative rooms (calls + 1) (received ++ chunk) rest
  | (.error fault, rest) => (.error ⟨received.size, fault⟩, rest)
termination_by supply source
decreasing_by exact supply_lt_of_ok (rooms.room_pos calls) ‹readOnce _ _ = _› ‹_›

/-- What has been collected after `calls` calls, and what the source has left at
the end. -/
def collectFrom (mode : Mode) (rooms : Rooms) (calls : Nat) (received : ByteArray)
    (source : List Delivery) : Except ReadError ByteArray × List Delivery :=
  match mode with
  | .blocking => collectBlocking rooms calls received source
  | .cooperative => collectCooperative rooms calls received source

/-- Both ways of collecting differ only in which faults they get over. -/
theorem collectFrom_eq (mode : Mode) (rooms : Rooms) (calls : Nat) (received : ByteArray)
    (source : List Delivery) :
    collectFrom mode rooms calls received source =
      match readOnce (rooms.room calls) source with
      | (.ok chunk, rest) =>
          if chunk.isEmpty then (.ok received, rest)
          else collectFrom mode rooms (calls + 1) (received ++ chunk) rest
      | (.error fault, rest) =>
          if mode.Retries fault then collectFrom mode rooms (calls + 1) received rest
          else (.error ⟨received.size, fault⟩, rest) := by
  cases mode with
  | blocking =>
      simp only [collectFrom, Mode.retries_blocking]
      rw [collectBlocking]
      split <;> simp only [*]
  | cooperative =>
      simp only [collectFrom, if_neg Mode.not_retries_cooperative]
      rw [collectCooperative]
      split <;> simp only [*]

/-- Collects the whole input. -/
def collect (mode : Mode) (source : List Delivery) :
    Except ReadError ByteArray × List Delivery :=
  collectFrom mode .even 0 .empty source

end Deflate

/-
The decoder as a machine that produces at most one byte a step.

* `Phase` and `Machine`: where a decode stands, the position of the next unread
  bit and what is being read there;
* `Source`: where the next byte of output comes from, the input or the output
  before it;
* `Machine.step`: one step; it looks at the output only for how many bytes
  there are, since a copy that reaches before the first of them is refused;
* `Machine.weight` and `step_weight`: every step lowers the weight, so every
  decode ends.
-/
import Deflate.Block

namespace Deflate

/-- What a decode is reading. -/
inductive Phase where
  /-- The head of a block comes next. -/
  | head
  /-- A stored block of which `left` bytes are missing. -/
  | stored (final : Bool) (left : Nat)
  /-- A token comes next. -/
  | coded (final : Bool) (codes : BlockCodes)
  /-- A copy of which `left` bytes are missing. -/
  | copying (final : Bool) (codes : BlockCodes) (distance left : Nat)
  /-- The final block has ended. -/
  | finished
  deriving Repr, DecidableEq

/-- What comes after a block. -/
def Phase.after (final : Bool) : Phase :=
  if final then .finished else .head

/-- Where the next byte of output comes from. -/
inductive Source where
  /-- The input gives the byte. -/
  | literal (byte : UInt8)
  /-- The byte is the one `distance` back in the output. -/
  | back (distance : Nat)
  deriving Repr, DecidableEq

/-- How a decode ends. -/
inductive Verdict where
  /-- The final block has been read. -/
  | complete
  /-- An item needs a bit past the end of the input. -/
  | starved
  /-- An item is not allowed; the bits before `stop` count as read. -/
  | corrupt (stop : Nat)
  deriving Repr, DecidableEq

/-- Where a decode stands. -/
structure Machine where
  /-- The position of the next unread bit. -/
  position : Nat
  /-- What is read there. -/
  phase : Phase
  deriving Repr, DecidableEq

/-- What one step does. -/
inductive Step where
  /-- The machine moves on without output. -/
  | move (next : Machine)
  /-- One byte of output, if there is room for it. -/
  | emit (source : Source) (next : Machine)
  /-- The decode ends. -/
  | halt (verdict : Verdict)
  deriving Repr, DecidableEq

/-- Goes on with what an item reads as, or ends. -/
@[inline] def Read.toStep {α : Type} (r : Read α) (f : α → Nat → Step) : Step :=
  match r with
  | .done a next => f a next
  | .starved => .halt .starved
  | .bad stop => .halt (.corrupt stop)

namespace Machine

/-- Before the first bit of the input. -/
def start : Machine where
  position := 0
  phase := .head

/-- The step at the head of a block. -/
def headStep (input : ByteArray) (pos : Nat) : Step :=
  (Block.head input pos).toStep fun head next =>
    match head with
    | (final, .stored length) => .move ⟨next, .stored final length⟩
    | (final, .coded codes) => .move ⟨next, .coded final codes⟩

/-- The step at a token; `produced` bytes of output can be copied from. -/
def tokenStep (input : ByteArray) (produced pos : Nat) (final : Bool) (codes : BlockCodes) :
    Step :=
  (codes.token input pos).toStep fun token next =>
    match token with
    | .literal byte => .emit (.literal byte) ⟨next, .coded final codes⟩
    | .copy length distance =>
        if distance ≤ produced then .move ⟨next, .copying final codes distance length⟩
        else .halt (.corrupt next)
    | .endOfBlock => .move ⟨next, .after final⟩

/-- One step of a decode that has produced `produced` bytes. -/
def step (input : ByteArray) (produced : Nat) (m : Machine) : Step :=
  match m.phase with
  | .head => headStep input m.position
  | .stored final 0 => .move ⟨m.position, .after final⟩
  | .stored final (left + 1) =>
      (BitReader.byte input m.position).toStep fun byte next =>
        .emit (.literal byte) ⟨next, .stored final left⟩
  | .coded final codes => tokenStep input produced m.position final codes
  | .copying final codes _ 0 => .move ⟨m.position, .coded final codes⟩
  | .copying final codes distance (left + 1) =>
      .emit (.back distance) ⟨m.position, .copying final codes distance left⟩
  | .finished => .halt .complete

/-! ### Every decode ends -/

/-- The steps a phase may still take without reading a bit. -/
def pending : Phase → Nat
  | .stored _ _ => 1
  | .copying _ _ _ left => left + 1
  | _ => 0

/-- What every step lowers: the unread bits, each counted as more than the
longest copy, and the steps pending. -/
def weight (input : ByteArray) (m : Machine) : Nat :=
  300 * (8 * input.size - m.position) + pending m.phase

theorem pending_after (final : Bool) : pending (.after final) = 0 := by
  cases final <;> rfl

/-- Reading at least one bit makes up for whatever becomes pending. -/
theorem weight_lt_of_reads {input : ByteArray} {m : Machine} {next : Nat} {phase : Phase}
    (h : m.position < next ∧ next ≤ 8 * input.size) (hp : pending phase ≤ 259) :
    weight input ⟨next, phase⟩ < weight input m := by
  simp only [weight]
  omega

end Machine

/-- The machine after a step, if the decode goes on. -/
def Step.next? : Step → Option Machine
  | .move next => some next
  | .emit _ next => some next
  | .halt _ => none

namespace Machine

theorem next?_toStep {α : Type} {r : Read α} {f : α → Nat → Step} {m : Machine}
    (h : (r.toStep f).next? = some m) :
    ∃ a next, r = .done a next ∧ (f a next).next? = some m := by
  cases r with
  | done a next => exact ⟨a, next, rfl, h⟩
  | starved => cases h
  | bad stop => cases h

/-- Every step lowers the weight. -/
theorem step_weight {input : ByteArray} {produced : Nat} {m next : Machine}
    (h : (step input produced m).next? = some next) : weight input next < weight input m := by
  obtain ⟨pos, phase⟩ := m
  rw [step.eq_def] at h
  dsimp only at h
  split at h
  · obtain ⟨⟨final, body⟩, after, hr, hn⟩ := next?_toStep h
    cases body <;> cases hn <;>
      exact weight_lt_of_reads (Block.steps_head hr) (by simp [pending])
  · cases h
    simp only [weight, pending_after]
    simp only [pending]
    omega
  · obtain ⟨byte, after, hr, hn⟩ := next?_toStep h
    cases hn
    exact weight_lt_of_reads (BitReader.steps_byte hr) (by simp [pending])
  · rename_i final codes
    obtain ⟨token, after, hr, hn⟩ := next?_toStep h
    have g := BlockCodes.steps_token codes hr
    cases token with
    | literal byte =>
        cases hn
        exact weight_lt_of_reads g (by simp [pending])
    | copy length distance =>
        dsimp only at hn
        split at hn
        · cases hn
          have gl := BlockCodes.token_eq_copy hr
          exact weight_lt_of_reads g (by simp only [pending]; omega)
        · cases hn
    | endOfBlock =>
        cases hn
        exact weight_lt_of_reads g (by simp [pending_after])
  · cases h
    simp only [weight, pending]
    omega
  · cases h
    simp only [weight, pending]
    omega
  · cases h

end Machine

end Deflate

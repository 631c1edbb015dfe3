/-
Decodes as sequences of moves.

* `Configuration` and `Moves`: a machine with the output so far, and one step of it;
  `next?_eq_some_iff` says that these are the steps of the machine;
* `Reaches` and `Ends`: many moves, and the end of a decode;
* `Reaches.ends_unique`: a decode ends in one way;
* `Ends.phase_eq_finished`, `ends_head_iff` and `ends_coded_iff`: where a decode ends;
* `Configuration.InReach`: copies start at a byte of the output.
-/
import Mathlib.Tactic
import Deflate.Inflater
import Deflate.Proofs.HeadReading

namespace Deflate

/-! ### Moves -/

/-- Where a decode stands, and the output so far. -/
structure Configuration where
  /-- The output so far. -/
  output : List UInt8
  /-- Where the decode stands. -/
  machine : Machine
  deriving Repr, DecidableEq

/-- The byte that a source stands for after the output `out`. -/
def Source.byteAfter (out : List UInt8) : Source → UInt8
  | literal byte => byte
  | back distance => out.getD (out.length - distance) 0

/-- The configuration that a step leads to after the output `out`, if the decode goes
on. -/
def Step.configuration? (out : List UInt8) : Step → Option Configuration
  | move m => some ⟨out, m⟩
  | emit source m => some ⟨out ++ [source.byteAfter out], m⟩
  | halt _ => none

namespace Configuration

/-- Before the first bit of the input. -/
def start : Configuration where
  output := []
  machine := .start

/-- The configuration after one step, if the decode goes on. -/
def next? (input : ByteArray) (c : Configuration) : Option Configuration :=
  (c.machine.step input c.output.length).configuration? c.output

/-- What is said of a decode that ends here. -/
def report (input : ByteArray) (c : Configuration) :
    Verdict → Except DecodeError (Outcome × ByteArray)
  | .complete =>
      let consumed := bytesBefore c.machine.position
      .ok (⟨consumed, c.output.length, input.size - consumed⟩, ⟨c.output.toArray⟩)
  | .starved => .error (.truncated input.size c.output.length)
  | .corrupt stop => .error (.corrupt (bytesBefore stop) DecodeError.badItem)

end Configuration

/-- One step of a decode that goes on. -/
inductive Moves (input : ByteArray) : Configuration → Configuration → Prop where
  /-- The head of a stored block. -/
  | storedHead {out : List UInt8} {pos next length : ℕ} {final : Bool} :
      Block.head input pos = .done (final, .stored length) next →
      Moves input ⟨out, ⟨pos, .head⟩⟩ ⟨out, ⟨next, .stored final length⟩⟩
  /-- The head of a coded block. -/
  | codedHead {out : List UInt8} {pos next : ℕ} {final : Bool} {codes : BlockCodes} :
      Block.head input pos = .done (final, .coded codes) next →
      Moves input ⟨out, ⟨pos, .head⟩⟩ ⟨out, ⟨next, .coded final codes⟩⟩
  /-- A byte of a stored block. -/
  | storedByte {out : List UInt8} {pos next left : ℕ} {final : Bool} {byte : UInt8} :
      BitReader.byte input pos = .done byte next →
      Moves input ⟨out, ⟨pos, .stored final (left + 1)⟩⟩ ⟨out ++ [byte], ⟨next, .stored final left⟩⟩
  /-- The end of a stored block. -/
  | storedEnd {out : List UInt8} {pos : ℕ} {final : Bool} :
      Moves input ⟨out, ⟨pos, .stored final 0⟩⟩ ⟨out, ⟨pos, .after final⟩⟩
  /-- A literal byte. -/
  | literal {out : List UInt8} {pos next : ℕ} {final : Bool} {codes : BlockCodes} {byte : UInt8} :
      codes.token input pos = .done (.literal byte) next →
      Moves input ⟨out, ⟨pos, .coded final codes⟩⟩ ⟨out ++ [byte], ⟨next, .coded final codes⟩⟩
  /-- A copy that starts at a byte of the output. -/
  | copy {out : List UInt8} {pos next length distance : ℕ} {final : Bool} {codes : BlockCodes} :
      codes.token input pos = .done (.copy length distance) next → distance ≤ out.length →
      Moves input ⟨out, ⟨pos, .coded final codes⟩⟩
        ⟨out, ⟨next, .copying final codes distance length⟩⟩
  /-- The end of a coded block. -/
  | codedEnd {out : List UInt8} {pos next : ℕ} {final : Bool} {codes : BlockCodes} :
      codes.token input pos = .done .endOfBlock next →
      Moves input ⟨out, ⟨pos, .coded final codes⟩⟩ ⟨out, ⟨next, .after final⟩⟩
  /-- A byte of a copy. -/
  | copyByte {out : List UInt8} {pos distance left : ℕ} {final : Bool} {codes : BlockCodes} :
      Moves input ⟨out, ⟨pos, .copying final codes distance (left + 1)⟩⟩
        ⟨out ++ [out.getD (out.length - distance) 0],
          ⟨pos, .copying final codes distance left⟩⟩
  /-- The end of a copy. -/
  | copyEnd {out : List UInt8} {pos distance : ℕ} {final : Bool} {codes : BlockCodes} :
      Moves input ⟨out, ⟨pos, .copying final codes distance 0⟩⟩ ⟨out, ⟨pos, .coded final codes⟩⟩

variable {input : ByteArray} {c d : Configuration}

/-- A decode that goes on has read the item that comes next. -/
lemma configuration?_toStep {α : Type} {r : Read α} {f : α → ℕ → Step} {out : List UInt8}
    (h : (r.toStep f).configuration? out = some d) :
    ∃ a next, r = .done a next ∧ (f a next).configuration? out = some d := by
  cases r with
  | done a next => exact ⟨a, next, rfl, h⟩
  | starved => cases h
  | bad stop => cases h

/-- A step of the machine that goes on is a move. -/
lemma moves_of_next? (h : c.next? input = some d) : Moves input c d := by
  obtain ⟨out, pos, phase⟩ := c
  cases phase with
  | head =>
      obtain ⟨⟨final, body⟩, next, hr, h⟩ := configuration?_toStep h
      cases body with
      | stored length =>
          cases h
          exact .storedHead hr
      | coded codes =>
          cases h
          exact .codedHead hr
  | stored final left =>
      cases left with
      | zero =>
          cases h
          exact .storedEnd
      | succ left =>
          obtain ⟨byte, next, hr, h⟩ := configuration?_toStep h
          cases h
          exact .storedByte hr
  | coded final codes =>
      obtain ⟨token, next, hr, h⟩ := configuration?_toStep h
      cases token with
      | literal byte =>
          cases h
          exact .literal hr
      | copy length distance =>
          dsimp only at h
          by_cases hd : distance ≤ out.length
          · rw [if_pos hd] at h
            cases h
            exact .copy hr hd
          · rw [if_neg hd] at h
            cases h
      | endOfBlock =>
          cases h
          exact .codedEnd hr
  | copying final codes distance left =>
      cases left with
      | zero =>
          cases h
          exact .copyEnd
      | succ left =>
          cases h
          exact .copyByte
  | finished => cases h

/-- A move is a step of the machine. -/
lemma Moves.next?_eq (h : Moves input c d) : c.next? input = some d := by
  rw [Configuration.next?]
  cases h with
  | storedHead hr =>
      simp only [Machine.step, Machine.headStep, hr]
      rfl
  | codedHead hr =>
      simp only [Machine.step, Machine.headStep, hr]
      rfl
  | storedByte hr =>
      simp only [Machine.step, hr]
      rfl
  | storedEnd => rfl
  | literal hr =>
      simp only [Machine.step, Machine.tokenStep, hr]
      rfl
  | copy hr hd =>
      simp only [Machine.step, Machine.tokenStep, hr, Read.toStep, if_pos hd]
      rfl
  | codedEnd hr =>
      simp only [Machine.step, Machine.tokenStep, hr]
      rfl
  | copyByte => rfl
  | copyEnd => rfl

/-- The moves are the steps of the machine. -/
theorem next?_eq_some_iff : c.next? input = some d ↔ Moves input c d :=
  ⟨moves_of_next?, Moves.next?_eq⟩

/-- A step without output is a move. -/
lemma moves_of_step_move {m : Machine} (h : c.machine.step input c.output.length = .move m) :
    Moves input c ⟨c.output, m⟩ := by
  rw [← next?_eq_some_iff, Configuration.next?, h]
  rfl

/-- A step with a byte of output is a move, if there is room for the byte. -/
lemma moves_of_step_emit {source : Source} {m : Machine}
    (h : c.machine.step input c.output.length = .emit source m) :
    Moves input c ⟨c.output ++ [source.byteAfter c.output], m⟩ := by
  rw [← next?_eq_some_iff, Configuration.next?, h]
  rfl

/-! ### Many moves -/

/-- The decode goes from one configuration to another. -/
abbrev Reaches (input : ByteArray) : Configuration → Configuration → Prop :=
  Relation.ReflTransGen (Moves input)

/-- The decode ends here. -/
def Ends (input : ByteArray) (c : Configuration) (v : Verdict) : Prop :=
  c.machine.step input c.output.length = .halt v

lemma Ends.not_moves {v : Verdict} (h : Ends input c v) : ¬Moves input c d := by
  intro hm
  rw [← next?_eq_some_iff, Configuration.next?, h] at hm
  cases hm

lemma moves_rightUnique : Relator.RightUnique (Moves input) := by
  intro c d e hd he
  rw [← next?_eq_some_iff] at hd he
  exact Option.some.inj (hd.symm.trans he)

/-- A decode ends in one configuration with one verdict. -/
theorem Reaches.ends_unique {e : Configuration} {v w : Verdict} (hd : Reaches input c d)
    (hv : Ends input d v) (he : Reaches input c e) (hw : Ends input e w) : d = e ∧ v = w := by
  have hde : d = e := by
    rcases hd.total_of_right_unique moves_rightUnique he with h | h
    · rcases h.cases_head with h | ⟨_, hm, -⟩
      · exact h
      · exact absurd hm hv.not_moves
    · rcases h.cases_head with h | ⟨_, hm, -⟩
      · exact h.symm
      · exact absurd hm hw.not_moves
  subst hde
  exact ⟨rfl, Step.halt.inj (hv.symm.trans hw)⟩

/-! ### Ends -/

lemma toStep_eq_halt {α : Type} {r : Read α} {f : α → ℕ → Step} {v : Verdict} :
    r.toStep f = .halt v ↔
      (∃ a next, r = .done a next ∧ f a next = .halt v) ∨ (r = .starved ∧ v = .starved) ∨
        ∃ stop, r = .bad stop ∧ v = .corrupt stop := by
  cases r <;> simp [Read.toStep, eq_comm]

section Ends

variable {out : List UInt8} {pos stop : ℕ} {final : Bool}

/-- Only after the final block a decode is complete. -/
lemma Ends.phase_eq_finished (h : Ends input c .complete) : c.machine.phase = .finished := by
  obtain ⟨out, pos, phase⟩ := c
  cases phase with
  | head =>
      rcases toStep_eq_halt.mp h with ⟨⟨_, body⟩, _, -, h⟩ | ⟨-, h⟩ | ⟨_, -, h⟩
      · cases body <;> cases h
      · cases h
      · cases h
  | stored final left =>
      cases left with
      | zero => cases h
      | succ left => rcases toStep_eq_halt.mp h with ⟨_, _, -, h⟩ | ⟨-, h⟩ | ⟨_, -, h⟩ <;> cases h
  | coded final codes =>
      rcases toStep_eq_halt.mp h with ⟨token, _, -, h⟩ | ⟨-, h⟩ | ⟨_, -, h⟩
      · cases token with
        | literal byte => cases h
        | copy length distance =>
            dsimp only at h
            split at h <;> cases h
        | endOfBlock => cases h
      · cases h
      · cases h
  | copying final codes distance left => cases left <;> cases h
  | finished => rfl

/-- At the head of a block a decode finds the input corrupt if the head is
refused. -/
lemma ends_head_iff :
    Ends input ⟨out, ⟨pos, .head⟩⟩ (.corrupt stop) ↔ Block.head input pos = .bad stop := by
  refine toStep_eq_halt.trans ⟨?_, fun h => .inr (.inr ⟨stop, h, rfl⟩)⟩
  rintro (⟨⟨_, body⟩, _, -, h⟩ | ⟨-, h⟩ | ⟨_, hr, h⟩)
  · cases body <;> cases h
  · cases h
  · cases h
    exact hr

/-- In a coded block a decode finds the input corrupt if a token is refused, or if a
copy reaches before the first byte of the output. -/
lemma ends_coded_iff {codes : BlockCodes} :
    Ends input ⟨out, ⟨pos, .coded final codes⟩⟩ (.corrupt stop) ↔
      codes.token input pos = .bad stop ∨
        ∃ length distance, codes.token input pos = .done (.copy length distance) stop ∧
          out.length < distance := by
  refine toStep_eq_halt.trans ⟨?_, ?_⟩
  · rintro (⟨token, next, hr, h⟩ | ⟨-, h⟩ | ⟨_, hr, h⟩)
    · cases token with
      | literal byte => cases h
      | copy length distance =>
          dsimp only at h
          split at h
          · cases h
          · cases h
            exact .inr ⟨length, distance, hr, Nat.lt_of_not_le ‹_›⟩
      | endOfBlock => cases h
    · cases h
    · cases h
      exact .inl hr
  · rintro (hr | ⟨length, distance, hr, hd⟩)
    · exact .inr (.inr ⟨stop, hr, rfl⟩)
    · exact .inl ⟨_, stop, hr, if_neg (Nat.not_le_of_lt hd)⟩

lemma not_ends_stored {left : ℕ} :
    ¬Ends input ⟨out, ⟨pos, .stored final left⟩⟩ (.corrupt stop) := by
  intro h
  cases left with
  | zero => cases h
  | succ left =>
      rcases toStep_eq_halt.mp h with ⟨_, _, -, h⟩ | ⟨-, h⟩ | ⟨_, hr, -⟩
      · cases h
      · cases h
      · exact BitReader.neverBad_byte hr

lemma not_ends_copying {codes : BlockCodes} {distance left : ℕ} {v : Verdict} :
    ¬Ends input ⟨out, ⟨pos, .copying final codes distance left⟩⟩ v := by
  intro h
  cases left <;> cases h

end Ends

/-! ### Copies stay in the output -/

/-- A copy that is going on starts at a byte of the output. -/
def Configuration.InReach (c : Configuration) : Prop :=
  match c.machine.phase with
  | .copying _ _ distance _ => 1 ≤ distance ∧ distance ≤ c.output.length
  | _ => True

lemma Moves.inReach (h : Moves input c d) (hc : c.InReach) : d.InReach := by
  cases h with
  | storedHead hr => trivial
  | codedHead hr => trivial
  | storedByte hr => trivial
  | @storedEnd _ _ final => cases final <;> trivial
  | literal hr => trivial
  | copy hr hd => exact ⟨(BlockCodes.token_eq_copy hr).2.2.1, hd⟩
  | @codedEnd _ _ _ final _ hr => cases final <;> trivial
  | copyByte =>
      refine ⟨hc.1, ?_⟩
      rw [List.length_append]
      exact Nat.le_add_right_of_le hc.2
  | copyEnd => trivial

lemma Reaches.inReach (h : Reaches input c d) (hc : c.InReach) : d.InReach := by
  induction h with
  | refl => exact hc
  | tail _ hm ih => exact hm.inReach ih

end Deflate

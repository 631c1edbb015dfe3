/-
Reading bits from a byte string, least significant bit of each byte first.

* `Read`: what reading one item gives: a value with the position after it,
  starvation (a bit past the end of the input was needed), or a bad item with
  the position up to which bits count as read;
* `BitReader`: a reader of one item, a function of the input and the position;
  readers are sequenced with `do`;
* `BitReader.bit`, `BitReader.bits`, `BitReader.byte`, `BitReader.align`: the
  items every other reader is made of, and `BitReader.bad`, `BitReader.badAt`,
  `BitReader.accept` and `BitReader.require`, which refuse the item just read;
* `Advances` and `Steps`: a reader never leaves the input, and a reader that
  reads at least one bit moves forward; both are kept by sequencing.
-/

namespace Deflate

/-- What reading one item gives. -/
inductive Read (α : Type) where
  /-- The item was read; `next` is the position after it. -/
  | done (value : α) (next : Nat)
  /-- The item needs a bit past the end of the input. -/
  | starved
  /-- The item is not allowed; the bits before `stop` count as read. -/
  | bad (stop : Nat)
  deriving Repr, DecidableEq

/-- A reader of one item: a function of the input and of the position of the
next unread bit. -/
def BitReader (α : Type) : Type := ByteArray → Nat → Read α

namespace BitReader

/-- Reads nothing and gives `a`. -/
@[inline] protected def pure {α : Type} (a : α) : BitReader α :=
  fun _ pos => .done a pos

/-- Reads one item and goes on with the reader it selects. -/
@[inline] protected def bind {α β : Type} (r : BitReader α) (f : α → BitReader β) :
    BitReader β :=
  fun input pos =>
    match r input pos with
    | .done a next => f a input next
    | .starved => .starved
    | .bad stop => .bad stop

@[always_inline] instance : Monad BitReader where
  pure := BitReader.pure
  bind := BitReader.bind

/-- Reads nothing and gives the position. -/
@[inline] def position : BitReader Nat :=
  fun _ pos => .done pos pos

/-- Refuses the item just read: all bits up to here count as read. -/
@[inline] def bad {α : Type} : BitReader α :=
  fun _ pos => .bad pos

/-- Gives the value, or refuses the item just read if there is none. -/
@[inline] def accept {α : Type} : Option α → BitReader α
  | some a => pure a
  | none => bad

/-- Refuses the item just read unless the condition holds. -/
@[inline] def require (p : Prop) [Decidable p] : BitReader Unit :=
  if p then pure () else bad

/-- Refuses the item just read, of which the bits before `stop` count as
read. -/
@[inline] def badAt {α : Type} (stop : Nat) : BitReader α :=
  fun _ _ => .bad stop

/-- Reads one bit. -/
@[inline] def bit : BitReader Bool :=
  fun input pos =>
    if h : pos / 8 < input.size then
      .done (input[pos / 8].toNat.testBit (pos % 8)) (pos + 1)
    else .starved

/-- Reads `n` bits as a number, the first bit read being the least
significant. -/
def bits : Nat → BitReader Nat
  | 0 => pure 0
  | n + 1 => do
      let low ← bit
      let high ← bits n
      return low.toNat + 2 * high

/-- Reads `n` items in a row. -/
def times {α : Type} (r : BitReader α) : Nat → BitReader (List α)
  | 0 => pure []
  | n + 1 => do
      let first ← r
      return first :: (← r.times n)

/-- Reads eight bits as a byte. -/
@[inline] def byte : BitReader UInt8 := do
  return UInt8.ofNat (← bits 8)

/-- Skips to the next byte boundary. -/
@[inline] def align : BitReader Unit :=
  fun _ pos => .done () ((pos + 7) / 8 * 8)

/-! ### Progress -/

/-- The reader moves no further than the end of the input, and never back. -/
def Advances {α : Type} (r : BitReader α) : Prop :=
  ∀ ⦃input : ByteArray⦄ ⦃pos : Nat⦄ ⦃a : α⦄ ⦃next : Nat⦄,
    r input pos = .done a next → pos ≤ 8 * input.size →
      pos ≤ next ∧ next ≤ 8 * input.size

/-- The reader reads at least one bit of the input. -/
def Steps {α : Type} (r : BitReader α) : Prop :=
  ∀ ⦃input : ByteArray⦄ ⦃pos : Nat⦄ ⦃a : α⦄ ⦃next : Nat⦄,
    r input pos = .done a next → pos < next ∧ next ≤ 8 * input.size

/-- A reader that reads a bit stays within the input wherever it began. -/
theorem Steps.advances {α : Type} {r : BitReader α} (h : Steps r) : Advances r :=
  fun _ _ _ _ hr _ => ⟨Nat.le_of_lt (h hr).1, (h hr).2⟩

theorem pure_apply {α : Type} (a : α) (input : ByteArray) (pos : Nat) :
    (pure a : BitReader α) input pos = .done a pos := rfl

theorem bind_apply {α β : Type} (r : BitReader α) (f : α → BitReader β)
    (input : ByteArray) (pos : Nat) :
    (r >>= f) input pos =
      match r input pos with
      | .done a next => f a input next
      | .starved => .starved
      | .bad stop => .bad stop := rfl

/-- A sequence that succeeds is a success of its first reader followed by a
success of the reader selected. -/
theorem bind_eq_done {α β : Type} {r : BitReader α} {f : α → BitReader β}
    {input : ByteArray} {pos : Nat} {b : β} {next : Nat} :
    (r >>= f) input pos = .done b next ↔
      ∃ a mid, r input pos = .done a mid ∧ f a input mid = .done b next := by
  rw [bind_apply]
  constructor
  · intro h
    cases hr : r input pos with
    | done a mid => rw [hr] at h; exact ⟨a, mid, rfl, h⟩
    | starved => rw [hr] at h; cases h
    | bad stop => rw [hr] at h; cases h
  · rintro ⟨a, mid, hr, h⟩
    rw [hr]
    exact h

theorem advances_pure {α : Type} (a : α) : Advances (pure a : BitReader α) := by
  intro input pos b next h hp
  rw [pure_apply] at h
  cases h
  exact ⟨Nat.le_refl _, hp⟩

/-- A refusal is no success, so it moves nowhere. -/
theorem advances_bad {α : Type} : Advances (bad : BitReader α) := by
  intro input pos b next h
  cases h

theorem steps_bad {α : Type} : Steps (bad : BitReader α) := by
  intro input pos b next h
  cases h

theorem advances_accept {α : Type} (o : Option α) : Advances (accept o) := by
  cases o with
  | none => exact advances_bad
  | some a => exact advances_pure a

/-- Only a value is accepted, and no bit is read for it. -/
theorem accept_eq_done {α : Type} {o : Option α} {input : ByteArray} {pos : Nat} {a : α}
    {next : Nat} (h : accept o input pos = .done a next) : o = some a ∧ next = pos := by
  cases o with
  | none => cases h
  | some b =>
      cases h
      exact ⟨rfl, rfl⟩

theorem advances_require (p : Prop) [Decidable p] : Advances (require p) := by
  rw [require]
  split
  · exact advances_pure ()
  · exact advances_bad

/-- After a requirement its condition holds, and no bit has been read. -/
theorem require_eq_done {p : Prop} [Decidable p] {input : ByteArray} {pos : Nat} {u : Unit}
    {next : Nat} (h : require p input pos = .done u next) : p ∧ next = pos := by
  rw [require] at h
  split at h
  · cases h
    exact ⟨‹p›, rfl⟩
  · cases h

theorem advances_badAt {α : Type} (stop : Nat) : Advances (badAt stop : BitReader α) := by
  intro input pos b next h
  cases h

/-- A sequence stays within the input if its readers do. -/
theorem Advances.bind {α β : Type} {r : BitReader α} {f : α → BitReader β}
    (hr : Advances r) (hf : ∀ a, Advances (f a)) : Advances (r >>= f) := by
  intro input pos b next h hp
  obtain ⟨a, mid, h1, h2⟩ := bind_eq_done.mp h
  have g1 := hr h1 hp
  have g2 := hf a h2 g1.2
  exact ⟨Nat.le_trans g1.1 g2.1, g2.2⟩

/-- The first reader of a sequence is enough to move it forward. -/
theorem Steps.bind {α β : Type} {r : BitReader α} {f : α → BitReader β}
    (hr : Steps r) (hf : ∀ a, Advances (f a)) : Steps (r >>= f) := by
  intro input pos b next h
  obtain ⟨a, mid, h1, h2⟩ := bind_eq_done.mp h
  have g1 := hr h1
  have g2 := hf a h2 g1.2
  exact ⟨Nat.lt_of_lt_of_le g1.1 g2.1, g2.2⟩

/-- One bit past the end is refused, so a bit read lies within the input. -/
theorem steps_bit : Steps bit := by
  intro input pos b next h
  rw [bit] at h
  split at h
  · cases h
    omega
  · cases h

theorem advances_bits (n : Nat) : Advances (bits n) := by
  induction n with
  | zero => exact advances_pure 0
  | succ n ih =>
      exact steps_bit.advances.bind fun _ => ih.bind fun _ => advances_pure _

/-- A number of no bits reads nothing; every other one moves forward. -/
theorem steps_bits {n : Nat} (hn : 0 < n) : Steps (bits n) := by
  cases n with
  | zero => exact absurd hn (Nat.lt_irrefl 0)
  | succ n => exact steps_bit.bind fun _ => (advances_bits n).bind fun _ => advances_pure _

/-- However often a reader is repeated, it stays within the input. -/
theorem Advances.times {α : Type} {r : BitReader α} (hr : Advances r) (n : Nat) :
    Advances (r.times n) := by
  induction n with
  | zero => exact advances_pure []
  | succ n ih => exact hr.bind fun _ => ih.bind fun _ => advances_pure _

theorem steps_byte : Steps byte :=
  (steps_bits (by decide)).bind fun _ => advances_pure _

/-- The number read fits its bits, and the reader moves by as many. -/
theorem bits_eq_done {n : Nat} {input : ByteArray} {pos v next : Nat}
    (h : bits n input pos = .done v next) : v < Nat.pow 2 n ∧ next = pos + n := by
  induction n generalizing pos v with
  | zero =>
      cases h
      exact ⟨Nat.one_pos, rfl⟩
  | succ n ih =>
      obtain ⟨low, mid, h1, h2⟩ := bind_eq_done.mp h
      obtain ⟨high, mid', h3, h4⟩ := bind_eq_done.mp h2
      cases h4
      have g1 := ih h3
      have g2 : mid = pos + 1 := by
        rw [bit] at h1
        split at h1
        · cases h1
          rfl
        · cases h1
      have g3 : low.toNat ≤ 1 := Bool.toNat_le low
      have g4 : Nat.pow 2 (n + 1) = Nat.pow 2 n * 2 := rfl
      omega

/-- The end of the input is a byte boundary, so skipping to one stays within it. -/
theorem advances_align : Advances align := by
  intro input pos b next h hp
  cases h
  omega

end BitReader

end Deflate

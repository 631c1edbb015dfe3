/-
Bytes in front of an input move what is read, and change nothing else.

* `Read.shift`, `Verdict.shift`, `Step.shift` and their like: the same with later
  positions;
* `BitReader.Relocates`: a reader gives the same item wherever its bits stand;
  sequencing keeps this, and all readers of blocks and tokens do so;
* `Machine.step_shift`: so does a step of the machine;
* `Reaches.shift` and `Ends.shift`: so does a whole decode.
-/
import Mathlib.Tactic
import Deflate.Proofs.Execution

namespace Deflate

/-! ### Readers -/

/-- What is read when `n` more bits stand in front. -/
def Read.shift {α : Type} (n : ℕ) : Read α → Read α
  | done a next => .done a (n + next)
  | starved => .starved
  | bad stop => .bad (n + stop)

namespace BitReader

/-- With bytes in front of the input the reader gives the same item, that many bytes
later. -/
def Relocates {α : Type} (r : BitReader α) : Prop :=
  ∀ (before input : ByteArray) (pos : ℕ),
    r (before ++ input) (8 * before.size + pos) = (r input pos).shift (8 * before.size)

variable {α β : Type}

lemma relocates_pure (a : α) : Relocates (pure a : BitReader α) :=
  fun _ _ _ => rfl

/-- The end of what is refused is shifted with it. -/
lemma relocates_bad : Relocates (bad : BitReader α) :=
  fun _ _ _ => rfl

lemma relocates_accept (o : Option α) : Relocates (accept o) := by
  cases o with
  | none => exact relocates_bad
  | some a => exact relocates_pure a

lemma relocates_require (p : Prop) [Decidable p] : Relocates (require p) := by
  rw [require]
  split
  · exact relocates_pure ()
  · exact relocates_bad

/-- A sequence is relocated if its readers are. -/
lemma Relocates.bind {r : BitReader α} {f : α → BitReader β} (hr : Relocates r)
    (hf : ∀ a, Relocates (f a)) : Relocates (r >>= f) := by
  intro before input pos
  rw [bind_apply, bind_apply, hr before input pos]
  cases r input pos with
  | done a next => exact hf a before input next
  | starved => rfl
  | bad stop => rfl

/-- Whole bytes in front leave the place of a bit within its byte as it is. -/
lemma relocates_bit : Relocates bit := by
  intro before input pos
  have hdiv : (8 * before.size + pos) / 8 = before.size + pos / 8 := by omega
  have hmod : (8 * before.size + pos) % 8 = pos % 8 := by omega
  rw [bit, bit]
  by_cases h : pos / 8 < input.size
  · have hlt : (8 * before.size + pos) / 8 < (before ++ input).size := by
      rw [ByteArray.size_append]
      omega
    have hbyte : (before ++ input)[(8 * before.size + pos) / 8] = input[pos / 8] := by
      rw [ByteArray.getElem_append_right (by omega)]
      simp only [hdiv, Nat.add_sub_cancel_left]
    rw [dif_pos hlt, dif_pos h, hbyte, hmod]
    rfl
  · have hge : ¬(8 * before.size + pos) / 8 < (before ++ input).size := by
      rw [ByteArray.size_append]
      omega
    rw [dif_neg hge, dif_neg h]
    rfl

lemma relocates_bits (n : ℕ) : Relocates (bits n) := by
  induction n with
  | zero => exact relocates_pure 0
  | succ n ih => exact relocates_bit.bind fun _ => ih.bind fun _ => relocates_pure _

/-- A repeated reader is relocated with the reader. -/
lemma Relocates.times {r : BitReader α} (hr : Relocates r) (n : ℕ) : Relocates (r.times n) := by
  induction n with
  | zero => exact relocates_pure []
  | succ n ih => exact hr.bind fun _ => ih.bind fun _ => relocates_pure _

lemma relocates_byte : Relocates byte :=
  (relocates_bits 8).bind fun _ => relocates_pure _

/-- Byte boundaries stay byte boundaries. -/
lemma relocates_align : Relocates align := by
  intro before input pos
  have h : (8 * before.size + pos + 7) / 8 * 8 = 8 * before.size + (pos + 7) / 8 * 8 := by omega
  rw [align, align, h]
  rfl

end BitReader

open BitReader

namespace PrefixCode

/-- The position where the word of a lone symbol began is relocated with it. -/
lemma loneSymbol_shift (symbol start seen left : ℕ) (before input : ByteArray) (pos : ℕ) :
    loneSymbol symbol (8 * before.size + start) seen left (before ++ input)
        (8 * before.size + pos) =
      (loneSymbol symbol start seen left input pos).shift (8 * before.size) := by
  induction left generalizing seen pos with
  | zero => rfl
  | succ left ih =>
      rw [loneSymbol, loneSymbol, bind_apply, bind_apply, relocates_bit before input pos]
      cases bit input pos with
      | done b next =>
          cases b with
          | true =>
              by_cases h : seen < directBits
              · simp only [Read.shift, if_pos h, if_true]
                exact congrArg Read.bad (Nat.add_assoc ..)
              · simp only [Read.shift, if_neg h, if_true]
                rfl
          | false => exact ih (seen + 1) next
      | starved => rfl
      | bad stop => rfl

/-- A canonical code word is read bit by bit, wherever it begins. -/
lemma relocates_canonicalSymbol (levels : List (Array ℕ)) (rank : ℕ) :
    Relocates (canonicalSymbol levels rank) := by
  induction levels generalizing rank with
  | nil => exact relocates_bad
  | cons level levels ih =>
      refine relocates_bit.bind fun b => ?_
      dsimp only
      split
      · exact relocates_pure _
      · exact ih _

/-- With every code a symbol is read alike at every byte. -/
lemma relocates_symbol (c : PrefixCode) : Relocates c.symbol := by
  cases c with
  | empty => exact relocates_bit.bind fun _ => relocates_bad
  | lone symbol more =>
      exact fun before input pos => loneSymbol_shift symbol pos 0 _ before input pos
  | canonical levels => exact relocates_canonicalSymbol levels 0

end PrefixCode

lemma Span.relocates_number (s : Span) : Relocates s.number :=
  (relocates_bits s.extra).bind fun _ => relocates_pure _

namespace BlockCodes

/-- A copy takes its distance and the extra bits of it from behind the length. -/
lemma relocates_copyOf (codes : BlockCodes) (length : ℕ) : Relocates (copyOf codes length) := by
  refine codes.distance.relocates_symbol.bind fun symbol => ?_
  refine (relocates_accept _).bind fun span => ?_
  exact span.relocates_number.bind fun _ => relocates_pure _

lemma relocates_tokenOf (codes : BlockCodes) (symbol : ℕ) : Relocates (tokenOf codes symbol) := by
  rw [tokenOf]
  split
  · exact relocates_pure _
  · split
    · exact relocates_pure _
    · refine (relocates_accept _).bind fun span => ?_
      exact span.relocates_number.bind fun _ => relocates_copyOf codes _

/-- A token is read alike at every byte: what it copies is not looked at yet. -/
lemma relocates_token (codes : BlockCodes) : Relocates codes.token :=
  codes.literal.relocates_symbol.bind fun symbol => relocates_tokenOf codes symbol

end BlockCodes

namespace Block

lemma relocates_runOf (last : Option ℕ) (symbol : ℕ) : Relocates (runOf last symbol) := by
  rw [runOf.eq_def]
  split
  · refine (relocates_accept last).bind fun _ => ?_
    exact (relocates_bits 2).bind fun _ => relocates_pure _
  · exact (relocates_bits 3).bind fun _ => relocates_pure _
  · exact (relocates_bits 7).bind fun _ => relocates_pure _
  · exact relocates_pure _

/-- The lengths read so far decide how many runs follow, not where they stand. -/
lemma relocates_codeLengths (code : PrefixCode) (last : Option ℕ) (missing : ℕ) :
    Relocates (codeLengths code last missing) := by
  fun_induction codeLengths code last missing with
  | case1 => exact relocates_pure []
  | case2 last m ih =>
      have hrun : Relocates (lengthRun code last) :=
        code.relocates_symbol.bind fun symbol => relocates_runOf last symbol
      refine hrun.bind fun run => ?_
      refine (relocates_require _).bind fun _ => ?_
      exact (ih run).bind fun rest => relocates_pure _

/-- The codes of a dynamic block come out the same. -/
lemma relocates_ownCodes : Relocates ownCodes := by
  refine (relocates_bits 5).bind fun literals => ?_
  refine (relocates_bits 5).bind fun distances => ?_
  refine (relocates_bits 4).bind fun given => ?_
  refine (relocates_require _).bind fun _ => ?_
  refine ((relocates_bits 3).times _).bind fun inOrder => ?_
  refine (relocates_accept _).bind fun code => ?_
  exact (relocates_codeLengths code none _).bind fun _ => relocates_accept _

/-- The length of a stored block stands at a byte boundary, before and after. -/
lemma relocates_storedLength : Relocates storedLength := by
  refine relocates_align.bind fun _ => ?_
  refine (relocates_bits 16).bind fun length => ?_
  refine (relocates_bits 16).bind fun complement => ?_
  exact (relocates_require _).bind fun _ => relocates_pure _

lemma relocates_bodyOf (kind : ℕ) : Relocates (bodyOf kind) := by
  rw [bodyOf.eq_def]
  split
  · exact relocates_storedLength.bind fun _ => relocates_pure _
  · exact relocates_pure _
  · exact relocates_ownCodes.bind fun _ => relocates_pure _
  · exact relocates_bad

/-- A head of a block is read alike at every byte. -/
lemma relocates_head : Relocates head := by
  refine relocates_bit.bind fun final => ?_
  refine (relocates_bits 2).bind fun kind => ?_
  exact (relocates_bodyOf kind).bind fun _ => relocates_pure _

end Block

/-! ### Machines -/

/-- The verdict when `n` more bits stand in front. -/
def Verdict.shift (n : ℕ) : Verdict → Verdict
  | complete => .complete
  | starved => .starved
  | corrupt stop => .corrupt (n + stop)

/-- The machine `n` bits later. -/
def Machine.shift (n : ℕ) (m : Machine) : Machine where
  position := n + m.position
  phase := m.phase

/-- The step when `n` more bits stand in front. -/
def Step.shift (n : ℕ) : Step → Step
  | move next => .move (next.shift n)
  | emit source next => .emit source (next.shift n)
  | halt verdict => .halt (verdict.shift n)

/-- The step made of an item is shifted with the item. -/
lemma toStep_shift {α : Type} {f g : α → ℕ → Step} {n : ℕ}
    (h : ∀ a next, g a (n + next) = (f a next).shift n) (r : Read α) :
    (r.shift n).toStep g = (r.toStep f).shift n := by
  cases r with
  | done a next => exact h a next
  | starved => rfl
  | bad stop => rfl

/-- With bytes in front of the input the machine takes the same step. -/
theorem Machine.step_shift (before input : ByteArray) (produced : ℕ) (m : Machine) :
    (m.shift (8 * before.size)).step (before ++ input) produced =
      (m.step input produced).shift (8 * before.size) := by
  obtain ⟨pos, phase⟩ := m
  cases phase with
  | head =>
      simp only [Machine.shift, step, headStep, Block.relocates_head before input pos]
      refine toStep_shift ?_ _
      rintro ⟨final, body⟩ next
      cases body <;> rfl
  | stored final left =>
      cases left with
      | zero => rfl
      | succ left =>
          simp only [Machine.shift, step, relocates_byte before input pos]
          exact toStep_shift (fun _ _ => rfl) _
  | coded final codes =>
      simp only [Machine.shift, step, tokenStep, codes.relocates_token before input pos]
      refine toStep_shift ?_ _
      intro token next
      cases token with
      | literal byte => rfl
      | copy length distance =>
          dsimp only
          split <;> rfl
      | endOfBlock => rfl
  | copying final codes distance left => cases left <;> rfl
  | finished => rfl

/-! ### Decodes -/

/-- The configuration `n` bits later. -/
def Configuration.shift (n : ℕ) (c : Configuration) : Configuration where
  output := c.output
  machine := c.machine.shift n

variable {input : ByteArray} {c d : Configuration}

/-- A decode takes the same step with bytes in front of the input. -/
lemma Moves.shift (h : Moves input c d) (before : ByteArray) :
    Moves (before ++ input) (c.shift (8 * before.size)) (d.shift (8 * before.size)) := by
  rw [← next?_eq_some_iff, Configuration.next?] at h ⊢
  simp only [Configuration.shift, Machine.step_shift]
  cases hs : c.machine.step input c.output.length with
  | move m =>
      rw [hs] at h
      cases h
      rfl
  | emit source m =>
      rw [hs] at h
      cases h
      rfl
  | halt v =>
      rw [hs] at h
      cases h

/-- A decode goes the same way with bytes in front of the input. -/
theorem Reaches.shift (h : Reaches input c d) (before : ByteArray) :
    Reaches (before ++ input) (c.shift (8 * before.size)) (d.shift (8 * before.size)) :=
  h.lift _ fun _ _ hm => hm.shift before

/-- And it ends in the same way. -/
theorem Ends.shift {v : Verdict} (h : Ends input c v) (before : ByteArray) :
    Ends (before ++ input) (c.shift (8 * before.size)) (v.shift (8 * before.size)) := by
  rw [Ends] at h ⊢
  simp only [Configuration.shift, Machine.step_shift, h]
  rfl

end Deflate

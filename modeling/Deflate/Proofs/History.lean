/-
Decodes that go on after output of their own.

* `Moves.output_prefix`, `Moves.position_le` and `Moves.position_le_size`: a decode appends
  to its output, and in the input it never goes back or behind the end;
* `exists_ends`: a decode ends, wherever it starts;
* `Configuration.behind` and `Reaches.behind`: with other output in front a decode
  goes the same way;
* `Machine.step_of_le`: more output changes a step only where it was out of reach of a
  copy;
* `Ends.behind` and `Ends.behind_window`: so a decode that does not stop at such a copy
  ends in the same way, and with `windowSize` bytes of output every decode does.
-/
import Mathlib.Tactic
import Deflate.Proofs.Execution

namespace Deflate

variable {input : ByteArray} {c d : Configuration}

/-! ### Output and position grow -/

lemma Moves.output_prefix (h : Moves input c d) : c.output <+: d.output := by
  cases h with
  | storedByte hr => exact List.prefix_append _ _
  | literal hr => exact List.prefix_append _ _
  | copyByte => exact List.prefix_append _ _
  | _ => exact List.prefix_refl _

/-- The output so far is never altered. -/
lemma Reaches.output_prefix (h : Reaches input c d) : c.output <+: d.output := by
  induction h with
  | refl => exact List.prefix_refl _
  | tail _ hm ih => exact ih.trans hm.output_prefix

lemma Moves.position_le (h : Moves input c d) : c.machine.position ≤ d.machine.position := by
  cases h with
  | storedHead hr => exact (Block.steps_head hr).1.le
  | codedHead hr => exact (Block.steps_head hr).1.le
  | storedByte hr => exact (BitReader.steps_byte hr).1.le
  | literal hr => exact (BlockCodes.steps_token _ hr).1.le
  | copy hr hd => exact (BlockCodes.steps_token _ hr).1.le
  | codedEnd hr => exact (BlockCodes.steps_token _ hr).1.le
  | storedEnd => exact Nat.le_refl _
  | copyByte => exact Nat.le_refl _
  | copyEnd => exact Nat.le_refl _

lemma Reaches.position_le (h : Reaches input c d) :
    c.machine.position ≤ d.machine.position := by
  induction h with
  | refl => exact Nat.le_refl _
  | tail _ hm ih => exact ih.trans hm.position_le

/-- No move leaves the input. -/
lemma Moves.position_le_size (h : Moves input c d) (hc : c.machine.position ≤ 8 * input.size) :
    d.machine.position ≤ 8 * input.size := by
  cases h with
  | storedHead hr => exact (Block.steps_head hr).2
  | codedHead hr => exact (Block.steps_head hr).2
  | storedByte hr => exact (BitReader.steps_byte hr).2
  | literal hr => exact (BlockCodes.steps_token _ hr).2
  | copy hr hd => exact (BlockCodes.steps_token _ hr).2
  | codedEnd hr => exact (BlockCodes.steps_token _ hr).2
  | storedEnd => exact hc
  | copyByte => exact hc
  | copyEnd => exact hc

/-- No more bits are read than the input has. -/
lemma Reaches.position_le_size (h : Reaches input .start c) :
    c.machine.position ≤ 8 * input.size := by
  induction h with
  | refl => exact Nat.zero_le _
  | tail _ hm ih => exact hm.position_le_size ih

/-- Every decode ends, wherever it starts. -/
theorem exists_ends (input : ByteArray) (c : Configuration) :
    ∃ d v, Reaches input c d ∧ Ends input d v := by
  -- the weight of the machine bounds the moves that are left
  induction hw : c.machine.weight input using Nat.strong_induction_on generalizing c with
  | _ w ih =>
      subst hw
      cases hs : c.machine.step input c.output.length with
      | move m =>
          obtain ⟨d, v, hd, hv⟩ := ih _ (Machine.step_weight (by rw [hs]; rfl)) ⟨_, m⟩ rfl
          exact ⟨d, v, .head (moves_of_step_move hs) hd, hv⟩
      | emit source m =>
          obtain ⟨d, v, hd, hv⟩ := ih _ (Machine.step_weight (by rw [hs]; rfl)) ⟨_, m⟩ rfl
          exact ⟨d, v, .head (moves_of_step_emit hs) hd, hv⟩
      | halt v => exact ⟨c, v, .refl, hs⟩

/-! ### Other output in front -/

/-- The configuration with more output in front of its own. -/
def Configuration.behind (history : List UInt8) (c : Configuration) : Configuration where
  output := history ++ c.output
  machine := c.machine

lemma behind_append (history more : List UInt8) (c : Configuration) :
    c.behind (history ++ more) = (c.behind more).behind history := by
  simp only [Configuration.behind, List.append_assoc]

/-- A byte in reach is found at the same distance. -/
lemma getD_behind {out : List UInt8} {distance : ℕ} (history : List UInt8)
    (h : distance ≤ out.length) :
    (history ++ out).getD ((history ++ out).length - distance) 0 =
      out.getD (out.length - distance) 0 := by
  have hlen : (history ++ out).length - distance = history.length + (out.length - distance) := by
    rw [List.length_append]
    omega
  rw [hlen, List.getD_eq_getElem?_getD, List.getD_eq_getElem?_getD,
    List.getElem?_append_right (Nat.le_add_right _ _), Nat.add_sub_cancel_left]

/-- With other output in front the same move is made: copies find the same bytes. -/
lemma Moves.behind (h : Moves input c d) (hc : c.InReach) (history : List UInt8) :
    Moves input (c.behind history) (d.behind history) := by
  cases h with
  | storedHead hr => exact .storedHead hr
  | codedHead hr => exact .codedHead hr
  | storedByte hr =>
      simp only [Configuration.behind, ← List.append_assoc]
      exact .storedByte hr
  | storedEnd => exact .storedEnd
  | literal hr =>
      simp only [Configuration.behind, ← List.append_assoc]
      exact .literal hr
  | copy hr hd =>
      refine .copy hr ?_
      rw [List.length_append]
      exact Nat.le_add_left_of_le hd
  | codedEnd hr => exact .codedEnd hr
  | copyByte =>
      simp only [Configuration.behind, ← List.append_assoc]
      rw [← getD_behind history hc.2]
      exact .copyByte
  | copyEnd => exact .copyEnd

/-- With other output in front a decode goes the same way. -/
theorem Reaches.behind (h : Reaches input c d) (hc : c.InReach) (history : List UInt8) :
    Reaches input (c.behind history) (d.behind history) := by
  induction h with
  | refl => exact .refl
  | tail hr hm ih => exact ih.tail (hm.behind (Reaches.inReach hr hc) history)

/-! ### What more output changes -/

/-- No copy reaches further back than this many bytes. -/
def windowSize : ℕ := 32768

/-- More output changes a step only at a copy that was out of reach: what was refused
is then begun, at the position where it was refused. -/
lemma Machine.step_of_le (input : ByteArray) (m : Machine) {p q : ℕ} (hpq : p ≤ q) :
    m.step input q = m.step input p ∨
      ∃ stop final codes distance length, p < distance ∧ distance ≤ windowSize ∧
        m.step input p = .halt (.corrupt stop) ∧
        m.step input q = .move ⟨stop, .copying final codes distance length⟩ := by
  obtain ⟨pos, phase⟩ := m
  cases phase with
  | head => exact .inl rfl
  | stored final left => exact .inl (by cases left <;> rfl)
  | coded final codes =>
      simp only [step, tokenStep]
      cases hr : codes.token input pos with
      | done token next =>
          cases token with
          | copy length distance =>
              by_cases hp : distance ≤ p
              · left
                simp only [Read.toStep, if_pos hp, if_pos (hp.trans hpq)]
              · by_cases hq : distance ≤ q
                · right
                  refine ⟨next, final, codes, distance, length, Nat.lt_of_not_le hp,
                    (BlockCodes.token_eq_copy hr).2.2.2, ?_, ?_⟩
                  · simp only [Read.toStep, if_neg hp]
                  · simp only [Read.toStep, if_pos hq]
                · left
                  simp only [Read.toStep, if_neg hp, if_neg hq]
          | literal byte => exact .inl rfl
          | endOfBlock => exact .inl rfl
      | starved => exact .inl rfl
      | bad stop => exact .inl rfl
  | copying final codes distance left => exact .inl (by cases left <;> rfl)
  | finished => exact .inl rfl

lemma length_le_behind (history : List UInt8) (c : Configuration) :
    c.output.length ≤ (c.behind history).output.length := by
  rw [Configuration.behind, List.length_append]
  exact Nat.le_add_left _ _

/-- With other output in front a decode ends in the same way, or it goes on with a copy
that was out of reach. -/
lemma Ends.behind_cases {v : Verdict} (h : Ends input c v) (history : List UInt8) :
    Ends input (c.behind history) v ∨
      ∃ stop d, c.output.length < windowSize ∧ v = .corrupt stop ∧
        Moves input (c.behind history) d ∧ d.machine.position = stop := by
  rcases c.machine.step_of_le input (length_le_behind history c) with
    hs | ⟨stop, final, codes, distance, length, hlt, hle, hp, hq⟩
  · exact .inl (hs.trans h)
  · have hm : Moves input (c.behind history)
        ⟨(c.behind history).output, ⟨stop, .copying final codes distance length⟩⟩ := by
      rw [← next?_eq_some_iff, Configuration.next?]
      exact congrArg (Step.configuration? _) hq
    exact .inr ⟨stop, _, hlt.trans_le hle, Step.halt.inj (h.symm.trans hp), hm, rfl⟩

/-- A decode that does not find the input corrupt ends in the same way with other
output in front. -/
theorem Ends.behind {v : Verdict} (h : Ends input c v) (hv : ∀ stop, v ≠ .corrupt stop)
    (history : List UInt8) : Ends input (c.behind history) v := by
  rcases h.behind_cases history with he | ⟨stop, -, -, hcorrupt, -⟩
  · exact he
  · exact absurd hcorrupt (hv stop)

/-- After `windowSize` bytes of output every decode ends in the same way with other
output in front. -/
theorem Ends.behind_window {v : Verdict} (h : Ends input c v) (hc : windowSize ≤ c.output.length)
    (history : List UInt8) : Ends input (c.behind history) v := by
  rcases h.behind_cases history with he | ⟨-, -, hlt, -⟩
  · exact he
  · exact absurd hc (Nat.not_le_of_lt hlt)

end Deflate

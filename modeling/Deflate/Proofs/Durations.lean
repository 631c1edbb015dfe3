/-
Adding up durations is exact.

* `Duration.limit` and `Duration.toNanos_inj`: durations are the numbers of nanoseconds
  below a limit;
* `Duration.IsExact`: a result is the duration of that many nanoseconds, or the overflow if
  they are too many; `IsExact.eq_ok_iff`, `IsExact.eq_error_iff` and `IsExact.unique`;
* `Duration.isExact_add`: the sum of two;
* `Duration.Tally.add?_cases` and `Duration.Tally.foldlM_cases`: one step of adding up
  several durations, and all of them;
* `Duration.isExact_sum` and `Duration.sum_perm`: the sum of several, in any order.
-/
import Mathlib.Algebra.BigOperators.Group.List.Basic
import Mathlib.Tactic
import Deflate.Telemetry.Duration

namespace Deflate.Duration

variable {a b d : Duration} {ds ds' : List Duration} {overflow e : Overflow} {n : ℕ}
  {result result' : Except Overflow Duration}

/-! ### Durations by their nanoseconds -/

/-- Durations are shorter than this many nanoseconds. -/
def limit : ℕ := secondsLimit * nanosPerSecond

lemma nanosPerSecond_pos : 0 < nanosPerSecond := by decide

lemma secs_eq (d : Duration) : d.secs = d.toNanos / nanosPerSecond := by
  rw [toNanos, Nat.mul_comm, Nat.mul_add_div nanosPerSecond_pos, Nat.div_eq_of_lt d.nanos_lt,
    Nat.add_zero]

lemma nanos_eq (d : Duration) : d.nanos = d.toNanos % nanosPerSecond := by
  rw [toNanos, Nat.mul_comm, Nat.mul_add_mod, Nat.mod_eq_of_lt d.nanos_lt]

/-- A duration is told by its nanoseconds. -/
lemma toNanos_inj : a.toNanos = b.toNanos ↔ a = b := by
  refine ⟨fun h => ?_, congrArg toNanos⟩
  have hsecs : a.secs = b.secs := by rw [secs_eq, secs_eq, h]
  have hnanos : a.nanos = b.nanos := by rw [nanos_eq, nanos_eq, h]
  cases a
  cases b
  simp_all

/-- No duration is as long as the limit. -/
lemma toNanos_lt (d : Duration) : d.toNanos < limit := by
  have hsecs := d.secs_lt
  have hnanos := d.nanos_lt
  simp only [toNanos, limit, secondsLimit, nanosPerSecond] at *
  omega

@[simp] lemma toNanos_zero : zero.toNanos = 0 := rfl

/-! ### Exact results -/

/-- The result of an addition that comes to `n` nanoseconds: the duration of that many, or
the overflow if they are too many. -/
inductive IsExact (overflow : Overflow) : ℕ → Except Overflow Duration → Prop where
  | fits (d : Duration) : IsExact overflow d.toNanos (.ok d)
  | excess {n : ℕ} : limit ≤ n → IsExact overflow n (.error overflow)

namespace IsExact

lemma of_eq (h : d.toNanos = n) : IsExact overflow n (.ok d) :=
  h ▸ fits d

lemma eq_ok_iff (h : IsExact overflow n result) : result = .ok d ↔ d.toNanos = n := by
  cases h with
  | fits d' => rw [Except.ok.injEq, eq_comm, toNanos_inj]
  | excess hn => exact ⟨nofun, fun hd => absurd d.toNanos_lt (by omega)⟩

lemma eq_error_iff (h : IsExact overflow n result) :
    result = .error e ↔ e = overflow ∧ limit ≤ n := by
  cases h with
  | fits d' => exact ⟨nofun, fun hn => absurd d'.toNanos_lt (by omega)⟩
  | excess hn => rw [Except.error.injEq, eq_comm, and_iff_left hn]

/-- An exact result is determined by the number that it is the result for. -/
lemma unique (h : IsExact overflow n result) (h' : IsExact overflow n result') :
    result = result' := by
  cases h' with
  | fits d => exact h.eq_ok_iff.mpr rfl
  | excess hn => exact h.eq_error_iff.mpr ⟨rfl, hn⟩

end IsExact

lemma limit_le_of_secs {secs : ℕ} (h : ¬secs < secondsLimit) (nanos : ℕ) :
    limit ≤ secs * nanosPerSecond + nanos :=
  Nat.le_add_right_of_le (Nat.mul_le_mul_right _ (Nat.le_of_not_lt h))

/-- The sum of two durations is exact. -/
lemma isExact_add (a b : Duration) : IsExact .adding (a.toNanos + b.toNanos) (a.add b) := by
  have hsum : a.toNanos + b.toNanos =
      (a.secs + b.secs) * nanosPerSecond + (a.nanos + b.nanos) := by
    simp only [toNanos]
    ring
  rw [hsum, add]
  split
  · split
    · exact .of_eq rfl
    · rename_i hnanos
      -- one second is carried
      have hcarry : (a.secs + b.secs) * nanosPerSecond + (a.nanos + b.nanos) =
          (a.secs + b.secs + 1) * nanosPerSecond + (a.nanos + b.nanos - nanosPerSecond) := by
        rw [Nat.succ_mul]
        omega
      rw [hcarry]
      split
      · exact .of_eq rfl
      · rename_i hsecs
        exact .excess (limit_le_of_secs hsecs _)
  · rename_i hsecs
    exact .excess (limit_le_of_secs hsecs _)

/-! ### Tallies -/

namespace Tally

variable {t t' : Tally}

/-- What a tally comes to, in nanoseconds. -/
def toNanos (t : Tally) : ℕ :=
  t.secs * nanosPerSecond + t.nanos

/-- A tally to which a duration has been added is exact, or the duration is too much. -/
lemma add?_cases (t : Tally) (d : Duration) :
    (∃ t', t.add? d = some t' ∧ t'.toNanos = t.toNanos + d.toNanos) ∨
      t.add? d = none ∧ limit ≤ t.toNanos + d.toNanos := by
  have hsum : t.toNanos + d.toNanos =
      (t.secs + d.secs) * nanosPerSecond + (t.nanos + d.nanos) := by
    simp only [toNanos, Duration.toNanos]
    ring
  rw [hsum, add?]
  split
  · split
    · exact .inl ⟨_, rfl, rfl⟩
    · -- the seconds among the nanoseconds are carried
      have hcarry : (t.secs + d.secs) * nanosPerSecond + (t.nanos + d.nanos) =
          (t.secs + d.secs + t.nanos / nanosPerSecond) * nanosPerSecond +
            (t.nanos % nanosPerSecond + d.nanos) := by
        have hdiv := Nat.div_add_mod t.nanos nanosPerSecond
        rw [Nat.add_mul _ (t.nanos / nanosPerSecond), Nat.mul_comm (t.nanos / nanosPerSecond)]
        omega
      rw [hcarry]
      split
      · exact .inl ⟨_, rfl, rfl⟩
      · rename_i hsecs
        exact .inr ⟨rfl, limit_le_of_secs hsecs _⟩
  · rename_i hsecs
    exact .inr ⟨rfl, limit_le_of_secs hsecs _⟩

/-- A tally to which durations have been added is exact, or they are too much. -/
lemma foldlM_cases (t : Tally) (ds : List Duration) :
    (∃ t', ds.foldlM add? t = some t' ∧
        t'.toNanos = t.toNanos + (ds.map Duration.toNanos).sum) ∨
      ds.foldlM add? t = none ∧ limit ≤ t.toNanos + (ds.map Duration.toNanos).sum := by
  induction ds generalizing t with
  | nil => exact .inl ⟨t, rfl, by rw [List.map_nil, List.sum_nil, Nat.add_zero]⟩
  | cons d ds ih =>
      rw [List.foldlM_cons, List.map_cons, List.sum_cons, ← Nat.add_assoc]
      rcases t.add?_cases d with ⟨t', ht', hnanos⟩ | ⟨hnone, hle⟩
      · rw [ht', ← hnanos]
        exact ih t'
      · rw [hnone]
        exact .inr ⟨rfl, Nat.le_add_right_of_le hle⟩

/-- The duration of a tally is exact, or the tally is too much. -/
lemma duration?_cases (t : Tally) :
    (∃ d, t.duration? = some d ∧ d.toNanos = t.toNanos) ∨
      t.duration? = none ∧ limit ≤ t.toNanos := by
  have hcarry : t.toNanos = (t.secs + t.nanos / nanosPerSecond) * nanosPerSecond +
      t.nanos % nanosPerSecond := by
    rw [Nat.add_mul, Nat.mul_comm (t.nanos / nanosPerSecond), Nat.add_assoc, Nat.div_add_mod]
    rfl
  rw [hcarry, duration?, carried?]
  split
  · exact .inl ⟨_, rfl, rfl⟩
  · rename_i hsecs
    exact .inr ⟨rfl, limit_le_of_secs hsecs _⟩

end Tally

/-! ### Sums -/

/-- The sum of several durations is exact. -/
lemma isExact_sum (ds : List Duration) : IsExact .summing (ds.map toNanos).sum (sum ds) := by
  have hzero : (⟨0, 0⟩ : Tally).toNanos + (ds.map toNanos).sum = (ds.map toNanos).sum :=
    Nat.zero_add _
  rw [← hzero, sum]
  rcases Tally.foldlM_cases ⟨0, 0⟩ ds with ⟨t, ht, hnanos⟩ | ⟨hnone, hle⟩
  · rw [ht, ← hnanos, Option.bind_some]
    rcases t.duration?_cases with ⟨d, hd, hnanos⟩ | ⟨hnone, hle⟩
    · rw [hd]
      exact .of_eq hnanos
    · rw [hnone]
      exact .excess hle
  · rw [hnone]
    exact .excess hle

/-- In any order durations have the same sum. -/
lemma sum_perm (h : ds.Perm ds') : sum ds = sum ds' := by
  have hsum : (ds.map toNanos).sum = (ds'.map toNanos).sum := (h.map toNanos).sum_eq
  exact (isExact_sum ds).unique (hsum ▸ isExact_sum ds')

end Deflate.Duration

/-
Floating-point numbers in the JSON notation.

* `Rounding`: a number with the bounds between which others are rounded to it,
  all as whole numbers of a fixed unit;
* `Rounding.multiple?`: the multiple of a power of ten that is rounded to the
  number, if there is one; `Rounding.coarsest` finds the greatest such power;
* `Rounding.coarsest_spec`: what it finds is rounded to the number, and no
  multiple of a greater power is;
* `Decimal.text`: digits and an exponent as they are written;
* `Decimal.ofFloat?` and `floatText`: the shortest decimal of a floating-point
  number, and the number as a text.
-/

namespace Deflate

/-- A number between the bounds of those that are rounded to it. -/
structure Rounding where
  low : Nat
  middle : Nat
  high : Nat
  /-- The bounds themselves are rounded to it. -/
  closed : Bool
  low_lt : low < middle
  lt_high : middle < high

namespace Rounding

/-- The number `n` is rounded to the one in the middle. -/
def Contains (r : Rounding) (n : Nat) : Prop :=
  if r.closed then r.low ≤ n ∧ n ≤ r.high else r.low < n ∧ n < r.high

instance (r : Rounding) (n : Nat) : Decidable (r.Contains n) :=
  inferInstanceAs (Decidable (ite _ _ _))

/-- What lies between the middle and a number that is rounded to it, or is the
middle, is rounded to it too. -/
theorem contains_of_between {r : Rounding} {m n : Nat} (h : n = r.middle ∨ r.Contains n)
    (hmn : n ≤ m ∧ m ≤ r.middle ∨ r.middle ≤ m ∧ m ≤ n) : r.Contains m := by
  have hlow := r.low_lt
  have hhigh := r.lt_high
  by_cases hc : r.closed = true
  · rw [Contains, if_pos hc] at h ⊢
    omega
  · rw [Contains, if_neg hc] at h ⊢
    omega

/-- The numbers rounded to `significand` steps of four units: they lie at most two
units away, half of the way to the next ones, and only one unit lower if the next
one below is nearer. -/
def ofSteps (significand unit : Nat) (nearer : Bool) (hs : 0 < significand) (hu : 0 < unit) :
    Rounding where
  low := (4 * significand - if nearer then 1 else 2) * unit
  middle := 4 * significand * unit
  high := (4 * significand + 2) * unit
  closed := significand % 2 = 0
  low_lt := Nat.mul_lt_mul_of_pos_right (by split <;> omega) hu
  lt_high := Nat.mul_lt_mul_of_pos_right (by omega) hu

/-- The multiples of a unit around the middle, the nearer one first; of equally
near ones the even multiple. -/
def neighbours (r : Rounding) (unit : Nat) : List Nat :=
  let n := r.middle / unit
  let rest := r.middle % unit
  if 2 * rest < unit ∨ 2 * rest = unit ∧ n % 2 = 0 then [n, n + 1] else [n + 1, n]

/-- How many times `10 ^ k` is rounded to the middle. -/
def multiple? (r : Rounding) (k : Nat) : Option Nat :=
  (r.neighbours (Nat.pow 10 k)).find? fun n => r.Contains (n * Nat.pow 10 k)

/-- The greatest power of ten up to `10 ^ k` with a multiple that is rounded to
the middle, and how many times it is taken. -/
def coarsest (r : Rounding) : (k : Nat) → Nat × Nat
  | 0 => (r.middle, 0)
  | k + 1 =>
      match r.multiple? (k + 1) with
      | some n => (n, k + 1)
      | none => r.coarsest k

theorem mem_neighbours {r : Rounding} {unit n : Nat} :
    n ∈ r.neighbours unit ↔ n = r.middle / unit ∨ n = r.middle / unit + 1 := by
  rw [neighbours]
  split <;> simp [or_comm]

/-- If the neighbours are not rounded to the middle, no multiple is. -/
theorem not_contains_of_multiple?_eq_none {r : Rounding} {k : Nat} (h : r.multiple? k = none)
    (n : Nat) : ¬r.Contains (n * Nat.pow 10 k) := by
  intro hn
  rw [multiple?, List.find?_eq_none] at h
  have hpos : 0 < Nat.pow 10 k := Nat.pow_pos (by decide)
  have hdiv := Nat.div_add_mod r.middle (Nat.pow 10 k)
  have hmod := Nat.mod_lt r.middle hpos
  have hcomm := Nat.mul_comm (Nat.pow 10 k) (r.middle / Nat.pow 10 k)
  have hnear : ∀ m, m ∈ r.neighbours (Nat.pow 10 k) → ¬r.Contains (m * Nat.pow 10 k) :=
    fun m hm hcontains => h m hm (decide_eq_true hcontains)
  by_cases hle : n ≤ r.middle / Nat.pow 10 k
  · refine hnear _ (mem_neighbours.mpr (.inl rfl)) (contains_of_between (.inr hn) (.inl ⟨?_, ?_⟩))
    · exact Nat.mul_le_mul_right _ hle
    · omega
  · refine hnear _ (mem_neighbours.mpr (.inr rfl)) (contains_of_between (.inr hn) (.inr ⟨?_, ?_⟩))
    · rw [Nat.succ_mul]
      omega
    · exact Nat.mul_le_mul_right _ (Nat.lt_of_not_le hle)

/-- **The coarsest decimal is rounded to the middle**, and up to the bound no
multiple of a greater power of ten is. -/
theorem coarsest_spec (r : Rounding) (bound : Nat) :
    let (n, k) := r.coarsest bound
    r.Contains (n * Nat.pow 10 k) ∧
      ∀ k', k < k' → k' ≤ bound → ∀ n', ¬r.Contains (n' * Nat.pow 10 k') := by
  induction bound with
  | zero =>
      refine ⟨?_, fun k' hlt hle => absurd hlt (Nat.not_lt_of_le hle)⟩
      rw [Nat.pow_eq, Nat.pow_zero, Nat.mul_one]
      exact contains_of_between (.inl rfl) (.inl ⟨Nat.le_refl _, Nat.le_refl _⟩)
  | succ bound ih =>
      rw [coarsest]
      cases h : r.multiple? (bound + 1) with
      | some n =>
          have hn := List.find?_some h
          exact ⟨of_decide_eq_true hn, fun k' hlt hle => absurd hlt (Nat.not_lt_of_le hle)⟩
      | none =>
          refine ⟨ih.1, fun k' hlt hle => ?_⟩
          rcases Nat.lt_or_eq_of_le hle with hlt' | rfl
          · exact ih.2 k' hlt (Nat.le_of_lt_succ hlt')
          · exact not_contains_of_multiple?_eq_none h

end Rounding

/-- The number `digits * 10 ^ exponent`. -/
structure Decimal where
  digits : Nat
  exponent : Int

namespace Decimal

/-- The greatest number of digits before the point without an exponent. -/
def plainLimit : Int := 16

/-- The smallest number of zeros after the point with an exponent. -/
def zerosLimit : Int := 5

/-- The decimal as it is written. -/
def text (d : Decimal) : String :=
  let digits := (toString d.digits).toList
  -- the point stands after so many digits
  let place := digits.length + d.exponent
  let zeros (n : Int) := List.replicate n.toNat '0'
  String.ofList <|
    if 0 ≤ d.exponent ∧ place ≤ plainLimit then digits ++ zeros d.exponent ++ ['.', '0']
    else if 0 < place ∧ place ≤ plainLimit then
      digits.take place.toNat ++ '.' :: digits.drop place.toNat
    else if -zerosLimit < place ∧ place ≤ 0 then ['0', '.'] ++ zeros (-place) ++ digits
    else
      digits.take 1 ++ (if digits.length = 1 then [] else '.' :: digits.drop 1) ++
        'e' :: (toString (place - 1)).toList

/-! ### Floating-point numbers -/

/-- There are this many fractions of each exponent. -/
def fractionLimit : Nat := 4503599627370496

/-- There are this many exponents; the last one is not that of a number. -/
def exponentLimit : Nat := 2048

/-- All numbers are multiples of this power of ten. -/
def unitExponent : Nat := 1076

/-- No power of ten in question is greater than this one. -/
def searchLimit : Nat := 1400

/-- How often `10 ^ (-unitExponent)` goes into `2 ^ power * 2 ^ (-unitExponent)`. -/
def unit (power : Nat) : Nat :=
  Nat.pow 2 power * Nat.pow 5 unitExponent

theorem pow_mul_pow_pos (m n : Nat) : 0 < Nat.pow 2 m * Nat.pow 5 n :=
  Nat.mul_pos (Nat.pow_pos (by decide)) (Nat.pow_pos (by decide))

theorem unit_pos (power : Nat) : 0 < unit power :=
  pow_mul_pow_pos power unitExponent

/-- The shortest decimal that is rounded to the magnitude of a number that is
not zero. -/
def ofFloat? (x : Float) : Option Decimal :=
  let bits := x.toBits.toNat
  let fraction := bits % fractionLimit
  let exponent := bits / fractionLimit % exponentLimit
  let significand := if exponent = 0 then fraction else fraction + fractionLimit
  if h : 0 < significand then
    let nearer := fraction = 0 ∧ 1 < exponent
    let rounding := Rounding.ofSteps significand (unit (exponent - 1)) nearer h (unit_pos _)
    let (digits, k) := rounding.coarsest searchLimit
    some ⟨digits, k - unitExponent⟩
  else none

end Decimal

/-- A floating-point number as it is written; what is no number has no digits. -/
def floatText (x : Float) : String :=
  if x.isFinite then
    let isNegative := Decimal.fractionLimit * Decimal.exponentLimit ≤ x.toBits.toNat
    (if isNegative then "-" else "") ++ (Decimal.ofFloat? x).elim "0.0" Decimal.text
  else "null"

end Deflate

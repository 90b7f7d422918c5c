import Mathlib
import RecedingHorizon.Horizon
import RecedingHorizon.Settings
import RecedingHorizon.Tensor.Given
import RecedingHorizon.Proofs.Real

/-!
# Given numbers as real numbers

In exact arithmetic it does not matter whether a number was given as a whole one
or as a scalar: a value that has a scalar computes like that real number, the
order included, and no operation on such values fails but division by zero.

* `Number.toReal`: the real number a given number is.
* `Datum.scalar_eq_ok_iff`: the values that have a scalar.
* `minus_of_scalar`, `times_of_scalar` and so on: their arithmetic.
* `scaleBy_of_scalar`, `divideBy_of_scalar`: arrays with such values.
* `Horizon.length_of_scalar`, `Horizon.step_of_scalar`: the schedule, at any time
  from its start on.
-/

namespace RecedingHorizon

namespace Number

/-- The real number a given number is. -/
def toReal : Number ℝ → ℝ
  | whole n => n
  | real x => x

@[simp] theorem toReal_whole (n : ℤ) : toReal (whole n) = n := rfl

@[simp] theorem toReal_real (x : ℝ) : toReal (real x) = x := rfl

@[simp] theorem ofWhole_eq (n : ℤ) : ofWhole n = (.ok (n : ℝ) : Except (Fault ℝ) ℝ) := rfl

@[simp] theorem scalar_eq (a : Number ℝ) : a.scalar = .ok a.toReal := by
  cases a <;> rfl

/-- An operation that is the same on whole numbers and on scalars. -/
theorem combine_eq {onWhole : ℤ → ℤ → ℤ} {onScalars : ℝ → ℝ → ℝ}
    (h : ∀ m n : ℤ, ((onWhole m n : ℤ) : ℝ) = onScalars m n) (a b : Number ℝ) :
    ∃ c, combine onWhole onScalars a b = .ok c ∧ c.toReal = onScalars a.toReal b.toReal := by
  cases a <;> cases b
  · exact ⟨_, rfl, h _ _⟩
  · exact ⟨_, rfl, rfl⟩
  · exact ⟨_, rfl, rfl⟩
  · exact ⟨_, rfl, rfl⟩

/-- With a scalar on the left an operation has a scalar for its result. -/
theorem combine_real_left (onWhole : ℤ → ℤ → ℤ) (onScalars : ℝ → ℝ → ℝ) (x : ℝ) (b : Number ℝ) :
    combine onWhole onScalars (real x) b = .ok (real (onScalars x b.toReal)) := by
  cases b <;> rfl

/-- With a scalar on the right an operation has a scalar for its result. -/
theorem combine_real_right (onWhole : ℤ → ℤ → ℤ) (onScalars : ℝ → ℝ → ℝ) (a : Number ℝ)
    (y : ℝ) : combine onWhole onScalars a (real y) = .ok (real (onScalars a.toReal y)) := by
  cases a <;> rfl

@[simp] theorem toReal_negate (a : Number ℝ) : a.negate.toReal = -a.toReal := by
  cases a with
  | whole n => exact Int.cast_neg n
  | real x => rfl

theorem isZero_eq_decide (a : Number ℝ) : a.isZero = decide (a.toReal = 0) := by
  cases a with
  | whole n => simp [isZero]
  | real x => rfl

/-- A whole number lies below a scalar if it does so as a real number. -/
theorem exceeds_eq (x : ℝ) (n : ℤ) : Scalar.exceeds x n = decide ((n : ℝ) < x) := by
  have h : Scalar.exceeds x n = decide (n < ⌈x⌉) := rfl
  rw [h]
  exact decide_eq_decide.2 Int.lt_ceil

theorem lt_eq_decide (a b : Number ℝ) : a.lt b = decide (a.toReal < b.toReal) := by
  cases a with
  | whole m =>
      cases b with
      | whole n => simp [lt]
      | real y => exact exceeds_eq y m
  | real x =>
      cases b with
      | whole n =>
          have h : (real x).lt (whole n) = Scalar.exceeds (-x) (-n) := rfl
          rw [h, exceeds_eq]
          refine decide_eq_decide.2 ?_
          rw [Int.cast_neg, neg_lt_neg_iff]
          rfl
      | real y => rfl

theorem isPositive_eq_decide (a : Number ℝ) : a.isPositive = decide (0 < a.toReal) := by
  cases a with
  | whole n => simp [isPositive]
  | real x => rfl

theorem isNonNegative_eq_decide (a : Number ℝ) :
    a.isNonNegative = decide (0 ≤ a.toReal) := by
  cases a with
  | whole n => simp [isNonNegative]
  | real x => rfl

/-- The quotient of two numbers, the second one not zero. -/
theorem quotient_eq (a b : Number ℝ) (hb : b.toReal ≠ 0) :
    a.quotient b = .ok (a.toReal / b.toReal) := by
  have hs : ∀ x y : ℝ, y ≠ 0 → (scalarQuotient x y : Except (Fault ℝ) ℝ) = .ok (x / y) := by
    intro x y hy
    rw [scalarQuotient, if_neg (by simpa using hy)]
  cases a with
  | whole m =>
      cases b with
      | whole n =>
          have hn : n ≠ 0 := by simpa using hb
          rw [quotient, if_neg hn]
          rfl
      | real y => exact hs m y hb
  | real x =>
      cases b with
      | whole n => exact hs x n hb
      | real y => exact hs x y hb

end Number

namespace Datum

variable {a b : Datum ℝ} {x y : ℝ}

/-- A value has a scalar if it stands for a number. -/
theorem scalar_eq_ok_iff : a.scalar = .ok x ↔ ∃ k, a.number? = some k ∧ k.toReal = x := by
  rw [scalar, asNumber]
  cases a.number? with
  | none => simp [bind, Except.bind]
  | some k => simp [bind, Except.bind]

theorem asNumber_of_scalar (h : a.scalar = .ok x) :
    ∃ k, a.asNumber = .ok k ∧ k.toReal = x := by
  obtain ⟨k, hk, hx⟩ := scalar_eq_ok_iff.1 h
  exact ⟨k, by rw [asNumber, hk], hx⟩

/-- A given number with the number it stands for as its scalar. -/
theorem scalar_number_toReal (k : Number ℝ) : (number k).scalar = .ok k.toReal :=
  Number.scalar_eq k

theorem scalar_one : (1 : Datum ℝ).scalar = .ok 1 := congrArg Except.ok Int.cast_one

theorem minus_of_scalar (ha : a.scalar = .ok x) (hb : b.scalar = .ok y) :
    ∃ k, a.minus b = .ok k ∧ k.toReal = x - y := by
  obtain ⟨k, hk, rfl⟩ := asNumber_of_scalar ha
  obtain ⟨l, hl, rfl⟩ := asNumber_of_scalar hb
  rw [minus, hk, hl]
  exact Number.combine_eq Int.cast_sub k l

theorem times_of_scalar (ha : a.scalar = .ok x) (hb : b.scalar = .ok y) :
    ∃ k, a.times b = .ok k ∧ k.toReal = x * y := by
  obtain ⟨k, hk, rfl⟩ := asNumber_of_scalar ha
  obtain ⟨l, hl, rfl⟩ := asNumber_of_scalar hb
  rw [times, hk, hl]
  exact Number.combine_eq Int.cast_mul k l

theorem negate_of_scalar (ha : a.scalar = .ok x) :
    ∃ k, a.negate = .ok k ∧ k.toReal = -x := by
  obtain ⟨k, hk, rfl⟩ := asNumber_of_scalar ha
  exact ⟨k.negate, by rw [negate, hk]; rfl, Number.toReal_negate k⟩

theorem square_of_scalar (ha : a.scalar = .ok x) :
    ∃ k, a.square = .ok k ∧ k.toReal = x * x := by
  obtain ⟨k, hk, rfl⟩ := asNumber_of_scalar ha
  rw [square, hk, ok_bind]
  cases k with
  | whole n => exact ⟨_, rfl, Int.cast_mul n n⟩
  | real x => exact ⟨_, rfl, rfl⟩

theorem quotient_of_scalar (ha : a.scalar = .ok x) (hb : b.scalar = .ok y) (hy : y ≠ 0) :
    a.quotient b = .ok (x / y) := by
  obtain ⟨k, hk, rfl⟩ := asNumber_of_scalar ha
  obtain ⟨l, hl, rfl⟩ := asNumber_of_scalar hb
  rw [quotient, hk, hl]
  exact Number.quotient_eq k l hy

theorem lt_of_scalar (ha : a.scalar = .ok x) (hb : b.scalar = .ok y) :
    a.lt b = .ok (decide (x < y)) := by
  obtain ⟨k, hk, rfl⟩ := asNumber_of_scalar ha
  obtain ⟨l, hl, rfl⟩ := asNumber_of_scalar hb
  rw [lt, hk, hl, ← Number.lt_eq_decide]
  rfl

theorem isZero_of_scalar (ha : a.scalar = .ok x) : a.isZero = decide (x = 0) := by
  obtain ⟨k, hk, rfl⟩ := scalar_eq_ok_iff.1 ha
  rw [isZero, hk]
  exact Number.isZero_eq_decide k

theorem isPositive_of_scalar (ha : a.scalar = .ok x) :
    a.isPositive = .ok (decide (0 < x)) := by
  obtain ⟨k, hk, rfl⟩ := asNumber_of_scalar ha
  rw [isPositive, hk, ← Number.isPositive_eq_decide]
  rfl

theorem isPositive_of_pos (ha : a.scalar = .ok x) (hx : 0 < x) : a.isPositive = .ok true := by
  rw [isPositive_of_scalar ha, decide_eq_true hx]

/-- What is positive has a scalar. -/
theorem scalar_of_isPositive {d : Datum ℝ} (h : d.isPositive = .ok true) :
    ∃ x, d.scalar = .ok x ∧ 0 < x := by
  obtain ⟨k, hk, hpos⟩ := bind_eq_ok_iff.1 h
  refine ⟨k.toReal, ?_, ?_⟩
  · rw [scalar, hk, ok_bind, Number.scalar_eq]
  · rw [Number.isPositive_eq_decide] at hpos
    exact of_decide_eq_true (Except.ok.inj hpos)

theorem scalar_of_isNonNegative {d : Datum ℝ} (h : d.isNonNegative = .ok true) :
    ∃ x, d.scalar = .ok x ∧ 0 ≤ x := by
  obtain ⟨k, hk, hpos⟩ := bind_eq_ok_iff.1 h
  refine ⟨k.toReal, ?_, ?_⟩
  · rw [scalar, hk, ok_bind, Number.scalar_eq]
  · rw [Number.isNonNegative_eq_decide] at hpos
    exact of_decide_eq_true (Except.ok.inj hpos)

end Datum

namespace Tensor

variable {c : Datum ℝ} {x : ℝ}

/-- An array met by a value that has a scalar. -/
theorem meet_of_scalar (op : ℝ → ℝ → ℝ) (a : Tensor ℝ) (hc : c.scalar = .ok x) :
    a.meet op c = .ok (a.map fun y => op y x) := by
  cases c with
  | number k =>
      have h : a.meet op (.number k) =
          (Datum.number k).scalar.map fun c => a.map fun y => op y c := rfl
      rw [h, hc]
      rfl
  | flag b =>
      have h : a.meet op (.flag b) = (Datum.flag b).scalar.map fun c => a.map fun y => op y c := rfl
      rw [h, hc]
      rfl
  | text s => cases hc
  | nothing => cases hc
  | list items => cases hc
  | record names values => cases hc

theorem scaleBy_of_scalar (a : Tensor ℝ) (hc : c.scalar = .ok x) :
    a.scaleBy c = .ok (a.scale x) := meet_of_scalar _ a hc

theorem divideBy_of_scalar (a : Tensor ℝ) (hc : c.scalar = .ok x) :
    a.divideBy c = .ok (a.divide x) := meet_of_scalar _ a hc

theorem minusDatum_of_scalar (a : Tensor ℝ) (hc : c.scalar = .ok x) :
    a.minusDatum c = .ok (a.map fun y => y - x) := meet_of_scalar _ a hc

/-- What has a scalar is no list. -/
theorem scaleItemBy_of_scalar (a : Tensor ℝ) (hc : c.scalar = .ok x) :
    a.scaleItemBy c = .ok (a.scale x) := by
  cases c with
  | number k => exact scaleBy_of_scalar a hc
  | flag b => exact scaleBy_of_scalar a hc
  | text s => cases hc
  | nothing => cases hc
  | list items => cases hc
  | record names values => cases hc

end Tensor

/-! ## The schedule -/

namespace Horizon

/-- The length of a horizon that grows to `T` at rate `a`, a while `s` after its
start. -/
noncomputable def reach (T a s : ℝ) : ℝ := if a = 0 then T else T * (1 - Real.exp (-a * s))

/-- A horizon that does not grow has its length always. -/
@[simp] theorem reach_zero (T s : ℝ) : reach T 0 s = T := if_pos rfl

variable {horizon : Horizon ℝ} {T a t t₀ : ℝ}

theorem length_of_scalar (hT : horizon.finalLength.scalar = .ok T)
    (ha : horizon.growthRate.scalar = .ok a) (hs : horizon.start.scalar = .ok t₀) (ht : t₀ ≤ t) :
    horizon.length t = .ok (reach T a (t - t₀)) := by
  have hlt : (Datum.number (.real t)).lt horizon.start = .ok false := by
    rw [Datum.lt_of_scalar rfl hs, decide_eq_false (not_lt.2 ht)]
  have hz := Datum.isZero_of_scalar ha
  by_cases h0 : a = 0
  · rw [length, hlt, hz, decide_eq_true h0, hT, reach, if_pos h0]
    rfl
  · obtain ⟨k, hk, hkx⟩ := Datum.negate_of_scalar ha
    obtain ⟨l, hl, hlx⟩ := Datum.asNumber_of_scalar hs
    have hminus : (Datum.number (.real t)).minus horizon.start = .ok (.real (t - t₀)) := by
      rw [Datum.minus, hl, ← hlx]
      exact Number.combine_real_left _ _ t l
    have htimes : k.times (.real (t - t₀)) = .ok (.real (-a * (t - t₀))) := by
      rw [← hkx]
      exact Number.combine_real_right _ _ k _
    rw [length, hlt, hz, decide_eq_false h0, hT, reach, if_neg h0, grown, hk, hminus]
    simp only [bind, Except.bind, htimes]
    rfl

/-- The length of one step of a horizon cut into `N` steps, at any time from its start
on. -/
theorem step_of_scalar {N : ℕ} (hT : horizon.finalLength.scalar = .ok T)
    (ha : horizon.growthRate.scalar = .ok a) (hs : horizon.start.scalar = .ok t₀)
    (hN : horizon.divisions = .number (.whole N)) (ht : t₀ ≤ t) :
    horizon.step t = .ok (if N = 0 then 0 else reach T a (t - t₀) / N) := by
  have hz : horizon.divisions.isZero = decide (N = 0) := by
    rw [hN, Datum.isZero_number, Number.isZero]
    exact decide_eq_decide.2 Int.natCast_eq_zero
  rw [step, length_of_scalar hT ha hs ht, hz, hN]
  by_cases h0 : N = 0
  · simp [h0, bind, Except.bind, pure, Except.pure]
  · simp [h0, bind, Except.bind, pure, Except.pure]

end Horizon

end RecedingHorizon

import Mathlib
import RecedingHorizon.Krylov.Solver

/-!
# Real numbers as scalars

Exact arithmetic is the arithmetic of the library read over the real numbers.
Nothing is rounded, every scalar is finite, and the two thresholds of the Krylov
solver are positive numbers.  The operations and the order of the instance are
those of the real field, so that a computation over it is rewritten and solved
like any other expression in real numbers.

Memory is as short for these computations as for any other.  How much of it there is
is left open, so that what is proved of exact computations is true on every machine
with room for a few numbers.

* `exactMemory`: the memory, of any size from a kibibyte on.
* `tiny_pos`, `negligible_pos`: the thresholds are positive.
* `sum_ofFn`, `dot_ofFn`, `norm_ofFn`: sums, inner products and norms of the
  entries of a vector.
-/

namespace RecedingHorizon

open scoped Matrix

/-- The bytes of memory there are for exact computations.  All that is known of them is that there
are enough for a few numbers: the choice can not be opened. -/
noncomputable def exactMemory : {bytes : ℕ // 1024 ≤ bytes} := Classical.choice ⟨1024, le_rfl⟩

noncomputable instance : Scalar ℝ where
  decLt := inferInstance
  decLe := inferInstance
  sqrt := Real.sqrt
  exp := Real.exp
  sin := Real.sin
  cos := Real.cos
  square x := x * x
  hypot a b := √(a ^ 2 + b ^ 2)
  isZero x := decide (x = 0)
  isFinite _ := true
  wholeness x := if x = ⌊x⌋ then .whole ⌊x⌋ else .fraction
  ceil x := ⌈x⌉
  ratio m n := m / n
  memory := exactMemory

@[simp] theorem isZero_eq (x : ℝ) : Scalar.isZero x = decide (x = 0) := rfl

@[simp] theorem isFinite_eq (x : ℝ) : Scalar.isFinite x = true := rfl

@[simp] theorem sqrt_eq (x : ℝ) : Scalar.sqrt x = √x := rfl

@[simp] theorem hypot_eq (a b : ℝ) : Scalar.hypot a b = √(a ^ 2 + b ^ 2) := rfl

/-- What is positive does not equal zero. -/
theorem isZero_of_pos (x : ℝ) (hx : 0 < x) : Scalar.isZero x = false := decide_eq_false hx.ne'

/-- The absolute value of a scalar is that of the number. -/
@[simp] theorem scalar_abs_eq (x : ℝ) : Scalar.abs x = |x| := by
  rw [Scalar.abs]
  split
  · next h => exact (abs_of_neg h).symm
  · next h => exact (abs_of_nonneg (not_lt.1 h)).symm

/-- An array of a few numbers finds room. -/
theorem Tensor.checkRoom_of_lt {extents : List ℤ}
    (hextents : checkExtents extents = (.ok () : Except (Fault ℝ) Unit))
    (hsmall : entryBytes * volume (extents.map Int.toNat) < 1024) :
    checkRoom extents = (.ok () : Except (Fault ℝ) Unit) := by
  have hroom : ¬Scalar.memory ℝ ≤ entryBytes * volume (extents.map Int.toNat) :=
    not_le.2 (hsmall.trans_le exactMemory.2)
  rw [checkRoom, hextents, ok_bind, if_neg hroom]
  rfl

/-- An array of a few zeros is to be had. -/
theorem Tensor.blank_of_lt {extents : List ℤ}
    (hextents : checkExtents extents = (.ok () : Except (Fault ℝ) Unit))
    (hsmall : entryBytes * volume (extents.map Int.toNat) < 1024) :
    blank extents = (.ok (zeros (extents.map Int.toNat)) : Except (Fault ℝ) (Tensor ℝ)) := by
  rw [blank, checkRoom_of_lt hextents hsmall, ok_bind]
  rfl

/-! ## The thresholds -/

/-- A decimal numeral with a positive mantissa is positive. -/
theorem ofScientific_pos {m e : ℕ} (hm : 0 < m) :
    (0 : ℝ) < OfScientific.ofScientific m true e := by
  rw [NNRatCast.ofScientific_eq_ite, if_pos rfl, NNRat.cast_divNat]
  positivity

/-- A decimal numeral whose mantissa has no more digits than are cut off is at most one. -/
theorem ofScientific_le_one {m k e : ℕ} (hm : m ≤ 10 ^ k) (hk : k ≤ e) :
    (OfScientific.ofScientific m true e : ℝ) ≤ 1 := by
  have hle : (m : ℝ) ≤ ((10 ^ e : ℕ) : ℝ) :=
    Nat.cast_le.2 (hm.trans (Nat.pow_le_pow_right (Nat.succ_pos 9) hk))
  rw [NNRatCast.ofScientific_eq_ite, if_pos rfl, NNRat.cast_divNat]
  exact div_le_one_of_le₀ hle (Nat.cast_nonneg _)

theorem tiny_pos : (0 : ℝ) < Scalar.tiny := ofScientific_pos (by norm_num)

theorem tiny_le_one : (Scalar.tiny : ℝ) ≤ 1 :=
  ofScientific_le_one (k := 17) (by norm_num) (by norm_num)

theorem negligible_pos : (0 : ℝ) < Krylov.Workspace.negligible := ofScientific_pos (by norm_num)

/-! ## Sums over the entries of a vector -/

theorem dotProduct_self_nonneg {n : ℕ} (v : Fin n → ℝ) : 0 ≤ v ⬝ᵥ v :=
  Finset.sum_nonneg fun i _ => mul_self_nonneg (v i)

/-- The root of a sum of squares is a norm. -/
theorem sqrt_dotProduct_self {n : ℕ} (v : Fin n → ℝ) :
    √(v ⬝ᵥ v) = ‖WithLp.toLp 2 v‖ := by
  rw [EuclideanSpace.norm_eq]
  refine congrArg Real.sqrt (Finset.sum_congr rfl fun i _ => ?_)
  rw [Real.norm_eq_abs, sq_abs, sq]

/-- The norm of a multiple. -/
theorem sqrt_smul_dotProduct_smul {k : ℕ} (s : ℝ) (f : Fin k → ℝ) :
    √((s • f) ⬝ᵥ (s • f)) = |s| * √(f ⬝ᵥ f) := by
  rw [sqrt_dotProduct_self, sqrt_dotProduct_self, WithLp.toLp_smul, norm_smul, Real.norm_eq_abs]

/-- After a step of decay a vector is at most as long as its multiple and what the step leaves
together. -/
theorem sqrt_sub_smul_le {k : ℕ} (s : ℝ) {d : ℝ} (hd : 0 ≤ d) (f e : Fin k → ℝ) :
    √((s • f - d • e) ⬝ᵥ (s • f - d • e)) ≤ |s| * √(f ⬝ᵥ f) + d * √(e ⬝ᵥ e) := by
  rw [sqrt_dotProduct_self, sqrt_dotProduct_self, sqrt_dotProduct_self]
  calc ‖WithLp.toLp 2 (s • f - d • e)‖
      = ‖s • WithLp.toLp 2 f - d • WithLp.toLp 2 e‖ := rfl
    _ ≤ ‖s • WithLp.toLp 2 f‖ + ‖d • WithLp.toLp 2 e‖ := norm_sub_le _ _
    _ = |s| * ‖WithLp.toLp 2 f‖ + d * ‖WithLp.toLp 2 e‖ := by
        rw [norm_smul, norm_smul, Real.norm_eq_abs, Real.norm_eq_abs, abs_of_nonneg hd]

/-- A step of decay that leaves nothing multiplies the norm. -/
theorem sqrt_sub_smul_eq {k : ℕ} (s d : ℝ) (f : Fin k → ℝ) {e : Fin k → ℝ}
    (he : √(e ⬝ᵥ e) = 0) : √((s • f - d • e) ⬝ᵥ (s • f - d • e)) = |s| * √(f ⬝ᵥ f) := by
  rw [Real.sqrt_eq_zero (dotProduct_self_nonneg e), dotProduct_self_eq_zero] at he
  rw [he, smul_zero, sub_zero, sqrt_smul_dotProduct_smul]

namespace Vec

/-- Summed from left to right, the entries have the sum they have. -/
theorem sum_eq (v : Vec ℝ) : Vec.sum v = List.sum v := by
  rw [Vec.sum, List.sum_eq_foldl]

@[simp] theorem sum_ofFn {n : ℕ} (v : Fin n → ℝ) : Vec.sum (List.ofFn v) = ∑ i, v i := by
  rw [sum_eq, List.sum_ofFn]

theorem mul_ofFn {n : ℕ} (u v : Fin n → ℝ) :
    Vec.mul (List.ofFn u) (List.ofFn v) = List.ofFn fun i => u i * v i := by
  apply List.ext_getElem
  · simp [Vec.mul]
  · simp [Vec.mul]

@[simp] theorem dot_ofFn {n : ℕ} (u v : Fin n → ℝ) :
    Vec.dot (List.ofFn u) (List.ofFn v) = u ⬝ᵥ v := by
  rw [Vec.dot, mul_ofFn, sum_ofFn]
  rfl

@[simp] theorem sumSquares_ofFn {n : ℕ} (v : Fin n → ℝ) :
    Vec.sumSquares (List.ofFn v) = v ⬝ᵥ v := dot_ofFn v v

@[simp] theorem norm_ofFn {n : ℕ} (v : Fin n → ℝ) :
    Vec.norm (List.ofFn v) = √(v ⬝ᵥ v) := by
  rw [Vec.norm, sumSquares_ofFn, sqrt_eq]

/-- A vector of real numbers is finite. -/
@[simp] theorem isFinite_real (v : Vec ℝ) : Vec.isFinite v = true := by
  simp [Vec.isFinite]

theorem isZero_ofFn {n : ℕ} (v : Fin n → ℝ) :
    Vec.isZero (List.ofFn v) = true ↔ v = 0 := by
  simp [Vec.isZero, List.all_eq_true, List.mem_ofFn, funext_iff]

end Vec

/-- Every triangular system of real numbers is finite. -/
theorem Krylov.Workspace.coefficients_eq (w : Krylov.Workspace ℝ) :
    w.coefficients = .ok (Krylov.backSubstitute w.columns.reverse w.settled) :=
  if_pos (by simp)

end RecedingHorizon

import RecedingHorizon.Proofs.Krylov.Termination

/-!
# What the success of a solve is worth

A solve is a success if the residual it reports is within the tolerance, or if the space has stopped
growing.  The first says what it means: the residual of the solution is that part of the residual of
the guess.  The second would say even more if the space stopped growing only where an image leaves
nothing.  But it stops where an image leaves next to nothing *against its own length*, and what the
last rotation leaves of the residual is measured against the diagonal.  The diagonal is no longer
than the image; it may be a great deal shorter.

So the success is worth as much as the operator is well-conditioned.  If it stretches vectors by no
more than `M` and no less than `m`, then what is left of the residual is within the tolerance or
within the threshold times `M / m`.  For an operator that is almost singular on the space this is no
bound at all, and a solve may succeed with nothing done.

* `Workspace.Spans.remainder_sq_le`, `Workspace.Spans.remainder_closed_le`: what is left of the
  residual, before and after the step that ends the growth.
* `solveOperator_converged`: what a success is worth.
* `nearlySingular_converged`: a success with nothing done.
-/

namespace RecedingHorizon

namespace Krylov

open scoped Matrix

open Workspace

section Linear

variable {n : ℕ} {A : Tensor ℝ → Except (Fault ℝ) (Tensor ℝ)}
  {g : (Fin n → ℝ) →ₗ[ℝ] Fin n → ℝ} {r₀ x₀ : Fin n → ℝ} {τ m M : ℝ} {w : Workspace ℝ}
  {us ws : List (Fin n → ℝ)} {v z : Fin n → ℝ} {solver : Solver ℝ} {outcome : Outcome ℝ}

/-! ## What is left of the residual -/

/-- What is left of the residual is a part of it. -/
theorem Workspace.Spans.remainder_sq_le (h : w.Spans g r₀ us v ws z) :
    w.remainder ^ 2 ≤ r₀ ⬝ᵥ r₀ := by
  have hz : combination w.settled ws ⬝ᵥ z = 0 :=
    combination_dotProduct h.frame_turned.concat_orthogonal _
  have hsplit : r₀ ⬝ᵥ r₀ =
      combination w.settled ws ⬝ᵥ combination w.settled ws + w.remainder ^ 2 := by
    rw [h.residual]
    simp only [add_dotProduct, dotProduct_add, smul_dotProduct, dotProduct_smul, smul_eq_mul,
      dotProduct_comm z, hz, h.unit]
    ring
  rw [hsplit]
  exact le_add_of_nonneg_left (dotProduct_self_nonneg _)

/-- A map that shortens no vector to less than its `m`-th part puts no less than `m` on the
diagonal. -/
theorem Workspace.Spans.le_diagonal (h : w.Spans g r₀ us v ws z) (p : w.Parts g us v)
    (h0 : 0 ≤ m) (hm : ∀ v, m * √(v ⬝ᵥ v) ≤ √(g v ⬝ᵥ g v)) : m ≤ p.diagonal := by
  obtain ⟨x, hx, himage⟩ := h.exists_diagonal p
  calc m ≤ m * √(x ⬝ᵥ x) := le_mul_of_one_le_right h0 (Real.one_le_sqrt.2 hx)
    _ ≤ √(g x ⬝ᵥ g x) := hm x
    _ = p.diagonal := by rw [himage, Real.sqrt_sq p.diagonal_nonneg]

/-- A map that lengthens no vector by more than `M` leaves no more than that part of the threshold,
where it leaves next to nothing. -/
theorem Workspace.Spans.height_le (h : w.Spans g r₀ us v ws z) {p : w.Parts g us v}
    (hn : p.Negligible) (hM : ∀ v, √(g v ⬝ᵥ g v) ≤ M * √(v ⬝ᵥ v)) :
    p.height ≤ negligible * M := by
  have himage : Vec.norm (List.ofFn (g v)) ≤ M := by
    have hv := hM v
    rwa [h.frame.concat_unit, Real.sqrt_one, mul_one, ← Vec.norm_ofFn] at hv
  exact hn.trans (mul_le_mul_of_nonneg_left himage negligible_pos.le)

/-- What the step that ends the growth leaves of the residual. -/
theorem Workspace.Spans.remainder_closed_le (h : w.Spans g r₀ us v ws z) {p : w.Parts g us v}
    (hn : p.Negligible) (h0 : 0 < m) (hm : ∀ v, m * √(v ⬝ᵥ v) ≤ √(g v ⬝ᵥ g v))
    (hM : ∀ v, √(g v ⬝ᵥ g v) ≤ M * √(v ⬝ᵥ v)) :
    |p.closed.remainder| ≤ negligible * (M / m) * √(r₀ ⬝ᵥ r₀) := by
  have hdiagonal := h.le_diagonal p h0.le hm
  have hsine : |p.rotation.s| ≤ negligible * (M / m) := by
    have hs : p.rotation.s = p.height / p.diagonal := rfl
    rw [hs, abs_of_nonneg (div_nonneg p.height_nonneg p.diagonal_nonneg), ← mul_div_assoc]
    exact div_le_div₀ (p.height_nonneg.trans (h.height_le hn hM)) (h.height_le hn hM) h0 hdiagonal
  rw [p.remainder_closed, abs_mul, abs_neg]
  exact mul_le_mul hsine (Real.abs_le_sqrt h.remainder_sq_le) (abs_nonneg _)
    ((abs_nonneg _).trans hsine)

/-! ## Successes -/

/-- A success without a breakdown is within the tolerance. -/
theorem Solver.Solved.residualNorm_le (h : solver.Solved g τ r₀ x₀ outcome)
    (hτ : solver.relativeTolerance.scalar = .ok τ) (hlarge : Scalar.tiny ≤ √(r₀ ⬝ᵥ r₀))
    (hconverged : outcome.converged = true) (hbreakdown : outcome.breakdown = false) :
    outcome.residualNorm ≤ τ * √(r₀ ⬝ᵥ r₀) := by
  have hwithin {w : Workspace ℝ} {success : Bool} (hsuccess : success = true)
      (h : solver.within √(r₀ ⬝ᵥ r₀) w = .ok success) : |w.remainder| ≤ τ * √(r₀ ⬝ᵥ r₀) := by
    rw [within_eq hτ, hsuccess] at h
    exact of_decide_eq_true (Except.ok.inj h)
  cases h with
  | exact small => exact absurd small hlarge.not_gt
  | @grown ending w us ws y success _ ended _ _ _ succeeded =>
      cases ended with
      | limit _ _ => exact hwithin hconverged succeeded
      | tolerance _ within => exact within
      | singular _ _ _ => cases hbreakdown
      | breakdown _ _ _ _ => cases hbreakdown

/-- A success with a breakdown is within the threshold times the condition of the map. -/
theorem Solver.Solved.residualNorm_le_of_breakdown (h : solver.Solved g τ r₀ x₀ outcome)
    (hconverged : outcome.converged = true) (hbreakdown : outcome.breakdown = true) (h0 : 0 < m)
    (hm : ∀ v, m * √(v ⬝ᵥ v) ≤ √(g v ⬝ᵥ g v)) (hM : ∀ v, √(g v ⬝ᵥ g v) ≤ M * √(v ⬝ᵥ v)) :
    outcome.residualNorm ≤ negligible * (M / m) * √(r₀ ⬝ᵥ r₀) := by
  cases h with
  | exact _ => cases hbreakdown
  | @grown ending w us ws y success _ ended _ _ _ succeeded =>
      cases ended with
      | limit _ _ => cases hbreakdown
      | tolerance _ _ => cases hbreakdown
      | singular _ _ _ => cases (Except.ok.inj succeeded).trans hconverged
      | breakdown generates p _ hnegligible =>
          exact generates.remainder_closed_le hnegligible h0 hm hM

/-- **What a success is worth.**  For every linear operator, right-hand side, guess and limit, and a
tolerance that is a number, a solve that memory has room for answers.  If it is a success, and the
residual of the guess does not count as zero, then the residual of the solution is within the
tolerance of it, unless the solve has broken down; and in any case it is within the tolerance or
within the threshold times `M / m`, where the operator stretches vectors by `m` to `M`. -/
theorem solveOperator_converged (hA : ∀ v, A (.ofFn v) = .ok (.ofFn (g v))) (b : Fin n → ℝ)
    (guess : Option (Fin n → ℝ)) (limit : Option ℕ) {rtol : Datum ℝ}
    (hτ : rtol.scalar = .ok τ) :
    (Solver.HasRoom n (.number (.whole (limit.getD n : ℕ)) : Datum ℝ) →
      ∃ outcome, solveOperator A (.ofFn b) (guess.map Tensor.ofFn)
        (limit.map fun k : ℕ => .number (.whole k)) rtol = .ok outcome) ∧
    ∀ outcome, solveOperator A (.ofFn b) (guess.map Tensor.ofFn)
        (limit.map fun k : ℕ => .number (.whole k)) rtol = .ok outcome →
      ∃ x, outcome.solution = .ofFn x ∧
        (outcome.converged = true → Scalar.tiny ≤ outcome.initialResidualNorm →
          (outcome.breakdown = false → √((b - g x) ⬝ᵥ (b - g x)) ≤
            τ * √((b - g (guess.getD 0)) ⬝ᵥ (b - g (guess.getD 0)))) ∧
          ∀ m M : ℝ, 0 < m → (∀ v, m * √(v ⬝ᵥ v) ≤ √(g v ⬝ᵥ g v)) →
            (∀ v, √(g v ⬝ᵥ g v) ≤ M * √(v ⬝ᵥ v)) →
            √((b - g x) ⬝ᵥ (b - g x)) ≤ max τ (negligible * (M / m)) *
              √((b - g (guess.getD 0)) ⬝ᵥ (b - g (guess.getD 0)))) := by
  obtain ⟨hanswers, hsolved⟩ := solveOperator_solved hA b guess limit hτ
  refine ⟨hanswers, fun outcome houtcome => ?_⟩
  have hends := hsolved outcome houtcome
  obtain ⟨x, hx, hinitial, hnorm⟩ := hends.norms
  refine ⟨x, hx, fun hconverged hlarge => ?_⟩
  rw [hinitial] at hlarge
  rw [← hnorm]
  refine ⟨hends.residualNorm_le hτ hlarge hconverged, fun m M h0 hm hM => ?_⟩
  have hβ := Real.sqrt_nonneg ((b - g (guess.getD 0)) ⬝ᵥ (b - g (guess.getD 0)))
  cases hbreakdown : outcome.breakdown with
  | false =>
      exact (hends.residualNorm_le hτ hlarge hconverged hbreakdown).trans
        (mul_le_mul_of_nonneg_right (le_max_left _ _) hβ)
  | true =>
      exact (hends.residualNorm_le_of_breakdown hconverged hbreakdown h0 hm hM).trans
        (mul_le_mul_of_nonneg_right (le_max_right _ _) hβ)

/-- Twice a number is to be three: the success is within the tolerance. -/
theorem solveOperator_converged_double :
    ∃ outcome x, solveOperator (fun v => .ok (v.scale 2)) (.ofFn ![(3 : ℝ)]) none none
        (.number (.real 1e-10)) = .ok outcome ∧
      outcome.solution = .ofFn x ∧ outcome.converged = true ∧
      √((![3] - (2 : ℝ) • x) ⬝ᵥ (![3] - (2 : ℝ) • x)) ≤ 1e-10 * √(![3] ⬝ᵥ ![(3 : ℝ)]) := by
  have hrtol : (Datum.number (.real 1e-10)).scalar = (.ok 1e-10 : Except (Fault ℝ) ℝ) := rfl
  have hstretch (v : Fin 1 → ℝ) : √(LinearMap.lsmul ℝ (Fin 1 → ℝ) 2 v ⬝ᵥ
      LinearMap.lsmul ℝ (Fin 1 → ℝ) 2 v) = 2 * √(v ⬝ᵥ v) := by
    rw [LinearMap.lsmul_apply, sqrt_smul_dotProduct_smul, abs_two]
  obtain ⟨hanswers, hworth⟩ := solveOperator_converged (A := fun v => .ok (v.scale 2))
    (scale_eq_ok 2) ![3] none none hrtol
  obtain ⟨outcome, hsolve⟩ := hanswers (Solver.hasRoom_one _)
  obtain ⟨x, hx, hbound⟩ := hworth outcome hsolve
  have hends := (solveOperator_solved (scale_eq_ok 2) ![3] none none hrtol).2 outcome hsolve
  have hconverged := hends.converged hrtol (LinearMap.lsmul_injective two_ne_zero) le_rfl
  obtain ⟨-, -, hinitial, -⟩ := hends.norms
  have hguess : ![(3 : ℝ)] - LinearMap.lsmul ℝ (Fin 1 → ℝ) 2 ((none : Option _).getD 0) = ![3] := by
    rw [Option.getD_none, map_zero, sub_zero]
  have hlarge : Scalar.tiny ≤ outcome.initialResidualNorm := by
    rw [hinitial, hguess]
    exact tiny_le_one.trans (Real.one_le_sqrt.2 (by norm_num))
  have hle := (hbound hconverged hlarge).2 2 2 two_pos (fun v => (hstretch v).ge)
    fun v => (hstretch v).le
  have hmax : max 1e-10 ((negligible : ℝ) * (2 / 2)) = 1e-10 := by
    rw [negligible]
    norm_num
  rw [hguess, hmax] at hle
  exact ⟨outcome, x, hsolve, hx, hconverged, hle⟩

end Linear

/-! ## A success with nothing done -/

/-- A matrix under which the second direction comes back a great deal longer, and with a small part
of a third direction.  Apart from this part, the first two directions would be a space of their own,
and the matrix would be singular on it. -/
def nearlySingular : Matrix (Fin 3) (Fin 3) ℝ := !![0, 0, 1; 1, 10 ^ 13, 0; 0, 1, 0]

namespace nearlySingular

theorem mulVec_first : nearlySingular *ᵥ ![1, 0, 0] = ![0, 1, 0] := by
  ext i
  fin_cases i <;> simp [nearlySingular, Matrix.mulVec, dotProduct, Fin.sum_univ_three]

theorem mulVec_second : nearlySingular *ᵥ ![0, 1, 0] = ![0, 10 ^ 13, 1] := by
  ext i
  fin_cases i <;> simp [nearlySingular, Matrix.mulVec, dotProduct, Fin.sum_univ_three]

variable {w : Workspace ℝ}

/-- The nearly singular matrix takes the first direction to the second one. -/
theorem exists_first (hbasis : w.basis = [List.ofFn ![1, 0, 0]]) (hcolumns : w.columns = []) :
    ∃ p : w.Parts nearlySingular.mulVecLin [] ![1, 0, 0], p.pivot = 0 ∧ p.rest = ![0, 1, 0] := by
  have hdot : ![(0 : ℝ), 1, 0] ⬝ᵥ ![1, 0, 0] = 0 := by simp
  refine ⟨⟨[0], ![0, 1, 0], [], 0, ?_, rfl, ?_, ?_, ?_⟩, rfl, rfl⟩
  · rw [Matrix.mulVecLin_apply, mulVec_first, hbasis, orthogonalize, orthogonalize, Vec.dot_ofFn,
      hdot, Vec.scale_ofFn, Vec.sub_ofFn, zero_smul, sub_zero]
  · rw [Matrix.mulVecLin_apply, mulVec_first, List.nil_append, combination_cons, zero_smul,
      combination_nil, add_zero, zero_add]
  · intro u hu
    rw [List.mem_singleton.1 hu, dotProduct_comm, hdot]
  · rw [hcolumns]
    rfl

/-- The nearly singular matrix takes the second direction to one with a part of a third one, and the
rotated column of this step ends with zero. -/
theorem exists_second (hbasis : w.basis = [List.ofFn ![1, 0, 0], List.ofFn ![0, 1, 0]])
    (hrotations : w.rotations.take w.columns.length = [⟨0, 1⟩]) :
    ∃ p : w.Parts nearlySingular.mulVecLin [![1, 0, 0]] ![0, 1, 0],
      p.pivot = 0 ∧ p.rest = ![0, 0, 1] := by
  have hfirst : ![(0 : ℝ), 10 ^ 13, 1] ⬝ᵥ ![1, 0, 0] = 0 := by simp
  have hsecond : ![(0 : ℝ), 10 ^ 13, 1] ⬝ᵥ ![0, 1, 0] = 10 ^ 13 := by simp
  have hrest : ![(0 : ℝ), 10 ^ 13, 1] - (10 ^ 13 : ℝ) • ![0, 1, 0] = ![0, 0, 1] := by
    ext i
    fin_cases i <;> simp
  refine ⟨⟨[0, 10 ^ 13], ![0, 0, 1], [10 ^ 13], 0, ?_, rfl, ?_, ?_, ?_⟩, rfl, rfl⟩
  · rw [Matrix.mulVecLin_apply, mulVec_second, hbasis, orthogonalize, orthogonalize, orthogonalize,
      Vec.dot_ofFn, hfirst, Vec.scale_ofFn, Vec.sub_ofFn, zero_smul, sub_zero, Vec.dot_ofFn,
      hsecond, Vec.scale_ofFn, Vec.sub_ofFn, hrest]
  · rw [Matrix.mulVecLin_apply, mulVec_second, List.singleton_append, combination_cons,
      combination_cons, combination_nil, zero_smul, add_zero, zero_add, ← hrest, add_sub_cancel]
  · intro u hu
    rcases List.mem_pair.1 hu with rfl | rfl <;> simp
  · rw [hrotations, turnColumn_cons]
    simp [turnColumn]

end nearlySingular

/-- A step without a pivot that leaves a unit turns the remainder into the next place. -/
theorem Workspace.Parts.rotation_of_pivot_eq_zero {n : ℕ} {g : (Fin n → ℝ) → Fin n → ℝ}
    {w : Workspace ℝ} {us : List (Fin n → ℝ)} {v : Fin n → ℝ} {p : w.Parts g us v}
    (hpivot : p.pivot = 0) (hrest : p.rest ⬝ᵥ p.rest = 1) :
    p.height = 1 ∧ p.diagonal = 1 ∧ p.rotation = ⟨0, 1⟩ := by
  have hheight : p.height = 1 := by rw [Parts.height, hrest, Real.sqrt_one]
  have hdiagonal : p.diagonal = 1 := by
    rw [Parts.diagonal, hpivot, hheight, zero_pow two_ne_zero, zero_add, one_pow, Real.sqrt_one]
  refine ⟨hheight, hdiagonal, ?_⟩
  rw [Parts.rotation, hpivot, hheight, hdiagonal, Rotation.toAxis, zero_div, div_one]

/-- A breakdown is a success. -/
theorem Solver.converged_conclude {solver : Solver ℝ} {guess : Tensor ℝ} {β : ℝ} {w : Workspace ℝ}
    {outcome : Outcome ℝ} (h : solver.conclude guess β w .breakdown = .ok outcome) :
    outcome.converged = true := by
  obtain ⟨_, -, h⟩ := bind_eq_ok_iff.1 h
  cases h
  rfl

/-- The rotations of a workspace up to its columns, with one more. -/
theorem Workspace.Parts.take_rotations_grown {n : ℕ} {g : (Fin n → ℝ) → Fin n → ℝ}
    {w : Workspace ℝ} {us : List (Fin n → ℝ)} {v : Fin n → ℝ} (p : w.Parts g us v)
    (hroom : w.columns.length < w.rotations.length) :
    p.grown.rotations.take p.grown.columns.length =
      w.rotations.take w.columns.length ++ [p.rotation] := by
  rw [Parts.grown, length_columns_extended, take_rotations_extended _ _ hroom]

namespace nearlySingular

variable {solver : Solver ℝ}

theorem product_eq (v : Fin 3 → ℝ) :
    (Tensor.ofMatrix nearlySingular).product (.ofFn v) = .ok (.ofFn (nearlySingular.mulVecLin v)) :=
  Tensor.product_ofMatrix _ v

/-- With the nearly singular matrix the solve that starts from the first direction comes to its
second step with all of the residual left. -/
theorem exists_visits (hdim : solver.dim = 3) (hlimit : solver.limit = 3)
    (hτ : solver.relativeTolerance.scalar = .ok 1e-10) :
    ∃ w, solver.Visits (fun v => (Tensor.ofMatrix nearlySingular).product v) (.ofFn ![1, 0, 0])
        (.ofFn (0 : Fin 3 → ℝ)) 1 1 w ∧
      w.basis = [List.ofFn ![1, 0, 0], List.ofFn ![0, 1, 0]] ∧
      w.rotations.take w.columns.length = [⟨0, 1⟩] ∧ w.remainder = -1 := by
  have hunit : ![(1 : ℝ), 0, 0] ⬝ᵥ ![1, 0, 0] = 1 := by simp
  have hnorm : (Tensor.ofFn ![(1 : ℝ), 0, 0]).norm = 1 := by
    rw [Tensor.norm_ofFn, hunit, Real.sqrt_one]
  have hresidual : Equation.operatorResidual
      (fun v => (Tensor.ofMatrix nearlySingular).product v) (.ofFn ![1, 0, 0])
      (.ofFn (0 : Fin 3 → ℝ)) = .ok (.ofFn ![1, 0, 0]) := by
    rw [Equation.operatorResidual_ofFn product_eq, map_zero, sub_zero]
  have hfirst := Solver.Visits.first hresidual (by rw [hnorm]; exact tiny_le_one.not_gt)
    (Solver.vector_divide_ofFn hdim _ _)
  rw [hnorm, inv_one, one_smul] at hfirst
  obtain ⟨w, hw⟩ : ∃ w, w = solver.workspace.cleared.seeded (List.ofFn ![(1 : ℝ), 0, 0]) 1 :=
    ⟨_, rfl⟩
  rw [← hw] at hfirst
  have hstart : w.basis = [List.ofFn ![1, 0, 0]] := by rw [hw]; rfl
  have hcolumns : w.columns = [] := by rw [hw]; rfl
  have hrotations : w.rotations.length = 3 := by
    rw [hw, ← hlimit]
    exact List.length_replicate
  -- the first step leaves all of the image, which is as long as the direction
  obtain ⟨p, hpivot, hrest⟩ := exists_first hstart hcolumns
  obtain ⟨hheight, -, hrotation⟩ := Parts.rotation_of_pivot_eq_zero hpivot
    (show p.rest ⬝ᵥ p.rest = 1 by rw [hrest]; simp)
  have hn : ¬p.Negligible := by
    have himage : Vec.norm (List.ofFn (nearlySingular.mulVecLin ![1, 0, 0])) = 1 := by
      rw [Matrix.mulVecLin_apply, mulVec_first, Vec.norm_ofFn]
      simp
    rw [Parts.Negligible, hheight, himage, mul_one, negligible]
    norm_num
  have hremainder : p.grown.remainder = -1 := by
    rw [p.remainder_grown, hrotation, hw]
    exact mul_one _
  have hstep := (Solver.step_eq hdim hτ 1 p).2.2 hn
  rw [hremainder, if_neg (by norm_num)] at hstep
  refine ⟨p.grown, .next hfirst (by rw [hlimit]; norm_num) ?_ hstep, ?_, ?_, hremainder⟩
  · rw [Workspace.direction, hstart]
    exact product_eq _
  · have hbasis : p.grown.basis = w.basis ++ [Vec.divide (List.ofFn p.rest) p.height] := rfl
    rw [hbasis, hstart, hrest, hheight, Vec.divide_ofFn, inv_one, one_smul]
    rfl
  · rw [p.take_rotations_grown (by rw [hcolumns, hrotations]; norm_num), hrotation, hcolumns]
    rfl

/-- With the nearly singular matrix the solve that starts from the first direction reports a
success, with as much residual as it started with. -/
theorem converged_solve (hdim : solver.dim = 3) (hlimit : solver.limit = 3)
    (hτ : solver.relativeTolerance.scalar = .ok 1e-10) {outcome : Outcome ℝ}
    (h : (solver.solve (Equation.ofOperator
      (fun v => (Tensor.ofMatrix nearlySingular).product v) (.ofFn ![1, 0, 0]) : Equation Id ℝ)
      (some (.ofFn (0 : Fin 3 → ℝ))) solver.workspace).run.1 = .ok outcome) :
    outcome.converged = true ∧ outcome.residualNorm = 1 := by
  obtain ⟨w, hvisits, hbasis, hrotations, hremainder⟩ := exists_visits hdim hlimit hτ
  obtain ⟨p, hpivot, hrest⟩ := exists_second hbasis hrotations
  obtain ⟨hheight, hdiagonal, hrotation⟩ := Parts.rotation_of_pivot_eq_zero hpivot
    (show p.rest ⬝ᵥ p.rest = 1 by rw [hrest]; simp)
  -- one is next to nothing against an image of length `10 ^ 13`
  have hn : p.Negligible := by
    have himage : (10 : ℝ) ^ 13 ≤ Vec.norm (List.ofFn (nearlySingular.mulVecLin ![0, 1, 0])) := by
      rw [Matrix.mulVecLin_apply, mulVec_second, Vec.norm_ofFn]
      refine Real.le_sqrt_of_sq_le ?_
      simp
      norm_num
    rw [Parts.Negligible, hheight]
    refine le_trans ?_ (mul_le_mul_of_nonneg_left himage negligible_pos.le)
    rw [negligible]
    norm_num
  have hstep := (Solver.step_eq hdim hτ 1 p).2.1 (by rw [hdiagonal]; exact one_ne_zero) hn
  have himage : (Tensor.ofMatrix nearlySingular).product (.ofVec w.direction) =
      .ok (.ofFn (nearlySingular.mulVecLin ![0, 1, 0])) := by
    rw [Workspace.direction, hbasis]
    exact product_eq _
  rw [hvisits.solve_eq, hlimit, Solver.run_iterate_ofOperator himage, hstep] at h
  have hclosed : p.closed.remainder = 1 := by
    rw [p.remainder_closed, hrotation, hremainder]
    norm_num
  exact ⟨Solver.converged_conclude h, by rw [Solver.residualNorm_conclude h, hclosed, abs_one]⟩

end nearlySingular

/-- A solve that leaves the whole residual calls itself a success. -/
theorem nearlySingular_converged :
    ∃ outcome x, solveOperator (fun v => (Tensor.ofMatrix nearlySingular).product v)
        (.ofFn ![1, 0, 0]) none none (.number (.real 1e-10)) = .ok outcome ∧
      outcome.solution = .ofFn x ∧ outcome.converged = true ∧
      Scalar.tiny ≤ outcome.initialResidualNorm ∧
      ¬√((![1, 0, 0] - nearlySingular *ᵥ x) ⬝ᵥ (![1, 0, 0] - nearlySingular *ᵥ x)) ≤
        1e-10 * √((![1, 0, 0] - nearlySingular *ᵥ 0) ⬝ᵥ (![1, 0, 0] - nearlySingular *ᵥ 0)) := by
  have hrtol : (Datum.number (.real 1e-10)).scalar = (.ok 1e-10 : Except (Fault ℝ) ℝ) := rfl
  have hroom : Solver.HasRoom 3 (.number (.whole (3 : ℕ)) : Datum ℝ) :=
    Solver.hasRoom_of_le_three le_rfl _
  obtain ⟨hanswers, hsolved⟩ := solveOperator_solved
    (A := fun v => (Tensor.ofMatrix nearlySingular).product v) nearlySingular.product_eq
    ![1, 0, 0] none none hrtol
  obtain ⟨outcome, hsolve⟩ := hanswers hroom
  obtain ⟨x, hx, hinitial, hnorm⟩ := (hsolved outcome hsolve).norms
  have hrun := hsolve
  rw [solveOperator_eq, Option.getD_none, Solver.ofExtents_whole hroom, ok_bind,
    Solver.solve_map rfl] at hrun
  obtain ⟨hconverged, hone⟩ := nearlySingular.converged_solve rfl rfl hrtol hrun
  have hzero : ![(1 : ℝ), 0, 0] - nearlySingular *ᵥ 0 = ![1, 0, 0] := by
    rw [Matrix.mulVec_zero, sub_zero]
  have hunit : √(![(1 : ℝ), 0, 0] ⬝ᵥ ![1, 0, 0]) = 1 := by simp
  refine ⟨outcome, x, hsolve, hx, hconverged, ?_, ?_⟩
  · rw [hinitial, Option.getD_none, Matrix.mulVecLin_apply, hzero, hunit]
    exact tiny_le_one
  · have hleft : √((![1, 0, 0] - nearlySingular *ᵥ x) ⬝ᵥ (![1, 0, 0] - nearlySingular *ᵥ x)) = 1 :=
      hnorm.symm.trans hone
    rw [hleft, hzero, hunit]
    norm_num

end Krylov

end RecedingHorizon

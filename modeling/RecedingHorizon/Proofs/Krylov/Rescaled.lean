import RecedingHorizon.Proofs.Krylov.Solved

/-!
# Units and coordinates

The unknowns of a linear equation and its right-hand side may be measured in units of their own, and
the unknowns may be turned into other orthonormal coordinates.  With `A' = s P A P⁻¹`, `b' = c P b`
and a guess `(c / s) P x₀` the residual of the guess is `c P (b - A x₀)`, and the images of the
directions `P v` are `s P (A v)`: this is one equation carried over to another one, and so the
solves take the same steps.

There is one thing that is measured in absolute units, whether the residual of the guess counts as
nothing.  The two residuals have to be too large for that.  Everything else that a solve compares is
a ratio; the tolerance is one, and so is the share of an image that counts as nothing.

* `isIsometric_of_norm`: what keeps lengths keeps inner products.
* `Outcome.Carried.reduction_eq`: the reduction has no unit.
* `rescaled`, `Solver.solve_rescaled`: the map in other units and coordinates, and its solve.
* `solveOperator_rescaled`: two solves in different units and coordinates.
-/

namespace RecedingHorizon

namespace Krylov

open Stateful

open scoped Matrix

variable {n : ℕ} {s c τ : ℝ}

/-- What keeps lengths keeps inner products. -/
theorem isIsometric_of_norm {P : (Fin n → ℝ) →ₗ[ℝ] Fin n → ℝ} (hP : ∀ v, P v ⬝ᵥ P v = v ⬝ᵥ v) :
    IsIsometric P := by
  intro u v
  have hsum := hP (u + v)
  have hcomm : v ⬝ᵥ u = u ⬝ᵥ v := dotProduct_comm v u
  have hcomm' : P v ⬝ᵥ P u = P u ⬝ᵥ P v := dotProduct_comm (P v) (P u)
  rw [map_add, dotProduct_add, add_dotProduct, add_dotProduct, dotProduct_add, add_dotProduct,
    add_dotProduct, hP, hP, hcomm, hcomm'] at hsum
  linarith

/-- The reduction has no unit. -/
theorem Outcome.Carried.reduction_eq {G : Tensor ℝ → Tensor ℝ → Prop} {o o' : Outcome ℝ}
    (h : o.Carried G c o') (hc : 0 < c) : o'.reduction = o.reduction := by
  have hzero : c * o.initialResidualNorm = 0 ↔ o.initialResidualNorm = 0 :=
    mul_eq_zero_iff_left hc.ne'
  rw [Outcome.reduction, Outcome.reduction, h.initialResidualNorm, h.residualNorm, isZero_eq,
    isZero_eq, mul_div_mul_left _ _ hc.ne']
  simp only [hzero]

section Rescaled

variable {A A' : Tensor ℝ → Except (Fault ℝ) (Tensor ℝ)} {g : (Fin n → ℝ) →ₗ[ℝ] Fin n → ℝ}
  {P : (Fin n → ℝ) ≃ₗ[ℝ] Fin n → ℝ} {b x₀ r : Fin n → ℝ}

/-- The map in other units and coordinates. -/
noncomputable def rescaled (s : ℝ) (P : (Fin n → ℝ) ≃ₗ[ℝ] Fin n → ℝ)
    (g : (Fin n → ℝ) →ₗ[ℝ] Fin n → ℝ) : (Fin n → ℝ) →ₗ[ℝ] Fin n → ℝ :=
  s • (P.toLinearMap ∘ₗ g ∘ₗ P.symm.toLinearMap)

theorem rescaled_apply (v : Fin n → ℝ) : rescaled s P g v = s • P (g (P.symm v)) := rfl

theorem residual_rescaled (hs : 0 < s) (b x₀ : Fin n → ℝ) :
    c • P b - rescaled s P g ((c / s) • P x₀) = c • P (b - g x₀) := by
  rw [rescaled_apply, map_smul, map_smul, map_smul, P.symm_apply_apply, smul_smul,
    mul_div_cancel₀ _ hs.ne', map_sub, smul_sub]

/-- Residuals in different units belong together if none of them counts as nothing. -/
theorem carriedResidual_smul (hP : IsIsometric P.toLinearMap) (hc : 0 < c)
    (hlarge : Scalar.tiny ≤ √(r ⬝ᵥ r)) (hlarge' : Scalar.tiny ≤ c * √(r ⬝ᵥ r)) :
    CarriedResidual P.toLinearMap c (.ofFn r) (.ofFn (c • P r)) := by
  have hnorm : (Tensor.ofFn (c • P r)).norm = c * (Tensor.ofFn r).norm := by
    rw [Tensor.norm_ofFn, Tensor.norm_ofFn]
    exact norm_carried hP hc r
  have hfirst (r : Fin n → ℝ) (β : ℝ) :
      ((Tensor.ofFn r).divide β).vector n = .ok (List.ofFn (β⁻¹ • r)) := by
    have hdim : (⟨n, 0, .nothing⟩ : Solver ℝ).dim = n := rfl
    exact Solver.vector_divide_ofFn hdim r β
  refine ⟨hnorm, ?_, ?_⟩
  · rw [hnorm, Tensor.norm_ofFn]
    exact iff_of_false (not_lt.2 hlarge') (not_lt.2 hlarge)
  · rw [hnorm, hfirst, hfirst]
    refine .ok ⟨_, rfl, congrArg List.ofFn ?_⟩
    show _ = P _
    rw [map_smul, smul_smul, mul_inv_rev, mul_assoc, inv_mul_cancel₀ hc.ne', mul_one]

/-- Two solves of one solver from guesses that belong together. -/
theorem Solver.solve_rescaled {solver : Solver ℝ} (hdim : solver.dim = n) (hs : 0 < s) (hc : 0 < c)
    (hP : IsIsometric P.toLinearMap) (hA : ∀ v, A (.ofFn v) = .ok (.ofFn (g v)))
    (hA' : ∀ v, A' (.ofFn v) = .ok (.ofFn (rescaled s P g v)))
    (hlarge : Scalar.tiny ≤ √((b - g x₀) ⬝ᵥ (b - g x₀)))
    (hlarge' : Scalar.tiny ≤ c * √((b - g x₀) ⬝ᵥ (b - g x₀))) :
    Tally Eq
      (Outcome.Carried (fun a a' => ∃ x, a = .ofFn x ∧ a' = .ofFn ((c / s) • P x)) c)
      (solver.solve (Equation.ofOperator A (.ofFn b) : Equation Id ℝ) (some (.ofFn x₀))
        solver.workspace).run.1
      (solver.solve (Equation.ofOperator A' (.ofFn (c • P b)) : Equation Id ℝ)
        (some (.ofFn ((c / s) • P x₀))) solver.workspace).run.1 := by
  have hresidual : Abreast (Eq : Unit → Unit → Prop) Eq (CarriedResidual P.toLinearMap c)
      ((Equation.ofOperator A (.ofFn b)).residual (.ofFn x₀))
      ((Equation.ofOperator A' (.ofFn (c • P b))).residual (.ofFn ((c / s) • P x₀))) := by
    intro _ _ _
    have hasked : Equation.operatorResidual A' (.ofFn (c • P b)) (.ofFn ((c / s) • P x₀)) =
        .ok (.ofFn (c • P (b - g x₀))) := by
      rw [Equation.operatorResidual_ofFn hA', residual_rescaled hs]
    refine ⟨?_, rfl⟩
    show Tally Eq _ (Equation.operatorResidual A _ _) (Equation.operatorResidual A' _ _)
    rw [Equation.operatorResidual_ofFn hA, hasked]
    exact .ok (carriedResidual_smul hP hc hlarge hlarge')
  have himage (v : Fin n → ℝ) : Abreast (Eq : Unit → Unit → Prop) Eq
      (CarriedImage P.toLinearMap s) ((Equation.ofOperator A (.ofFn b)).image (.ofFn v))
      ((Equation.ofOperator A' (.ofFn (c • P b))).image (.ofFn (P v))) := by
    intro _ _ _
    refine ⟨?_, rfl⟩
    show Tally Eq _ (A (.ofFn v)) (A' (.ofFn (P v)))
    rw [hA, hA', rescaled_apply, P.symm_apply_apply]
    exact .ok (.inl ⟨g v, rfl, rfl⟩)
  have hrotations : solver.workspace.rotations.length = solver.limit := List.length_replicate
  have hincrease (u : Fin n → ℝ) :
      Tally (Eq : Fault ℝ → Fault ℝ → Prop)
        (fun a a' => ∃ x, a = .ofFn x ∧ a' = .ofFn ((c / s) • P x))
        ((Tensor.ofFn x₀).increase (.ofFn u))
        ((Tensor.ofFn ((c / s) • P x₀)).increase (.ofFn ((c / s) • P u))) := by
    rw [Tensor.increase_ofFn, Tensor.increase_ofFn, ← smul_add, ← map_add]
    exact .ok ⟨x₀ + u, rfl, rfl⟩
  have hrun := solve_carried (fun _ => rfl) hP hs hc hdim hdim rfl rfl (some (.ofFn x₀))
    (some (.ofFn ((c / s) • P x₀))) ⟨x₀, rfl, rfl⟩ hincrease hresidual himage hrotations hrotations
    (rfl : () = ())
  have hanswer := hrun.answer
  rw [Equation.ofOperator_run, Equation.ofOperator_run] at hanswer
  exact hanswer

/-- **Units and coordinates do not matter.**  For every linear map, right-hand side, guess and
limit, a tolerance that is a number, every isometry and all units: two solves in different units and
coordinates that memory has room for answer, and unless one of the residuals of the guesses counts
as nothing, they have used as many directions and report the same flags and the same reduction; what
is left is measured in the unit of the right-hand side, and the solution is the same one. -/
theorem solveOperator_rescaled (hA : ∀ v, A (.ofFn v) = .ok (.ofFn (g v)))
    (P : (Fin n → ℝ) ≃ₗ[ℝ] Fin n → ℝ) (hP : ∀ v, P v ⬝ᵥ P v = v ⬝ᵥ v) (hs : 0 < s) (hc : 0 < c)
    (hA' : ∀ v, A' (.ofFn v) = .ok (.ofFn (s • P (g (P.symm v))))) (b : Fin n → ℝ)
    (guess : Option (Fin n → ℝ)) (limit : Option ℕ) {rtol : Datum ℝ}
    (hτ : rtol.scalar = .ok τ) :
    (Solver.HasRoom n (.number (.whole (limit.getD n : ℕ)) : Datum ℝ) →
      ∃ o o', solveOperator A (.ofFn b) (guess.map Tensor.ofFn)
          (limit.map fun k : ℕ => .number (.whole k)) rtol = .ok o ∧
        solveOperator A' (.ofFn (c • P b)) (guess.map fun x₀ => Tensor.ofFn ((c / s) • P x₀))
          (limit.map fun k : ℕ => .number (.whole k)) rtol = .ok o') ∧
    ∀ o o', solveOperator A (.ofFn b) (guess.map Tensor.ofFn)
          (limit.map fun k : ℕ => .number (.whole k)) rtol = .ok o →
        solveOperator A' (.ofFn (c • P b)) (guess.map fun x₀ => Tensor.ofFn ((c / s) • P x₀))
          (limit.map fun k : ℕ => .number (.whole k)) rtol = .ok o' →
      Scalar.tiny ≤ o.initialResidualNorm → Scalar.tiny ≤ o'.initialResidualNorm →
      o'.iterations = o.iterations ∧ o'.converged = o.converged ∧ o'.breakdown = o.breakdown ∧
        o'.reduction = o.reduction ∧ o'.initialResidualNorm = c * o.initialResidualNorm ∧
        o'.residualNorm = c * o.residualNorm ∧
        ∃ x, o.solution = .ofFn x ∧ o'.solution = .ofFn ((c / s) • P x) := by
  have hguess : (guess.map fun x₀ => Tensor.ofFn ((c / s) • P x₀)) =
      (guess.map fun x₀ => (c / s) • P x₀).map Tensor.ofFn := by
    rw [Option.map_map]
    rfl
  have hstart : (guess.map fun x₀ => (c / s) • P x₀).getD 0 = (c / s) • P (guess.getD 0) := by
    cases guess with
    | none => exact (smul_zero (c / s)).symm.trans (congrArg _ (map_zero P).symm)
    | some x₀ => rfl
  obtain ⟨hanswers, hsolved⟩ := solveOperator_solved hA b guess limit hτ
  obtain ⟨hanswers', hsolved'⟩ := solveOperator_solved (g := rescaled s P g) hA' (c • P b)
    (guess.map fun x₀ => (c / s) • P x₀) limit hτ
  rw [← hguess] at hanswers' hsolved'
  constructor
  · intro hroom
    obtain ⟨o, ho⟩ := hanswers hroom
    obtain ⟨o', ho'⟩ := hanswers' hroom
    exact ⟨o, o', ho, ho'⟩
  · intro o o' ho ho' hlarge hlarge'
    have hisometric : IsIsometric P.toLinearMap := isIsometric_of_norm hP
    obtain ⟨_, -, hnorm, -⟩ := (hsolved o ho).norms
    obtain ⟨_, -, hnorm', -⟩ := (hsolved' o' ho').norms
    rw [hstart, residual_rescaled hs] at hnorm'
    rw [hnorm] at hlarge
    rw [hnorm'.trans (norm_carried hisometric hc _)] at hlarge'
    rw [solveOperator_eq] at ho
    rw [hguess, solveOperator_eq] at ho'
    obtain ⟨solver, hsolver, hrun⟩ := bind_eq_ok_iff.1 ho
    obtain ⟨_, hsolver', hrun'⟩ := bind_eq_ok_iff.1 ho'
    obtain rfl := Except.ok.inj (hsolver.symm.trans hsolver')
    have hdim : solver.dim = n := (Solver.dim_ofExtents hsolver).1
    rw [Solver.solve_map hdim] at hrun
    rw [Solver.solve_map hdim, hstart] at hrun'
    have houtcomes := Solver.solve_rescaled hdim hs hc hisometric hA hA' hlarge hlarge'
    rw [hrun, hrun'] at houtcomes
    cases houtcomes with
    | ok h => exact ⟨h.iterations, h.converged, h.breakdown, h.reduction_eq hc,
        h.initialResidualNorm, h.residualNorm, h.solution⟩

/-- The two coordinates of the plane exchanged. -/
def exchange : (Fin 2 → ℝ) ≃ₗ[ℝ] Fin 2 → ℝ := LinearEquiv.funCongrLeft ℝ ℝ Fin.revPerm

theorem exchange_eq (v : Fin 2 → ℝ) : exchange v = ![v 1, v 0] :=
  funext (Fin.forall_fin_two.2 ⟨rfl, rfl⟩)

theorem exchange_symm_eq (v : Fin 2 → ℝ) : exchange.symm v = ![v 1, v 0] :=
  funext (Fin.forall_fin_two.2 ⟨rfl, rfl⟩)

theorem dotProduct_exchange (v : Fin 2 → ℝ) : exchange v ⬝ᵥ exchange v = v ⬝ᵥ v := by
  simp [exchange_eq, dotProduct, Fin.sum_univ_two, add_comm]

/-- A shear, and three times the shear with its axes exchanged. -/
theorem solveOperator_rescaled_shear :
    ∃ (o o' : Outcome ℝ) (x : Fin 2 → ℝ),
      solveOperator (fun v => (Tensor.ofMatrix !![1, 1; 0, 1]).product v) (.ofFn ![3, 4]) none none
        (.number (.real 0)) = .ok o ∧
      solveOperator (fun v => (Tensor.ofMatrix !![3, 0; 3, 3]).product v) (.ofFn ![8, 6]) none none
        (.number (.real 0)) = .ok o' ∧
      o.solution = .ofFn x ∧ o'.solution = .ofFn ((2 / 3 : ℝ) • exchange x) ∧
      o'.iterations = o.iterations ∧ o'.reduction = o.reduction ∧
      o'.residualNorm = 2 * o.residualNorm := by
  have hrtol : (Datum.number (.real 0)).scalar = (.ok 0 : Except (Fault ℝ) ℝ) := rfl
  have hproduct (M : Matrix (Fin 2) (Fin 2) ℝ) (v : Fin 2 → ℝ) :
      (Tensor.ofMatrix M).product (.ofFn v) = .ok (.ofFn (M.mulVecLin v)) :=
    Tensor.product_ofMatrix M v
  have hlarge (M : Matrix (Fin 2) (Fin 2) ℝ) (b : Fin 2 → ℝ) (hb : 1 ≤ b ⬝ᵥ b) (o : Outcome ℝ)
      (ho : solveOperator (fun v => (Tensor.ofMatrix M).product v) (.ofFn b) none none
        (.number (.real 0)) = .ok o) : Scalar.tiny ≤ o.initialResidualNorm := by
    obtain ⟨_, -, hnorm, -⟩ := ((solveOperator_solved (hproduct M) b none none hrtol).2 o ho).norms
    rw [hnorm, Option.getD_none, map_zero, sub_zero]
    exact tiny_le_one.trans (Real.one_le_sqrt.2 hb)
  have hexchanged (v : Fin 2 → ℝ) : (Tensor.ofMatrix !![3, 0; 3, 3]).product (.ofFn v) =
      .ok (.ofFn ((3 : ℝ) • exchange (Matrix.mulVecLin !![1, 1; 0, 1] (exchange.symm v)))) := by
    rw [hproduct]
    congr 2
    ext i
    fin_cases i <;> simp [exchange_eq, exchange_symm_eq, dotProduct, Fin.sum_univ_two]
    ring
  have hb : (2 : ℝ) • exchange ![3, 4] = ![8, 6] := by
    ext i
    fin_cases i <;> norm_num [exchange_eq]
  obtain ⟨hanswers, hcarried⟩ := solveOperator_rescaled (hproduct !![1, 1; 0, 1]) exchange
    dotProduct_exchange three_pos two_pos hexchanged ![3, 4] none none hrtol
  rw [hb] at hanswers hcarried
  obtain ⟨o, o', ho, ho'⟩ := hanswers (Solver.hasRoom_two _)
  obtain ⟨hiterations, -, -, hreduction, -, hnorm, x, hx, hx'⟩ := hcarried o o' ho ho'
    (hlarge _ _ (by norm_num [dotProduct, Fin.sum_univ_two]) o ho)
    (hlarge _ _ (by norm_num [dotProduct, Fin.sum_univ_two]) o' ho')
  exact ⟨o, o', x, ho, ho', hx, hx', hiterations, hreduction, hnorm⟩

end Rescaled

end Krylov

end RecedingHorizon

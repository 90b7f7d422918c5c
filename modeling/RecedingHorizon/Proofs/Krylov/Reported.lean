import RecedingHorizon.Proofs.Accepted
import RecedingHorizon.Proofs.Consistent

/-!
# What a solve of a linear operator reports

A solve reports two norms, that of the residual of its guess and that of the residual of its
solution.  It measures the first one.  The second is never measured: it is what the rotations
have left of the right-hand side.  In exact arithmetic both are the norms they are said to be,
`‖b - A x₀‖` and `‖b - A x‖`, for every linear operator and whichever way the growth of the space
ends.

What a workspace explains when the growth ends is known from the growth itself.  Left to say is
what belongs to the solve as a whole: that the guess is measured before anything else, and that
an equation that remembers nothing, as that of an operator, is solved in the same way beside any
memory.

* `Solver.initialResidualNorm_of_run`: what is reported of the guess.
* `Equation.withMemory`, `Solver.solve_withMemory`: a solve without a memory and one beside a
  memory; `Equation.ofOperator_run` is that of an operator.
* `Solver.solve_ofOperator`: both norms, for a solver of any limit and tolerance.
* `solveOperator_residualNorm`: the same for an operator, a right-hand side and a guess.
-/

namespace RecedingHorizon

namespace Krylov

open Stateful

open scoped Matrix

/-! ## The guess -/

namespace Solver

variable {σ α : Type} [Scalar α] {solver : Solver α} {β : α} {guess : Tensor α} {w : Workspace α}
  {outcome : Outcome α}

theorem initialResidualNorm_conclude {ending : Ending}
    (h : solver.conclude guess β w ending = .ok outcome) : outcome.initialResidualNorm = β := by
  obtain ⟨_, -, h⟩ := bind_eq_ok_iff.1 h
  obtain ⟨_, -, h⟩ := bind_eq_ok_iff.1 h
  cases h
  rfl

/-- The norm that is reported of the guess is that of its residual. -/
theorem initialResidualNorm_of_run {equation : Equation (StateM σ) α} {residual : Tensor α}
    {μ₀ μ : σ} (hresidual : runOn (equation.residual guess) μ₀ = (.ok residual, μ))
    (hsolve : ((solver.solve equation (some guess) w).run μ₀).1.1 = .ok outcome) :
    outcome.initialResidualNorm = residual.norm := by
  have hresidual : (equation.residual guess).run.run μ₀ = (.ok residual, μ) := hresidual
  rw [solve, run_bind, Option.getD_some, hresidual] at hsolve
  dsimp only at hsolve
  by_cases htiny : residual.norm < Scalar.tiny
  · rw [if_pos htiny] at hsolve
    cases hsolve
    rfl
  · rw [if_neg htiny] at hsolve
    rcases hfirst : (residual.divide residual.norm).vector solver.dim with fault | first
    · rw [hfirst] at hsolve
      cases hsolve
    · rw [hfirst] at hsolve
      obtain ⟨ending, -, hconclude⟩ := bind_eq_ok_iff.1 hsolve
      exact initialResidualNorm_conclude hconclude

end Solver

/-! ## A solve beside a memory -/

section Memory

variable {σ α : Type}

/-- An equation that remembers nothing, beside a memory that stays as it is. -/
def Equation.withMemory (σ : Type) (equation : Equation Id α) : Equation (StateM σ) α where
  residual guess := ExceptT.mk (pure (equation.residual guess).run.run)
  image direction := ExceptT.mk (pure (equation.image direction).run.run)

variable [Scalar α] {equation : Equation Id α}

/-- Beside any memory the space grows in the same way. -/
theorem Solver.iterate_withMemory (solver : Solver α) (β : α) (left : Nat) (w : Workspace α)
    (s : σ) :
    (solver.iterate (equation.withMemory σ) β left w).run s =
      ((solver.iterate equation β left w).run, s) := by
  induction left generalizing w with
  | zero => rfl
  | succ left ih =>
      have himage : ((equation.withMemory σ).image (.ofVec w.direction)).run.run s =
          ((equation.image (.ofVec w.direction)).run.run, s) := rfl
      rw [iterate, iterate, run_bind, himage, Id.run_bind]
      rcases (equation.image (.ofVec w.direction)).run.run with fault | image
      · rfl
      · dsimp only
        rcases solver.step β image w with ⟨_ | _ | _, w'⟩
        · rfl
        · exact ih w'
        · rfl

/-- Beside any memory an equation is solved in the same way. -/
theorem Solver.solve_withMemory (solver : Solver α) (guess : Option (Tensor α)) (w : Workspace α)
    (s : σ) :
    (solver.solve (equation.withMemory σ) guess w).run s =
      ((solver.solve equation guess w).run, s) := by
  have hresidual (guess : Tensor α) : ((equation.withMemory σ).residual guess).run.run s =
      ((equation.residual guess).run.run, s) := rfl
  rw [Solver.solve, Solver.solve, run_bind, hresidual, Id.run_bind]
  rcases (equation.residual (guess.getD (Tensor.zeros [solver.dim]))).run.run with fault | residual
  · rfl
  · dsimp only
    split
    · rfl
    · rcases (residual.divide residual.norm).vector solver.dim with fault | first
      · rfl
      · dsimp only
        rw [run_bind, Solver.iterate_withMemory]
        rfl

/-- An operator remembers nothing. -/
theorem Equation.ofOperator_run {A : Tensor α → Except (Fault α) (Tensor α)} {b : Tensor α}
    (solver : Solver α) (guess : Option (Tensor α)) (w : Workspace α) (s : σ) :
    (solver.solve (Equation.ofOperator A b : Equation (StateM σ) α) guess w).run s =
      ((solver.solve (Equation.ofOperator A b : Equation Id α) guess w).run, s) := by
  have hsame : (Equation.ofOperator A b : Equation (StateM σ) α) =
      (Equation.ofOperator A b : Equation Id α).withMemory σ := rfl
  rw [hsame, Solver.solve_withMemory]

end Memory

section Linear

variable {n : ℕ} {A : Tensor ℝ → Except (Fault ℝ) (Tensor ℝ)}
  {g : (Fin n → ℝ) →ₗ[ℝ] Fin n → ℝ} {τ : ℝ}

/-- The residual of a guess, zero or not. -/
theorem Equation.operatorResidual_ofFn (hA : ∀ v, A (.ofFn v) = .ok (.ofFn (g v)))
    (b x₀ : Fin n → ℝ) :
    operatorResidual A (.ofFn b) (.ofFn x₀) = .ok (.ofFn (b - g x₀)) := by
  unfold operatorResidual
  split
  · next hzero => rw [Tensor.isZero_ofFn.1 hzero, map_zero, sub_zero]
  · rw [hA, ok_bind, Tensor.minus_ofFn]

/-- A solve answers, and the norms it reports are those of the residuals of the guess and of the
solution. -/
theorem Solver.solve_ofOperator {solver : Solver ℝ} (hdim : solver.dim = n)
    (hτ : solver.relativeTolerance.scalar = .ok τ)
    (hA : ∀ v, A (.ofFn v) = .ok (.ofFn (g v))) (b x₀ : Fin n → ℝ) {w : Workspace ℝ}
    (hw : w.rotations.length = solver.limit) :
    ∃ outcome x, (solver.solve (Equation.ofOperator A (.ofFn b) : Equation Id ℝ)
        (some (.ofFn x₀)) w).run.1 = .ok outcome ∧ outcome.solution = .ofFn x ∧
      outcome.initialResidualNorm = √((b - g x₀) ⬝ᵥ (b - g x₀)) ∧
      outcome.residualNorm = √((b - g x) ⬝ᵥ (b - g x)) := by
  have hresidual : runOn ((Equation.ofOperator A (.ofFn b) :
      Equation (StateM Unit) ℝ).residual (.ofFn x₀)) () = (.ok (.ofFn (b - g x₀)), ()) :=
    congrArg (·, ()) (Equation.operatorResidual_ofFn hA b x₀)
  obtain ⟨outcome, w', x, hrun, -, hx, hnorm⟩ := solve_spec hdim hτ hresidual
    (fun v => congrArg (·, ()) (hA v)) hw
  have hsolve := congrArg (fun run => run.1.1) hrun
  refine ⟨outcome, x, ?_, hx, ?_, ?_⟩
  · rw [Equation.ofOperator_run] at hsolve
    exact hsolve
  · rw [initialResidualNorm_of_run hresidual hsolve, Tensor.norm, Tensor.entries_ofFn,
      Vec.norm_ofFn]
  · rw [hnorm ⟨g.map_add, g.map_smul⟩, map_sub, sub_sub, add_sub_cancel]

/-- **The reported residual is the true one.**  For every linear operator, right-hand side, guess
and limit, and a tolerance that is a number, a solve that memory has room for answers; and
whatever it answers, it reports the norm of the residual of its guess and that of the residual of
its solution. -/
theorem solveOperator_residualNorm (hA : ∀ v, A (.ofFn v) = .ok (.ofFn (g v))) (b : Fin n → ℝ)
    (guess : Option (Fin n → ℝ)) (limit : Option ℕ) {rtol : Datum ℝ}
    (hτ : rtol.scalar = .ok τ) :
    (Solver.HasRoom n (.number (.whole (limit.getD n : ℕ)) : Datum ℝ) →
      ∃ outcome, solveOperator A (.ofFn b) (guess.map Tensor.ofFn)
        (limit.map fun k : ℕ => .number (.whole k)) rtol = .ok outcome) ∧
    ∀ outcome, solveOperator A (.ofFn b) (guess.map Tensor.ofFn)
        (limit.map fun k : ℕ => .number (.whole k)) rtol = .ok outcome →
      ∃ x, outcome.solution = .ofFn x ∧
        outcome.initialResidualNorm =
          √((b - g (guess.getD 0)) ⬝ᵥ (b - g (guess.getD 0))) ∧
        outcome.residualNorm = √((b - g x) ⬝ᵥ (b - g x)) := by
  have hlimit : (limit.map fun k : ℕ => (.number (.whole k) : Datum ℝ)).getD (.number (.whole n)) =
      .number (.whole (limit.getD n : ℕ)) := by
    cases limit with
    | none => rfl
    | some k => rfl
  -- what a solver of the right size answers, from a guess or from zero
  have hsolved (solver : Solver ℝ) (hdim : solver.dim = n)
      (hrtol : solver.relativeTolerance = rtol) :
      ∃ outcome x, (solver.solve (Equation.ofOperator A (.ofFn b) : Equation Id ℝ)
          (guess.map Tensor.ofFn) solver.workspace).run.1 = .ok outcome ∧
        outcome.solution = .ofFn x ∧
        outcome.initialResidualNorm =
          √((b - g (guess.getD 0)) ⬝ᵥ (b - g (guess.getD 0))) ∧
        outcome.residualNorm = √((b - g x) ⬝ᵥ (b - g x)) := by
    have hfresh : solver.workspace.rotations.length = solver.limit := List.length_replicate
    have hspec (x₀ : Fin n → ℝ) := Solver.solve_ofOperator hdim (hrtol ▸ hτ) hA b x₀ hfresh
    cases guess with
    | some x₀ => exact hspec x₀
    | none =>
        have hzero : (Tensor.zeros [solver.dim] : Tensor ℝ) = .ofFn (0 : Fin n → ℝ) := by
          rw [hdim, Tensor.zeros_eq_ofFn]
          rfl
        have hspec := hspec 0
        rw [← hzero] at hspec
        exact hspec
  have hcount : (Tensor.ofFn b).count = (.ok n : Except (Fault ℝ) ℕ) := Tensor.count_ofFn b
  unfold solveOperator
  rw [hcount, ok_bind]
  dsimp only
  rw [hlimit]
  constructor
  · intro hroom
    obtain ⟨l, hl⟩ : ∃ l : ℕ, (.number (.whole (limit.getD n : ℕ)) : Datum ℝ).atMost
        (.number (.whole n)) = .ok (.number (.whole l)) := by
      by_cases hlt : n < limit.getD n
      · refine ⟨n, ?_⟩
        rw [Datum.atMost, Datum.lt_number, Number.lt, decide_eq_true (Int.ofNat_lt.2 hlt)]
        rfl
      · refine ⟨limit.getD n, ?_⟩
        rw [Datum.atMost, Datum.lt_number, Number.lt,
          decide_eq_false fun h => hlt (Int.ofNat_lt.1 h)]
        rfl
    rw [Solver.exists_ofExtents hroom hl, ok_bind]
    obtain ⟨outcome, x, hrun, -⟩ := hsolved ⟨n, l, rtol⟩ rfl rfl
    exact ⟨outcome, hrun⟩
  · intro outcome h
    obtain ⟨solver, hsolver, hrun⟩ := bind_eq_ok_iff.1 h
    obtain ⟨hdim, hrtol⟩ := Solver.dim_ofExtents hsolver
    obtain ⟨outcome', x, hrun', hspec⟩ := hsolved solver hdim hrtol
    obtain rfl : outcome' = outcome := Except.ok.inj (hrun'.symm.trans hrun)
    exact ⟨x, hspec⟩

/-- Twice a number is to be three: the guess one misses it by one. -/
theorem solveOperator_residualNorm_double :
    ∃ outcome x, solveOperator (fun v => .ok (v.scale 2)) (.ofFn ![3])
        (some (.ofFn ![1])) (some 1) (.number (.real 0)) = .ok outcome ∧
      outcome.solution = .ofFn x ∧ outcome.initialResidualNorm = 1 ∧
      outcome.residualNorm = √((![3] - (2 : ℝ) • x) ⬝ᵥ (![3] - (2 : ℝ) • x)) := by
  have hdouble (v : Fin 1 → ℝ) : (.ok ((Tensor.ofFn v).scale 2) : Except (Fault ℝ) (Tensor ℝ)) =
      .ok (.ofFn (((2 : ℝ) • LinearMap.id : (Fin 1 → ℝ) →ₗ[ℝ] Fin 1 → ℝ) v)) :=
    congrArg Except.ok (Tensor.scale_ofFn 2 v)
  have hrtol : (Datum.number (.real 0)).scalar = (.ok 0 : Except (Fault ℝ) ℝ) := rfl
  obtain ⟨hanswers, hreports⟩ := solveOperator_residualNorm (A := fun v => .ok (v.scale 2)) hdouble
    ![3] (some ![1]) (some 1) hrtol
  obtain ⟨outcome, hsolve⟩ := hanswers (Solver.hasRoom_one _)
  obtain ⟨x, hx, hinitial, hresidual⟩ := hreports outcome hsolve
  refine ⟨outcome, x, hsolve, hx, hinitial.trans ?_, hresidual⟩
  have hgap : (![3] - (2 : ℝ) • ![1] : Fin 1 → ℝ) = ![1] := by
    ext i
    norm_num
  have hunit : (![1] : Fin 1 → ℝ) ⬝ᵥ ![1] = 1 := by simp
  show √((![3] - (2 : ℝ) • ![1]) ⬝ᵥ (![3] - (2 : ℝ) • ![1])) = 1
  rw [hgap, hunit, Real.sqrt_one]

end Linear

end Krylov

end RecedingHorizon

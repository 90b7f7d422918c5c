import RecedingHorizon.Proofs.Krylov.Embedded
import RecedingHorizon.Proofs.Krylov.Growth
import RecedingHorizon.Proofs.Krylov.Reported

/-!
# How the solve of a linear operator ends

The solve of an operator is laid out with the smaller of two numbers of directions, the one that is
asked for and the dimension, and starts from the guess, or from zero without one.  Where memory has
room for it, it answers, and the answer is one that a growth of the Krylov space comes to: this is
all that is known of the answer, and what is said of it is said of the ways in which a growth ends.

* `Solver.ofExtents_whole`, `Solver.eq_of_ofExtents_whole`: the solver that is laid out.
* `Solver.Solved.residualNorm_eq`, `Solver.Solved.norms`: the norms an outcome reports.
* `solveOperator_solved`: the solve of an operator; `scale_eq_ok` is an operator.
-/

namespace RecedingHorizon

namespace Krylov

open Stateful

open scoped Matrix

variable {n : ℕ} {A : Tensor ℝ → Except (Fault ℝ) (Tensor ℝ)}
  {g : (Fin n → ℝ) →ₗ[ℝ] Fin n → ℝ} {τ : ℝ}

namespace Solver

/-! ## The solver -/

/-- A solver uses no more directions than there are dimensions. -/
theorem ofExtents_whole {k : ℕ} {rtol : Datum ℝ}
    (hroom : HasRoom n (.number (.whole k) : Datum ℝ)) :
    ofExtents (.number (.whole n)) (.number (.whole k)) rtol = .ok ⟨n, min k n, rtol⟩ := by
  refine exists_ofExtents hroom ?_
  rw [Datum.atMost, Datum.lt_number, Number.lt, ok_bind]
  rcases lt_or_ge n k with hlt | hle
  · rw [decide_eq_true (Int.ofNat_lt.2 hlt), Nat.min_eq_right hlt.le]
    rfl
  · rw [decide_eq_false fun h => (Int.ofNat_lt.1 h).not_ge hle, Nat.min_eq_left hle]
    rfl

theorem eq_of_ofExtents_whole {k : ℕ} {rtol : Datum ℝ} {solver : Solver ℝ}
    (h : ofExtents (.number (.whole n)) (.number (.whole k)) rtol = .ok solver) :
    solver = ⟨n, min k n, rtol⟩ := by
  obtain ⟨hdim, hrtol⟩ := dim_ofExtents h
  have hlimit : solver.limit = min k n := by
    rcases limit_ofExtents h with ⟨hlt, hlimit⟩ | ⟨l, hl, hle, hlimit⟩
    · have hlt : (n : ℤ) < k := of_decide_eq_true (Except.ok.inj hlt)
      rw [hlimit, Int.toNat_natCast, Nat.min_eq_right (Int.ofNat_lt.1 hlt).le]
    · cases hl
      rw [hlimit, Int.toNat_natCast, Nat.min_eq_left (Int.ofNat_le.1 hle)]
  obtain ⟨dim, limit, relativeTolerance⟩ := solver
  obtain rfl : dim = n := hdim
  obtain rfl : limit = min k dim := hlimit
  obtain rfl : relativeTolerance = rtol := hrtol
  rfl

/-! ## Its outcome -/

/-- The norm that is reported in the end is that of what the solution leaves. -/
theorem Solved.residualNorm_eq {solver : Solver ℝ} {r₀ x₀ : Fin n → ℝ} {outcome : Outcome ℝ}
    (h : solver.Solved g τ r₀ x₀ outcome) :
    ∃ x, outcome.solution = .ofFn (x₀ + x) ∧
      outcome.residualNorm = √((r₀ - g x) ⬝ᵥ (r₀ - g x)) := by
  cases h with
  | exact _ => exact ⟨0, by rw [add_zero]; rfl, by rw [map_zero, sub_zero]; rfl⟩
  | @grown ending w us ws y success _ _ projects _ reached _ =>
      refine ⟨combination y us, rfl, ?_⟩
      rw [reached, projects.norm, Real.sqrt_sq_eq_abs]

/-- The norms that are reported of an outcome. -/
theorem Solved.norms {solver : Solver ℝ} {b x₀ : Fin n → ℝ} {outcome : Outcome ℝ}
    (h : solver.Solved g τ (b - g x₀) x₀ outcome) :
    ∃ x, outcome.solution = .ofFn x ∧
      outcome.initialResidualNorm = √((b - g x₀) ⬝ᵥ (b - g x₀)) ∧
      outcome.residualNorm = √((b - g x) ⬝ᵥ (b - g x)) := by
  obtain ⟨x, hx, hnorm⟩ := h.residualNorm_eq
  refine ⟨x₀ + x, hx, ?_, by rw [hnorm, map_add, sub_sub]⟩
  cases h with
  | exact _ => rfl
  | grown _ _ _ _ _ _ => rfl

/-- A solve starts from its guess, or from zero. -/
theorem solve_map {m : Type → Type} [Monad m] {solver : Solver ℝ} (hdim : solver.dim = n)
    (equation : Equation m ℝ) (guess : Option (Fin n → ℝ)) (w : Workspace ℝ) :
    solver.solve equation (guess.map Tensor.ofFn) w =
      solver.solve equation (some (.ofFn (guess.getD 0))) w := by
  cases guess with
  | none => exact solve_none hdim equation w
  | some x₀ => rfl

/-- The solve of an operator ends as solves of linear equations do. -/
theorem solve_solved {solver : Solver ℝ} (hdim : solver.dim = n)
    (hτ : solver.relativeTolerance.scalar = .ok τ)
    (hA : ∀ v, A (.ofFn v) = .ok (.ofFn (g v))) (b : Fin n → ℝ) (guess : Option (Fin n → ℝ)) :
    ∃ outcome, (solver.solve (Equation.ofOperator A (.ofFn b) : Equation Id ℝ)
        (guess.map Tensor.ofFn) solver.workspace).run.1 = .ok outcome ∧
      solver.Solved g τ (b - g (guess.getD 0)) (guess.getD 0) outcome := by
  have hresidual : runOn ((Equation.ofOperator A (.ofFn b) :
      Equation (StateM Unit) ℝ).residual (.ofFn (guess.getD 0))) () =
        (.ok (.ofFn (b - g (guess.getD 0))), ()) :=
    congrArg (·, ()) (Equation.operatorResidual_ofFn hA b (guess.getD 0))
  obtain ⟨outcome, w, hrun, hsolved⟩ := solve_ended hdim hτ hresidual
    (fun v => congrArg (·, ()) (hA v)) (w := solver.workspace) List.length_replicate
  rw [← solve_map hdim, Equation.ofOperator_run] at hrun
  exact ⟨outcome, congrArg (fun run => run.1.1) hrun, hsolved⟩

end Solver

/-- The solve of an operator is that of the solver it lays out. -/
theorem solveOperator_eq (b : Fin n → ℝ) (guess : Option (Fin n → ℝ)) (limit : Option ℕ)
    (rtol : Datum ℝ) :
    solveOperator A (.ofFn b) (guess.map Tensor.ofFn)
        (limit.map fun k : ℕ => .number (.whole k)) rtol =
      Solver.ofExtents (.number (.whole n)) (.number (.whole (limit.getD n : ℕ))) rtol >>=
        fun solver => (solver.solve (Equation.ofOperator A (.ofFn b) : Equation Id ℝ)
          (guess.map Tensor.ofFn) solver.workspace).run.1 := by
  have hcount : (Tensor.ofFn b).count = (.ok n : Except (Fault ℝ) ℕ) := Tensor.count_ofFn b
  rw [solveOperator, hcount, ok_bind]
  cases limit <;> rfl

/-- Where memory has room, the solve of an operator answers; and whatever it answers, its growth
has ended in one of the ways there are. -/
theorem solveOperator_solved (hA : ∀ v, A (.ofFn v) = .ok (.ofFn (g v))) (b : Fin n → ℝ)
    (guess : Option (Fin n → ℝ)) (limit : Option ℕ) {rtol : Datum ℝ}
    (hτ : rtol.scalar = .ok τ) :
    (Solver.HasRoom n (.number (.whole (limit.getD n : ℕ)) : Datum ℝ) →
      ∃ outcome, solveOperator A (.ofFn b) (guess.map Tensor.ofFn)
        (limit.map fun k : ℕ => .number (.whole k)) rtol = .ok outcome) ∧
    ∀ outcome, solveOperator A (.ofFn b) (guess.map Tensor.ofFn)
        (limit.map fun k : ℕ => .number (.whole k)) rtol = .ok outcome →
      Solver.Solved ⟨n, min (limit.getD n) n, rtol⟩ g τ (b - g (guess.getD 0)) (guess.getD 0)
        outcome := by
  have hdim : (⟨n, min (limit.getD n) n, rtol⟩ : Solver ℝ).dim = n := rfl
  obtain ⟨answer, hanswer, hsolved⟩ := Solver.solve_solved hdim hτ hA b guess
  rw [solveOperator_eq]
  constructor
  · intro hroom
    rw [Solver.ofExtents_whole hroom]
    exact ⟨answer, hanswer⟩
  · intro outcome h
    obtain ⟨solver, hsolver, hrun⟩ := bind_eq_ok_iff.1 h
    obtain rfl := Solver.eq_of_ofExtents_whole hsolver
    obtain rfl : answer = outcome := Except.ok.inj (hanswer.symm.trans hrun)
    exact hsolved

/-- Scaling is an operator, and it answers with the multiple. -/
theorem scale_eq_ok (a : ℝ) (v : Fin n → ℝ) :
    (.ok ((Tensor.ofFn v).scale a) : Except (Fault ℝ) (Tensor ℝ)) =
      .ok (.ofFn (LinearMap.lsmul ℝ (Fin n → ℝ) a v)) :=
  congrArg Except.ok (Tensor.scale_ofFn a v)

end Krylov

end RecedingHorizon

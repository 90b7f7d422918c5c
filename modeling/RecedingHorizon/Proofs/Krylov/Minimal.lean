import RecedingHorizon.Proofs.Krylov.Solved

/-!
# The residual of a solve is the smallest

A solve of a linear operator looks for its solution in the guess plus a Krylov space of the
residual, and what it finds there is the best there is: no other vector of this space leaves a
smaller residual.

The directions in use are orthonormal vectors of a Krylov space with no more dimensions than there
are directions, and so they span it.  What the solution leaves is orthogonal to the images of the
directions, hence to that of the whole space, and any other choice adds to it the length of an
image.

* `krylov_eq_span`: the Krylov space by the directions.
* `Workspace.Projects.minimal`: the projection is the closest of the images.
* `Solver.Solved.minimal`, `Solver.Solved.residualNorm_le_of_mem`: what a solve leaves.
* `solveOperator_minimal`: the outcome of the solve of an operator.
-/

namespace RecedingHorizon

namespace Krylov

open scoped Matrix

variable {n : ℕ} {g : (Fin n → ℝ) →ₗ[ℝ] Fin n → ℝ} {r₀ x₀ : Fin n → ℝ} {τ : ℝ}

/-- Orthonormal vectors of a Krylov space that are as many as its powers span it. -/
theorem krylov_eq_span {us : List (Fin n → ℝ)} (h : Frame us)
    (hus : ∀ u ∈ us, u ∈ krylov g r₀ us.length) :
    krylov g r₀ us.length = Submodule.span ℝ {u | u ∈ us} :=
  le_antisymm (h.le_span hus (finrank_krylov_le us.length)) (Submodule.span_le.2 hus)

/-- Of all images of vectors that the directions span, what is settled comes closest to the
residual. -/
theorem Workspace.Projects.minimal {w : Workspace ℝ} {us ws : List (Fin n → ℝ)}
    (h : w.Projects g r₀ us ws) {x z : Fin n → ℝ} (hx : x ∈ Submodule.span ℝ {u | u ∈ us})
    (hreached : g x = combination w.settled ws) (hz : z ∈ Submodule.span ℝ {u | u ∈ us}) :
    (r₀ - g x) ⬝ᵥ (r₀ - g x) ≤ (r₀ - g z) ⬝ᵥ (r₀ - g z) := by
  have horthogonal : g (x - z) ⬝ᵥ (r₀ - g x) = 0 := by
    rw [hreached]
    exact h.orthogonal_image (Submodule.sub_mem _ hx hz)
  have hsplit : r₀ - g z = (r₀ - g x) + g (x - z) := by
    rw [map_sub, sub_add_sub_cancel]
  calc (r₀ - g x) ⬝ᵥ (r₀ - g x)
      ≤ (r₀ - g x) ⬝ᵥ (r₀ - g x) + g (x - z) ⬝ᵥ g (x - z) :=
        le_add_of_nonneg_right (dotProduct_self_nonneg _)
    _ = (r₀ - g z) ⬝ᵥ (r₀ - g z) := by
        rw [hsplit, add_dotProduct, dotProduct_add, dotProduct_add,
          dotProduct_comm (r₀ - g x) (g (x - z)), horthogonal, add_zero, zero_add]

/-- What a solve leads to lies in the Krylov space of as many powers as there were iterations, and
there it leaves the smallest residual. -/
theorem Solver.Solved.minimal {solver : Solver ℝ} {outcome : Outcome ℝ}
    (h : solver.Solved g τ r₀ x₀ outcome) :
    ∃ x, outcome.solution = .ofFn (x₀ + x) ∧ x ∈ krylov g r₀ outcome.iterations ∧
      ∀ z ∈ krylov g r₀ outcome.iterations,
        (r₀ - g x) ⬝ᵥ (r₀ - g x) ≤ (r₀ - g z) ⬝ᵥ (r₀ - g z) := by
  cases h with
  | exact _ =>
      refine ⟨0, by rw [add_zero]; rfl, Submodule.zero_mem _, fun z hz => ?_⟩
      -- no power at all leaves only zero
      have hz : z ∈ krylov g r₀ 0 := hz
      rw [krylov_zero, Submodule.mem_bot] at hz
      rw [hz]
  | @grown ending w us ws y success _ _ projects generated reached _ =>
      have hlength : w.columns.length = us.length := by
        simpa using projects.reaches.length_eq.symm
      have hspan := krylov_eq_span projects.directions generated
      refine ⟨combination y us, rfl, ?_, fun z hz => ?_⟩
      · show combination y us ∈ krylov g r₀ w.columns.length
        rw [hlength]
        exact combination_mem generated y
      · have hz : z ∈ krylov g r₀ w.columns.length := hz
        rw [hlength, hspan] at hz
        exact projects.minimal (combination_mem (fun u hu => Submodule.subset_span hu) y) reached hz

/-- No vector of the Krylov space leaves less than the norm that is reported. -/
theorem Solver.Solved.residualNorm_le_of_mem {solver : Solver ℝ} {outcome : Outcome ℝ}
    (h : solver.Solved g τ r₀ x₀ outcome) {z : Fin n → ℝ}
    (hz : z ∈ krylov g r₀ outcome.iterations) :
    outcome.residualNorm ≤ √((r₀ - g z) ⬝ᵥ (r₀ - g z)) := by
  obtain ⟨x, hx, hnorm⟩ := h.residualNorm_eq
  obtain ⟨x', hx', -, hle⟩ := h.minimal
  obtain rfl := add_left_cancel (Tensor.ofFn_injective (hx.symm.trans hx'))
  rw [hnorm]
  exact Real.sqrt_le_sqrt (hle z hz)

/-- **The residual is minimal.**  For every linear operator, right-hand side, guess and limit, and a
tolerance that is a number, a solve that memory has room for answers; and whatever it answers, its
solution lies in the guess plus the Krylov space of the residual of the guess, with as many powers
as there were iterations, and nothing in that space leaves a smaller residual. -/
theorem solveOperator_minimal {A : Tensor ℝ → Except (Fault ℝ) (Tensor ℝ)}
    (hA : ∀ v, A (.ofFn v) = .ok (.ofFn (g v))) (b : Fin n → ℝ) (guess : Option (Fin n → ℝ))
    (limit : Option ℕ) {rtol : Datum ℝ} (hτ : rtol.scalar = .ok τ) :
    (Solver.HasRoom n (.number (.whole (limit.getD n : ℕ)) : Datum ℝ) →
      ∃ outcome, solveOperator A (.ofFn b) (guess.map Tensor.ofFn)
        (limit.map fun k : ℕ => .number (.whole k)) rtol = .ok outcome) ∧
    ∀ outcome, solveOperator A (.ofFn b) (guess.map Tensor.ofFn)
        (limit.map fun k : ℕ => .number (.whole k)) rtol = .ok outcome →
      ∃ x, outcome.solution = .ofFn x ∧
        x - guess.getD 0 ∈ krylov g (b - g (guess.getD 0)) outcome.iterations ∧
        ∀ z, z - guess.getD 0 ∈ krylov g (b - g (guess.getD 0)) outcome.iterations →
          √((b - g x) ⬝ᵥ (b - g x)) ≤ √((b - g z) ⬝ᵥ (b - g z)) := by
  obtain ⟨hanswers, hsolved⟩ := solveOperator_solved hA b guess limit hτ
  refine ⟨hanswers, fun outcome houtcome => ?_⟩
  obtain ⟨x, hsolution, hx, hminimal⟩ := (hsolved outcome houtcome).minimal
  refine ⟨guess.getD 0 + x, hsolution, by rwa [add_sub_cancel_left], fun z hz => ?_⟩
  have hresidual (v : Fin n → ℝ) :
      b - g (guess.getD 0) - g (v - guess.getD 0) = b - g v := by
    rw [map_sub, sub_sub, add_sub_cancel]
  have hle := hminimal _ hz
  rw [hresidual, ← add_sub_cancel_left (guess.getD 0) x, hresidual] at hle
  exact Real.sqrt_le_sqrt hle

/-- A shear, with one direction for two dimensions: the best multiple of the right-hand side. -/
theorem solveOperator_minimal_shear :
    ∃ outcome x, solveOperator (fun v => (Tensor.ofMatrix !![1, 1; 0, 1]).product v)
        (.ofFn ![0, 1]) none (some 1) (.number (.real 0)) = .ok outcome ∧
      outcome.solution = .ofFn x ∧
      x ∈ krylov (Matrix.mulVecLin !![1, 1; 0, 1]) ![0, 1] outcome.iterations ∧
      ∀ z ∈ krylov (Matrix.mulVecLin !![1, 1; 0, 1]) ![0, 1] outcome.iterations,
        √((![0, 1] - !![1, 1; 0, 1] *ᵥ x) ⬝ᵥ (![0, 1] - !![1, 1; 0, 1] *ᵥ x)) ≤
          √((![0, 1] - !![1, 1; 0, 1] *ᵥ z) ⬝ᵥ (![0, 1] - !![1, 1; 0, 1] *ᵥ z)) := by
  have hshear (v : Fin 2 → ℝ) : (Tensor.ofMatrix !![1, 1; 0, 1]).product (.ofFn v) =
      .ok (.ofFn (Matrix.mulVecLin !![1, 1; 0, 1] v)) := Tensor.product_ofMatrix _ v
  have hrtol : (Datum.number (.real 0)).scalar = (.ok 0 : Except (Fault ℝ) ℝ) := rfl
  obtain ⟨hanswers, hminimal⟩ := solveOperator_minimal
    (A := fun v => (Tensor.ofMatrix !![1, 1; 0, 1]).product v) hshear ![0, 1] none (some 1) hrtol
  obtain ⟨outcome, hsolve⟩ := hanswers (Solver.hasRoom_two _)
  obtain ⟨x, hsolution, hx, hle⟩ := hminimal outcome hsolve
  have hguess : (none : Option (Fin 2 → ℝ)).getD 0 = 0 := rfl
  rw [hguess, map_zero, sub_zero, sub_zero] at hx
  refine ⟨outcome, x, hsolve, hsolution, hx, fun z hz => hle z ?_⟩
  rwa [hguess, map_zero, sub_zero, sub_zero]

end Krylov

end RecedingHorizon

import RecedingHorizon.Proofs.Lagrangian

/-!
# The gradients of the Hamiltonian

The Hamiltonian of a stage is its cost with the dynamics weighted by a costate and the
constraints by their multipliers.  A model of a stage never computes it: it answers with what
is put together from the partial derivatives of the stage, the Jacobians transposed.  These
answers are the derivatives of the Hamiltonian in the state and in the action.  An action is
control and multipliers in one vector, so the second derivative has two parts, and that in the
multipliers is the constraint itself.

* `SmoothStage.hamiltonian`, with `isGradient_state` and `isGradient_action`: its gradients are
  the responses of the stage.
* `Model.Differentiates`, `StageModel.Evaluates.differentiates`: so it is with the answers of
  a model.
* `Regulator.hamiltonian`, `Regulator.differentiates`: regulators with symmetric weights, at
  times that need not be real numbers.
-/

namespace RecedingHorizon

open scoped Matrix

variable {n m c : ℕ}

/-! ## The Hamiltonian of a stage -/

/-- The control depends linearly on the action, and so do the multipliers. -/
theorem hasFDerivAt_control (a : Fin (m + c) → ℝ) :
    HasFDerivAt control (LinearMap.toContinuousLinearMap (LinearMap.funLeft ℝ ℝ (Fin.castAdd c)))
      a :=
  (LinearMap.toContinuousLinearMap (LinearMap.funLeft ℝ ℝ (Fin.castAdd c))).hasFDerivAt

theorem hasFDerivAt_multipliers (a : Fin (m + c) → ℝ) :
    HasFDerivAt multipliers (LinearMap.toContinuousLinearMap (LinearMap.funLeft ℝ ℝ (Fin.natAdd m)))
      a :=
  (LinearMap.toContinuousLinearMap (LinearMap.funLeft ℝ ℝ (Fin.natAdd m))).hasFDerivAt

namespace SmoothStage

variable (s : SmoothStage n m c) (x : Fin n → ℝ) (a : Fin (m + c) → ℝ) (l : Fin n → ℝ) (t : ℝ)

/-- What a step of a smooth stage costs, with the rate of the state weighted by the costate. -/
def hamiltonian : ℝ := s.stageCost x a t + l ⬝ᵥ s.dynamics x (control a) t

/-- The gradient of the Hamiltonian of a smooth stage in the state. -/
theorem isGradient_state :
    IsGradient (fun x => s.hamiltonian x a l t) (s.responses.stateGradient x a l t) x := by
  have hcost := (s.cost_partials x (control a) t).byState
  have hforce := hasFDerivAt_dotProduct (hasFDerivAt_const (multipliers a) x)
    (s.constraint_partials x (control a) t).byState
  have hflow := hasFDerivAt_dotProduct (hasFDerivAt_const l x)
    (s.dynamics_partials x (control a) t).byState
  refine .of_hasFDerivAt ((hcost.add hforce).add hflow) fun y => ?_
  -- multipliers and costate do not change with the state
  show s.costByState x (control a) t ⬝ᵥ y +
      (s.constraint x (control a) t ⬝ᵥ 0 +
        multipliers a ⬝ᵥ s.constraintByState x (control a) t *ᵥ y) +
      (s.dynamics x (control a) t ⬝ᵥ 0 + l ⬝ᵥ s.dynamicsByState x (control a) t *ᵥ y) = _
  simp only [responses, add_dotProduct, transpose_mulVec_dotProduct, dotProduct_zero, zero_add]
  exact add_right_comm _ _ _

/-- The gradient of the Hamiltonian of a smooth stage in the control and the multipliers. -/
theorem isGradient_action :
    IsGradient (fun a => s.hamiltonian x a l t) (s.responses.controlGradient x a l t) a := by
  have hu := hasFDerivAt_control a
  have hcost := (s.cost_partials x (control a) t).byControl.comp a hu
  have hforce := hasFDerivAt_dotProduct (hasFDerivAt_multipliers a)
    ((s.constraint_partials x (control a) t).byControl.comp a hu)
  have hflow := hasFDerivAt_dotProduct (hasFDerivAt_const l a)
    ((s.dynamics_partials x (control a) t).byControl.comp a hu)
  refine .of_hasFDerivAt ((hcost.add hforce).add hflow) fun b => ?_
  show s.costByControl x (control a) t ⬝ᵥ control b +
      (s.constraint x (control a) t ⬝ᵥ multipliers b +
        multipliers a ⬝ᵥ s.constraintByControl x (control a) t *ᵥ control b) +
      (s.dynamics x (control a) t ⬝ᵥ 0 +
        l ⬝ᵥ s.dynamicsByControl x (control a) t *ᵥ control b) = _
  simp only [responses, append_dotProduct, add_dotProduct, transpose_mulVec_dotProduct,
    dotProduct_zero, zero_add]
  ring

end SmoothStage

/-- At this state, action and costate the model answers with the gradients of `H`. -/
structure Model.Differentiates {d : ℕ} (model : Model ℝ) (H : (Fin n → ℝ) → (Fin d → ℝ) → ℝ)
    (x : Fin n → ℝ) (a : Fin d → ℝ) (l : Fin n → ℝ) (t : Datum ℝ) : Prop where
  state : ∃ v, model.stateGradient (.ofFn x) (.ofFn a) (.ofFn l) t = .ok (.ofFn v) ∧
    IsGradient (fun x => H x a) v x
  action : ∃ v, model.controlGradient (.ofFn x) (.ofFn a) (.ofFn l) t = .ok (.ofFn v) ∧
    IsGradient (H x) v a

/-- A stage that evaluates a smooth one answers with the gradients of its Hamiltonian. -/
theorem StageModel.Evaluates.differentiates {stage : StageModel ℝ} {s : SmoothStage n m c}
    (hs : stage.Evaluates s) (x : Fin n → ℝ) (a : Fin (m + c) → ℝ) (l : Fin n → ℝ) (t : ℝ) :
    stage.toModel.Differentiates (fun x a => s.hamiltonian x a l t) x a l t where
  state := ⟨_, hs.stateGradient x a l t, s.isGradient_state x a l t⟩
  action := ⟨_, hs.controlGradient x a l t, s.isGradient_action x a l t⟩

/-! ## The Hamiltonian of a regulator -/

namespace Regulator

variable (g : Regulator n m)

/-- What a step of a regulator costs, with the rate of its state weighted by the costate. -/
noncomputable def hamiltonian (x : Fin n → ℝ) (u : Fin m → ℝ) (l : Fin n → ℝ) : ℝ :=
  halfSquare g.Q (x - g.reference) + halfSquare g.R u + l ⬝ᵥ (g.A *ᵥ x + g.B *ᵥ u)

variable {g} (hQ : g.Q.IsSymm) (hR : g.R.IsSymm) (hF : g.F.IsSymm)

/-- The Hamiltonian of a regulator as a smooth stage has no constraints to be weighted, and is its
own. -/
theorem hamiltonian_smooth (x : Fin n → ℝ) (a : Fin (m + 0) → ℝ) (l : Fin n → ℝ) (t : ℝ) :
    (g.smooth hQ hR hF).hamiltonian x a l t = g.hamiltonian x (control a) l := by
  show halfSquare g.Q (x - g.reference) + halfSquare g.R (control a) + multipliers a ⬝ᵥ 0 +
    l ⬝ᵥ (g.A *ᵥ x + g.B *ᵥ control a) = _
  rw [dotProduct_zero, add_zero, hamiltonian]

/-- The responses of a regulator as a smooth stage are its own. -/
theorem responses_smooth : (g.smooth hQ hR hF).responses = g.responses := by
  have hstate : (g.smooth hQ hR hF).responses.stateGradient = g.responses.stateGradient := by
    funext x a l t
    show g.Q *ᵥ (x - g.reference) + g.Aᵀ *ᵥ l +
      (0 : Matrix (Fin 0) (Fin n) ℝ)ᵀ *ᵥ multipliers a = _
    rw [Matrix.transpose_zero, Matrix.zero_mulVec, add_zero]
    rfl
  have haction : (g.smooth hQ hR hF).responses.controlGradient = g.responses.controlGradient := by
    funext x a l t
    have hforce : (0 : Matrix (Fin 0) (Fin m) ℝ)ᵀ *ᵥ multipliers a = 0 := by
      rw [Matrix.transpose_zero, Matrix.zero_mulVec]
    show Fin.append (g.R *ᵥ control a + g.Bᵀ *ᵥ l +
      (0 : Matrix (Fin 0) (Fin m) ℝ)ᵀ *ᵥ multipliers a) (0 : Fin 0 → ℝ) = _
    rw [hforce, add_zero (g.R *ᵥ control a + g.Bᵀ *ᵥ l),
      Subsingleton.elim (0 : Fin 0 → ℝ) Fin.elim0, Fin.append_elim0]
    rfl
  rw [Responses.mk.injEq]
  exact ⟨rfl, rfl, hstate, haction⟩

include hQ hR hF

theorem isGradient_state (x : Fin n → ℝ) (u : Fin m → ℝ) (l : Fin n → ℝ) :
    IsGradient (fun x => g.hamiltonian x u l) (g.Q *ᵥ (x - g.reference) + g.Aᵀ *ᵥ l) x := by
  have h := (g.smooth hQ hR hF).isGradient_state x u l 0
  simp only [hamiltonian_smooth, responses_smooth] at h
  exact h

theorem isGradient_control (x : Fin n → ℝ) (u : Fin m → ℝ) (l : Fin n → ℝ) :
    IsGradient (fun u => g.hamiltonian x u l) (g.R *ᵥ u + g.Bᵀ *ᵥ l) u := by
  have h := (g.smooth hQ hR hF).isGradient_action x u l 0
  simp only [hamiltonian_smooth, responses_smooth] at h
  exact h

/-- The model of a regulator with symmetric weights answers with the gradients of its Hamiltonian.
-/
theorem differentiates (x : Fin n → ℝ) (u : Fin m → ℝ) (l : Fin n → ℝ) (t : Datum ℝ) :
    g.model.Differentiates (fun x u => g.hamiltonian x u l) x u l t where
  state := ⟨_, g.stateGradient_model x u l t, isGradient_state hQ hR hF x u l⟩
  action := ⟨_, g.controlGradient_model x u l t, isGradient_control hQ hR hF x u l⟩

end Regulator

end RecedingHorizon

import RecedingHorizon.Proofs.Condensing
import RecedingHorizon.Proofs.Regulator
import RecedingHorizon.Proofs.Shooting
import RecedingHorizon.Proofs.Stage

/-!
# The stationarity is a gradient

Shot from a given state, the states are functions of the actions, and the terminal
cost with the sum of the stage costs and of the constraints weighted by their
multipliers is a function of the actions alone.  Its derivative in any direction is
the stationarity that is computed from the condensed trajectory, paired with that
direction and measured in steps.

* `SmoothStage.lagrangian`: the function of the actions.
* `SmoothStage.variation`, `hasDerivAt_states`: how the states change.
* `pulledBack_costates`: the costates shot backward are those of the summation by
  parts.
* `hasDerivAt_lagrangian`: the derivative of the Lagrangian.
* `StageModel.lagrangian_gradient`: the same, of what the library computes.
-/

namespace RecedingHorizon

open scoped Matrix

variable {n m c N : ℕ}

/-- Paired, two functions with values in vectors change by the product rule. -/
theorem hasFDerivAt_dotProduct {E : Type} [NormedAddCommGroup E] [NormedSpace ℝ E]
    {u v : E → Fin n → ℝ} {u' v' : E →L[ℝ] Fin n → ℝ} {e : E} (hu : HasFDerivAt u u' e)
    (hv : HasFDerivAt v v' e) :
    HasFDerivAt (fun e => u e ⬝ᵥ v e)
      ((LinearMap.toContinuousLinearMap (dotProductBilin ℝ ℝ (v e))).comp u' +
        (LinearMap.toContinuousLinearMap (dotProductBilin ℝ ℝ (u e))).comp v') e := by
  have hterm := HasFDerivAt.fun_sum fun j (_ : j ∈ (Finset.univ : Finset (Fin n))) =>
    (hasFDerivAt_pi'.1 hu j).mul (hasFDerivAt_pi'.1 hv j)
  refine hterm.congr_fderiv (ContinuousLinearMap.ext fun y => ?_)
  have hvalue : ∑ j, (u e j * v' y j + v e j * u' y j) = v e ⬝ᵥ u' y + u e ⬝ᵥ v' y := by
    rw [Finset.sum_add_distrib, add_comm]
    rfl
  simpa [Finset.sum_apply] using hvalue

/-- Paired, two curves of vectors change by the product rule. -/
theorem hasDerivAt_dotProduct {u v : ℝ → Fin n → ℝ} {u' v' : Fin n → ℝ} {ε : ℝ}
    (hu : HasDerivAt u u' ε) (hv : HasDerivAt v v' ε) :
    HasDerivAt (fun ε => u ε ⬝ᵥ v ε) (u' ⬝ᵥ v ε + u ε ⬝ᵥ v') ε := by
  refine (hasFDerivAt_dotProduct hu.hasFDerivAt hv.hasFDerivAt).hasDerivAt.congr_deriv ?_
  have hvalue : v ε ⬝ᵥ (1 : ℝ) • u' + u ε ⬝ᵥ (1 : ℝ) • v' = u' ⬝ᵥ v ε + u ε ⬝ᵥ v' := by
    rw [one_smul, one_smul, dotProduct_comm (v ε)]
  exact hvalue

namespace SmoothStage

variable (s : SmoothStage n m c) (t δ : ℝ) (x : Fin n → ℝ) (a v : ℕ → Fin (m + c) → ℝ)

/-- What one step of the horizon costs, the constraints weighted by their
multipliers. -/
def stageCost (x : Fin n → ℝ) (a : Fin (m + c) → ℝ) (τ : ℝ) : ℝ :=
  s.cost x (control a) τ + multipliers a ⬝ᵥ s.constraint x (control a) τ

/-- The Lagrangian of the actions on a horizon of `N` steps. -/
def lagrangian (N : ℕ) : ℝ :=
  s.terminalCost (s.responses.states t δ x a 0 N) (t + N * δ) +
    δ * ∑ i ∈ Finset.range N, s.stageCost (s.responses.states t δ x a 0 i) (a i) (t + i * δ)

/-! ## How the states change -/

/-- The rate at which the states change when the actions `a` are moved along `v`. -/
def variation : ℕ → Fin n → ℝ
  | 0 => 0
  | i + 1 =>
      let X := s.responses.states t δ x a 0 i
      let τ := t + i * δ
      variation i + δ • (s.dynamicsByState X (control (a i)) τ *ᵥ variation i +
        s.dynamicsByControl X (control (a i)) τ *ᵥ control (v i))

variable {s t δ x}

/-- Moved along a direction, the control of a step changes by that of the direction. -/
theorem hasDerivAt_control (i : ℕ) :
    HasDerivAt (fun ε : ℝ => control ((a + ε • v) i)) (control (v i)) 0 := by
  have h : HasDerivAt (fun ε : ℝ => control (a i) + ε • control (v i))
      ((1 : ℝ) • control (v i)) 0 :=
    ((hasDerivAt_id (0 : ℝ)).smul_const (control (v i))).const_add (control (a i))
  rwa [one_smul] at h

theorem hasDerivAt_multipliers (i : ℕ) :
    HasDerivAt (fun ε : ℝ => multipliers ((a + ε • v) i)) (multipliers (v i)) 0 := by
  have h : HasDerivAt (fun ε : ℝ => multipliers (a i) + ε • multipliers (v i))
      ((1 : ℝ) • multipliers (v i)) 0 :=
    ((hasDerivAt_id (0 : ℝ)).smul_const (multipliers (v i))).const_add (multipliers (a i))
  rwa [one_smul] at h

/-- Moved by zero along a direction, actions are what they were. -/
theorem unmoved : a + (0 : ℝ) • v = a := by
  rw [zero_smul, add_zero]

/-- The states change as their variation says. -/
theorem hasDerivAt_states (i : ℕ) :
    HasDerivAt (fun ε : ℝ => s.responses.states t δ x (a + ε • v) 0 i)
      (s.variation t δ x a v i) 0 := by
  induction i with
  | zero => exact hasDerivAt_const 0 x
  | succ i ih =>
      have hrate := (s.dynamics_partials (s.responses.states t δ x a 0 i) (control (a i))
        (t + i * δ)).hasDerivAt ih (hasDerivAt_control a v i) (by rw [unmoved])
          (by rw [unmoved])
      exact (ih.add (hrate.const_smul δ)).add_const 0

/-- What a step costs changes with its state, its control and its multipliers. -/
theorem hasDerivAt_stageCost {X : ℝ → Fin n → ℝ} {Z : Fin n → ℝ} (hX : HasDerivAt X Z 0) (i : ℕ)
    (τ : ℝ) :
    HasDerivAt (fun ε : ℝ => s.stageCost (X ε) ((a + ε • v) i) τ)
      (s.costByState (X 0) (control (a i)) τ ⬝ᵥ Z +
        s.costByControl (X 0) (control (a i)) τ ⬝ᵥ control (v i) +
        (multipliers (v i) ⬝ᵥ s.constraint (X 0) (control (a i)) τ +
          multipliers (a i) ⬝ᵥ (s.constraintByState (X 0) (control (a i)) τ *ᵥ Z +
            s.constraintByControl (X 0) (control (a i)) τ *ᵥ control (v i)))) 0 := by
  have hu : control (a i) = control ((a + (0 : ℝ) • v) i) := by rw [unmoved]
  have hcost := (s.cost_partials (X 0) (control (a i)) τ).hasDerivAt hX
    (hasDerivAt_control a v i) rfl hu
  have hconstraint := (s.constraint_partials (X 0) (control (a i)) τ).hasDerivAt hX
    (hasDerivAt_control a v i) rfl hu
  have hweighted := hasDerivAt_dotProduct (hasDerivAt_multipliers a v i) hconstraint
  rw [unmoved] at hweighted
  exact hcost.add hweighted

/-! ## The costates and the gradient -/

/-- The variation is carried forward by the Jacobians of the dynamics. -/
theorem carried_variation :
    Carried N δ
      (fun i => s.dynamicsByState (s.responses.states t δ x a 0 i) (control (a i)) (t + i * δ))
      (fun i => s.dynamicsByControl (s.responses.states t δ x a 0 i) (control (a i)) (t + i * δ) *ᵥ
        control (v i))
      (s.variation t δ x a v) where
  start := rfl
  step _ _ := rfl

/-- The costates are pulled back by their transposes. -/
theorem pulledBack_costates (X : ℕ → Fin n → ℝ) :
    PulledBack N δ (fun i => s.dynamicsByState (X i) (control (a i)) (t + i * δ))
      (fun i => s.costByState (X i) (control (a i)) (t + i * δ) +
        (s.constraintByState (X i) (control (a i)) (t + i * δ))ᵀ *ᵥ multipliers (a i))
      (s.responses.costates t δ X a 0 N) := by
  intro i hi
  rw [Responses.costates_of_lt _ t δ X a 0 hi, Responses.pulled, Pi.zero_apply, ite_self, add_zero]
  dsimp only [responses]
  rw [add_right_comm (s.costByState (X i) (control (a i)) (t + i * δ))]

/-- The change of what a step costs, by the gradients of its Hamiltonian. -/
theorem stageCost_variation (X Z L : Fin n → ℝ) (a v : Fin (m + c) → ℝ) (τ : ℝ) :
    s.costByState X (control a) τ ⬝ᵥ Z + s.costByControl X (control a) τ ⬝ᵥ control v +
        (multipliers v ⬝ᵥ s.constraint X (control a) τ +
          multipliers a ⬝ᵥ (s.constraintByState X (control a) τ *ᵥ Z +
            s.constraintByControl X (control a) τ *ᵥ control v)) =
      (s.costByState X (control a) τ +
          (s.constraintByState X (control a) τ)ᵀ *ᵥ multipliers a) ⬝ᵥ Z +
        s.responses.controlGradient X a L τ ⬝ᵥ v -
        L ⬝ᵥ s.dynamicsByControl X (control a) τ *ᵥ control v := by
  dsimp only [responses]
  rw [append_dotProduct, dotProduct_comm (multipliers v)]
  simp only [add_dotProduct, dotProduct_add, transpose_mulVec_dotProduct]
  ring

/-- The derivative of the Lagrangian is the stationarity, paired with the direction. -/
theorem hasDerivAt_lagrangian :
    HasDerivAt (fun ε : ℝ => s.lagrangian t δ x (a + ε • v) N)
      (δ * ∑ i ∈ Finset.range N, s.responses.condensed t δ x a 0 0 N i ⬝ᵥ v i) 0 := by
  have hstates := hasDerivAt_states (s := s) (t := t) (δ := δ) (x := x) a v
  have hterminal := (s.terminalCost_gradient (s.responses.states t δ x a 0 N)
    (t + N * δ)).comp_hasDerivAt_of_eq 0 (hstates N) (by rw [unmoved])
  have hstages := HasDerivAt.fun_sum fun i (_ : i ∈ Finset.range N) =>
    hasDerivAt_stageCost (s := s) a v (hstates i) i (t + i * δ)
  refine (hterminal.add (hstages.const_mul δ)).congr_deriv ?_
  rw [unmoved]
  -- the terms of the states are summed by parts, and those of the actions remain
  have hpairing := pairing_eq (carried_variation a v)
    (pulledBack_costates (s := s) (N := N) a (s.responses.states t δ x a 0)) le_rfl
  rw [Responses.costates_last, Pi.zero_apply, add_zero] at hpairing
  have hsplit := Finset.sum_congr rfl fun i (_ : i ∈ Finset.range N) =>
    stageCost_variation (s := s) (s.responses.states t δ x a 0 i) (s.variation t δ x a v i)
      (s.responses.costates t δ (s.responses.states t δ x a 0) a 0 N (i + 1)) (a i) (v i)
      (t + i * δ)
  rw [hsplit, Finset.sum_sub_distrib, Finset.sum_add_distrib, mul_sub, mul_add, ← hpairing]
  simp only [Responses.condensed, Responses.stationarity, Responses.seen_states]
  show s.terminalGradient _ _ ⬝ᵥ _ + _ = _
  dsimp only [responses]
  ring

end SmoothStage

/-! ## Regulators as smooth stages -/

theorem hasFDerivAt_halfSquare {W : Matrix (Fin n) (Fin n) ℝ} (hW : W.IsSymm) (z : Fin n → ℝ) :
    HasFDerivAt (halfSquare W)
      (LinearMap.toContinuousLinearMap (dotProductBilin ℝ ℝ (W *ᵥ z))) z := by
  have hW' : HasFDerivAt (fun z => W *ᵥ z) (LinearMap.toContinuousLinearMap W.mulVecLin) z :=
    (LinearMap.toContinuousLinearMap W.mulVecLin).hasFDerivAt
  refine ((hasFDerivAt_dotProduct (hasFDerivAt_id z) hW').mul_const (2⁻¹ : ℝ)).congr_fderiv ?_
  ext1 y
  have hswap : z ⬝ᵥ W *ᵥ y = W *ᵥ z ⬝ᵥ y := by rw [← transpose_mulVec_dotProduct, hW.eq]
  show 2⁻¹ * (W *ᵥ z ⬝ᵥ y + z ⬝ᵥ W *ᵥ y) = W *ᵥ z ⬝ᵥ y
  rw [hswap]
  ring

namespace Regulator

variable (g : Regulator n m)

/-- The half square of the deviation from the reference state. -/
theorem hasFDerivAt_deviation {W : Matrix (Fin n) (Fin n) ℝ} (hW : W.IsSymm) (x : Fin n → ℝ) :
    HasFDerivAt (fun x => halfSquare W (x - g.reference))
      (LinearMap.toContinuousLinearMap (dotProductBilin ℝ ℝ (W *ᵥ (x - g.reference)))) x := by
  have hdeviation : HasFDerivAt (fun x => x - g.reference)
      (ContinuousLinearMap.id ℝ (Fin n → ℝ)) x := (hasFDerivAt_id x).sub_const g.reference
  exact (hasFDerivAt_halfSquare hW (x - g.reference)).comp x hdeviation

/-- The dynamics of a regulator are linear. -/
theorem hasPartials_dynamics (x : Fin n → ℝ) (u : Fin m → ℝ) :
    HasPartials (fun x u => g.A *ᵥ x + g.B *ᵥ u) g.A.mulVecLin g.B.mulVecLin x u :=
  (LinearMap.toContinuousLinearMap (g.A.mulVecLin.coprod g.B.mulVecLin)).hasFDerivAt

/-- A regulator has no constraints, and these do not change. -/
theorem hasPartials_constraint (x : Fin n → ℝ) (u : Fin m → ℝ) :
    HasPartials (fun _ _ => (0 : Fin 0 → ℝ)) (0 : Matrix (Fin 0) (Fin n) ℝ).mulVecLin
      (0 : Matrix (Fin 0) (Fin m) ℝ).mulVecLin x u := by
  refine (hasFDerivAt_const 0 (x, u)).congr_fderiv ?_
  exact ContinuousLinearMap.ext fun p => Subsingleton.elim _ _

theorem hasPartials_cost (hQ : g.Q.IsSymm) (hR : g.R.IsSymm) (x : Fin n → ℝ) (u : Fin m → ℝ) :
    HasPartials (fun x u => halfSquare g.Q (x - g.reference) + halfSquare g.R u)
      (dotProductBilin ℝ ℝ (g.Q *ᵥ (x - g.reference))) (dotProductBilin ℝ ℝ (g.R *ᵥ u)) x u := by
  have hstate := (g.hasFDerivAt_deviation hQ x).comp (x, u)
    (hasFDerivAt_fst (𝕜 := ℝ) (p := (x, u)))
  have hcontrol := (hasFDerivAt_halfSquare hR u).comp (x, u)
    (hasFDerivAt_snd (𝕜 := ℝ) (p := (x, u)))
  exact (hstate.add hcontrol).congr_fderiv (ContinuousLinearMap.ext fun p => rfl)

/-- The terminal cost of a regulator is the half square of the deviation from the reference state.
-/
theorem hasFDerivAt_terminalCost (hF : g.F.IsSymm) (x : Fin n → ℝ) :
    HasFDerivAt (fun x => halfSquare g.F (x - g.reference))
      (LinearMap.toContinuousLinearMap (dotProductBilin ℝ ℝ (g.F *ᵥ (x - g.reference)))) x :=
  g.hasFDerivAt_deviation hF x

/-- A regulator with symmetric weights, as a stage that is smooth. -/
noncomputable def smooth (hQ : g.Q.IsSymm) (hR : g.R.IsSymm) (hF : g.F.IsSymm) :
    SmoothStage n m 0 where
  dynamics x u _ := g.A *ᵥ x + g.B *ᵥ u
  constraint _ _ _ := 0
  cost x u _ := halfSquare g.Q (x - g.reference) + halfSquare g.R u
  terminalCost x _ := halfSquare g.F (x - g.reference)
  dynamicsByState _ _ _ := g.A
  dynamicsByControl _ _ _ := g.B
  constraintByState _ _ _ := 0
  constraintByControl _ _ _ := 0
  costByState x _ _ := g.Q *ᵥ (x - g.reference)
  costByControl _ u _ := g.R *ᵥ u
  terminalGradient x _ := g.F *ᵥ (x - g.reference)
  dynamics_partials x u _ := g.hasPartials_dynamics x u
  constraint_partials x u _ := hasPartials_constraint x u
  cost_partials x u _ := g.hasPartials_cost hQ hR x u
  terminalCost_gradient x _ := g.hasFDerivAt_terminalCost hF x

/-- The stage of a regulator evaluates it, if its constraint Jacobians can be had. -/
theorem evaluates (hQ : g.Q.IsSymm) (hR : g.R.IsSymm) (hF : g.F.IsSymm)
    (hstate : Tensor.checkRoom [0, (n : ℤ)] = (.ok () : Except (Fault ℝ) Unit))
    (hcontrol : Tensor.checkRoom [0, (m : ℤ)] = (.ok () : Except (Fault ℝ) Unit)) :
    g.system.stage.Evaluates (g.smooth hQ hR hF) where
  stateDim := g.stateDim_model
  controlDim := g.controlDim_model
  constraintDim := g.unconstrained
  dynamics x u t := g.dynamics_model x u t
  dynamicsByState _ _ _ := rfl
  dynamicsByControl _ _ _ := rfl
  constraint _ _ _ := by
    show Tensor.blank [0] = _
    rw [Tensor.blank_of_lt rfl (by decide)]
    exact congrArg Except.ok Tensor.zeros_eq_ofFn
  constraintByState x u t := by
    show Tensor.blank [0, g.model.stateDim] = _
    rw [g.stateDim_model]
    exact Tensor.blank_matrix (m := 0) hstate
  constraintByControl x u t := by
    show Tensor.blank [0, g.model.controlDim] = _
    rw [g.controlDim_model]
    exact Tensor.blank_matrix (m := 0) hcontrol
  costByState x _ _ := g.weighted_deviation g.Q x
  costByControl x u t := by
    show (Gathered.scalars <$> (Tensor.ofMatrix g.R).product (.ofFn u) >>= Gathered.tensor) = _
    rw [Tensor.product_ofMatrix]
    rfl
  terminalGradient x _ := g.weighted_deviation g.F x

end Regulator

/-! ## The gradient that is computed -/

/-- The stationarity that is computed from the condensed trajectory is the gradient of
the Lagrangian, measured in steps. -/
theorem StageModel.lagrangian_gradient {stage : StageModel ℝ} {s : SmoothStage n m c}
    (hs : stage.Evaluates s) (hroom : Room N n) (t δ : ℝ) (x : Fin n → ℝ)
    (a : ℕ → Fin (m + c) → ℝ) :
    ∃ (costates : Tensor ℝ) (F : ℕ → Fin (m + c) → ℝ),
      stage.toModel.condense t (.ofFn x) (.ofNodes N a) δ none =
        .ok ⟨.ofNodes (N + 1) (s.responses.states t δ x a 0), costates⟩ ∧
      stage.toModel.stationarity t (.ofFn x) (.ofNodes N a)
        ⟨.ofNodes (N + 1) (s.responses.states t δ x a 0), costates⟩ δ = .ok (.ofNodes N F) ∧
      ∀ v : ℕ → Fin (m + c) → ℝ,
        HasDerivAt (fun ε : ℝ => s.lagrangian t δ x (a + ε • v) N)
          (δ * ∑ i ∈ Finset.range N, F i ⬝ᵥ v i) 0 := by
  refine ⟨.ofNodes (N + 1) (s.responses.costates t δ (s.responses.states t δ x a 0) a 0 N),
    s.responses.condensed t δ x a 0 0 N, ?_, ?_, ?_⟩
  · exact Model.condense_eq hs.answers hroom (D := none) rfl rfl x
  · exact Model.stationarity_eq hs.answers x
  · exact fun v => SmoothStage.hasDerivAt_lagrangian a v

/-- The integrator as a smooth stage. -/
noncomputable def integratorStage : SmoothStage 1 1 0 :=
  Regulator.integrator.smooth Matrix.isSymm_one Matrix.isSymm_one Matrix.isSymm_one

/-- The gradient for the integrator from the state one, without control, on a horizon of two
steps. -/
theorem integrator_lagrangian_gradient :
    ∃ (costates : Tensor ℝ) (F : ℕ → Fin 1 → ℝ),
      Regulator.integrator.model.condense (0 : ℝ) (.ofFn ![1])
        (.ofNodes 2 (0 : ℕ → Fin 1 → ℝ)) (1 : ℝ) none =
          .ok ⟨.ofNodes 3 (integratorStage.responses.states 0 1 ![1] 0 0), costates⟩ ∧
      Regulator.integrator.model.stationarity (0 : ℝ) (.ofFn ![1])
        (.ofNodes 2 (0 : ℕ → Fin 1 → ℝ))
          ⟨.ofNodes 3 (integratorStage.responses.states 0 1 ![1] 0 0), costates⟩ (1 : ℝ) =
            .ok (.ofNodes 2 F) ∧
      ∀ v : ℕ → Fin 1 → ℝ,
        HasDerivAt (fun ε : ℝ => integratorStage.lagrangian 0 1 ![1] (0 + ε • v) 2)
          (1 * ∑ i ∈ Finset.range 2, F i ⬝ᵥ v i) 0 := by
  have hroom : Room 2 1 := .of_le_two le_rfl
  have hrows : Tensor.checkRoom [0, (1 : ℕ)] = (.ok () : Except (Fault ℝ) Unit) :=
    Tensor.checkRoom_of_lt rfl (by decide)
  have hevaluates : Regulator.integrator.system.stage.Evaluates integratorStage :=
    Regulator.integrator.evaluates _ _ _ hrows hrows
  exact StageModel.lagrangian_gradient hevaluates hroom 0 1 ![1] 0

end RecedingHorizon

import Mathlib
import RecedingHorizon.Model.LinearQuadratic
import RecedingHorizon.Proofs.Affine
import RecedingHorizon.Proofs.Matrices

/-!
# Regulators

A linear system with quadratic cost whose matrices fit together is a regulator.
Its responses are affine, and the rates are those of the regulator with the
reference state zero.  They do not depend on time.

* `halfSquare`: a quadratic form.
* `Regulator`: the matrices; `Regulator.system` and `exists_eq_system` lead to the
  systems of the library and back.
* `Regulator.responses`, `Regulator.answers`: the responses, and that the model
  answers with them.
* `Regulator.centred`, `Regulator.varies`, `Regulator.linear`: the rates of change.
* `states_time`, `costates_time`, `condensed_time`: what is shot does not depend on time.
-/

namespace RecedingHorizon

open scoped Matrix

variable {n m : ℕ}

/-- Half the square of a vector in a weight. -/
noncomputable def halfSquare (W : Matrix (Fin n) (Fin n) ℝ) (z : Fin n → ℝ) : ℝ := z ⬝ᵥ W *ᵥ z / 2

/-- In a symmetric weight the half square of a sum. -/
theorem halfSquare_add {W : Matrix (Fin n) (Fin n) ℝ} (hW : W.IsSymm) (z y : Fin n → ℝ) :
    halfSquare W (z + y) = halfSquare W z + W *ᵥ z ⬝ᵥ y + halfSquare W y := by
  have hswap : y ⬝ᵥ W *ᵥ z = z ⬝ᵥ W *ᵥ y := by
    rw [← transpose_mulVec_dotProduct, hW.eq, dotProduct_comm]
  have hcomm : W *ᵥ z ⬝ᵥ y = z ⬝ᵥ W *ᵥ y := by rw [dotProduct_comm, hswap]
  simp only [halfSquare, Matrix.mulVec_add, dotProduct_add, add_dotProduct, hswap, hcomm]
  ring

/-- The matrices of a linear system with quadratic cost, and the reference state. -/
structure Regulator (n m : ℕ) where
  A : Matrix (Fin n) (Fin n) ℝ
  B : Matrix (Fin n) (Fin m) ℝ
  Q : Matrix (Fin n) (Fin n) ℝ
  R : Matrix (Fin m) (Fin m) ℝ
  /-- The weight of the terminal cost. -/
  F : Matrix (Fin n) (Fin n) ℝ
  reference : Fin n → ℝ

namespace Regulator

/-- The system with the arrays of the matrices. -/
def system (g : Regulator n m) : LinearQuadratic ℝ where
  A := .ofMatrix g.A
  B := .ofMatrix g.B
  Q := .ofMatrix g.Q
  R := .ofMatrix g.R
  F := .ofMatrix g.F
  reference := .ofFn g.reference

/-- A system whose arrays fit together is that of a regulator. -/
theorem exists_eq_system {system : LinearQuadratic ℝ} (hA : system.A.shape = [n, n])
    (hB : system.B.shape = [n, m]) (hQ : system.Q.shape = [n, n]) (hR : system.R.shape = [m, m])
    (hF : system.F.shape = [n, n]) (href : system.reference.shape = [n]) :
    ∃ g : Regulator n m, system = g.system := by
  obtain ⟨A, B, Q, R, F, reference⟩ := system
  obtain ⟨A, rfl⟩ := Tensor.exists_eq_ofMatrix hA
  obtain ⟨B, rfl⟩ := Tensor.exists_eq_ofMatrix hB
  obtain ⟨Q, rfl⟩ := Tensor.exists_eq_ofMatrix hQ
  obtain ⟨R, rfl⟩ := Tensor.exists_eq_ofMatrix hR
  obtain ⟨F, rfl⟩ := Tensor.exists_eq_ofMatrix hF
  obtain ⟨reference, rfl⟩ := Tensor.exists_eq_ofFn href
  exact ⟨⟨A, B, Q, R, F, reference⟩, rfl⟩

/-- The regulator of `ẋ = u` in one dimension, with unit weights. -/
def integrator : Regulator 1 1 where
  A := 0
  B := 1
  Q := 1
  R := 1
  F := 1
  reference := 0

/-- The regulator of `ẋ = u` in one dimension, with unit weights and the reference state seven. -/
def steered : Regulator 1 1 := { integrator with reference := ![7] }

/-- What the model of a regulator answers. -/
def responses (g : Regulator n m) : Responses n m 0 where
  dynamics x u _ := g.A *ᵥ x + g.B *ᵥ u
  terminalGradient x _ := g.F *ᵥ (x - g.reference)
  stateGradient x _ l _ := g.Q *ᵥ (x - g.reference) + g.Aᵀ *ᵥ l
  controlGradient _ a l _ := g.R *ᵥ control a + g.Bᵀ *ᵥ l

/-- The model of the system. -/
noncomputable def model (g : Regulator n m) : Model ℝ := g.system.stage.toModel

section Answers

variable (g : Regulator n m)

theorem stateDim_model : g.model.stateDim = n := by
  rw [model, StageModel.toModel, LinearQuadratic.stage, system, Tensor.shape_ofMatrix]
  rfl

theorem controlDim_model : g.model.controlDim = m := by
  rw [model, StageModel.toModel, LinearQuadratic.stage, system, Tensor.shape_ofMatrix]
  rfl

theorem unconstrained : g.system.stage.constraintDim = 0 := rfl

/-- An action is split into the control and no multipliers. -/
theorem split_action (a : Fin (m + 0) → ℝ) :
    ∃ rest, g.system.stage.split (.ofFn a) = .ok (.ofFn (control a), rest) := by
  have hdim : g.system.stage.controlDim = m := g.controlDim_model
  refine ⟨.ofFn fun i : Fin 0 => a (Fin.natAdd m i), ?_⟩
  rw [StageModel.split, hdim, Tensor.front_ofFn, ok_bind, Tensor.back_ofFn, ok_bind]
  rfl

theorem dynamics_model (x : Fin n → ℝ) (u : Fin m → ℝ) (t : Datum ℝ) :
    g.model.dynamics (.ofFn x) (.ofFn u) t = .ok (.ofFn (g.A *ᵥ x + g.B *ᵥ u)) := by
  show ((Tensor.ofMatrix g.A).product (.ofFn x) >>= fun drift =>
    (Tensor.ofMatrix g.B).product (.ofFn u) >>= fun push => drift.plus push) = _
  rw [Tensor.product_ofMatrix, ok_bind, Tensor.product_ofMatrix, ok_bind, Tensor.plus_ofFn]

/-- A weight applied to the deviation from the reference state. -/
theorem weighted_deviation (W : Matrix (Fin n) (Fin n) ℝ) (x : Fin n → ℝ) :
    ((Tensor.ofFn x).minus (.ofFn g.reference) >>= fun d => (Tensor.ofMatrix W).product d) =
      .ok (.ofFn (W *ᵥ (x - g.reference))) := by
  rw [Tensor.minus_ofFn, ok_bind, Tensor.product_ofMatrix]

theorem stateGradient_model (x : Fin n → ℝ) (a : Fin (m + 0) → ℝ) (l : Fin n → ℝ) (t : Datum ℝ) :
    g.model.stateGradient (.ofFn x) (.ofFn a) (.ofFn l) t =
      .ok (.ofFn (g.Q *ᵥ (x - g.reference) + g.Aᵀ *ᵥ l)) := by
  obtain ⟨rest, hsplit⟩ := g.split_action a
  have hcost : g.system.stage.costByState (.ofFn x) (.ofFn (control a)) t =
      .ok (.ofFn (g.Q *ᵥ (x - g.reference))) := g.weighted_deviation g.Q x
  have hflow : g.system.stage.dynamicsByState (.ofFn x) (.ofFn (control a)) t =
      .ok (.scalars (.ofMatrix g.A)) := rfl
  show g.system.stage.stateGradient _ _ _ _ = _
  rw [StageModel.stateGradient, hsplit, ok_bind]
  dsimp only
  rw [hcost, ok_bind, hflow, ok_bind, Gathered.pullback_scalars, Tensor.pullback_ofMatrix, ok_bind,
    Tensor.plus_ofFn, ok_bind, if_pos g.unconstrained]
  rfl

theorem controlGradient_model (x : Fin n → ℝ) (a : Fin (m + 0) → ℝ) (l : Fin n → ℝ)
    (t : Datum ℝ) :
    g.model.controlGradient (.ofFn x) (.ofFn a) (.ofFn l) t =
      .ok (.ofFn (g.R *ᵥ control a + g.Bᵀ *ᵥ l)) := by
  obtain ⟨rest, hsplit⟩ := g.split_action a
  have hcost : g.system.stage.costByControl (.ofFn x) (.ofFn (control a)) t =
      .ok (.scalars (.ofFn (g.R *ᵥ control a))) := by
    show Gathered.scalars <$> (Tensor.ofMatrix g.R).product (.ofFn (control a)) = _
    rw [Tensor.product_ofMatrix]
    rfl
  have hflow : g.system.stage.dynamicsByControl (.ofFn x) (.ofFn (control a)) t =
      .ok (.ofMatrix g.B) := rfl
  show g.system.stage.controlGradient _ _ _ _ = _
  rw [StageModel.controlGradient, hsplit, ok_bind]
  dsimp only
  rw [hcost, ok_bind, hflow, ok_bind, Tensor.pullback_ofMatrix, ok_bind, Gathered.plus_scalars,
    Tensor.plus_ofFn, ok_bind, if_pos g.unconstrained]
  rfl

/-- The model of a regulator answers with its responses. -/
theorem answers : g.model.Answers g.responses where
  stateDim := g.stateDim_model
  controlDim := g.controlDim_model
  constraintDim := g.unconstrained
  dynamics x u t := g.dynamics_model x u t
  terminalGradient x _ := g.weighted_deviation g.F x
  stateGradient x a l t := g.stateGradient_model x a l t
  controlGradient x a l t := g.controlGradient_model x a l t

end Answers

/-! ## Rates of change -/

/-- The regulator with the reference state zero. -/
def centred (g : Regulator n m) : Regulator n m := { g with reference := 0 }

/-- The responses of a regulator vary like those with the reference state zero. -/
theorem varies (g : Regulator n m) : g.responses.Varies g.centred.responses where
  dynamics s x y u v t := by
    simp only [responses, centred, Matrix.mulVec_add, Matrix.mulVec_smul, smul_add]
    exact add_add_add_comm _ _ _ _
  terminalGradient s x y t := by
    simp only [responses, centred, sub_zero, ← Matrix.mulVec_smul, ← Matrix.mulVec_add]
    rw [add_sub_right_comm]
  stateGradient s x y a b l k t := by
    simp only [responses, centred, sub_zero, add_sub_right_comm, Matrix.mulVec_add,
      Matrix.mulVec_smul, smul_add]
    exact add_add_add_comm _ _ _ _
  controlGradient s x y a b l k t := by
    simp only [responses, centred, control_add, control_smul, Matrix.mulVec_add,
      Matrix.mulVec_smul, smul_add]
    exact add_add_add_comm _ _ _ _

/-- A regulator with the reference state zero is linear. -/
theorem linear (g : Regulator n m) : g.centred.responses.Varies g.centred.responses :=
  g.centred.varies

/-! ## Time -/

section Time

variable {g : Regulator n m} (t t' δ : ℝ) (x : Fin n → ℝ) (a : ℕ → Fin (m + 0) → ℝ)

theorem states_time : g.responses.states t δ x a 0 = g.responses.states t' δ x a 0 := by
  funext i
  induction i with
  | zero => rfl
  | succ i ih =>
      rw [Responses.states_succ, Responses.states_succ, ih]
      rfl

theorem costates_time (X : ℕ → Fin n → ℝ) (N : ℕ) :
    g.responses.costates t δ X a 0 N = g.responses.costates t' δ X a 0 N := by
  have hback : ∀ j,
      g.responses.costateBack t δ X a 0 N j = g.responses.costateBack t' δ X a 0 N j := by
    intro j
    induction j with
    | zero => rfl
    | succ j ih =>
        rw [Responses.costateBack, Responses.costateBack, ih]
        rfl
  funext i
  exact hback (N - i)

theorem condensed_time (N : ℕ) :
    g.responses.condensed t δ x a 0 0 N = g.responses.condensed t' δ x a 0 0 N := by
  rw [Responses.condensed, Responses.condensed, states_time t t', costates_time t t']
  rfl

end Time

end Regulator

end RecedingHorizon

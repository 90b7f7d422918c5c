import RecedingHorizon.Horizon
import RecedingHorizon.Trajectory

/-!
# The optimality residual

A sequence of actions is stationary if the control gradient of the Hamiltonian
vanishes at every step,

    F i = H_u(X i, a i, Λ (i+1), τ i) = 0,

with the current state in the place of `X 0`.  Together with the defects of the
trajectory this is the residual of the first-order conditions.  With the
trajectory eliminated, the residual is the stationarity alone.

* `Model.stationarity`: the array `F`, in the shape of the actions.
* `Residual`, `Residual.norm`: stationarity and defects, and their common norm.
* `Problem`: a model on a horizon; `Problem.residual` of a stored trajectory and
  `Problem.condensedStationarity` under prescribed defects.
-/

namespace RecedingHorizon

variable {α : Type} [Scalar α]

/-- The control gradient at the action of step `i`. -/
def Model.stationarityAt (model : Model α) (t : Datum α) (x : Tensor α)
    (actions states costates : Path α) (δ : Datum α) (i : Nat) :
    Except (Fault α) (Tensor α) := do
  let state ← Model.stateAt x states i
  let action ← actions.node i
  let next ← costates.node (i + 1)
  model.controlGradient state action next (← nodeTime t δ i)

/-- The control gradient at the actions of all steps. -/
def Model.stationarity (model : Model α) (t : Datum α) (x actions : Tensor α)
    (trajectory : Trajectory α) (δ : Datum α) : Except (Fault α) (Tensor α) := do
  let steps ← actions.count
  let shape := actions.shape.drop 1
  let actions := actions.path
  let states := trajectory.states.path
  let costates := trajectory.costates.path
  let gradient (i : Nat) : Except (Fault α) (Row α shape) := do
    (← model.stationarityAt t x actions states costates δ i).spread shape
  return .ofRows (← Recurrence.collect gradient steps)

/-- Stationarity and defects at one point. -/
structure Residual (α : Type) where
  stationarity : Tensor α
  defects : Defects α

/-- The euclidean norm of the residual. -/
def Residual.norm (residual : Residual α) : α :=
  Scalar.sqrt (Vec.sumSquares residual.stationarity.entries + residual.defects.squaredNorm)

/-- A model on a horizon. -/
structure Problem (α : Type) where
  model : Model α
  horizon : Horizon α

namespace Problem

/-- The residual of actions and a stored trajectory, seen from time `t` and state
`x`. -/
def residual (problem : Problem α) (t : Datum α) (x actions : Tensor α)
    (trajectory : Trajectory α) : Except (Fault α) (Residual α) := do
  let δ := Datum.number (.real (← problem.horizon.step t))
  let stationarity ← problem.model.stationarity t x actions trajectory δ
  let defects ← problem.model.shootingDefects t x actions trajectory δ
  return { stationarity, defects }

/-- The stationarity of actions with the trajectory that has the prescribed
defects, and that trajectory. -/
def condensedStationarity (problem : Problem α) (t : Datum α) (x actions : Tensor α)
    (prescribed : Option (Defects α)) : Except (Fault α) (Tensor α × Trajectory α) := do
  let δ := Datum.number (.real (← problem.horizon.step t))
  let trajectory ← problem.model.condense t x actions δ prescribed
  return (← problem.model.stationarity t x actions trajectory δ, trajectory)

end Problem

end RecedingHorizon

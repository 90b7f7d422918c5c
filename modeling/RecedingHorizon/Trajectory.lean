import RecedingHorizon.Shooting.Backward

/-!
# Trajectories, defects and condensing

States and costates at the nodes of a horizon are kept as free variables, one
vector for each node, and need not satisfy the equations that link neighbouring
nodes.  By how much they miss them are the defects, again a pair of arrays with
one row for each node.

The first row of either array of defects is zero on a horizon with a step: the
first state is the measured one, and the first costate follows from the second.

Prescribing the defects rather than the trajectory eliminates it: the trajectory
becomes a function of the actions, which are then the only unknowns left.

* `Trajectory`, `Defects`: the pairs of arrays.
* `Model.condense`: the trajectory with prescribed defects.
* `Model.shootingDefects`: the defects of a trajectory.
-/

namespace RecedingHorizon

/-- State and costate at every node. -/
structure Trajectory (α : Type) where
  states : Tensor α
  costates : Tensor α

/-- The amounts by which a trajectory misses its equations. -/
structure Defects (α : Type) where
  states : Tensor α
  costates : Tensor α

namespace Defects

variable {α : Type} [Scalar α]

/-- No defects on a horizon of `steps` steps with states of length `n`. -/
def zeros (steps n : Datum α) : Except (Fault α) (Defects α) := do
  let nodes ←
    match ← steps.asNumber with
    | .whole steps => pure (steps + 1)
    | .real _ => throw .fractionalExtent
  if !Tensor.isIndex nodes then throw .oversized
  let none ← Tensor.blank [nodes, ← n.extent]
  return ⟨none, none⟩

/-- All defects multiplied by a factor. -/
def scaled (defects : Defects α) (factor : Datum α) : Except (Fault α) (Defects α) := do
  let states ← defects.states.scaleBy factor
  let costates ← defects.costates.scaleBy factor
  return { states, costates }

/-- The sum of the squares of all defects. -/
def squaredNorm (defects : Defects α) : α :=
  Vec.sumSquares defects.states.entries + Vec.sumSquares defects.costates.entries

end Defects

/-! ## Condensing -/

namespace Model

variable {α : Type} [Scalar α]

/-- The trajectory whose defects are the prescribed ones, or zero. -/
def condense (model : Model α) (t : Datum α) (x actions : Tensor α) (δ : Datum α)
    (prescribed : Option (Defects α)) : Except (Fault α) (Trajectory α) := do
  let states ← model.shootStates t x actions δ (prescribed.map Defects.states)
  let costates ← model.shootCostates t states actions δ (prescribed.map Defects.costates)
  return { states, costates }

/-- The defects of a trajectory seen from the current state `x`. -/
def shootingDefects (model : Model α) (t : Datum α) (x actions : Tensor α)
    (trajectory : Trajectory α) (δ : Datum α) : Except (Fault α) (Defects α) := do
  let states ← model.stateDefects t x actions trajectory.states δ
  let costates ← model.costateDefects t actions trajectory.states trajectory.costates δ
  return { states, costates }

end Model

end RecedingHorizon

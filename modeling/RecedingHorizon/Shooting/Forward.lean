import RecedingHorizon.Model.Basic
import RecedingHorizon.Recurrence
import RecedingHorizon.Tensor.Given
import RecedingHorizon.Tensor

/-!
# Shooting the state forward

From the current state the states at the nodes follow by explicit Euler steps,

    X 0 = x,    X (i+1) = X i + δ f(X i, u i, τ i) + E (i+1),    τ i = t + i δ,

where `E` holds a prescribed defect for each node, or there are none.  Read
backwards, the same equations give the defects of any states.  Whatever the arrays
that enter them, states and defects are vectors of the length of the current state,
one for each node.

* `Model.shootStates`: the states that have the prescribed defects.
* `Model.stateDefects`: the defects of given states.
-/

namespace RecedingHorizon

variable {α : Type} [Scalar α]

/-- The time of node `i`. -/
def nodeTime (t δ : Datum α) (i : Nat) : Except (Fault α) (Datum α) := do
  return .number (← t.plus (.number (← δ.multiple i)))

@[simp] theorem nodeTime_real (t δ : α) (i : Nat) :
    nodeTime (.number (.real t)) (.number (.real δ)) i =
      .ok (.number (.real (t + (i : α) * δ))) := rfl

/-- A row with the defect of node `i` added, if defects are prescribed. -/
def addDefect {shape : List Nat} (prescribed : Option (Path α)) (i : Nat) (r : Row α shape) :
    Except (Fault α) (Row α shape) :=
  match prescribed with
  | none => .ok r
  | some defects => do r.increase (← defects.node i)

namespace Model

/-- The Euler increment of the state over one step. -/
def stateIncrement (model : Model α) (x action : Tensor α) (τ δ : Datum α) :
    Except (Fault α) (Tensor α) := do
  let rate ← model.dynamics x (← model.control action) τ
  rate.scaleBy δ

/-- The state at node `i + 1`, from that at node `i`. -/
def nextState (model : Model α) (t δ : Datum α) (actions : Path α)
    (prescribed : Option (Path α)) {n : Nat} (i : Nat) (x : Row α [n]) :
    Except (Fault α) (Row α [n]) := do
  let τ ← nodeTime t δ i
  let next ← x.1.plus (← model.stateIncrement x.1 (← actions.node i) τ δ)
  addDefect prescribed (i + 1) (← next.spread [n])

/-- The states at all nodes, from the current state `x` on. -/
def shootStates (model : Model α) (t : Datum α) (x actions : Tensor α) (δ : Datum α)
    (prescribed : Option (Tensor α)) : Except (Fault α) (Tensor α) := do
  let steps ← actions.count
  let n ← x.count
  Tensor.checkRoom [steps + 1, n]
  let first ← x.spread [n]
  let step := model.nextState t δ actions.path (prescribed.map Tensor.path)
  return .ofRows (← Recurrence.run step steps first)

/-- The state a step starts from: the current one at node zero. -/
def stateAt (x : Tensor α) (states : Path α) (i : Nat) : Except (Fault α) (Tensor α) :=
  if i = 0 then .ok x else states.node i

/-- The defect of the state at node `i + 1`. -/
def stateDefect (model : Model α) (t : Datum α) (x : Tensor α) (actions states : Path α)
    (δ : Datum α) (i : Nat) : Except (Fault α) (Tensor α) := do
  let τ ← nodeTime t δ i
  let next ← states.node (i + 1)
  let here ← stateAt x states i
  let change ← next.minus here
  change.minus (← model.stateIncrement here (← actions.node i) τ δ)

/-- The defects of given states, none at node zero. -/
def stateDefects (model : Model α) (t : Datum α) (x actions states : Tensor α) (δ : Datum α) :
    Except (Fault α) (Tensor α) := do
  let steps ← actions.count
  let n ← x.count
  Tensor.checkRoom [steps + 1, n]
  let actions := actions.path
  let states := states.path
  let defect (i : Nat) : Except (Fault α) (Row α [n]) := do
    (← model.stateDefect t x actions states δ i).spread [n]
  return .ofRows ((Tensor.zeros [n]).row :: (← Recurrence.collect defect steps))

end Model

end RecedingHorizon

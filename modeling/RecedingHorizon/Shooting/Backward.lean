import RecedingHorizon.Shooting.Forward

/-!
# Shooting the costate backward

From the terminal condition the costates at the nodes follow backward,

    Λ N = φ'(X N, τ N) + E N,
    Λ i = Λ (i+1) + δ H_x(X i, a i, Λ (i+1), τ i) + E i,

where `E` holds a prescribed defect for each node, or there are none; at node zero,
unless it is the last one, no defect is added.  Read the other way, the same
equations give the defects of any costates.

Nodes past the end of the horizon, if there are any, keep the costate zero.  A
costate has the shape of the state at its node, and a defect that of the costate.

* `Model.shootCostates`: the costates that have the prescribed defects.
* `Model.costateDefects`: the defects of given costates.
-/

namespace RecedingHorizon

variable {α : Type} [Scalar α]

/-- A number of rows of zeros. -/
def zeroRows (count : Nat) (shape : List Nat) : List (Row α shape) :=
  List.replicate count (Tensor.zeros shape).row

namespace Model

/-- The increment of the costate over one step, backward in time. -/
def costateIncrement (model : Model α) (x action next : Tensor α) (τ δ : Datum α) :
    Except (Fault α) (Tensor α) := do
  (← model.stateGradient x action next τ).scaleBy δ

/-- The costate at the last node `i`. -/
def terminalCostate (model : Model α) (t δ : Datum α) (states : Path α)
    (prescribed : Option (Path α)) (shape : List Nat) (i : Nat) :
    Except (Fault α) (Row α shape) := do
  let state ← states.node i
  let final ← model.terminalGradient state (← nodeTime t δ i)
  addDefect prescribed i (← final.spread shape)

/-- The costate at node `i`, from that at node `i + 1`. -/
def previousCostate (model : Model α) (t δ : Datum α) (states actions : Path α)
    (prescribed : Option (Path α)) {shape : List Nat} (i : Nat) (next : Row α shape) :
    Except (Fault α) (Row α shape) := do
  let τ ← nodeTime t δ i
  let state ← states.node i
  let action ← actions.node i
  let here ← next.1.plus (← model.costateIncrement state action next.1 τ δ)
  let here ← here.spread shape
  if i = 0 then return here
  addDefect prescribed i here

/-- The costates at all nodes of given states. -/
def shootCostates (model : Model α) (t : Datum α) (states actions : Tensor α) (δ : Datum α)
    (prescribed : Option (Tensor α)) : Except (Fault α) (Tensor α) := do
  let last ← actions.count
  let shape := states.shape.drop 1
  let prescribed := prescribed.map Tensor.path
  let nodes := states.path
  let actions := actions.path
  let final ← model.terminalCostate t δ nodes prescribed shape last
  let step (j : Nat) (next : Row α shape) : Except (Fault α) (Row α shape) :=
    model.previousCostate t δ nodes actions prescribed (last - 1 - j) next
  let found ← Recurrence.run step last final
  return .ofRows (found.reverse ++ zeroRows ((← states.count) - (last + 1)) shape)

/-- The defect of the costate at node `i`, before the last one. -/
def costateDefect (model : Model α) (t : Datum α) (actions states costates : Path α)
    (δ : Datum α) (i : Nat) : Except (Fault α) (Tensor α) := do
  let τ ← nodeTime t δ i
  let here ← costates.node i
  let next ← costates.node (i + 1)
  let change ← here.minus next
  let state ← states.node i
  let action ← actions.node i
  change.minus (← model.costateIncrement state action next τ δ)

/-- The defect of the costate at the last node `i`. -/
def terminalDefect (model : Model α) (t : Datum α) (states costates : Path α) (δ : Datum α)
    (i : Nat) : Except (Fault α) (Tensor α) := do
  let here ← costates.node i
  let state ← states.node i
  here.minus (← model.terminalGradient state (← nodeTime t δ i))

/-- The defects of given costates.  At node zero, unless it is the last one, there
is none. -/
def costateDefects (model : Model α) (t : Datum α) (actions states costates : Tensor α)
    (δ : Datum α) : Except (Fault α) (Tensor α) := do
  let last ← actions.count
  let shape := costates.shape.drop 1
  let nodes := costates.path
  let actions := actions.path
  let states := states.path
  let final ← (← model.terminalDefect t states nodes δ last).spread shape
  let defect (j : Nat) : Except (Fault α) (Row α shape) := do
    (← model.costateDefect t actions states nodes δ (last - 1 - j)).spread shape
  let between ← Recurrence.collect defect (last - 1)
  let beyond := zeroRows ((← costates.count) - (last + 1)) shape
  return .ofRows (zeroRows (min last 1) shape ++ between.reverse ++ final :: beyond)

end Model

end RecedingHorizon

import RecedingHorizon.Krylov.Solver
import RecedingHorizon.Model.Basic
import RecedingHorizon.Settings
import RecedingHorizon.Stateful

/-!
# The search for the initial action

On a horizon of length zero every node coincides with the current state and every
costate with the terminal gradient, so that one action stands for the whole
sequence.  It is stationary where

    F(a) = H_u(x, a, φ'(x, t), t)

vanishes.  The linear system of a Newton step for `F` is known by forward
differences: `A v = (F(a + h v) - F(a)) / h` and `b = -F(a)`.

The costate is found once for a state, by `prepare`, and the value `F(a)` once
for a linear system, by its residual.  Both are remembered.

The directions of Newton's method come from the Krylov solver.  The action found
will be copied to every step of a horizon, so its residual norm is measured over as
many copies, `√copies ‖F(a)‖`, with one copy at least.

The search goes on while the norm has not fallen below the tolerance, up to a
limit.  Whether it has is then asked once more: a norm that is not a number is
neither above the tolerance nor below it, and ends the search without success.

* `ZeroHorizon`, `ZeroHorizon.linearized`: the model on the horizon of length zero, and
  the linear system of a Newton step.
* `Newton.Search`: what stays the same during a search.
* `Newton.Iterate`, `Newton.Search.advance`: an action with its norm, and one
  iteration.
* `Newton.solve`: the search.
-/

namespace RecedingHorizon

/-! ## The horizon of length zero -/

/-- A model on the horizon of length zero, with the step of its differences. -/
structure ZeroHorizon (α : Type) where
  model : Model α
  differenceStep : Datum α

namespace ZeroHorizon

/-- What earlier calls have found. -/
structure Memory (α : Type) where
  costate : Option (Tensor α) := none
  base : Option (Tensor α) := none

variable {α : Type} [Scalar α]

/-- Find the costate at time `t` and state `x`. -/
def prepare (system : ZeroHorizon α) (t : Datum α) (x : Tensor α) :
    Stateful (Memory α) α Unit := do
  let costate ← system.model.terminalGradient x t
  modify fun memory => { memory with costate := some costate }

/-- The control gradient at an action. -/
def gradient (system : ZeroHorizon α) (t : Datum α) (x action : Tensor α) :
    Stateful (Memory α) α (Tensor α) := do
  let costate ← Stateful.needed (← get).costate
  system.model.controlGradient x action costate t

/-- A change of the control gradient per difference step. -/
def quotient (system : ZeroHorizon α) (change : Tensor α) : Except (Fault α) (Tensor α) :=
  if system.model.keepsNumbers && system.differenceStep.isZero then .error .divisionByZero
  else change.divideBy system.differenceStep

/-- The image of a direction at an action. -/
def image (system : ZeroHorizon α) (t : Datum α) (x action direction : Tensor α) :
    Stateful (Memory α) α (Tensor α) := do
  let base ← Stateful.needed (← get).base
  let moved ← action.plus (← direction.scaleBy system.differenceStep)
  let change ← (← system.gradient t x moved).minus base
  system.quotient change

/-- The residual of a guess at an action. -/
def residual (system : ZeroHorizon α) (t : Datum α) (x action guess : Tensor α) :
    Stateful (Memory α) α (Tensor α) := do
  let base ← system.gradient t x action
  modify fun memory => { memory with base := some base }
  if guess.isZero then return base.neg
  base.neg.minus (← system.image t x action guess)

/-- The linear system of a Newton step from an action. -/
def linearized (system : ZeroHorizon α) (t : Datum α) (x action : Tensor α) :
    Krylov.Equation (StateM (Memory α)) α where
  residual guess := system.residual t x action guess
  image direction := system.image t x action direction

end ZeroHorizon

/-! ## The search -/

namespace Newton

/-- What stays the same during a search. -/
structure Search (α : Type) where
  system : ZeroHorizon α
  solver : Krylov.Solver α
  time : Datum α
  state : Tensor α
  /-- The factor by which norms are measured. -/
  scale : α

/-- An action with its residual norm, and what the linear solves work in. -/
structure Iterate (α : Type) where
  action : Tensor α
  residualNorm : α
  memory : ZeroHorizon.Memory α
  workspace : Krylov.Workspace α

/-- An action that passed the tolerance. -/
structure Solution (α : Type) where
  action : Tensor α
  residualNorm : α
  iterations : Nat

variable {α : Type} [Scalar α]

namespace Search

/-- An action with its norm. -/
def measure (search : Search α) (action : Tensor α) (memory : ZeroHorizon.Memory α)
    (workspace : Krylov.Workspace α) : Except (Fault α) (Iterate α) := do
  let (gradient, memory) :=
    (search.system.gradient search.time search.state action).runOn memory
  return { action, residualNorm := search.scale * (← gradient).norm, memory, workspace }

/-- One iteration: a Krylov solve from zero, and its solution added. -/
def advance (search : Search α) (it : Iterate α) : Except (Fault α) (Iterate α) := do
  let system := search.system.linearized search.time search.state it.action
  let ((outcome, workspace), memory) :=
    (search.solver.solve system none it.workspace).run it.memory
  let action ← it.action.increase (← outcome).solution
  search.measure action memory workspace

/-- At most `left` iterations, after `count` of them, while the norm is not below
the tolerance. -/
def run (search : Search α) (tolerance : α) :
    Nat → Nat → Iterate α → Except (Fault α) (Iterate α × Nat)
  | 0, count, it => .ok (it, count)
  | left + 1, count, it =>
      if tolerance ≤ it.residualNorm then do
        search.run tolerance left (count + 1) (← search.advance it)
      else .ok (it, count)

end Search

/-- The verdict on the last iterate. -/
def conclude (tolerance : α) (it : Iterate α) (iterations : Nat) :
    Except (Fault α) (Solution α) :=
  if it.residualNorm < tolerance then
    .ok { action := it.action, residualNorm := it.residualNorm, iterations }
  else
    .error (.unconverged
      { solution := it.action.entries, residualNorm := it.residualNorm, iterations, tolerance })

/-- The factor by which norms are measured for so many copies. -/
def copyScale (copies : Datum α) : Except (Fault α) α := do
  return Scalar.sqrt (← (← copies.atLeast 1).operand)

/-- A search at time `t` and state `x`, and its first iterate. -/
def start (model : Model α) (t : Datum α) (x : Tensor α) (params : InitParams α)
    (copies : Datum α) : Except (Fault α) (Search α × Iterate α) := do
  let system : ZeroHorizon α := ⟨model, params.differenceStep⟩
  let (prepared, memory) := (system.prepare t x).runOn {}
  prepared
  let solver ← Krylov.Solver.ofExtents (.number (.whole model.actionDim)) params.krylovLimit
    defaultRelativeTolerance
  let scale ← copyScale copies
  let search : Search α := { system, solver, time := t, state := x, scale }
  return (search, ← search.measure (.ofVec params.guess) memory solver.workspace)

/-- Search for the initial action at time `t` and state `x`, to be copied to as
many steps. -/
def solve (model : Model α) (t : Datum α) (x : Tensor α) (params : InitParams α)
    (copies : Datum α) : Except (Fault α) (Solution α) := do
  if (params.guess.length : Int) ≠ model.actionDim then
    throw (.guessShape [params.guess.length] model.actionDim)
  let (search, first) ← start model t x params copies
  let tolerance ← params.residualTolerance.scalar
  let (last, count) ← search.run tolerance params.iterationLimit.toNat 0 first
  conclude tolerance last count

end Newton

end RecedingHorizon

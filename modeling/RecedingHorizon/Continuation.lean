import RecedingHorizon.Krylov.Solver
import RecedingHorizon.Residual
import RecedingHorizon.Stateful

/-!
# The linear system of one continuation step

The solution is not found anew at every time but carried along: the rate of
change `v` of the actions is chosen so that the residual decays, `dF/dt = -ζ F`.
With forward differences of step `h` this is a linear system,

    A v = (F(a + h v) - F(a)) / h,
    b   = -ζ F₀ - (F(a) - F₀) / h,

where `F₀` is the stationarity now and `F` that at time `t + h` and at the state
predicted for it.  There the trajectory is eliminated, under the defects of the
stored one scaled by `1 - h ζ`, so that these decay as well.

The residual `b - A v` of a guess takes a single evaluation, since the value
`F(a)` drops out of it.

The point is set by `prepare`; the residual finds the defects and `F(a)`, which
the images use.  All of these are remembered, and a call that needs what no
earlier one has left fails.
-/

namespace RecedingHorizon

/-- A problem with the step of its differences and the rate of decay. -/
structure Continuation (α : Type) where
  problem : Problem α
  differenceStep : Datum α
  decayRate : Datum α

namespace Continuation

/-- What earlier calls have found. -/
structure Memory (α : Type) where
  /-- The stored trajectory. -/
  trajectory : Option (Trajectory α) := none
  /-- The time one difference step ahead. -/
  time : Datum α
  /-- The state predicted for that time. -/
  state : Option (Tensor α) := none
  /-- The defects to be had then. -/
  defects : Option (Defects α) := none
  /-- The stationarity then, of the actions as they are. -/
  stationarity : Option (Tensor α) := none

variable {α : Type} [Scalar α]

/-- The memory before any call. -/
def Memory.blank : Memory α := { time := .number (.real 0) }

/-- A flat vector as one action for each step. -/
def unflatten (system : Continuation α) (flat : Tensor α) : Except (Fault α) (Tensor α) :=
  flat.reshape system.problem.horizon.divisions system.problem.model.actionDim

/-- The actions one difference step further in a direction. -/
def moved (system : Continuation α) (actions direction : Tensor α) :
    Except (Fault α) (Tensor α) := do
  actions.plus (← direction.scaleBy system.differenceStep)

/-- Set the point, and predict the state one difference step ahead. -/
def prepare (system : Continuation α) (t : Datum α) (x actions : Tensor α)
    (trajectory : Trajectory α) : Stateful (Memory α) α Unit := do
  modify fun memory => { memory with trajectory := some trajectory }
  let time ← t.plus system.differenceStep
  modify fun memory => { memory with time := .number time }
  if (← actions.count) = 0 then modify fun memory => { memory with state := some x }
  else
    let model := system.problem.model
    let rate ← model.dynamics x (← model.control (← actions.item 0)) t
    let ahead ← x.plus (← rate.scaleBy system.differenceStep)
    modify fun memory => { memory with state := some ahead }

/-- Stationarity and trajectory of actions one difference step ahead. -/
def ahead (system : Continuation α) (actions : Tensor α) :
    Stateful (Memory α) α (Tensor α × Trajectory α) := do
  let memory ← get
  let state ← Stateful.needed memory.state
  let defects ← Stateful.needed memory.defects
  system.problem.condensedStationarity memory.time state actions (some defects)

/-- The factor by which the defects are to decay, `1 - h ζ`. -/
def decayed (system : Continuation α) : Except (Fault α) (Datum α) := do
  let decay ← system.differenceStep.times system.decayRate
  return .number (← (Number.real 1).minus decay)

/-- The residual of no guess, `-ζ F₀ - (F(a) - F₀) / h`. -/
def unguessed (system : Continuation α) (present next : Tensor α) :
    Except (Fault α) (Tensor α) := do
  let decay ← present.scaleBy (.number (← system.decayRate.negate))
  let change ← (← next.minus present).divideBy system.differenceStep
  decay.minus change

/-- The residual of a guess that leads to the stationarity `guessed`,
`(1 / h - ζ) F₀ - F(a + h v) / h`. -/
def guessedResidual (system : Continuation α) (present guessed : Tensor α) :
    Except (Fault α) (Tensor α) := do
  let inverse ← (Datum.number (.real 1)).quotient system.differenceStep
  let weight ← (Datum.number (.real inverse)).minus system.decayRate
  let weighted ← present.scaleBy (.number weight)
  weighted.minus (← guessed.divideBy system.differenceStep)

/-- The residual of a guess at the given actions. -/
def residual (system : Continuation α) (t : Datum α) (x flat guess : Tensor α) :
    Stateful (Memory α) α (Tensor α) := do
  let trajectory ← Stateful.needed (← get).trajectory
  let actions ← system.unflatten flat
  let now ← system.problem.residual t x actions trajectory
  let defects ← now.defects.scaled (← system.decayed)
  modify fun memory => { memory with defects := some defects }
  let (next, _) ← system.ahead actions
  modify fun memory => { memory with stationarity := some next }
  let present := now.stationarity
  if guess.isZero then
    return (← system.unguessed present next).flat
  let (guessed, _) ← system.ahead (← system.moved actions (← system.unflatten guess))
  return (← system.guessedResidual present guessed).flat

/-- The image of a direction at the given actions. -/
def image (system : Continuation α) (flat direction : Tensor α) :
    Stateful (Memory α) α (Tensor α) := do
  let base ← Stateful.needed (← get).stationarity
  let actions ← system.unflatten flat
  let (next, _) ← system.ahead (← system.moved actions (← system.unflatten direction))
  let change ← next.minus base
  return (← change.divideBy system.differenceStep).flat

/-- The rate of change of the trajectory along a direction. -/
def trajectoryRate (system : Continuation α) (actions direction : Tensor α) :
    Stateful (Memory α) α (Trajectory α) := do
  let trajectory ← Stateful.needed (← get).trajectory
  let (_, next) ← system.ahead (← system.moved actions direction)
  let states ← next.states.minus trajectory.states
  let states ← states.divideBy system.differenceStep
  let costates ← next.costates.minus trajectory.costates
  return { states, costates := ← costates.divideBy system.differenceStep }

/-- The linear system at the given actions. -/
def linearized (system : Continuation α) (t : Datum α) (x flat : Tensor α) :
    Krylov.Equation (StateM (Memory α)) α where
  residual guess := system.residual t x flat guess
  image direction := system.image flat direction

end Continuation

end RecedingHorizon

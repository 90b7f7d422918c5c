import RecedingHorizon.Continuation
import RecedingHorizon.Newton

/-!
# The controller

The controller carries a sequence of actions, one for each step of the horizon,
and a trajectory from one sampling instant to the next.  It is seeded once, by a
Newton search on the horizon of length zero, and then follows the solution by one
continuation step for each measurement: a single Krylov solve gives the rate of
change of the actions, and actions and trajectory are moved along it for the
length of a sampling period.

A call that fails leaves behind what it had changed by then.  So the order of the
assignments below is part of what the controller does.  What the parts of a step
remember, the workspace of the Krylov solver and the memory of the linear system,
stays behind as well.

What a new controller carries is zero, on a horizon of any length.  It is not laid
out before it is asked for.

* `Controller.ofSettings`: a controller, from checked settings.
* `Controller.State`: what it carries.
* `Controller.seed`, `Controller.update`, `Controller.residualNorm`: the
  calls.
* `Controller.simulate`: the controller in a loop with its own model.
-/

namespace RecedingHorizon

/-- What a controller is set to. -/
structure Controller (α : Type) where
  model : Model α
  settings : Settings α
  /-- The number of steps of the horizon. -/
  divisions : Nat
  solver : Krylov.Solver α

namespace Controller

/-- What a controller carries from call to call. -/
structure State (α : Type) where
  /-- The time from which the horizon grows. -/
  start : Datum α
  actions : Thunk (Tensor α)
  /-- The latest rate of change of the actions, from which the next solve starts. -/
  direction : Thunk (Tensor α)
  trajectory : Thunk (Trajectory α)
  initialized : Bool
  outcome : Option (Krylov.Outcome α)
  params : Option (InitParams α)
  workspace : Krylov.Workspace α
  /-- What the linear system of the latest step remembers. -/
  memory : Continuation.Memory α

variable {α : Type} [Scalar α]

/-- A controller for a model, from checked settings. -/
def ofSettings (model : Model α) (settings : Settings α) : Except (Fault α) (Controller α) := do
  let divisions := settings.divisions.toNat
  let dim : Datum α := .number (.whole (divisions * model.actionDim))
  let solver ← Krylov.Solver.ofExtents dim settings.krylovLimit settings.relativeTolerance
  Tensor.checkRoom [divisions, model.actionDim]
  Tensor.checkRoom [divisions + 1, model.stateDim]
  return { model, settings, divisions, solver }

/-- The shape of a sequence of actions. -/
def actionsShape (controller : Controller α) : List Nat :=
  [controller.divisions, controller.model.actionDim.toNat]

/-- The shape of the states or costates at all nodes. -/
def nodesShape (controller : Controller α) : List Nat :=
  [controller.divisions + 1, controller.model.stateDim.toNat]

/-- No actions, or none to change. -/
def still (controller : Controller α) : Tensor α := .zeros controller.actionsShape

/-- The trajectory at rest. -/
def rest (controller : Controller α) : Trajectory α :=
  ⟨.zeros controller.nodesShape, .zeros controller.nodesShape⟩

/-- The state of a new controller. -/
def blank (controller : Controller α) : State α where
  start := Horizon.defaultStart
  actions := Thunk.mk fun _ => controller.still
  direction := Thunk.mk fun _ => controller.still
  trajectory := Thunk.mk fun _ => controller.rest
  initialized := false
  outcome := none
  params := none
  workspace := controller.solver.workspace
  memory := .blank

/-- The horizon, from the time at which it starts. -/
def horizon (controller : Controller α) (start : Datum α) : Horizon α where
  finalLength := controller.settings.horizonLength
  growthRate := controller.settings.growthRate
  divisions := .number (.whole controller.divisions)
  start := start

/-- The model on its horizon. -/
def problem (controller : Controller α) (start : Datum α) : Problem α :=
  ⟨controller.model, controller.horizon start⟩

/-- The linear systems of its continuation steps. -/
def continuation (controller : Controller α) (start : Datum α) : Continuation α where
  problem := controller.problem start
  differenceStep := controller.settings.differenceStep
  decayRate := controller.settings.decayRate

/-- The control part of the first action; empty on a horizon without steps. -/
def firstControl (controller : Controller α) (actions : Tensor α) :
    Except (Fault α) (Tensor α) :=
  if controller.divisions = 0 then .ok (.ofVec [])
  else do controller.model.control (← actions.item 0)

/-! ## Checks -/

/-- The measured state, if it has the dimension of the model. -/
def checkState (controller : Controller α) (measured : Datum α) :
    Except (Fault α) (Tensor α) := do
  let x ← measured.tensor
  if x.shape.map Int.ofNat = [controller.model.stateDim] then return x
  throw (.stateShape x.shape controller.model.stateDim)

/-- Fail unless there is a solution to follow. -/
def requireInitialized : Stateful (State α) α Unit := do
  if !(← get).initialized then throw .uninitialized

/-! ## The initial solution -/

/-- Set the parameters of the initial solve. -/
def setInitParams (controller : Controller α) (draft : InitParams.Draft α) :
    Stateful (State α) α Unit := do
  let params ← draft.check
  if (params.guess.length : Int) ≠ controller.model.actionDim then
    throw (.guessShape [params.guess.length] controller.model.actionDim)
  modify fun state => { state with params := some params }

/-- The parameters of the initial solve unless told otherwise. -/
def defaultInitParams (controller : Controller α) : Except (Fault α) (InitParams.Draft α) := do
  let actionDim := controller.model.actionDim
  return {
    guess := .ofTensor (← Tensor.blank [actionDim])
    residualTolerance := .number (.real 1e-6)
    iterationLimit := 50
    differenceStep := controller.settings.differenceStep
    krylovLimit := .number (.whole actionDim) }

/-- Seed the controller at time `t`: every step of the horizon starts from the
action found by the search, and the trajectory is shot from these.  Answers the
control to apply. -/
def seed (controller : Controller α) (t : Datum α) (measured : Datum α) :
    Stateful (State α) α (Tensor α) := do
  let x ← controller.checkState measured
  let params ←
    match (← get).params with
    | some params => pure params
    | none => do (← controller.defaultInitParams).check
  let initial ←
    Newton.solve controller.model t x params (.number (.whole controller.divisions))
  let actions := initial.action.replicate controller.divisions
  modify fun state =>
    { state with
      start := t
      actions := .pure actions
      direction := Thunk.mk fun _ => controller.still }
  let δ ← (controller.horizon t).step t
  let trajectory ← controller.model.condense t x actions (.number (.real δ)) none
  modify fun state => { state with trajectory := .pure trajectory, initialized := true }
  controller.model.control initial.action

/-! ## Following the solution -/

/-- Solve for the rate of change of the actions and of the trajectory.  The rate
of the actions is remembered as soon as it is known. -/
def rates (controller : Controller α) (t : Datum α) (x : Tensor α) :
    Stateful (State α) α (Tensor α × Trajectory α) := do
  let state ← get
  let actions := state.actions.get
  let system := controller.continuation state.start
  let (prepared, memory) :=
    (system.prepare t x actions state.trajectory.get).runOn state.memory
  modify fun state => { state with memory }
  prepared
  let linear := system.linearized t x actions.flat
  let ((outcome, workspace), memory) :=
    (controller.solver.solve linear (some state.direction.get.flat) state.workspace).run memory
  modify fun state => { state with workspace, memory }
  let outcome ← outcome
  modify fun state => { state with outcome := some outcome }
  let direction ← system.unflatten outcome.solution
  modify fun state => { state with direction := .pure direction }
  let (rate, _) := (system.trajectoryRate actions direction).runOn memory
  return (direction, ← rate)

/-- An array after a sampling period at the given rate. -/
def advanced (period : Datum α) (a rate : Tensor α) : Except (Fault α) (Tensor α) := do
  a.increase (← rate.scaleBy period)

/-- Advance by one continuation step: time `t`, sampling period `period`, and the
state measured at `t`.  Answers the first control of the new sequence. -/
def update (controller : Controller α) (t period : Datum α) (measured : Datum α) :
    Stateful (State α) α (Tensor α) := do
  requireInitialized
  if !(← period.isPositive) then throw (.unmet .samplingPeriod .positive period)
  let x ← controller.checkState measured
  let (direction, rate) ← controller.rates t x
  let actions ← advanced period (← get).actions.get direction
  modify fun state => { state with actions := .pure actions }
  let trajectory := (← get).trajectory.get
  let states ← advanced period trajectory.states rate.states
  modify fun state => { state with trajectory := .pure { trajectory with states } }
  let costates ← advanced period trajectory.costates rate.costates
  modify fun state => { state with trajectory := .pure { states, costates } }
  controller.firstControl actions

/-- The norm of the residual of the sequence and trajectory as they are, at time
`t` and the state measured then. -/
def residualNorm (controller : Controller α) (t : Datum α) (measured : Datum α) :
    Stateful (State α) α α := do
  requireInitialized
  let x ← controller.checkState measured
  let state ← get
  let problem := controller.problem state.start
  return (← problem.residual t x state.actions.get state.trajectory.get).norm

/-! ## In the loop -/

/-- What a simulation has come to. -/
structure Simulation (α : Type) where
  time : Datum α
  state : Tensor α
  /-- The control applied last. -/
  control : Option (Tensor α) := none
  /-- The number of directions each cycle has used. -/
  iterations : List Nat := []

/-- One cycle: a measurement, the control for it, and an Euler step of the model
under this control. -/
def cycle (controller : Controller α) (period : Datum α) (run : Simulation α) :
    Stateful (State α) α (Simulation α) := do
  let control ← controller.update run.time period (.ofTensor run.state)
  let used := (← get).outcome.elim 0 Krylov.Outcome.iterations
  let rate ← controller.model.dynamics run.state control run.time
  let next ← run.state.plus (← rate.scaleBy period)
  return {
    time := .number (← run.time.plus period)
    state := next
    control := some control
    iterations := run.iterations ++ [used] }

/-- The controller in a loop with its model, for a number of cycles. -/
def simulate (controller : Controller α) (period : Datum α) :
    Nat → Simulation α → Stateful (State α) α (Simulation α)
  | 0, run => pure run
  | cycles + 1, run => do
      controller.simulate period cycles (← controller.cycle period run)

end Controller

end RecedingHorizon

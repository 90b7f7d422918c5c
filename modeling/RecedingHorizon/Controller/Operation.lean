import RecedingHorizon.Controller

/-!
# Operations on a controller

Everything a caller can ask of a controller, as data: an operation, its reply,
and the replies of a whole sequence of operations.  An operation that fails does
not stop the ones after it.
-/

namespace RecedingHorizon

namespace Controller

/-- A call. -/
inductive Operation (α : Type) where
  | setInitParams (given : Arguments α)
  | seed (t : Datum α) (measured : Datum α)
  | update (t period : Datum α) (measured : Datum α)
  | residualNorm (t : Datum α) (measured : Datum α)
  /-- The control to apply now. -/
  | control
  | actions
  | trajectory
  | direction
  /-- The outcome of the latest Krylov solve. -/
  | outcome
  /-- Length and step of the horizon at a time. -/
  | horizon (t : Datum α)
  /-- A number of cycles in the loop, and the residual norm at their end. -/
  | simulate (t period : Datum α) (measured : Datum α) (cycles : Nat)

/-- What a call answers. -/
inductive Reply (α : Type) where
  | done
  | array (a : Tensor α)
  | updated (control : Tensor α) (outcome : Option (Krylov.Outcome α))
  | scalar (a : α)
  | trajectory (p : Trajectory α)
  | outcome (outcome : Option (Krylov.Outcome α))
  | span (length step : α)
  | simulated (run : Simulation α) (residualNorm : α)

variable {α : Type} [Scalar α]

/-- Carry out a call. -/
def perform (controller : Controller α) :
    Operation α → Stateful (State α) α (Reply α)
  | .setInitParams given => do
      controller.setInitParams (← InitParams.Draft.ofArguments given)
      return .done
  | .seed t measured => .array <$> controller.seed t measured
  | .update t period measured => do
      let control ← controller.update t period measured
      return .updated control (← get).outcome
  | .residualNorm t measured => .scalar <$> controller.residualNorm t measured
  | .control => do return .array (← controller.firstControl (← get).actions.get)
  | .actions => do return .array (← get).actions.get
  | .trajectory => do return .trajectory (← get).trajectory.get
  | .direction => do return .array (← get).direction.get
  | .outcome => do return .outcome (← get).outcome
  | .horizon t => do
      let horizon := controller.horizon (← get).start
      return .span (← horizon.length t) (← horizon.step t)
  | .simulate t period measured cycles => do
      let run ← controller.simulate period cycles { time := t, state := ← measured.tensor }
      return .simulated run (← controller.residualNorm run.time (.ofTensor run.state))

/-- Carry out calls one after the other, each on the state the one before has
left. -/
def performAll (controller : Controller α) :
    List (Operation α) → State α → List (Except (Fault α) (Reply α)) × State α
  | [], state => ([], state)
  | operation :: operations, state =>
      let (reply, state) := (controller.perform operation).runOn state
      let (replies, state) := controller.performAll operations state
      (reply :: replies, state)

end Controller

end RecedingHorizon

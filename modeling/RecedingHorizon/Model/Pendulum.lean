import RecedingHorizon.Model.Basic
import RecedingHorizon.Settings
import RecedingHorizon.Tensor.Given

/-!
# A damped pendulum with a bounded torque

The pendulum `θ̈ = -(g/l) sin θ - b θ̇ + u` with `|u| ≤ m`.  The bound is posed as
the equality `u² + v² - m² = 0` with a dummy input `v`, which the cost rewards
linearly so that it stays away from zero.  An action is `(u, v, ρ)`.

The constants are kept as they were given, and each is looked at by the functions
that use it.  So the quotient `g/l` is formed whenever the motion is asked for,
and a pendulum of length zero has a cost but no motion.  The damping and the reward
enter a Jacobian and a gradient as they are, and these may have to keep them so.
-/

namespace RecedingHorizon

/-- The constants of a pendulum and of its cost. -/
structure Pendulum (α : Type) where
  gravity : Datum α
  length : Datum α
  damping : Datum α
  /-- The bound on the torque. -/
  bound : Datum α
  /-- The angle aimed at. -/
  target : Datum α
  /-- The weights of angle and speed along the way. -/
  stageWeight : Tensor α
  /-- The weights of angle and speed at the end. -/
  terminalWeight : Tensor α
  torqueWeight : Datum α
  /-- The reward of the dummy input. -/
  reward : Datum α

namespace Pendulum

variable {α : Type} [Scalar α]

/-- The pendulum unless told otherwise. -/
def standard : Pendulum α where
  gravity := .number (.real 9.80665)
  length := .number (.real 1)
  damping := .number (.real 0.1)
  bound := .number (.real 2.0)
  target := .number (.real 0)
  stageWeight := .ofVec [1, 0.1]
  terminalWeight := .ofVec [1, 0.1]
  torqueWeight := .number (.real 1)
  reward := .number (.real 0.1)

/-- Angle and speed of a state, which has to have just these. -/
def angleAndSpeed (x : Tensor α) : Except (Fault α) (Tensor α × Tensor α) :=
  match x.shape with
  | [] => .error .noItems
  | 2 :: _ => do return (← x.item 0, ← x.item 1)
  | _ => .error .shapeMismatch

/-- Angle and speed as seen from the target. -/
def deviation (p : Pendulum α) (x : Tensor α) : Except (Fault α) (Tensor α) := do
  let angle ← (← x.item 0).minusDatum p.target
  Tensor.ofItems [angle, ← x.item 1]

/-- The squares of the entries.  That of a bare number is found as a power. -/
def squares (a : Tensor α) : Tensor α :=
  if a.rank = 0 then a.map Scalar.square else a.map fun x => x * x

/-- The entry of a bare number. -/
def bare (a : Tensor α) : Except (Fault α) α :=
  match a.shape, a.entries with
  | [], [x] => .ok x
  | _, _ => .error .ragged

/-- The rate of change of angle and speed. -/
def motion (p : Pendulum α) (x u : Tensor α) : Except (Fault α) (Tensor α) := do
  let (angle, speed) ← angleAndSpeed x
  let stiffness ← p.gravity.quotient p.length
  let pull := (angle.map Scalar.sin).scale (-stiffness)
  let free ← pull.minus (← speed.scaleItemBy p.damping)
  Tensor.ofItems [speed, ← free.plus (← u.item 0)]

/-- The Jacobian of the motion in the state. -/
def motionByState (p : Pendulum α) (x : Tensor α) : Except (Fault α) (Gathered α) := do
  let stiffness ← p.gravity.quotient p.length
  let pull := ((← x.item 0).map Scalar.cos).scale (-stiffness)
  let drag ← p.damping.negate
  Gathered.ofNumbers ⟨[2, 2], [.real 0, .real 1, .real (← bare pull), drag], rfl⟩

/-- The gradient of the stage cost in torque and dummy input. -/
def costByControl (p : Pendulum α) (u : Tensor α) : Except (Fault α) (Gathered α) := do
  let torque ← (← u.item 0).scaleItemBy p.torqueWeight
  let reward ← p.reward.negate
  Gathered.ofNumbers ⟨[2], [.real (← bare torque), reward], rfl⟩

/-- How far torque and dummy input are from the bound. -/
def constraint (p : Pendulum α) (u : Tensor α) : Except (Fault α) (Tensor α) := do
  let torque := squares (← u.item 0)
  let dummy := squares (← u.item 1)
  let sum ← torque.plus dummy
  let square ← p.bound.square
  Tensor.ofItems [← sum.minusDatum (.number square)]

/-- Whether the reward is kept as it was given. -/
def keepsReward (p : Pendulum α) : Bool := p.reward.number?.any fun a => a.negate.isWide

/-- The stage of a pendulum. -/
def stage (p : Pendulum α) : StageModel α where
  stateDim := 2
  controlDim := 2
  constraintDim := 1
  dynamics x u _ := p.motion x u
  dynamicsByState x _ _ := p.motionByState x
  dynamicsByControl _ _ _ := .ok ⟨[2, 2], [0, 0, 1, 0], rfl⟩
  costByState x _ _ := do p.stageWeight.times (← p.deviation x)
  costByControl _ u _ := p.costByControl u
  terminalGradient x _ := do p.terminalWeight.times (← p.deviation x)
  constraint? := some fun _ u _ => p.constraint u
  constraintByControl? := some fun _ u _ => do
    let torque ← u.item 0
    let dummy ← u.item 1
    Tensor.ofItems [← Tensor.ofItems [torque.scale 2.0, dummy.scale 2.0]]
  keepsNumbers := p.keepsReward

/-- The pendulum whose constants are given by name; the others are the standard
ones. -/
def ofArguments (given : Arguments α) : Except (Fault α) (Pendulum α) := do
  given.checkNames ["gravity", "length", "damping", "u_max", "theta_ref", "q", "q_f", "r",
    "r_dummy"]
  let number (name : String) (default : Datum α) : Datum α := (given.lookup name).getD default
  let weights (name : String) (default : Tensor α) : Except (Fault α) (Tensor α) :=
    match given.lookup name with
    | some weights => weights.tensor
    | none => .ok default
  return {
    gravity := number "gravity" standard.gravity
    length := number "length" standard.length
    damping := number "damping" standard.damping
    bound := number "u_max" standard.bound
    target := number "theta_ref" standard.target
    stageWeight := ← weights "q" standard.stageWeight
    terminalWeight := ← weights "q_f" standard.terminalWeight
    torqueWeight := number "r" standard.torqueWeight
    reward := number "r_dummy" standard.reward }

end Pendulum

end RecedingHorizon

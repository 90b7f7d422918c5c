import RecedingHorizon.Tensor.Given

/-!
# Models

A model says how the controlled system moves and what is to be minimised, by the
derivatives the solver needs: the dynamics, the gradient of the terminal cost,
and the gradients of the Hamiltonian

    H(x, u, ρ, λ, t) = l(x, u, t) + λᵀ f(x, u, t) + ρᵀ c(x, u, t)

in the state and in the controls.  Controls and multipliers travel together: an
*action* is a control `u` followed by the multipliers `ρ` of the constraints, and
the control gradient ends with the constraint residuals, which are the gradient
in `ρ`.

A model is four functions and three dimensions.  The functions take arrays and
answer with arrays, vectors of the dimensions as a rule, and they may fail.  The
dimensions are what the model says they are; one below zero is found to be no
dimension where an array of it is made.  Most models are written more easily by
the partial derivatives of a single stage, and `StageModel.toModel` assembles the
gradients from these.
-/

namespace RecedingHorizon

/-- A model, as the solver sees it. -/
structure Model (α : Type) where
  stateDim : Int
  controlDim : Int
  constraintDim : Int
  /-- The rate of change `f(x, u, t)` of the state. -/
  dynamics (x u : Tensor α) (t : Datum α) : Except (Fault α) (Tensor α)
  /-- The gradient of the terminal cost. -/
  terminalGradient (x : Tensor α) (t : Datum α) : Except (Fault α) (Tensor α)
  /-- The gradient of the Hamiltonian in the state. -/
  stateGradient (x action costate : Tensor α) (t : Datum α) : Except (Fault α) (Tensor α)
  /-- The gradient of the Hamiltonian in the control and the multipliers. -/
  controlGradient (x action costate : Tensor α) (t : Datum α) : Except (Fault α) (Tensor α)
  /-- Whether the control gradient has entries that came of numbers kept as they were
  given.  Those are not divided by zero. -/
  keepsNumbers : Bool := false

/-- The length of an action: controls and multipliers. -/
def Model.actionDim {α : Type} (model : Model α) : Int :=
  model.controlDim + model.constraintDim

/-- The control part of an action. -/
def Model.control {α : Type} (model : Model α) (action : Tensor α) :
    Except (Fault α) (Tensor α) :=
  action.front model.controlDim

/-- A function of state, control and time that may be left open. -/
abbrev Slot (α : Type) := Option (Tensor α → Tensor α → Datum α → Except (Fault α) (Tensor α))

/-- A model by the partial derivatives of a stage.  Constraints and their
derivatives are zero unless given. -/
structure StageModel (α : Type) where
  stateDim : Int
  controlDim : Int
  constraintDim : Int := 0
  dynamics (x u : Tensor α) (t : Datum α) : Except (Fault α) (Tensor α)
  /-- The Jacobian of the dynamics in the state. -/
  dynamicsByState (x u : Tensor α) (t : Datum α) : Except (Fault α) (Gathered α)
  /-- The Jacobian of the dynamics in the control. -/
  dynamicsByControl (x u : Tensor α) (t : Datum α) : Except (Fault α) (Tensor α)
  /-- The gradient of the stage cost in the state. -/
  costByState (x u : Tensor α) (t : Datum α) : Except (Fault α) (Tensor α)
  /-- The gradient of the stage cost in the control. -/
  costByControl (x u : Tensor α) (t : Datum α) : Except (Fault α) (Gathered α)
  terminalGradient (x : Tensor α) (t : Datum α) : Except (Fault α) (Tensor α)
  /-- The constraint residual, to be held at zero. -/
  constraint? : Slot α := none
  constraintByState? : Slot α := none
  constraintByControl? : Slot α := none
  /-- Whether the gradient of the stage cost in the control keeps numbers as they were
  given. -/
  keepsNumbers : Bool := false

namespace StageModel

variable {α : Type} [Scalar α]

/-- The constraint residual. -/
def constraint (stage : StageModel α) (x u : Tensor α) (t : Datum α) :
    Except (Fault α) (Tensor α) :=
  match stage.constraint? with
  | some f => f x u t
  | none => Tensor.blank [stage.constraintDim]

/-- The Jacobian of the constraint in the state. -/
def constraintByState (stage : StageModel α) (x u : Tensor α) (t : Datum α) :
    Except (Fault α) (Tensor α) :=
  match stage.constraintByState? with
  | some f => f x u t
  | none => Tensor.blank [stage.constraintDim, stage.stateDim]

/-- The Jacobian of the constraint in the control. -/
def constraintByControl (stage : StageModel α) (x u : Tensor α) (t : Datum α) :
    Except (Fault α) (Tensor α) :=
  match stage.constraintByControl? with
  | some f => f x u t
  | none => Tensor.blank [stage.constraintDim, stage.controlDim]

/-- The forces the multipliers exert by a Jacobian with `width` columns, which is zero
unless given. -/
def forces (stage : StageModel α) (jacobian : Slot α) (width : Int) (x u : Tensor α)
    (t : Datum α) (multipliers : Tensor α) : Except (Fault α) (Tensor α) :=
  match jacobian with
  | some f => do (← f x u t).pullback multipliers
  | none => Tensor.pullbackZeros stage.constraintDim width multipliers

/-- An action as a control and its multipliers. -/
def split (stage : StageModel α) (action : Tensor α) :
    Except (Fault α) (Tensor α × Tensor α) := do
  return (← action.front stage.controlDim, ← action.back stage.controlDim)

/-- The gradient of the Hamiltonian in the state. -/
def stateGradient (stage : StageModel α) (x action costate : Tensor α) (t : Datum α) :
    Except (Fault α) (Tensor α) := do
  let (u, multipliers) ← stage.split action
  let cost ← stage.costByState x u t
  let flow ← (← stage.dynamicsByState x u t).pullback costate
  let gradient ← cost.plus flow
  if stage.constraintDim = 0 then return gradient
  gradient.plus (← stage.forces stage.constraintByState? stage.stateDim x u t multipliers)

/-- The gradient of the Hamiltonian in the control, followed by the constraint
residuals if there are any. -/
def controlGradient (stage : StageModel α) (x action costate : Tensor α) (t : Datum α) :
    Except (Fault α) (Tensor α) := do
  let (u, multipliers) ← stage.split action
  let cost ← stage.costByControl x u t
  let flow ← (← stage.dynamicsByControl x u t).pullback costate
  let gradient ← cost.plus flow
  if stage.constraintDim = 0 then return gradient
  let forces ← stage.forces stage.constraintByControl? stage.controlDim x u t multipliers
  (← gradient.plus forces).append (← stage.constraint x u t)

/-- The model of a stage. -/
def toModel (stage : StageModel α) : Model α where
  stateDim := stage.stateDim
  controlDim := stage.controlDim
  constraintDim := stage.constraintDim
  dynamics := stage.dynamics
  terminalGradient := stage.terminalGradient
  stateGradient := stage.stateGradient
  controlGradient := stage.controlGradient
  keepsNumbers := stage.keepsNumbers

/-- A stage with functions left open. -/
structure Outline (α : Type) where
  stateDim : Int := 0
  controlDim : Int := 0
  dynamics : Slot α := none
  dynamicsByState : Slot α := none
  dynamicsByControl : Slot α := none
  costByState : Slot α := none
  costByControl : Slot α := none
  terminalGradient : Option (Tensor α → Datum α → Except (Fault α) (Tensor α)) := none

/-- The unconstrained stage of an outline.  Every function has to be there. -/
def ofOutline (outline : Outline α) : Except (Fault α) (StageModel α) :=
  match outline with
  | ⟨stateDim, controlDim, some dynamics, some dynamicsByState, some dynamicsByControl,
      some costByState, some costByControl, some terminalGradient⟩ =>
      .ok {
        stateDim, controlDim, dynamics, dynamicsByControl, costByState, terminalGradient
        dynamicsByState := fun x u t => .scalars <$> dynamicsByState x u t
        costByControl := fun x u t => .scalars <$> costByControl x u t }
  | _ => .error .incompleteModel

end StageModel

end RecedingHorizon

import RecedingHorizon.Model.Basic
import RecedingHorizon.Tensor.Given

/-!
# Small models

Models on which the solver can be watched: a control gradient that vanishes to
third order, a system without dynamics or cost, and a rotating system whose
partial derivatives all depend on time, without and with a constraint.
-/

namespace RecedingHorizon

namespace Model

variable {α : Type} [Scalar α]

/-- The system `ẋ = u` in one dimension, with control gradient `u³`. -/
def quartic : Model α where
  stateDim := 1
  controlDim := 1
  constraintDim := 0
  dynamics _ u _ := .ok u
  terminalGradient _ _ := .ok (.ofVec [0])
  stateGradient _ _ _ _ := .ok (.ofVec [0])
  controlGradient _ action _ _ := .ok (action.map fun a => a * a * a)

/-- A system at rest: `n` states, `m` controls, and the controls themselves as
control gradient. -/
def atRest (n m : Int) : Model α where
  stateDim := n
  controlDim := m
  constraintDim := 0
  dynamics _ _ _ := Tensor.blank [n]
  terminalGradient _ _ := Tensor.blank [n]
  stateGradient _ _ _ _ := Tensor.blank [n]
  controlGradient _ action _ _ := .ok action

end Model

namespace StageModel

variable {α : Type} [Scalar α]

/-- A rotating system with two states and one control, drifting at rate `p`, with
`constraints` constraints that always hold. -/
def rotation (p : Datum α) (constraints : Int) : StageModel α where
  stateDim := 2
  controlDim := 1
  constraintDim := constraints
  dynamics x u t := do
    let a ← (← x.item 1).plusDatum (.number (← p.times t))
    let swing ← (← u.item 0).times (← x.item 1)
    let b ← swing.minus (← x.item 0)
    Tensor.ofItems [a, ← b.plus (← (← u.item 0).scaleItemBy t)]
  dynamicsByState _ u _ := do
    let turn ← Tensor.ofItems [.single (-1), ← u.item 0]
    return .scalars (← Tensor.ofItems [.ofVec [0, 1], turn])
  dynamicsByControl x _ t := do
    let slope ← (← x.item 1).plusDatum t
    Tensor.ofItems [.ofVec [0], ← Tensor.ofItems [slope]]
  costByState x _ t := do
    let a ← (← x.item 0).minusDatum t
    let b ← x.item 1
    Tensor.ofItems [a, b.scale 2.0]
  costByControl x u t := do
    let w ← u.item 0
    let drift ← (← (← x.item 0).scaleItemBy p).scaleItemBy t
    return .scalars (← Tensor.ofItems [← w.plus drift])
  terminalGradient x t := do
    let a ← (← x.item 0).minusDatum t
    Tensor.ofItems [a, ← (← x.item 1).scaleItemBy t]

/-- The rotating system under the constraint `x₀ u + x₁ = t`. -/
def constrainedRotation (p : Datum α) : StageModel α :=
  { rotation p 1 with
    constraint? := some fun x u t => do
      let product ← (← x.item 0).times (← u.item 0)
      let sum ← product.plus (← x.item 1)
      Tensor.ofItems [← sum.minusDatum t]
    constraintByState? := some fun _ u _ => do
      Tensor.ofItems [← Tensor.ofItems [← u.item 0, .single 1]]
    constraintByControl? := some fun x _ _ => do
      Tensor.ofItems [← Tensor.ofItems [← x.item 0]] }

end StageModel

end RecedingHorizon

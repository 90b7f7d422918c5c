import RecedingHorizon.Tensor

/-!
# The receding horizon

The horizon starts with length zero and grows towards its final length,
`L(t) = T (1 - exp (-a (t - t₀)))`; at growth rate zero it has the final length
from the start.  It is cut into `N` equal steps.  Before its start it has no
length, and that is a fault, which is found before anything else is.

The number of steps is a whole number wherever a controller runs, but a schedule
is read at any number: a fractional one divides the length all the same, and its
grid has one node for each whole number from zero to it, the last one rounded
up.
-/

namespace RecedingHorizon

/-- A schedule of horizon lengths. -/
structure Horizon (α : Type) where
  /-- The length approached. -/
  finalLength : Datum α
  /-- The rate at which it is approached. -/
  growthRate : Datum α
  /-- The number of steps. -/
  divisions : Datum α
  /-- The time at which the length is zero. -/
  start : Datum α

namespace Horizon

variable {α : Type} [Scalar α]

/-- The start of a schedule unless told otherwise. -/
def defaultStart : Datum α := .number (.real 0)

/-- The fault of a time before the start.  It quotes both. -/
def early (t start : Datum α) : Fault α :=
  if t.isQuotable && start.isQuotable then .beforeStart t start else .unquotable

/-- The part of the final length that is reached at time `t`. -/
def grown (horizon : Horizon α) (t : Datum α) : Except (Fault α) α := do
  let rate ← horizon.growthRate.negate
  let exponent ← rate.times (← t.minus horizon.start)
  return 1 - Scalar.exp (← exponent.operand)

/-- The length of the horizon at time `t`. -/
def length (horizon : Horizon α) (t : Datum α) : Except (Fault α) α := do
  if ← t.lt horizon.start then throw (early t horizon.start)
  if horizon.growthRate.isZero then horizon.finalLength.scalar
  else
    let part ← horizon.grown t
    return (← horizon.finalLength.scalar) * part

/-- The length of one step at time `t`; zero for a horizon without steps. -/
def step (horizon : Horizon α) (t : Datum α) : Except (Fault α) α := do
  let length ← horizon.length t
  if horizon.divisions.isZero then return 0
  return length / (← horizon.divisions.scalar)

/-- The number of nodes of the grid.  It is measured by a scalar, and a number of
nodes that is just past the largest index is taken for none. -/
def nodeCount (horizon : Horizon α) : Except (Fault α) Nat := do
  let bound ←
    match ← horizon.divisions.asNumber with
    | .whole n => Number.ofWhole (n + 1)
    | .real x => pure (x + 1)
  if !Scalar.isFinite bound then throw .undefinedCount
  let count := Scalar.ceil bound
  if count = Tensor.indexBound then return 0
  if !Tensor.isIndex count then throw .oversized
  Tensor.checkRoom [max count 0]
  return count.toNat

/-- The times of the nodes, from `t` on. -/
def grid (horizon : Horizon α) (t : Datum α) : Except (Fault α) (Vec α) := do
  let step ← horizon.step t
  let count ← horizon.nodeCount
  let first ← t.scalar
  return (List.range count).map fun (i : Nat) => first + step * (i : α)

end Horizon

end RecedingHorizon

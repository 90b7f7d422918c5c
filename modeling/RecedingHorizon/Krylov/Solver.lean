import RecedingHorizon.Krylov.Arnoldi
import RecedingHorizon.Tensor.Broadcast

/-!
# The Krylov solver

The solver minimises `‖b - A v‖` over the guess plus the Krylov space of its
residual, growing the space by one direction at a time, up to a limit and
without restart.  The norm of the residual is known at every step without
forming the solution: it is the entry of the turned right-hand side that is not
yet settled.

A solve ends in one of four ways (`Ending`).  It may reach its limit, or the
relative tolerance.  The rest of an image may be negligible against the image,
so that the space cannot grow: then the solution lies in it.  Or the pivot may
vanish with it, and the operator is singular on the space.

The solver works in a `Workspace` that outlives the solve.  Each solve clears
the directions, the columns and the right-hand side.  The rotations are
overwritten in place as they are found, and of these a solve reads only those it
has written.

A solver needs no matrix.  It asks for the residual of its guess, once and before
anything else, and then for the image of one direction after another.  An
`Equation` is what answers.  It answers in a monad, so that it may remember: the
residual may prepare what the images need, and an observer may keep a record of
what was asked.

* `Equation.ofOperator`: `A v = b` for an operator and a right-hand side.
* `Query`, `Equation.recorded`: what can be asked, and the same equation keeping a
  record of what is.
* `Solver.ofExtents`: a solver for systems of a given dimension.
* `Workspace.absorb`: one step, given the image of the latest direction.
* `Solver.iterate`, `Solver.solve`: the solve.
* `solveOperator`: a solve with a workspace of its own.
-/

namespace RecedingHorizon

namespace Krylov

/-! ## Linear equations known by what they answer -/

/-- A linear equation `A v = b` that answers in the monad `m`. -/
structure Equation (m : Type → Type) (α : Type) where
  /-- The residual `b - A guess`. -/
  residual (guess : Tensor α) : ExceptT (Fault α) m (Tensor α)
  /-- The image `A direction`. -/
  image (direction : Tensor α) : ExceptT (Fault α) m (Tensor α)

/-- What an equation can be asked. -/
inductive Query (α : Type) where
  | residual (guess : Tensor α)
  | image (direction : Tensor α)

/-- The direction whose image is asked for. -/
def Query.direction? {α : Type} : Query α → Option (Tensor α)
  | residual _ => none
  | image direction => some direction

namespace Equation

variable {α : Type} {m : Type → Type}

/-- The residual of a guess for `A v = b`.  The operator is not asked about a
guess that is zero, whatever its shape. -/
def operatorResidual [Scalar α] (A : Tensor α → Except (Fault α) (Tensor α))
    (b guess : Tensor α) : Except (Fault α) (Tensor α) :=
  if guess.isZero then .ok b else do b.minus (← A guess)

/-- The equation `A v = b`. -/
def ofOperator [Scalar α] [Monad m] (A : Tensor α → Except (Fault α) (Tensor α))
    (b : Tensor α) : Equation m α where
  residual guess := ExceptT.mk (pure (operatorResidual A b guess))
  image direction := ExceptT.mk (pure (A direction))

/-- An equation with a record of what it is asked, the latest query last. -/
def recorded [Monad m] (equation : Equation m α) :
    Equation (StateT (List (Query α)) m) α where
  residual guess := ExceptT.mk do
    modify (· ++ [.residual guess])
    StateT.lift (equation.residual guess).run
  image direction := ExceptT.mk do
    modify (· ++ [.image direction])
    StateT.lift (equation.image direction).run

end Equation

/-! ## The solver -/

variable {α : Type} [Scalar α]

/-- What a solver is set to: the dimension of its systems, the most directions it
uses, and the relative residual at which it stops. -/
structure Solver (α : Type) where
  dim : Nat
  limit : Nat
  relativeTolerance : Datum α

/-- The outcome of a solve. -/
structure Outcome (α : Type) where
  solution : Tensor α
  /-- The number of directions in use. -/
  iterations : Nat
  /-- The norm of the residual of the guess. -/
  initialResidualNorm : α
  /-- The norm of the residual of the solution, as the rotations tell it. -/
  residualNorm : α
  converged : Bool
  /-- Whether the space stopped growing. -/
  breakdown : Bool

/-- The residual of a solution relative to that of the guess; zero if the guess
left none. -/
def reduction (initialResidualNorm residualNorm : Datum α) : Except (Fault α) α :=
  if initialResidualNorm.isZero then .ok 0 else residualNorm.quotient initialResidualNorm

/-- The reduction a solve has achieved. -/
def Outcome.reduction (outcome : Outcome α) : α :=
  if Scalar.isZero outcome.initialResidualNorm then 0
  else outcome.residualNorm / outcome.initialResidualNorm

/-- Measured in scalars, a reduction has always a value. -/
theorem reduction_outcome (outcome : Outcome α) :
    Krylov.reduction (.number (.real outcome.initialResidualNorm))
      (.number (.real outcome.residualNorm)) = .ok outcome.reduction := by
  unfold Krylov.reduction Outcome.reduction
  simp only [Datum.isZero_number, Number.isZero_real, Datum.quotient_number,
    Number.quotient_real, Number.scalarQuotient]
  split <;> rfl

/-- What a solver computes with. -/
structure Workspace (α : Type) where
  /-- The directions, the latest one last. -/
  basis : List (Vec α)
  /-- The triangular columns; column `j` has `j + 1` entries. -/
  columns : List (Vec α)
  /-- As many rotations as there can be columns. -/
  rotations : List (Rotation α)
  /-- The settled entries of the turned right-hand side, one for each column. -/
  settled : Vec α
  /-- The entry of the turned right-hand side after the settled ones. -/
  remainder : α

/-- How the growth of the space ends. -/
inductive Ending where
  | limit
  | tolerance
  | breakdown
  | singular
  deriving DecidableEq

namespace Workspace

/-- The workspace of a new solver. -/
def fresh (limit : Nat) : Workspace α where
  basis := []
  columns := []
  rotations := List.replicate limit Rotation.unset
  settled := []
  remainder := 0

/-- The workspace at the start of a solve. -/
def cleared (w : Workspace α) : Workspace α :=
  { w with basis := [], columns := [], settled := [], remainder := 0 }

/-- The workspace with its first direction, for a residual of norm `β`. -/
def seeded (w : Workspace α) (first : Vec α) (β : α) : Workspace α :=
  { w with basis := [first], remainder := β }

/-- The latest direction. -/
def direction (w : Workspace α) : Vec α := w.basis.getLastD []

/-- A rest this much smaller than the image it is left of counts as nothing. -/
def negligible : α := 1e-12

/-- One step, given the image of the latest direction.  The step says whether the
space stops growing with it. -/
def absorb (w : Workspace α) (image : Vec α) : Workspace α × Option Ending :=
  let (components, rest) := orthogonalize w.basis image
  let height := Vec.norm rest
  let breakdown : Bool := height ≤ negligible * Vec.norm image
  let basis := if breakdown then w.basis else w.basis ++ [Vec.divide rest height]
  let k := w.columns.length
  let (upper, pivot) := turnColumn (w.rotations.take k) components
  let ν := Scalar.hypot pivot height
  if Scalar.isZero ν then ({ w with basis }, some .singular)
  else
    let rotation := Rotation.toAxis pivot height ν
    let (settled, remainder) := rotation.turn w.remainder 0
    ({ basis
       columns := w.columns ++ [upper ++ [ν]]
       rotations := w.rotations.set k rotation
       settled := w.settled ++ [settled]
       remainder },
      if breakdown then some .breakdown else none)

/-- The coefficients of the solution along the directions.  The triangular system
is looked at only if all of it is finite. -/
def coefficients (w : Workspace α) : Except (Fault α) (Vec α) :=
  if w.columns.all Vec.isFinite && Vec.isFinite w.settled then
    .ok (backSubstitute w.columns.reverse w.settled)
  else .error .nonFiniteSystem

end Workspace

namespace Solver

/-- A solver for systems of dimension `dim`, using at most `limit` directions and
never more than there are dimensions.  Both have to be given as whole numbers. -/
def ofExtents (dim limit relativeTolerance : Datum α) : Except (Fault α) (Solver α) := do
  let limit ← (← limit.atMost dim).extent
  let dim ← dim.extent
  Tensor.checkRoom [limit + 1, dim]
  Tensor.checkRoom [limit + 1, limit]
  return { dim := dim.toNat, limit := limit.toNat, relativeTolerance }

/-- The workspace of a new solver. -/
def workspace (solver : Solver α) : Workspace α := Workspace.fresh solver.limit

/-- The outcome for a guess whose residual counts as zero. -/
def exact (guess : Tensor α) (β : α) : Outcome α where
  solution := guess
  iterations := 0
  initialResidualNorm := β
  residualNorm := β
  converged := true
  breakdown := false

/-- Whether the residual left is within the relative tolerance. -/
def within (solver : Solver α) (β : α) (w : Workspace α) : Except (Fault α) Bool := do
  let tolerance ← solver.relativeTolerance.scalar
  return Scalar.abs w.remainder ≤ tolerance * β

/-- The solution in a finished workspace. -/
def solution (solver : Solver α) (guess : Tensor α) (w : Workspace α) :
    Except (Fault α) (Tensor α) :=
  if w.columns.isEmpty then .ok guess
  else do
    let y ← w.coefficients
    guess.increase (.ofVec (Vec.combine solver.dim w.basis y))

/-- Whether a solve that has come to its end is a success. -/
def succeeded (solver : Solver α) (β : α) (w : Workspace α) (ending : Ending) :
    Except (Fault α) Bool :=
  match ending with
  | .singular => .ok false
  | .breakdown => .ok true
  | .limit | .tolerance => solver.within β w

/-- The outcome of a finished workspace. -/
def conclude (solver : Solver α) (guess : Tensor α) (β : α) (w : Workspace α)
    (ending : Ending) : Except (Fault α) (Outcome α) := do
  return {
    solution := ← solver.solution guess w
    iterations := w.columns.length
    initialResidualNorm := β
    residualNorm := Scalar.abs w.remainder
    converged := ← solver.succeeded β w ending
    breakdown := ending == .breakdown || ending == .singular }

/-- The image of a direction as a vector.  Its components along the directions are
single numbers only if it is a vector of the dimension of the system. -/
def imageVector (solver : Solver α) (image : Tensor α) : Except (Fault α) (Vec α) :=
  if image.shape = [solver.dim] then .ok image.entries else .error .shapeMismatch

/-- One step, given the image of the latest direction: how the growth of the space
ends with it, if it does. -/
def step (solver : Solver α) (β : α) (image : Tensor α) (w : Workspace α) :
    Except (Fault α) (Option Ending) × Workspace α :=
  match solver.imageVector image with
  | .error fault => (.error fault, w)
  | .ok image =>
      match w.absorb image with
      | (w, some ending) => (.ok (some ending), w)
      | (w, none) =>
          ((solver.within β w).map fun reached => if reached then some .tolerance else none, w)

variable {m : Type → Type} [Monad m]

/-- Grow the space by at most `left` more directions. -/
def iterate (solver : Solver α) (equation : Equation m α) (β : α) :
    Nat → Workspace α → m (Except (Fault α) Ending × Workspace α)
  | 0, w => pure (.ok .limit, w)
  | left + 1, w => do
      match ← (equation.image (.ofVec w.direction)).run with
      | .error fault => pure (.error fault, w)
      | .ok image =>
          match solver.step β image w with
          | (.error fault, w) => pure (.error fault, w)
          | (.ok (some ending), w) => pure (.ok ending, w)
          | (.ok none, w) => solver.iterate equation β left w

/-- Solve an equation from a guess, or from zero. -/
def solve (solver : Solver α) (equation : Equation m α) (guess : Option (Tensor α))
    (w : Workspace α) : m (Except (Fault α) (Outcome α) × Workspace α) := do
  let guess := guess.getD (Tensor.zeros [solver.dim])
  let w := w.cleared
  match ← (equation.residual guess).run with
  | .error fault => pure (.error fault, w)
  | .ok residual =>
      let β := residual.norm
      if β < Scalar.tiny then pure (.ok (exact guess β), w)
      else
        match (residual.divide β).vector solver.dim with
        | .error fault => pure (.error fault, w)
        | .ok first => do
            let (ending, w) ← solver.iterate equation β solver.limit (w.seeded first β)
            pure (ending.bind (solver.conclude guess β w), w)

end Solver

/-- Solve `A v = b` for an operator `A`, from a guess or from zero, using at most
`limit` directions, or as many as `b` has entries. -/
def solveOperator (A : Tensor α → Except (Fault α) (Tensor α)) (b : Tensor α)
    (guess : Option (Tensor α)) (limit : Option (Datum α)) (relativeTolerance : Datum α) :
    Except (Fault α) (Outcome α) := do
  let dim : Datum α := .number (.whole (← b.count))
  let solver ← Solver.ofExtents dim (limit.getD dim) relativeTolerance
  (solver.solve (m := Id) (Equation.ofOperator A b) guess solver.workspace).run.1

end Krylov

end RecedingHorizon

import RecedingHorizon.Model.Basic
import RecedingHorizon.Settings

/-!
# Linear systems with quadratic cost

The system `ẋ = A x + B u` with

    l(x, u) = ½ (x - r)ᵀ Q (x - r) + ½ uᵀ R u,    φ(x) = ½ (x - r)ᵀ F (x - r),

where `r` is a reference state.  The number of states is read off `A` and the
number of controls off `B`; whether the other matrices fit shows when they are
used.
-/

namespace RecedingHorizon

/-- The matrices of a linear system with quadratic cost. -/
structure LinearQuadratic (α : Type) where
  A : Tensor α
  B : Tensor α
  Q : Tensor α
  R : Tensor α
  /-- The weight of the terminal cost. -/
  F : Tensor α
  reference : Tensor α

namespace LinearQuadratic

variable {α : Type} [Scalar α]

/-- The stage of a linear system with quadratic cost. -/
def stage (system : LinearQuadratic α) : StageModel α where
  stateDim := system.A.shape.headD 0
  controlDim := (system.B.shape.drop 1).headD 0
  dynamics x u _ := do
    let drift ← system.A.product x
    drift.plus (← system.B.product u)
  dynamicsByState _ _ _ := .ok (.scalars system.A)
  dynamicsByControl _ _ _ := .ok system.B
  costByState x _ _ := do system.Q.product (← x.minus system.reference)
  costByControl _ u _ := .scalars <$> system.R.product u
  terminalGradient x _ := do system.F.product (← x.minus system.reference)

/-- The system of the given matrices.  The terminal weight is that of the stage
and the reference state zero unless given. -/
def ofMatrices (A B Q R : Tensor α) (F reference : Option (Tensor α)) :
    LinearQuadratic α where
  A := A
  B := B
  Q := Q
  R := R
  F := F.getD Q
  reference := reference.getD (Tensor.zeros [A.shape.headD 0])

/-- An array as a matrix: a number is a matrix with one entry and a vector a
matrix with one row. -/
def asMatrix (a : Tensor α) : Tensor α :=
  match h : a.shape with
  | [] => ⟨[1, 1], a.entries, by rw [a.length_entries, h]; rfl⟩
  | [n] => ⟨[1, n], a.entries, by rw [a.length_entries, h]; simp⟩
  | _ => a

/-- The matrix written as a literal. -/
def matrix (literal : Datum α) : Except (Fault α) (Tensor α) := asMatrix <$> literal.tensor

/-- The system whose matrices are given by name, each as an array literal.  The
four matrices without a default have to be there. -/
def ofArguments (given : Arguments α) : Except (Fault α) (LinearQuadratic α) := do
  given.checkNames ["A", "B", "Q", "R", "Q_f", "x_ref"]
  let A ← given.find "A"
  let B ← given.find "B"
  let Q ← given.find "Q"
  let R ← given.find "R"
  return ofMatrices (← matrix A) (← matrix B) (← matrix Q) (← matrix R)
    (← (given.lookup "Q_f").mapM matrix) (← (given.lookup "x_ref").mapM Datum.tensor)

/-- The system `ẋ = u` in one dimension, whose weights are given by name.  The
weights of stage and control are two unless given, and the terminal weight that
of the stage. -/
def integratorOfArguments (given : Arguments α) : Except (Fault α) (LinearQuadratic α) := do
  given.checkNames ["q", "r", "q_f"]
  let single (weight : Datum α) : Datum α := .list [.list [weight]]
  let weight (name : String) : Datum α := (given.lookup name).getD (.number (.real 2.0))
  let terminal := (given.lookup "q_f").toList.map fun weight => ("Q_f", single weight)
  ofArguments <|
    [("A", single (.number (.real 0))), ("B", single (.number (.real 1))),
      ("Q", single (weight "q")), ("R", single (weight "r"))] ++ terminal

end LinearQuadratic

end RecedingHorizon

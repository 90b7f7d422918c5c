import RecedingHorizon.Tensor.Broadcast
import RecedingHorizon.Tensor

/-!
# Products of arrays

The product of two matrices takes rows into columns.  An array with more indices
is a stack of matrices, one for each value of the indices before the last two,
and stacks are repeated to fit each other.  A vector is a matrix with one row on
the left, with one column on the right, and that index is dropped again.  A bare
number has no product.

The product of a matrix and a vector, which is what a solve consists of, is
spelled out: it is the row of inner products, and with the transposed matrix it
is the combination of the rows.

* `Tensor.product`, `Tensor.pullback`: `A b` and `Aᵀ b`.
* `Tensor.pullbackZeros`: `0ᵀ b` for a zero matrix of any extents, which is not
  made unless it fits.
-/

namespace RecedingHorizon

namespace Tensor

variable {α : Type} [Scalar α]

/-- The rows of a matrix with `width` columns. -/
def rows (height width : Nat) (a : Tensor α) : List (Vec α) :=
  Vec.pieces width height a.entries

/-- The stack of the products of an `m × k` matrix and a `k × n` matrix, for stacks
of the shapes `outer` and `outer'`, given the common shape.  The shape of the
result is given by the caller, who knows which indices are dropped. -/
def stackedProduct (a b : Tensor α) (m k n : Nat) (outer outer' common shape : List Nat) :
    Tensor α :=
  tabulate shape fun i =>
    let at' := i / (m * n)
    let row := source common outer at' * (m * k) + i / n % m * k
    let column := source common outer' at' * (k * n) + i % n
    Vec.sum ((List.range k).map fun l => a.entry (row + l) * b.entry (column + l * n))

/-- The product of two stacks of matrices.  `shape` turns the shape of the stack
into that of the result. -/
def matrixProduct (a b : Tensor α) (left right : List Nat) (shape : List Nat → List Nat) :
    Except (Fault α) (Tensor α) :=
  match left.reverse, right.reverse with
  | k :: m :: outer, n :: l :: outer' =>
      if k = l then
        match broadcast? outer.reverse outer'.reverse with
        | some common =>
            .ok (stackedProduct a b m k n outer.reverse outer'.reverse common (shape common))
        | none => .error .shapeMismatch
      else .error .shapeMismatch
  | _, _ => .error .shapeMismatch

/-- The product `A b`. -/
def product (a b : Tensor α) : Except (Fault α) (Tensor α) :=
  match a.shape, b.shape with
  | [], _ | _, [] => .error .shapeMismatch
  | [k], [l] => if k = l then .ok (single (Vec.dot a.entries b.entries)) else .error .shapeMismatch
  | [m, k], [l] =>
      if k = l then .ok (ofVec ((a.rows m k).map fun r => Vec.dot r b.entries))
      else .error .shapeMismatch
  | [k], right =>
      matrixProduct a b [1, k] right fun common => common ++ [right.getLastD 0]
  | left, [l] =>
      matrixProduct a b left [l, 1] fun common => common ++ [(left.reverse.drop 1).headD 0]
  | left, right =>
      matrixProduct a b left right fun common =>
        common ++ [(left.reverse.drop 1).headD 0, right.getLastD 0]

/-- The place in an array of the given shape that holds what stands at place `i`
once its indices are reversed. -/
def reversedPlace : List Nat → Nat → Nat
  | [], _ => 0
  | n :: shape, i => i % n * volume shape + reversedPlace shape (i / n)

/-- The array with its indices reversed. -/
def transpose (a : Tensor α) : Tensor α :=
  tabulate a.shape.reverse fun i => a.entry (reversedPlace a.shape i)

/-- The product `Aᵀ b`. -/
def pullback (a b : Tensor α) : Except (Fault α) (Tensor α) :=
  match a.shape, b.shape with
  | [m, n], [l] =>
      if m = l then .ok (ofVec (Vec.combine n (a.rows m n) b.entries)) else .error .shapeMismatch
  | _, _ => a.transpose.product b

/-- The extent along which an array is summed when it stands on the right of a
product. -/
def inner? (b : Tensor α) : Option Nat :=
  match b.shape.reverse with
  | [] => none
  | [l] => some l
  | _ :: l :: _ => some l

/-- The product `0ᵀ b` for a zero matrix of the given extents. -/
def pullbackZeros (height width : Int) (b : Tensor α) : Except (Fault α) (Tensor α) := do
  checkRoom [height, width]
  if b.inner? = some height.toNat then (zeros [height.toNat, width.toNat]).pullback b
  else throw .shapeMismatch

end Tensor

end RecedingHorizon

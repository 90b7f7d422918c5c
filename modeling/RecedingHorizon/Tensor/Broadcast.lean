import RecedingHorizon.Tensor

/-!
# Arrays that are repeated to fit

Two arrays of one shape meet entry by entry.  Arrays of different shapes may meet
as well: shapes are aligned at their last index, and along an index where one of
them has extent one, or none at all, its entries are repeated.  Extents that
differ otherwise do not fit.

An array may also be asked to take a given shape, as a row of a matrix does that
is written to.  It then may be repeated, and may lose indices of extent one at
its front.  Where a single entry is written to, nothing but a bare number will do.

* `broadcast?`: the common shape of two shapes.
* `Tensor.plus`, `Tensor.minus`, `Tensor.times`.
* `Tensor.spread`: an array in a given shape.
* `Row.increase`, `Tensor.increase`: an array to which another is added in place.
* `Tensor.vector`: an array as a vector of a given length.
-/

namespace RecedingHorizon

/-- The common shape of two shapes, all given from the last index on. -/
def broadcastReversed? : List Nat → List Nat → Option (List Nat)
  | [], shape => some shape
  | shape, [] => some shape
  | m :: s, n :: t =>
      (broadcastReversed? s t).bind fun rest =>
        if m = n then some (m :: rest)
        else if m = 1 then some (n :: rest)
        else if n = 1 then some (m :: rest)
        else none

/-- The common shape of two shapes, if they fit. -/
def broadcast? (s t : List Nat) : Option (List Nat) :=
  (broadcastReversed? s.reverse t.reverse).map List.reverse

/-- The place that is read for place `i` of a wider shape; both shapes are given
from the last index on. -/
def sourceReversed : List Nat → List Nat → Nat → Nat
  | n :: wide, m :: narrow, i =>
      (if m = 1 then 0 else i % n) + m * sourceReversed wide narrow (i / n)
  | _, _, _ => 0

/-- The place of an array of shape `narrow` that is read for place `i` of the shape
`wide`. -/
def source (wide narrow : List Nat) (i : Nat) : Nat :=
  sourceReversed wide.reverse narrow.reverse i

namespace Tensor

variable {α : Type} [Scalar α]

/-- The array repeated to a wider shape. -/
def repeated (a : Tensor α) (shape : List Nat) : Tensor α :=
  tabulate shape fun i => a.entry (source shape a.shape i)

/-- An operation on entries, carried out entry by entry. -/
def pointwise (op : α → α → α) (a b : Tensor α) : Except (Fault α) (Tensor α) :=
  if h : a.shape = b.shape then
    .ok ⟨a.shape, List.zipWith op a.entries b.entries, by
      rw [List.length_zipWith, a.length_entries, b.length_entries, h, Nat.min_self]⟩
  else
    match broadcast? a.shape b.shape with
    | none => .error .shapeMismatch
    | some shape =>
        let a := a.repeated shape
        let b := b.repeated shape
        .ok (tabulate shape fun i => op (a.entry i) (b.entry i))

def plus (a b : Tensor α) : Except (Fault α) (Tensor α) := pointwise (· + ·) a b

def minus (a b : Tensor α) : Except (Fault α) (Tensor α) := pointwise (· - ·) a b

/-- The entrywise product. -/
def times (a b : Tensor α) : Except (Fault α) (Tensor α) := pointwise (· * ·) a b

/-- A shape without the indices of extent one at its front that go beyond a given
rank. -/
def trimmed (rank : Nat) : List Nat → List Nat
  | 1 :: shape => if rank ≤ shape.length then trimmed rank shape else 1 :: shape
  | shape => shape

/-- The array in a given shape. -/
def spread (shape : List Nat) (a : Tensor α) : Except (Fault α) (Row α shape) :=
  if h : a.shape = shape then .ok ⟨a, h⟩
  else
    let narrow := trimmed shape.length a.shape
    if shape ≠ [] ∧ broadcast? narrow shape = some shape then
      .ok ⟨tabulate shape fun i => a.entry (source shape narrow i), rfl⟩
    else .error .shapeMismatch

end Tensor

/-- The sum of two arrays, in the place of the first and so in its shape. -/
def Row.increase {α : Type} [Scalar α] {shape : List Nat} (a : Row α shape) (b : Tensor α) :
    Except (Fault α) (Row α shape) := do
  let sum ← a.1.plus b
  if h : sum.shape = shape then return ⟨sum, h⟩
  throw .shapeMismatch

namespace Tensor

variable {α : Type} [Scalar α]

/-- The sum of two arrays, in the place of the first and so in its shape. -/
def increase (a b : Tensor α) : Except (Fault α) (Tensor α) :=
  Subtype.val <$> Row.increase a.row b

/-- The array as a vector of length `n`. -/
def vector (n : Nat) (a : Tensor α) : Except (Fault α) (Vec α) :=
  (fun r => r.1.entries) <$> a.spread [n]

theorem plus_ofVec {u v : Vec α} (h : u.length = v.length) :
    plus (ofVec u) (ofVec v) = .ok (ofVec (Vec.add u v)) := by
  have hs : (ofVec u).shape = (ofVec v).shape := by simp [h]
  rw [plus, pointwise, dif_pos hs]
  exact congrArg _ (ext_of_entries (by simp [h]) rfl)

theorem minus_ofVec {u v : Vec α} (h : u.length = v.length) :
    minus (ofVec u) (ofVec v) = .ok (ofVec (Vec.sub u v)) := by
  have hs : (ofVec u).shape = (ofVec v).shape := by simp [h]
  rw [minus, pointwise, dif_pos hs]
  exact congrArg _ (ext_of_entries (by simp [h]) rfl)

/-- An array in the shape it has. -/
@[simp] theorem spread_self (a : Tensor α) : a.spread a.shape = .ok a.row := dif_pos rfl

/-- A row in the shape it has. -/
@[simp] theorem spread_row {shape : List Nat} (r : Row α shape) : r.1.spread shape = .ok r :=
  dif_pos r.2

@[simp] theorem vector_ofVec (v : Vec α) : (ofVec v).vector v.length = .ok v := by
  simp [vector, spread, Functor.map, Except.map]

end Tensor

end RecedingHorizon

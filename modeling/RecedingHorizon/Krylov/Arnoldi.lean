import RecedingHorizon.Vec

/-!
# The arithmetic of one Krylov step

One step of the solver takes the image of the latest direction, splits it into
its components along the directions so far and a rest, turns the components by
the rotations found so far, and finds one more rotation that removes the length
of the rest.  The components that have been turned form a triangular column; the
triangular system is solved at the end.

* `orthogonalize`: components and rest, each direction taken out in turn.
* `Rotation`: a plane rotation; `turnColumn` applies a list of them to a column,
  each to the pair of entries that begins at its own place.
* `backSubstitute`: the solution of the triangular system.
-/

namespace RecedingHorizon

namespace Krylov

variable {α : Type} [Scalar α]

/-! ## Splitting off components -/

/-- The components of `w` along the given directions and what is left of it.
Each direction is taken out of what the ones before it have left. -/
def orthogonalize : List (Vec α) → Vec α → Vec α × Vec α
  | [], w => ([], w)
  | v :: vs, w =>
      let component := Vec.dot w v
      let (components, rest) := orthogonalize vs (Vec.sub w (Vec.scale component v))
      (component :: components, rest)

/-! ## Rotations -/

/-- A rotation of the plane by its cosine and sine. -/
structure Rotation (α : Type) where
  c : α
  s : α

namespace Rotation

/-- The rotation that is not set. -/
def unset : Rotation α := ⟨0, 0⟩

/-- The pair `(a, b)` turned. -/
def turn (r : Rotation α) (a b : α) : α × α := (r.c * a + r.s * b, -r.s * a + r.c * b)

/-- The rotation that takes `(a, b)`, of length `ν`, to `(ν, 0)`. -/
def toAxis (a b ν : α) : Rotation α := ⟨a / ν, b / ν⟩

end Rotation

/-- A column turned by as many rotations as it has entries but one: the entries
above the last, and the last one, the pivot. -/
def turnColumn : List (Rotation α) → Vec α → Vec α × α
  | r :: rs, a :: b :: v =>
      let (a, b) := r.turn a b
      let (upper, pivot) := turnColumn rs (b :: v)
      (a :: upper, pivot)
  | _, a :: _ => ([], a)
  | _, [] => ([], 0)

/-! ## The triangular system -/

/-- The solution of the triangular system whose columns are given from the last
one back; column `j` has `j + 1` entries. -/
def backSubstitute : List (Vec α) → Vec α → Vec α
  | [], _ => []
  | column :: columns, target =>
      let j := columns.length
      let y := target.getD j 0 / column.getD j 0
      backSubstitute columns (Vec.sub (target.take j) (Vec.scale y (column.take j))) ++ [y]

@[simp] theorem length_orthogonalize_fst (vs : List (Vec α)) (w : Vec α) :
    (orthogonalize vs w).1.length = vs.length := by
  induction vs generalizing w with
  | nil => rfl
  | cons v vs ih => simp [orthogonalize, ih]

/-- What is left of a vector has its length. -/
theorem length_orthogonalize_snd {n : Nat} {vs : List (Vec α)} {w : Vec α}
    (hvs : ∀ v ∈ vs, v.length = n) (hw : w.length = n) : (orthogonalize vs w).2.length = n := by
  induction vs generalizing w with
  | nil => exact hw
  | cons v vs ih =>
      rw [orthogonalize]
      refine ih (fun u hu => hvs u (List.mem_cons_of_mem v hu)) ?_
      rw [Vec.length_sub, Vec.length_scale, hvs v List.mem_cons_self, hw, Nat.min_self]

@[simp] theorem length_backSubstitute (columns : List (Vec α)) (target : Vec α) :
    (backSubstitute columns target).length = columns.length := by
  induction columns generalizing target with
  | nil => rfl
  | cons column columns ih => simp [backSubstitute, ih]

end Krylov

end RecedingHorizon

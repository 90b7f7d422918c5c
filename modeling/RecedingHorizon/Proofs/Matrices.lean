import RecedingHorizon.Proofs.Nodes
import RecedingHorizon.Proofs.Real

/-!
# Arrays read as matrices

An array with two indices is also a matrix, and the products of arrays are those
of linear algebra: `product` applies the matrix and `pullback` its transpose.

* `transpose_mulVec_dotProduct`: a matrix in a pairing.
* `Vec.combine_map_ofFn`: a combination of vectors is the sum of their multiples.
* `Tensor.ofMatrix`: the array of a matrix; `exists_eq_ofMatrix` says that every
  array of such a shape is one.
* `product_ofMatrix`, `pullback_ofMatrix`: the products with a vector.
-/

namespace RecedingHorizon

open scoped Matrix

variable {m n : ℕ}

/-- In a pairing a matrix passes over to the other side as its transpose. -/
theorem transpose_mulVec_dotProduct {k l : ℕ} (M : Matrix (Fin k) (Fin l) ℝ) (v : Fin k → ℝ)
    (w : Fin l → ℝ) : Mᵀ *ᵥ v ⬝ᵥ w = v ⬝ᵥ M *ᵥ w := by
  rw [Matrix.mulVec_transpose, Matrix.dotProduct_mulVec]

namespace Vec

theorem add_ofFn (u v : Fin n → ℝ) :
    Vec.add (List.ofFn u) (List.ofFn v) = List.ofFn (u + v) := by
  apply List.ext_getElem
  · simp
  · simp [Vec.add]

theorem sub_ofFn (u v : Fin n → ℝ) :
    Vec.sub (List.ofFn u) (List.ofFn v) = List.ofFn (u - v) := by
  apply List.ext_getElem
  · simp
  · simp [Vec.sub]

theorem scale_ofFn (c : ℝ) (v : Fin n → ℝ) : Vec.scale c (List.ofFn v) = List.ofFn (c • v) := by
  rw [Vec.scale, List.map_ofFn]
  rfl

theorem divide_ofFn (c : ℝ) (v : Fin n → ℝ) :
    Vec.divide (List.ofFn v) c = List.ofFn (c⁻¹ • v) := by
  rw [Vec.divide, List.map_ofFn]
  refine congrArg List.ofFn (funext fun i => ?_)
  simp [div_eq_inv_mul]

theorem zeros_eq_ofFn : (Vec.zeros n : Vec ℝ) = List.ofFn (0 : Fin n → ℝ) := by
  rw [Vec.zeros, ← List.ofFn_const]
  rfl

/-- Vectors added up one after the other. -/
theorem foldl_add_ofFn (vs : List (Fin n → ℝ)) (z : Fin n → ℝ) :
    (vs.map List.ofFn).foldl Vec.add (List.ofFn z) = List.ofFn (z + vs.sum) := by
  induction vs generalizing z with
  | nil => simp
  | cons v vs ih =>
      rw [List.map_cons, List.foldl_cons, add_ofFn, ih, List.sum_cons, add_assoc]

/-- A combination of vectors is the sum of their multiples. -/
theorem combine_map_ofFn (vs : List (Fin n → ℝ)) (y : Vec ℝ) :
    Vec.combine n (vs.map List.ofFn) y = List.ofFn (List.zipWith (· • ·) y vs).sum := by
  have h : List.zipWith Vec.scale y (vs.map List.ofFn) =
      (List.zipWith (· • ·) y vs).map List.ofFn := by
    rw [List.zipWith_map_right, List.map_zipWith]
    refine congrArg (fun f => List.zipWith f y vs) (funext fun c => funext fun v => ?_)
    exact scale_ofFn c v
  rw [Vec.combine, h, zeros_eq_ofFn, foldl_add_ofFn, zero_add]

end Vec

namespace Tensor

/-- The norm of the array of a vector. -/
theorem norm_ofFn (v : Fin n → ℝ) : (ofFn v).norm = √(v ⬝ᵥ v) := by
  rw [norm, entries_ofFn, Vec.norm_ofFn]

/-- The array of a matrix. -/
def ofMatrix {α : Type} (M : Matrix (Fin m) (Fin n) α) : Tensor α :=
  ofRows (List.ofFn fun i => nodeRow (M i))

@[simp] theorem shape_ofMatrix {α : Type} (M : Matrix (Fin m) (Fin n) α) :
    (ofMatrix M).shape = [m, n] := by
  simp [ofMatrix]

/-- The array of zeros is that of the matrix of zeros. -/
theorem zeros_eq_ofMatrix : (zeros [m, n] : Tensor ℝ) = ofMatrix (0 : Matrix (Fin m) (Fin n) ℝ) :=
  zeros_eq_ofNodes (N := m)

/-- Zeros that memory has room for. -/
theorem blank_matrix (h : checkRoom [(m : ℤ), (n : ℤ)] = (.ok () : Except (Fault ℝ) Unit)) :
    blank [(m : ℤ), (n : ℤ)] = .ok (ofMatrix (0 : Matrix (Fin m) (Fin n) ℝ)) := by
  rw [blank, h, ok_bind]
  exact congrArg Except.ok zeros_eq_ofMatrix

/-- A vector as the only row. -/
theorem ofItems_singleton {α : Type} (v : Fin n → α) :
    ofItems [ofFn v] = .ok (ofMatrix (Matrix.of fun _ : Fin 1 => v)) := by
  have hs : ∀ a ∈ [ofFn v], a.shape = [n] := fun a ha => by rw [List.mem_singleton.1 ha, shape_ofFn]
  have hrank : ¬ rankLimit ≤ [n].length := by simp [rankLimit]
  show stack (ofFn v).shape [ofFn v] = _
  rw [shape_ofFn, stack, if_neg hrank, dif_pos hs]
  exact congrArg Except.ok (ext_of_entries (by simp) rfl)

/-- An array with two indices is the array of a matrix. -/
theorem exists_eq_ofMatrix {α : Type} [Scalar α] {a : Tensor α} (h : a.shape = [m, n]) :
    ∃ M : Matrix (Fin m) (Fin n) α, a = ofMatrix M := by
  obtain ⟨s, rfl⟩ := exists_eq_ofNodes h
  exact ⟨fun i => s i, rfl⟩

/-- The rows of the array of a matrix. -/
theorem rows_ofMatrix {α : Type} (M : Matrix (Fin m) (Fin n) α) :
    (ofMatrix M).rows m n = (List.ofFn fun i => M i).map List.ofFn := by
  have hentries : (ofMatrix M).entries = ((List.ofFn fun i => M i).map List.ofFn).flatten := by
    rw [ofMatrix, entries_ofRows, List.flatMap_def, List.map_ofFn, List.map_ofFn]
    rfl
  have hp : ∀ p ∈ (List.ofFn fun i => M i).map List.ofFn, p.length = n := by
    intro p hp
    obtain ⟨r, -, rfl⟩ := List.mem_map.1 hp
    exact List.length_ofFn
  have h := Vec.pieces_flatten hp
  rw [List.length_map, List.length_ofFn] at h
  rw [rows, hentries, h]

/-- The product of an array and a vector is that of the matrix. -/
@[simp] theorem product_ofMatrix (M : Matrix (Fin m) (Fin n) ℝ) (v : Fin n → ℝ) :
    (ofMatrix M).product (ofFn v) = .ok (ofFn (M *ᵥ v)) := by
  rw [ofFn, product_ofVec (shape_ofMatrix M) (by simp), rows_ofMatrix, ofFn, List.map_map,
    List.map_ofFn]
  refine congrArg (fun l => Except.ok (ofVec l)) (congrArg List.ofFn (funext fun i => ?_))
  exact Vec.dot_ofFn _ _

/-- The product of a transposed array and a vector is that of the transposed
matrix. -/
@[simp] theorem pullback_ofMatrix (M : Matrix (Fin m) (Fin n) ℝ) (v : Fin m → ℝ) :
    (ofMatrix M).pullback (ofFn v) = .ok (ofFn (Mᵀ *ᵥ v)) := by
  have hz : List.zipWith (· • ·) (List.ofFn v) (List.ofFn fun i => M i) =
      List.ofFn fun i => v i • M i := by
    apply List.ext_getElem
    · simp
    · simp
  have hsum : (List.zipWith (· • ·) (List.ofFn v) (List.ofFn fun i => M i)).sum = Mᵀ *ᵥ v := by
    rw [hz, List.sum_ofFn, Matrix.mulVec_transpose, Matrix.vecMul_eq_sum]
  rw [ofFn, pullback_ofVec (shape_ofMatrix M) (by simp), rows_ofMatrix, Vec.combine_map_ofFn,
    hsum, ofFn]

end Tensor

end RecedingHorizon

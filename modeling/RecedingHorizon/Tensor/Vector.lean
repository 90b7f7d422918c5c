import RecedingHorizon.Tensor.Product

/-!
# Arrays with one index

On arrays that are vectors the operations are those on lists of entries, and none
of them fails as long as lengths fit.  This is what the solver runs on once the
shapes of its input have been looked at.

* `item_ofVec`, `front_ofVec`, `back_ofVec`, `append_ofVec`: taken apart and put
  together.
* `ofItems_single`: a vector from its entries.
* `product_ofVec`, `pullback_ofVec`: a matrix and its transpose.
* `increase_ofVec`: addition in place.
-/

namespace RecedingHorizon

namespace Tensor

variable {α : Type}

theorem item_ofVec {v : Vec α} {i : Nat} (h : i < v.length) :
    (ofVec v).item i = .ok (single v[i]) := by
  simp only [item, ofVec, dif_pos h]
  refine congrArg _ (ext_of_entries rfl ?_)
  simp only [volume_nil, Nat.mul_one, single]
  rw [List.drop_eq_getElem_cons h]
  rfl

theorem front_ofVec (k : Nat) (v : Vec α) : (ofVec v).front k = .ok (ofVec (v.take k)) := by
  simp only [front, ofVec, place_natCast]
  refine congrArg _ (ext_of_entries ?_ ?_)
  · simp [Nat.min_comm]
  · simp only [volume_nil, Nat.mul_one]
    rw [Nat.min_comm, ← List.take_eq_take_min]

theorem back_ofVec (k : Nat) (v : Vec α) : (ofVec v).back k = .ok (ofVec (v.drop k)) := by
  simp only [back, ofVec, place_natCast]
  refine congrArg _ (ext_of_entries ?_ ?_)
  · simp only [List.length_drop]
    congr 1
    omega
  · simp only [volume_nil, Nat.mul_one]
    rcases Nat.le_total k v.length with h | h
    · rw [Nat.min_eq_right h]
    · rw [Nat.min_eq_left h, List.drop_length, List.drop_eq_nil_of_le h]

theorem append_ofVec (u v : Vec α) : (ofVec u).append (ofVec v) = .ok (ofVec (u ++ v)) := by
  simp only [append, ofVec, dif_pos]
  exact congrArg _ (ext_of_entries (by simp) rfl)

theorem ofItems_single (v : Vec α) (hv : v ≠ []) :
    ofItems (v.map single) = .ok (ofVec v) := by
  obtain ⟨x, v, rfl⟩ := List.exists_cons_of_ne_nil hv
  have hs : ∀ a ∈ (x :: v).map single, a.shape = [] := by
    intro a ha
    obtain ⟨y, -, rfl⟩ := List.mem_map.1 ha
    rfl
  have he : ((x :: v).map single).flatMap entries = x :: v := by
    rw [List.flatMap_map]
    exact List.flatMap_singleton' _
  show stack [] ((x :: v).map single) = _
  rw [stack, if_neg (by decide), dif_pos hs]
  exact congrArg _ (ext_of_entries (by simp) he)

variable [Scalar α]

/-- A matrix takes a vector to its inner products with the rows. -/
theorem product_ofVec {a : Tensor α} {m n : Nat} {v : Vec α} (ha : a.shape = [m, n])
    (hv : v.length = n) :
    a.product (ofVec v) = .ok (ofVec ((a.rows m n).map fun r => Vec.dot r v)) := by
  subst hv
  unfold product
  simp [ha]

/-- The transposed matrix takes a vector to the combination of the rows. -/
theorem pullback_ofVec {a : Tensor α} {m n : Nat} {v : Vec α} (ha : a.shape = [m, n])
    (hv : v.length = m) :
    a.pullback (ofVec v) = .ok (ofVec (Vec.combine n (a.rows m n) v)) := by
  subst hv
  unfold pullback
  simp [ha]

theorem increase_ofVec {u v : Vec α} (h : u.length = v.length) :
    (ofVec u).increase (ofVec v) = .ok (ofVec (Vec.add u v)) := by
  have hs : (ofVec (Vec.add u v)).shape = (ofVec u).shape := by simp [h]
  rw [increase, Row.increase, row, plus_ofVec h]
  simp only [bind, Except.bind]
  rw [dif_pos hs]
  rfl

end Tensor

end RecedingHorizon

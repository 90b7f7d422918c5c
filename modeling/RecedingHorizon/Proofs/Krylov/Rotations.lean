import RecedingHorizon.Proofs.Krylov.Frame

/-!
# Rotations and columns as matrices

A solve turns a column by one rotation after the other, each in the plane of two entries that stand
one below the other.  On columns of a fixed height a rotation in such a plane is an orthogonal
matrix, and the rotations of a column are the product of these.  The height does not matter as long
as it is enough: a rotation leaves alone what lies below its plane, and a column that ends above the
plane as well.  This is why columns that have been turned need not be turned again when there are
more rotations.

* `Vec.upTo`, `ofColumns`: columns of a fixed height, and the matrix of some of them.
* `Rotation.plane`: a rotation as a matrix; `plane_mem_orthogonalGroup`, `plane_mulVec_upTo`.
* `turning`: the product of rotations; `turning_mem_orthogonalGroup`, and `turning_mulVec_upTo`,
  that it turns a column as `turnColumn` does.
-/

namespace RecedingHorizon

open scoped Matrix

/-! ## Columns -/

namespace Vec

variable {n : ℕ}

/-- The entries at the first `n` places, zero where there is none. -/
def upTo (n : ℕ) (v : Vec ℝ) : Fin n → ℝ := fun i => v.getD i 0

theorem upTo_apply (v : Vec ℝ) (i : Fin n) : upTo n v i = v.getD i 0 := rfl

/-- Zeros at the end do not show. -/
theorem upTo_append_zero (v : Vec ℝ) : upTo n (v ++ [0]) = upTo n v := by
  funext i
  rw [upTo, upTo]
  rcases lt_trichotomy (i : ℕ) v.length with h | h | h
  · rw [List.getD_append _ _ _ _ h]
  · rw [h, List.getD_append_right _ _ _ _ le_rfl, Nat.sub_self, List.getD_eq_default _ _ le_rfl]
    rfl
  · rw [List.getD_eq_default _ _ (by simp; omega), List.getD_eq_default _ _ h.le]

theorem upTo_singleton (a : ℝ) : upTo (n + 1) [a] = Pi.single 0 a := by
  funext i
  cases i using Fin.cases with
  | zero => rw [Pi.single_eq_same]; rfl
  | succ i => rw [Pi.single_eq_of_ne (Fin.succ_ne_zero i)]; rfl

end Vec

namespace Krylov

/-- The matrix of the first `n` columns, each with `m` entries. -/
def ofColumns (m n : ℕ) (columns : List (Vec ℝ)) : Matrix (Fin m) (Fin n) ℝ :=
  Matrix.of fun i j => (columns.getD j []).getD i 0

section OfColumns

variable {m n : ℕ} {columns : List (Vec ℝ)} {column : Vec ℝ} {i : Fin m} {j : Fin n}

theorem ofColumns_apply (h : columns[(j : ℕ)]? = some column) :
    ofColumns m n columns i j = column.getD i 0 := by
  have hcolumn : columns.getD j [] = column := by
    rw [List.getD_eq_getElem?_getD, h, Option.getD_some]
  rw [ofColumns, Matrix.of_apply, hcolumn]

/-- A column that is not there is zero. -/
theorem ofColumns_of_none (h : columns[(j : ℕ)]? = none) : ofColumns m n columns i j = 0 := by
  have hcolumn : columns.getD j [] = [] := by rw [List.getD_eq_getElem?_getD, h, Option.getD_none]
  rw [ofColumns, Matrix.of_apply, hcolumn]
  rfl

end OfColumns

/-! ## Planes -/

namespace Rotation

variable {n : ℕ} {r : Rotation ℝ} {p q : Fin n}

/-- The rotation of the plane of the coordinates `p` and `q`. -/
noncomputable def plane (r : Rotation ℝ) (p q : Fin n) : Matrix (Fin n) (Fin n) ℝ :=
  ((1 : Matrix (Fin n) (Fin n) ℝ).updateRow p
    (r.c • Pi.single p 1 + r.s • Pi.single q 1)).updateRow q
    (-r.s • Pi.single p 1 + r.c • Pi.single q 1)

theorem plane_mulVec (r : Rotation ℝ) (p q : Fin n) (v : Fin n → ℝ) :
    r.plane p q *ᵥ v =
      Function.update (Function.update v p (r.turn (v p) (v q)).1) q (r.turn (v p) (v q)).2 := by
  rw [plane, Matrix.updateRow_mulVec, Matrix.updateRow_mulVec, Matrix.one_mulVec]
  simp [add_dotProduct, turn]

/-- Entries outside the plane stay, and none is turned if the two of the plane are zero. -/
theorem plane_mulVec_of_eq_zero (r : Rotation ℝ) {v : Fin n → ℝ} (hp : v p = 0) (hq : v q = 0) :
    r.plane p q *ᵥ v = v := by
  rw [plane_mulVec, hp, hq, turn]
  simp only [mul_zero, add_zero]
  rw [← hp, Function.update_eq_self, hp, ← hq, Function.update_eq_self]

theorem transpose_plane (hpq : p ≠ q) :
    (r.plane p q)ᵀ = (⟨r.c, -r.s⟩ : Rotation ℝ).plane p q := by
  ext i j
  simp only [plane, Matrix.transpose_apply, Matrix.updateRow_apply, Matrix.one_apply]
  by_cases hi : i = p <;> by_cases hi' : i = q <;> by_cases hj : j = p <;> by_cases hj' : j = q <;>
    simp_all [Pi.single_apply, eq_comm]

theorem plane_mem_orthogonalGroup (hr : IsRotation r) (hpq : p ≠ q) :
    r.plane p q ∈ Matrix.orthogonalGroup (Fin n) ℝ := by
  rw [Matrix.mem_orthogonalGroup_iff']
  rw [IsRotation] at hr
  refine Matrix.ext_of_mulVec_single fun i => ?_
  rw [transpose_plane hpq, Matrix.one_mulVec, ← Matrix.mulVec_mulVec]
  obtain ⟨v, hv⟩ : ∃ v : Fin n → ℝ, Pi.single i 1 = v := ⟨_, rfl⟩
  rw [hv]
  rw [plane_mulVec, plane_mulVec]
  simp only [turn, Function.update_self, Function.update_of_ne hpq]
  funext j
  by_cases hj' : j = q
  · subst hj'
    rw [Function.update_self]
    linear_combination v j * hr
  · rw [Function.update_of_ne hj']
    by_cases hj : j = p
    · subst hj
      rw [Function.update_self]
      linear_combination v j * hr
    · rw [Function.update_of_ne hj, Function.update_of_ne hj', Function.update_of_ne hj]

/-- On a column that is high enough the pair of entries at `j` is turned. -/
theorem plane_mulVec_upTo (r : Rotation ℝ) {upper : Vec ℝ} {j : ℕ} (hj : upper.length = j)
    (hn : j < n) (a b : ℝ) (lower : Vec ℝ) :
    r.plane (Fin.ofNat (n + 1) j) (Fin.ofNat (n + 1) (j + 1)) *ᵥ
        Vec.upTo (n + 1) (upper ++ a :: b :: lower) =
      Vec.upTo (n + 1) (upper ++ (r.turn a b).1 :: (r.turn a b).2 :: lower) := by
  obtain ⟨p, hp⟩ : ∃ p : Fin (n + 1), Fin.ofNat (n + 1) j = p := ⟨_, rfl⟩
  obtain ⟨q, hq⟩ : ∃ q : Fin (n + 1), Fin.ofNat (n + 1) (j + 1) = q := ⟨_, rfl⟩
  have hp' : (p : ℕ) = j := hp ▸ Nat.mod_eq_of_lt (by omega)
  have hq' : (q : ℕ) = j + 1 := hq ▸ Nat.mod_eq_of_lt (by omega)
  have hfirst (a b : ℝ) : Vec.upTo (n + 1) (upper ++ a :: b :: lower) p = a := by
    rw [Vec.upTo_apply, hp', ← hj, List.getD_append_right _ _ _ _ le_rfl, Nat.sub_self]
    rfl
  have hsecond (a b : ℝ) : Vec.upTo (n + 1) (upper ++ a :: b :: lower) q = b := by
    rw [Vec.upTo_apply, hq', ← hj, List.getD_append_right _ _ _ _ (Nat.le_succ _),
      Nat.succ_sub le_rfl, Nat.sub_self]
    rfl
  rw [hp, hq, plane_mulVec, hfirst, hsecond]
  funext i
  by_cases hiq : i = q
  · rw [hiq, Function.update_self, hsecond]
  · rw [Function.update_of_ne hiq]
    by_cases hip : i = p
    · rw [hip, Function.update_self, hfirst]
    · rw [Function.update_of_ne hip, Vec.upTo_apply, Vec.upTo_apply]
      have hip : (i : ℕ) ≠ upper.length := fun h => hip (Fin.ext (by omega))
      have hiq : (i : ℕ) ≠ upper.length + 1 := fun h => hiq (Fin.ext (by omega))
      rcases lt_or_gt_of_ne hip with h | h
      · rw [List.getD_append _ _ _ _ h, List.getD_append _ _ _ _ h]
      · obtain ⟨k, hk⟩ : ∃ k, (i : ℕ) - upper.length = k + 2 := ⟨i - upper.length - 2, by omega⟩
        rw [List.getD_append_right _ _ _ _ h.le, List.getD_append_right _ _ _ _ h.le, hk]
        rfl

/-- A column that ends above the pair is left alone. -/
theorem plane_mulVec_upTo_of_length_le (r : Rotation ℝ) {v : Vec ℝ} {j : ℕ} (hv : v.length ≤ j)
    (hn : j < n) :
    r.plane (Fin.ofNat (n + 1) j) (Fin.ofNat (n + 1) (j + 1)) *ᵥ Vec.upTo (n + 1) v =
      Vec.upTo (n + 1) v := by
  refine plane_mulVec_of_eq_zero r ?_ ?_
  · rw [Vec.upTo_apply, Fin.val_ofNat, Nat.mod_eq_of_lt (by omega)]
    exact List.getD_eq_default _ _ hv
  · rw [Vec.upTo_apply, Fin.val_ofNat, Nat.mod_eq_of_lt (by omega)]
    exact List.getD_eq_default _ _ (by omega)

end Rotation

/-! ## Products of rotations -/

variable {n j : ℕ} {rs : List (Rotation ℝ)}

/-- The product of the rotations, each in the plane of the pair at its own place, of which the first
one is at `j`.  The first one is the first to be applied. -/
noncomputable def turning (n : ℕ) : ℕ → List (Rotation ℝ) → Matrix (Fin (n + 1)) (Fin (n + 1)) ℝ
  | _, [] => 1
  | j, r :: rs =>
      turning n (j + 1) rs * r.plane (Fin.ofNat (n + 1) j) (Fin.ofNat (n + 1) (j + 1))

theorem turning_concat (rs : List (Rotation ℝ)) (r : Rotation ℝ) :
    turning n j (rs ++ [r]) =
      r.plane (Fin.ofNat (n + 1) (j + rs.length)) (Fin.ofNat (n + 1) (j + rs.length + 1)) *
        turning n j rs := by
  induction rs generalizing j with
  | nil => rw [List.nil_append, turning, turning, turning, one_mul, mul_one]; rfl
  | cons q rs ih =>
      rw [List.cons_append, turning, ih, turning, List.length_cons, Matrix.mul_assoc,
        Nat.add_right_comm j 1, Nat.add_assoc j rs.length 1]

theorem turning_mem_orthogonalGroup (hrs : ∀ r ∈ rs, IsRotation r) (hn : j + rs.length ≤ n) :
    turning n j rs ∈ Matrix.orthogonalGroup (Fin (n + 1)) ℝ := by
  induction rs generalizing j with
  | nil => exact Submonoid.one_mem _
  | cons r rs ih =>
      rw [List.length_cons] at hn
      have hne : Fin.ofNat (n + 1) j ≠ Fin.ofNat (n + 1) (j + 1) := by
        rw [Ne, Fin.ext_iff, Fin.val_ofNat, Fin.val_ofNat, Nat.mod_eq_of_lt (by omega),
          Nat.mod_eq_of_lt (by omega)]
        omega
      exact Submonoid.mul_mem _
        (ih (fun q hq => hrs q (List.mem_cons_of_mem r hq)) (by omega))
        (Rotation.plane_mem_orthogonalGroup (hrs r List.mem_cons_self) hne)

/-- The product turns a column as the rotations do, and leaves alone what stands above and below. -/
theorem turning_mulVec_upTo {upper y : Vec ℝ} (hupper : upper.length = j)
    (hy : y.length = rs.length + 1) (hn : j + rs.length ≤ n) (lower : Vec ℝ) :
    turning n j rs *ᵥ Vec.upTo (n + 1) (upper ++ (y ++ lower)) =
      Vec.upTo (n + 1) (upper ++ ((turnColumn rs y).1 ++ (turnColumn rs y).2 :: lower)) := by
  induction rs generalizing j upper y with
  | nil =>
      obtain ⟨a, rfl⟩ := List.length_eq_one_iff.1 hy
      rw [turning, Matrix.one_mulVec]
      rfl
  | cons r rs ih =>
      obtain ⟨a, b, y, rfl, hy'⟩ := exists_cons_cons hy
      rw [List.length_cons] at hn
      have hupper' : (upper ++ [(r.turn a b).1]).length = j + 1 := by
        rw [List.length_append, hupper, List.length_singleton]
      have hlower : ((r.turn a b).2 :: y).length = rs.length + 1 := hy'
      have hrest := ih hupper' hlower (by omega)
      rw [turning, ← Matrix.mulVec_mulVec, List.cons_append, List.cons_append,
        Rotation.plane_mulVec_upTo r hupper (by omega), turnColumn_cons]
      rw [List.append_assoc, List.append_assoc] at hrest
      exact hrest

end Krylov

end RecedingHorizon

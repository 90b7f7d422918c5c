import RecedingHorizon.Proofs.Krylov.Reused
import RecedingHorizon.Proofs.Krylov.Turned

/-!
# The least squares problem of a solve

The coefficients of a solution are those with which the raw columns come closest to the right-hand
side, that is, to the norm of the residual above zeros.  This problem is never looked at as such.
The rotations have made a triangular system of it, and what they have made of the right-hand side
has one entry more than the system.  As the product of the rotations keeps lengths, the distance of
any combination of the raw columns is that of the triangular system together with this entry.  The
system has one solution, since its diagonal is positive, and only there does nothing but the entry
remain.

Nothing of this is about the equation.  Where it is linear the distance is the norm of a residual,
but the least squares problem is the one that is solved in any case.

* `ofColumns_mulVec_backSubstitute`: back substitution as the solution of a system of matrices.
* `Workspace.Factors`, `Workspace.Minimizes`: what the rotations and the coefficients are;
  `Tracked.misfit_eq` is the distance of a combination.
* `Solver.exists_course_of_solve`: what a solve reports is at the end of its course.
* `Solver.triangular_course`: all of it, anywhere on a course.
-/

namespace RecedingHorizon

namespace Krylov

open scoped Matrix

/-! ## Triangular systems -/

/-- A combination as a sum over the places of its vectors. -/
theorem combination_eq_sum {d n : ℕ} {vs : List (Fin d → ℝ)} (hvs : vs.length = n) (y : Vec ℝ) :
    combination y vs = ∑ i : Fin n, y.getD i 0 • vs.getD i 0 := by
  induction vs generalizing y n with
  | nil =>
      subst hvs
      rw [combination_nil_right]
      rfl
  | cons v vs ih =>
      obtain ⟨n, rfl⟩ : ∃ k, n = k + 1 := ⟨vs.length, hvs.symm⟩
      rw [Fin.sum_univ_succ]
      cases y with
      | nil => simp
      | cons a y =>
          rw [combination_cons, ih (Nat.succ.inj hvs)]
          rfl

/-- A matrix of columns applied to a vector combines the columns. -/
theorem ofColumns_mulVec {m n : ℕ} {columns : List (Vec ℝ)} (hcolumns : columns.length = n)
    (y : Vec ℝ) :
    ofColumns m n columns *ᵥ Vec.upTo n y = combination y (columns.map (Vec.upTo m)) := by
  rw [combination_eq_sum (by rw [List.length_map, hcolumns])]
  funext i
  rw [Matrix.mulVec_apply_eq_sum, Finset.sum_apply]
  refine Finset.sum_congr rfl fun j _ => ?_
  have hcolumn : (columns.map (Vec.upTo m)).getD j 0 = Vec.upTo m (columns.getD j []) := by
    rw [List.getD_eq_getElem?_getD, List.getElem?_map, List.getD_eq_getElem?_getD]
    rcases h : columns[(j : ℕ)]? with _ | column
    · rw [List.getElem?_eq_none_iff] at h
      omega
    · rfl
  rw [hcolumn, Pi.smul_apply, smul_eq_mul, mul_comm]
  rfl

/-- The vectors of the standard basis combine to the vector. -/
theorem combination_single {n : ℕ} (v : Vec ℝ) :
    combination v (List.ofFn fun i : Fin n => Pi.single i 1) = Vec.upTo n v := by
  have hbasis (i : Fin n) :
      (List.ofFn fun i : Fin n => (Pi.single i 1 : Fin n → ℝ)).getD i 0 = Pi.single i 1 := by
    rw [List.getD_eq_getElem _ _ (by rw [List.length_ofFn]; exact i.isLt), List.getElem_ofFn]
  rw [combination_eq_sum List.length_ofFn]
  funext j
  rw [Finset.sum_apply, Finset.sum_eq_single j]
  · rw [hbasis, Pi.smul_apply, Pi.single_eq_same, smul_eq_mul, mul_one, Vec.upTo_apply]
  · intro i _ hij
    rw [hbasis, Pi.smul_apply, Pi.single_eq_of_ne hij.symm, smul_zero]
  · exact fun h => absurd (Finset.mem_univ j) h

/-- The columns of a triangular system as vectors. -/
theorem reaches_upTo {n : ℕ} {columns : List (Vec ℝ)}
    (hcolumns : ∀ j column, columns[j]? = some column →
      column.length = j + 1 ∧ column.getD j 0 ≠ 0) :
    Reaches id (List.ofFn fun i : Fin n => Pi.single i 1) columns.reverse
      (columns.map (Vec.upTo n)).reverse := by
  induction columns using List.reverseRecOn with
  | nil => exact .nil
  | append_singleton columns column ih =>
      obtain ⟨hlength, hdiagonal⟩ := hcolumns columns.length column List.getElem?_concat_length
      rw [List.map_append, List.reverse_concat, List.map_singleton, List.reverse_concat]
      refine .cons ?_ ?_ (combination_single column).symm (ih fun j c hj => ?_)
      · rw [List.length_reverse, hlength]
      · rwa [List.length_reverse]
      · refine hcolumns j c ?_
        rw [List.getElem?_append_left (List.getElem?_eq_some_iff.1 hj).1, hj]

/-- Back substitution solves the triangular system. -/
theorem ofColumns_mulVec_backSubstitute {n : ℕ} {columns : List (Vec ℝ)} (hn : columns.length = n)
    (hcolumns : ∀ j column, columns[j]? = some column →
      column.length = j + 1 ∧ column.getD j 0 ≠ 0) {target : Vec ℝ} (htarget : target.length = n) :
    ofColumns n n columns *ᵥ Vec.upTo n (backSubstitute columns.reverse target) =
      Vec.upTo n target := by
  have hsolved := (reaches_upTo (n := n) hcolumns).combination_backSubstitute
    (by rw [List.length_reverse, List.length_ofFn, hn])
    (htarget.trans (by rw [List.length_reverse, hn]))
  rw [List.map_id, List.reverse_reverse, combination_single] at hsolved
  rw [ofColumns_mulVec hn, hsolved]

/-- Orthogonal matrices keep lengths. -/
theorem mulVec_dotProduct_mulVec {n : ℕ} {G : Matrix (Fin n) (Fin n) ℝ}
    (hG : G ∈ Matrix.orthogonalGroup (Fin n) ℝ) (v : Fin n → ℝ) :
    (G *ᵥ v) ⬝ᵥ (G *ᵥ v) = v ⬝ᵥ v := by
  rw [← transpose_mulVec_dotProduct, Matrix.mulVec_mulVec,
    (Matrix.mem_orthogonalGroup_iff' _ _).1 hG, Matrix.one_mulVec]

/-- How far the multiples of the columns by `z` are from the target. -/
noncomputable def misfit {m n : ℕ} (H : Matrix (Fin m) (Fin n) ℝ) (target : Fin m → ℝ)
    (z : Fin n → ℝ) : ℝ :=
  √((target - H *ᵥ z) ⬝ᵥ (target - H *ᵥ z))

/-- An orthogonal matrix keeps the misfit. -/
theorem misfit_mul {m n : ℕ} {G : Matrix (Fin m) (Fin m) ℝ}
    (hG : G ∈ Matrix.orthogonalGroup (Fin m) ℝ) (H : Matrix (Fin m) (Fin n) ℝ)
    (target : Fin m → ℝ) (z : Fin n → ℝ) :
    misfit (G * H) (G *ᵥ target) z = misfit H target z := by
  rw [misfit, ← Matrix.mulVec_mulVec, ← Matrix.mulVec_sub, mulVec_dotProduct_mulVec hG, misfit]

/-! ## What a workspace has found -/

namespace Workspace

variable {w : Workspace ℝ} {β : ℝ} {raws : List (Vec ℝ)}

/-- The product of the rotations takes the raw columns to the triangular columns above a row of
zeros, and the right-hand side to what is settled above the remainder. -/
structure Factors (β : ℝ) (raws : List (Vec ℝ)) (w : Workspace ℝ) : Prop where
  count : (w.rotations.take w.columns.length).length = w.columns.length
  rotation : ∀ r ∈ w.rotations.take w.columns.length, r.c ^ 2 + r.s ^ 2 = 1
  orthogonal : w.turns w.columns.length ∈ Matrix.orthogonalGroup (Fin (w.columns.length + 1)) ℝ
  upper : (w.turns w.columns.length *
      ofColumns (w.columns.length + 1) w.columns.length raws).submatrix Fin.castSucc id =
    ofColumns w.columns.length w.columns.length w.columns
  below : (w.turns w.columns.length *
      ofColumns (w.columns.length + 1) w.columns.length raws) (Fin.last w.columns.length) = 0
  triangular : (ofColumns w.columns.length w.columns.length w.columns).IsUpperTriangular
  diagonal_pos : ∀ j, 0 < ofColumns w.columns.length w.columns.length w.columns j j
  target : w.turns w.columns.length *ᵥ Pi.single 0 β =
    Vec.upTo (w.columns.length + 1) (w.settled ++ [w.remainder])

/-- Back substitution gives `y`.  It solves the triangular system, and with it the raw columns come
closer to the right-hand side than with any other vector, as close as the remainder says. -/
structure Minimizes (β : ℝ) (raws : List (Vec ℝ)) (w : Workspace ℝ) (y : Vec ℝ) : Prop where
  coefficients : w.coefficients = .ok y
  length : y.length = w.columns.length
  solves : ofColumns w.columns.length w.columns.length w.columns *ᵥ Vec.upTo w.columns.length y =
    Vec.upTo w.columns.length w.settled
  minimum : misfit (ofColumns (w.columns.length + 1) w.columns.length raws) (Pi.single 0 β)
    (Vec.upTo w.columns.length y) = |w.remainder|
  unique : ∀ z : Fin w.columns.length → ℝ, z ≠ Vec.upTo w.columns.length y →
    |w.remainder| <
      misfit (ofColumns (w.columns.length + 1) w.columns.length raws) (Pi.single 0 β) z

namespace Tracked

theorem isRotation (h : w.Tracked β raws) {r : Rotation ℝ}
    (hr : r ∈ w.rotations.take w.columns.length) : IsRotation r := by
  obtain ⟨j, hj⟩ := List.mem_iff_getElem?.1 hr
  have hlt : j < w.columns.length := by
    have hle := (List.getElem?_eq_some_iff.1 hj).1
    rw [List.length_take] at hle
    omega
  obtain ⟨raw, -, hturned⟩ := h.column j _ (List.getElem?_eq_getElem hlt)
  obtain ⟨pivot, hsq, hrotation⟩ := hturned.rotation
  rw [List.getElem?_take_of_lt hlt, hrotation] at hj
  rw [← Option.some.inj hj]
  exact isRotation_toAxis hturned.diagonal_pos.ne' hsq.symm

theorem turns_mem_orthogonalGroup (h : w.Tracked β raws) :
    w.turns w.columns.length ∈ Matrix.orthogonalGroup (Fin (w.columns.length + 1)) ℝ := by
  refine turning_mem_orthogonalGroup (fun r hr => h.isRotation hr) ?_
  rw [List.length_take, Nat.min_eq_left h.room, Nat.zero_add]

/-- Under the product of the rotations the raw columns become the columns. -/
theorem turns_mul_ofColumns (h : w.Tracked β raws) :
    w.turns w.columns.length * ofColumns (w.columns.length + 1) w.columns.length raws =
      ofColumns (w.columns.length + 1) w.columns.length w.columns := by
  ext i j
  obtain ⟨column, hcolumn⟩ : ∃ column, w.columns[(j : ℕ)]? = some column :=
    ⟨_, List.getElem?_eq_getElem j.isLt⟩
  obtain ⟨raw, hraw, hturned⟩ := h.column j column hcolumn
  have hcol : (ofColumns (w.columns.length + 1) w.columns.length raws).col j =
      Vec.upTo (w.columns.length + 1) raw := funext fun _ => ofColumns_apply hraw
  have hij := congrFun (hturned.turned _ le_rfl) i
  rw [← hcol] at hij
  rw [ofColumns_apply hcolumn]
  exact hij

/-- Below the diagonal the matrix of the columns is zero. -/
theorem ofColumns_eq_zero (h : w.Tracked β raws) {m n : ℕ} {i : Fin m} {j : Fin n}
    (hij : (j : ℕ) < i) : ofColumns m n w.columns i j = 0 := by
  rcases hcolumn : w.columns[(j : ℕ)]? with _ | column
  · exact ofColumns_of_none hcolumn
  · obtain ⟨raw, -, hturned⟩ := h.column j column hcolumn
    rw [ofColumns_apply hcolumn]
    exact List.getD_eq_default _ _ (by rw [hturned.length]; exact hij)

theorem diagonal_pos (h : w.Tracked β raws) (j : Fin w.columns.length) :
    0 < ofColumns w.columns.length w.columns.length w.columns j j := by
  have hcolumn := List.getElem?_eq_getElem j.isLt
  obtain ⟨raw, -, hturned⟩ := h.column j _ hcolumn
  rw [ofColumns_apply hcolumn]
  exact hturned.diagonal_pos

/-- With one row more than there are columns, the last row of the matrix of the columns is zero. -/
theorem ofColumns_last (h : w.Tracked β raws) :
    ofColumns (w.columns.length + 1) w.columns.length w.columns (Fin.last w.columns.length) = 0 :=
  funext fun j => h.ofColumns_eq_zero j.isLt

theorem turns_mulVec_single (h : w.Tracked β raws) :
    w.turns w.columns.length *ᵥ Pi.single 0 β =
      Vec.upTo (w.columns.length + 1) (w.settled ++ [w.remainder]) := by
  rw [← h.target _ le_rfl, Vec.upTo_singleton]

/-- The triangular system has at most one solution. -/
theorem mulVec_injective (h : w.Tracked β raws) :
    Function.Injective (ofColumns w.columns.length w.columns.length w.columns).mulVec := by
  have htriangular : (ofColumns w.columns.length w.columns.length w.columns).IsUpperTriangular :=
    fun i j hij => h.ofColumns_eq_zero hij
  rw [Matrix.mulVec_injective_iff_isUnit, Matrix.isUnit_iff_isUnit_det,
    Matrix.det_of_isUpperTriangular htriangular]
  exact (Finset.prod_pos fun j _ => h.diagonal_pos j).ne'.isUnit

theorem factors (h : w.Tracked β raws) : w.Factors β raws where
  count := by rw [List.length_take, Nat.min_eq_left h.room]
  rotation r hr := h.isRotation hr
  orthogonal := h.turns_mem_orthogonalGroup
  upper := by
    rw [h.turns_mul_ofColumns]
    rfl
  below := by
    rw [h.turns_mul_ofColumns]
    exact h.ofColumns_last
  triangular i j hij := h.ofColumns_eq_zero hij
  diagonal_pos := h.diagonal_pos
  target := h.turns_mulVec_single

/-- The misfit of the raw columns is that of the triangular system, together with the remainder. -/
theorem misfit_eq (h : w.Tracked β raws) (z : Fin w.columns.length → ℝ) :
    misfit (ofColumns (w.columns.length + 1) w.columns.length raws) (Pi.single 0 β) z =
      √((Vec.upTo w.columns.length w.settled -
            ofColumns w.columns.length w.columns.length w.columns *ᵥ z) ⬝ᵥ
          (Vec.upTo w.columns.length w.settled -
            ofColumns w.columns.length w.columns.length w.columns *ᵥ z) + w.remainder ^ 2) := by
  have hupper (i : Fin w.columns.length) :
      Vec.upTo (w.columns.length + 1) (w.settled ++ [w.remainder]) i.castSucc =
        Vec.upTo w.columns.length w.settled i :=
    List.getD_append _ _ _ _ (by rw [h.settled]; exact i.isLt)
  have hlast : Vec.upTo (w.columns.length + 1) (w.settled ++ [w.remainder])
      (Fin.last w.columns.length) = w.remainder := Vec.getD_concat h.settled w.remainder
  have hbelow : (ofColumns (w.columns.length + 1) w.columns.length w.columns *ᵥ z)
      (Fin.last w.columns.length) = 0 := by
    rw [Matrix.mulVec, h.ofColumns_last, zero_dotProduct]
  have hrows (i : Fin w.columns.length) :
      (ofColumns (w.columns.length + 1) w.columns.length w.columns *ᵥ z) i.castSucc =
        (ofColumns w.columns.length w.columns.length w.columns *ᵥ z) i := rfl
  rw [← misfit_mul h.turns_mem_orthogonalGroup, h.turns_mul_ofColumns, h.turns_mulVec_single,
    misfit]
  refine congrArg Real.sqrt ?_
  rw [dotProduct, Fin.sum_univ_castSucc]
  simp only [Pi.sub_apply, hupper, hlast, hrows, hbelow, sub_zero, ← sq]
  simp only [dotProduct, Pi.sub_apply, ← sq]

/-- Only at the solution of the triangular system does nothing but the remainder remain. -/
theorem minimizes (h : w.Tracked β raws) : ∃ y, w.Minimizes β raws y := by
  have hsolves := ofColumns_mulVec_backSubstitute rfl (fun j column hj => by
    obtain ⟨raw, -, hturned⟩ := h.column j column hj
    exact ⟨hturned.length, hturned.diagonal_pos.ne'⟩) h.settled
  refine ⟨_, w.coefficients_eq, by rw [length_backSubstitute, List.length_reverse], hsolves, ?_,
    fun z hz => ?_⟩
  · rw [h.misfit_eq, hsolves, sub_self, zero_dotProduct, zero_add, Real.sqrt_sq_eq_abs]
  · rw [h.misfit_eq, ← Real.sqrt_sq_eq_abs]
    refine Real.sqrt_lt_sqrt (sq_nonneg _) (lt_add_of_pos_left _ ?_)
    refine lt_of_le_of_ne (dotProduct_self_nonneg _) fun hzero => hz ?_
    have hsame := sub_eq_zero.1 (dotProduct_self_eq_zero.1 hzero.symm)
    exact h.mulVec_injective (hsame.symm.trans hsolves.symm)

end Tracked

end Workspace

namespace Solver

/-- What a solve reports, unless the residual of its guess counts as zero, is read off the end of
its course: the columns are its iterations, the remainder is what is left, and its solution is made
of the coefficients. -/
theorem exists_course_of_solve {solver : Solver ℝ} {equation : Equation Id ℝ}
    {guess : Option (Tensor ℝ)} {w₀ : Workspace ℝ} {outcome : Outcome ℝ}
    (hsolve : (solver.solve equation guess w₀).run.1 = .ok outcome)
    (hlarge : ¬outcome.initialResidualNorm < Scalar.tiny) :
    ∃ asked raws answer w,
      solver.Course equation (guess.getD (Tensor.zeros [solver.dim])) w₀
        outcome.initialResidualNorm asked raws answer w ∧
      w.columns.length = outcome.iterations ∧ |w.remainder| = outcome.residualNorm ∧
      solver.solution (guess.getD (Tensor.zeros [solver.dim])) w = .ok outcome.solution := by
  obtain ⟨asked, result, hrun, hend⟩ := exists_course solver equation guess w₀
  have hresult : result = .ok outcome := by
    have hsame := congrArg Id.run (solver.fst_transcript equation guess w₀)
    rw [← hsolve]
    exact (congrArg Prod.fst hrun).symm.trans hsame
  rcases hend with ⟨-, htiny⟩ | ⟨β, raws, answer, w, stop, hcourse, hconclude⟩
  · exact absurd (htiny outcome hresult) hlarge
  · rw [hresult] at hconclude
    obtain ⟨ending, -, hconclude⟩ := bind_eq_ok_iff.1 hconclude.symm
    rw [initialResidualNorm_conclude hconclude]
    refine ⟨asked, raws, answer, w, hcourse, (iterations_conclude hconclude).symm,
      (residualNorm_conclude hconclude).symm, ?_⟩
    obtain ⟨x, hx, hconclude⟩ := bind_eq_ok_iff.1 hconclude
    obtain ⟨_, -, hconclude⟩ := bind_eq_ok_iff.1 hconclude
    cases hconclude
    exact hx

/-- **The columns are triangular, and the coefficients the best ones.**  Whatever the equation is,
and however the workspace has been used, a solve reports what is found at the end of its course.
Wherever a course has come to, the product of the stored rotations is an orthogonal matrix.  It
takes the raw columns to the triangular columns above a row of zeros, with a positive diagonal, and
the right-hand side to what is settled above the remainder.  So back substitution answers, with the
one vector that comes closest to the right-hand side, and the remainder is how close this is.  The
norm of the residual is positive, and so is everything that directions and rotations have been
divided by. -/
theorem triangular_course {solver : Solver ℝ} {w₀ : Workspace ℝ} (hw₀ : solver.Used w₀)
    (equation : Equation Id ℝ) (guess : Option (Tensor ℝ)) :
    (∀ outcome, (solver.solve equation guess w₀).run.1 = .ok outcome →
      ¬outcome.initialResidualNorm < Scalar.tiny →
      ∃ asked raws answer w,
        solver.Course equation (guess.getD (Tensor.zeros [solver.dim])) w₀
          outcome.initialResidualNorm asked raws answer w ∧
        w.columns.length = outcome.iterations ∧ |w.remainder| = outcome.residualNorm ∧
        solver.solution (guess.getD (Tensor.zeros [solver.dim])) w = .ok outcome.solution) ∧
    ∀ β asked raws answer w,
      solver.Course equation (guess.getD (Tensor.zeros [solver.dim])) w₀ β asked raws answer w →
      0 < β ∧ w.Tracked β raws ∧ w.Factors β raws ∧ ∃ y, w.Minimizes β raws y := by
  refine ⟨fun outcome => exists_course_of_solve, fun β asked raws answer w hcourse => ?_⟩
  obtain ⟨hpos, htracked, -, -⟩ := hcourse.tracked hw₀.length_rotations
  exact ⟨hpos, htracked, htracked.factors, htracked.minimizes⟩

/-- A solve whose images are not linear: one column is left of the two when it breaks down. -/
theorem triangular_course_parabola :
    Used ⟨2, 2, .number (.real (0 : ℝ))⟩ (Workspace.fresh 2) ∧
      ∃ w y, Course ⟨2, 2, .number (.real 0)⟩ (parabola ![1, 0] ![3, 4]) (Tensor.zeros [2])
          (Workspace.fresh 2) 1 [.ofFn ![1, 0], .ofFn ![0, 1]] [[3, 4], [0, 0, 0]]
          (.ok (some .singular)) w ∧
        w.columns = [[5]] ∧ w.settled = [3 / 5] ∧ w.remainder = -(4 / 5) ∧
        w.Tracked 1 [[3, 4], [0, 0, 0]] ∧ w.Factors 1 [[3, 4], [0, 0, 0]] ∧
        w.Minimizes 1 [[3, 4], [0, 0, 0]] y := by
  have hused : Used ⟨2, 2, .number (.real (0 : ℝ))⟩ (Workspace.fresh 2) := .fresh
  obtain ⟨w, hcourse, hcolumns, hsettled, hremainder⟩ :=
    course_parabola (Tensor.zeros [2]) (Workspace.fresh 2)
  obtain ⟨-, halong⟩ := triangular_course hused (parabola ![1, 0] ![3, 4]) none
  obtain ⟨-, htracked, hfactors, y, hminimizes⟩ := halong _ _ _ _ _ hcourse
  exact ⟨hused, w, y, hcourse, hcolumns, hsettled, hremainder, htracked, hfactors, hminimizes⟩

end Solver

end Krylov

end RecedingHorizon

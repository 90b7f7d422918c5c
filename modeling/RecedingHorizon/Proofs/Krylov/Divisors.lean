import RecedingHorizon.Proofs.Krylov.Solve
import RecedingHorizon.Proofs.Reachable

/-!
# What the solver divides by

The solver divides in four places: the residual of the guess by its norm, what is left of an
image by its length, the two sides of a triangle by the third, which makes a rotation, and the
entries of the turned right-hand side by the pivots.  None of these divisors is looked at as such.
But a norm below a threshold ends the solve, a length that is negligible adds no direction, and
where the third side is zero there is neither a rotation nor a column.

Over the real numbers a quotient by zero is zero, and would not be noticed.  It is noticed in
what the quotients are made for.  A vector divided by its length has length one, unless this is
zero; and so has the pair of a cosine and a sine.  So a workspace whose directions and rotations
have length one, and whose pivots are not zero, comes from a growth that has divided by zero
nowhere, and can be solved without doing so.  This is what a step preserves, whatever image it is
given: it may depend on the direction as it likes, and be zero.

* `Workspace.Normalized`: directions and rotations of length one, and pivots.
* `Workspace.Normalized.absorb`: one step.
* `Solver.normalized_iterate`, `Solver.normalized_solve`: the growth of the space, and the solve.
-/

namespace RecedingHorizon

open scoped Matrix

/-- A vector divided by its length has length one, unless this is zero. -/
theorem Vec.norm_divide_norm {v : Vec ℝ} (h : Vec.norm v ≠ 0) :
    Vec.norm (Vec.divide v (Vec.norm v)) = 1 := by
  obtain ⟨d, u, rfl⟩ : ∃ (d : ℕ) (u : Fin d → ℝ), List.ofFn u = v := ⟨_, _, List.ofFn_get v⟩
  rw [norm_ofFn] at h ⊢
  have hsq : u ⬝ᵥ u = √(u ⬝ᵥ u) ^ 2 := (Real.sq_sqrt (dotProduct_self_nonneg u)).symm
  have hunit : ((√(u ⬝ᵥ u))⁻¹ • u) ⬝ᵥ ((√(u ⬝ᵥ u))⁻¹ • u) = 1 := by
    rw [smul_dotProduct, dotProduct_smul, smul_eq_mul, smul_eq_mul]
    field_simp
    exact hsq
  rw [divide_ofFn, norm_ofFn, hunit, Real.sqrt_one]

namespace Krylov

namespace Workspace

/-- Directions and rotations have length one, and the column at place `i` ends, at that place, with
a pivot that is not zero. -/
structure Normalized (w : Workspace ℝ) : Prop where
  unit : ∀ v ∈ w.basis, Vec.norm v = 1
  rotation : ∀ r ∈ w.rotations.take w.columns.length, IsRotation r
  pivot : ∀ {i : ℕ} {column : Vec ℝ}, w.columns[i]? = some column →
    column.length = i + 1 ∧ column.getD i 0 ≠ 0

/-- A workspace that has just been cleared is normalized: there is nothing in it. -/
theorem normalized_cleared (w : Workspace ℝ) : w.cleared.Normalized where
  unit _ h := absurd h List.not_mem_nil
  rotation _ h := absurd h List.not_mem_nil
  pivot h := by cases h

/-- A workspace that has just been given its first direction, of length one, is normalized. -/
theorem normalized_seeded (w : Workspace ℝ) {first : Vec ℝ} (hfirst : Vec.norm first = 1) (β : ℝ) :
    (w.cleared.seeded first β).Normalized where
  unit v hv := by rwa [List.mem_singleton.1 hv]
  rotation _ h := absurd h List.not_mem_nil
  pivot h := by cases h

variable {w : Workspace ℝ}

namespace Normalized

theorem addDirection (hw : w.Normalized) {v : Vec ℝ} (hv : Vec.norm v = 1) :
    Normalized { w with basis := w.basis ++ [v] } where
  unit u hu := by
    rcases List.mem_append.1 hu with hu | hu
    · exact hw.unit u hu
    · rwa [List.mem_singleton.1 hu]
  rotation := hw.rotation
  pivot := hw.pivot

/-- A normalized workspace is still so with one more column that ends with a pivot, and with the
rotation that belongs to it. -/
theorem addColumn (hw : w.Normalized) (hroom : w.columns.length < w.rotations.length)
    {upper : Vec ℝ} (hupper : upper.length = w.columns.length) {ν : ℝ} (hν : ν ≠ 0)
    {r : Rotation ℝ} (hr : IsRotation r) : (w.extended w.basis upper ν r).Normalized where
  unit := hw.unit
  rotation q hq := by
    rw [length_columns_extended, take_rotations_extended _ r hroom] at hq
    rcases List.mem_append.1 hq with hq | hq
    · exact hw.rotation q hq
    · rwa [List.mem_singleton.1 hq]
  pivot {i column} h := by
    have hcolumns : (w.columns ++ [upper ++ [ν]])[i]? = some column := h
    by_cases hi : i < w.columns.length
    · rw [List.getElem?_append_left hi] at hcolumns
      exact hw.pivot hcolumns
    · rw [List.getElem?_append_right (not_lt.1 hi)] at hcolumns
      obtain ⟨hlt, rfl⟩ := List.getElem?_eq_some_iff.1 hcolumns
      obtain rfl : i = w.columns.length := by
        rw [List.length_singleton] at hlt
        omega
      rw [List.getElem_singleton]
      refine ⟨by rw [List.length_append, List.length_singleton, hupper], ?_⟩
      rwa [← hupper, List.getD_append_right _ _ _ _ le_rfl, Nat.sub_self]

/-- A step keeps a workspace normalized, and adds a column and a direction unless it ends the
growth. -/
theorem absorb (hw : w.Normalized) (hbasis : w.basis.length = w.columns.length + 1)
    (hroom : w.columns.length < w.rotations.length) (image : Vec ℝ) :
    (w.absorb image).1.Normalized ∧ ((w.absorb image).2 = none →
      (w.absorb image).1.basis.length = (w.absorb image).1.columns.length + 1 ∧
        (w.absorb image).1.columns.length = w.columns.length + 1) := by
  obtain ⟨y, d, rest, hsplit, hy⟩ : ∃ (y : Vec ℝ) (d : ℕ) (rest : Fin d → ℝ),
      orthogonalize w.basis image = (y, List.ofFn rest) ∧ y.length = w.columns.length + 1 :=
    ⟨_, _, (orthogonalize w.basis image).2.get, by rw [List.ofFn_get],
      (length_orthogonalize_fst w.basis image).trans hbasis⟩
  have hturned : (w.rotations.take w.columns.length).length = w.columns.length := by
    rw [List.length_take, Nat.min_eq_left hroom.le]
  have hupper : (turnColumn (w.rotations.take w.columns.length) y).1.length = w.columns.length :=
    (length_turnColumn (by rw [hy, hturned])).trans hturned
  rcases hturn : turnColumn (w.rotations.take w.columns.length) y with ⟨upper, pivot⟩
  rw [hturn] at hupper
  obtain ⟨height, hheight⟩ : ∃ height, √(rest ⬝ᵥ rest) = height := ⟨_, rfl⟩
  obtain ⟨ν, hν⟩ : ∃ ν, √(pivot ^ 2 + height ^ 2) = ν := ⟨_, rfl⟩
  have hsq : ν ^ 2 = pivot ^ 2 + height ^ 2 := by
    rw [← hν, Real.sq_sqrt (add_nonneg (sq_nonneg pivot) (sq_nonneg height))]
  -- what is left is divided by its length only if this is positive
  have hunit (h : ¬height ≤ negligible * Vec.norm image) :
      Vec.norm (Vec.divide (List.ofFn rest) height) = 1 := by
    have hnonneg : 0 ≤ negligible * Vec.norm image :=
      mul_nonneg negligible_pos.le (Real.sqrt_nonneg _)
    rw [← hheight, ← Vec.norm_ofFn] at h ⊢
    exact Vec.norm_divide_norm (hnonneg.trans_lt (not_le.1 h)).ne'
  rw [absorb_eq hsplit hturn hheight hν]
  by_cases hsingular : ν = 0
  · rw [if_pos hsingular]
    refine ⟨?_, fun h => by cases h⟩
    by_cases hbreak : height ≤ negligible * Vec.norm image
    · rw [if_pos hbreak]
      exact hw
    · rw [if_neg hbreak]
      exact hw.addDirection (hunit hbreak)
  · rw [if_neg hsingular]
    have hextended := hw.addColumn hroom hupper hsingular (isRotation_toAxis hsingular hsq)
    by_cases hbreak : height ≤ negligible * Vec.norm image
    · rw [if_pos hbreak, if_pos hbreak]
      exact ⟨hextended, fun h => by cases h⟩
    · rw [if_neg hbreak, if_neg hbreak]
      refine ⟨hextended.addDirection (hunit hbreak), fun _ => ⟨?_, length_columns_extended _ _⟩⟩
      rw [length_columns_extended, ← hbasis]
      exact List.length_append

end Normalized

end Workspace

namespace Solver

variable {σ : Type} {solver : Solver ℝ} {equation : Equation (StateM σ) ℝ} {w : Workspace ℝ}

/-- A step keeps the workspace normalized, also where it refuses the image. -/
theorem normalized_step (hw : w.Normalized) (hbasis : w.basis.length = w.columns.length + 1)
    (hroom : w.columns.length < w.rotations.length) (β : ℝ) (image : Tensor ℝ) :
    (solver.step β image w).2.Normalized ∧ ((solver.step β image w).1 = .ok none →
      (solver.step β image w).2.basis.length = (solver.step β image w).2.columns.length + 1 ∧
        (solver.step β image w).2.columns.length = w.columns.length + 1) := by
  rw [step]
  rcases solver.imageVector image with fault | v
  · exact ⟨hw, fun h => by cases h⟩
  · obtain ⟨hnormalized, hgrown⟩ := hw.absorb hbasis hroom v
    dsimp only
    rcases habsorb : w.absorb v with ⟨w', _ | ending⟩
    · rw [habsorb] at hnormalized hgrown
      exact ⟨hnormalized, fun _ => hgrown rfl⟩
    · rw [habsorb] at hnormalized
      exact ⟨hnormalized, fun h => by cases h⟩

/-- The growth of the space keeps the workspace normalized, however it ends. -/
theorem normalized_iterate (hw : w.Normalized) (hbasis : w.basis.length = w.columns.length + 1)
    {left : ℕ} (hroom : w.columns.length + left ≤ w.rotations.length) (β : ℝ) (μ : σ) :
    ((solver.iterate equation β left w).run μ).1.2.Normalized := by
  induction left generalizing w μ with
  | zero => exact hw
  | succ left ih =>
      rw [iterate, Stateful.run_bind]
      rcases (equation.image (.ofVec w.direction)).run.run μ with ⟨_ | image, μ'⟩
      · exact hw
      · dsimp only
        have hlength : (solver.step β image w).2.rotations.length = w.rotations.length :=
          length_rotations_step β image
        have hstepped := solver.normalized_step hw hbasis (by omega) β image
        obtain ⟨hnormalized, hgrown⟩ := hstepped
        rcases hstep : solver.step β image w with ⟨_ | _ | ending, w'⟩
        · rw [hstep] at hnormalized
          exact hnormalized
        · rw [hstep] at hnormalized hgrown hlength
          dsimp only at hnormalized hgrown hlength
          obtain ⟨hbasis', hcolumns⟩ := hgrown rfl
          exact ih hnormalized hbasis' (by omega) μ'
        · rw [hstep] at hnormalized
          exact hnormalized

/-- A solve leaves a normalized workspace, whatever it was before and whatever the equation
answers, if the residual of the guess is a vector of the dimension of the system. -/
theorem normalized_solve (hw : w.rotations.length = solver.limit) {guess : Option (Tensor ℝ)}
    {μ : σ} (hresidual : ∀ b μ', Stateful.runOn (equation.residual
      (guess.getD (.zeros [solver.dim]))) μ = (.ok b, μ') → b.shape = [solver.dim]) :
    ((solver.solve equation guess w).run μ).1.2.Normalized := by
  rw [solve, Stateful.run_bind]
  rcases hrun : (equation.residual (guess.getD (.zeros [solver.dim]))).run.run μ with
    ⟨_ | residual, μ'⟩
  · exact w.normalized_cleared
  · obtain ⟨b, rfl⟩ := Tensor.exists_eq_ofFn (hresidual residual μ' hrun)
    dsimp only
    split
    · exact w.normalized_cleared
    · next htiny =>
        have hnorm : Vec.norm (List.ofFn b) ≠ 0 := (tiny_pos.trans_le (not_lt.1 htiny)).ne'
        have hfirst : ((Tensor.ofFn b).divide (Tensor.ofFn b).norm).vector solver.dim =
            .ok (Vec.divide (List.ofFn b) (Vec.norm (List.ofFn b))) := by
          rw [Tensor.divide_ofFn, Tensor.vector_ofFn, Vec.divide, List.map_ofFn]
          rfl
        rw [hfirst]
        dsimp only
        rw [Stateful.run_bind]
        refine normalized_iterate (w.normalized_seeded (Vec.norm_divide_norm hnorm) _) rfl ?_ _ μ'
        show 0 + solver.limit ≤ w.rotations.length
        rw [hw, Nat.zero_add]

end Solver

end Krylov

end RecedingHorizon

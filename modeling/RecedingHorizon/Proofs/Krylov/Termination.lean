import RecedingHorizon.Proofs.Krylov.Solved

/-!
# When a solve is exact

In exact arithmetic a solve needs no more iterations than there are dimensions.  As many
orthonormal images leave nothing of the residual; and if an image leaves nothing to grow by, the
residual is settled as well, unless the diagonal vanishes with it.

The diagonal vanishes where the image of a direction is already the image of a combination of those
before it.  The direction itself is not such a combination, and so the operator is not injective:
it takes their difference to zero.  For an injective operator no step ends in this way, and a solve
that may use as many directions as there are dimensions has found the solution when it is over.

* `Workspace.rest`, `Workspace.diagonal`: what a step leaves of an image, and the entry it puts on
  the diagonal.
* `Solver.Visits`: the workspaces that a solve comes through; `Visits.solve_eq` says that the solve
  goes on from any of them, and `Visits.generates` what they are like.
* `Workspace.Spans.exists_kernel`: a vanishing diagonal and the kernel.
* `solveOperator_terminates`: the outcome of a solve.
-/

namespace RecedingHorizon

namespace Krylov

open scoped Matrix

variable {α : Type} [Scalar α]

namespace Workspace

/-! ## What a step leaves, and its diagonal -/

/-- What is left of an image without its components along the directions. -/
def rest (w : Workspace α) (image : Vec α) : Vec α := (orthogonalize w.basis image).2

/-- The entry that a step puts on the diagonal: the length of what is left of the image, together
with the last entry of the turned column. -/
def diagonal (w : Workspace α) (image : Vec α) : α :=
  Scalar.hypot
    (turnColumn (w.rotations.take w.columns.length) (orthogonalize w.basis image).1).2
    (Vec.norm (w.rest image))

/-- A step takes the singular exit exactly where its diagonal vanishes. -/
theorem absorb_eq_singular_iff (w : Workspace α) (image : Vec α) :
    (w.absorb image).2 = some .singular ↔ Scalar.isZero (w.diagonal image) = true := by
  unfold absorb diagonal rest
  dsimp only
  constructor
  · intro h
    by_contra hne
    rw [if_neg hne] at h
    split at h <;> cases h
  · intro h
    rw [if_pos h]

end Workspace

/-! ## The workspaces of a solve -/

namespace Solver

/-- The workspaces that the solve of an operator comes through, with the norm of the residual of the
guess and with the number of steps up to them: the first one, and after a step that does not end
the growth the one it leaves. -/
inductive Visits (solver : Solver α) (A : Tensor α → Except (Fault α) (Tensor α))
    (b guess : Tensor α) : α → ℕ → Workspace α → Prop
  | first {residual : Tensor α} {direction : Vec α}
      (residual_eq : Equation.operatorResidual A b guess = .ok residual)
      (large : ¬residual.norm < Scalar.tiny)
      (direction_eq : (residual.divide residual.norm).vector solver.dim = .ok direction) :
      Visits solver A b guess residual.norm 0
        (solver.workspace.cleared.seeded direction residual.norm)
  | next {β : α} {k : ℕ} {w w' : Workspace α} {image : Tensor α}
      (earlier : Visits solver A b guess β k w) (room : k < solver.limit)
      (image_eq : A (.ofVec w.direction) = .ok image)
      (step_eq : solver.step β image w = (.ok none, w')) : Visits solver A b guess β (k + 1) w'

/-- A growth goes on with the image of the latest direction. -/
theorem run_iterate_ofOperator {solver : Solver α} {A : Tensor α → Except (Fault α) (Tensor α)}
    {w : Workspace α} {image : Tensor α} (himage : A (.ofVec w.direction) = .ok image)
    (b : Tensor α) (β : α) (left : ℕ) :
    (solver.iterate (Equation.ofOperator A b : Equation Id α) β (left + 1) w).run =
      match solver.step β image w with
      | (.error fault, w) => (.error fault, w)
      | (.ok (some ending), w) => (.ok ending, w)
      | (.ok none, w) =>
          (solver.iterate (Equation.ofOperator A b : Equation Id α) β left w).run := by
  have hasked : ((Equation.ofOperator A b : Equation Id α).image (.ofVec w.direction)).run =
      (pure (A (.ofVec w.direction)) : Id _) := rfl
  rw [iterate, hasked, pure_bind, himage]
  dsimp only
  rcases solver.step β image w with ⟨_ | _ | _, w'⟩ <;> rfl

/-- A solve goes on from any workspace it comes through, with the steps that it has left. -/
theorem Visits.solve_eq {solver : Solver α} {A : Tensor α → Except (Fault α) (Tensor α)}
    {b guess : Tensor α} {β : α} {k : ℕ} {w : Workspace α}
    (h : solver.Visits A b guess β k w) :
    (solver.solve (Equation.ofOperator A b : Equation Id α) (some guess) solver.workspace).run =
      let grown := (solver.iterate (Equation.ofOperator A b : Equation Id α) β
        (solver.limit - k) w).run
      (grown.1.bind (solver.conclude guess β grown.2), grown.2) := by
  induction h with
  | first hresidual hlarge hdirection =>
      have hasked : ((Equation.ofOperator A b : Equation Id α).residual guess).run =
          (pure (Equation.operatorResidual A b guess) : Id _) := rfl
      rw [solve, Option.getD_some, hasked, pure_bind, hresidual]
      dsimp only
      rw [if_neg hlarge, hdirection]
      rfl
  | @next β k w w' image _ hroom himage hstep ih =>
      have hleft : solver.limit - k = solver.limit - (k + 1) + 1 := by omega
      rw [ih, hleft, run_iterate_ofOperator himage, hstep]

end Solver

section Linear

variable {n : ℕ} {A : Tensor ℝ → Except (Fault ℝ) (Tensor ℝ)}
  {g : (Fin n → ℝ) →ₗ[ℝ] Fin n → ℝ} {r₀ x₀ b : Fin n → ℝ} {β τ : ℝ} {w : Workspace ℝ}
  {us ws : List (Fin n → ℝ)} {v z : Fin n → ℝ} {k : ℕ} {solver : Solver ℝ} {outcome : Outcome ℝ}

namespace Workspace

theorem Parts.rest_eq (p : w.Parts g us v) : w.rest (List.ofFn (g v)) = List.ofFn p.rest := by
  rw [Workspace.rest, p.split]

theorem Parts.diagonal_eq (p : w.Parts g us v) : w.diagonal (List.ofFn (g v)) = p.diagonal := by
  rw [Workspace.diagonal, p.rest_eq, p.split, p.turn, Vec.norm_ofFn, hypot_eq]
  rfl

/-- Where the diagonal of a step vanishes, there is a vector that is taken to zero. -/
theorem Spans.exists_kernel (h : w.Spans g r₀ us v ws z) (p : w.Parts g us v)
    (hν : p.diagonal = 0) : ∃ x, x ≠ 0 ∧ g x = 0 := by
  obtain ⟨x, hx, himage⟩ := h.exists_diagonal p
  refine ⟨x, fun hzero => ?_, ?_⟩
  · rw [hzero, zero_dotProduct] at hx
    exact one_pos.not_ge hx
  · rw [← dotProduct_self_eq_zero, himage, hν, zero_pow two_ne_zero]

/-- The diagonal of a step does not vanish if the map is injective. -/
theorem Spans.diagonal_ne_zero (h : w.Spans g r₀ us v ws z) (p : w.Parts g us v)
    (hg : Function.Injective g) : p.diagonal ≠ 0 := by
  intro hν
  obtain ⟨x, hx, hzero⟩ := h.exists_kernel p hν
  exact hx (hg (hzero.trans (map_zero g).symm))

/-- As many images as there are dimensions leave nothing. -/
theorem Projects.eq_settled (h : w.Projects g r₀ us ws) (hn : w.columns.length = n) :
    r₀ = combination w.settled ws :=
  sub_eq_zero.1 (h.frame.eq_zero_of_length (h.length.trans hn) h.orthogonal)

end Workspace

namespace Solver

/-- The workspaces that the solve of a linear operator comes through. -/
theorem Visits.generates (hdim : solver.dim = n) (hτ : solver.relativeTolerance.scalar = .ok τ)
    (hA : ∀ v, A (.ofFn v) = .ok (.ofFn (g v)))
    (h : solver.Visits A (.ofFn b) (.ofFn x₀) β k w) :
    (∃ us v ws z, w.Generates g (b - g x₀) us v ws z) ∧ w.columns.length = k ∧
      w.rotations.length = solver.limit := by
  induction h with
  | @first residual direction hresidual hlarge hdirection =>
      rw [Equation.operatorResidual_ofFn hA] at hresidual
      obtain rfl := Except.ok.inj hresidual
      rw [Tensor.norm_ofFn] at hlarge hdirection ⊢
      rw [vector_divide_ofFn hdim] at hdirection
      obtain rfl := Except.ok.inj hdirection
      have h0 := (tiny_pos.trans_le (not_lt.1 hlarge)).ne'
      exact ⟨⟨_, _, _, _, Workspace.generates_seeded rfl h0⟩, rfl, List.length_replicate⟩
  | @next β k w w' image _ hroom himage hstep ih =>
      obtain ⟨⟨us, v, ws, z, hgenerates⟩, hcolumns, hrotations⟩ := ih
      have hasked : A (.ofVec w.direction) = .ok (.ofFn (g v)) := by
        rw [hgenerates.direction]
        exact hA v
      obtain rfl : Tensor.ofFn (g v) = image := Except.ok.inj (hasked.symm.trans himage)
      rcases step_ended hdim hτ β solver.limit hgenerates (by omega) with
        ⟨ending, w₁, hended, -⟩ | ⟨w₁, hgrown, hgenerates', hcolumns', hrotations'⟩
      · cases hended.symm.trans hstep
      · cases hgrown.symm.trans hstep
        exact ⟨hgenerates', by rw [hcolumns', hcolumns], by rw [hrotations', hrotations]⟩

/-- The parts of the step that a solve takes next. -/
theorem Visits.exists_parts (hdim : solver.dim = n)
    (hτ : solver.relativeTolerance.scalar = .ok τ) (hA : ∀ v, A (.ofFn v) = .ok (.ofFn (g v)))
    (h : solver.Visits A (.ofFn b) (.ofFn x₀) β k w) {image : Fin n → ℝ}
    (himage : A (.ofVec w.direction) = .ok (.ofFn image)) :
    ∃ us v ws z, w.Spans g (b - g x₀) us v ws z ∧ image = g v ∧ Nonempty (w.Parts g us v) := by
  obtain ⟨⟨us, v, ws, z, hgenerates⟩, -⟩ := h.generates hdim hτ hA
  refine ⟨us, v, ws, z, hgenerates.toSpans, ?_, hgenerates.nonempty_parts⟩
  rw [hgenerates.direction] at himage
  exact Tensor.ofFn_injective (Except.ok.inj (himage.symm.trans (hA v)))

theorem residualNorm_conclude {guess : Tensor ℝ} {ending : Ending}
    (h : solver.conclude guess β w ending = .ok outcome) :
    outcome.residualNorm = |w.remainder| := by
  obtain ⟨_, -, h⟩ := bind_eq_ok_iff.1 h
  obtain ⟨_, -, h⟩ := bind_eq_ok_iff.1 h
  cases h
  exact scalar_abs_eq _

/-- A solve that comes to a step which leaves nothing, but has a diagonal, leaves no residual. -/
theorem Visits.residualNorm_eq_zero (hdim : solver.dim = n)
    (hτ : solver.relativeTolerance.scalar = .ok τ) (hA : ∀ v, A (.ofFn v) = .ok (.ofFn (g v)))
    (h : solver.Visits A (.ofFn b) (.ofFn x₀) β k w) (hk : k < solver.limit)
    {image : Fin n → ℝ} (himage : A (.ofVec w.direction) = .ok (.ofFn image))
    (hrest : w.rest (List.ofFn image) = Vec.zeros n) (hdiagonal : w.diagonal (List.ofFn image) ≠ 0)
    (houtcome : (solver.solve (Equation.ofOperator A (.ofFn b) : Equation Id ℝ)
      (some (.ofFn x₀)) solver.workspace).run.1 = .ok outcome) :
    outcome.residualNorm = 0 := by
  obtain ⟨us, v, ws, z, hspans, rfl, ⟨p⟩⟩ := h.exists_parts hdim hτ hA himage
  rw [p.rest_eq, Vec.zeros_eq_ofFn] at hrest
  rw [p.diagonal_eq] at hdiagonal
  have hheight : p.height = 0 := by
    rw [Workspace.Parts.height, List.ofFn_injective hrest, zero_dotProduct, Real.sqrt_zero]
  have hnegligible : p.Negligible := by
    rw [Workspace.Parts.Negligible, hheight]
    exact Workspace.Parts.norm_image_nonneg
  -- the growth breaks down, and its rotation leaves nothing of the remainder
  have hstep := (step_eq hdim hτ β p).2.1 hdiagonal hnegligible
  have hremaining : solver.limit - k = solver.limit - (k + 1) + 1 := by omega
  rw [h.solve_eq, hremaining, run_iterate_ofOperator himage, hstep] at houtcome
  have hremainder : p.closed.remainder = 0 := by
    have hsine : p.rotation.s = p.height / p.diagonal := rfl
    rw [p.remainder_closed, hsine, hheight, zero_div, neg_zero, zero_mul]
  rw [residualNorm_conclude houtcome, hremainder, abs_zero]

/-- An outcome with as many iterations as there are dimensions is exact. -/
theorem Solved.eq_of_iterations (h : solver.Solved g τ (b - g x₀) x₀ outcome) (hn : 0 < n)
    (hiterations : outcome.iterations = n) :
    ∃ x, outcome.solution = .ofFn x ∧ g x = b := by
  cases h with
  | exact _ => exact absurd hiterations hn.ne
  | @grown ending w us ws y success _ _ projects _ reached _ =>
      refine ⟨x₀ + combination y us, rfl, ?_⟩
      rw [map_add, reached, ← projects.eq_settled hiterations, add_sub_cancel]

/-- The solve of an injective operator has broken down only where it has succeeded. -/
theorem Solved.converged_of_breakdown (h : solver.Solved g τ r₀ x₀ outcome)
    (hg : Function.Injective g) (hbreakdown : outcome.breakdown = true) :
    outcome.converged = true := by
  cases h with
  | exact _ => rfl
  | @grown ending w us ws y success _ ended _ _ _ succeeded =>
      cases ended with
      | limit _ _ => cases hbreakdown
      | tolerance _ _ => cases hbreakdown
      | singular generates p hν => exact absurd hν (generates.diagonal_ne_zero p hg)
      | breakdown _ _ _ _ => exact (Except.ok.inj succeeded).symm

/-- The solve of an injective operator succeeds if it may use as many directions as there are
dimensions. -/
theorem Solved.converged (h : solver.Solved g τ r₀ x₀ outcome)
    (hτ : solver.relativeTolerance.scalar = .ok τ) (hg : Function.Injective g)
    (hlimit : n ≤ solver.limit) : outcome.converged = true := by
  cases h with
  | exact _ => rfl
  | @grown ending w us ws y success _ ended _ _ _ succeeded =>
      cases ended with
      | limit generates columns =>
          have := generates.length_lt
          omega
      | tolerance _ within =>
          have hwithin : solver.within √(r₀ ⬝ᵥ r₀) w = .ok success := succeeded
          rw [within_eq hτ, decide_eq_true within] at hwithin
          exact (Except.ok.inj hwithin).symm
      | singular generates p hν => exact absurd hν (generates.diagonal_ne_zero p hg)
      | breakdown _ _ _ _ => exact (Except.ok.inj succeeded).symm

end Solver

/-- **Solves terminate.**  For every linear operator, right-hand side, guess and limit, and a
tolerance that is a number, a solve that memory has room for answers; and its solution is exact if
there were as many iterations as there are dimensions, and if some step has left nothing and put a
number on the diagonal.  If the operator is injective, no step ends the solve as a singular one, and
it succeeds if it may use as many directions as there are dimensions. -/
theorem solveOperator_terminates (hA : ∀ v, A (.ofFn v) = .ok (.ofFn (g v))) (b : Fin n → ℝ)
    (guess : Option (Fin n → ℝ)) (limit : Option ℕ) {rtol : Datum ℝ}
    (hτ : rtol.scalar = .ok τ) :
    (Solver.HasRoom n (.number (.whole (limit.getD n : ℕ)) : Datum ℝ) →
      ∃ outcome, solveOperator A (.ofFn b) (guess.map Tensor.ofFn)
        (limit.map fun k : ℕ => .number (.whole k)) rtol = .ok outcome) ∧
    ∀ outcome, solveOperator A (.ofFn b) (guess.map Tensor.ofFn)
        (limit.map fun k : ℕ => .number (.whole k)) rtol = .ok outcome →
      ∃ x, outcome.solution = .ofFn x ∧
        (0 < n → outcome.iterations = n → g x = b) ∧
        (∀ solver, Solver.ofExtents (.number (.whole n)) (.number (.whole (limit.getD n : ℕ)))
            rtol = .ok solver →
          ∀ β k w (image : Fin n → ℝ),
            solver.Visits A (.ofFn b) (.ofFn (guess.getD 0)) β k w → k < solver.limit →
            A (.ofVec w.direction) = .ok (.ofFn image) →
            (w.rest (List.ofFn image) = Vec.zeros n → w.diagonal (List.ofFn image) ≠ 0 →
              g x = b) ∧
            (Function.Injective g → (w.absorb (List.ofFn image)).2 ≠ some .singular)) ∧
        (Function.Injective g →
          (outcome.breakdown = true → outcome.converged = true) ∧
          (n ≤ limit.getD n → outcome.converged = true)) := by
  obtain ⟨hanswers, hsolved⟩ := solveOperator_solved hA b guess limit hτ
  refine ⟨hanswers, fun outcome houtcome => ?_⟩
  have hends := hsolved outcome houtcome
  obtain ⟨x, hx, -, hnorm⟩ := hends.norms
  refine ⟨x, hx, fun hn hiterations => ?_, fun solver hsolver β k w image hvisits hk himage =>
    ⟨fun hrest hdiagonal => ?_, fun hg hsingular => ?_⟩,
    fun hg => ⟨hends.converged_of_breakdown hg, fun hlimit => ?_⟩⟩
  · obtain ⟨x', hx', hexact⟩ := hends.eq_of_iterations hn hiterations
    rw [Tensor.ofFn_injective (hx.symm.trans hx'), hexact]
  · rw [solveOperator_eq, hsolver] at houtcome
    obtain rfl := Solver.eq_of_ofExtents_whole hsolver
    rw [ok_bind, Solver.solve_map rfl] at houtcome
    have hzero := hvisits.residualNorm_eq_zero rfl hτ hA hk himage hrest hdiagonal houtcome
    rw [hnorm, Real.sqrt_eq_zero (dotProduct_self_nonneg _), dotProduct_self_eq_zero] at hzero
    exact (sub_eq_zero.1 hzero).symm
  · obtain rfl := Solver.eq_of_ofExtents_whole hsolver
    obtain ⟨us, v, ws, z, hspans, rfl, ⟨p⟩⟩ := hvisits.exists_parts rfl hτ hA himage
    rw [Workspace.absorb_eq_singular_iff, p.diagonal_eq, isZero_eq, decide_eq_true_eq] at hsingular
    exact hspans.diagonal_ne_zero p hg hsingular
  · exact hends.converged hτ hg (le_min hlimit le_rfl)

/-- Twice a number is to be three: the first step leaves nothing, and the number is found. -/
theorem solveOperator_terminates_double :
    ∃ outcome x, solveOperator (fun v => .ok (v.scale 2)) (.ofFn ![(3 : ℝ)]) none none
        (.number (.real 0)) = .ok outcome ∧
      outcome.solution = .ofFn x ∧ (2 : ℝ) • x = ![3] ∧ outcome.converged = true := by
  have hrtol : (Datum.number (.real 0)).scalar = (.ok 0 : Except (Fault ℝ) ℝ) := rfl
  have hinjective : Function.Injective (LinearMap.lsmul ℝ (Fin 1 → ℝ) 2) :=
    LinearMap.lsmul_injective two_ne_zero
  obtain ⟨hanswers, hends⟩ := solveOperator_terminates (A := fun v => .ok (v.scale 2))
    (scale_eq_ok 2) ![3] none none hrtol
  obtain ⟨outcome, hsolve⟩ := hanswers (Solver.hasRoom_one _)
  obtain ⟨x, hx, -, hstep, hconverged⟩ := hends outcome hsolve
  have hsolver : Solver.ofExtents (.number (.whole (1 : ℕ))) (.number (.whole (1 : ℕ)))
      (.number (.real 0)) = .ok Solver.single := Solver.ofExtents_whole (Solver.hasRoom_one _)
  have hdim : Solver.single.dim = 1 := rfl
  refine ⟨outcome, x, hsolve, hx, ?_, (hconverged hinjective).2 le_rfl⟩
  -- the solve comes to its first step
  have hresidual : Equation.operatorResidual (fun v => .ok (v.scale 2)) (.ofFn ![3])
      (.ofFn (0 : Fin 1 → ℝ)) = .ok (.ofFn ![3]) := by
    rw [Equation.operatorResidual_ofFn (scale_eq_ok 2), map_zero, sub_zero]
  have hnorm : (Tensor.ofFn ![(3 : ℝ)]).norm = √(![3] ⬝ᵥ ![3]) := Tensor.norm_ofFn _
  have hlarge : ¬(Tensor.ofFn ![(3 : ℝ)]).norm < Scalar.tiny := by
    have hone : 1 ≤ √(![(3 : ℝ)] ⬝ᵥ ![3]) := Real.one_le_sqrt.2 (by norm_num)
    rw [hnorm, not_lt]
    exact tiny_le_one.trans hone
  have hvisits := Solver.Visits.first hresidual hlarge
    (Solver.vector_divide_ofFn hdim _ _)
  have h0 : (Tensor.ofFn ![(3 : ℝ)]).norm ≠ 0 := (tiny_pos.trans_le (not_lt.1 hlarge)).ne'
  have hspans := Solver.spans_seeded (g := LinearMap.lsmul ℝ (Fin 1 → ℝ) 2)
    (w := Solver.single.workspace)
    hnorm.symm h0
  obtain ⟨p⟩ := hspans.nonempty_parts
  have himage := scale_eq_ok 2 ((Tensor.ofFn ![(3 : ℝ)]).norm⁻¹ • ![3])
  refine (hstep _ hsolver _ _ _ _ hvisits Nat.one_pos himage).1 ?_ ?_
  · -- with one dimension there is nothing beside a direction
    rw [p.rest_eq, hspans.frame.eq_zero_of_length rfl p.orthogonal, Vec.zeros_eq_ofFn]
  · rw [p.diagonal_eq]
    exact hspans.diagonal_ne_zero p hinjective

end Linear

end Krylov

end RecedingHorizon

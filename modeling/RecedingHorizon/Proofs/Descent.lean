import RecedingHorizon.Proofs.NewtonSystem
import RecedingHorizon.Proofs.Stricter

/-!
# The search for an affine gradient

Where the control gradient is affine in the control, `M a + b`, what the solve of a Newton step
reports as the norm of its residual is the norm of the gradient at the next action, and as the solve
starts from zero, this is no larger than the norm at the action before.

It is smaller if `v ⬝ M v` is positive for all `v` but zero.  A solve whose residual `r` does not
count as zero then uses one direction at least, which is that of `r`, and of all multiples of `r`
the best one leaves less than `r`.  So every iteration makes progress, with however few directions.

* `exists_residual_lt`: a multiple of the residual that leaves less than all of it.
* `Krylov.Solver.Solved.residualNorm_lt`: the solve of a positive definite system.
* `Newton.Search.Descends`, `Newton.solve_descends`: what iterations do.
-/

namespace RecedingHorizon

open Stateful

open scoped Matrix

variable {d : ℕ}

/-- A vector whose image has a positive pairing with it has a multiple whose image leaves less than
all of it. -/
theorem exists_residual_lt {g : (Fin d → ℝ) →ₗ[ℝ] Fin d → ℝ} {r : Fin d → ℝ}
    (h : 0 < r ⬝ᵥ g r) : ∃ s : ℝ, (r - g (s • r)) ⬝ᵥ (r - g (s • r)) < r ⬝ᵥ r := by
  have himage : 0 < g r ⬝ᵥ g r := by
    refine (dotProduct_self_nonneg _).lt_of_ne' fun hzero => h.ne' ?_
    rw [dotProduct_self_eq_zero.1 hzero, dotProduct_zero]
  -- the best multiple is that of the projection on the image
  refine ⟨r ⬝ᵥ g r / g r ⬝ᵥ g r, ?_⟩
  have hleft : (r - g ((r ⬝ᵥ g r / g r ⬝ᵥ g r) • r)) ⬝ᵥ (r - g ((r ⬝ᵥ g r / g r ⬝ᵥ g r) • r)) =
      r ⬝ᵥ r - (r ⬝ᵥ g r) ^ 2 / (g r ⬝ᵥ g r) := by
    simp only [map_smul, sub_dotProduct, dotProduct_sub, smul_dotProduct, dotProduct_smul,
      smul_eq_mul, dotProduct_comm (g r) r]
    field_simp
    ring
  rw [hleft, sub_lt_self_iff]
  positivity

/-- The solve of a positive definite system from a residual that does not count as zero leaves a
smaller one, with one direction already. -/
theorem Krylov.Solver.Solved.residualNorm_lt {solver : Solver ℝ}
    {g : (Fin d → ℝ) →ₗ[ℝ] Fin d → ℝ} {τ : ℝ} {r₀ x₀ : Fin d → ℝ} {outcome : Outcome ℝ}
    (h : solver.Solved g τ r₀ x₀ outcome) (hpos : ∀ v : Fin d → ℝ, v ≠ 0 → 0 < v ⬝ᵥ g v)
    (hτ : τ < 1) (hlimit : 0 < solver.limit) (hlarge : Scalar.tiny ≤ √(r₀ ⬝ᵥ r₀)) :
    outcome.residualNorm < √(r₀ ⬝ᵥ r₀) := by
  have hr₀ : r₀ ≠ 0 := by
    rintro rfl
    rw [dotProduct_zero, Real.sqrt_zero] at hlarge
    exact tiny_pos.not_ge hlarge
  obtain ⟨s, hs⟩ := exists_residual_lt (hpos r₀ hr₀)
  have hmem : s • r₀ ∈ krylov g r₀ outcome.iterations :=
    Submodule.smul_mem _ s (pow_mem_krylov (h.iterations_pos hpos hτ hlimit hlarge))
  calc outcome.residualNorm
      ≤ √((r₀ - g (s • r₀)) ⬝ᵥ (r₀ - g (s • r₀))) := h.residualNorm_le_of_mem hmem
    _ < √(r₀ ⬝ᵥ r₀) := Real.sqrt_lt_sqrt (dotProduct_self_nonneg _) hs

namespace Newton

/-! ## Searches -/

/-- What an iteration does that leads from one iterate to the next, over so many copies: the norm at
the next action is what the solve has reported, times the root of their number.  It is no larger
than the norm before; and smaller, if the matrix is positive definite and the norm for one copy does
not count as zero. -/
structure Search.Descends (search : Search ℝ) (M : Matrix (Fin d) (Fin d) ℝ) (copies : ℝ)
    (it next : Iterate ℝ) (outcome : Krylov.Outcome ℝ) : Prop where
  direction : search.direction it = .ok outcome
  advance : search.advance it = .ok next
  action : it.action.increase outcome.solution = .ok next.action
  residualNorm : next.residualNorm = √(max copies 1) * outcome.residualNorm
  le : next.residualNorm ≤ it.residualNorm
  lt : (∀ v : Fin d → ℝ, v ≠ 0 → 0 < v ⬝ᵥ M *ᵥ v) →
    Scalar.tiny ≤ it.residualNorm / √(max copies 1) → next.residualNorm < it.residualNorm

variable {search : Search ℝ} {it : Iterate ℝ} {M : Matrix (Fin d) (Fin d) ℝ} {a b : Fin d → ℝ}
  {costate : Tensor ℝ} {h : ℝ}

/-- Where the control gradient is affine, one iteration does not make the norm larger, and leads to
an iterate from which the next one can be taken. -/
theorem Search.Affine.descends (hs : search.Affine M b costate h) {c : ℝ}
    (hscale : search.scale = √(max c 1)) (hit : it.At search M b costate a) :
    ∃ next outcome, search.Descends M c it next outcome ∧
      ∃ a', next.At search M b costate a' := by
  obtain ⟨outcome, y, next, hdirection, hy, hsolved, hadvance, hnext, hafter⟩ := hs.advance hit
  have hcopies : 0 < √(max c 1) := Real.sqrt_pos.2 (one_pos.trans_le (le_max_right c 1))
  have hbefore : it.residualNorm = √(max c 1) * √(-(M *ᵥ a + b) ⬝ᵥ -(M *ᵥ a + b)) := by
    rw [hit.residualNorm, hscale, neg_dotProduct_neg]
  rw [hscale] at hafter
  refine ⟨next, outcome, ⟨hdirection, hadvance, ?_, hafter, ?_, fun hpos hlarge => ?_⟩, a + y,
    hnext⟩
  · rw [hit.action, hy, hnext.action, Tensor.increase_ofFn]
  · -- without a step the residual would be what it was
    have hzero := hsolved.residualNorm_le_of_mem (Submodule.zero_mem _)
    rw [map_zero, sub_zero] at hzero
    rw [hafter, hbefore]
    exact mul_le_mul_of_nonneg_left hzero hcopies.le
  · rw [hbefore, mul_div_cancel_left₀ _ hcopies.ne'] at hlarge
    have hdim : 0 < d := by
      rcases Nat.eq_zero_or_pos d with rfl | hd
      · rw [Matrix.dotProduct_of_isEmpty, Real.sqrt_zero] at hlarge
        exact absurd tiny_pos hlarge.not_gt
      · exact hd
    have hless := hsolved.residualNorm_lt hpos (by norm_num) (hs.limit hdim) hlarge
    rw [hafter, hbefore]
    exact mul_lt_mul_of_pos_left hless hcopies

/-- **On affine gradients no iteration makes things worse.**  Let the control gradient be affine at
a time and a state, as it is for every regulator, and let the parameters have been accepted.  Then
the search comes to an end that its outcome certifies, and from every iterate it comes to, an
iteration descends. -/
theorem solve_descends :
    (∀ {n m : ℕ} (g : Regulator n m) (t : Datum ℝ) (x : Fin n → ℝ),
      g.model.AffineAt t (.ofFn x) g.R (g.Bᵀ *ᵥ (g.F *ᵥ (x - g.reference)))) ∧
    ∀ {d : ℕ} {M : Matrix (Fin d) (Fin d) ℝ} {b : Fin d → ℝ} {model : Model ℝ}
      {draft : InitParams.Draft ℝ} {params : InitParams ℝ} {t copies : Datum ℝ} {x : Tensor ℝ}
      {c scale : ℝ}, model.AffineAt t x M b → draft.check = .ok params →
      params.guess.length = d → Krylov.Solver.Sized d params.krylovLimit →
      Krylov.Solver.HasRoom d params.krylovLimit → copies.scalar = .ok c →
      copyScale copies = .ok scale →
      ∃ (search : Search ℝ) (first last : Iterate ℝ) (τ : ℝ) (count : ℕ),
        start model t x params copies = .ok (search, first) ∧
        params.residualTolerance.scalar = .ok τ ∧
        search.Certifies τ params.iterationLimit.toNat first last count
          (solve model t x params copies) ∧
        ∀ i it, search.Reaches first i it →
          ∃ next outcome, search.Descends M c it next outcome := by
  refine ⟨fun g t x => g.affineAt t x, fun {d M b model draft params t copies x c scale} hm hcheck
    hguess hsized hroom hc hscale => ?_⟩
  subst hguess
  obtain ⟨search, first, costate, h, hstart, hs, rfl, hfirst⟩ :=
    exists_start_affine hm hcheck (List.ofFn_get params.guess).symm hsized hroom hscale
  have hcopies := copyScale_eq hc hscale
  obtain ⟨τ, hτ, -⟩ := Datum.scalar_of_isPositive (draft.checked hcheck).residualTolerance
  have hadvance {it : Iterate ℝ} (hit : ∃ a, it.At search M b costate a) :
      ∃ next, search.advance it = .ok next ∧ ∃ a, next.At search M b costate a := by
    obtain ⟨a, hit⟩ := hit
    obtain ⟨next, outcome, hdescends, hnext⟩ := hs.descends hcopies hit
    exact ⟨next, hdescends.advance, hnext⟩
  obtain ⟨last, count, hrun⟩ := Search.exists_run hadvance τ params.iterationLimit.toNat 0
    ⟨_, hfirst⟩
  obtain ⟨taken, rfl, hran⟩ := Search.ran_of_run hrun
  refine ⟨search, first, last, τ, taken, hstart, hτ, ?_, fun i it hreaches => ?_⟩
  · rw [solve_of_start hm.actionDim.symm hstart, hτ, ok_bind, hrun, ok_bind,
      Nat.zero_add]
    exact hran.certifies ordered_real le_rfl
  · obtain ⟨a, hit⟩ := hreaches.holds (I := fun it => ∃ a, it.At search M b costate a)
      (fun {it it'} hit hstep => by
        obtain ⟨next, hnext, hat⟩ := hadvance hit
        obtain rfl := Except.ok.inj (hnext.symm.trans hstep)
        exact hat) ⟨_, hfirst⟩
    obtain ⟨next, outcome, hdescends, -⟩ := hs.descends hcopies hit
    exact ⟨next, outcome, hdescends⟩

end Newton

/-- The search for the initial action of the integrator away from its reference state: the first
iteration makes the norm smaller. -/
theorem integrator_descends : ∃ (search : Newton.Search ℝ) (first next : Newton.Iterate ℝ)
    (outcome : Krylov.Outcome ℝ),
    Newton.start Regulator.integrator.model (.number (.real 0)) (.ofFn (1 : Fin 1 → ℝ)) unitParams
      1 = .ok (search, first) ∧
    search.Descends (1 : Matrix (Fin 1) (Fin 1) ℝ) 1 first next outcome ∧
    next.residualNorm < first.residualNorm := by
  obtain ⟨haffine, hdescends⟩ := Newton.solve_descends
  obtain ⟨search, first, _, _, _, hstart, -, -, hreached⟩ := hdescends
    (haffine Regulator.integrator (.number (.real 0)) 1) check_unitDraft rfl
    Krylov.Solver.sized_one (Krylov.Solver.hasRoom_one _) Datum.scalar_one copyScale_one
  obtain ⟨next, outcome, hnext⟩ := hreached 0 first (.here first)
  refine ⟨search, first, next, outcome, hstart, hnext,
    hnext.lt (fun _ hv => Matrix.PosDef.one.dotProduct_mulVec_pos hv) ?_⟩
  obtain ⟨search', first', -, hstart', hfirst, -, -, -⟩ := Newton.exists_start_integrator
  obtain ⟨rfl, rfl⟩ := Prod.mk.inj (Except.ok.inj (hstart.symm.trans hstart'))
  rw [hfirst, max_self, Real.sqrt_one, div_one]
  exact tiny_le_one

end RecedingHorizon

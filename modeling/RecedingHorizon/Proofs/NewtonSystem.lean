import RecedingHorizon.Proofs.Krylov.Minimal
import RecedingHorizon.Proofs.Krylov.Termination
import RecedingHorizon.Proofs.Search

/-!
# The linear system of a Newton step

At a time, a state and a costate the control gradient is a function of the action alone.  The
residual of a Newton step from an action, without a guess, is the negative of its value there, which
is remembered, and the image of a direction is its difference quotient, from the value that is
remembered.  All that matters of a model is how it answers there.

Where the gradient is affine in the action, `M a + b`, a difference quotient of it is exact:
whatever the step of the differences, the linear system of a Newton step from `a` is
`M y = -(M a + b)` itself.  What its solve reports as the norm of the residual is then the norm of
the gradient at the next action.

If `v ⬝ M v` is positive for all `v` but zero, a solve whose residual does not count as zero has
settled on one direction at least, as the image of a direction is never zero, or its remainder has
fallen below the relative tolerance.  The one direction is that of the residual.  Where a multiple
of the residual solves the system, as in one dimension, no more than one iteration is needed; the
integrator away from its reference state is searched for in this way.

* `ZeroHorizon.RepliesAt`: the control gradient as a function of the action, with `gradient_at`,
  `image_at` and `residual_at` for what the system answers.
* `Krylov.Solver.Solved.iterations_pos`: the solve of a positive definite system.
* `Model.AffineAt`: the gradient is affine; `Regulator.affineAt`.
* `Newton.Search.direction`: the solve of an iteration; `Search.Affine.advance`: an iteration.
* `Newton.exists_start_affine`: how a search starts.
* `Newton.exists_start_integrator`, `Newton.solve_integrator`, `seed_integrator`: the integrator
  away from its reference state.
-/

namespace RecedingHorizon

open Stateful

open scoped Matrix

variable {d : ℕ}

/-! ## What the system answers -/

namespace ZeroHorizon

/-- At a time, a state and a costate the control gradient of an action is that of `F`, and the
differences are of step `h`. -/
structure RepliesAt (system : ZeroHorizon ℝ) (t : Datum ℝ) (x costate : Tensor ℝ)
    (F : (Fin d → ℝ) → Fin d → ℝ) (h : ℝ) : Prop where
  controlGradient : ∀ a, system.model.controlGradient x (.ofFn a) costate t = .ok (.ofFn (F a))
  differenceStep : system.differenceStep.scalar = .ok h
  step_pos : 0 < h

variable {system : ZeroHorizon ℝ} {t : Datum ℝ} {x costate : Tensor ℝ}
  {F : (Fin d → ℝ) → Fin d → ℝ} {h : ℝ} {μ : Memory ℝ}

theorem gradient_at (hs : system.RepliesAt t x costate F h) (hμ : μ.costate = some costate)
    (a : Fin d → ℝ) : runOn (system.gradient t x (.ofFn a)) μ = (.ok (.ofFn (F a)), μ) := by
  rw [runOn_gradient hμ, hs.controlGradient]

/-- The image of a direction, once the gradient is remembered. -/
theorem image_at (hs : system.RepliesAt t x costate F h) (hμ : μ.costate = some costate)
    {a base : Fin d → ℝ} (hbase : μ.base = some (.ofFn base)) (v : Fin d → ℝ) :
    runOn ((system.linearized t x (.ofFn a)).image (.ofFn v)) μ =
      (.ok (.ofFn (h⁻¹ • (F (a + h • v) - base))), μ) := by
  have hnonzero : system.differenceStep.isZero = false := by
    rw [Datum.isZero_of_scalar hs.differenceStep, decide_eq_false hs.step_pos.ne']
  have hdivide (v : Fin d → ℝ) : system.quotient (.ofFn v) = .ok (.ofFn (h⁻¹ • v)) := by
    rw [quotient, hnonzero, Bool.and_false, if_neg Bool.false_ne_true,
      Tensor.divideBy_of_scalar _ hs.differenceStep, Tensor.divide_ofFn]
    exact congrArg (fun v => Except.ok (Tensor.ofFn v)) (funext fun i => div_eq_inv_mul (v i) h)
  simp only [linearized, image, runOn_bind, runOn_get, runOn_needed, runOn_liftM, hbase,
    Tensor.scaleBy_of_scalar _ hs.differenceStep, Tensor.scale_ofFn, Tensor.plus_ofFn,
    gradient_at hs hμ, Tensor.minus_ofFn, hdivide]

/-- The residual without a guess, which leaves the gradient remembered. -/
theorem residual_at (hs : system.RepliesAt t x costate F h) (hμ : μ.costate = some costate)
    (a : Fin d → ℝ) :
    runOn ((system.linearized t x (.ofFn a)).residual (.ofFn (0 : Fin d → ℝ))) μ =
      (.ok (.ofFn (-F a)), { μ with base := some (.ofFn (F a)) }) := by
  have hzero : (Tensor.ofFn (0 : Fin d → ℝ)).isZero = true := (Vec.isZero_ofFn 0).2 rfl
  simp only [linearized, residual, runOn_bind, gradient_at hs hμ, runOn_modify, hzero, if_true,
    runOn_pure, Tensor.neg_ofFn]

end ZeroHorizon

/-! ## Positive definite systems -/

namespace Krylov

variable {g : (Fin d → ℝ) →ₗ[ℝ] Fin d → ℝ} {r₀ : Fin d → ℝ} {τ : ℝ}

/-- A positive definite map takes nothing but zero to zero. -/
theorem injective_of_pos (hpos : ∀ v : Fin d → ℝ, v ≠ 0 → 0 < v ⬝ᵥ g v) :
    Function.Injective g := by
  refine (injective_iff_map_eq_zero g).2 fun v hv => ?_
  by_contra hne
  have hpairing := hpos v hne
  rw [hv, dotProduct_zero] at hpairing
  exact lt_irrefl 0 hpairing

/-- A growth has reduced the residual below its tolerance, or uses a direction. -/
theorem Ended.remainder_le_or_pos (hpos : ∀ v : Fin d → ℝ, v ≠ 0 → 0 < v ⬝ᵥ g v) {β : ℝ}
    {limit : ℕ} (hlimit : 0 < limit) {ending : Ending} {w : Workspace ℝ}
    (h : Ended g r₀ β τ limit ending w) : |w.remainder| ≤ τ * β ∨ 0 < w.columns.length := by
  cases h with
  | limit _ hcolumns => exact .inr (hcolumns ▸ hlimit)
  | tolerance _ hwithin => exact .inl hwithin
  | singular hgenerates p hdiagonal =>
      exact absurd hdiagonal (hgenerates.toSpans.diagonal_ne_zero p (injective_of_pos hpos))
  | breakdown _ p _ _ =>
      right
      rw [Workspace.Parts.closed, Workspace.length_columns_extended]
      exact Nat.succ_pos _

/-- The solve of a positive definite system from a residual that does not count as zero uses a
direction, which is that of the residual. -/
theorem Solver.Solved.iterations_pos {solver : Solver ℝ} {x₀ : Fin d → ℝ} {outcome : Outcome ℝ}
    (h : solver.Solved g τ r₀ x₀ outcome) (hpos : ∀ v : Fin d → ℝ, v ≠ 0 → 0 < v ⬝ᵥ g v)
    (hτ : τ < 1) (hlimit : 0 < solver.limit) (hlarge : Scalar.tiny ≤ √(r₀ ⬝ᵥ r₀)) :
    0 < outcome.iterations := by
  by_contra hnone
  have hβ : 0 < √(r₀ ⬝ᵥ r₀) := tiny_pos.trans_le hlarge
  -- without a direction nothing has been taken from the residual
  obtain ⟨x, hx, hnorm⟩ := h.residualNorm_eq
  obtain ⟨x', hx', hmem, -⟩ := h.minimal
  obtain rfl := add_left_cancel (Tensor.ofFn_injective (hx.symm.trans hx'))
  rw [Nat.eq_zero_of_not_pos hnone, krylov_zero, Submodule.mem_bot] at hmem
  rw [hmem, map_zero, sub_zero] at hnorm
  cases h with
  | exact small => exact hlarge.not_gt small
  | grown _ ended _ _ _ _ =>
      rcases ended.remainder_le_or_pos hpos hlimit with hwithin | hcolumns
      · exact (mul_lt_of_lt_one_left hβ hτ).not_ge (hnorm.symm.le.trans hwithin)
      · exact hnone hcolumns

/-- A solver that is laid out for a dimension at all, with a number of directions that has been
accepted, may use one. -/
theorem Solver.limit_pos {solver : Solver ℝ} {dim : ℤ} {limit rtol : Datum ℝ} (hdim : 0 < dim)
    (hlimit : Requirement.atLeastOne.holds limit = .ok true)
    (h : ofExtents (.number (.whole dim)) limit rtol = .ok solver) : 0 < solver.limit := by
  rcases limit_ofExtents h with ⟨-, hlimit⟩ | ⟨l, rfl, -, hl⟩
  · omega
  · have hone : 1 ≤ l := of_decide_eq_true (Except.ok.inj hlimit)
    omega

end Krylov

/-! ## Affine gradients -/

/-- At a time and a state the model has a costate to start from, and with it the control gradient of
an action `a` is `M a + b`. -/
structure Model.AffineAt (model : Model ℝ) (t : Datum ℝ) (x : Tensor ℝ)
    (M : Matrix (Fin d) (Fin d) ℝ) (b : Fin d → ℝ) : Prop where
  actionDim : model.actionDim = d
  gradients : ∃ costate, model.terminalGradient x t = .ok costate ∧
    ∀ a : Fin d → ℝ, model.controlGradient x (.ofFn a) costate t = .ok (.ofFn (M *ᵥ a + b))

/-- The gradient of a regulator is affine everywhere, by the weight of the control. -/
theorem Regulator.affineAt {n m : ℕ} (g : Regulator n m) (t : Datum ℝ) (x : Fin n → ℝ) :
    g.model.AffineAt t (.ofFn x) g.R (g.Bᵀ *ᵥ (g.F *ᵥ (x - g.reference))) where
  actionDim := g.answers.actionDim
  gradients := ⟨_, g.weighted_deviation g.F x, fun a => g.controlGradient_model x a _ t⟩

namespace Newton

/-- The solve of an iteration. -/
def Search.direction {α : Type} [Scalar α] (search : Search α) (it : Iterate α) :
    Except (Fault α) (Krylov.Outcome α) :=
  ((search.solver.solve (search.system.linearized search.time search.state it.action) none
    it.workspace).run it.memory).1.1

/-! ## One iteration -/

/-- A search with the gradient `M a + b` at its time and state, and the costate that it
remembers. -/
structure Search.Affine (search : Search ℝ) (M : Matrix (Fin d) (Fin d) ℝ) (b : Fin d → ℝ)
    (costate : Tensor ℝ) (h : ℝ) : Prop where
  replies : search.system.RepliesAt search.time search.state costate (fun a => M *ᵥ a + b) h
  dim : search.solver.dim = d
  relativeTolerance : search.solver.relativeTolerance = defaultRelativeTolerance
  limit : 0 < d → 0 < search.solver.limit

/-- An iterate at an action, with its norm. -/
structure Iterate.At (it : Iterate ℝ) (search : Search ℝ) (M : Matrix (Fin d) (Fin d) ℝ)
    (b : Fin d → ℝ) (costate : Tensor ℝ) (a : Fin d → ℝ) : Prop where
  action : it.action = .ofFn a
  residualNorm : it.residualNorm = search.scale * √((M *ᵥ a + b) ⬝ᵥ (M *ᵥ a + b))
  costate : it.memory.costate = some costate
  rotations : it.workspace.rotations.length = search.solver.limit

variable {search : Search ℝ} {it : Iterate ℝ} {M : Matrix (Fin d) (Fin d) ℝ} {a b : Fin d → ℝ}
  {costate : Tensor ℝ} {h : ℝ}

theorem Search.Affine.measure (hs : search.Affine M b costate h) (a : Fin d → ℝ)
    {μ : ZeroHorizon.Memory ℝ} (hμ : μ.costate = some costate) {w : Krylov.Workspace ℝ}
    (hw : w.rotations.length = search.solver.limit) :
    ∃ it, search.measure (.ofFn a) μ w = .ok it ∧ it.At search M b costate a := by
  refine ⟨⟨.ofFn a, search.scale * √((M *ᵥ a + b) ⬝ᵥ (M *ᵥ a + b)), μ, w⟩, ?_, rfl, rfl, hμ, hw⟩
  rw [Search.measure, ZeroHorizon.gradient_at hs.replies hμ, ← Tensor.norm_ofFn]
  rfl

/-- The difference quotient of an affine gradient is its matrix. -/
theorem difference_affine (hh : h ≠ 0) (M : Matrix (Fin d) (Fin d) ℝ) (a b v : Fin d → ℝ) :
    h⁻¹ • (M *ᵥ (a + h • v) + b - (M *ᵥ a + b)) = M.mulVecLin v := by
  rw [add_sub_add_right_eq_sub, Matrix.mulVec_add, add_sub_cancel_left, Matrix.mulVec_smul,
    inv_smul_smul₀ hh]
  rfl

/-- An iteration adds the solution of the linear system with the matrix `M`, and the norm it comes
to is what the solve has reported, measured over the copies. -/
theorem Search.Affine.advance (hs : search.Affine M b costate h)
    (hit : it.At search M b costate a) :
    ∃ outcome y next, search.direction it = .ok outcome ∧ outcome.solution = .ofFn y ∧
      search.solver.Solved M.mulVecLin 1e-10 (-(M *ᵥ a + b)) 0 outcome ∧
      search.advance it = .ok next ∧ next.At search M b costate (a + y) ∧
      next.residualNorm = search.scale * outcome.residualNorm := by
  have hτ : search.solver.relativeTolerance.scalar = .ok 1e-10 := by
    rw [hs.relativeTolerance]
    rfl
  have hresidual := ZeroHorizon.residual_at hs.replies hit.costate a
  have himage (v : Fin d → ℝ) := ZeroHorizon.image_at hs.replies
    (μ := { it.memory with base := some (.ofFn (M *ᵥ a + b)) }) hit.costate (a := a) rfl v
  simp only [difference_affine hs.replies.step_pos.ne'] at himage
  obtain ⟨outcome, w, hrun, hsolved⟩ :=
    Krylov.Solver.solve_ended hs.dim hτ hresidual himage hit.rotations
  have hrun : (search.solver.solve (search.system.linearized search.time search.state it.action)
      none it.workspace).run it.memory =
        ((.ok outcome, w), { it.memory with base := some (.ofFn (M *ᵥ a + b)) }) := by
    rw [hit.action, Krylov.Solver.solve_none hs.dim, hrun]
  obtain ⟨y, hy, hnorm⟩ := hsolved.residualNorm_eq
  rw [zero_add] at hy
  have hw : w.rotations.length = search.solver.limit := by
    have hlength : ((search.solver.solve
        (search.system.linearized search.time search.state it.action) none it.workspace).run
          it.memory).1.2.rotations.length = it.workspace.rotations.length :=
      Krylov.Solver.length_rotations_solve none it.memory
    rw [hrun] at hlength
    exact hlength.trans hit.rotations
  obtain ⟨next, hnext, hat⟩ := hs.measure (a + y)
    (μ := { it.memory with base := some (.ofFn (M *ᵥ a + b)) }) hit.costate hw
  -- what is left of the system is the gradient at the next action
  have hleft : -(M *ᵥ a + b) - M.mulVecLin y = -(M *ᵥ (a + y) + b) := by
    rw [Matrix.mulVecLin_apply, Matrix.mulVec_add]
    abel
  refine ⟨outcome, y, next, by rw [Search.direction, hrun], hy, hsolved, ?_, hat, ?_⟩
  · rw [Search.advance, hrun]
    dsimp only
    rw [ok_bind, hy, hit.action, Tensor.increase_ofFn, ok_bind, hnext]
  · rw [hat.residualNorm, hnorm, hleft, neg_dotProduct_neg]

variable {model : Model ℝ} {draft : InitParams.Draft ℝ} {params : InitParams ℝ}
variable {t copies : Datum ℝ} {x : Tensor ℝ} {scale : ℝ}

/-- Where the gradient is affine, a search with parameters that have been accepted starts at its
guess. -/
theorem exists_start_affine (hm : model.AffineAt t x M b) (hcheck : draft.check = .ok params)
    (hguess : params.guess = List.ofFn a) (hsized : Krylov.Solver.Sized d params.krylovLimit)
    (hroom : Krylov.Solver.HasRoom d params.krylovLimit) (hscale : copyScale copies = .ok scale) :
    ∃ search first costate h, start model t x params copies = .ok (search, first) ∧
      search.Affine M b costate h ∧ search.scale = scale ∧ first.At search M b costate a := by
  have hchecked := draft.checked hcheck
  obtain ⟨costate, hcostate, hgradient⟩ := hm.gradients
  obtain ⟨h, hh, hpos⟩ := Datum.scalar_of_isPositive hchecked.differenceStep
  obtain ⟨hsolver, -⟩ := Krylov.Solver.ofExtents_of_holds (τ := defaultRelativeTolerance)
    hchecked.krylovLimit hroom
  obtain ⟨solver, hsolver, hdim, hrelative⟩ := hsolver hsized
  have haction : Tensor.ofVec params.guess = .ofFn a := by rw [hguess]; rfl
  have haffine :
      Search.Affine ⟨⟨model, params.differenceStep⟩, solver, t, x, scale⟩ M b costate h :=
    ⟨⟨hgradient, hh, hpos⟩, hdim, hrelative, fun hd =>
      Krylov.Solver.limit_pos (Int.natCast_pos.2 hd) hchecked.krylovLimit hsolver⟩
  obtain ⟨first, hfirst, hat⟩ := haffine.measure a (μ := { costate := some costate }) rfl
    (w := solver.workspace) List.length_replicate
  refine ⟨_, first, costate, h, ?_, haffine, rfl, hat⟩
  simp only [start, ZeroHorizon.runOn_prepare, hcostate, ok_bind, hm.actionDim, hsolver, hscale,
    haction, hfirst]
  rfl

end Newton

/-! ## The integrator away from its reference state -/

/-- The search for the action of the integrator at one.  Without control the gradient is the
deviation from the reference state, and one iteration takes it away. -/
theorem Newton.exists_start_integrator : ∃ (search : Search ℝ) (first next : Iterate ℝ),
    start Regulator.integrator.model (.number (.real 0)) (.ofFn (1 : Fin 1 → ℝ)) unitParams 1 =
      .ok (search, first) ∧ first.residualNorm = 1 ∧ search.advance first = .ok next ∧
    next.action = .ofFn (-1 : Fin 1 → ℝ) ∧ next.residualNorm = 0 := by
  have haffine : Regulator.integrator.model.AffineAt (.number (.real 0)) (.ofFn (1 : Fin 1 → ℝ))
      (1 : Matrix (Fin 1) (Fin 1) ℝ) 1 := by
    have h := Regulator.integrator.affineAt (.number (.real 0)) 1
    simpa [Regulator.integrator] using h
  obtain ⟨search, first, costate, h, hstart, hs, hscale, hfirst⟩ :=
    exists_start_affine haffine check_unitDraft (a := 0) rfl Krylov.Solver.sized_one
      (Krylov.Solver.hasRoom_one _) copyScale_one
  obtain ⟨outcome, y, next, -, -, hsolved, hadvance, hnext, hreported⟩ := hs.advance hfirst
  have hfirst := hfirst.residualNorm
  have hunit : √((1 : Fin 1 → ℝ) ⬝ᵥ 1) = 1 := by simp
  have hβ : √(-(1 : Fin 1 → ℝ) ⬝ᵥ -1) = 1 := by rw [neg_dotProduct_neg, hunit]
  rw [Int.cast_one, Real.sqrt_one] at hscale
  rw [Matrix.mulVec_zero, zero_add] at hsolved hfirst
  rw [hscale, hunit, one_mul] at hfirst
  rw [hscale, one_mul] at hreported
  have hiterations := hsolved.iterations_pos
    (fun _ hv => Matrix.PosDef.one.dotProduct_mulVec_pos hv) (by norm_num) (hs.limit Nat.one_pos)
    (by rw [hβ]; exact tiny_le_one)
  have hnorm := hnext.residualNorm
  rw [hscale, one_mul, Matrix.one_mulVec] at hnorm
  have hzero : next.residualNorm = 0 := by
    have hle := hsolved.residualNorm_le_of_mem (Krylov.pow_mem_krylov hiterations)
    rw [pow_zero, Module.End.one_apply, Matrix.mulVecLin_one, LinearMap.id_apply, sub_self,
      zero_dotProduct, Real.sqrt_zero, ← hreported] at hle
    exact hle.antisymm (hnorm ▸ Real.sqrt_nonneg _)
  refine ⟨search, first, next, hstart, hfirst, hadvance, ?_, hzero⟩
  rw [hzero, eq_comm, Real.sqrt_eq_zero (dotProduct_self_nonneg _), dotProduct_self_eq_zero]
    at hnorm
  rw [hnext.action, eq_neg_of_add_eq_zero_left hnorm]

/-- The search for the action of the integrator at one succeeds after one iteration, with the action
minus one. -/
theorem Newton.solve_integrator :
    solve Regulator.integrator.model (.number (.real 0)) (.ofFn (1 : Fin 1 → ℝ)) unitParams 1 =
      .ok ⟨.ofFn (-1 : Fin 1 → ℝ), 0, 1⟩ := by
  obtain ⟨search, first, next, hstart, hfirst, hadvance, haction, hnext⟩ := exists_start_integrator
  have hτ : unitParams.residualTolerance.scalar = (.ok 1e-6 : Except (Fault ℝ) ℝ) := rfl
  have hlimit : unitParams.iterationLimit.toNat = 48 + 1 + 1 := rfl
  have hover : (1e-6 : ℝ) ≤ first.residualNorm := by
    rw [hfirst]
    norm_num
  have hbelow : next.residualNorm < 1e-6 := hnext.trans_lt millionth_pos
  have hrun : search.run 1e-6 unitParams.iterationLimit.toNat 0 first = .ok (next, 1) := by
    rw [hlimit, Search.run, if_pos hover, hadvance, ok_bind, Search.run, if_neg hbelow.not_ge]
  rw [solve_of_start length_guess_unitParams hstart, hτ, ok_bind, hrun, ok_bind,
    conclude_eq_ok_iff.2 hbelow, haction, hnext]

/-- A controller of the integrator for one step can be seeded at one, and carries the action minus
one. -/
theorem seed_integrator {controller : Controller ℝ} {h ζ T a : ℝ}
    (hc : controller.Serves Regulator.integrator.responses h ζ T a)
    (hmodel : controller.model = Regulator.integrator.model) (hN : controller.divisions = 1)
    (hstep : controller.settings.differenceStep = 1) :
    ∃ answer state,
      (controller.seed (.number (.real 0)) (.ofTensor (.ofFn (1 : Fin 1 → ℝ)))).runOn
        controller.blank = (.ok answer, state) ∧
      state.actions.get = .ofNodes 1 fun _ => (-1 : Fin 1 → ℝ) := by
  have hparams : controller.chosenParams controller.blank = .ok unitParams :=
    chosenParams_of_dim (hmodel ▸ actionDim_unitController) hstep rfl
  have hfound : Newton.solve controller.model (.number (.real 0)) (.ofFn (1 : Fin 1 → ℝ)) unitParams
      (.number (.whole controller.divisions)) = .ok ⟨.ofFn (-1 : Fin 1 → ℝ), 0, 1⟩ := by
    rw [hmodel, hN]
    exact Newton.solve_integrator
  obtain ⟨answer, state, hseed, hactions⟩ :=
    Controller.seed_answers hc (hN ▸ Nat.one_pos) hparams hfound
  rw [hN, Tensor.replicate_ofFn] at hactions
  exact ⟨answer, state, hseed, hactions⟩

end RecedingHorizon

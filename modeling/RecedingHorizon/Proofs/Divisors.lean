import RecedingHorizon.Proofs.Consistent
import RecedingHorizon.Proofs.Krylov.Divisors
import RecedingHorizon.Proofs.Seeded

/-!
# What a controller divides by

A controller divides by its difference step, by the number of steps of its horizon, and where it
solves a linear system: in each continuation step, and in each iteration of the search that a
seeding makes.  The difference steps are positive, since they have been checked.  A horizon without
steps is not divided.  And both kinds of linear systems answer a guess with a residual of their
dimension, which is all that a solve needs in order to divide by nothing that is zero.

A workspace is kept from one solve to the next, but each solve clears it first.  So the invariant
holds in whatever state a controller comes to, and of every iterate that a search comes to.

* `Newton.normalized_of_run`: the iterates of a search.
* `Controller.normalized_solved`, `Controller.normalized_performAll`: the steps of a controller.
* `Controller.DividesByNonzero`, `Controller.dividesByNonzero`: all of it.
-/

namespace RecedingHorizon

open Stateful

/-! ## The search -/

namespace Newton

namespace Search

variable {search : Search ℝ} {costate : Tensor ℝ} {it it' : Iterate ℝ}

/-- The workspace of an iterate has room for every direction, and holds what a solve has left that
has divided by nothing that is zero. -/
structure Sound (search : Search ℝ) (costate : Tensor ℝ) (it : Iterate ℝ) : Prop where
  measured : it.Measured search costate
  shape : it.action.shape = [search.system.model.actionDim.toNat]
  rotations : it.workspace.rotations.length = search.solver.limit
  normalized : it.workspace.Normalized

theorem workspace_measure {action : Tensor ℝ} {memory : ZeroHorizon.Memory ℝ}
    {w : Krylov.Workspace ℝ} (h : search.measure action memory w = .ok it) : it.workspace = w := by
  obtain ⟨gradient, -, h⟩ := bind_eq_ok_iff.1 h
  cases h
  rfl

/-- An iteration of a search leads to a sound iterate, whatever its linear system answers. -/
theorem Sound.advance (hs : search.Ready costate) (hit : search.Sound costate it)
    (h : search.advance it = .ok it') : search.Sound costate it' := by
  obtain ⟨k, ht⟩ := hs.time
  obtain ⟨step, hstep⟩ := hs.differenceStep
  have hanswers := ZeroHorizon.answers_linearized hs.model ht hs.state hs.costate hit.shape hstep
    hs.divisible
  have hworkspace : it'.workspace = ((search.solver.solve (search.system.linearized search.time
      search.state it.action) none it.workspace).run it.memory).1.2 := by
    obtain ⟨outcome, -, h⟩ := bind_eq_ok_iff.1 h
    obtain ⟨action, -, h⟩ := bind_eq_ok_iff.1 h
    exact workspace_measure h
  refine ⟨measured_advance hit.measured h, (shape_advance h).trans hit.shape, ?_, ?_⟩
  · rw [hworkspace, Krylov.Solver.length_rotations_solve, hit.rotations]
  · rw [hworkspace]
    refine Krylov.Solver.normalized_solve hit.rotations fun b μ' hresidual => ?_
    have hzeros : (Tensor.zeros [search.solver.dim] : Tensor ℝ).shape =
        [search.system.model.actionDim.toNat] := congrArg (fun d => [d]) hs.dim
    obtain ⟨b', ν, hanswer, hshape, -⟩ := hanswers.residual hzeros hit.measured.remembered
    obtain rfl := Except.ok.inj (Prod.mk.inj (hanswer.symm.trans hresidual)).1
    rw [hs.dim]
    exact hshape

end Search

variable {model : Model ℝ} {copies : Datum ℝ} {x : Tensor ℝ} {params : InitParams ℝ}
variable {search : Search ℝ} {first : Iterate ℝ} {t : ℝ}

/-- The iterate that a search begins with is sound. -/
theorem sound_start (hm : model.Total) (hx : x.shape = [model.stateDim.toNat])
    (hparams : params.Usable model.actionDim)
    (h : start model t x params copies = .ok (search, first)) :
    ∃ costate, search.Ready costate ∧ search.Sound costate first := by
  obtain ⟨initial, hcheck⟩ := hparams.checked
  obtain ⟨-, -, -, -, -, hscale, -⟩ := start_eq_ok h
  obtain ⟨solver, hsolver, hworkspace, hsame⟩ : ∃ solver,
      Krylov.Solver.ofExtents (.number (.whole model.actionDim)) params.krylovLimit
        defaultRelativeTolerance = .ok solver ∧ first.workspace = solver.workspace ∧
        search.solver = solver := by
    obtain ⟨_, -, h⟩ := bind_eq_ok_iff.1 h
    obtain ⟨solver, hsolver, h⟩ := bind_eq_ok_iff.1 h
    obtain ⟨scale, -, h⟩ := bind_eq_ok_iff.1 h
    obtain ⟨it, hit, h⟩ := bind_eq_ok_iff.1 h
    cases h
    exact ⟨solver, hsolver, Search.workspace_measure hit, rfl⟩
  obtain ⟨hdim, hτ⟩ := Krylov.Solver.dim_ofExtents hsolver
  have htime : (t : Datum ℝ).number? = some (.real t) := rfl
  obtain ⟨search', first', costate, hstart, hready, hmeasured, hshape⟩ :=
    exists_start hm (initial.checked hcheck) (fun _ _ => rfl) isZero_of_pos
      hparams.guess htime hx hscale hsolver hdim hτ
  obtain ⟨rfl, rfl⟩ := Prod.mk.inj (Except.ok.inj (hstart.symm.trans h))
  refine ⟨costate, hready, hmeasured, hshape, ?_, ?_⟩
  · rw [hworkspace, hsame]
    exact List.length_replicate
  · rw [hworkspace]
    exact Krylov.Workspace.normalized_cleared (.fresh _)

/-- The workspace of every iterate that a search comes to is normalized, whatever the tolerance and
the limit of the search. -/
theorem normalized_of_run (hm : model.Total) (hx : x.shape = [model.stateDim.toNat])
    (hparams : params.Usable model.actionDim)
    (hstart : start model t x params copies = .ok (search, first)) {τ : ℝ} {left count : ℕ}
    {it : Iterate ℝ} (hrun : search.run τ left 0 first = .ok (it, count)) :
    it.workspace.Normalized := by
  obtain ⟨costate, hready, hfirst⟩ := sound_start hm hx hparams hstart
  exact (Search.holds_run (fun hit h => Search.Sound.advance hready hit h) hfirst hrun).normalized

end Newton

/-! ## Steps -/

namespace Controller

variable {controller : Controller ℝ} {state : State ℝ} {n k : ℕ} {h ζ T a : ℝ}

/-- The linear solve of a step leaves a normalized workspace. -/
theorem normalized_solved (hc : controller.Scaled n k h ζ T a)
    (hs : state.workspace.rotations.length = controller.solver.limit)
    (hw : state.workspace.Normalized) (t : Datum ℝ) (x : Tensor ℝ) :
    (controller.solved t x state).1.2.Normalized := by
  rw [solved]
  split
  · exact hw
  · refine Krylov.Solver.normalized_solve hs fun b μ' hb => ?_
    rw [hc.dim]
    exact Continuation.shape_residual (hc.scaled_continuation state.start) hb

/-- A step keeps the workspace normalized. -/
theorem normalized_update (hc : controller.Scaled n k h ζ T a) (hregular : controller.Regular)
    (t period measured : Datum ℝ) :
    Preserves (fun s => controller.Fits s ∧ s.workspace.Normalized)
      (controller.update t period measured) := by
  rintro s ⟨hfits, hw⟩
  refine ⟨preserves_update hregular.actionDim t period measured s hfits, ?_⟩
  rw [runOn_update]
  split
  · exact hw
  · next x _ =>
      have hrates : ((controller.rates t x).runOn s).2.workspace.Normalized := by
        rw [workspace_rates hregular hfits]
        exact normalized_solved hc hfits.rotations hw t x
      rw [runOn_bind]
      rcases hrun : (controller.rates t x).runOn s with ⟨fault | found, s'⟩
      · rw [hrun] at hrates
        exact hrates
      · rw [hrun] at hrates
        exact preserves_follow (I := fun s => s.workspace.Normalized) (fun _ _ _ hs => hs) period
          found s' hrates

/-- Every call keeps the workspace normalized. -/
theorem normalized_perform (hc : controller.Scaled n k h ζ T a) (hregular : controller.Regular)
    (operation : Operation ℝ) :
    Preserves (fun s => controller.Fits s ∧ s.workspace.Normalized)
      (controller.perform operation) := by
  refine preserves_perform_of (fun given _ => ?_) (fun t measured _ s hs => ?_)
    (normalized_update hc hregular)
  · exact preserves_perform_setInitParams (fun s params hs => ⟨{ hs.1 with }, hs.2⟩) given
  · exact ⟨preserves_seed t measured s hs.1, preserves_seed_of
      (I := fun s => s.workspace.Normalized) (fun _ _ hs => hs) (fun _ _ hs => hs) measured s hs.2⟩

theorem normalized_performAll (hc : controller.Scaled n k h ζ T a) (hregular : controller.Regular)
    (operations : List (Operation ℝ)) :
    (controller.performAll operations controller.blank).2.workspace.Normalized := by
  have hblank : controller.blank.workspace.Normalized :=
    Krylov.Workspace.normalized_cleared (.fresh _)
  exact (preserves_performAll (fun operation _ => normalized_perform hc hregular operation)
    ⟨controller.fits_blank, hblank⟩).2

/-! ## All of it -/

/-- What a controller divides by is not zero, and a horizon without steps is not divided.  This is
about the step that led to a state, about whatever step or residual comes next, and about every
iterate of the search that a seeding would make next. -/
structure DividesByNonzero (controller : Controller ℝ) (state : State ℝ) : Prop where
  differenceStep : ∃ h, controller.settings.differenceStep.scalar = .ok h ∧ 0 < h
  divisions : controller.divisions = 0 → ∀ t, (controller.horizon state.start).step t =
    (controller.horizon state.start).length t >>= fun _ => .ok 0
  workspace : state.workspace.Normalized
  search : ∀ params, controller.chosenParams state = .ok params →
    (∃ h, params.differenceStep.scalar = .ok h ∧ 0 < h) ∧
      ∀ (t : ℝ) {x : Tensor ℝ} {copies : Datum ℝ} {search : Newton.Search ℝ}
        {first it : Newton.Iterate ℝ} {τ : ℝ} {left count : ℕ},
        x.shape = [controller.model.stateDim.toNat] →
        Newton.start controller.model t x params copies = .ok (search, first) →
        search.run τ left 0 first = .ok (it, count) → it.workspace.Normalized

theorem dividesByNonzero (hc : controller.Scaled n k h ζ T a) (hm : controller.model.Total)
    {draft : Settings.Draft ℝ} (hsettings : draft.check = .ok controller.settings)
    (hdim : 0 < controller.model.actionDim)
    (hroom : ∀ limit, Krylov.Solver.HasRoom controller.model.actionDim.toNat (limit : Datum ℝ))
    (hs : controller.Exact state) (hw : state.workspace.Normalized) :
    controller.DividesByNonzero state where
  differenceStep := ⟨h, hc.differenceStep, hc.step_pos⟩
  divisions hN t := by
    have hempty : (controller.horizon state.start).divisions.isZero = true := by
      rw [horizon, hN]
      rfl
    rw [Horizon.step]
    refine congrArg _ (funext fun length => ?_)
    rw [if_pos hempty]
    rfl
  workspace := hw
  search params hparams := by
    obtain ⟨params', hparams', husable⟩ := exists_chosenParams hsettings hdim hroom hs
    obtain rfl := Except.ok.inj (hparams'.symm.trans hparams)
    obtain ⟨initial, hcheck⟩ := husable.checked
    exact ⟨Datum.scalar_of_isPositive (initial.checked hcheck).differenceStep,
      fun t _ _ _ _ _ _ _ _ hx hstart hrun => Newton.normalized_of_run hm hx husable hstart hrun⟩

end Controller

end RecedingHorizon

import RecedingHorizon.Proofs.InertCalls
import RecedingHorizon.Proofs.OddSymmetry

/-!
# Controllers with constraints that say nothing

A stage without constraints is given some that are left open, and two controllers are made from the
same settings.  They are set up in one way: with the default parameters, or with parameters that
differ in the guess, which for the second has multipliers behind the control.  Then they are called
in the same order with the same arguments.

What both apply is the same, and so are the norms, the trajectories, and all that is reported of the
Krylov solves but the solutions.  In the actions of the second controller the control parts are
those of the first, and the multipliers are those of its guess as long as it runs; in the rates of
change they are zero.

The second controller may be allowed more directions than the first, as its systems have more
unknowns.  It never uses them.

* `Controller.exists_beside`: the two controllers belong together.
* `Controller.SetsUp`: how they are set up.
* `Controller.performAll_inert`: any calls that follow a solution.
-/

namespace RecedingHorizon

open Stateful

variable {n m k : ℕ}

/-! ## Parameters -/

/-- Two solvers that may use whole numbers of directions, if the first keeps up. -/
theorem Krylov.Solver.exists_beside {d d' : ℕ} {limit limit' : Datum ℝ}
    (hroom : HasRoom d limit) (hroom' : HasRoom d' limit')
    (hlimit : Requirement.atLeastOne.holds limit = .ok true)
    (hlimit' : Requirement.atLeastOne.holds limit' = .ok true)
    (hwhole : ∃ l, limit = .number (.whole l)) (hwhole' : ∃ l, limit' = .number (.whole l))
    (hkeeps : ∀ {solver solver' : Solver ℝ},
      ofExtents (.number (.whole d)) limit defaultRelativeTolerance = .ok solver →
      ofExtents (.number (.whole d')) limit' defaultRelativeTolerance = .ok solver' →
      solver.KeepsUp solver') :
    ∃ solver solver',
      ofExtents (.number (.whole d)) limit defaultRelativeTolerance = .ok solver ∧
      ofExtents (.number (.whole d')) limit' defaultRelativeTolerance = .ok solver' ∧
      solver.Beside solver' d d' := by
  obtain ⟨solver, hsolver, hdim, hτ⟩ := (ofExtents_of_holds hlimit hroom).1 (.inl hwhole)
  obtain ⟨solver', hsolver', hdim', hτ'⟩ := (ofExtents_of_holds hlimit' hroom').1 (.inl hwhole')
  exact ⟨solver, solver', hsolver, hsolver', {
    dim := hdim
    dim' := hdim'
    scalar := ⟨1e-10, by rw [hτ]; rfl⟩
    relativeTolerance := hτ'.trans hτ.symm
    keepsUp := hkeeps hsolver hsolver' }⟩

/-- Drafts that differ in the guess, which in the second has the multipliers `ρ`. -/
structure InitParams.Draft.Beside (m : ℕ) (ρ : Fin k → ℝ) (draft draft' : InitParams.Draft ℝ) :
    Prop where
  guess : ∃ g : Fin (m + 0) → ℝ, draft.guess.tensor = .ok (.ofFn g) ∧
    draft'.guess.tensor = .ok (.ofFn (extended ρ g))
  residualTolerance : draft'.residualTolerance = draft.residualTolerance
  iterationLimit : draft'.iterationLimit = draft.iterationLimit
  differenceStep : draft'.differenceStep = draft.differenceStep
  krylovLimit : draft'.krylovLimit = draft.krylovLimit

/-- If one passes its checks so does the other, and the parameters differ in the guess as well. -/
theorem InitParams.Draft.Beside.check {ρ : Fin k → ℝ} {draft draft' : InitParams.Draft ℝ}
    (h : draft.Beside m ρ draft') {params : InitParams ℝ} (hcheck : draft.check = .ok params)
    {l : ℤ} (hl : params.krylovLimit = .number (.whole l))
    (hroom : ∀ limit, Krylov.Solver.HasRoom m (limit : Datum ℝ))
    (hroom' : ∀ limit, Krylov.Solver.HasRoom (m + k) (limit : Datum ℝ)) :
    ∃ params', draft'.check = .ok params' ∧ params.Beside m ρ params' := by
  have hchecked := Draft.checked hcheck
  obtain ⟨g, hg, hg'⟩ := h.guess
  have hsame : draft' = { draft with guess := draft'.guess } := by
    rw [← h.residualTolerance, ← h.iterationLimit, ← h.differenceStep, ← h.krylovLimit]
  have hfirst : params.guess = List.ofFn g := congrArg InitParams.guess
    (Except.ok.inj (hcheck.symm.trans (check_guess hcheck (Datum.asGuess_of_tensor hg))))
  refine ⟨{ params with guess := List.ofFn (extended ρ g) },
    hsame ▸ check_guess hcheck (Datum.asGuess_of_tensor hg'), {
      guess := ⟨g, hfirst, rfl⟩
      residualTolerance := rfl
      iterationLimit := rfl
      differenceStep := rfl
      step := Datum.scalar_of_isPositive hchecked.differenceStep
      solvers := Krylov.Solver.exists_beside (hroom _) (hroom' _) hchecked.krylovLimit
        hchecked.krylovLimit ⟨l, hl⟩ ⟨l, hl⟩ (Krylov.Solver.keepsUp_ofExtents (by omega)) }⟩

namespace Controller

variable {stage : StageModel ℝ} {draft : Settings.Draft ℝ} {settings : Settings ℝ}
  {controller controller' : Controller ℝ} {ρ : Fin k → ℝ}

/-! ## Two controllers -/

/-- From one setting controllers of the same number of steps are made, each with its solver. -/
theorem refitted_ofSettings {model model' : Model ℝ}
    (hcontroller : ofSettings model settings = .ok controller)
    (hcontroller' : ofSettings model' settings = .ok controller') :
    ∃ solver', controller' = controller.refitted model' solver' ∧
      Krylov.Solver.ofExtents (.number (.whole (controller.divisions * model.actionDim)))
        settings.krylovLimit settings.relativeTolerance = .ok controller.solver ∧
      Krylov.Solver.ofExtents (.number (.whole (controller.divisions * model'.actionDim)))
        settings.krylovLimit settings.relativeTolerance = .ok solver' := by
  obtain ⟨solver, hsolver, hcontroller⟩ := bind_eq_ok_iff.1 hcontroller
  obtain ⟨_, -, hcontroller⟩ := bind_eq_ok_iff.1 hcontroller
  obtain ⟨_, -, hcontroller⟩ := bind_eq_ok_iff.1 hcontroller
  obtain ⟨solver', hsolver', hcontroller'⟩ := bind_eq_ok_iff.1 hcontroller'
  obtain ⟨_, -, hcontroller'⟩ := bind_eq_ok_iff.1 hcontroller'
  obtain ⟨_, -, hcontroller'⟩ := bind_eq_ok_iff.1 hcontroller'
  cases hcontroller
  cases hcontroller'
  exact ⟨solver', rfl, hsolver, hsolver'⟩

/-- Unless told otherwise both search from zero, and for as long. -/
theorem exists_defaults_beside (hsettings : draft.check = .ok settings)
    (h : controller.settings = settings) (h' : controller'.settings = settings)
    (hdim : controller.model.actionDim = (m + 0 : ℕ))
    (hdim' : controller'.model.actionDim = (m + k : ℕ)) (hm : 0 < m)
    (hroom : ∀ limit, Krylov.Solver.HasRoom m (limit : Datum ℝ))
    (hroom' : ∀ limit, Krylov.Solver.HasRoom (m + k) (limit : Datum ℝ)) :
    ∃ initial initial' params params', controller.defaultInitParams = .ok initial ∧
      initial.check = .ok params ∧ controller'.defaultInitParams = .ok initial' ∧
      initial'.check = .ok params' ∧ params.Beside m (0 : Fin k → ℝ) params' := by
  have hsize : controller.model.actionDim.toNat = m + 0 := by rw [hdim, Int.toNat_natCast]
  have hsize' : controller'.model.actionDim.toNat = m + k := by rw [hdim', Int.toNat_natCast]
  obtain ⟨initial, params, hdefault, hcheck, hguess, hτ, hn, hs, hl⟩ :=
    check_defaultInitParams (h ▸ hsettings) (by omega) (hsize ▸ hroom)
  obtain ⟨initial', params', hdefault', hcheck', hguess', hτ', hn', hs', hl'⟩ :=
    check_defaultInitParams (h' ▸ hsettings) (by omega) (hsize' ▸ hroom')
  have hchecked := InitParams.Draft.checked hcheck
  have hchecked' := InitParams.Draft.checked hcheck'
  have hzeros {d d' : ℕ} (hd : d = d') :
      List.ofFn (0 : Fin d → ℝ) = List.ofFn (0 : Fin d' → ℝ) := by rw [hd]
  refine ⟨initial, initial', params, params', hdefault, hcheck, hdefault', hcheck', {
    guess := ⟨0, hguess.trans (hzeros hsize), ?_⟩
    residualTolerance := hτ'.trans hτ.symm
    iterationLimit := hn'.trans hn.symm
    differenceStep := by rw [hs, hs', h, h']
    step := Datum.scalar_of_isPositive hchecked.differenceStep
    solvers := Krylov.Solver.exists_beside (hroom _) (hroom' _) hchecked.krylovLimit
      hchecked'.krylovLimit ⟨_, hl⟩ ⟨_, hl'⟩ ?_ }⟩
  · have hzero : extended (0 : Fin k → ℝ) (0 : Fin (m + 0) → ℝ) = 0 := map_zero (extension m k)
    rw [hguess', hzero, hzeros hsize']
  · rw [hl, hl', hdim, hdim']
    exact Krylov.Solver.keepsUp_ofExtents_self (by omega)

/-- Controllers from one setting, for a stage without constraints and for the same with `k` inert
constraints, belong together. -/
theorem exists_beside (hstage : stage.toModel.Total) (hstate : stage.stateDim = n)
    (hcontrol : stage.controlDim = m) (hconstraint : stage.constraintDim = 0) (hm : 0 < m)
    (hk : 0 < k) (hinert : stage.HasInertRoom k) (hsettings : draft.check = .ok settings)
    (hcontroller : ofSettings stage.toModel settings = .ok controller)
    (hcontroller' : ofSettings (stage.inert k).toModel settings = .ok controller')
    (hroom : ∀ limit, Krylov.Solver.HasRoom m (limit : Datum ℝ))
    (hroom' : ∀ limit, Krylov.Solver.HasRoom (m + k) (limit : Datum ℝ)) :
    ∃ (r : Responses n m 0) (h ζ T a : ℝ) (solver' : Krylov.Solver ℝ),
      controller' = controller.refitted (stage.inert k).toModel solver' ∧
      controller.Beside (stage.inert k).toModel solver' r k h ζ T a := by
  have hsound := Settings.Draft.sound hsettings
  obtain ⟨h, hh, -⟩ := hsound.differenceStep
  obtain ⟨ζ, hζ, -⟩ := hsound.decayRate
  obtain ⟨T, hT, -⟩ := hsound.horizonLength
  obtain ⟨a, ha, -⟩ := hsound.growthRate
  have hstates : 0 ≤ stage.stateDim := hstate ▸ Int.natCast_nonneg n
  obtain ⟨n₁, m₁, c₁, r, hr⟩ := hstage.exists_answers hstates
  obtain rfl : n₁ = n := Int.ofNat_inj.1 (hr.stateDim.symm.trans hstate)
  obtain rfl : m₁ = m := Int.ofNat_inj.1 (hr.controlDim.symm.trans hcontrol)
  obtain rfl : c₁ = 0 := Int.ofNat_inj.1 (hr.constraintDim.symm.trans hconstraint)
  have hr' := StageModel.answers_inert hconstraint hr hk hinert
  obtain ⟨solver', rfl, hsolver, hsolver'⟩ := refitted_ofSettings hcontroller hcontroller'
  have hc := serves_ofSettings hsound hcontroller hr hh hζ hT ha
  have hc' := serves_ofSettings hsound hcontroller' hr' hh hζ hT ha
  rw [hr.actionDim] at hsolver
  rw [hr'.actionDim] at hsolver'
  obtain ⟨-, hτ⟩ := Krylov.Solver.dim_ofExtents hsolver
  obtain ⟨-, hτ'⟩ := Krylov.Solver.dim_ofExtents hsolver'
  obtain ⟨hmodel, hset⟩ := model_ofSettings hcontroller
  refine ⟨r, h, ζ, T, a, solver', rfl, {
    serves := hc
    serves' := hc'
    solver := {
      dim := hc.dim
      dim' := hc'.dim
      scalar := hc.relativeTolerance
      relativeTolerance := hτ'.trans hτ.symm
      keepsUp := Krylov.Solver.keepsUp_ofExtents ?_ hsolver hsolver' }
    defaults := exists_defaults_beside hsettings hset hset hc.model.actionDim hc'.model.actionDim
      hm hroom hroom' }⟩
  exact mul_le_mul_of_nonneg_left (by omega) (Int.natCast_nonneg _)

/-! ## Runs -/

/-- How the two controllers are set up: with the default parameters and multipliers zero, or with
given ones that pass their checks and ask for a whole number of directions. -/
inductive SetsUp (m : ℕ) (ρ : Fin k → ℝ) : List (Operation ℝ) → List (Operation ℝ) → Prop
  | defaults : ρ = 0 → SetsUp m ρ [] []
  | given {given given' : Arguments ℝ} {draft draft' : InitParams.Draft ℝ} {params : InitParams ℝ}
      {l : ℤ} : InitParams.Draft.ofArguments given = .ok draft →
      InitParams.Draft.ofArguments given' = .ok draft' → draft.Beside m ρ draft' →
      draft.check = .ok params → params.krylovLimit = .number (.whole l) →
        SetsUp m ρ [.setInitParams given] [.setInitParams given']

/-- **Inert constraints do not change the control.**  A stage without constraints is given `k` that
are left open.  Controllers for the two are set up in one way, and any calls are answered by both or
refused by both: with the same controls, norms and reports, and with trajectories that are the same.
The actions of the second are those of the first with the multipliers `ρ` of its guess, and its
rates of change those of the first with multipliers that are zero. -/
theorem performAll_inert (hstage : stage.toModel.Total) (hstate : stage.stateDim = n)
    (hcontrol : stage.controlDim = m) (hconstraint : stage.constraintDim = 0) (hm : 0 < m)
    (hk : 0 < k) (hinert : stage.HasInertRoom k) (hsettings : draft.check = .ok settings)
    (hcontroller : ofSettings stage.toModel settings = .ok controller)
    (hcontroller' : ofSettings (stage.inert k).toModel settings = .ok controller')
    (hroom : ∀ limit, Krylov.Solver.HasRoom m (limit : Datum ℝ))
    (hroom' : ∀ limit, Krylov.Solver.HasRoom (m + k) (limit : Datum ℝ))
    {setup setup' operations : List (Operation ℝ)} (hsetup : SetsUp m ρ setup setup')
    (hoperations : ∀ operation ∈ operations, operation.Follows) :
    List.Forall₂ (Tally (Fault.Inert m ρ) (Reply.Beside controller.divisions m k))
        (controller.performAll (setup ++ operations) controller.blank).1
        (controller'.performAll (setup' ++ operations) controller'.blank).1 ∧
      State.Beside controller controller' n m ρ
        (controller.performAll (setup ++ operations) controller.blank).2
        (controller'.performAll (setup' ++ operations) controller'.blank).2 := by
  obtain ⟨r, h, ζ, T, a, solver', rfl, hc⟩ := exists_beside hstage hstate hcontrol hconstraint hm hk
    hinert hsettings hcontroller hcontroller' hroom hroom'
  cases hsetup with
  | defaults hρ => exact performAll_beside hc hoperations (beside_blank hc .none fun _ => hρ)
  | @given given given' initial initial' params l hgiven hgiven' hdrafts hcheck hl =>
      obtain ⟨params', hcheck', hparams⟩ := hdrafts.check hcheck hl hroom hroom'
      obtain ⟨g, hg, hg'⟩ := hparams.guess
      have hset : (controller.perform (.setInitParams given)).runOn controller.blank = _ :=
        perform_setInitParams hgiven hcheck (by
          rw [hg, List.length_ofFn, hc.serves.model.actionDim])
      have hset' : ((controller.refitted (stage.inert k).toModel solver').perform
          (.setInitParams given')).runOn
            (controller.refitted (stage.inert k).toModel solver').blank = _ :=
        perform_setInitParams hgiven' hcheck' (by
          rw [hg', List.length_ofFn, hc.serves'.model.actionDim])
      obtain ⟨hreplies, hend⟩ := performAll_beside hc hoperations
        (beside_blank hc (.some hparams) nofun)
      rw [List.singleton_append, List.singleton_append, performAll, performAll, hset, hset']
      exact ⟨.cons (.ok .done) hreplies, hend⟩

/-! ## The integrator -/

/-- The settings of the controller of the integrator, with two directions. -/
noncomputable def doubleSettings : Settings ℝ := { unitSettings with krylovLimit := 2 }

theorem check_doubleSettings : doubleSettings.draft.check = .ok doubleSettings := rfl

/-- Of two directions for one unknown one is used. -/
theorem ofSettings_doubleSettings {model : Model ℝ} {d : ℤ} {solver : Krylov.Solver ℝ}
    (haction : model.actionDim = d) (hstate : model.stateDim = 1)
    (hsolver : Krylov.Solver.ofExtents (.number (.whole (((1 : ℕ) : ℤ) * d))) 2
      doubleSettings.relativeTolerance = .ok solver)
    (hactions : Tensor.checkRoom [((1 : ℕ) : ℤ), d] = (.ok () : Except (Fault ℝ) Unit)) :
    ofSettings model doubleSettings = .ok ⟨model, doubleSettings, 1, solver⟩ := by
  have hN : doubleSettings.divisions.toNat = 1 := rfl
  have hlimit : doubleSettings.krylovLimit = 2 := rfl
  have hnodes : Tensor.checkRoom [((1 : ℕ) : ℤ) + 1, 1] = (.ok () : Except (Fault ℝ) Unit) :=
    Tensor.checkRoom_of_lt rfl (by decide)
  rw [ofSettings, haction, hstate, hN, hlimit, hsolver, ok_bind, hactions, ok_bind, hnodes, ok_bind]
  rfl

/-- Parameters of the initial search of the integrator, with a guess. -/
noncomputable def argumentsAt {d : ℕ} (guess : Fin d → ℝ) : Arguments ℝ :=
  (InitParams.Draft.guessLabel, .ofTensor (.ofFn guess)) :: (argumentsOfGuess 0).tail

theorem ofArguments_argumentsAt {d : ℕ} (guess : Fin d → ℝ) :
    InitParams.Draft.ofArguments (argumentsAt guess) =
      .ok { unitDraft with guess := .ofTensor (.ofFn guess) } := rfl

/-- Set up at the control three, and behind it the multiplier five. -/
theorem setsUp_integrator : SetsUp 1 (fun _ : Fin 1 => (5 : ℝ))
    [.setInitParams (argumentsAt fun _ : Fin (1 + 0) => (3 : ℝ))]
    [.setInitParams
      (argumentsAt (extended (fun _ : Fin 1 => (5 : ℝ)) fun _ : Fin (1 + 0) => 3))] := by
  have hguess : (Datum.ofTensor (.ofFn fun _ : Fin (1 + 0) => (3 : ℝ))).asGuess =
      .ok (List.ofFn fun _ : Fin (1 + 0) => (3 : ℝ)) :=
    Datum.asGuess_of_tensor (Datum.tensor_ofTensor_ofFn _)
  refine .given (ofArguments_argumentsAt _) (ofArguments_argumentsAt _) ?_
    (InitParams.Draft.check_guess check_unitDraft hguess) rfl
  exact {
    guess := ⟨_, Datum.tensor_ofTensor_ofFn _, Datum.tensor_ofTensor_ofFn _⟩
    residualTolerance := rfl
    iterationLimit := rfl
    differenceStep := rfl
    krylovLimit := rfl }

/-- The integrator, with a guess, seeded and moved, and the integrator with an inert constraint.
The first controller is made for one direction of search and the second for two. -/
theorem performAll_inert_integrator :
    ∃ controller controller' : Controller ℝ,
      ofSettings Regulator.integrator.system.stage.toModel doubleSettings = .ok controller ∧
      ofSettings (Regulator.integrator.system.stage.inert 1).toModel doubleSettings =
        .ok controller' ∧
      List.Forall₂ (Tally (Fault.Inert 1 fun _ : Fin 1 => 5)
          (Reply.Beside controller.divisions 1 1))
        (controller.performAll
          [.setInitParams (argumentsAt fun _ : Fin (1 + 0) => (3 : ℝ)),
            .seed (0 : ℝ) (.ofTensor (.ofVec [1])),
            .update (1 : ℝ) 1 (.ofTensor (.ofVec [2])),
            .residualNorm (2 : ℝ) (.ofTensor (.ofVec [3]))] controller.blank).1
        (controller'.performAll
          [.setInitParams
              (argumentsAt (extended (fun _ : Fin 1 => (5 : ℝ)) fun _ : Fin (1 + 0) => 3)),
            .seed (0 : ℝ) (.ofTensor (.ofVec [1])),
            .update (1 : ℝ) 1 (.ofTensor (.ofVec [2])),
            .residualNorm (2 : ℝ) (.ofTensor (.ofVec [3]))] controller'.blank).1 := by
  have hmade : ofSettings Regulator.integrator.model doubleSettings = .ok ⟨_, _, 1, ⟨1, 1, 0⟩⟩ :=
    ofSettings_doubleSettings actionDim_unitController Regulator.integrator.answers.stateDim
      (Krylov.Solver.exists_ofExtents (Krylov.Solver.hasRoom_one 2) rfl)
      (Tensor.checkRoom_of_lt rfl (by decide))
  have hmade' : ofSettings (Regulator.integrator.system.stage.inert 1).toModel doubleSettings =
      .ok ⟨_, _, 1, ⟨2, 2, 0⟩⟩ :=
    ofSettings_doubleSettings rfl Regulator.integrator.answers.stateDim
      (Krylov.Solver.exists_ofExtents (Krylov.Solver.hasRoom_two 2) rfl)
      (Tensor.checkRoom_of_lt rfl (by decide))
  have hroom : Regulator.integrator.system.stage.HasInertRoom 1 :=
    ⟨Tensor.checkRoom_of_lt rfl (by decide), Tensor.checkRoom_of_lt rfl (by decide),
      Tensor.checkRoom_of_lt rfl (by decide)⟩
  refine ⟨_, _, hmade, hmade', (performAll_inert Regulator.integrator.total
    Regulator.integrator.stateDim_model Regulator.integrator.controlDim_model
    Regulator.integrator.unconstrained one_pos one_pos hroom check_doubleSettings hmade
    hmade' Krylov.Solver.hasRoom_one Krylov.Solver.hasRoom_two setsUp_integrator ?_).1⟩
  intro operation hoperation
  simp only [List.mem_cons, List.not_mem_nil, or_false] at hoperation
  obtain rfl | rfl | rfl := hoperation
  · exact .seed 0 _
  · exact .update 1 _ _
  · exact .residualNorm 2 _

end Controller

end RecedingHorizon

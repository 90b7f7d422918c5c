import RecedingHorizon.Proofs.NewtonSystem

/-!
# One step follows the prescribed decay

A step whose sampling period is that of the differences ends where the continuation
step looked ahead to: at the predicted state the stored trajectory has the decayed
defects, exactly, and the stationarity has decayed but for what the direction leaves
of the linear system.  The model may be nonlinear and may change in time, and the
trajectory may have any defects to begin with.

* `Point.stateDefects_nextStates`, `Point.costateDefects_nextCostates`,
  `Point.next_eq`: one difference step ahead.
* `Controller.update_decay`: the step of a controller.
-/

namespace RecedingHorizon

variable {n m c : ℕ}

namespace Continuation.Point

variable (p : Point n m c) (r : Responses n m c) (N : ℕ) {h : ℝ} (ζ : ℝ)

/-- One difference step ahead, the defects of the states have decayed. -/
theorem stateDefects_nextStates (h ζ : ℝ) (a : ℕ → Fin (m + c) → ℝ) :
    r.stateDefects (p.time + h) p.δ' (p.ahead r h) a (p.nextStates r h ζ a) =
      (1 - h * ζ) • p.stateDefects r :=
  r.stateDefects_states _ _ (smul_zero (1 - h * ζ))

/-- One difference step ahead, the defects of the costates have decayed. -/
theorem costateDefects_nextCostates (h ζ : ℝ) (a : ℕ → Fin (m + c) → ℝ) {i : ℕ} (hi : i ≤ N) :
    r.costateDefects (p.time + h) p.δ' a (p.nextStates r h ζ a) (p.nextCostates r N h ζ a) N i =
      ((1 - h * ζ) • p.costateDefects r N) i := by
  refine r.costateDefects_costates _ _ (fun hN => ?_) hi
  rw [Pi.smul_apply, costateDefects, Responses.costateDefects, if_neg hN.ne, if_pos rfl, smul_zero]

/-- One difference step ahead, the stationarity has decayed but for what the direction leaves. -/
theorem next_eq (hh : 0 < h) (v : ℕ → Fin (m + c) → ℝ) :
    p.next r N h ζ (p.actions + h • v) =
      (1 - h * ζ) • p.present r - h • p.remaining r N h ζ v := by
  have hcancel : h * (h⁻¹ - ζ) = 1 - h * ζ := by
    rw [mul_sub, mul_inv_cancel₀ hh.ne']
  rw [remaining, smul_sub, smul_smul, smul_smul, hcancel, mul_inv_cancel₀ hh.ne', one_smul,
    sub_sub_cancel]

end Continuation.Point

namespace Controller

/-- A step with the period of the differences, from any state of a seeded controller in
which the arrays have their shapes, as in all that are reached (`Reachable.fits`): at the
predicted state the defects are the decayed ones, and the stationarity is the decayed one
less what the direction leaves. -/
theorem update_decay {model : Model ℝ} {draft : Settings.Draft ℝ} {settings : Settings ℝ}
    {controller : Controller ℝ} {r : Responses n m c} (hsettings : draft.check = .ok settings)
    (hcontroller : ofSettings model settings = .ok controller) (hm : model.Answers r)
    (hN : 0 < controller.divisions) {h ζ : ℝ}
    (hh : settings.differenceStep.scalar = .ok h) (hζ : settings.decayRate.scalar = .ok ζ)
    {state : State ℝ} (hfits : controller.Fits state) (hinitialized : state.initialized = true)
    {t₀ t : ℝ} (hstart : state.start.scalar = .ok t₀) (ht : t₀ ≤ t) (x : Fin n → ℝ)
    {period : Datum ℝ} (hperiod : period.scalar = .ok h) :
    ∃ (answer : Tensor ℝ) (state' : State ℝ) (U F ρ : ℕ → Fin (m + c) → ℝ) (E M : ℕ → Fin n → ℝ),
      state.actions.get = .ofNodes controller.divisions U ∧
      controller.residual state t (.ofFn x) = .ok ⟨.ofNodes controller.divisions F,
        .ofNodes (controller.divisions + 1) E, .ofNodes (controller.divisions + 1) M⟩ ∧
      (controller.update t period (.ofTensor (.ofFn x))).runOn state = (.ok answer, state') ∧
      controller.leftover state t (.ofFn x) state'.direction.get =
        .ok (.ofFn (flatten controller.divisions ρ)) ∧
      controller.residual state' (t + h)
          (.ofFn (x + h • r.dynamics x (RecedingHorizon.control (U 0)) t)) =
        .ok ⟨.ofNodes controller.divisions ((1 - h * ζ) • F - h • ρ),
          .ofNodes (controller.divisions + 1) ((1 - h * ζ) • E),
          .ofNodes (controller.divisions + 1) ((1 - h * ζ) • M)⟩ := by
  have hsound := Settings.Draft.sound hsettings
  obtain ⟨T, hT, -⟩ := hsound.horizonLength
  obtain ⟨a, ha, -⟩ := hsound.growthRate
  have hc := serves_ofSettings hsound hcontroller hm hh hζ hT ha
  have hpos := hc.step_pos
  obtain ⟨U, V, X, L, hs⟩ := hfits.carries hc hinitialized hstart
  obtain ⟨p, hp⟩ : ∃ p, p = controller.point h T a t₀ t x U X L := ⟨_, rfl⟩
  obtain ⟨state', outcome, V', hupdate, -, hs', -, -⟩ := update_spec hc hN hs ht hperiod hpos hp
  refine ⟨_, state', U, p.present r, p.remaining r controller.divisions h ζ V',
    p.stateDefects r, p.costateDefects r controller.divisions, hs.actions,
    residual_spec hc hs ht hp, hupdate, ?_, ?_⟩
  · rw [hs'.direction]
    exact leftover_spec hc hN hs ht hp V'
  · rw [smul_inv_smul₀ hpos.ne', smul_inv_smul₀ hpos.ne', add_sub_cancel, add_sub_cancel] at hs'
    obtain ⟨p', hp'⟩ : ∃ p', p' = controller.point h T a t₀ (t + h) (p.ahead r h) (U + h • V')
      (p.nextStates r h ζ (U + h • V'))
      (p.nextCostates r controller.divisions h ζ (U + h • V')) := ⟨_, rfl⟩
    have hresidual := residual_spec hc hs' (ht.trans (le_add_of_nonneg_right hpos.le)) hp'
    have hstationarity := p.next_eq r controller.divisions ζ hpos V'
    have hstates := p.stateDefects_nextStates r h ζ (U + h • V')
    have hcostates := Tensor.ofNodes_congr fun i hi =>
      p.costateDefects_nextCostates r controller.divisions h ζ (U + h • V') (Nat.le_of_lt_succ hi)
    subst hp hp'
    rw [← hstates, ← hcostates, ← hstationarity]
    exact hresidual

end Controller

/-! ## The integrator -/

/-- The settings of the controller of the integrator, but that defects decay at half the rate. -/
noncomputable def slowSettings : Settings ℝ :=
  { unitSettings with decayRate := .number (.real 0.5) }

theorem check_slowSettings : slowSettings.draft.check = .ok slowSettings := by
  have hholds : Requirement.nonNegative.holds (.number (.real (0.5 : ℝ))) = .ok true :=
    congrArg Except.ok (decide_eq_true (by norm_num))
  exact Settings.Draft.check_eq_ok_iff.2 { Settings.Draft.check_eq_ok_iff.1 check_unitSettings with
    decayRate := Requirement.check_of_holds hholds }

theorem decayRate_slowSettings : slowSettings.decayRate.scalar = .ok (1 / 2) :=
  congrArg Except.ok (by norm_num)

/-- The controller of the integrator under which defects decay at half the rate. -/
noncomputable def slowController : Controller ℝ :=
  { unitController with settings := slowSettings }

theorem ofSettings_slowSettings :
    Controller.ofSettings Regulator.integrator.model slowSettings = .ok slowController :=
  ofSettings_of_dims actionDim_unitController Regulator.integrator.answers.stateDim rfl rfl rfl

theorem serves_slowController :
    slowController.Serves Regulator.integrator.responses 1 (1 / 2) 1 0 :=
  Controller.serves_ofSettings (Settings.Draft.sound check_slowSettings) ofSettings_slowSettings
    Regulator.integrator.answers (congrArg Except.ok Int.cast_one) decayRate_slowSettings
    (congrArg Except.ok Int.cast_one) (congrArg Except.ok Int.cast_zero)

/-- A step of the controller under which defects decay at half the rate, from a measured state that
is not the one it was seeded at: of what is wrong then, half is left. -/
theorem slowController_update_decay :
    ∃ (state state' : Controller.State ℝ) (answer : Tensor ℝ) (U F ρ : ℕ → Fin (1 + 0) → ℝ)
      (E M : ℕ → Fin 1 → ℝ),
      slowController.Fits state ∧ state.initialized = true ∧
      state.actions.get = .ofNodes 1 U ∧ U 0 = -1 ∧
      slowController.residual state (.number (.real 0)) (.ofFn (5 : Fin 1 → ℝ)) =
        .ok ⟨.ofNodes 1 F, .ofNodes 2 E, .ofNodes 2 M⟩ ∧
      (slowController.update (.number (.real 0)) 1 (.ofTensor (.ofFn (5 : Fin 1 → ℝ)))).runOn
        state = (.ok answer, state') ∧
      slowController.leftover state (.number (.real 0)) (.ofFn (5 : Fin 1 → ℝ))
        state'.direction.get = .ok (.ofFn (flatten 1 ρ)) ∧
      slowController.residual state' (.number (.real (0 + 1)))
          (.ofFn (5 + (1 : ℝ) • Regulator.integrator.responses.dynamics 5 (control (U 0)) 0)) =
        .ok ⟨.ofNodes 1 ((1 - 1 * (1 / 2) : ℝ) • F - (1 : ℝ) • ρ),
          .ofNodes 2 ((1 - 1 * (1 / 2) : ℝ) • E), .ofNodes 2 ((1 - 1 * (1 / 2) : ℝ) • M)⟩ := by
  obtain ⟨first, state, hseed, hactions⟩ := seed_integrator serves_slowController rfl rfl rfl
  obtain ⟨u, hs⟩ := Controller.seed_spec serves_slowController Nat.one_pos
    Controller.fits_blank.rotations hseed
  have hfits := Controller.fits_seed hseed
  have hone : slowSettings.differenceStep.scalar = .ok 1 := congrArg Except.ok Int.cast_one
  obtain ⟨answer, state', U, F, ρ, E, M, hU, hdecay⟩ :=
    Controller.update_decay check_slowSettings ofSettings_slowSettings
      Regulator.integrator.answers Nat.one_pos hone decayRate_slowSettings hfits hs.initialized
      hs.start le_rfl 5 hone
  exact ⟨state, state', answer, U, F, ρ, E, M, hfits, hs.initialized, hU,
    Tensor.ofNodes_inj.1 (hU.symm.trans hactions) 0 Nat.one_pos, hdecay⟩

end RecedingHorizon

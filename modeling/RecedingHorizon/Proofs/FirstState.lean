import RecedingHorizon.Proofs.Controller

/-!
# The first stored state

The rate of change of a stored trajectory is a difference quotient.  At node zero it is
taken between the state predicted from the measured one and the state that is stored,
over the length `h` of a difference step, and then followed for a sampling period.  If
the stored state is not the measured one, the amount by which it lags is multiplied by
`1 - dt / h`, and a period is many difference steps long: the first stored state is the
Euler step from the measured one only if it did not lag, or if the period is a
difference step.  A lag is not made up for in the loop, it grows.

* `Controller.Carries.update_firstState`: a step, from what is carried.
* `Controller.update_firstState_iff`: a step, from any state that is reached.
* `Controller.PredictedLoop.lag`: the lag in a loop whose measurements are all as
  predicted.
* `unitController_lags`: a step by which the lag has doubled.
-/

namespace RecedingHorizon

variable {n m c : ℕ}

namespace Controller

variable {controller : Controller ℝ} {state : State ℝ} {r : Responses n m c}
variable {h ζ T a t₀ t dt : ℝ}

/-- Moved along its rate of change, the first stored state goes to the Euler step from the
current one, but for the lag. -/
theorem firstState_moved (hh : h ≠ 0) (p : Continuation.Point n m c)
    (U : ℕ → Fin (m + c) → ℝ) (dt : ℝ) :
    (p.states + dt • h⁻¹ • (p.nextStates r h ζ U - p.states)) 0 =
      p.state + dt • p.rate r + (1 - dt / h) • (p.states 0 - p.state) := by
  have hahead : p.nextStates r h ζ U 0 = p.state + h • p.rate r := rfl
  funext j
  simp only [Pi.add_apply, Pi.smul_apply, Pi.sub_apply, hahead, smul_eq_mul]
  field_simp
  ring

/-- A step answers.  What it stores for node zero is the Euler step from the measured state,
and `1 - dt / h` times what was stored there differed from that by. -/
theorem Carries.update_firstState {U V : ℕ → Fin (m + c) → ℝ} {X L : ℕ → Fin n → ℝ}
    (hs : controller.Carries state t₀ U V X L) (hc : controller.Serves r h ζ T a)
    (hN : 0 < controller.divisions) (ht : t₀ ≤ t) (x : Fin n → ℝ) {period : Datum ℝ}
    (hperiod : period.scalar = .ok dt) (hdt : 0 < dt) :
    ∃ (answer : Tensor ℝ) (state' : State ℝ) (U' V' : ℕ → Fin (m + c) → ℝ)
      (X' L' : ℕ → Fin n → ℝ),
      (controller.update t period (.ofTensor (.ofFn x))).runOn state = (.ok answer, state') ∧
      controller.Carries state' t₀ U' V' X' L' ∧
      X' 0 = x + dt • r.dynamics x (RecedingHorizon.control (U 0)) t +
        (1 - dt / h) • (X 0 - x) := by
  obtain ⟨state', outcome, V', hupdate, -, hs', -, -⟩ := update_spec hc hN hs ht hperiod hdt rfl
  exact ⟨_, state', _, V', _, _, hupdate, hs',
    firstState_moved hc.step_pos.ne' (controller.point h T a t₀ t x U X L) (U + h • V') dt⟩

/-- A step from a state in which all arrays have their shapes, as in all that are reached
(`Reachable.fits`).  It answers, and what is stored for node zero is the Euler step from the
measured state, plus `1 - dt / h` times what was stored there differed from the measured
state by.  So it is the Euler step exactly if the period is the difference step, or the
measured state was stored there. -/
theorem update_firstState_iff {model : Model ℝ} {draft : Settings.Draft ℝ}
    {settings : Settings ℝ} (hsettings : draft.check = .ok settings)
    (hcontroller : ofSettings model settings = .ok controller) (hm : model.Answers r)
    (hN : 0 < controller.divisions) (hh : settings.differenceStep.scalar = .ok h)
    (hfits : controller.Fits state) (hinitialized : state.initialized = true)
    (hstart : state.start.scalar = .ok t₀) (ht : t₀ ≤ t) (x : Fin n → ℝ) {period : Datum ℝ}
    (hperiod : period.scalar = .ok dt) (hdt : 0 < dt) :
    ∃ (answer : Tensor ℝ) (state' : State ℝ) (U : ℕ → Fin (m + c) → ℝ) (X X' : ℕ → Fin n → ℝ),
      state.actions.get = .ofNodes controller.divisions U ∧
      state.trajectory.get.states = .ofNodes (controller.divisions + 1) X ∧
      (controller.update t period (.ofTensor (.ofFn x))).runOn state = (.ok answer, state') ∧
      state'.trajectory.get.states = .ofNodes (controller.divisions + 1) X' ∧
      X' 0 = x + dt • r.dynamics x (RecedingHorizon.control (U 0)) t +
        (1 - dt / h) • (X 0 - x) ∧
      (X' 0 = x + dt • r.dynamics x (RecedingHorizon.control (U 0)) t ↔ dt = h ∨ X 0 = x) := by
  have hsound := Settings.Draft.sound hsettings
  obtain ⟨T, hT, -⟩ := hsound.horizonLength
  obtain ⟨a, ha, -⟩ := hsound.growthRate
  obtain ⟨ζ, hζ, -⟩ := hsound.decayRate
  have hc := serves_ofSettings hsound hcontroller hm hh hζ hT ha
  obtain ⟨U, V, X, L, hs⟩ := hfits.carries hc hinitialized hstart
  obtain ⟨answer, state', U', V', X', L', hupdate, hs', hmoved⟩ :=
    hs.update_firstState hc hN ht x hperiod hdt
  have hstates : state.trajectory.get.states = .ofNodes (controller.divisions + 1) X := by
    rw [hs.trajectory]
  have hstates' : state'.trajectory.get.states = .ofNodes (controller.divisions + 1) X' := by
    rw [hs'.trajectory]
  have hfactor : 1 - dt / h = 0 ↔ dt = h := by
    rw [sub_eq_zero, eq_comm, div_eq_one_iff_eq hc.step_pos.ne']
  refine ⟨answer, state', U, X, X', hs.actions, hstates, hupdate, hstates', hmoved, ?_⟩
  rw [hmoved, add_eq_left, smul_eq_zero, hfactor, sub_eq_zero]

/-- A number of steps, one after the other, in which every measured state is the Euler step
from the one before.  The loop leads from a state of the controller and a measured state to
others. -/
inductive PredictedLoop (controller : Controller ℝ) (r : Responses n m c) (t₀ dt : ℝ) :
    ℕ → State ℝ → (Fin n → ℝ) → State ℝ → (Fin n → ℝ) → Prop where
  | start (state : State ℝ) (x : Fin n → ℝ) : PredictedLoop controller r t₀ dt 0 state x state x
  | step {k : ℕ} {state state' state'' : State ℝ} {x x' : Fin n → ℝ} {t : ℝ}
      {U : ℕ → Fin (m + c) → ℝ} {answer : Tensor ℝ}
      (before : PredictedLoop controller r t₀ dt k state x state' x') (time : t₀ ≤ t)
      (actions : state'.actions.get = .ofNodes controller.divisions U)
      (update : (controller.update t (.number (.real dt)) (.ofTensor (.ofFn x'))).runOn state' =
        (.ok answer, state'')) :
      PredictedLoop controller r t₀ dt (k + 1) state x state''
        (x' + dt • r.dynamics x' (RecedingHorizon.control (U 0)) t)

/-- In such a loop the lag of the first stored state is multiplied by `1 - dt / h` in every
step, and so it grows if a period is longer than two difference steps. -/
theorem PredictedLoop.lag (hc : controller.Serves r h ζ T a) (hN : 0 < controller.divisions)
    (hdt : 0 < dt) {k : ℕ} {state' : State ℝ} {x x' : Fin n → ℝ}
    (hloop : controller.PredictedLoop r t₀ dt k state x state' x')
    {U V : ℕ → Fin (m + c) → ℝ} {X L : ℕ → Fin n → ℝ}
    (hs : controller.Carries state t₀ U V X L) :
    ∃ (U' V' : ℕ → Fin (m + c) → ℝ) (X' L' : ℕ → Fin n → ℝ),
      controller.Carries state' t₀ U' V' X' L' ∧
      X' 0 - x' = (1 - dt / h) ^ k • (X 0 - x) := by
  induction hloop with
  | start state x => exact ⟨U, V, X, L, hs, by rw [pow_zero, one_smul]⟩
  | @step k state state' state'' x x' t U' answer _ time actions update ih =>
      obtain ⟨W, V', X', L', hs', hlag⟩ := ih hs
      have hperiod : (Datum.number (.real dt) : Datum ℝ).scalar = .ok dt := rfl
      obtain ⟨answer', next, U'', V'', X'', L'', hnext, hs'', hmoved⟩ :=
        hs'.update_firstState hc hN time x' hperiod hdt
      obtain rfl : next = state'' := congrArg Prod.snd (hnext.symm.trans update)
      have hU : W 0 = U' 0 := Tensor.ofNodes_inj.1 (hs'.actions.symm.trans actions) 0 hN
      refine ⟨U'', V'', X'', L'', hs'', ?_⟩
      rw [hmoved, hU, add_sub_cancel_left, hlag, smul_smul, ← pow_succ']

end Controller

/-! ## The integrator -/

/-- The integrator, seeded at rest and then measured one further on. -/
theorem integrator_update_firstState_iff :
    ∃ (answer : Tensor ℝ) (state state' : Controller.State ℝ) (U : ℕ → Fin (1 + 0) → ℝ)
      (X X' : ℕ → Fin 1 → ℝ),
      unitController.Fits state ∧ state.initialized = true ∧
      state.actions.get = .ofNodes 1 U ∧ state.trajectory.get.states = .ofNodes 2 X ∧
      (unitController.update (.number (.real 0)) (.number (.real 3))
        (.ofTensor (.ofFn ![1]))).runOn state = (.ok answer, state') ∧
      state'.trajectory.get.states = .ofNodes 2 X' ∧
      X' 0 = ![1] + (3 : ℝ) • Regulator.integrator.responses.dynamics ![1] (control (U 0)) 0 +
        (1 - (3 : ℝ) / 1) • (X 0 - ![1]) ∧
      (X' 0 = ![1] + (3 : ℝ) • Regulator.integrator.responses.dynamics ![1] (control (U 0)) 0 ↔
        (3 : ℝ) = 1 ∨ X 0 = ![1]) := by
  obtain ⟨state, hfits, hinitialized, hstart⟩ := seeded_unitController
  have hone : unitSettings.differenceStep.scalar = .ok 1 := congrArg Except.ok Int.cast_one
  have hthree : (Datum.number (.real 3) : Datum ℝ).scalar = .ok 3 := rfl
  obtain ⟨answer, state', U, X, X', hstep⟩ :=
    Controller.update_firstState_iff check_unitSettings ofSettings_unitSettings
      Regulator.integrator.answers Nat.one_pos hone hfits hinitialized hstart le_rfl ![1] hthree
      (by norm_num)
  exact ⟨answer, state, state', U, X, X', hfits, hinitialized, hstep⟩

/-- A state that is reached and a step from it, after which the first stored state is not the
Euler step from the measured one: seeded at zero and then measured at one, the stored state
lags by one before the step and by two after it. -/
theorem unitController_lags :
    ∃ (answer : Tensor ℝ) (state state' : Controller.State ℝ) (U : ℕ → Fin (1 + 0) → ℝ)
      (X X' : ℕ → Fin 1 → ℝ),
      unitController.Reachable state ∧ state.initialized = true ∧
      state.actions.get = .ofNodes 1 U ∧ state.trajectory.get.states = .ofNodes 2 X ∧
      (unitController.update (.number (.real 0)) (.number (.real 3))
        (.ofTensor (.ofFn ![1]))).runOn state = (.ok answer, state') ∧
      state'.trajectory.get.states = .ofNodes 2 X' ∧ X 0 - ![1] = ![-1] ∧
      X' 0 - (![1] + (3 : ℝ) • Regulator.integrator.responses.dynamics ![1] (control (U 0)) 0) =
        ![2] := by
  obtain ⟨seeded, state, hseed⟩ := seed_unitController
  obtain ⟨u, hcarries⟩ := Controller.seed_spec serves_unitController Nat.one_pos
    Controller.fits_blank.rotations hseed
  obtain ⟨X, L, hX0, hs⟩ : ∃ X L : ℕ → Fin 1 → ℝ,
      X 0 = 0 ∧ unitController.Carries state 0 (fun _ => u) 0 X L := ⟨_, _, rfl, hcarries⟩
  have hthree : (Datum.number (.real 3) : Datum ℝ).scalar = .ok 3 := rfl
  obtain ⟨answer, state', U', V', X', L', hupdate, hs', hmoved⟩ :=
    hs.update_firstState serves_unitController Nat.one_pos le_rfl ![1] hthree (by norm_num)
  have hreachable : unitController.Reachable state := by
    refine ⟨[.seed (.number (.real 0)) (.ofTensor (.ofFn (0 : Fin 1 → ℝ)))], ?_⟩
    simp only [Controller.performAll, Controller.perform, Stateful.runOn_map, hseed]
  have hstates : state.trajectory.get.states = .ofNodes 2 X := by
    rw [hs.trajectory]
    rfl
  have hstates' : state'.trajectory.get.states = .ofNodes 2 X' := by
    rw [hs'.trajectory]
    rfl
  have hlag : X 0 - ![1] = ![-1] := by
    rw [hX0]
    funext j
    simp
  refine ⟨answer, state, state', fun _ => u, X, X', hreachable, hs.initialized, hs.actions, hstates,
    hupdate, hstates', hlag, ?_⟩
  rw [hmoved, add_sub_cancel_left, hlag]
  funext j
  norm_num

end RecedingHorizon

import RecedingHorizon.Proofs.Continuation
import RecedingHorizon.Proofs.Endings
import RecedingHorizon.Proofs.Krylov.Solve
import RecedingHorizon.Proofs.Regulator

/-!
# The calls of a controller, exactly

A controller that carries arrays of its shapes carries four sequences: the actions,
the direction, the states and the costates.  In exact arithmetic, and for a model
that answers on vectors, a step with a positive sampling period answers from the
start of the horizon on, and moves the sequences along the rates that the
continuation step finds.  Seeding need not answer, since the search may fail; but if
it does, the trajectory is shot from the action that was found.

* `Settings.Sound`, `Settings.Draft.sound`: settings that have passed the checks.
* `Controller.Serves`, `serves_ofSettings`: a controller for a model with responses;
  `Controller.Scaled`, `scaled_ofSettings`: its sizes and numbers alone.
* `Controller.Carries`, `Fits.carries`: the sequences.
* `rates_of_solve`, `rates_spec`: the rates of change; `update_of_rates`, `update_spec`: a step.
* `residual_spec`, `leftover_spec`, `residualNorm_spec`: residuals.
* `seed_spec`, `seed_answers`: seeding.
* `unitController`, `seeded_unitController`: the controller of the integrator, which can be
  seeded at rest.
-/

namespace RecedingHorizon

variable {n m c : ℕ}

/-! ## Settings -/

/-- Settings that have passed the checks. -/
structure Settings.Sound (settings : Settings ℝ) : Prop where
  horizonLength : ∃ T, settings.horizonLength.scalar = .ok T ∧ 0 < T
  growthRate : ∃ a, settings.growthRate.scalar = .ok a ∧ 0 ≤ a
  differenceStep : ∃ h, settings.differenceStep.scalar = .ok h ∧ 0 < h
  decayRate : ∃ ζ, settings.decayRate.scalar = .ok ζ ∧ 0 ≤ ζ
  relativeTolerance : ∃ τ, settings.relativeTolerance.scalar = .ok τ ∧ 0 ≤ τ

theorem Settings.Draft.sound {draft : Settings.Draft ℝ} {settings : Settings ℝ}
    (h : draft.check = .ok settings) : settings.Sound := by
  have hchecked := Settings.Draft.checked h
  exact {
    horizonLength := Datum.scalar_of_isPositive hchecked.horizonLength
    growthRate := Datum.scalar_of_isNonNegative hchecked.growthRate
    differenceStep := Datum.scalar_of_isPositive hchecked.differenceStep
    decayRate := Datum.scalar_of_isNonNegative hchecked.decayRate
    relativeTolerance := Datum.scalar_of_isNonNegative hchecked.relativeTolerance }

/-- A guess that is read as a vector is one. -/
theorem Datum.asGuess_of_tensor {given : Datum ℝ} {v : Fin n → ℝ}
    (h : given.tensor = .ok (.ofFn v)) : given.asGuess = .ok (List.ofFn v) := by
  rw [asGuess, h]
  rfl

namespace Krylov.Solver

theorem dim_ofExtents {dim : ℤ} {limit τ : Datum ℝ} {solver : Solver ℝ}
    (h : ofExtents (.number (.whole dim)) limit τ = .ok solver) :
    solver.dim = dim.toNat ∧ solver.relativeTolerance = τ := by
  obtain ⟨_, -, h⟩ := bind_eq_ok_iff.1 h
  obtain ⟨_, -, h⟩ := bind_eq_ok_iff.1 h
  obtain ⟨d, hd, h⟩ := bind_eq_ok_iff.1 h
  obtain ⟨_, -, h⟩ := bind_eq_ok_iff.1 h
  obtain ⟨_, -, h⟩ := bind_eq_ok_iff.1 h
  cases hd
  cases h
  exact ⟨rfl, rfl⟩

end Krylov.Solver

namespace Newton

variable {search : Search ℝ}

theorem Search.run_of_lt {τ : ℝ} {left count : ℕ} {it : Iterate ℝ} (h : it.residualNorm < τ) :
    search.run τ left count it = .ok (it, count) := by
  cases left with
  | zero => rfl
  | succ left => rw [run, if_neg (not_le.2 h)]

/-- A search ends at once at a guess at which the gradient is zero. -/
theorem solve_of_controlGradient_eq_zero {model : Model ℝ} {t : Datum ℝ} {x costate : Tensor ℝ}
    {k : ℕ} {a : Fin k → ℝ} (hdim : model.actionDim = k)
    (hcostate : model.terminalGradient x t = .ok costate)
    (hgradient : model.controlGradient x (.ofFn a) costate t = .ok (.ofFn (0 : Fin k → ℝ)))
    {params : InitParams ℝ} (hguess : params.guess = List.ofFn a) {τ : ℝ}
    (hτ : params.residualTolerance.scalar = .ok τ) (hpos : 0 < τ) {solver : Krylov.Solver ℝ}
    (hsolver : Krylov.Solver.ofExtents (.number (.whole model.actionDim)) params.krylovLimit
      defaultRelativeTolerance = .ok solver)
    {copies : Datum ℝ} {s : ℝ} (hscale : copyScale copies = .ok s) :
    solve model t x params copies = .ok ⟨.ofFn a, 0, 0⟩ := by
  have hlength : (params.guess.length : ℤ) = model.actionDim := by
    rw [hguess, List.length_ofFn, hdim]
  have hnorm : s * (Tensor.ofFn (0 : Fin k → ℝ)).norm = 0 := by
    rw [Tensor.norm_ofFn, zero_dotProduct, Real.sqrt_zero, mul_zero]
  have hvector : (Tensor.ofVec (List.ofFn a) : Tensor ℝ) = .ofFn a := rfl
  rw [solve, if_neg (not_not.2 hlength)]
  simp only [start, ZeroHorizon.prepare, Stateful.runOn_bind, Stateful.runOn_liftM,
    Stateful.runOn_modify, hcostate, hsolver, hscale, ok_bind, Search.measure,
    ZeroHorizon.gradient, Stateful.runOn_get, Stateful.runOn_needed, hguess, hvector, hgradient,
    hnorm, hτ, pure_eq_ok]
  rw [Search.run_of_lt hpos, ok_bind, conclude, if_pos hpos]

end Newton

namespace Controller

/-- A controller for a model with responses, with differences of step `h`, rate of decay
`ζ`, and a horizon that grows to `T` at rate `a`. -/
structure Serves (controller : Controller ℝ) (r : Responses n m c) (h ζ T a : ℝ) : Prop where
  model : controller.model.Answers r
  differenceStep : controller.settings.differenceStep.scalar = .ok h
  decayRate : controller.settings.decayRate.scalar = .ok ζ
  horizonLength : controller.settings.horizonLength.scalar = .ok T
  growthRate : controller.settings.growthRate.scalar = .ok a
  relativeTolerance : ∃ τ, controller.solver.relativeTolerance.scalar = .ok τ
  dim : controller.solver.dim = controller.divisions * (m + c)
  room : Room controller.divisions n
  extents : Tensor.checkExtents [(controller.divisions : ℤ), ((m + c : ℕ) : ℤ)] =
    (.ok () : Except (Fault ℝ) Unit)
  step_pos : 0 < h

/-- The sizes and the numbers of a controller, whatever its model answers: states of `n` and actions
of `k` entries, differences of step `h`, rate of decay `ζ`, and a horizon that grows to `T` at rate
`a`. -/
structure Scaled (controller : Controller ℝ) (n k : ℕ) (h ζ T a : ℝ) : Prop where
  stateDim : controller.model.stateDim = n
  actionDim : controller.model.actionDim = k
  differenceStep : controller.settings.differenceStep.scalar = .ok h
  decayRate : controller.settings.decayRate.scalar = .ok ζ
  horizonLength : controller.settings.horizonLength.scalar = .ok T
  growthRate : controller.settings.growthRate.scalar = .ok a
  relativeTolerance : ∃ τ, controller.solver.relativeTolerance.scalar = .ok τ
  dim : controller.solver.dim = controller.divisions * k
  room : Room controller.divisions n
  extents : Tensor.checkExtents [(controller.divisions : ℤ), (k : ℤ)] =
    (.ok () : Except (Fault ℝ) Unit)
  step_pos : 0 < h

theorem Serves.scaled {controller : Controller ℝ} {r : Responses n m c} {h ζ T a : ℝ}
    (hc : controller.Serves r h ζ T a) : controller.Scaled n (m + c) h ζ T a where
  stateDim := hc.model.stateDim
  actionDim := hc.model.actionDim
  differenceStep := hc.differenceStep
  decayRate := hc.decayRate
  horizonLength := hc.horizonLength
  growthRate := hc.growthRate
  relativeTolerance := hc.relativeTolerance
  dim := hc.dim
  room := hc.room
  extents := hc.extents
  step_pos := hc.step_pos

/-- The sizes and the numbers of a controller from sound settings. -/
theorem scaled_ofSettings {model : Model ℝ} {settings : Settings ℝ} {controller : Controller ℝ}
    {k : ℕ} {h ζ T a : ℝ} (hsettings : settings.Sound)
    (hcontroller : ofSettings model settings = .ok controller) (hn : model.stateDim = n)
    (hk : model.actionDim = k) (hh : settings.differenceStep.scalar = .ok h)
    (hζ : settings.decayRate.scalar = .ok ζ) (hT : settings.horizonLength.scalar = .ok T)
    (ha : settings.growthRate.scalar = .ok a) : controller.Scaled n k h ζ T a := by
  obtain ⟨solver, hsolver, hcontroller⟩ := bind_eq_ok_iff.1 hcontroller
  obtain ⟨_, hactions, hcontroller⟩ := bind_eq_ok_iff.1 hcontroller
  obtain ⟨_, hnodes, hcontroller⟩ := bind_eq_ok_iff.1 hcontroller
  obtain ⟨hdim, hτ⟩ := Krylov.Solver.dim_ofExtents hsolver
  obtain ⟨h', hh', hpos⟩ := hsettings.differenceStep
  obtain ⟨τ, hτ', -⟩ := hsettings.relativeTolerance
  cases hcontroller
  rw [hk] at hactions
  rw [hn] at hnodes
  rw [hk, ← Nat.cast_mul, Int.toNat_natCast] at hdim
  obtain ⟨_, hextents, -⟩ := bind_eq_ok_iff.1 hactions
  exact {
    stateDim := hn
    actionDim := hk
    differenceStep := hh
    decayRate := hζ
    horizonLength := hT
    growthRate := ha
    relativeTolerance := ⟨τ, by rw [hτ, hτ']⟩
    dim := hdim
    room := hnodes
    extents := hextents
    step_pos := by
      rw [hh] at hh'
      rwa [Except.ok.inj hh'] }

/-- A controller from sound settings for a model with responses. -/
theorem serves_ofSettings {model : Model ℝ} {settings : Settings ℝ} {controller : Controller ℝ}
    {r : Responses n m c} {h ζ T a : ℝ} (hsettings : settings.Sound)
    (hcontroller : ofSettings model settings = .ok controller) (hm : model.Answers r)
    (hh : settings.differenceStep.scalar = .ok h) (hζ : settings.decayRate.scalar = .ok ζ)
    (hT : settings.horizonLength.scalar = .ok T) (ha : settings.growthRate.scalar = .ok a) :
    controller.Serves r h ζ T a := by
  have hscaled :=
    scaled_ofSettings hsettings hcontroller hm.stateDim hm.actionDim hh hζ hT ha
  obtain ⟨hmodel, -⟩ := model_ofSettings hcontroller
  exact {
    model := by
      rw [hmodel]
      exact hm
    differenceStep := hscaled.differenceStep
    decayRate := hscaled.decayRate
    horizonLength := hscaled.horizonLength
    growthRate := hscaled.growthRate
    relativeTolerance := hscaled.relativeTolerance
    dim := hscaled.dim
    room := hscaled.room
    extents := hscaled.extents
    step_pos := hscaled.step_pos }

/-- What a controller carries, as sequences. -/
structure Carries (controller : Controller ℝ) (state : State ℝ) (t₀ : ℝ)
    (U V : ℕ → Fin (m + c) → ℝ) (X L : ℕ → Fin n → ℝ) : Prop where
  start : state.start.scalar = .ok t₀
  actions : state.actions.get = .ofNodes controller.divisions U
  direction : state.direction.get = .ofNodes controller.divisions V
  trajectory : state.trajectory.get =
    ⟨.ofNodes (controller.divisions + 1) X, .ofNodes (controller.divisions + 1) L⟩
  initialized : state.initialized = true
  rotations : state.workspace.rotations.length = controller.solver.limit

/-- Where a step starts at time `t` and state `x`. -/
noncomputable def point (controller : Controller ℝ) (h T a t₀ t : ℝ) (x : Fin n → ℝ)
    (U : ℕ → Fin (m + c) → ℝ) (X L : ℕ → Fin n → ℝ) : Continuation.Point n m c where
  time := t
  state := x
  actions := U
  states := X
  costates := L
  δ := Horizon.reach T a (t - t₀) / controller.divisions
  δ' := Horizon.reach T a (t + h - t₀) / controller.divisions

/-! ## Calls -/

/-- The residual of what is carried, at time `t` and state `x`. -/
def residual {α : Type} [Scalar α] (controller : Controller α) (state : State α) (t : Datum α)
    (x : Tensor α) : Except (Fault α) (Residual α) :=
  (controller.problem state.start).residual t x state.actions.get state.trajectory.get

/-- What a direction leaves of the residual of the linear system, in a step at time `t`
and state `x`. -/
def leftover {α : Type} [Scalar α] (controller : Controller α) (state : State α) (t : Datum α)
    (x direction : Tensor α) : Except (Fault α) (Tensor α) :=
  (((controller.continuation state.start).leftover t x state.actions.get state.trajectory.get
    direction).runOn Continuation.Memory.blank).1

/-- What is carried is only looked at, for the norm of its residual. -/
theorem runOn_residualNorm_eq {α : Type} [Scalar α] {controller : Controller α} {state : State α}
    (t measured : Datum α) :
    (controller.residualNorm t measured).runOn state =
      (if state.initialized = true then do
        let x ← controller.checkState measured
        return (← controller.residual state t x).norm
      else .error .uninitialized, state) := by
  rw [residualNorm, Stateful.runOn_bind, runOn_requireInitialized]
  cases state.initialized with
  | false => rfl
  | true =>
      rw [if_pos rfl, if_pos rfl]
      dsimp only
      rcases controller.checkState measured with fault | x
      · rfl
      · rw [Stateful.runOn_ok_bind, Stateful.runOn_get_bind, ok_bind, Controller.residual]
        rcases (controller.problem state.start).residual t x state.actions.get
          state.trajectory.get with fault | residual
        · rfl
        · rfl

theorem runOn_residualNorm {α : Type} [Scalar α] {controller : Controller α} {state : State α}
    {t measured : Datum α} {x : Tensor α} {residual : Residual α}
    (hinitialized : state.initialized = true) (hx : controller.checkState measured = .ok x)
    (hresidual : controller.residual state t x = .ok residual) :
    (controller.residualNorm t measured).runOn state = (.ok residual.norm, state) := by
  rw [runOn_residualNorm_eq, if_pos hinitialized, hx, ok_bind, hresidual, ok_bind]
  rfl

section Calls

variable {controller : Controller ℝ} {state : State ℝ} {r : Responses n m c}
variable {h ζ T a t₀ t : ℝ} {x : Fin n → ℝ} {U V : ℕ → Fin (m + c) → ℝ} {X L : ℕ → Fin n → ℝ}

/-- What has the right shapes is carried as sequences. -/
theorem Fits.carries (hc : controller.Serves r h ζ T a) (hs : controller.Fits state)
    (hinitialized : state.initialized = true) (hstart : state.start.scalar = .ok t₀) :
    ∃ (U V : ℕ → Fin (m + c) → ℝ) (X L : ℕ → Fin n → ℝ),
      controller.Carries state t₀ U V X L := by
  have hshape : controller.actionsShape = [controller.divisions, m + c] := by
    rw [actionsShape, hc.model.actionDim, Int.toNat_natCast]
  have hnodes : controller.nodesShape = [controller.divisions + 1, n] := by
    rw [nodesShape, hc.model.stateDim, Int.toNat_natCast]
  obtain ⟨U, hU⟩ := Tensor.exists_eq_ofNodes (hs.actions.trans hshape)
  obtain ⟨V, hV⟩ := Tensor.exists_eq_ofNodes (hs.direction.trans hshape)
  obtain ⟨X, hX⟩ := Tensor.exists_eq_ofNodes (hs.states.trans hnodes)
  obtain ⟨L, hL⟩ := Tensor.exists_eq_ofNodes (hs.costates.trans hnodes)
  refine ⟨U, V, X, L, hstart, hU, hV, ?_, hinitialized, hs.rotations⟩
  rw [← hX, ← hL]

/-- The length of a step; none where there are no steps, as a quotient by zero is zero. -/
theorem Scaled.step_eq {k : ℕ} (hc : controller.Scaled n k h ζ T a) {start : Datum ℝ}
    (hstart : start.scalar = .ok t₀) (ht : t₀ ≤ t) :
    (controller.horizon start).step t =
      .ok (Horizon.reach T a (t - t₀) / controller.divisions) := by
  rw [Horizon.step_of_scalar hc.horizonLength hc.growthRate hstart rfl ht]
  split
  · next hN => rw [hN, Nat.cast_zero, div_zero]
  · rfl

theorem step_eq (hc : controller.Serves r h ζ T a) {start : Datum ℝ}
    (hstart : start.scalar = .ok t₀) (ht : t₀ ≤ t) :
    (controller.horizon start).step t =
      .ok (Horizon.reach T a (t - t₀) / controller.divisions) := hc.scaled.step_eq hstart ht

theorem Scaled.scaled_continuation {k : ℕ} (hc : controller.Scaled n k h ζ T a) (start : Datum ℝ) :
    (controller.continuation start).Scaled controller.divisions k h ζ where
  divisions := rfl
  actionDim := hc.actionDim
  differenceStep := hc.differenceStep
  decayRate := hc.decayRate
  extents := hc.extents
  step_pos := hc.step_pos

theorem Serves.replies_continuation (hc : controller.Serves r h ζ T a) (start : Datum ℝ) :
    (controller.continuation start).Replies r controller.divisions h ζ where
  toScaled := hc.scaled.scaled_continuation start
  model := hc.model
  room := hc.room

theorem Serves.answers_continuation (hc : controller.Serves r h ζ T a)
    (hN : 0 < controller.divisions) (start : Datum ℝ) :
    (controller.continuation start).Answers r controller.divisions h ζ where
  model := hc.model
  divisions := rfl
  differenceStep := hc.differenceStep
  decayRate := hc.decayRate
  room := hc.room
  extents := hc.extents
  steps_pos := hN
  step_pos := hc.step_pos

open Continuation in
/-- The rates of change that a solve leads to, and what is left behind. -/
theorem rates_of_solve (hc : controller.Serves r h ζ T a)
    (hs : controller.Carries state t₀ U V X L) (ht : t₀ ≤ t) {E M : ℕ → Fin n → ℝ}
    {F : Option (Tensor ℝ)} {outcome : Krylov.Outcome ℝ} {w : Krylov.Workspace ℝ}
    (hsolve : (controller.solver.solve ((controller.continuation state.start).linearized t (.ofFn x)
        (.ofFn (flatten controller.divisions U))) (some (.ofFn (flatten controller.divisions V)))
        state.workspace).run (.of controller.divisions X L (t + h)
          (predicted r controller.divisions h t x U) state.memory.defects
          state.memory.stationarity) =
      ((.ok outcome, w), .of controller.divisions X L (t + h)
        (predicted r controller.divisions h t x U)
        (some ⟨.ofNodes (controller.divisions + 1) E, .ofNodes (controller.divisions + 1) M⟩) F))
    {v : Fin (controller.divisions * (m + c)) → ℝ} (hsolution : outcome.solution = .ofFn v)
    {V' : ℕ → Fin (m + c) → ℝ} (hV' : V' = unflatten controller.divisions v) {δ' : ℝ}
    (hδ' : δ' = Horizon.reach T a (t + h - t₀) / controller.divisions) {Y : ℕ → Fin n → ℝ}
    (hY : Y = r.states (t + h) δ' (predicted r controller.divisions h t x U) (U + h • V') E) :
    Stateful.runOn (controller.rates t (.ofFn x)) state =
      (.ok (.ofNodes controller.divisions V',
        ⟨.ofNodes (controller.divisions + 1) (h⁻¹ • (Y - X)),
          .ofNodes (controller.divisions + 1) (h⁻¹ •
            (r.costates (t + h) δ' Y (U + h • V') M controller.divisions - L))⟩),
      { state with
        workspace := w
        memory := .of controller.divisions X L (t + h) (predicted r controller.divisions h t x U)
          (some ⟨.ofNodes (controller.divisions + 1) E, .ofNodes (controller.divisions + 1) M⟩) F
        outcome := some outcome
        direction := .pure (.ofNodes controller.divisions V') }) := by
  have hsystem := hc.replies_continuation state.start
  have hnext : (controller.continuation state.start).problem.horizon.step (t + h) = .ok δ' := by
    rw [hδ']
    exact step_eq hc hs.start (ht.trans (le_add_of_nonneg_right hc.step_pos.le))
  have hprepare := prepare_of (t := t) (x := x) (a := U) (X := X) (L := L) hsystem state.memory
  have hrate := trajectoryRate_of (y := predicted r controller.divisions h t x U) (a := U) (X := X)
    (L := L) (E := E) (M := M) hsystem hnext F V'
  rw [← hY] at hrate
  simp only [rates, Stateful.runOn_bind, Stateful.runOn_get, hs.actions, hs.trajectory,
    hs.direction, Tensor.flat_ofNodes, hprepare, Stateful.runOn_liftM, hsolve,
    Stateful.runOn_modify, hsolution, unflatten_eq hsystem.toScaled, ← hV', hrate,
    Stateful.runOn_pure]

open Continuation in
/-- The rates of change that are found, and what is left behind. -/
theorem rates_spec (hc : controller.Serves r h ζ T a) (hN : 0 < controller.divisions)
    (hs : controller.Carries state t₀ U V X L) (ht : t₀ ≤ t) {p : Point n m c}
    (hp : p = controller.point h T a t₀ t x U X L) :
    ∃ (outcome : Krylov.Outcome ℝ) (w : Krylov.Workspace ℝ) (V' : ℕ → Fin (m + c) → ℝ),
      Stateful.runOn (controller.rates t (.ofFn x)) state =
        (.ok (.ofNodes controller.divisions V',
          ⟨.ofNodes (controller.divisions + 1) (h⁻¹ • (p.nextStates r h ζ (U + h • V') - X)),
            .ofNodes (controller.divisions + 1)
              (h⁻¹ • (p.nextCostates r controller.divisions h ζ (U + h • V') - L))⟩),
        { state with
          workspace := w
          memory := p.asked r controller.divisions h ζ
          outcome := some outcome
          direction := .pure (.ofNodes controller.divisions V') }) ∧
      w.rotations.length = controller.solver.limit ∧
      (p.HasLinearImage r controller.divisions h ζ →
        outcome.residualNorm = p.remainingNorm r controller.divisions h ζ V') := by
  have hsystem := hc.answers_continuation hN state.start
  have hnow : (controller.continuation state.start).problem.horizon.step p.time = .ok p.δ := by
    rw [hp]
    exact step_eq hc hs.start ht
  have hnext : (controller.continuation state.start).problem.horizon.step (p.time + h) =
      .ok p.δ' := by
    rw [hp]
    exact step_eq hc hs.start (ht.trans (le_add_of_nonneg_right hc.step_pos.le))
  have hahead : predicted r controller.divisions h p.time p.state p.actions = p.ahead r h :=
    if_neg hN.ne'
  obtain ⟨τ, hτ⟩ := hc.relativeTolerance
  have hresidual : Stateful.runOn (((controller.continuation state.start).linearized p.time
      (.ofFn p.state) (.ofFn (flatten controller.divisions p.actions))).residual
        (.ofFn (flatten controller.divisions V)))
          (p.set r controller.divisions h state.memory) = _ :=
    residual_eq p hsystem state.memory hnow hnext (flatten controller.divisions V)
  have himage : ∀ v, Stateful.runOn (((controller.continuation state.start).linearized p.time
      (.ofFn p.state) (.ofFn (flatten controller.divisions p.actions))).image (.ofFn v))
        (p.asked r controller.divisions h ζ) = (.ok (.ofFn (flatten controller.divisions
          (p.image r controller.divisions h ζ
            (RecedingHorizon.unflatten controller.divisions v)))),
        p.asked r controller.divisions h ζ) := by
    intro v
    have h := image_eq p hsystem hnext (RecedingHorizon.unflatten controller.divisions v)
    rwa [flatten_unflatten] at h
  obtain ⟨outcome, w, v, hsolve, hlength, hsolution, hexact⟩ :=
    Krylov.Solver.solve_spec hc.dim hτ hresidual himage hs.rotations
  refine ⟨outcome, w, RecedingHorizon.unflatten controller.divisions v, ?_, hlength,
    fun hg => ?_⟩
  · subst hp
    simp only [point, Point.set, Point.asked, Point.found, Point.trajectory] at hahead hsolve
    rw [← hahead] at hsolve
    have hrates := rates_of_solve hc hs ht hsolve hsolution rfl rfl rfl
    rw [hahead] at hrates
    exact hrates
  · rw [hexact hg, p.remaining_sub_image hg, Point.remainingNorm]

theorem advanced_eq {k l : ℕ} {period : Datum ℝ} {dt : ℝ} (hperiod : period.scalar = .ok dt)
    (s v : ℕ → Fin l → ℝ) :
    advanced period (.ofNodes k s) (.ofNodes k v) = .ok (.ofNodes k (s + dt • v)) := by
  rw [advanced, Tensor.scaleBy_of_scalar _ hperiod, ok_bind, Tensor.scale_ofNodes,
    Tensor.increase_ofNodes]

theorem checkState_ofFn (hn : controller.model.stateDim = n) (x : Fin n → ℝ) :
    controller.checkState (.ofTensor (.ofFn x)) = .ok (.ofFn x) := by
  rw [checkState, Datum.tensor_ofTensor_ofFn, ok_bind, if_pos]
  · rfl
  · rw [Tensor.shape_ofFn, hn]
    rfl

theorem checkState_eq (hc : controller.Serves r h ζ T a) (x : Fin n → ℝ) :
    controller.checkState (.ofTensor (.ofFn x)) = .ok (.ofFn x) :=
  checkState_ofFn hc.model.stateDim x

theorem firstControl_eq (hc : controller.Serves r h ζ T a) (hN : 0 < controller.divisions)
    (U : ℕ → Fin (m + c) → ℝ) :
    controller.firstControl (.ofNodes controller.divisions U) =
      .ok (.ofFn (RecedingHorizon.control (U 0))) := by
  rw [firstControl, if_neg hN.ne', Tensor.item_ofNodes U hN, ok_bind, hc.model.control]

theorem Carries.requireInitialized_eq (hs : controller.Carries state t₀ U V X L) :
    Stateful.runOn requireInitialized state = ((.ok ⟨⟩, state) : Except (Fault ℝ) _ × _) := by
  rw [runOn_requireInitialized, hs.initialized, if_pos rfl]

/-- A step moves what is carried along the rates of change that have been found. -/
theorem update_of_rates (hs : controller.Carries state t₀ U V X L) {s period measured : Datum ℝ}
    {y : Tensor ℝ} {dt : ℝ} (hy : controller.checkState measured = .ok y)
    (hperiod : period.scalar = .ok dt) (hdt : 0 < dt) {V' : ℕ → Fin (m + c) → ℝ}
    {X' L' : ℕ → Fin n → ℝ} {outcome : Krylov.Outcome ℝ} {w : Krylov.Workspace ℝ}
    {memory : Continuation.Memory ℝ}
    (hrates : Stateful.runOn (controller.rates s y) state =
      (.ok (.ofNodes controller.divisions V',
        ⟨.ofNodes (controller.divisions + 1) X', .ofNodes (controller.divisions + 1) L'⟩),
      { state with
        workspace := w
        memory := memory
        outcome := some outcome
        direction := .pure (.ofNodes controller.divisions V') }))
    (hlength : w.rotations.length = controller.solver.limit) {u : Tensor ℝ}
    (hu : controller.firstControl (.ofNodes controller.divisions (U + dt • V')) = .ok u) :
    ∃ state' : State ℝ,
      Stateful.runOn (controller.update s period measured) state = (.ok u, state') ∧
      state'.start = state.start ∧
      controller.Carries state' t₀ (U + dt • V') V' (X + dt • X') (L + dt • L') ∧
      state'.outcome = some outcome := by
  have hpositive : period.isPositive = .ok true := Datum.isPositive_of_pos hperiod hdt
  refine ⟨{ state with
      actions := .pure (.ofNodes controller.divisions (U + dt • V'))
      direction := .pure (.ofNodes controller.divisions V')
      trajectory := .pure ⟨.ofNodes (controller.divisions + 1) (X + dt • X'),
        .ofNodes (controller.divisions + 1) (L + dt • L')⟩
      outcome := some outcome
      workspace := w
      memory := memory }, ?_, rfl, ?_, rfl⟩
  · simp only [update, Stateful.runOn_bind, hs.requireInitialized_eq, Stateful.runOn_liftM,
      hpositive, Bool.not_true, Bool.false_eq_true, if_false, hy, hrates,
      Stateful.runOn_get, hs.actions, hs.trajectory, advanced_eq hperiod, Stateful.runOn_modify, hu]
  · exact {
      start := hs.start
      actions := rfl
      direction := rfl
      trajectory := rfl
      initialized := hs.initialized
      rotations := hlength }

/-- A step answers, and moves what is carried along the rates of change. -/
theorem update_spec (hc : controller.Serves r h ζ T a) (hN : 0 < controller.divisions)
    (hs : controller.Carries state t₀ U V X L) (ht : t₀ ≤ t) {period : Datum ℝ} {dt : ℝ}
    (hperiod : period.scalar = .ok dt) (hdt : 0 < dt) {p : Continuation.Point n m c}
    (hp : p = controller.point h T a t₀ t x U X L) :
    ∃ (state' : State ℝ) (outcome : Krylov.Outcome ℝ) (V' : ℕ → Fin (m + c) → ℝ),
      Stateful.runOn (controller.update t period (.ofTensor (.ofFn x))) state =
        (.ok (.ofFn (RecedingHorizon.control ((U + dt • V') 0))), state') ∧
      state'.start = state.start ∧
      controller.Carries state' t₀ (U + dt • V') V'
        (X + dt • h⁻¹ • (p.nextStates r h ζ (U + h • V') - X))
        (L + dt • h⁻¹ • (p.nextCostates r controller.divisions h ζ (U + h • V') - L)) ∧
      state'.outcome = some outcome ∧
      (p.HasLinearImage r controller.divisions h ζ →
        outcome.residualNorm = p.remainingNorm r controller.divisions h ζ V') := by
  obtain ⟨outcome, w, V', hrates, hlength, hexact⟩ := rates_spec hc hN hs ht hp
  obtain ⟨state', hupdate, hstart, hs', houtcome⟩ := update_of_rates hs (checkState_eq hc x) hperiod
    hdt hrates hlength (firstControl_eq hc hN _)
  exact ⟨state', outcome, V', hupdate, hstart, hs', houtcome, hexact⟩

/-- The residual of what is carried. -/
theorem residual_spec (hc : controller.Serves r h ζ T a)
    (hs : controller.Carries state t₀ U V X L) (ht : t₀ ≤ t) {p : Continuation.Point n m c}
    (hp : p = controller.point h T a t₀ t x U X L) :
    controller.residual state t (.ofFn x) = .ok ⟨.ofNodes controller.divisions (p.present r),
      .ofNodes (controller.divisions + 1) (p.stateDefects r),
      .ofNodes (controller.divisions + 1) (p.costateDefects r controller.divisions)⟩ := by
  subst hp
  rw [residual, hs.actions, hs.trajectory]
  exact Problem.residual_eq hc.model hc.room (step_eq hc hs.start ht) _ _ _ _

/-- What a direction leaves of the residual of the linear system of a step, where sequences are
carried. -/
theorem leftover_spec (hc : controller.Serves r h ζ T a) (hN : 0 < controller.divisions)
    (hs : controller.Carries state t₀ U V X L) (ht : t₀ ≤ t) {p : Continuation.Point n m c}
    (hp : p = controller.point h T a t₀ t x U X L) (v : ℕ → Fin (m + c) → ℝ) :
    controller.leftover state t (.ofFn x) (.ofNodes controller.divisions v) =
      .ok (.ofFn (flatten controller.divisions (p.remaining r controller.divisions h ζ v))) := by
  have hleftover := Continuation.leftover_eq p (hc.answers_continuation hN state.start)
  subst hp
  rw [leftover, hs.actions, hs.trajectory]
  exact congrArg Prod.fst (hleftover (step_eq hc hs.start ht)
    (step_eq hc hs.start (ht.trans (le_add_of_nonneg_right hc.step_pos.le))) v)

theorem residualNorm_spec (hc : controller.Serves r h ζ T a)
    (hs : controller.Carries state t₀ U V X L) {residual : Residual ℝ}
    (hresidual : controller.residual state t (.ofFn x) = .ok residual) :
    Stateful.runOn (controller.residualNorm t (.ofTensor (.ofFn x))) state =
      (.ok residual.norm, state) :=
  runOn_residualNorm hs.initialized (checkState_eq hc x) hresidual

/-! ## Seeding -/

/-- The action that is found is a vector of the length of an action. -/
theorem exists_action (hc : controller.Serves r h ζ T a) {params : InitParams ℝ}
    {s copies : Datum ℝ} {y : Tensor ℝ} {found : Newton.Solution ℝ}
    (hfound : Newton.solve controller.model s y params copies = .ok found) :
    ∃ u : Fin (m + c) → ℝ, found.action = .ofFn u := by
  have hshape := Newton.shape_solve hfound
  rw [hc.model.actionDim, Int.toNat_natCast] at hshape
  exact Tensor.exists_eq_ofFn hshape

/-- The length of a step at the time at which the horizon starts. -/
theorem step_start (hc : controller.Serves r h ζ T a) (hN : 0 < controller.divisions) (t : ℝ) :
    (controller.horizon t).step t = .ok (Horizon.reach T a 0 / controller.divisions) := by
  rw [Horizon.step_of_scalar hc.horizonLength hc.growthRate rfl rfl (le_refl t), sub_self,
    if_neg hN.ne']

/-- The trajectory shot from one action for all steps. -/
theorem condense_replicate (hc : controller.Serves r h ζ T a) (t δ : ℝ) (x : Fin n → ℝ)
    (u : Fin (m + c) → ℝ) :
    controller.model.condense t (.ofFn x) (.replicate controller.divisions (.ofFn u)) δ none = .ok
      ⟨.ofNodes (controller.divisions + 1) (r.states t δ x (fun _ => u) 0),
        .ofNodes (controller.divisions + 1) (r.costates t δ (r.states t δ x (fun _ => u) 0)
          (fun _ => u) 0 controller.divisions)⟩ := by
  rw [Tensor.replicate_ofFn]
  exact Model.condense_eq (D := none) hc.model hc.room rfl rfl x

/-- A seeded controller carries one action for all steps, the trajectory shot from these,
and no direction. -/
theorem seed_spec (hc : controller.Serves r h ζ T a) (hN : 0 < controller.divisions)
    (hrotations : state.workspace.rotations.length = controller.solver.limit) {t : ℝ}
    {answer : Tensor ℝ} {state' : State ℝ}
    (hseed : Stateful.runOn (controller.seed t (.ofTensor (.ofFn x))) state =
      (.ok answer, state')) :
    ∃ u : Fin (m + c) → ℝ, controller.Carries state' t (fun _ => u) 0
      (r.states t (Horizon.reach T a 0 / controller.divisions) x (fun _ => u) 0)
      (r.costates t (Horizon.reach T a 0 / controller.divisions)
        (r.states t (Horizon.reach T a 0 / controller.divisions) x (fun _ => u) 0) (fun _ => u) 0
        controller.divisions) := by
  obtain ⟨y, params, found, trajectory, hy, -, hfound, hshoot, rfl⟩ := seed_eq_ok hseed
  obtain rfl := Except.ok.inj ((checkState_eq hc x).symm.trans hy)
  obtain ⟨u, hu⟩ := exists_action hc hfound
  rw [shoot, step_start hc hN, ok_bind, hu, condense_replicate hc] at hshoot
  refine ⟨u, ?_⟩
  exact {
    start := rfl
    actions := (congrArg (Tensor.replicate controller.divisions) hu).trans
      (Tensor.replicate_ofFn u)
    direction := by
      have hstill : controller.still = .zeros [controller.divisions, m + c] := by
        rw [still, actionsShape, hc.model.actionDim, Int.toNat_natCast]
      exact hstill.trans Tensor.zeros_eq_ofNodes
    trajectory := (Except.ok.inj hshoot).symm
    initialized := rfl
    rotations := hrotations }

/-- The arrays of a controller that has been seeded have their shapes. -/
theorem fits_seed {t measured : Datum ℝ} {answer : Tensor ℝ}
    (hseed : Stateful.runOn (controller.seed t measured) controller.blank = (.ok answer, state)) :
    controller.Fits state := by
  have hfits : controller.Fits (Stateful.runOn (controller.seed t measured) controller.blank).2 :=
    preserves_seed t measured _ fits_blank
  rwa [hseed] at hfits

/-- A controller is seeded if the search from its parameters finds an action, and then it carries
this action for all steps. -/
theorem seed_answers (hc : controller.Serves r h ζ T a) (hN : 0 < controller.divisions)
    {params : InitParams ℝ} (hparams : controller.chosenParams state = .ok params) {t : ℝ}
    {found : Newton.Solution ℝ}
    (hfound : Newton.solve controller.model t (.ofFn x) params
      (.number (.whole controller.divisions)) = .ok found) :
    ∃ answer state', Stateful.runOn (controller.seed t (.ofTensor (.ofFn x))) state =
      (.ok answer, state') ∧
      state'.actions.get = found.action.replicate controller.divisions := by
  obtain ⟨u, hu⟩ := exists_action hc hfound
  have hsearch : controller.search t (.ofTensor (.ofFn x)) state = .ok (.ofFn x, found) := by
    rw [search, checkState_eq hc, ok_bind, hparams, ok_bind, hfound]
    rfl
  have hshoot := step_start hc hN t
  rw [runOn_seed, hsearch]
  dsimp only
  rw [shoot, hshoot, ok_bind, hu, condense_replicate hc, hc.model.control]
  exact ⟨_, _, rfl, rfl⟩

end Calls

end Controller

/-! ## The integrator -/

/-- A horizon of length one, which is cut into one step and does not grow; differences,
rate of decay and the most directions are one as well. -/
def unitSettings : Settings ℝ where
  horizonLength := 1
  growthRate := 0
  divisions := 1
  differenceStep := 1
  decayRate := 1
  krylovLimit := 1
  relativeTolerance := 0

theorem check_unitSettings : unitSettings.draft.check = .ok unitSettings := rfl

/-- The controller of the integrator. -/
noncomputable def unitController : Controller ℝ where
  model := Regulator.integrator.model
  settings := unitSettings
  divisions := 1
  solver := ⟨1, 1, 0⟩

theorem actionDim_unitController : unitController.model.actionDim = 1 :=
  Regulator.integrator.answers.actionDim

/-- There is a solver for one unknown. -/
theorem Krylov.Solver.ofExtents_one (τ : Datum ℝ) : ofExtents 1 1 τ = .ok ⟨1, 1, τ⟩ := by
  have hlimit : (1 : Datum ℝ).atMost 1 = .ok 1 := rfl
  have hextent : (1 : Datum ℝ).extent = .ok 1 := rfl
  have hroom : Tensor.checkRoom [(1 : ℤ) + 1, 1] = (.ok () : Except (Fault ℝ) Unit) :=
    Tensor.checkRoom_of_lt rfl (by decide)
  rw [ofExtents, hlimit, ok_bind, hextent, ok_bind, ok_bind, hroom, ok_bind, ok_bind]
  rfl

/-- A model of one dimension and one action has a controller for one step, from all settings that
agree with the unit settings in the sizes and in the tolerance. -/
theorem ofSettings_of_dims {model : Model ℝ} {settings : Settings ℝ}
    (haction : model.actionDim = 1) (hstate : model.stateDim = 1)
    (hdivisions : settings.divisions = 1) (hlimit : settings.krylovLimit = 1)
    (htolerance : settings.relativeTolerance = 0) :
    Controller.ofSettings model settings =
      .ok { unitController with model := model, settings := settings } := by
  have hN : (1 : Datum ℝ).toNat = 1 := rfl
  have hsolver : Krylov.Solver.ofExtents (.number (.whole (((1 : ℕ) : ℤ) * 1))) 1 (0 : Datum ℝ) =
      .ok ⟨1, 1, 0⟩ := Krylov.Solver.ofExtents_one 0
  have hactions : Tensor.checkRoom [((1 : ℕ) : ℤ), 1] = (.ok () : Except (Fault ℝ) Unit) :=
    Tensor.checkRoom_of_lt rfl (by decide)
  have hnodes : Tensor.checkRoom [((1 : ℕ) : ℤ) + 1, 1] = (.ok () : Except (Fault ℝ) Unit) :=
    Tensor.checkRoom_of_lt rfl (by decide)
  rw [Controller.ofSettings, haction, hstate, hdivisions, hlimit, htolerance, hN, hsolver, ok_bind,
    hactions, ok_bind, hnodes, ok_bind]
  rfl

theorem ofSettings_unitSettings :
    Controller.ofSettings Regulator.integrator.model unitSettings = .ok unitController :=
  ofSettings_of_dims actionDim_unitController Regulator.integrator.answers.stateDim rfl rfl rfl

theorem serves_unitController : unitController.Serves Regulator.integrator.responses 1 1 1 0 :=
  Controller.serves_ofSettings (Settings.Draft.sound check_unitSettings) ofSettings_unitSettings
    Regulator.integrator.answers (congrArg Except.ok Int.cast_one)
    (congrArg Except.ok Int.cast_one) (congrArg Except.ok Int.cast_one)
    (congrArg Except.ok Int.cast_zero)

/-- The default parameters of the initial search of the controller of the integrator. -/
noncomputable def unitDraft : InitParams.Draft ℝ where
  guess := .ofTensor (.ofFn (0 : Fin 1 → ℝ))
  residualTolerance := .number (.real 1e-6)
  iterationLimit := 50
  differenceStep := 1
  krylovLimit := 1

noncomputable def unitParams : InitParams ℝ where
  guess := List.ofFn (0 : Fin 1 → ℝ)
  residualTolerance := .number (.real 1e-6)
  iterationLimit := 50
  differenceStep := 1
  krylovLimit := 1

theorem millionth_pos : (0 : ℝ) < 1e-6 := ofScientific_pos (by norm_num)

theorem check_unitDraft : unitDraft.check = .ok unitParams := by
  have hguess : unitDraft.guess.asGuess = .ok (List.ofFn (0 : Fin 1 → ℝ)) :=
    Datum.asGuess_of_tensor (Datum.tensor_ofTensor_ofFn _)
  have htolerance : Requirement.positive.check .residualTolerance unitDraft.residualTolerance =
      .ok unitDraft.residualTolerance :=
    Requirement.check_of_holds (Datum.isPositive_of_pos rfl millionth_pos)
  exact InitParams.Draft.check_eq_ok_iff.2 ⟨hguess, htolerance, rfl, rfl, rfl⟩

/-- A controller for one action that takes differences of step one starts its search from the
default parameters of the integrator, unless others have been set. -/
theorem chosenParams_of_dim {controller : Controller ℝ} {state : Controller.State ℝ}
    (haction : controller.model.actionDim = 1) (hstep : controller.settings.differenceStep = 1)
    (hparams : state.params = none) : controller.chosenParams state = .ok unitParams := by
  have hblank : Tensor.blank [(1 : ℤ)] = (.ok (.ofFn (0 : Fin 1 → ℝ)) : Except (Fault ℝ) _) :=
    Tensor.blank_of_lt rfl (by decide)
  have hdefault : controller.defaultInitParams = .ok unitDraft := by
    rw [Controller.defaultInitParams, haction, hstep, hblank]
    rfl
  rw [Controller.chosenParams, hparams]
  dsimp only
  rw [hdefault, ok_bind, check_unitDraft]

/-- A search from the default parameters of the integrator ends at once where the gradient is zero
without control. -/
theorem solve_unitParams {model : Model ℝ} (haction : model.actionDim = 1) {t : Datum ℝ}
    {x costate : Tensor ℝ} (hcostate : model.terminalGradient x t = .ok costate)
    (hgradient : model.controlGradient x (.ofFn (0 : Fin 1 → ℝ)) costate t =
      .ok (.ofFn (0 : Fin 1 → ℝ))) :
    Newton.solve model t x unitParams (.number (.whole unitController.divisions)) =
      .ok ⟨.ofFn (0 : Fin 1 → ℝ), 0, 0⟩ := by
  have hcopies : (Datum.number (.whole unitController.divisions)).atLeast 1 = .ok (1 : Datum ℝ) :=
    rfl
  have hscale : Newton.copyScale (.number (.whole unitController.divisions)) =
      .ok √((1 : ℤ) : ℝ) := by
    rw [Newton.copyScale, hcopies]
    rfl
  have hsolver : Krylov.Solver.ofExtents (.number (.whole model.actionDim))
      unitParams.krylovLimit defaultRelativeTolerance =
        .ok ⟨1, 1, defaultRelativeTolerance⟩ := by
    rw [haction]
    exact Krylov.Solver.ofExtents_one defaultRelativeTolerance
  exact Newton.solve_of_controlGradient_eq_zero haction hcostate hgradient rfl rfl millionth_pos
    hsolver hscale

/-- The integrator at rest needs no control, which is what the search begins with. -/
theorem solve_unitController :
    Newton.solve unitController.model (.number (.real 0)) (.ofFn (0 : Fin 1 → ℝ)) unitParams
      (.number (.whole unitController.divisions)) = .ok ⟨.ofFn (0 : Fin 1 → ℝ), 0, 0⟩ := by
  have hzero : Regulator.integrator.responses.controlGradient 0 0
      (Regulator.integrator.responses.terminalGradient 0 0) 0 = 0 := by
    simp only [Regulator.responses, Regulator.integrator, sub_zero, Matrix.one_mulVec,
      Matrix.transpose_one, add_zero]
    rfl
  have hgradient := Regulator.integrator.answers.controlGradient 0 0
    (Regulator.integrator.responses.terminalGradient 0 0) 0
  rw [hzero] at hgradient
  exact solve_unitParams actionDim_unitController
    (Regulator.integrator.answers.terminalGradient 0 0) hgradient

/-- The controller of the integrator can be seeded. -/
theorem seed_unitController : ∃ answer state,
    (unitController.seed (.number (.real 0)) (.ofTensor (.ofFn (0 : Fin 1 → ℝ)))).runOn
      unitController.blank = (.ok answer, state) := by
  have hparams : unitController.chosenParams unitController.blank = .ok unitParams :=
    chosenParams_of_dim actionDim_unitController rfl rfl
  obtain ⟨answer, state, hseed, -⟩ :=
    Controller.seed_answers serves_unitController Nat.one_pos hparams solve_unitController
  exact ⟨answer, state, hseed⟩

/-- The controller of the integrator can be seeded, and is then initialized and carries arrays of
the right shapes. -/
theorem seeded_unitController : ∃ state : Controller.State ℝ, unitController.Fits state ∧
    state.initialized = true ∧ state.start.scalar = .ok 0 := by
  obtain ⟨answer, state, hseed⟩ := seed_unitController
  obtain ⟨u, hs⟩ := Controller.seed_spec serves_unitController Nat.one_pos
    Controller.fits_blank.rotations hseed
  exact ⟨state, Controller.fits_seed hseed, hs.initialized, hs.start⟩

end RecedingHorizon

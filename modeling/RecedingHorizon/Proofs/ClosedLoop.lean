import RecedingHorizon.Proofs.NewtonSystem

/-!
# The stationarity decays in the loop

A regulator on a horizon that does not grow, in the loop with its controller: every
measured state is the one that the first control of the stored sequence leads to.
Seeding shoots a trajectory without defects.  Along the rates that a continuation
step finds it stays without defects for a period of any length, since all that is
shot is affine in the state and the actions.  So the stationarity decays by the
prescribed factor, but for what the linear solve has left, and how much that is the
solver reports.

* `Regulator.Shot`: a point with the trajectory without defects; what a continuation
  step finds there.
* `Controller.ClosedLoop`: the runs.
* `Controller.Follows`: the invariant, with `follows_seed` and `Follows.update` for one
  call and `ClosedLoop.follows` for a run.
* `Controller.closedLoop_decay`: the decay.
-/

namespace RecedingHorizon

variable {n m c N : ℕ}

namespace Regulator

/-- The point holds the trajectory without defects, and the steps of the horizon keep
their length. -/
structure Shot (g : Regulator n m) (N : ℕ) (p : Continuation.Point n m 0) : Prop where
  states : p.states = g.responses.states 0 p.δ p.state p.actions 0
  costates : p.costates = g.responses.costates 0 p.δ p.states p.actions 0 N
  steady : p.δ' = p.δ

namespace Shot

open Continuation

variable {g : Regulator n m} {p : Point n m 0} (hp : g.Shot N p) (h ζ : ℝ)
include hp

theorem stateDefects_eq : p.stateDefects g.responses = 0 := by
  rw [Point.stateDefects, hp.states, states_time 0 p.time]
  exact g.responses.stateDefects_states _ _ rfl

theorem costateDefects_eq {i : ℕ} (hi : i ≤ N) : p.costateDefects g.responses N i = 0 := by
  rw [Point.costateDefects, hp.costates, costates_time 0 p.time]
  exact g.responses.costateDefects_costates _ _ (fun _ => rfl) hi

theorem present_eq : p.present g.responses =
    g.responses.condensed 0 p.δ p.state p.actions 0 0 N := by
  rw [Point.present, hp.costates, hp.states]
  rfl

/-- One difference step ahead the states are shot from the state there. -/
theorem nextStates_eq (a : ℕ → Fin (m + 0) → ℝ) : p.nextStates g.responses h ζ a =
    g.responses.states 0 p.δ (p.ahead g.responses h) a 0 := by
  rw [Point.nextStates, hp.stateDefects_eq, smul_zero, hp.steady, states_time _ 0]

theorem nextCostates_eq (a : ℕ → Fin (m + 0) → ℝ) : p.nextCostates g.responses N h ζ a =
    g.responses.costates 0 p.δ (p.nextStates g.responses h ζ a) a 0 N := by
  have hdefects : ∀ i ≤ N, ((1 - h * ζ) • p.costateDefects g.responses N) i =
      (0 : ℕ → Fin n → ℝ) i := by
    intro i hi
    rw [Pi.smul_apply, hp.costateDefects_eq hi, smul_zero]
    rfl
  rw [Point.nextCostates, g.responses.costates_congr _ _ hdefects, hp.steady, costates_time _ 0]

theorem next_eq (a : ℕ → Fin (m + 0) → ℝ) : p.next g.responses N h ζ a =
    g.responses.condensed 0 p.δ (p.ahead g.responses h) a 0 0 N := by
  have hnext : p.next g.responses N h ζ a = g.responses.stationarity (p.time + h) p.δ'
      (p.ahead g.responses h) a (p.nextStates g.responses h ζ a)
      (p.nextCostates g.responses N h ζ a) := rfl
  rw [hnext, hp.nextCostates_eq, hp.nextStates_eq, hp.steady]
  rfl

theorem next_moved (v : ℕ → Fin (m + 0) → ℝ) :
    p.next g.responses N h ζ (p.actions + h • v) = p.present g.responses +
      h • g.centred.responses.condensed 0 p.δ (p.rate g.responses) v 0 0 N := by
  rw [hp.next_eq, hp.present_eq, Point.ahead]
  exact g.varies.condensed_add_smul 0 p.δ h _ _ _ _

theorem nextStates_moved (v : ℕ → Fin (m + 0) → ℝ) :
    p.nextStates g.responses h ζ (p.actions + h • v) = p.states +
      h • g.centred.responses.states 0 p.δ (p.rate g.responses) v 0 := by
  rw [hp.nextStates_eq, hp.states, Point.ahead]
  exact g.varies.states_add_smul 0 p.δ h _ _ _ _

theorem nextCostates_moved (v : ℕ → Fin (m + 0) → ℝ) :
    p.nextCostates g.responses N h ζ (p.actions + h • v) = p.costates +
      h • g.centred.responses.costates 0 p.δ
        (g.centred.responses.states 0 p.δ (p.rate g.responses) v 0) v 0 N := by
  rw [hp.nextCostates_eq, hp.nextStates_moved, hp.costates]
  exact g.varies.costates_add_smul 0 p.δ h _ _ _ _

/-- The residual that a direction leaves, at a point that holds the trajectory without defects. -/
theorem remaining_eq (hh : h ≠ 0) (v : ℕ → Fin (m + 0) → ℝ) :
    p.remaining g.responses N h ζ v = -(ζ • p.present g.responses +
      g.centred.responses.condensed 0 p.δ (p.rate g.responses) v 0 0 N) := by
  rw [Point.remaining, hp.next_moved, smul_add, inv_smul_smul₀ hh, sub_smul]
  abel

/-- The image of a direction does not depend on the point. -/
theorem image_eq (hh : h ≠ 0) (v : ℕ → Fin (m + 0) → ℝ) :
    p.image g.responses N h ζ v = g.centred.responses.condensed 0 p.δ 0 v 0 0 N := by
  have himage : p.image g.responses N h ζ v =
      p.remaining g.responses N h ζ 0 - p.remaining g.responses N h ζ v := by
    rw [p.remaining_eq_sub g.responses N h ζ v, sub_sub_cancel]
  rw [himage, hp.remaining_eq h ζ hh, hp.remaining_eq h ζ hh, neg_sub_neg,
    g.linear.condensed_split 0 p.δ (p.rate g.responses) v, add_sub_add_left_eq_sub,
    add_sub_cancel_left]

/-- At a point without defects the images of directions are linear. -/
theorem hasLinearImage (hh : h ≠ 0) : p.HasLinearImage g.responses N h ζ where
  map_add u v := by
    rw [hp.image_eq h ζ hh, hp.image_eq h ζ hh, hp.image_eq h ζ hh, unflatten_add,
      g.linear.condensed_add]
    rfl
  map_smul s v := by
    rw [hp.image_eq h ζ hh, hp.image_eq h ζ hh, unflatten_smul, g.linear.condensed_smul]
    rfl

variable (v : ℕ → Fin (m + 0) → ℝ) (dt : ℝ)

/-- Moved along their rate of change, states are still without defects. -/
theorem states_moved (hh : h ≠ 0) :
    p.states + dt • h⁻¹ • (p.nextStates g.responses h ζ (p.actions + h • v) - p.states) =
      g.responses.states 0 p.δ (p.state + dt • p.rate g.responses) (p.actions + dt • v) 0 := by
  rw [hp.nextStates_moved, add_sub_cancel_left, inv_smul_smul₀ hh, hp.states]
  exact (g.varies.states_add_smul 0 p.δ dt _ _ _ _).symm

/-- Moved along their rate of change, costates are still without defects. -/
theorem costates_moved (hh : h ≠ 0) :
    p.costates + dt • h⁻¹ • (p.nextCostates g.responses N h ζ (p.actions + h • v) - p.costates) =
      g.responses.costates 0 p.δ
        (g.responses.states 0 p.δ (p.state + dt • p.rate g.responses) (p.actions + dt • v) 0)
        (p.actions + dt • v) 0 N := by
  have hstates := g.varies.states_add_smul 0 p.δ dt p.state (p.rate g.responses) p.actions v
  rw [hp.nextCostates_moved, add_sub_cancel_left, inv_smul_smul₀ hh, hp.costates, hp.states,
    hstates]
  exact (g.varies.costates_add_smul 0 p.δ dt _ _ _ _).symm

/-- Moved along the rates of change, the stationarity decays but for what the direction leaves. -/
theorem condensed_moved (hh : h ≠ 0) :
    g.responses.condensed 0 p.δ (p.state + dt • p.rate g.responses) (p.actions + dt • v) 0 0 N =
      (1 - ζ * dt) • p.present g.responses - dt • p.remaining g.responses N h ζ v := by
  have hmoved := g.varies.condensed_add_smul (N := N) 0 p.δ dt p.state (p.rate g.responses)
    p.actions v
  rw [hmoved, ← hp.present_eq, hp.remaining_eq h ζ hh, sub_smul, one_smul, smul_neg, smul_add,
    smul_smul, mul_comm ζ dt, sub_neg_eq_add]
  abel

end Shot

end Regulator

namespace Controller

/-- The states a controller comes to in the loop with its model, with the state that is
measured next: it is seeded at time `t₀`, whatever it was asked before, and then updated
at any times from `t₀` on, each time with a positive period, at the end of which the
state is the one that the first control of the stored sequence has led to. -/
inductive ClosedLoop (controller : Controller ℝ) (t₀ : ℝ) : State ℝ → (Fin n → ℝ) → Prop
  | seeded {before after : State ℝ} {answer : Tensor ℝ} {x : Fin n → ℝ}
      (hbefore : controller.Reachable before)
      (hseed : (controller.seed t₀ (.ofTensor (.ofFn x))).runOn before = (.ok answer, after)) :
      ClosedLoop controller t₀ after x
  | updated {state state' : State ℝ} {answer u : Tensor ℝ} {x rate : Fin n → ℝ} {t dt : ℝ}
      {period : Datum ℝ} (hrun : ClosedLoop controller t₀ state x) (ht : t₀ ≤ t)
      (hperiod : period.scalar = .ok dt) (hdt : 0 < dt)
      (hupdate : (controller.update t period (.ofTensor (.ofFn x))).runOn state =
        (.ok answer, state'))
      (hcontrol : controller.firstControl state.actions.get = .ok u)
      (hrate : controller.model.dynamics (.ofFn x) u t = .ok (.ofFn rate)) :
      ClosedLoop controller t₀ state' (x + dt • rate)

section Loop

variable {controller : Controller ℝ} {g : Regulator n m} {h ζ T t₀ t : ℝ} {state : State ℝ}
variable {x : Fin n → ℝ} {U V : ℕ → Fin (m + 0) → ℝ} {X L : ℕ → Fin n → ℝ}

/-- What a controller carries in the loop: the trajectory without defects, and so
determined by the actions. -/
structure Follows (controller : Controller ℝ) (g : Regulator n m) (T t₀ : ℝ) (state : State ℝ)
    (x : Fin n → ℝ) (U V : ℕ → Fin (m + 0) → ℝ) (X L : ℕ → Fin n → ℝ) : Prop where
  carries : controller.Carries state t₀ U V X L
  states : X = g.responses.states 0 (T / controller.divisions) x U 0
  costates : L = g.responses.costates 0 (T / controller.divisions) X U 0 controller.divisions

/-- A horizon that does not grow is cut alike at all times. -/
theorem step_point {p : Continuation.Point n m 0}
    (hp : p = controller.point h T 0 t₀ t x U X L) : p.δ = T / controller.divisions := by
  rw [hp, point, Horizon.reach_zero]

/-- The point at which a step starts. -/
theorem Follows.shot {h : ℝ} (hs : controller.Follows g T t₀ state x U V X L)
    {p : Continuation.Point n m 0} (hp : p = controller.point h T 0 t₀ t x U X L) :
    g.Shot controller.divisions p where
  states := by
    rw [hp, point, Horizon.reach_zero]
    exact hs.states
  costates := by
    rw [hp, point, Horizon.reach_zero]
    exact hs.costates
  steady := by rw [hp, point, Horizon.reach_zero, Horizon.reach_zero]

/-- A controller that has been seeded carries the trajectory without defects. -/
theorem follows_seed (hc : controller.Serves g.responses h ζ T 0) (hN : 0 < controller.divisions)
    {before : State ℝ} (hbefore : controller.Reachable before) {answer : Tensor ℝ}
    (hseed : (controller.seed t₀ (.ofTensor (.ofFn x))).runOn before = (.ok answer, state)) :
    ∃ U V X L, controller.Follows g T t₀ state x U V X L := by
  have hdim : 0 ≤ controller.model.actionDim := by
    rw [hc.model.actionDim]
    exact Int.natCast_nonneg _
  obtain ⟨u, hs⟩ := seed_spec hc hN (hbefore.fits hdim).rotations hseed
  rw [Horizon.reach_zero] at hs
  exact ⟨_, _, _, _, hs, Regulator.states_time _ _ _ _ _, Regulator.costates_time _ _ _ _ _ _⟩

/-- A step leaves a controller that carries the trajectory without defects at the state that the
first control leads to. -/
theorem Follows.update (hc : controller.Serves g.responses h ζ T 0) (hN : 0 < controller.divisions)
    (hs : controller.Follows g T t₀ state x U V X L) (ht : t₀ ≤ t) {period : Datum ℝ} {dt : ℝ}
    (hperiod : period.scalar = .ok dt) (hdt : 0 < dt) {p : Continuation.Point n m 0}
    (hp : p = controller.point h T 0 t₀ t x U X L) :
    ∃ (state' : State ℝ) (outcome : Krylov.Outcome ℝ) (V' : ℕ → Fin (m + 0) → ℝ)
      (X' L' : ℕ → Fin n → ℝ),
      Stateful.runOn (controller.update t period (.ofTensor (.ofFn x))) state =
        (.ok (.ofFn (RecedingHorizon.control ((U + dt • V') 0))), state') ∧
      controller.Follows g T t₀ state' (x + dt • p.rate g.responses) (U + dt • V') V' X' L' ∧
      state'.outcome = some outcome ∧
      outcome.residualNorm = p.remainingNorm g.responses controller.divisions h ζ V' := by
  have hshot := hs.shot hp
  have hh := hc.step_pos.ne'
  have hδ := step_point hp
  obtain ⟨state', outcome, V', hupdate, -, hs', houtcome, hexact⟩ :=
    update_spec hc hN hs.carries ht hperiod hdt hp
  have hstates := hshot.states_moved h ζ V' dt hh
  have hcostates := hshot.costates_moved h ζ V' dt hh
  rw [hδ] at hstates hcostates
  rw [← hstates] at hcostates
  refine ⟨state', outcome, V',
    X + dt • h⁻¹ • (p.nextStates g.responses h ζ (U + h • V') - X),
    L + dt • h⁻¹ • (p.nextCostates g.responses controller.divisions h ζ (U + h • V') - L),
    hupdate, ?_, houtcome, hexact (hshot.hasLinearImage h ζ hh)⟩
  subst hp
  exact ⟨hs', hstates, hcostates⟩

/-- A controller in the loop carries the trajectory without defects in every cycle. -/
theorem ClosedLoop.follows (hc : controller.Serves g.responses h ζ T 0)
    (hN : 0 < controller.divisions) (hrun : controller.ClosedLoop t₀ state x) :
    ∃ U V X L, controller.Follows g T t₀ state x U V X L := by
  induction hrun with
  | seeded hbefore hseed => exact follows_seed hc hN hbefore hseed
  | @updated _ _ _ _ x _ t _ _ _ ht hperiod hdt hupdate hcontrol hrate ih =>
      obtain ⟨U, V, X, L, hs⟩ := ih
      obtain ⟨p, hp⟩ : ∃ p, p = controller.point h T 0 t₀ t x U X L := ⟨_, rfl⟩
      obtain ⟨state', outcome, V', X', L', hanswer, hs', -, -⟩ :=
        hs.update hc hN ht hperiod hdt hp
      obtain ⟨-, rfl⟩ := Prod.mk.inj (hupdate.symm.trans hanswer)
      rw [hs.carries.actions, firstControl_eq hc hN] at hcontrol
      obtain rfl := Except.ok.inj hcontrol
      rw [hc.model.dynamics] at hrate
      obtain rfl := Tensor.ofFn_injective (Except.ok.inj hrate)
      subst hp
      exact ⟨_, _, _, _, hs'⟩

/-- The residual of a controller that carries the trajectory without defects: no defects, and the
stationarity that the actions have without these. -/
theorem Follows.residual_eq (hc : controller.Serves g.responses h ζ T 0)
    (hs : controller.Follows g T t₀ state x U V X L) (ht : t₀ ≤ t) :
    controller.residual state t (.ofFn x) = .ok
      ⟨.ofNodes controller.divisions (g.responses.condensed 0 (T / controller.divisions) x U 0 0
          controller.divisions),
        .zeros [controller.divisions + 1, n], .zeros [controller.divisions + 1, n]⟩ := by
  obtain ⟨p, hp⟩ : ∃ p, p = controller.point h T 0 t₀ t x U X L := ⟨_, rfl⟩
  have hshot := hs.shot hp
  have hδ := step_point hp
  have hcostates : Tensor.ofNodes (controller.divisions + 1)
      (p.costateDefects g.responses controller.divisions) =
        .zeros [controller.divisions + 1, n] := by
    rw [Tensor.zeros_eq_ofNodes]
    exact Tensor.ofNodes_congr fun i hi => hshot.costateDefects_eq (Nat.le_of_lt_succ hi)
  rw [residual_spec hc hs.carries ht hp, hshot.present_eq, hshot.stateDefects_eq, hδ, hcostates,
    Tensor.zeros_eq_ofNodes]
  subst hp
  rfl

/-- The stationarity at the state to which a control leads for any time. -/
theorem Follows.condensed_moved (hc : controller.Serves g.responses h ζ T 0)
    (hs : controller.Follows g T t₀ state x U V X L) {p : Continuation.Point n m 0}
    (hp : p = controller.point h T 0 t₀ t x U X L) (dt : ℝ) (v : ℕ → Fin (m + 0) → ℝ) :
    g.responses.condensed 0 (T / controller.divisions) (x + dt • p.rate g.responses) (U + dt • v)
        0 0 controller.divisions =
      (1 - ζ * dt) •
          g.responses.condensed 0 (T / controller.divisions) x U 0 0 controller.divisions -
        dt • p.remaining g.responses controller.divisions h ζ v := by
  have hδ := step_point hp
  have hmoved := (hs.shot hp).condensed_moved h ζ v dt hc.step_pos.ne'
  rw [(hs.shot hp).present_eq, hδ] at hmoved
  subst hp
  exact hmoved

/-- In every cycle the stored trajectory has no defects at the measured state.  The step
answers, and at the state that the stored control leads to the stationarity is
multiplied by `1 - ζ dt`, less `dt` times what the direction leaves of the linear
system, whose norm is the one that the solver reports.  So the norm of the residual is
bounded, and multiplied by `|1 - ζ dt|` if nothing is left. -/
theorem closedLoop_decay {draft : Settings.Draft ℝ} {settings : Settings ℝ}
    (hsettings : draft.check = .ok settings)
    (hcontroller : ofSettings g.model settings = .ok controller)
    (hgrowth : settings.growthRate.scalar = .ok 0) (hN : 0 < controller.divisions)
    (hh : settings.differenceStep.scalar = .ok h) (hζ : settings.decayRate.scalar = .ok ζ)
    (hrun : controller.ClosedLoop t₀ state x) (ht : t₀ ≤ t) {period : Datum ℝ} {dt : ℝ}
    (hperiod : period.scalar = .ok dt) (hdt : 0 < dt) :
    ∃ (answer u : Tensor ℝ) (rate : Fin n → ℝ) (state' : State ℝ) (outcome : Krylov.Outcome ℝ)
      (F ρ : ℕ → Fin (m + 0) → ℝ),
      controller.residual state t (.ofFn x) = .ok ⟨.ofNodes controller.divisions F,
        .zeros [controller.divisions + 1, n], .zeros [controller.divisions + 1, n]⟩ ∧
      (controller.update t period (.ofTensor (.ofFn x))).runOn state = (.ok answer, state') ∧
      controller.firstControl state.actions.get = .ok u ∧
      g.model.dynamics (.ofFn x) u t = .ok (.ofFn rate) ∧
      controller.leftover state t (.ofFn x) state'.direction.get =
        .ok (.ofFn (flatten controller.divisions ρ)) ∧
      state'.outcome = some outcome ∧
      outcome.residualNorm = (Tensor.ofFn (flatten controller.divisions ρ)).norm ∧
      ∀ t', t₀ ≤ t' →
        controller.residual state' t' (.ofFn (x + dt • rate)) = .ok
          ⟨.ofNodes controller.divisions ((1 - ζ * dt) • F - dt • ρ),
            .zeros [controller.divisions + 1, n], .zeros [controller.divisions + 1, n]⟩ ∧
        ∃ error error',
          (controller.residualNorm t (.ofTensor (.ofFn x))).runOn state = (.ok error, state) ∧
          (controller.residualNorm t' (.ofTensor (.ofFn (x + dt • rate)))).runOn state' =
            (.ok error', state') ∧
          error' ≤ |1 - ζ * dt| * error + dt * outcome.residualNorm ∧
          (outcome.residualNorm = 0 → error' = |1 - ζ * dt| * error) := by
  have hsound := Settings.Draft.sound hsettings
  obtain ⟨T, hT, -⟩ := hsound.horizonLength
  have hc := serves_ofSettings hsound hcontroller g.answers hh hζ hT hgrowth
  obtain ⟨U, V, X, L, hs⟩ := hrun.follows hc hN
  obtain ⟨p, hp⟩ : ∃ p, p = controller.point h T 0 t₀ t x U X L := ⟨_, rfl⟩
  obtain ⟨state', outcome, V', X', L', hupdate, hs', houtcome, hnorm⟩ :=
    hs.update hc hN ht hperiod hdt hp
  obtain ⟨F, hF⟩ : ∃ F, F = g.responses.condensed 0 (T / controller.divisions) x U 0 0
    controller.divisions := ⟨_, rfl⟩
  obtain ⟨ρ, hρ⟩ : ∃ ρ, ρ = p.remaining g.responses controller.divisions h ζ V' := ⟨_, rfl⟩
  have hresidual := hs.residual_eq hc ht
  have hnext := hs.condensed_moved hc hp dt V'
  rw [← hF, ← hρ] at hnext
  rw [← hF] at hresidual
  rw [Continuation.Point.remainingNorm, ← hρ] at hnorm
  refine ⟨_, .ofFn (RecedingHorizon.control (U 0)), p.rate g.responses, state', outcome, F, ρ,
    hresidual, hupdate, ?_, ?_, ?_, houtcome, ?_, fun t' ht' => ?_⟩
  · rw [hs.carries.actions]
    exact firstControl_eq hc hN U
  · subst hp
    exact g.answers.dynamics _ _ _
  · rw [hs'.carries.direction, hρ]
    exact leftover_spec hc hN hs.carries ht hp V'
  · rw [hnorm, Tensor.norm, Tensor.entries_ofFn, Vec.norm_ofFn]
  · have hresidual' := hs'.residual_eq hc ht'
    rw [hnext] at hresidual'
    refine ⟨hresidual', _, _, residualNorm_spec hc hs.carries hresidual,
      residualNorm_spec hc hs'.carries hresidual', ?_, fun hzero => ?_⟩
    · rw [Residual.norm_flawless, Residual.norm_flawless, hnorm]
      exact sqrt_sub_smul_le _ hdt.le _ _
    · rw [Residual.norm_flawless, Residual.norm_flawless]
      rw [hnorm] at hzero
      exact sqrt_sub_smul_eq _ _ _ hzero

end Loop

end Controller

/-- The integrator in the loop, in its second cycle.  It is seeded at one, where the search finds
the control minus one, and this has been applied for half a unit of time. -/
theorem integrator_closedLoop_decay :
    ∃ (seeded state state' : Controller.State ℝ) (first answer u : Tensor ℝ) (rate : Fin 1 → ℝ)
      (outcome : Krylov.Outcome ℝ) (F ρ : ℕ → Fin (1 + 0) → ℝ),
      unitController.ClosedLoop 0 seeded (1 : Fin 1 → ℝ) ∧
      (unitController.update (.number (.real 0)) (.number (.real (1 / 2)))
        (.ofTensor (.ofFn (1 : Fin 1 → ℝ)))).runOn seeded = (.ok first, state) ∧
      unitController.ClosedLoop 0 state ![1 / 2] ∧
      unitController.residual state (.number (.real (1 / 2))) (.ofFn ![1 / 2]) =
        .ok ⟨.ofNodes 1 F, .zeros [2, 1], .zeros [2, 1]⟩ ∧
      (unitController.update (.number (.real (1 / 2))) (.number (.real (1 / 2)))
        (.ofTensor (.ofFn ![1 / 2]))).runOn state = (.ok answer, state') ∧
      unitController.firstControl state.actions.get = .ok u ∧
      Regulator.integrator.model.dynamics (.ofFn ![1 / 2]) u (.number (.real (1 / 2))) =
        .ok (.ofFn rate) ∧
      unitController.leftover state (.number (.real (1 / 2))) (.ofFn ![1 / 2])
        state'.direction.get = .ok (.ofFn (flatten 1 ρ)) ∧
      state'.outcome = some outcome ∧
      outcome.residualNorm = (Tensor.ofFn (flatten 1 ρ)).norm ∧
      ∀ t' : ℝ, 0 ≤ t' →
        unitController.residual state' (.number (.real t'))
            (.ofFn (![1 / 2] + (1 / 2 : ℝ) • rate)) = .ok
          ⟨.ofNodes 1 ((1 - 1 * (1 / 2) : ℝ) • F - (1 / 2 : ℝ) • ρ), .zeros [2, 1],
            .zeros [2, 1]⟩ ∧
        ∃ error error',
          (unitController.residualNorm (.number (.real (1 / 2))) (.ofTensor (.ofFn ![1 / 2]))).runOn
            state = (.ok error, state) ∧
          (unitController.residualNorm (.number (.real t'))
              (.ofTensor (.ofFn (![1 / 2] + (1 / 2 : ℝ) • rate)))).runOn state' =
            (.ok error', state') ∧
          error' ≤ |1 - 1 * (1 / 2)| * error + 1 / 2 * outcome.residualNorm ∧
          (outcome.residualNorm = 0 → error' = |1 - 1 * (1 / 2)| * error) := by
  have hone : unitSettings.differenceStep.scalar = .ok 1 := congrArg Except.ok Int.cast_one
  have hgrowth : unitSettings.growthRate.scalar = .ok 0 := congrArg Except.ok Int.cast_zero
  have hhalf : (Datum.number (.real (1 / 2 : ℝ))).scalar = .ok (1 / 2) := rfl
  obtain ⟨_, seeded, hseed, hactions⟩ := seed_integrator serves_unitController rfl rfl rfl
  have hseeded : unitController.ClosedLoop 0 seeded (1 : Fin 1 → ℝ) := .seeded ⟨[], rfl⟩ hseed
  -- the first cycle
  obtain ⟨first, u, rate, state, _, _, _, -, hfirst, hu, hrate, -⟩ :=
    Controller.closedLoop_decay check_unitSettings ofSettings_unitSettings hgrowth Nat.one_pos hone
      hone hseeded le_rfl hhalf one_half_pos
  have hcontrol :
      unitController.firstControl seeded.actions.get = .ok (.ofFn (-1 : Fin 1 → ℝ)) := by
    rw [hactions]
    exact Controller.firstControl_eq serves_unitController Nat.one_pos _
  obtain rfl := Except.ok.inj (hcontrol.symm.trans hu)
  have hfollows : rate = -1 := by
    have hdynamics := Regulator.integrator.dynamics_model 1 (-1) (.number (.real 0))
    rw [← Tensor.ofFn_injective (Except.ok.inj (hdynamics.symm.trans hrate))]
    simp [Regulator.integrator]
  have hstate := Controller.ClosedLoop.updated hseeded le_rfl hhalf one_half_pos hfirst hu hrate
  have hend : (1 : Fin 1 → ℝ) + (1 / 2 : ℝ) • rate = ![1 / 2] := by
    rw [hfollows]
    ext i
    fin_cases i
    norm_num
  rw [hend] at hstate
  -- the second one
  obtain ⟨answer, u', rate', state', outcome, F, ρ, hdecay⟩ :=
    Controller.closedLoop_decay check_unitSettings ofSettings_unitSettings hgrowth Nat.one_pos hone
      hone hstate one_half_pos.le hhalf one_half_pos
  exact ⟨seeded, state, state', first, answer, u', rate', outcome, F, ρ, hseeded, hfirst, hstate,
    hdecay⟩

end RecedingHorizon

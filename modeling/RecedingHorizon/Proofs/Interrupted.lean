import Mathlib
import RecedingHorizon.Proofs.Endings
import RecedingHorizon.Proofs.Start

/-!
# Calls that a model interrupts

A model need not answer.  Where it does not, the call that has asked it fails, and what has
been written by then stays.  The trajectory, the flag and the parameters are written last of
all, so that no failing call has changed them.  But a seeding starts the horizon and plants the
action that was found before it shoots the trajectory from it; and a step remembers what it has
solved for before it asks for the rate of change along it.  A seeding that fails while it
searches leaves nothing, and a step that fails before it has solved leaves nothing that is seen.

* `Controller.failure_keeps`: what a failing seeding, and a failing step, leave.
* `brittle`: a model by which a seeding is interrupted after the search, and a step after the
  solve; `brittleController_interrupted`.
-/

namespace RecedingHorizon

namespace Controller

open Stateful

variable {α : Type} [Scalar α] {controller : Controller α} {state : State α}

/-- Whatever fault a model answers with, and whatever else a call fails for, a seeding that
fails changes neither the trajectory nor the outcome nor the flag nor the parameters: it has
changed nothing at all, or it has started the horizon, planted the action that was found at
every step, and cleared the direction, and could not shoot the trajectory from these.  A step
that fails before the model has answered all that it was asked changes neither the horizon nor
the actions nor the trajectory nor the flag nor the parameters, and the outcome and the
direction are those before it, or both are those of the solution along which the rate of change
was not found. -/
theorem failure_keeps {model : Model α} {draft : Settings.Draft α} {settings : Settings α}
    (hsettings : draft.check = .ok settings)
    (hcontroller : ofSettings model settings = .ok controller)
    (hreach : controller.Reachable state) :
    (∀ {t measured fault state'},
      (controller.seed t measured).runOn state = (.error fault, state') →
      (state'.trajectory = state.trajectory ∧ state'.outcome = state.outcome ∧
        state'.initialized = state.initialized ∧ state'.params = state.params) ∧
      (state' = state ∨ ∃ x found, controller.search t measured state = .ok (x, found) ∧
        controller.shoot t x found.action = .error fault ∧ state'.start = t ∧
        state'.actions.get = found.action.replicate controller.divisions ∧
        state'.direction.get = controller.still)) ∧
    (∀ {t period measured fault state'},
      (controller.update t period measured).runOn state = (.error fault, state') →
      (∃ x answer answered, controller.admitted period measured state = .ok x ∧
        (controller.rates t x).runOn state = (.ok answer, answered) ∧
        (controller.follow period answer).runOn answered = (.error fault, state')) ∨
      (state'.start = state.start ∧ state'.actions = state.actions ∧
        state'.trajectory = state.trajectory ∧ state'.initialized = state.initialized ∧
        state'.params = state.params) ∧
      ((state'.outcome = state.outcome ∧ state'.direction = state.direction) ∨
        ∃ x outcome w memory direction, controller.admitted period measured state = .ok x ∧
          controller.solved t x state = ((.ok outcome, w), memory) ∧
          (controller.continuation state.start).unflatten outcome.solution = .ok direction ∧
          (controller.continuation state.start).rateFrom memory state.actions.get direction =
            .error fault ∧
          state'.outcome = some outcome ∧ state'.direction.get = direction)) := by
  have hc := regular_ofSettings hsettings hcontroller
  have hs := hreach.fits hc.actionDim
  refine ⟨fun {t measured fault state'} h => ?_, fun {t period measured fault state'} h => ?_⟩
  · rcases seed_eq_error h with ⟨-, rfl⟩ | ⟨x, found, hsearch, hshoot, rfl⟩
    · exact ⟨⟨rfl, rfl, rfl, rfl⟩, .inl rfl⟩
    · exact ⟨⟨rfl, rfl, rfl, rfl⟩, .inr ⟨x, found, hsearch, hshoot, rfl, rfl, rfl⟩⟩
  · rcases update_eq_error hc hs h with ⟨-, rfl⟩ | ⟨x, hadmitted, hunsolved | hsolved⟩
    · exact .inr ⟨⟨rfl, rfl, rfl, rfl, rfl⟩, .inl ⟨rfl, rfl⟩⟩
    · obtain ⟨w, memory, -, rfl⟩ := hunsolved
      exact .inr ⟨⟨rfl, rfl, rfl, rfl, rfl⟩, .inl ⟨rfl, rfl⟩⟩
    · obtain ⟨outcome, w, memory, direction, hsolved, hdirection, hrest⟩ := hsolved
      rcases hrest with ⟨hrate, rfl⟩ | ⟨rate, hrate, h⟩
      · exact .inr ⟨⟨rfl, rfl, rfl, rfl, rfl⟩,
          .inr ⟨x, outcome, w, memory, direction, hadmitted, hsolved, hdirection, hrate, rfl, rfl⟩⟩
      · refine .inl ⟨x, (direction, rate), directed state w memory outcome direction, hadmitted,
          ?_, h⟩
        rw [runOn_rates_of_ok hsolved hdirection, hrate]
        rfl

end Controller

/-! ## A failure at the first step -/

namespace Recurrence

variable {ε β : Type} {e : ε} {n : ℕ}

/-- A run fails with its first step. -/
theorem run_eq_error {step : ℕ → β → Except ε β} {b : β} (hn : 0 < n) (h : step 0 b = .error e) :
    run step n b = .error e := by
  obtain ⟨n, rfl⟩ := Nat.exists_eq_succ_of_ne_zero hn.ne'
  rw [run, continued, h]

theorem collect_eq_error {f : ℕ → Except ε β} (hn : 0 < n) (h : f 0 = .error e) :
    collect f n = .error e := by
  obtain ⟨n, rfl⟩ := Nat.exists_eq_succ_of_ne_zero hn.ne'
  rw [collect, collectFrom, h]

end Recurrence

/-! ## A model that breaks -/

/-- A model that breaks.  Its state rests, but has no rate of change before time zero; and the
control gradient, which is that of the distance to `t (t + 1)`, is not found at an action above
one. -/
noncomputable def brittle : Model ℝ where
  stateDim := 1
  controlDim := 1
  constraintDim := 0
  dynamics _ _ t := do
    if (← t.scalar) < 0 then throw .divisionByZero
    return .ofFn ![0]
  terminalGradient _ _ := .ok (.ofFn ![0])
  stateGradient _ _ _ _ := .ok (.ofFn ![0])
  controlGradient _ action _ t := do
    let s ← t.scalar
    if 1 < action.entry 0 then throw .divisionByZero
    return .ofFn ![action.entry 0 - s * (s + 1)]

/-- The controller of the model that breaks. -/
noncomputable def brittleController : Controller ℝ := { unitController with model := brittle }

theorem ofSettings_brittle : Controller.ofSettings brittle unitSettings = .ok brittleController :=
  ofSettings_of_dims rfl rfl rfl rfl rfl

namespace brittle

/-- An action for a horizon of one step. -/
noncomputable def single (u : ℝ) : Tensor ℝ := .ofNodes 1 fun _ => ![u]

/-- The trajectory that rests. -/
noncomputable def resting : Trajectory ℝ := ⟨.ofNodes 2 fun _ => ![0], .ofNodes 2 fun _ => ![0]⟩

/-- No defects on a horizon of one step. -/
noncomputable def flawless : Defects ℝ := ⟨.ofNodes 2 fun _ => ![0], .ofNodes 2 fun _ => ![0]⟩

theorem item_single (u : ℝ) : (single u).item 0 = .ok (.ofFn ![u]) :=
  Tensor.item_ofNodes _ Nat.one_pos

theorem count_single (u : ℝ) : (single u).count = (.ok 1 : Except (Fault ℝ) ℕ) :=
  Tensor.count_ofNodes _

theorem flat_single (u : ℝ) : (single u).flat = .ofFn ![u] := rfl

theorem dynamics_eq (x a : Tensor ℝ) (s : ℝ) :
    brittle.dynamics x a (.number (.real s)) =
      if s < 0 then .error .divisionByZero else .ok (.ofFn ![0]) := rfl

theorem controlGradient_eq (x l : Tensor ℝ) (u s : ℝ) :
    brittle.controlGradient x (.ofFn ![u]) l (.number (.real s)) =
      if 1 < u then .error .divisionByZero else .ok (.ofFn ![u - s * (s + 1)]) := rfl

theorem control_eq (u : ℝ) : brittle.control (.ofFn ![u]) = .ok (.ofFn ![u]) := rfl

/-! ### Trajectories -/

section Trajectories

open Model

variable {s : ℝ}

theorem nodeTime_first (s δ : ℝ) :
    nodeTime (.number (.real s)) (.number (.real δ)) 0 = .ok (.number (.real s)) := by
  rw [nodeTime_real, Nat.cast_zero, zero_mul, add_zero]

theorem driftAt_eq (s δ u : ℝ) (x : Tensor ℝ) :
    brittle.driftAt (.number (.real s)) (.number (.real δ)) (single u) 0 x =
      if s < 0 then .error .divisionByZero else .ok (.ofFn ![0]) := by
  rw [driftAt, nodeTime_first, ok_bind, item_single, ok_bind, stateIncrement, control_eq, ok_bind,
    dynamics_eq]
  split
  · rfl
  · rw [ok_bind, Tensor.scaleBy_real, Tensor.scale_ofFn, Matrix.smul_cons, smul_zero,
      Matrix.smul_empty]

/-- From time zero on the trajectory that rests has no defects, whatever the action. -/
theorem linked (hs : 0 ≤ s) (δ u : ℝ) :
    brittle.Linked (.number (.real s)) (.number (.real δ)) (single u) 1 ![0] (fun _ => ![0])
      (fun _ => ![0]) (fun _ => ![0]) (fun _ => ![0]) where
  steps i hi := by
    obtain rfl := Nat.lt_one_iff.1 hi
    refine ⟨![0], ?_, by simp [seen]⟩
    rw [Spreads, driftAt_eq, if_neg (not_lt.2 hs), ok_bind, Tensor.spread_ofFn]
  ends := by
    have hfinal (t : Datum ℝ) : brittle.terminalGradient (.ofFn ![0]) t = .ok (.ofFn ![0]) := rfl
    refine ⟨![0], ?_, by simp⟩
    rw [Spreads, finalAt, nodeTime_real, ok_bind, hfinal, ok_bind, Tensor.spread_ofFn]
  pulls i hi h0 := absurd hi (Nat.not_lt.2 h0)

theorem pulls_first (s δ u : ℝ) :
    brittle.Pulls (.number (.real s)) (.number (.real δ)) (single u) 0 ![0] ![0] ![0] 0 := by
  have hgradient (x a l : Tensor ℝ) (t : Datum ℝ) :
      brittle.stateGradient x a l t = .ok (.ofFn ![0]) := rfl
  refine ⟨![0], ?_, by simp⟩
  rw [Spreads, pullAt, nodeTime_first, ok_bind, item_single, ok_bind, costateIncrement, hgradient,
    ok_bind, Tensor.scaleBy_real, Tensor.scale_ofFn, ok_bind, Matrix.smul_cons, smul_zero,
    Matrix.smul_empty, Tensor.spread_ofFn]

/-- There is room for the nodes of a horizon of one step. -/
theorem room : Tensor.checkRoom [((1 : ℕ) : ℤ) + 1, ((1 : ℕ) : ℤ)] =
    (.ok () : Except (Fault ℝ) Unit) := Room.of_le_two one_le_two

theorem condense_eq (hs : 0 ≤ s) (δ u : ℝ) :
    brittle.condense (.number (.real s)) (.ofFn ![0]) (single u) (.number (.real δ))
      (some flawless) = .ok resting :=
  (condense_eq_ok_iff (Tensor.count_ofNodes _)).2
    ⟨room, _, _, rfl, linked hs δ u, fun _ => pulls_first s δ u, rfl⟩

theorem shootingDefects_eq (hs : 0 ≤ s) (δ u : ℝ) :
    brittle.shootingDefects (.number (.real s)) (.ofFn ![0]) (single u) resting
      (.number (.real δ)) = .ok flawless :=
  (shootingDefects_eq_ok_iff (Tensor.count_ofNodes _)).2
    ⟨room, _, _, by simp, fun _ => by simp, linked hs δ u, rfl⟩

/-- Before time zero no trajectory is shot. -/
theorem condense_eq_error (hs : s < 0) (δ u : ℝ) :
    brittle.condense (.number (.real s)) (.ofFn ![0]) (single u) (.number (.real δ)) none =
      .error .divisionByZero := by
  have hstep : brittle.nextState (.number (.real s)) (.number (.real δ)) (single u).path none 0
      (Tensor.nodeRow ![0]) = .error .divisionByZero := by
    have hdrift := driftAt_eq s δ u (.ofFn ![0])
    rw [driftAt, nodeTime_first, ok_bind, item_single, ok_bind, if_pos hs] at hdrift
    rw [nextState, nodeTime_first, ok_bind, Path.node_path, item_single, ok_bind,
      Tensor.val_nodeRow, hdrift]
    rfl
  have hcount : (Tensor.ofFn (![0] : Fin 1 → ℝ)).count = (.ok 1 : Except (Fault ℝ) ℕ) := rfl
  rw [condense, shootStates, count_single, ok_bind, hcount, ok_bind, room, ok_bind,
    Tensor.spread_ofFn, ok_bind, Option.map_none, Option.map_none]
  dsimp only
  rw [Recurrence.run_eq_error Nat.one_pos hstep]
  rfl

theorem stationarityAt_eq (s δ u : ℝ) :
    brittle.stationarityAt (.number (.real s)) (.ofFn ![0]) (single u).path resting.states.path
        resting.costates.path (.number (.real δ)) 0 =
      if 1 < u then .error .divisionByZero else .ok (.ofFn ![u - s * (s + 1)]) := by
  rw [stationarityAt, stateAt, if_pos rfl, ok_bind, Path.node_path, item_single, Path.node_path,
    resting, Tensor.item_ofNodes _ Nat.one_lt_two, nodeTime_first]
  simp only [ok_bind]
  exact controlGradient_eq _ _ u s

theorem stationarity_eq {u : ℝ} (hu : ¬1 < u) (s δ : ℝ) :
    brittle.stationarity (.number (.real s)) (.ofFn ![0]) (single u) resting
      (.number (.real δ)) = .ok (single (u - s * (s + 1))) := by
  refine stationarity_eq_ofNodes fun i hi => ?_
  obtain rfl := Nat.lt_one_iff.1 hi
  have h := stationarityAt_eq s δ u
  rw [if_neg hu, single] at h
  rw [h, ok_bind, Tensor.spread_ofFn]

theorem stationarity_eq_error {u : ℝ} (hu : 1 < u) (s δ : ℝ) :
    brittle.stationarity (.number (.real s)) (.ofFn ![0]) (single u) resting
      (.number (.real δ)) = .error .divisionByZero := by
  have hfirst := stationarityAt_eq s δ u
  rw [if_pos hu] at hfirst
  rw [stationarity, count_single, ok_bind]
  dsimp only
  rw [Recurrence.collect_eq_error Nat.one_pos (e := .divisionByZero), error_bind]
  rw [hfirst, error_bind]

end Trajectories

/-! ### The system of the step from the start -/

section System

open Continuation Stateful

theorem step_eq {t : ℝ} (ht : 0 ≤ t) :
    (brittleController.horizon (.number (.real 0))).step (.number (.real t)) = .ok 1 := by
  have h : (unitController.horizon (.number (.real 0))).step (.number (.real t)) = _ :=
    Horizon.step_of_scalar serves_unitController.horizonLength serves_unitController.growthRate rfl
      rfl ht
  rw [show unitController.divisions = 1 from rfl, if_neg Nat.one_ne_zero, Horizon.reach_zero,
    Nat.cast_one, div_one] at h
  exact h

theorem residual_eq :
    (brittleController.problem (.number (.real 0))).residual (.number (.real 0)) (.ofFn ![0])
      (single 0) resting = .ok ⟨single 0, flawless⟩ := by
  have hstep : (brittleController.problem (.number (.real 0))).horizon.step (.number (.real 0)) =
      .ok 1 := step_eq le_rfl
  have hF := stationarity_eq (not_lt.2 (zero_le_one (α := ℝ))) 0 1
  have hD := shootingDefects_eq (le_refl (0 : ℝ)) 1 0
  rw [zero_mul, sub_zero] at hF
  rw [Problem.residual, hstep, ok_bind]
  show (brittle.stationarity _ _ _ _ _ >>= fun F => brittle.shootingDefects _ _ _ _ _ >>= _) = _
  rw [hF, ok_bind, hD, ok_bind]
  rfl

/-- At time one, and without defects, the stationarity of the brittle model is the distance of the
action to two, if the action is no larger than one. -/
theorem condensedStationarity_eq (u : ℝ) :
    (brittleController.problem (.number (.real 0))).condensedStationarity (.number (.real 1))
        (.ofFn ![0]) (single u) (some flawless) =
      if 1 < u then .error .divisionByZero else .ok (single (u - 2), resting) := by
  have hstep : (brittleController.problem (.number (.real 0))).horizon.step (.number (.real 1)) =
      .ok 1 := step_eq zero_le_one
  rw [Problem.condensedStationarity, hstep, ok_bind]
  show (brittle.condense _ _ _ _ _ >>= fun p => brittle.stationarity _ _ _ _ _ >>= _) = _
  rw [condense_eq zero_le_one 1 u, ok_bind]
  by_cases hu : 1 < u
  · rw [stationarity_eq_error hu 1 1, if_pos hu]
    rfl
  · rw [stationarity_eq hu 1 1, if_neg hu, show u - 1 * (1 + 1) = u - 2 by norm_num]
    rfl

/-- The linear system of a step of the brittle controller at time zero. -/
noncomputable def system : Continuation ℝ := brittleController.continuation (.number (.real 0))

/-- The linear system of the brittle controller is on one step with one action, with differences of
step one and rate of decay one. -/
theorem scaled_system : system.Scaled 1 1 1 1 :=
  { (serves_unitController.replies_continuation (.number (.real 0))).toScaled with
    actionDim := rfl }

theorem unflatten_eq (u : ℝ) : system.unflatten (.ofFn ![u]) = .ok (single u) := by
  rw [← flat_single, single, Tensor.flat_ofNodes]
  exact unflatten_flat scaled_system _

theorem moved_eq (u v : ℝ) : system.moved (single u) (single v) = .ok (single (u + v)) := by
  have h : system.moved (single u) (single v) = _ :=
    Continuation.moved_eq scaled_system (fun _ => ![u]) (fun _ => ![v])
  rw [h]
  refine congrArg (fun s => Except.ok (Tensor.ofNodes 1 s)) (funext fun i => ?_)
  show ![u] + (1 : ℝ) • ![v] = ![u + v]
  simp

/-- The memory of the brittle controller once the point is set. -/
noncomputable def placed (μ : Memory ℝ) : Memory ℝ :=
  { μ with
    trajectory := some resting
    time := .number (.real 1)
    state := some (.ofFn ![0]) }

/-- The memory of the brittle controller once the residual has been asked for, where the
stationarity ahead is `f`. -/
noncomputable def asked (f : ℝ) : Memory ℝ where
  trajectory := some resting
  time := .number (.real 1)
  state := some (.ofFn ![0])
  defects := some flawless
  stationarity := some (single f)

theorem runOn_prepare (μ : Memory ℝ) :
    (system.prepare (.number (.real 0)) (.ofFn ![0]) (single 0) resting).runOn μ =
      (.ok (), placed μ) := by
  have htime : (Datum.number (.real (0 : ℝ))).plus system.differenceStep = .ok (.real 1) := by
    have h := plus_differenceStep scaled_system 0
    rw [zero_add] at h
    exact h
  have hcontrol : system.problem.model.control (.ofFn ![0]) = .ok (.ofFn ![0]) := control_eq 0
  have hrate : system.problem.model.dynamics (.ofFn ![0]) (.ofFn ![0]) (.number (.real 0)) =
      .ok (.ofFn ![0]) := (dynamics_eq _ _ 0).trans (if_neg (by norm_num))
  have hscaled : (Tensor.ofFn ![0]).scaleBy system.differenceStep = .ok (.ofFn ![(0 : ℝ)]) := by
    have h : (Tensor.ofFn (![0] : Fin 1 → ℝ)).scaleBy system.differenceStep = _ :=
      Tensor.scaleBy_of_scalar _ scaled_system.differenceStep
    rw [h, Tensor.scale_ofFn, one_smul]
  simp only [prepare, runOn_bind, runOn_modify, runOn_liftM, htime, count_single]
  rw [if_neg one_ne_zero]
  simp only [runOn_bind, runOn_modify, runOn_liftM, item_single, hcontrol, hrate, hscaled,
    Tensor.plus_ofFn]
  simp [placed]

theorem aheadFrom_eq {μ : Memory ℝ} (htime : μ.time = .number (.real 1))
    (hstate : μ.state = some (.ofFn ![0])) (hdefects : μ.defects = some flawless) (u : ℝ) :
    system.aheadFrom μ (single u) =
      if 1 < u then .error .divisionByZero else .ok (single (u - 2), resting) := by
  rw [aheadFrom, hstate, hdefects, htime]
  exact condensedStationarity_eq u

/-- The residual of the brittle controller without a guess is two. -/
theorem runOn_residual (μ : Memory ℝ) :
    (system.residual (.number (.real 0)) (.ofFn ![0]) (.ofFn ![0]) (.ofFn ![0])).runOn (placed μ) =
      (.ok (.ofFn ![2]), asked (-2)) := by
  have hdecayed : system.decayed = .ok (.number (.real 0)) := by
    have h := decayed_eq scaled_system
    rw [one_mul, sub_self] at h
    exact h
  have hscaled : flawless.scaled (.number (.real 0)) = .ok flawless := by
    have hzero : (0 : ℝ) • (fun _ : ℕ => (![0] : Fin 1 → ℝ)) = fun _ => ![0] := by
      funext i
      show (0 : ℝ) • ![(0 : ℝ)] = ![0]
      rw [Matrix.smul_cons, smul_zero, Matrix.smul_empty]
    rw [flawless, scaled_eq, hzero]
  have hunguessed : system.unguessed (single 0) (single (-2)) = .ok (single 2) := by
    have h : system.unguessed (single 0) (single (-2)) = _ :=
      unguessed_eq scaled_system (fun _ => ![0]) (fun _ => ![-2])
    rw [h]
    refine congrArg (fun s => Except.ok (Tensor.ofNodes 1 s)) (funext fun i => ?_)
    show ((1 : ℝ)⁻¹ - 1) • ![0] - (1 : ℝ)⁻¹ • ![-2] = (![2] : Fin 1 → ℝ)
    simp
  have hresidual : system.problem.residual (.number (.real 0)) (.ofFn ![0]) (single 0) resting =
      .ok ⟨single 0, flawless⟩ := residual_eq
  have hahead := aheadFrom_eq (μ := { placed μ with defects := some flawless }) rfl rfl rfl 0
  rw [if_neg (by norm_num), zero_sub] at hahead
  have hzero : (Tensor.ofFn (![0] : Fin 1 → ℝ)).isZero = true := Tensor.isZero_ofFn.2 (by simp)
  simp only [placed] at hahead ⊢
  simp only [Continuation.residual, runOn_bind, runOn_get, runOn_needed, runOn_liftM, runOn_modify,
    unflatten_eq, hresidual, hdecayed, hscaled, runOn_ahead, hahead]
  rw [if_pos hzero]
  simp only [runOn_bind, runOn_liftM, hunguessed, flat_single]
  rfl

theorem runOn_image :
    (system.image (.ofFn ![0]) (.ofFn ![1])).runOn (asked (-2)) =
      (.ok (.ofFn ![1]), asked (-2)) := by
  have hahead := aheadFrom_eq (μ := asked (-2)) rfl rfl rfl 1
  rw [if_neg (by norm_num)] at hahead
  have hchange : (single (1 - 2)).minus (single (-2)) = .ok (single 1) := by
    rw [single, single, Tensor.minus_ofNodes]
    refine congrArg (fun s => Except.ok (Tensor.ofNodes 1 s)) (funext fun i => ?_)
    show ![1 - 2] - ![-2] = (![1] : Fin 1 → ℝ)
    simp
  have hquotient : (single 1).divideBy system.differenceStep = .ok (single 1) := by
    have h : (single 1).divideBy system.differenceStep = _ :=
      divideBy_eq scaled_system (K := 1) (fun _ => ![1])
    rw [h]
    refine congrArg (fun s => Except.ok (Tensor.ofNodes 1 s)) (funext fun i => ?_)
    show (1 : ℝ)⁻¹ • ![1] = (![1] : Fin 1 → ℝ)
    simp
  have hstationarity : (asked (-2)).stationarity = some (single (-2)) := rfl
  simp only [Continuation.image, runOn_bind, runOn_get, runOn_needed, hstationarity, runOn_liftM,
    unflatten_eq, moved_eq, zero_add, runOn_ahead, hahead, hchange, hquotient, flat_single]
  rfl

/-- The linear system of the brittle controller is solved by the direction two. -/
theorem exists_solve (w : Krylov.Workspace ℝ) (μ : Memory ℝ) :
    ∃ outcome w', (brittleController.solver.solve
        (system.linearized (.number (.real 0)) (.ofFn ![0]) (.ofFn ![0])) (some (.ofFn ![0])) w).run
          (placed μ) = ((.ok outcome, w'), asked (-2)) ∧ outcome.solution = .ofFn ![2] := by
  have hzero : (![0] : Fin 1 → ℝ) = 0 := by simp
  have hnorm : √((![2] : Fin 1 → ℝ) ⬝ᵥ ![2]) = 2 := by
    rw [show (![2] : Fin 1 → ℝ) ⬝ᵥ ![2] = 2 ^ 2 by simp; norm_num]
    exact Real.sqrt_sq (by norm_num)
  have hunit : (2 : ℝ)⁻¹ • ![2] = (![1] : Fin 1 → ℝ) := by simp
  have h : ∃ outcome w', (brittleController.solver.solve
      (system.linearized (.number (.real 0)) (.ofFn ![0]) (.ofFn ![0]))
        (some (.ofFn (0 : Fin 1 → ℝ))) w).run (placed μ) =
          ((.ok outcome, w'), asked (-2)) ∧ outcome.solution = .ofFn ![2] :=
    Krylov.Solver.solve_of_fixed (d := 1) rfl Nat.one_pos
      (by rw [← hzero]; exact runOn_residual μ) hnorm
      (not_lt.2 (tiny_le_one.trans (by norm_num))) (by rw [hunit]; exact runOn_image) w
  rw [← hzero] at h
  exact h

end System

/-! ### Its calls -/

open Controller Stateful

variable {t : ℝ} {state : State ℝ}

theorem checkState_eq :
    brittleController.checkState (.ofTensor (.ofFn ![0])) = .ok (.ofFn ![0]) := by
  rw [checkState, Datum.tensor_ofTensor_ofFn, ok_bind]
  rfl

/-- At time zero, and one unit of time before, no action is to be taken. -/
theorem search_eq (ht : t * (t + 1) = 0) (hparams : state.params = none) :
    brittleController.search (.number (.real t)) (.ofTensor (.ofFn ![0])) state =
      .ok (.ofFn ![0], ⟨.ofFn ![0], 0, 0⟩) := by
  have hchosen : brittleController.chosenParams state = .ok unitParams :=
    chosenParams_of_dim rfl rfl hparams
  have hzero : (![0] : Fin 1 → ℝ) = 0 := by simp
  have hgradient : brittle.controlGradient (.ofFn ![0]) (.ofFn (0 : Fin 1 → ℝ)) (.ofFn ![0])
      (.number (.real t)) = .ok (.ofFn (0 : Fin 1 → ℝ)) := by
    have h := controlGradient_eq (.ofFn ![0]) (.ofFn ![0]) 0 t
    rw [if_neg (by norm_num), ht, sub_zero, hzero] at h
    rw [hzero]
    exact h
  have hsolve : Newton.solve brittleController.model (.number (.real t)) (.ofFn ![0]) unitParams
      (.number (.whole brittleController.divisions)) = .ok ⟨.ofFn ![0], 0, 0⟩ := by
    have h : Newton.solve brittle (.number (.real t)) (.ofFn ![0]) unitParams _ = _ :=
      solve_unitParams rfl rfl hgradient
    rw [← hzero] at h
    exact h
  rw [search, checkState_eq, ok_bind, hchosen, ok_bind, hsolve]
  rfl

theorem shoot_eq :
    brittleController.shoot (.number (.real t)) (.ofFn ![0]) (.ofFn ![0]) =
      if t < 0 then .error .divisionByZero else .ok resting := by
  have hstep : (brittleController.horizon (.number (.real t))).step (.number (.real t)) =
      .ok 1 := by
    have h := Controller.step_start serves_unitController Nat.one_pos t
    rw [Horizon.reach_zero, show ((unitController.divisions : ℕ) : ℝ) = 1 from Nat.cast_one,
      div_one] at h
    exact h
  have hreplicate : (Tensor.ofFn ![0]).replicate brittleController.divisions = single 0 :=
    Tensor.replicate_ofFn ![0]
  rw [shoot, hstep, ok_bind, hreplicate]
  by_cases ht : t < 0
  · rw [if_pos ht]
    exact condense_eq_error ht 1 0
  · have hnone : brittle.condense (.number (.real t)) (.ofFn ![0]) (single 0) (.number (.real 1))
        none = _ :=
      Model.condense_none (Tensor.shape_ofFn ![0]) (count_single 0)
    have hzeros : (Tensor.zeros [1 + 1, 1] : Tensor ℝ) = .ofNodes 2 fun _ => ![0] := by
      rw [Tensor.zeros_eq_ofNodes]
      rfl
    rw [hzeros] at hnone
    rw [if_neg ht]
    exact hnone.trans (condense_eq (not_lt.1 ht) 1 0)

/-- The state of the brittle controller once it has been seeded at time zero. -/
noncomputable def seeded : State ℝ :=
  { brittleController.planted brittleController.blank (.number (.real 0)) (.ofFn ![0]) with
    trajectory := .pure resting
    initialized := true }

theorem reachable_seeded : brittleController.Reachable seeded := by
  have hseed : (brittleController.seed (.number (.real 0)) (.ofTensor (.ofFn ![0]))).runOn
      brittleController.blank = (.ok (.ofFn ![0]), seeded) := by
    rw [runOn_seed, search_eq (by norm_num) rfl]
    dsimp only
    rw [shoot_eq, if_neg (by norm_num)]
    rfl
  refine ⟨[.seed (.number (.real 0)) (.ofTensor (.ofFn ![0]))], ?_⟩
  simp only [performAll, perform, runOn_map, hseed]

/-- Seeded anew one unit of time before its start, the brittle controller fails with the action
planted. -/
theorem runOn_seed_seeded :
    (brittleController.seed (.number (.real (-1))) (.ofTensor (.ofFn ![0]))).runOn seeded =
      (.error .divisionByZero,
        brittleController.planted seeded (.number (.real (-1))) (.ofFn ![0])) := by
  rw [runOn_seed, search_eq (by norm_num) rfl]
  dsimp only
  rw [shoot_eq, if_pos (by norm_num)]

/-- A step of the seeded brittle controller fails with the direction it has solved for. -/
theorem runOn_update_seeded :
    ∃ outcome w, (brittleController.update (.number (.real 0)) 1 (.ofTensor (.ofFn ![0]))).runOn
        seeded = (.error .divisionByZero, directed seeded w (asked (-2)) outcome (single 2)) := by
  have hactions : seeded.actions.get = single 0 := Tensor.replicate_ofFn ![0]
  have hadmitted : brittleController.admitted 1 (.ofTensor (.ofFn ![0])) seeded =
      .ok (.ofFn ![0]) :=
    checkState_eq
  obtain ⟨outcome, w, hsolve, hsolution⟩ := exists_solve seeded.workspace seeded.memory
  have hsolved : brittleController.solved (.number (.real 0)) (.ofFn ![0]) seeded =
      ((.ok outcome, w), asked (-2)) := by
    have hprepare : ((brittleController.continuation seeded.start).prepare (.number (.real 0))
        (.ofFn ![0]) (single 0) seeded.trajectory.get).runOn seeded.memory = _ :=
      runOn_prepare seeded.memory
    have hguess : seeded.direction.get.flat = .ofFn ![0] := rfl
    rw [solved, hactions, hprepare]
    dsimp only
    rw [flat_single, hguess]
    exact hsolve
  have hdirection : (brittleController.continuation seeded.start).unflatten outcome.solution =
      .ok (single 2) := by
    rw [hsolution]
    exact unflatten_eq 2
  have hrate : (brittleController.continuation seeded.start).rateFrom (asked (-2))
      seeded.actions.get (single 2) = .error .divisionByZero := by
    have hmoved : (brittleController.continuation seeded.start).moved (single 0) (single 2) = _ :=
      moved_eq 0 2
    have hahead : (brittleController.continuation seeded.start).aheadFrom (asked (-2))
        (single (0 + 2)) = _ := aheadFrom_eq rfl rfl rfl (0 + 2)
    rw [if_pos (by norm_num)] at hahead
    rw [hactions, Continuation.rateFrom, asked]
    dsimp only
    rw [hmoved, ok_bind, ← asked, hahead]
    rfl
  refine ⟨outcome, w, ?_⟩
  rw [runOn_update, hadmitted]
  dsimp only
  rw [runOn_bind, runOn_rates_of_ok hsolved hdirection, hrate]
  rfl

end brittle

open brittle Controller in
/-- What the two failing calls leave of what has been seeded. -/
theorem brittleController_failure_keeps :
    ∃ planted updated,
      (brittleController.seed (.number (.real (-1))) (.ofTensor (.ofFn ![0]))).runOn seeded =
        (.error .divisionByZero, planted) ∧
      (brittleController.update (.number (.real 0)) 1 (.ofTensor (.ofFn ![0]))).runOn seeded =
        (.error .divisionByZero, updated) ∧
      ((planted.trajectory = seeded.trajectory ∧ planted.outcome = seeded.outcome ∧
          planted.initialized = seeded.initialized ∧ planted.params = seeded.params) ∧
        (planted = seeded ∨ ∃ x found,
          brittleController.search (.number (.real (-1))) (.ofTensor (.ofFn ![0])) seeded =
            .ok (x, found) ∧
          brittleController.shoot (.number (.real (-1))) x found.action = .error .divisionByZero ∧
          planted.start = .number (.real (-1)) ∧
          planted.actions.get = found.action.replicate brittleController.divisions ∧
          planted.direction.get = brittleController.still)) ∧
      ((∃ x answer answered,
          brittleController.admitted 1 (.ofTensor (.ofFn ![0])) seeded = .ok x ∧
          (brittleController.rates (.number (.real 0)) x).runOn seeded = (.ok answer, answered) ∧
          (brittleController.follow 1 answer).runOn answered =
            (.error .divisionByZero, updated)) ∨
        (updated.start = seeded.start ∧ updated.actions = seeded.actions ∧
          updated.trajectory = seeded.trajectory ∧ updated.initialized = seeded.initialized ∧
          updated.params = seeded.params) ∧
        ((updated.outcome = seeded.outcome ∧ updated.direction = seeded.direction) ∨
          ∃ x outcome w memory direction,
            brittleController.admitted 1 (.ofTensor (.ofFn ![0])) seeded = .ok x ∧
            brittleController.solved (.number (.real 0)) x seeded = ((.ok outcome, w), memory) ∧
            (brittleController.continuation seeded.start).unflatten outcome.solution =
              .ok direction ∧
            (brittleController.continuation seeded.start).rateFrom memory seeded.actions.get
              direction = .error .divisionByZero ∧
            updated.outcome = some outcome ∧ updated.direction.get = direction)) := by
  obtain ⟨outcome, w, hupdate⟩ := runOn_update_seeded
  obtain ⟨hseed, hstep⟩ := failure_keeps check_unitSettings ofSettings_brittle reachable_seeded
  exact ⟨_, _, runOn_seed_seeded, hupdate, hseed runOn_seed_seeded, hstep hupdate⟩

open brittle in
/-- Where a model breaks, the controller need not be as it was.  Once it has been seeded, and is
seeded anew at an earlier time, the dynamics breaks, and the horizon starts there from then on.  In
a step at time zero the control gradient breaks at the direction that was solved for, and outcome
and direction are new. -/
theorem brittleController_interrupted :
    ∃ state planted updated : Controller.State ℝ, brittleController.Reachable state ∧
      state.initialized = true ∧
      (brittleController.seed (.number (.real (-1))) (.ofTensor (.ofFn ![0]))).runOn state =
        (.error .divisionByZero, planted) ∧
      planted.start ≠ state.start ∧
      (brittleController.update (.number (.real 0)) 1 (.ofTensor (.ofFn ![0]))).runOn state =
        (.error .divisionByZero, updated) ∧
      updated.outcome ≠ state.outcome ∧ updated.direction.get ≠ state.direction.get := by
  obtain ⟨outcome, w, hupdate⟩ := runOn_update_seeded
  refine ⟨seeded, _, _, reachable_seeded, rfl, runOn_seed_seeded, fun h => ?_, hupdate, fun h => ?_,
    fun h => ?_⟩
  · have h : (Datum.number (.real (-1)) : Datum ℝ) = .number (.real 0) := h
    simp at h
  · cases h
  · have h : (single 2).flat = seeded.direction.get.flat := congrArg Tensor.flat h
    have h : Tensor.ofFn ![(2 : ℝ)] = .ofFn ![0] := h
    have h := congrFun (Tensor.ofFn_injective h) 0
    norm_num at h

end RecedingHorizon

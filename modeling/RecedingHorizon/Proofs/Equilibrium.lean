import Mathlib
import RecedingHorizon.Controller.Operation
import RecedingHorizon.Proofs.Accepted
import RecedingHorizon.Proofs.Controller
import RecedingHorizon.Proofs.Start

/-!
# Equilibria

A model *rests* where nothing moves it and nothing is to be gained: the dynamics is zero there, the
costate is that of the end of the horizon and is not pulled back, and the control gradient is zero.
A controller that is seeded at rest stays there.  This takes no property of the model anywhere
else, where it may be any four functions and may fail.

Every node of the trajectory is the state and costate at rest, whatever the length of a step, so
that the horizon may grow as it likes.  The residual has no defects and no stationarity.  The
residual of the linear system is then exactly zero, and the solve is over before it asks for an
image: its answer is the guess it starts from, the direction of the step before, which is zero.

* `Model.Rests`: the equilibrium; `Rests.linked`: every trajectory that stays there is shot.
* `Problem.residual_of_rests`, `Problem.condensedStationarity_of_rests`: what is found there.
* `Controller.IsAtRest`: what a controller carries there, and `update_of_isAtRest`: a step.
* `Controller.performAll_of_rests`: a run of any length.
* `Regulator.rests`: the reference of a regulator that needs no control to stay.
-/

namespace RecedingHorizon

open scoped Matrix

variable {n m c N : ℕ}

/-- The model rests at the state `x`, the action `u` and the costate `l`, at any time. -/
structure Model.Rests (model : Model ℝ) (x : Fin n → ℝ) (u : Fin (m + c) → ℝ) (l : Fin n → ℝ) :
    Prop where
  stateDim : model.stateDim = n
  controlDim : model.controlDim = m
  constraintDim : model.constraintDim = c
  dynamics (t : ℝ) :
    model.dynamics (.ofFn x) (.ofFn (RecedingHorizon.control u)) t = .ok (.ofFn (0 : Fin n → ℝ))
  terminalGradient (t : ℝ) : model.terminalGradient (.ofFn x) t = .ok (.ofFn l)
  stateGradient (t : ℝ) :
    model.stateGradient (.ofFn x) (.ofFn u) (.ofFn l) t = .ok (.ofFn (0 : Fin n → ℝ))
  controlGradient (t : ℝ) :
    model.controlGradient (.ofFn x) (.ofFn u) (.ofFn l) t = .ok (.ofFn (0 : Fin (m + c) → ℝ))

/-- No defects at all. -/
def Defects.flawless (N n : ℕ) : Defects ℝ :=
  ⟨.ofNodes (N + 1) (0 : ℕ → Fin n → ℝ), .ofNodes (N + 1) (0 : ℕ → Fin n → ℝ)⟩

/-! ## Trajectories -/

namespace Model.Rests

variable {model : Model ℝ} {x l : Fin n → ℝ} {u : Fin (m + c) → ℝ}

theorem actionDim (hm : model.Rests x u l) : model.actionDim = (m + c : ℕ) := by
  rw [Model.actionDim, hm.controlDim, hm.constraintDim, Nat.cast_add]

/-- Steps of any length link the nodes of a trajectory that stays at rest, without defects. -/
theorem linked (hm : model.Rests x u l) (t δ : ℝ) :
    model.Linked t δ (.ofNodes N fun _ => u) N x (fun _ => x) (fun _ => l) 0 0 ∧
      (0 < N → model.Pulls t δ (.ofNodes N fun _ => u) 0 x l l 0) := by
  have hzero {found : Except (Fault ℝ) (Tensor ℝ)} (h : found = .ok (.ofFn (0 : Fin n → ℝ))) :
      Spreads found (0 : Fin n → ℝ) := by
    rw [Spreads, h, ok_bind, Tensor.spread_ofFn]
  have hpulls {i : ℕ} (hi : i < N) : model.Pulls t δ (.ofNodes N fun _ => u) i x l l 0 := by
    refine ⟨0, hzero ?_, by rw [add_zero, add_zero]⟩
    rw [pullAt, nodeTime_real, ok_bind, Tensor.item_ofNodes _ hi, ok_bind, costateIncrement,
      hm.stateGradient, ok_bind, Tensor.scaleBy_real, Tensor.scale_ofFn, smul_zero]
  refine ⟨⟨fun i hi => ⟨0, hzero ?_, ?_⟩, ⟨l, ?_, by rw [Pi.zero_apply, add_zero]⟩,
    fun i hi _ => hpulls hi⟩, hpulls⟩
  · have hseen : seen x (fun _ => x) i = x := ite_self x
    rw [hseen, driftAt, nodeTime_real, ok_bind, Tensor.item_ofNodes _ hi, ok_bind, stateIncrement,
      Model.control_ofFn hm.controlDim, ok_bind, hm.dynamics, ok_bind, Tensor.scaleBy_real,
      Tensor.scale_ofFn, smul_zero]
  · have hseen : seen x (fun _ => x) i = x := ite_self x
    rw [hseen, Pi.zero_apply, add_zero, add_zero]
  · rw [Spreads, finalAt, nodeTime_real, ok_bind, hm.terminalGradient, ok_bind, Tensor.spread_ofFn]

/-- The trajectory that is shot at rest stays at rest. -/
theorem condense_eq (hm : model.Rests x u l) (hroom : Room N n) (t δ : ℝ) :
    model.condense t (.ofFn x) (.ofNodes N fun _ => u) δ
        (some (.flawless N n)) =
      .ok ⟨.ofNodes (N + 1) fun _ => x, .ofNodes (N + 1) fun _ => l⟩ := by
  obtain ⟨hlinked, hfirst⟩ := hm.linked (N := N) t δ
  exact (condense_eq_ok_iff (Tensor.count_ofNodes _)).2
    ⟨hroom, fun _ => x, fun _ => l, rfl, hlinked, hfirst, rfl⟩

theorem shootingDefects_eq (hm : model.Rests x u l) (hroom : Room N n) (t δ : ℝ) :
    model.shootingDefects t (.ofFn x) (.ofNodes N fun _ => u)
        ⟨.ofNodes (N + 1) fun _ => x, .ofNodes (N + 1) fun _ => l⟩ δ =
      .ok (.flawless N n) :=
  (shootingDefects_eq_ok_iff (Tensor.count_ofNodes _)).2
    ⟨hroom, 0, 0, rfl, fun _ => rfl, (hm.linked t δ).1, rfl⟩

/-- At rest the stationarity is zero. -/
theorem stationarity_eq (hm : model.Rests x u l) (t δ : ℝ) :
    model.stationarity t (.ofFn x) (.ofNodes N fun _ => u)
        ⟨.ofNodes (N + 1) fun _ => x, .ofNodes (N + 1) fun _ => l⟩ δ =
      .ok (.ofNodes N (0 : ℕ → Fin (m + c) → ℝ)) := by
  refine stationarity_eq_ofNodes fun i hi => ?_
  have hseen : seen x (fun _ => x) i = x := ite_self x
  rw [stationarityAt, stateAt_eq x hi.le, hseen, Path.node_path, Tensor.item_ofNodes _ hi,
    Path.node_path, Tensor.item_ofNodes _ (Nat.succ_lt_succ hi), nodeTime_real]
  simp only [ok_bind]
  rw [hm.controlGradient, ok_bind, Tensor.spread_ofFn]
  rfl

end Model.Rests

/-! ## On a horizon -/

namespace Problem

variable {problem : Problem ℝ} {x l : Fin n → ℝ} {u : Fin (m + c) → ℝ} {t δ : ℝ}

/-- A trajectory that stays at rest has no residual. -/
theorem residual_of_rests (hm : problem.model.Rests x u l) (hroom : Room N n)
    (hstep : problem.horizon.step t = .ok δ) :
    problem.residual t (.ofFn x) (.ofNodes N fun _ => u)
        ⟨.ofNodes (N + 1) fun _ => x, .ofNodes (N + 1) fun _ => l⟩ =
      .ok ⟨.ofNodes N (0 : ℕ → Fin (m + c) → ℝ), .ofNodes (N + 1) (0 : ℕ → Fin n → ℝ),
        .ofNodes (N + 1) (0 : ℕ → Fin n → ℝ)⟩ := by
  rw [residual, hstep, ok_bind]
  dsimp only
  rw [hm.stationarity_eq, ok_bind, hm.shootingDefects_eq hroom]
  rfl

/-- Shot under no defects at any time, the trajectory is the one at rest, and the stationarity is
zero. -/
theorem condensedStationarity_of_rests (hm : problem.model.Rests x u l) (hroom : Room N n)
    (hstep : problem.horizon.step t = .ok δ) :
    problem.condensedStationarity t (.ofFn x) (.ofNodes N fun _ => u)
        (some (.flawless N n)) =
      .ok (.ofNodes N (0 : ℕ → Fin (m + c) → ℝ),
        ⟨.ofNodes (N + 1) fun _ => x, .ofNodes (N + 1) fun _ => l⟩) := by
  rw [condensedStationarity, hstep, ok_bind]
  dsimp only
  rw [hm.condense_eq hroom, ok_bind, hm.stationarity_eq]
  rfl

end Problem

/-! ## One continuation step -/

namespace Continuation

variable {system : Continuation ℝ} {h ζ : ℝ} {x l : Fin n → ℝ} {u : Fin (m + c) → ℝ} {t δ : ℝ}

/-- What is remembered at rest. -/
def Memory.atRest (N : ℕ) (x l : Fin n → ℝ) (t : ℝ) (defects : Option (Defects ℝ))
    (stationarity : Option (Tensor ℝ)) : Memory ℝ :=
  .of N (fun _ => x) (fun _ => l) t x defects stationarity

/-- Setting the point at rest predicts that the state stays. -/
theorem prepare_of_rests (hs : system.Scaled N (m + c) h ζ) (hm : system.problem.model.Rests x u l)
    (hN : 0 < N) (before : Memory ℝ) :
    (system.prepare t (.ofFn x) (.ofNodes N fun _ => u)
        ⟨.ofNodes (N + 1) fun _ => x, .ofNodes (N + 1) fun _ => l⟩).runOn before =
      (.ok (), .atRest N x l (t + h) before.defects before.stationarity) := by
  simp only [prepare, Stateful.runOn_bind, Stateful.runOn_modify, Stateful.runOn_liftM,
    plus_differenceStep hs, Tensor.count_ofNodes]
  rw [if_neg hN.ne']
  simp only [Stateful.runOn_bind, Stateful.runOn_modify, Stateful.runOn_liftM,
    Tensor.item_ofNodes _ hN, Model.control_ofFn hm.controlDim, hm.dynamics,
    Tensor.scaleBy_of_scalar _ hs.differenceStep, Tensor.scale_ofFn, smul_zero, Tensor.plus_ofFn,
    add_zero]
  rfl

/-- At rest the stationarity one difference step ahead is zero, and the trajectory the one at rest.
-/
theorem ahead_of_rests (hm : system.problem.model.Rests x u l) (hroom : Room N n)
    (hnext : system.problem.horizon.step t = .ok δ) (F : Option (Tensor ℝ)) :
    (system.ahead (.ofNodes N fun _ => u)).runOn (.atRest N x l t
        (some (.flawless N n)) F) =
      (.ok (.ofNodes N (0 : ℕ → Fin (m + c) → ℝ),
        ⟨.ofNodes (N + 1) fun _ => x, .ofNodes (N + 1) fun _ => l⟩), .atRest N x l t
          (some (.flawless N n))
          F) := by
  simp only [ahead, Stateful.runOn_bind, Stateful.runOn_get, Stateful.runOn_needed,
    Stateful.runOn_liftM, Memory.atRest, Memory.of]
  rw [Problem.condensedStationarity_of_rests hm hroom hnext]

/-- At rest the residual of the guess zero is zero. -/
theorem residual_of_rests (hs : system.Scaled N (m + c) h ζ)
    (hm : system.problem.model.Rests x u l) (hroom : Room N n) {δ' : ℝ}
    (hnow : system.problem.horizon.step t = .ok δ)
    (hnext : system.problem.horizon.step (t + h) = .ok δ') (D : Option (Defects ℝ))
    (F : Option (Tensor ℝ)) :
    (system.residual t (.ofFn x) (.ofFn (flatten N fun _ => u))
        (.ofFn (0 : Fin (N * (m + c)) → ℝ))).runOn (.atRest N x l (t + h) D F) =
      (.ok (.ofFn (0 : Fin (N * (m + c)) → ℝ)), .atRest N x l (t + h) (some (.flawless N n))
        (some (.ofNodes N (0 : ℕ → Fin (m + c) → ℝ)))) := by
  have hzero : (Tensor.ofFn (0 : Fin (N * (m + c)) → ℝ)).isZero = true := Tensor.isZero_ofFn.2 rfl
  have hahead := ahead_of_rests hm hroom hnext F
  simp only [Memory.atRest, Memory.of, Defects.flawless] at hahead ⊢
  simp only [residual, Stateful.runOn_bind, Stateful.runOn_get, Stateful.runOn_needed,
    Stateful.runOn_liftM, Stateful.runOn_modify, unflatten_flat hs,
    Problem.residual_of_rests hm hroom hnow, decayed_eq hs, scaled_eq, smul_zero, hahead]
  rw [if_pos hzero]
  simp only [Stateful.runOn_bind, Stateful.runOn_liftM, unguessed_eq hs, smul_zero, sub_zero,
    Tensor.flat_ofNodes]
  rfl

/-- Along the direction zero the trajectory at rest does not change. -/
theorem trajectoryRate_of_rests (hs : system.Scaled N (m + c) h ζ)
    (hm : system.problem.model.Rests x u l) (hroom : Room N n)
    (hnext : system.problem.horizon.step t = .ok δ) (F : Option (Tensor ℝ)) :
    (system.trajectoryRate (.ofNodes N fun _ => u) (.ofNodes N (0 : ℕ → Fin (m + c) → ℝ))).runOn
        (.atRest N x l t (some (.flawless N n)) F) =
      (.ok ⟨.ofNodes (N + 1) (0 : ℕ → Fin n → ℝ), .ofNodes (N + 1) (0 : ℕ → Fin n → ℝ)⟩,
        .atRest N x l t (some (.flawless N n)) F) := by
  have hahead := ahead_of_rests hm hroom hnext F
  simp only [Memory.atRest, Memory.of] at hahead ⊢
  simp only [trajectoryRate, Stateful.runOn_bind, Stateful.runOn_get, Stateful.runOn_needed,
    Stateful.runOn_liftM, moved_eq hs, smul_zero, add_zero, hahead, Tensor.minus_ofNodes, sub_self,
    divideBy_eq hs]
  rfl

end Continuation

/-! ## The calls of a controller -/

/-- The factor by which a search measures norms is found for as many copies as there can be steps.
-/
theorem Newton.exists_copyScale {k : ℕ}
    (h : Tensor.checkExtents [(N : ℤ), (k : ℤ)] = (.ok () : Except (Fault ℝ) Unit)) :
    ∃ s, copyScale (.number (.whole N) : Datum ℝ) = .ok s := by
  have hindex : Tensor.isIndex N = true :=
    Tensor.all_isIndex_of_checkExtents h N List.mem_cons_self
  have hfits : Number.fitsWord N = true := by
    rw [Tensor.isIndex, Bool.and_eq_true, decide_eq_true_eq, decide_eq_true_eq] at hindex
    rw [Number.fitsWord, Bool.and_eq_true, decide_eq_true_eq, decide_eq_true_eq]
    have hbound : Tensor.indexBound = 2 ^ 63 := rfl
    have hpow : ((Nat.pow 2 63 : ℕ) : ℤ) = 2 ^ 63 ∧ ((Nat.pow 2 64 : ℕ) : ℤ) = 2 ^ 64 := ⟨rfl, rfl⟩
    omega
  have hlt : (Datum.number (.whole N)).lt (1 : Datum ℝ) = .ok (decide ((N : ℤ) < 1)) := rfl
  rw [copyScale, Datum.atLeast, hlt, ok_bind]
  split
  · exact ⟨_, rfl⟩
  · have hoperand : (Datum.number (.whole N) : Datum ℝ).operand = .ok ((N : ℤ) : ℝ) := by
      rw [Datum.operand_number, Number.operand, if_pos hfits]
    rw [pure_eq_ok, ok_bind, hoperand]
    exact ⟨_, rfl⟩

namespace Controller

variable {controller : Controller ℝ} {state : State ℝ} {h ζ T a t₀ t : ℝ}
variable {x l : Fin n → ℝ} {u : Fin (m + c) → ℝ}

/-- A controller carries the equilibrium: the action at every step, no direction, and the state and
costate at every node. -/
def IsAtRest (controller : Controller ℝ) (state : State ℝ) (t₀ : ℝ) (x : Fin n → ℝ)
    (u : Fin (m + c) → ℝ) (l : Fin n → ℝ) : Prop :=
  controller.Carries state t₀ (fun _ => u) 0 (fun _ => x) (fun _ => l)

/-- At rest there is nothing to solve for. -/
theorem rates_of_isAtRest (hc : controller.Scaled n (m + c) h ζ T a)
    (hm : controller.model.Rests x u l) (hN : 0 < controller.divisions)
    (hs : controller.IsAtRest state t₀ x u l) (ht : t₀ ≤ t) :
    ∃ w memory, (controller.rates t (.ofFn x)).runOn state =
        (.ok (.ofNodes controller.divisions (0 : ℕ → Fin (m + c) → ℝ),
          ⟨.ofNodes (controller.divisions + 1) (0 : ℕ → Fin n → ℝ),
            .ofNodes (controller.divisions + 1) (0 : ℕ → Fin n → ℝ)⟩),
        { state with
          workspace := w
          memory := memory
          outcome := some (Krylov.Solver.exact
            (.ofFn (0 : Fin (controller.divisions * (m + c)) → ℝ)) 0)
          direction := .pure (.ofNodes controller.divisions (0 : ℕ → Fin (m + c) → ℝ)) }) ∧
      w.rotations.length = controller.solver.limit := by
  have hsystem := hc.scaled_continuation state.start
  have hnow := hc.step_eq hs.start ht
  have hnext := hc.step_eq hs.start (ht.trans (le_add_of_nonneg_right hc.step_pos.le))
  have hprepare := Continuation.prepare_of_rests (t := t) hsystem hm hN state.memory
  have hresidual := Continuation.residual_of_rests hsystem hm hc.room hnow hnext
    state.memory.defects state.memory.stationarity
  have hnorm : √((0 : Fin (controller.divisions * (m + c)) → ℝ) ⬝ᵥ 0) = 0 := by
    rw [zero_dotProduct, Real.sqrt_zero]
  have hsolve : (controller.solver.solve ((controller.continuation state.start).linearized t
      (.ofFn x) (.ofFn (flatten controller.divisions fun _ => u)))
        (some (.ofFn (0 : Fin (controller.divisions * (m + c)) → ℝ))) state.workspace).run _ = _ :=
    Krylov.Solver.run_solve_of_lt hresidual hnorm tiny_pos
  have hrate := Continuation.trajectoryRate_of_rests hsystem hm hc.room hnext
    (some (.ofNodes controller.divisions (0 : ℕ → Fin (m + c) → ℝ)))
  have hflat : flatten controller.divisions (0 : ℕ → Fin (m + c) → ℝ) = 0 := rfl
  refine ⟨state.workspace.cleared, .atRest controller.divisions x l (t + h)
    (some (.flawless controller.divisions n))
    (some (.ofNodes controller.divisions (0 : ℕ → Fin (m + c) → ℝ))), ?_, hs.rotations⟩
  simp only [rates, Stateful.runOn_bind, Stateful.runOn_get, hs.actions, hs.trajectory,
    hs.direction, Tensor.flat_ofNodes, hflat, hprepare, Stateful.runOn_liftM, hsolve,
    Stateful.runOn_modify, Krylov.Solver.exact, Continuation.unflatten_eq hsystem, unflatten_zero,
    hrate, Stateful.runOn_pure]

/-- A step at rest, whatever its sampling period, answers the control at rest and stays there. -/
theorem update_of_isAtRest (hc : controller.Scaled n (m + c) h ζ T a)
    (hm : controller.model.Rests x u l) (hN : 0 < controller.divisions)
    (hs : controller.IsAtRest state t₀ x u l) (ht : t₀ ≤ t) {dt : ℝ} (hdt : 0 < dt) :
    ∃ state', (controller.perform (.update t dt (.ofTensor (.ofFn x)))).runOn state =
        (.ok (.updated (.ofFn (RecedingHorizon.control u)) (some (Krylov.Solver.exact
          (.ofFn (0 : Fin (controller.divisions * (m + c)) → ℝ)) 0))), state') ∧
      controller.IsAtRest state' t₀ x u l := by
  obtain ⟨w, memory, hrates, hlength⟩ := rates_of_isAtRest hc hm hN hs ht
  have hfirst : controller.firstControl (.ofNodes controller.divisions
      ((fun _ => u) + dt • (0 : ℕ → Fin (m + c) → ℝ))) =
        .ok (.ofFn (RecedingHorizon.control u)) := by
    rw [smul_zero, add_zero, firstControl, if_neg hN.ne', Tensor.item_ofNodes _ hN, ok_bind,
      Model.control_ofFn hm.controlDim]
  have hperiod : (Datum.number (.real dt)).scalar = .ok dt := rfl
  obtain ⟨state', hupdate, -, hs', houtcome⟩ := update_of_rates hs (checkState_ofFn hm.stateDim x)
    hperiod hdt hrates hlength hfirst
  simp only [smul_zero, add_zero] at hs'
  refine ⟨state', ?_, hs'⟩
  rw [perform, Stateful.runOn_bind, hupdate]
  dsimp only
  rw [Stateful.runOn_get_bind, houtcome]
  rfl

/-- A run at rest stays there. -/
theorem performAll_of_isAtRest (hc : controller.Scaled n (m + c) h ζ T a)
    (hm : controller.model.Rests x u l) (hN : 0 < controller.divisions) {steps : List (ℝ × ℝ)}
    (hsteps : ∀ s ∈ steps, t₀ ≤ s.1 ∧ 0 < s.2) (hs : controller.IsAtRest state t₀ x u l) :
    ∃ state', controller.performAll
        (steps.map fun s => .update s.1 s.2 (.ofTensor (.ofFn x))) state =
        (steps.map fun _ => .ok (.updated (.ofFn (RecedingHorizon.control u))
          (some (Krylov.Solver.exact (.ofFn (0 : Fin (controller.divisions * (m + c)) → ℝ)) 0))),
          state') ∧
      controller.IsAtRest state' t₀ x u l := by
  induction steps generalizing state with
  | nil => exact ⟨state, rfl, hs⟩
  | cons s steps ih =>
      obtain ⟨ht, hdt⟩ := hsteps s List.mem_cons_self
      obtain ⟨state₁, hupdate, hs₁⟩ := update_of_isAtRest hc hm hN hs ht hdt
      obtain ⟨state', hrun, hs'⟩ := ih (fun s hs => hsteps s (List.mem_cons_of_mem _ hs)) hs₁
      refine ⟨state', ?_, hs'⟩
      simp only [List.map_cons, performAll, hupdate, hrun]

/-- At rest the residual has norm zero, at any time from the start on. -/
theorem residualNorm_of_isAtRest (hc : controller.Scaled n (m + c) h ζ T a)
    (hm : controller.model.Rests x u l) (hs : controller.IsAtRest state t₀ x u l) (ht : t₀ ≤ t) :
    (controller.residualNorm t (.ofTensor (.ofFn x))).runOn state = (.ok 0, state) := by
  have hresidual : controller.residual state t (.ofFn x) = .ok
      ⟨.ofNodes controller.divisions (0 : ℕ → Fin (m + c) → ℝ),
        .ofNodes (controller.divisions + 1) (0 : ℕ → Fin n → ℝ),
        .ofNodes (controller.divisions + 1) (0 : ℕ → Fin n → ℝ)⟩ := by
    rw [residual, hs.actions, hs.trajectory]
    have hmodel : (controller.problem state.start).model.Rests x u l := hm
    exact Problem.residual_of_rests hmodel hc.room (hc.step_eq hs.start ht)
  rw [runOn_residualNorm hs.initialized (checkState_ofFn hm.stateDim x) hresidual,
    (Residual.norm_eq_zero_iff (F := 0) (E := 0) (M := 0)).2
      ⟨fun _ _ => rfl, fun _ _ => rfl, fun _ _ => rfl⟩]

variable (t₀) in
/-- A controller that is seeded at rest, from parameters whose guess is the action at rest, is at
rest. -/
theorem seed_of_rests (hc : controller.Scaled n (m + c) h ζ T a)
    (hm : controller.model.Rests x u l) {params : InitParams ℝ}
    (hparams : state.params = some params)
    (hguess : params.guess = List.ofFn u) {τ : ℝ} (hτ : params.residualTolerance.scalar = .ok τ)
    (hpos : 0 < τ) {solver : Krylov.Solver ℝ}
    (hsolver : Krylov.Solver.ofExtents (.number (.whole (m + c : ℕ))) params.krylovLimit
      defaultRelativeTolerance = .ok solver)
    (hrotations : state.workspace.rotations.length = controller.solver.limit) :
    ∃ state', (controller.perform (.seed t₀ (.ofTensor (.ofFn x)))).runOn state =
        (.ok (.array (.ofFn (RecedingHorizon.control u))), state') ∧
      controller.IsAtRest state' t₀ x u l := by
  obtain ⟨s, hscale⟩ := Newton.exists_copyScale hc.extents
  have hfound : Newton.solve controller.model t₀ (.ofFn x) params
      (.number (.whole controller.divisions)) = .ok ⟨.ofFn u, 0, 0⟩ :=
    Newton.solve_of_controlGradient_eq_zero hm.actionDim (hm.terminalGradient t₀)
      (hm.controlGradient t₀) hguess hτ hpos (by rw [hm.actionDim]; exact hsolver) hscale
  have hsearch : controller.search t₀ (.ofTensor (.ofFn x)) state =
      .ok (.ofFn x, ⟨.ofFn u, 0, 0⟩) := by
    rw [search, checkState_ofFn hm.stateDim, ok_bind, chosenParams, hparams, ok_bind, hfound]
    rfl
  have hstep : (controller.horizon t₀).step t₀ =
      .ok (Horizon.reach T a (t₀ - t₀) / controller.divisions) := hc.step_eq rfl le_rfl
  have hshoot : controller.shoot t₀ (.ofFn x) (.ofFn u) = .ok
      ⟨.ofNodes (controller.divisions + 1) fun _ => x,
        .ofNodes (controller.divisions + 1) fun _ => l⟩ := by
    rw [shoot, hstep, ok_bind, Tensor.replicate_ofFn,
      Model.condense_none_ofNodes (Tensor.count_ofNodes _)]
    exact hm.condense_eq hc.room t₀ _
  have hstill : controller.still = .ofNodes controller.divisions (0 : ℕ → Fin (m + c) → ℝ) := by
    rw [still, actionsShape, hc.actionDim, Int.toNat_natCast]
    exact Tensor.zeros_eq_ofNodes
  refine ⟨{ controller.planted state t₀ (.ofFn u) with
    trajectory := .pure ⟨.ofNodes (controller.divisions + 1) fun _ => x,
      .ofNodes (controller.divisions + 1) fun _ => l⟩
    initialized := true }, ?_, ?_⟩
  · rw [perform, Stateful.runOn_map, runOn_seed, hsearch]
    dsimp only
    rw [hshoot, Model.control_ofFn hm.controlDim]
    rfl
  · exact {
      start := rfl
      actions := Tensor.replicate_ofFn u
      direction := hstill
      trajectory := rfl
      initialized := rfl
      rotations := hrotations }

/-- An equilibrium is kept.  A controller that is given the action at rest for a guess, and is
seeded at the state at rest, answers with the control at rest in every step of a run there, of any
length and with any sampling periods.  At its end every action is that at rest and none is to
change, every node of the trajectory is at rest, and the residual has norm zero from the start of
the horizon on. -/
theorem performAll_of_rests {model : Model ℝ} (hm : model.Rests x u l) {draft : Settings.Draft ℝ}
    {settings : Settings ℝ} (hsettings : draft.check = .ok settings)
    (hcontroller : ofSettings model settings = .ok controller) (hN : 0 < controller.divisions)
    (hstate : controller.Reachable state) {given : Arguments ℝ} {initDraft : InitParams.Draft ℝ}
    {params : InitParams ℝ} (hgiven : InitParams.Draft.ofArguments given = .ok initDraft)
    (hparams : initDraft.check = .ok params) (hguess : params.guess = List.ofFn u) {k : ℤ}
    (hlimit : params.krylovLimit = .number (.whole k))
    (hroom : Krylov.Solver.HasRoom (m + c) params.krylovLimit) {steps : List (ℝ × ℝ)}
    (hsteps : ∀ s ∈ steps, t₀ ≤ s.1 ∧ 0 < s.2) :
    ∃ state', controller.performAll (.setInitParams given :: .seed t₀ (.ofTensor (.ofFn x)) ::
        steps.map fun s => .update s.1 s.2 (.ofTensor (.ofFn x))) state =
      (.ok .done :: .ok (.array (.ofFn (RecedingHorizon.control u))) ::
        steps.map fun _ => .ok (.updated (.ofFn (RecedingHorizon.control u))
          (some (Krylov.Solver.exact (.ofFn (0 : Fin (controller.divisions * (m + c)) → ℝ)) 0))),
        state') ∧
      state'.actions.get = .ofNodes controller.divisions (fun _ => u) ∧
      state'.direction.get = .ofNodes controller.divisions (0 : ℕ → Fin (m + c) → ℝ) ∧
      state'.trajectory.get = ⟨.ofNodes (controller.divisions + 1) fun _ => x,
        .ofNodes (controller.divisions + 1) fun _ => l⟩ ∧
      ∀ t : ℝ, t₀ ≤ t →
        (controller.residualNorm t (.ofTensor (.ofFn x))).runOn state' = (.ok 0, state') := by
  have hsound := Settings.Draft.sound hsettings
  obtain ⟨h, hh, -⟩ := hsound.differenceStep
  obtain ⟨ζ, hζ, -⟩ := hsound.decayRate
  obtain ⟨T, hT, -⟩ := hsound.horizonLength
  obtain ⟨a, ha, -⟩ := hsound.growthRate
  have hc := scaled_ofSettings hsound hcontroller hm.stateDim hm.actionDim hh hζ hT ha
  obtain ⟨rfl, -⟩ := model_ofSettings hcontroller
  have hdim : 0 ≤ controller.model.actionDim := by
    rw [hm.actionDim]
    exact Int.natCast_nonneg _
  -- the parameters are accepted, and there is a solver for them
  have hchecked := initDraft.checked hparams
  have hlength : (params.guess.length : ℤ) = controller.model.actionDim := by
    rw [hguess, List.length_ofFn, hm.actionDim]
  obtain ⟨τ, hτ, hpos⟩ := Datum.scalar_of_isPositive hchecked.residualTolerance
  obtain ⟨solver, hsolver, -⟩ := (Krylov.Solver.ofExtents_of_holds (τ := defaultRelativeTolerance)
    hchecked.krylovLimit hroom).1 (.inl ⟨k, hlimit⟩)
  have hset : State.params { state with params := some params } = some params := rfl
  obtain ⟨seeded, hseed, hseeded⟩ := seed_of_rests t₀ hc hm hset hguess hτ hpos hsolver
    (hstate.fits hdim).rotations
  obtain ⟨state', hrun, hs'⟩ := performAll_of_isAtRest hc hm hN hsteps hseeded
  refine ⟨state', ?_, hs'.actions, hs'.direction, hs'.trajectory,
    fun t ht => residualNorm_of_isAtRest hc hm hs' ht⟩
  simp only [performAll, perform_setInitParams hgiven hparams hlength, hseed, hrun]

end Controller

/-! ## Regulators -/

/-- A regulator rests at its reference if nothing drives it away from there: without control, and
with the costate zero. -/
theorem Regulator.rests (g : Regulator n m) (hA : g.A *ᵥ g.reference = 0) :
    g.model.Rests g.reference (0 : Fin (m + 0) → ℝ) 0 where
  stateDim := g.stateDim_model
  controlDim := g.controlDim_model
  constraintDim := g.unconstrained
  dynamics t := by
    have hcontrol : RecedingHorizon.control (0 : Fin (m + 0) → ℝ) = 0 := rfl
    rw [g.dynamics_model, hcontrol, hA, Matrix.mulVec_zero, add_zero]
  terminalGradient t := by
    have hzero : g.responses.terminalGradient g.reference t = 0 := by
      show g.F *ᵥ (g.reference - g.reference) = 0
      rw [sub_self, Matrix.mulVec_zero]
    rw [g.answers.terminalGradient, hzero]
  stateGradient t := by
    rw [g.stateGradient_model, sub_self, Matrix.mulVec_zero, Matrix.mulVec_zero, add_zero]
  controlGradient t := by
    have hcontrol : RecedingHorizon.control (0 : Fin (m + 0) → ℝ) = 0 := rfl
    rw [g.controlGradient_model, hcontrol, Matrix.mulVec_zero, Matrix.mulVec_zero, add_zero]

/-- The parameters of the search of the integrator, by name. -/
noncomputable def unitArguments : Arguments ℝ :=
  [(InitParams.Draft.guessLabel, unitDraft.guess),
    (Parameter.residualTolerance.label, unitDraft.residualTolerance),
    (Parameter.iterationLimit.label, unitDraft.iterationLimit),
    (Parameter.differenceStep.label, unitDraft.differenceStep),
    (Parameter.krylovLimit.label, unitDraft.krylovLimit)]

theorem ofArguments_unitArguments : InitParams.Draft.ofArguments unitArguments = .ok unitDraft :=
  rfl

/-- The controller of the integrator with the reference state seven, on a horizon that grows. -/
noncomputable def steeredController : Controller ℝ :=
  { growingController with model := Regulator.steered.model }

theorem ofSettings_steered :
    Controller.ofSettings Regulator.steered.model growingSettings = .ok steeredController :=
  ofSettings_of_dims Regulator.steered.answers.actionDim Regulator.steered.answers.stateDim rfl rfl
    rfl

/-- The controller of the integrator with the reference state seven is seeded at seven and takes two
steps there, while its horizon grows. -/
theorem steeredController_performAll_of_rests :
    ∃ state' : Controller.State ℝ, steeredController.performAll
        [.setInitParams unitArguments,
          .seed (.number (.real 0)) (.ofTensor (.ofFn ![7])),
          .update (.number (.real 1)) (.number (.real 2)) (.ofTensor (.ofFn ![7])),
          .update (.number (.real 5)) (.number (.real 3)) (.ofTensor (.ofFn ![7]))]
        steeredController.blank =
      ([.ok .done, .ok (.array (.ofFn (0 : Fin 1 → ℝ))),
        .ok (.updated (.ofFn (0 : Fin 1 → ℝ))
          (some (Krylov.Solver.exact (.ofFn (0 : Fin (1 * 1) → ℝ)) 0))),
        .ok (.updated (.ofFn (0 : Fin 1 → ℝ))
          (some (Krylov.Solver.exact (.ofFn (0 : Fin (1 * 1) → ℝ)) 0)))], state') ∧
      state'.actions.get = .ofNodes 1 (fun _ => (0 : Fin 1 → ℝ)) ∧
      state'.direction.get = .ofNodes 1 (0 : ℕ → Fin 1 → ℝ) ∧
      state'.trajectory.get = ⟨.ofNodes 2 fun _ => ![7], .ofNodes 2 fun _ => (0 : Fin 1 → ℝ)⟩ ∧
      ∀ t : ℝ, 0 ≤ t → (steeredController.residualNorm (.number (.real t))
        (.ofTensor (.ofFn ![7]))).runOn state' = (.ok 0, state') := by
  have hA : Regulator.steered.A *ᵥ Regulator.steered.reference = 0 := Matrix.zero_mulVec _
  have hsteps : ∀ s ∈ [((1 : ℝ), (2 : ℝ)), (5, 3)], 0 ≤ s.1 ∧ 0 < s.2 := by
    intro s hs
    rcases List.mem_pair.1 hs with rfl | rfl <;> norm_num
  exact Controller.performAll_of_rests (Regulator.steered.rests hA) check_growingSettings
    ofSettings_steered Nat.one_pos ⟨[], rfl⟩ ofArguments_unitArguments check_unitDraft rfl rfl
    (Krylov.Solver.hasRoom_one _) hsteps

end RecedingHorizon

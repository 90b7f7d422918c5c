import Mathlib
import RecedingHorizon.Proofs.Controller
import RecedingHorizon.Proofs.Endings
import RecedingHorizon.Proofs.Faults

/-!
# Failures that leave no trace

A controller refuses what it cannot use: parameters, periods, states of a wrong shape, a step
before there is a solution or before the start of the horizon.  And it gives up, where a search
does not converge or a triangular system is not finite.  Some of this is found out late, when
the point has been set and the workspace of the solver overwritten.  But what these hold is
written anew by the next step before it is read; and nothing that is read later has been written
by then, because all that comes after the last failure of this kind is answered by the model, or
fails in its arithmetic.

The last place to find out something is the residual of the linear system.  Where that has been
found, the length of a step one difference step ahead is known, so that the rate of change of
the trajectory, which needs it again, does not meet a time before the start.  Nor does a seeding
once it has found its action: the horizon starts at the very time that is then asked for.

* `Stateful.Establishes`: what holds of the state whenever there is an answer;
  `Continuation.establishes_residual`, `Krylov.Solver.established_solve`.
* `Controller.perform_eq_error`: what a call leaves that has found out its failure.
* `Controller.detected_unseen`: no later call notices.
-/

namespace RecedingHorizon

variable {α : Type} [Scalar α]

/-! ## What an answer establishes -/

namespace Stateful

variable {σ β γ : Type} {J : σ → Prop}

/-- Whenever the computation answers, its last state has the property `J`. -/
def Establishes (J : σ → Prop) (action : Stateful σ α β) : Prop :=
  ∀ s b s', action.runOn s = (.ok b, s') → J s'

namespace Establishes

omit [Scalar α] in
/-- Two computations one after the other establish a property if the first establishes it and the
second preserves it. -/
theorem bind_preserves {action : Stateful σ α β} {next : β → Stateful σ α γ}
    (h : Establishes J action) (hnext : ∀ b, Preserves J (next b)) :
    Establishes J (action >>= next) := by
  intro s c s'' hrun
  obtain ⟨b, s', hfirst, hrest⟩ := runOn_bind_eq_ok_iff.1 hrun
  have hkept := hnext b s' (h s b s' hfirst)
  rw [hrest] at hkept
  exact hkept

omit [Scalar α] in
/-- Two computations one after the other establish a property if the second does, whatever was
before. -/
theorem bind {action : Stateful σ α β} {next : β → Stateful σ α γ}
    (h : ∀ b, Establishes J (next b)) : Establishes J (action >>= next) := by
  intro s c s'' hrun
  obtain ⟨b, s', -, hrest⟩ := runOn_bind_eq_ok_iff.1 hrun
  exact h b s' c s'' hrest

end Establishes

end Stateful

/-! ## The linear system -/

open Stateful

/-- What the residual has established, and the images preserve, holds after a solve that has an
outcome. -/
theorem Krylov.Solver.established_solve {σ : Type} (solver : Solver α)
    (equation : Equation (StateM σ) α) {J : σ → Prop}
    (hresidual : ∀ v, Establishes J (equation.residual v))
    (himage : ∀ v, Preserves J (equation.image v)) {guess : Tensor α} {w : Workspace α} {μ : σ}
    {outcome : Outcome α} (h : ((solver.solve equation (some guess) w).run μ).1.1 = .ok outcome) :
    J ((solver.solve equation (some guess) w).run μ).2 := by
  rw [solve, run_bind, Option.getD_some] at h ⊢
  have hfirst := hresidual guess μ
  unfold runOn at hfirst
  generalize (equation.residual guess).run.run μ = run at h hfirst ⊢
  obtain ⟨fault | residual, μ₁⟩ := run
  · cases h
  · have hμ := hfirst residual μ₁ rfl
    dsimp only at h ⊢
    split
    · exact hμ
    · rcases (residual.divide residual.norm).vector solver.dim with fault | first
      · exact hμ
      · dsimp only
        rw [run_bind]
        exact preserves_iterate solver himage _ _ _ hμ

namespace Continuation

variable {system : Continuation α}

/-- A residual has been found only where the length of a step one difference step ahead is
known. -/
theorem establishes_residual (t : Datum α) (x flat guess : Tensor α) :
    Establishes (fun memory => ∃ δ, system.problem.horizon.step memory.time = .ok δ)
      (system.residual t x flat guess) := by
  have hahead (actions : Tensor α) :
      Establishes (fun memory => ∃ δ, system.problem.horizon.step memory.time = .ok δ)
        (system.ahead actions) := by
    intro memory next memory' h
    rw [runOn_ahead] at h
    obtain ⟨hnext, rfl⟩ := Prod.mk.inj h
    rw [aheadFrom] at hnext
    split at hnext
    · obtain ⟨δ, hδ, -⟩ := bind_eq_ok_iff.1 hnext
      exact ⟨δ, hδ⟩
    · cases hnext
  refine Establishes.bind fun memory => Establishes.bind fun trajectory => ?_
  refine Establishes.bind fun actions => Establishes.bind fun now => ?_
  refine Establishes.bind fun factor => Establishes.bind fun defects => ?_
  refine Establishes.bind fun _ => Establishes.bind_preserves (hahead actions) fun next => ?_
  refine Preserves.bind (Preserves.modify fun _ h => h) fun _ => ?_
  split
  · exact Preserves.bind (Preserves.liftM _) fun _ => Preserves.pure _
  · refine Preserves.bind (Preserves.liftM _) fun direction => ?_
    refine Preserves.bind (Preserves.liftM _) fun moved => ?_
    refine Preserves.bind (system.preserves_ahead moved) fun guessed => ?_
    exact Preserves.bind (Preserves.liftM _) fun _ => Preserves.pure _

/-- The rates of change are found, or the fault is one of arithmetic. -/
theorem undetected_rateFrom {N : ℕ} (hs : system.Regular N) (hm : system.problem.model.Total)
    {memory : Memory α} (hmemory : memory.Fits N system.problem.model.stateDim.toNat) {δ : α}
    (hδ : system.problem.horizon.step memory.time = .ok δ) {actions direction : Tensor α}
    (ha : actions.shape = [N, system.problem.model.actionDim.toNat])
    (hd : direction.shape = [N, system.problem.model.actionDim.toNat]) :
    Undetected (system.rateFrom memory actions direction) := by
  obtain ⟨k, hnumber⟩ := hs.differenceStep
  have hahead {moved : Tensor α}
      (hmoved : moved.shape = [N, system.problem.model.actionDim.toNat]) :
      Undetected (system.aheadFrom memory moved) := by
    rw [aheadFrom]
    split
    · rename_i x defects hx hdefects
      have hx := hmemory.state x hx
      rw [Problem.condensedStationarity, hδ, ok_bind]
      refine FailsWith.bind (hm.undetected_condense hx hmoved _) fun p hp => ?_
      obtain ⟨hX, hL⟩ := Model.shape_condense hx hmoved hp
      exact FailsWith.bind (hm.undetected_stationarity hx hmoved hX hL) fun _ _ => .ok _
    · exact .error rfl
  rw [rateFrom]
  cases memory.trajectory with
  | none => exact .error rfl
  | some trajectory =>
      dsimp only
      refine FailsWith.bind ?_ fun moved hmoved => ?_
      · exact FailsWith.bind (Undetected.meet _ _ hnumber) fun _ _ => Undetected.pointwise _ _ _
      refine FailsWith.bind (hahead (hs.shape_moved ha hd hmoved)) fun next _ => ?_
      refine FailsWith.bind (Undetected.pointwise _ _ _) fun _ _ => ?_
      refine FailsWith.bind (Undetected.meet _ _ hnumber) fun _ _ => ?_
      refine FailsWith.bind (Undetected.pointwise _ _ _) fun _ _ => ?_
      exact FailsWith.bind (Undetected.meet _ _ hnumber) fun _ _ => .ok _

end Continuation

/-! ## Calls -/

namespace Controller

variable {controller : Controller α} {state state' : State α} {fault : Fault α}

/-- The trajectory is shot from what has been found, or the fault is one of arithmetic. -/
theorem undetected_shoot (hm : controller.model.Total) (hirrefl : ∀ a : α, ¬a < a) (t : Datum α)
    {x action : Tensor α} (hx : x.shape = [controller.model.stateDim.toNat])
    (ha : action.shape = [controller.model.actionDim.toNat]) :
    Undetected (controller.shoot t x action) := by
  refine FailsWith.bind (Horizon.undetected_step (Datum.self_lt_ne hirrefl t)) fun δ _ => ?_
  exact hm.undetected_condense hx (congrArg (List.cons controller.divisions) ha) none

/-- A seeding finds out its failure while it searches, when nothing has been written. -/
theorem seed_eq_error_of_isDetected (hm : controller.model.Total) (hirrefl : ∀ a : α, ¬a < a)
    {t measured : Datum α} (hfault : fault.isDetected = true)
    (h : (controller.seed t measured).runOn state = (.error fault, state')) : state' = state := by
  rcases seed_eq_error h with ⟨-, hsame⟩ | ⟨x, found, hsearch, hshoot, -⟩
  · exact hsame
  · obtain ⟨params, hx, -, hfound⟩ := search_eq_ok hsearch
    have hundetected := undetected_shoot hm hirrefl t (shape_checkState hx)
      (Newton.shape_solve hfound)
    exact absurd hshoot (hundetected.ne_error hfault)

/-- After a solve the length of a step one difference step ahead is known. -/
theorem exists_step_of_solved {t : Datum α} {x : Tensor α} {outcome : Krylov.Outcome α}
    {w : Krylov.Workspace α} {memory : Continuation.Memory α}
    (h : controller.solved t x state = ((.ok outcome, w), memory)) :
    ∃ δ, (controller.horizon state.start).step memory.time = .ok δ := by
  obtain ⟨placed, -, hsolve⟩ := solved_eq_ok h
  have hestablished := controller.solver.established_solve
    ((controller.continuation state.start).linearized t x state.actions.get.flat)
    (fun v => Continuation.establishes_residual t x _ v)
    (fun v => Continuation.preserves_image _ v) (congrArg (fun run => run.1.1) hsolve)
  rw [hsolve] at hestablished
  exact hestablished

/-- A step finds out its failure before it is solved for a direction. -/
theorem update_eq_error_of_isDetected (hc : controller.Regular) (hm : controller.model.Total)
    (hs : controller.Fits state) {t period measured : Datum α} (hfault : fault.isDetected = true)
    (h : (controller.update t period measured).runOn state = (.error fault, state')) :
    ∃ w memory, state' = worked state w memory := by
  rcases update_eq_error hc hs h with ⟨-, rfl⟩ | ⟨x, hadmitted, hunsolved | hsolved⟩
  · exact ⟨state'.workspace, state'.memory, rfl⟩
  · obtain ⟨w, memory, -, rfl⟩ := hunsolved
    exact ⟨w, memory, rfl⟩
  · obtain ⟨outcome, w, memory, direction, hsolved, hdirection, hrest⟩ := hsolved
    rcases hrest with ⟨hrate, -⟩ | ⟨rate, hrate, h⟩
    · obtain ⟨k, -, hx⟩ := admitted_eq_ok hadmitted
      obtain ⟨δ, hδ⟩ := exists_step_of_solved hsolved
      have hsystem := hc.continuation state.start
      have hundetected := Continuation.undetected_rateFrom hsystem hm
        (fits_solved hc hm.dynamicsFit hs hx hsolved) hδ hs.actions
        (hsystem.shape_unflatten hdirection)
      exact absurd hrate (hundetected.ne_error hfault)
    · obtain ⟨hperiod, -⟩ :=
        follow_rates_eq_error hc hm.dynamicsFit hs hadmitted hsolved hdirection hrate h
      exact absurd hperiod ((Undetected.scalar period).ne_error hfault)

/-- Whether a call that fails with a fault has found out its failure.  Seeding and a step have
where the fault is the solver's own.  Where parameters are set or the residual norm is asked for,
nothing has been written when a call fails, and any fault will do. -/
def Operation.Detects : Operation α → Fault α → Prop
  | .setInitParams _, _ | .residualNorm _ _, _ => True
  | .seed _ _, fault | .update _ _ _, fault => fault.isDetected = true
  | _, _ => False

/-- Parameters that are refused are not set. -/
theorem setInitParams_eq_error {draft : InitParams.Draft α}
    (h : (controller.setInitParams draft).runOn state = (.error fault, state')) :
    state' = state := by
  rcases runOn_bind_eq_error_iff.1 h with hcheck | ⟨params, s, hcheck, h⟩
  · exact (Prod.mk.inj hcheck).2.symm
  · obtain ⟨-, rfl⟩ := runOn_liftM_eq_ok_iff.1 hcheck
    split at h
    · rcases runOn_bind_eq_error_iff.1 h with h | ⟨_, _, h, -⟩
      · exact (Prod.mk.inj h).2.symm
      · cases h
    · cases h

/-- A call that fails with what it finds out has changed nothing but what the solver works in
and what is remembered of the linear system. -/
theorem perform_eq_error (hc : controller.Regular) (hm : controller.model.Total)
    (hirrefl : ∀ a : α, ¬a < a) (hs : controller.Fits state) {operation : Operation α}
    (hdetects : operation.Detects fault)
    (h : (controller.perform operation).runOn state = (.error fault, state')) :
    ∃ w memory, state' = worked state w memory := by
  have hsame : state' = state → ∃ w memory, state' = worked state w memory := by
    rintro rfl
    exact ⟨state'.workspace, state'.memory, rfl⟩
  cases operation with
  | setInitParams given =>
      refine hsame ?_
      rcases runOn_bind_eq_error_iff.1 h with hdraft | ⟨draft, s, hdraft, h⟩
      · exact (Prod.mk.inj hdraft).2.symm
      · obtain ⟨-, rfl⟩ := runOn_liftM_eq_ok_iff.1 hdraft
        rcases runOn_bind_eq_error_iff.1 h with h | ⟨_, _, -, h⟩
        · exact setInitParams_eq_error h
        · cases h
  | residualNorm t measured =>
      have hkept : Preserves (· = state) (controller.perform (.residualNorm t measured)) :=
        Preserves.map (preserves_residualNorm t measured) _
      have hkept := hkept state rfl
      rw [h] at hkept
      exact hsame hkept
  | seed t measured =>
      rw [perform, map_eq_pure_bind] at h
      rcases runOn_bind_eq_error_iff.1 h with h | ⟨_, _, -, h⟩
      · exact hsame (seed_eq_error_of_isDetected hm hirrefl hdetects h)
      · cases h
  | update t period measured =>
      rcases runOn_bind_eq_error_iff.1 h with h | ⟨_, _, -, h⟩
      · exact update_eq_error_of_isDetected hc hm hs hdetects h
      · cases h
  | control | actions | trajectory | direction | outcome | horizon | simulate => exact hdetects.elim

/-- Failures that the controller finds out cannot be told afterwards.  For a model whose functions
answer, in any arithmetic in which nothing is less than itself, and from any state that can be
reached: where setting parameters, seeding, a step or asking for the residual norm fails with
what it has found out, all that can be read off is as it was, and every later sequence of calls
answers, call by call, what it would have answered without the failing one. -/
theorem detected_unseen {model : Model α} {draft : Settings.Draft α} {settings : Settings α}
    (hsettings : draft.check = .ok settings)
    (hcontroller : ofSettings model settings = .ok controller) (hm : model.Total)
    (hirrefl : ∀ a : α, ¬a < a) (hreach : controller.Reachable state) {operation : Operation α}
    (hdetects : operation.Detects fault)
    (h : (controller.perform operation).runOn state = (.error fault, state')) :
    (state'.start = state.start ∧ state'.actions = state.actions ∧
      state'.direction = state.direction ∧ state'.trajectory = state.trajectory ∧
      state'.initialized = state.initialized ∧ state'.outcome = state.outcome ∧
      state'.params = state.params) ∧
    ∀ operations, (controller.performAll operations state').1 =
      (controller.performAll operations state).1 := by
  have hc := regular_ofSettings hsettings hcontroller
  have hfits := hreach.fits hc.actionDim
  obtain ⟨rfl, -⟩ := model_ofSettings hcontroller
  have hkept := preserves_perform hc.actionDim operation state hfits
  rw [h] at hkept
  obtain ⟨w, memory, rfl⟩ := perform_eq_error hc hm hirrefl hfits hdetects h
  refine ⟨⟨rfl, rfl, rfl, rfl, rfl, rfl, rfl⟩, fun operations => ?_⟩
  have htwins : controller.Twins Eq (fun w w' => w.rotations.length = w'.rotations.length)
      (worked state w memory) state :=
    ⟨hkept, rfl, rfl, rfl, ⟨rfl, rfl⟩, rfl, rfl, rfl,
      hkept.rotations.trans hfits.rotations.symm⟩
  exact (performAll_parallel hc (Interchange.eq _) Krylov.Workspace.stable_length
    (fun _ _ _ h => h) htwins).1

end Controller

/-! ## A time before the start -/

/-- Before its start a horizon has no step. -/
theorem Horizon.step_of_lt {horizon : Horizon α} {t : Datum α} (h : t.lt horizon.start = .ok true) :
    horizon.step t = .error (early t horizon.start) := by
  rw [step, length, h]
  rfl

theorem Problem.residual_of_lt {problem : Problem α} {t : Datum α} (x actions : Tensor α)
    (trajectory : Trajectory α) (h : t.lt problem.horizon.start = .ok true) :
    problem.residual t x actions trajectory = .error (Horizon.early t problem.horizon.start) := by
  rw [residual, Horizon.step_of_lt h]
  rfl

/-- A residual that is not found at the guess ends the solve. -/
theorem Krylov.Solver.solve_of_error {σ : Type} {equation : Equation (StateM σ) α}
    {solver : Solver α} {guess : Tensor α} {w : Workspace α} {μ μ' : σ} {fault : Fault α}
    (h : runOn (equation.residual guess) μ = (.error fault, μ')) :
    (solver.solve equation (some guess) w).run μ = ((.error fault, w.cleared), μ') := by
  unfold runOn at h
  rw [solve, run_bind, Option.getD_some]
  have hrun : (equation.residual guess).run.run μ = (.error fault, μ') := h
  rw [hrun]
  rfl

namespace Controller

variable {n m c : ℕ} {controller : Controller ℝ} {state : State ℝ} {r : Responses n m c}
variable {h ζ T a t₀ t : ℝ} {x : Fin n → ℝ} {U V : ℕ → Fin (m + c) → ℝ} {X L : ℕ → Fin n → ℝ}

open Continuation in
/-- A step before the start of the horizon is found out in the solve, and only what the solver
works in and what is remembered has changed by then. -/
theorem Carries.runOn_update_of_lt (hs : controller.Carries state t₀ U V X L)
    (hc : controller.Serves r h ζ T a) (ht : t < t₀) {period measured : Datum ℝ} {dt : ℝ}
    (hperiod : period.scalar = .ok dt) (hdt : 0 < dt)
    (hx : controller.checkState measured = .ok (.ofFn x)) :
    ∃ placed, (controller.update t period measured).runOn state =
      (.error (Horizon.early t state.start), worked state state.workspace.cleared placed) := by
  have hsystem := hc.replies_continuation state.start
  have hlt : (t : Datum ℝ).lt state.start = .ok true := by
    rw [Datum.lt_of_scalar rfl hs.start, decide_eq_true ht]
  have hpositive : period.isPositive = .ok true := Datum.isPositive_of_pos hperiod hdt
  have hadmitted : controller.admitted period measured state = .ok (.ofFn x) := by
    rw [admitted, hs.initialized, hpositive]
    exact hx
  obtain ⟨placed, hplaced⟩ : ∃ placed : Memory ℝ, placed = .of controller.divisions X L (t + h)
    (predicted r controller.divisions h t x U) state.memory.defects state.memory.stationarity :=
    ⟨_, rfl⟩
  have hprepare := prepare_of (t := t) (x := x) (a := U) (X := X) (L := L) hsystem state.memory
  rw [← hplaced] at hprepare
  have hresidual : ((controller.continuation state.start).residual t (.ofFn x)
      (.ofFn (flatten controller.divisions U)) (.ofFn (flatten controller.divisions V))).runOn
        placed = (.error (Horizon.early t state.start), placed) := by
    have htrajectory : placed.trajectory = some ⟨.ofNodes (controller.divisions + 1) X,
        .ofNodes (controller.divisions + 1) L⟩ := by
      rw [hplaced]
      rfl
    simp only [Continuation.residual, runOn_bind, runOn_get, runOn_needed, htrajectory,
      runOn_liftM, unflatten_flat hsystem.toScaled]
    rw [Problem.residual_of_lt _ _ _ hlt]
    rfl
  have hsolved : controller.solved t (.ofFn x) state =
      ((.error (Horizon.early t state.start), state.workspace.cleared), placed) := by
    rw [solved, hs.actions, hs.trajectory, hs.direction, hprepare]
    dsimp only
    rw [Tensor.flat_ofNodes, Tensor.flat_ofNodes]
    exact Krylov.Solver.solve_of_error hresidual
  refine ⟨placed, ?_⟩
  rw [runOn_update, hadmitted]
  dsimp only
  rw [runOn_bind, runOn_rates_of_error hsolved]

theorem Carries.update_of_lt (hs : controller.Carries state t₀ U V X L)
    (hc : controller.Serves r h ζ T a) (ht : t < t₀) {period measured : Datum ℝ} {dt : ℝ}
    (hperiod : period.scalar = .ok dt) (hdt : 0 < dt)
    (hx : controller.checkState measured = .ok (.ofFn x)) :
    ∃ state', (controller.update t period measured).runOn state =
      (.error (Horizon.early t state.start), state') := by
  obtain ⟨placed, hupdate⟩ := hs.runOn_update_of_lt hc ht hperiod hdt hx
  exact ⟨_, hupdate⟩

end Controller

/-- The controller of the integrator, seeded at time zero and then asked for a step at time minus
one.  That this is too early is found out inside the solve. -/
theorem unitController_detected_unseen :
    ∃ state state' : Controller.State ℝ,
      unitController.Reachable state ∧ state.initialized = true ∧
      (unitController.perform (.update (.number (.real (-1))) 1
        (.ofTensor (.ofFn (0 : Fin 1 → ℝ))))).runOn state =
          (.error (.beforeStart (.number (.real (-1))) (.number (.real 0))), state') ∧
      (state'.start = state.start ∧ state'.actions = state.actions ∧
        state'.direction = state.direction ∧ state'.trajectory = state.trajectory ∧
        state'.initialized = state.initialized ∧ state'.outcome = state.outcome ∧
        state'.params = state.params) ∧
      ∀ operations, (unitController.performAll operations state').1 =
        (unitController.performAll operations state).1 := by
  obtain ⟨answer, state, hseed⟩ := seed_unitController
  obtain ⟨u, hs⟩ := Controller.seed_spec serves_unitController Nat.one_pos
    Controller.fits_blank.rotations hseed
  have hstart : state.start = .number (.real 0) := by
    obtain ⟨x, params, found, trajectory, -, -, -, -, rfl⟩ := Controller.seed_eq_ok hseed
    rfl
  have hreach : unitController.Reachable state := by
    refine ⟨[.seed (.number (.real 0)) (.ofTensor (.ofFn (0 : Fin 1 → ℝ)))], ?_⟩
    simp only [Controller.performAll, Controller.perform, runOn_map, hseed]
  have hone : (1 : Datum ℝ).scalar = .ok 1 := congrArg Except.ok Int.cast_one
  obtain ⟨state', hupdate⟩ := hs.update_of_lt serves_unitController
    (neg_one_lt_zero : (-1 : ℝ) < 0) hone one_pos (Controller.checkState_eq serves_unitController 0)
  rw [hstart] at hupdate
  have hperform : (unitController.perform (.update (.number (.real (-1))) 1
      (.ofTensor (.ofFn (0 : Fin 1 → ℝ))))).runOn state =
        (.error (.beforeStart (.number (.real (-1))) (.number (.real 0))), state') := by
    rw [Controller.perform, runOn_bind, hupdate]
    rfl
  have hdetects : Controller.Operation.Detects (.update (.number (.real (-1))) 1
      (.ofTensor (.ofFn (0 : Fin 1 → ℝ)))) (Fault.beforeStart (.number (.real (-1)))
        (.number (.real 0))) := rfl
  exact ⟨state, state', hreach, hs.initialized, hperform,
    Controller.detected_unseen check_unitSettings ofSettings_unitSettings
      Regulator.integrator.total (fun a => lt_irrefl a) hreach hdetects hperform⟩

end RecedingHorizon

import RecedingHorizon.Controller.Operation
import RecedingHorizon.Proofs.Detected
import RecedingHorizon.Proofs.InertSystems
import RecedingHorizon.Proofs.Seeded

/-!
# Runs with constraints that say nothing

A controller for a model, and one for the model with inert constraints, are told the same.  What
they carry from one call to the next belongs together: one start, one trajectory, actions with the
same control parts, and rates of change of which the second have multipliers that are zero.  The
multipliers of the second actions are those of the guess from the first seeding on, and zero until
then.

Then both answer a call or both refuse it, and what they carry belongs together after it as well.
Only a search that gives up tells them apart: it reports its last iterate, with the multipliers.

* `Controller.Beside`: the controllers.
* `Controller.State.Beside`: what they carry; `State.Beside.carries`, `State.Beside.of_carries`:
  the solution that both follow.
* `Controller.rates_beside`, `update_beside`, `seed_beside`, `residualNorm_beside`: calls.
* `Controller.Operation.Follows`, `Controller.Reply.Beside`: the calls that follow a solution, and
  what they answer.
* `Controller.perform_beside`, `Controller.performAll_beside`: any of them.
-/

namespace RecedingHorizon

open Stateful

open scoped Matrix

variable {n m k : ℕ}

/-- Outcomes of which the second solution is the first with multipliers that are zero. -/
def Krylov.Outcome.Beside (N m k : ℕ) (o o' : Krylov.Outcome ℝ) : Prop :=
  ∃ v : Fin (N * (m + 0)) → ℝ, o.solution = .ofFn v ∧
    o' = { o with solution := .ofFn (embedding N m k v) }

namespace Controller

/-- The controller with another model, and with a solver for it. -/
abbrev refitted (controller : Controller ℝ) (model : Model ℝ) (solver : Krylov.Solver ℝ) :
    Controller ℝ :=
  { controller with model := model, solver := solver }

/-- A controller for a model with responses, and one for the model with inert constraints. -/
structure Beside (controller : Controller ℝ) (model' : Model ℝ) (solver' : Krylov.Solver ℝ)
    (r : Responses n m 0) (k : ℕ) (h ζ T a : ℝ) : Prop where
  serves : controller.Serves r h ζ T a
  serves' : (controller.refitted model' solver').Serves (r.inert k) h ζ T a
  solver : controller.solver.Beside solver' (controller.divisions * (m + 0))
    (controller.divisions * (m + k))
  /-- Unless told otherwise both search from zero. -/
  defaults : ∃ initial initial' params params', controller.defaultInitParams = .ok initial ∧
    initial.check = .ok params ∧
    (controller.refitted model' solver').defaultInitParams = .ok initial' ∧
    initial'.check = .ok params' ∧ params.Beside m (0 : Fin k → ℝ) params'

/-- What the controllers with and without inert constraints carry, `ρ` being the multipliers of the
guess. -/
structure State.Beside (controller controller' : Controller ℝ) (n m : ℕ) (ρ : Fin k → ℝ)
    (s s' : State ℝ) : Prop where
  start : ∃ t₀ : ℝ, s.start = .number (.real t₀) ∧ s'.start = .number (.real t₀)
  initialized : s'.initialized = s.initialized
  /-- The multipliers of the second are those of the guess, once there is a solution to follow. -/
  actions : ∃ U : ℕ → Fin (m + 0) → ℝ, s.actions.get = .ofNodes controller.divisions U ∧
    s'.actions.get = .ofNodes controller.divisions (prolonged (if s.initialized then ρ else 0) U)
  direction : ∃ V : ℕ → Fin (m + 0) → ℝ, s.direction.get = .ofNodes controller.divisions V ∧
    s'.direction.get = .ofNodes controller.divisions (widened k V)
  trajectory : ∃ X L : ℕ → Fin n → ℝ, s.trajectory.get =
      ⟨.ofNodes (controller.divisions + 1) X, .ofNodes (controller.divisions + 1) L⟩ ∧
    s'.trajectory.get = s.trajectory.get
  outcome : Option.Rel (Krylov.Outcome.Beside controller.divisions m k) s.outcome s'.outcome
  params : Option.Rel (InitParams.Beside m ρ) s.params s'.params
  unset : s.params = none → ρ = 0
  rotations : s.workspace.rotations.length = controller.solver.limit
  rotations' : s'.workspace.rotations.length = controller'.solver.limit

variable {controller : Controller ℝ} {model' : Model ℝ} {solver' : Krylov.Solver ℝ}
  {r : Responses n m 0} {h ζ T a t₀ t : ℝ} {x : Fin n → ℝ} {ρ : Fin k → ℝ} {s s' : State ℝ}
  {U V : ℕ → Fin (m + 0) → ℝ} {X L : ℕ → Fin n → ℝ}

open Continuation in
/-- The rates of change of the actions are the same, with multipliers that are zero, and those of
the trajectory are the same. -/
theorem rates_beside (hc : controller.Beside model' solver' r k h ζ T a)
    (hs : controller.Carries s t₀ U V X L)
    (hs' : (controller.refitted model' solver').Carries s' t₀ (prolonged ρ U) (widened k V) X L)
    (ht : t₀ ≤ t) :
    ∃ (o : Krylov.Outcome ℝ) (v : Fin (controller.divisions * (m + 0)) → ℝ)
      (w w' : Krylov.Workspace ℝ) (memory memory' : Memory ℝ) (X' L' : ℕ → Fin n → ℝ),
      (controller.rates t (.ofFn x)).runOn s =
        (.ok (.ofNodes controller.divisions (unflatten controller.divisions v),
          ⟨.ofNodes (controller.divisions + 1) X', .ofNodes (controller.divisions + 1) L'⟩),
        { s with
          workspace := w
          memory := memory
          outcome := some o
          direction := .pure (.ofNodes controller.divisions
            (unflatten controller.divisions v)) }) ∧
      ((controller.refitted model' solver').rates t (.ofFn x)).runOn s' =
        (.ok (.ofNodes controller.divisions (widened k (unflatten controller.divisions v)),
          ⟨.ofNodes (controller.divisions + 1) X', .ofNodes (controller.divisions + 1) L'⟩),
        { s' with
          workspace := w'
          memory := memory'
          outcome := some { o with solution := .ofFn (embedding controller.divisions m k v) }
          direction := .pure (.ofNodes controller.divisions
            (widened k (unflatten controller.divisions v))) }) ∧
      o.solution = .ofFn v ∧ w.rotations.length = controller.solver.limit ∧
      w'.rotations.length = solver'.limit := by
  have hsystem := hc.serves.replies_continuation s.start
  have hsystem' := hc.serves'.replies_continuation s'.start
  have hlater : t₀ ≤ t + h := ht.trans (le_add_of_nonneg_right hc.serves.step_pos.le)
  obtain ⟨δ, hδ⟩ : ∃ δ, δ = Horizon.reach T a (t - t₀) / controller.divisions := ⟨_, rfl⟩
  obtain ⟨δ', hδ'⟩ : ∃ δ', δ' = Horizon.reach T a (t + h - t₀) / controller.divisions := ⟨_, rfl⟩
  obtain ⟨Y, hY⟩ : ∃ Y, Y = predicted r controller.divisions h t x U := ⟨_, rfl⟩
  have hY' : Y = predicted (r.inert k) controller.divisions h t x (prolonged ρ U) := by
    rw [predicted_prolonged, hY]
  obtain ⟨o, v, w, w', G, G', hsolve, hsolve', hsolution, hw, hw'⟩ := Continuation.solve_beside
    (y := Y) (V := V) hsystem hsystem' (hδ ▸ step_eq hc.serves hs.start ht)
    (hδ ▸ step_eq hc.serves' hs'.start ht) (hδ' ▸ step_eq hc.serves hs.start hlater)
    (hδ' ▸ step_eq hc.serves' hs'.start hlater) rfl rfl hc.solver hs.rotations hs'.rotations
    s.memory.defects s'.memory.defects s.memory.stationarity s'.memory.stationarity
  rw [hY] at hsolve
  rw [hY'] at hsolve'
  have hactions : prolonged ρ U + h • widened k (unflatten controller.divisions v) =
      prolonged ρ (U + h • unflatten controller.divisions v) := by
    rw [← widened_smul, prolonged_add_widened]
  have hrates := rates_of_solve hc.serves hs ht hsolve hsolution rfl hδ' rfl
  have hrates' := rates_of_solve hc.serves' hs' ht hsolve' rfl (unflatten_embedding v).symm hδ' rfl
  rw [hactions, Responses.costates_inert, Responses.states_inert, control_prolonged,
    predicted_prolonged] at hrates'
  exact ⟨o, v, w, w', _, _, _, _, hrates, hrates', hsolution, hw, hw'⟩

/-! ## New controllers -/

/-- Actions that stand still, on vectors. -/
theorem still_eq {controller : Controller ℝ} {d : ℕ} (hdim : controller.model.actionDim = d) :
    controller.still = .ofNodes controller.divisions (0 : ℕ → Fin d → ℝ) := by
  rw [still, actionsShape, hdim, Int.toNat_natCast]
  exact Tensor.zeros_eq_ofNodes

/-- New controllers carry zeros, with whatever parameters that belong together. -/
theorem beside_blank (hc : controller.Beside model' solver' r k h ζ T a)
    {params params' : Option (InitParams ℝ)}
    (hparams : Option.Rel (InitParams.Beside m ρ) params params')
    (hunset : params = none → ρ = 0) :
    State.Beside controller (controller.refitted model' solver') n m ρ
      { controller.blank with params := params }
      { (controller.refitted model' solver').blank with params := params' } where
  start := ⟨0, rfl, rfl⟩
  initialized := rfl
  actions := ⟨0, still_eq hc.serves.model.actionDim, by
    have hzero : prolonged (0 : Fin k → ℝ) (0 : ℕ → Fin (m + 0) → ℝ) = 0 := widened_zero
    exact (still_eq hc.serves'.model.actionDim).trans (congrArg _ hzero.symm)⟩
  direction := ⟨0, still_eq hc.serves.model.actionDim, by
    rw [widened_zero]
    exact still_eq hc.serves'.model.actionDim⟩
  trajectory := by
    have hrest {controller : Controller ℝ} (hdim : controller.model.stateDim = n) :
        controller.rest = ⟨.ofNodes (controller.divisions + 1) (0 : ℕ → Fin n → ℝ),
          .ofNodes (controller.divisions + 1) (0 : ℕ → Fin n → ℝ)⟩ := by
      rw [rest, nodesShape, hdim, Int.toNat_natCast, Tensor.zeros_eq_ofNodes]
      rfl
    have hfirst := hrest hc.serves.model.stateDim
    exact ⟨0, 0, hfirst, (hrest hc.serves'.model.stateDim).trans hfirst.symm⟩
  outcome := .none
  params := hparams
  unset := hunset
  rotations := List.length_replicate
  rotations' := List.length_replicate

/-! ## Steps -/

/-- Where there is a solution to follow, the controllers with and without inert constraints carry
sequences that belong together. -/
theorem State.Beside.carries
    (hs : State.Beside controller (controller.refitted model' solver') n m ρ s s')
    (hinitialized : s.initialized = true) :
    ∃ (t₀ : ℝ) (U V : ℕ → Fin (m + 0) → ℝ) (X L : ℕ → Fin n → ℝ),
      s.start = .number (.real t₀) ∧ s'.start = .number (.real t₀) ∧
      controller.Carries s t₀ U V X L ∧
      (controller.refitted model' solver').Carries s' t₀ (prolonged ρ U) (widened k V) X L := by
  obtain ⟨t₀, hstart, hstart'⟩ := hs.start
  obtain ⟨U, hU, hU'⟩ := hs.actions
  obtain ⟨V, hV, hV'⟩ := hs.direction
  obtain ⟨X, L, hX, hX'⟩ := hs.trajectory
  rw [if_pos hinitialized] at hU'
  refine ⟨t₀, U, V, X, L, hstart, hstart', ?_, ?_⟩
  · exact {
      start := congrArg Datum.scalar hstart
      actions := hU
      direction := hV
      trajectory := hX
      initialized := hinitialized
      rotations := hs.rotations }
  · exact {
      start := congrArg Datum.scalar hstart'
      actions := hU'
      direction := hV'
      trajectory := hX'.trans hX
      initialized := hs.initialized.trans hinitialized
      rotations := hs.rotations' }

/-- States that carry sequences which belong together do so themselves, if outcomes and parameters
do. -/
theorem State.Beside.of_carries {s₁ s₁' : State ℝ}
    (hs : State.Beside controller (controller.refitted model' solver') n m ρ s s')
    (hstart : s₁.start = .number (.real t₀)) (hstart' : s₁'.start = .number (.real t₀))
    (hcarries : controller.Carries s₁ t₀ U V X L)
    (hcarries' : (controller.refitted model' solver').Carries s₁' t₀ (prolonged ρ U)
      (widened k V) X L)
    (houtcome : Option.Rel (Krylov.Outcome.Beside controller.divisions m k) s₁.outcome s₁'.outcome)
    (hparams : s₁.params = s.params) (hparams' : s₁'.params = s'.params) :
    State.Beside controller (controller.refitted model' solver') n m ρ s₁ s₁' where
  start := ⟨t₀, hstart, hstart'⟩
  initialized := hcarries'.initialized.trans hcarries.initialized.symm
  actions := ⟨U, hcarries.actions, by rw [if_pos hcarries.initialized, hcarries'.actions]⟩
  direction := ⟨V, hcarries.direction, hcarries'.direction⟩
  trajectory := ⟨X, L, hcarries.trajectory, hcarries'.trajectory.trans hcarries.trajectory.symm⟩
  outcome := houtcome
  params := by
    rw [hparams, hparams']
    exact hs.params
  unset h := hs.unset (hparams ▸ h)
  rotations := hcarries.rotations
  rotations' := hcarries'.rotations

theorem checkState_beside (hc : controller.Beside model' solver' r k h ζ T a)
    (measured : Datum ℝ) : (controller.refitted model' solver').checkState measured =
      controller.checkState measured := by
  rw [checkState, checkState, hc.serves.model.stateDim, hc.serves'.model.stateDim]

/-- The multipliers of inert constraints are not applied: the first control is the same. -/
theorem firstControl_beside (hc : controller.Beside model' solver' r k h ζ T a) (ρ : Fin k → ℝ)
    (U : ℕ → Fin (m + 0) → ℝ) :
    ∃ u, controller.firstControl (.ofNodes controller.divisions U) = .ok u ∧
      (controller.refitted model' solver').firstControl
        (.ofNodes controller.divisions (prolonged ρ U)) = .ok u := by
  by_cases hN : controller.divisions = 0
  · exact ⟨.ofVec [], if_pos hN, if_pos hN⟩
  · have hpos := Nat.pos_of_ne_zero hN
    have hfirst : control (prolonged ρ U 0) = control (U 0) := control_extended ρ (U 0)
    exact ⟨_, firstControl_eq hc.serves hpos U, hfirst ▸ firstControl_eq hc.serves' hpos _⟩

/-- With and without inert constraints a step is answered or refused alike, with the same control.
-/
theorem update_beside (hc : controller.Beside model' solver' r k h ζ T a) (t : ℝ)
    (period measured : Datum ℝ) :
    Abreast (State.Beside controller (controller.refitted model' solver') n m ρ) (Fault.Inert m ρ)
      Eq (controller.update t period measured)
      ((controller.refitted model' solver').update t period measured) := by
  intro s s' hs
  have hsame : (controller.refitted model' solver').admitted period measured s' =
      controller.admitted period measured s := by
    rw [admitted, admitted, hs.initialized, checkState_beside hc]
  rcases hadmitted : controller.admitted period measured s with fault | y
  · rw [runOn_update, runOn_update, hsame, hadmitted]
    exact ⟨.error (.same fault), hs⟩
  · obtain ⟨hinitialized, hpositive, hcheck⟩ := of_admitted hadmitted
    obtain ⟨dt, hperiod, hdt⟩ := Datum.scalar_of_isPositive hpositive
    obtain ⟨x, rfl⟩ := exists_state hc.serves hcheck
    have hcheck' := (checkState_beside hc measured).trans hcheck
    obtain ⟨t₀, U, V, X, L, hstart, hstart', hcarries, hcarries'⟩ := hs.carries hinitialized
    rcases le_or_gt t₀ t with ht | ht
    · obtain ⟨o, v, w, w', memory, memory', X', L', hrates, hrates', hsolution, hw, hw'⟩ :=
        rates_beside (x := x) hc hcarries hcarries' ht
      obtain ⟨u, hu, hu'⟩ := firstControl_beside hc ρ
        (U + dt • unflatten controller.divisions v)
      rw [← prolonged_add_widened, widened_smul] at hu'
      obtain ⟨s₁, hrun, hkept, hnext, houtcome⟩ :=
        update_of_rates hcarries hcheck hperiod hdt hrates hw hu
      obtain ⟨s₁', hrun', hkept', hnext', houtcome'⟩ :=
        update_of_rates hcarries' hcheck' hperiod hdt hrates' hw' hu'
      have hparams : s₁.params = s.params :=
        congrArg (fun run => run.2.params) hrun ▸ (steady_params s.params).update _ _ _ s rfl
      have hparams' : s₁'.params = s'.params :=
        congrArg (fun run => run.2.params) hrun' ▸ (steady_params s'.params).update _ _ _ s' rfl
      rw [hrun, hrun']
      rw [← widened_smul, prolonged_add_widened] at hnext'
      refine ⟨.ok rfl, hs.of_carries (hkept.trans hstart) (hkept'.trans hstart') hnext hnext' ?_
        hparams hparams'⟩
      rw [houtcome, houtcome']
      exact .some ⟨v, hsolution, rfl⟩
    · obtain ⟨placed, hrun⟩ := hcarries.runOn_update_of_lt hc.serves ht hperiod hdt hcheck
      obtain ⟨placed', hrun'⟩ := hcarries'.runOn_update_of_lt hc.serves' ht hperiod hdt hcheck'
      rw [hrun, hrun', hstart, hstart']
      exact ⟨.error (.same _), { hs with }⟩

/-! ## Seeding -/

/-- With and without inert constraints the parameters that are chosen belong together. -/
theorem chosenParams_beside (hc : controller.Beside model' solver' r k h ζ T a)
    (hs : State.Beside controller (controller.refitted model' solver') n m ρ s s') :
    ∃ params params', controller.chosenParams s = .ok params ∧
      (controller.refitted model' solver').chosenParams s' = .ok params' ∧
      params.Beside m ρ params' := by
  have hparams := hs.params
  rw [chosenParams, chosenParams]
  rcases hset : s.params with _ | params
  · rw [hset] at hparams
    obtain ⟨initial, initial', params, params', hinitial, hcheck, hinitial', hcheck', hbeside⟩ :=
      hc.defaults
    generalize s'.params = set' at hparams ⊢
    cases hparams
    dsimp only
    rw [hinitial, hinitial', ok_bind, ok_bind, hcheck, hcheck', hs.unset hset]
    exact ⟨params, params', rfl, rfl, hbeside⟩
  · rw [hset] at hparams
    generalize s'.params = set' at hparams ⊢
    cases hparams with
    | some hbeside => exact ⟨_, _, rfl, rfl, hbeside⟩

/-- With and without inert constraints the searches set out from one state and find actions that
belong together. -/
theorem search_beside (hc : controller.Beside model' solver' r k h ζ T a)
    (hs : State.Beside controller (controller.refitted model' solver') n m ρ s s') (t : ℝ)
    (measured : Datum ℝ) :
    Tally (Fault.Inert m ρ) (fun found found' => ∃ x : Fin n → ℝ, found.1 = .ofFn x ∧
        found'.1 = .ofFn x ∧ found.2.Beside m ρ found'.2)
      (controller.search t measured s)
      ((controller.refitted model' solver').search t measured s') := by
  obtain ⟨params, params', hparams, hparams', hbeside⟩ := chosenParams_beside hc hs
  rw [search, search, checkState_beside hc, hparams, hparams']
  refine .same_bind .same _ fun y hy => ?_
  obtain ⟨x, rfl⟩ := exists_state hc.serves hy
  rw [ok_bind, ok_bind]
  refine (Newton.solve_beside hc.serves.model hc.serves'.model hbeside t x _).bind ?_
  exact fun found found' hfound => .ok ⟨x, rfl, rfl, hfound⟩

/-- With and without inert constraints one trajectory is shot from actions that belong together. -/
theorem shoot_beside (hc : controller.Beside model' solver' r k h ζ T a) (t : ℝ) (x : Fin n → ℝ)
    (ρ : Fin k → ℝ) (u : Fin (m + 0) → ℝ) :
    ∃ X L : ℕ → Fin n → ℝ, controller.shoot t (.ofFn x) (.ofFn u) =
        .ok ⟨.ofNodes (controller.divisions + 1) X, .ofNodes (controller.divisions + 1) L⟩ ∧
      (controller.refitted model' solver').shoot t (.ofFn x) (.ofFn (extended ρ u)) =
        .ok ⟨.ofNodes (controller.divisions + 1) X, .ofNodes (controller.divisions + 1) L⟩ := by
  have hcontrol : (fun _ : ℕ => control (extended ρ u)) = fun _ => u :=
    funext fun _ => control_extended ρ u
  obtain ⟨δ, hδ⟩ : ∃ δ, δ = Horizon.reach T a (t - t) / controller.divisions := ⟨_, rfl⟩
  refine ⟨r.states t δ x (fun _ => u) 0,
    r.costates t δ (r.states t δ x (fun _ => u) 0) (fun _ => u) 0 controller.divisions, ?_, ?_⟩
  · rw [shoot, step_eq hc.serves rfl le_rfl, ok_bind, condense_replicate hc.serves, hδ]
  · rw [shoot, step_eq hc.serves' rfl le_rfl, ok_bind, condense_replicate hc.serves',
      Responses.costates_inert, Responses.states_inert, hcontrol, hδ]

/-- With and without inert constraints a seeding is answered or refused alike, with the same
control. -/
theorem seed_beside (hc : controller.Beside model' solver' r k h ζ T a) (t : ℝ)
    (measured : Datum ℝ) :
    Abreast (State.Beside controller (controller.refitted model' solver') n m ρ) (Fault.Inert m ρ)
      Eq (controller.seed t measured) ((controller.refitted model' solver').seed t measured) := by
  intro s s' hs
  have hsearch := search_beside hc hs t measured
  rw [runOn_seed, runOn_seed]
  generalize controller.search t measured s = search at hsearch ⊢
  generalize (controller.refitted model' solver').search t measured s' = search' at hsearch ⊢
  cases hsearch with
  | error hfault => exact ⟨.error hfault, hs⟩
  | @ok found found' hfound =>
      obtain ⟨y, solution⟩ := found
      obtain ⟨y', solution'⟩ := found'
      obtain ⟨x, rfl, rfl, ⟨u, hu, hu'⟩, -, -⟩ := hfound
      obtain ⟨X, L, hshoot, hshoot'⟩ := shoot_beside hc t x ρ u
      dsimp only at hu hu' ⊢
      rw [hu, hu', hshoot, hshoot', hc.serves.model.control, hc.serves'.model.control,
        control_extended]
      refine ⟨.ok rfl, ?_⟩
      exact {
        start := ⟨t, rfl, rfl⟩
        initialized := rfl
        actions := ⟨fun _ => u, Tensor.replicate_ofFn u, Tensor.replicate_ofFn (extended ρ u)⟩
        direction := ⟨0, still_eq hc.serves.model.actionDim, by
          rw [widened_zero]
          exact still_eq hc.serves'.model.actionDim⟩
        trajectory := ⟨X, L, rfl, rfl⟩
        outcome := hs.outcome
        params := hs.params
        unset := hs.unset
        rotations := hs.rotations
        rotations' := hs.rotations' }

/-! ## Any calls -/

/-- The residual of what is carried has one norm: that of the constraints is zero. -/
theorem residual_beside (hc : controller.Beside model' solver' r k h ζ T a)
    (hcarries : controller.Carries s t₀ U V X L)
    (hcarries' : (controller.refitted model' solver').Carries s' t₀ (prolonged ρ U)
      (widened k V) X L) (ht : t₀ ≤ t) :
    ∃ residual residual', controller.residual s t (.ofFn x) = .ok residual ∧
      (controller.refitted model' solver').residual s' t (.ofFn x) = .ok residual' ∧
      residual'.norm = residual.norm := by
  obtain ⟨p, hp⟩ : ∃ p, p = controller.point h T a t₀ t x U X L := ⟨_, rfl⟩
  obtain ⟨p', hp'⟩ : ∃ p', p' = (controller.refitted model' solver').point h T a t₀ t x
    (prolonged ρ U) X L := ⟨_, rfl⟩
  have hpresent : p'.present (r.inert k) = widened k (p.present r) := by
    rw [hp, hp', Continuation.Point.present, Responses.stationarity_inert]
    exact congrArg (fun a => widened k (r.stationarity t _ x a X L)) (control_prolonged ρ U)
  have hstates : p'.stateDefects (r.inert k) = p.stateDefects r := by
    rw [hp, hp', Continuation.Point.stateDefects, Responses.stateDefects_inert]
    exact congrArg (fun a => r.stateDefects t _ x a X) (control_prolonged ρ U)
  have hcostates : p'.costateDefects (r.inert k) controller.divisions =
      p.costateDefects r controller.divisions := by
    rw [hp, hp', Continuation.Point.costateDefects, Responses.costateDefects_inert]
    exact congrArg (fun a => r.costateDefects t _ a X L _) (control_prolonged ρ U)
  refine ⟨_, _, residual_spec hc.serves hcarries ht hp, residual_spec hc.serves' hcarries' ht hp',
    ?_⟩
  rw [hpresent, hstates, hcostates, Residual.norm_ofNodes, Residual.norm_ofNodes]
  have hsame (i : ℕ) : widened k (p.present r) i ⬝ᵥ widened k (p.present r) i =
      p.present r i ⬝ᵥ p.present r i := isIsometric_extension _ _
  simp only [hsame]

/-- With and without inert constraints the norms of the residuals are the same. -/
theorem residualNorm_beside (hc : controller.Beside model' solver' r k h ζ T a) (t : ℝ)
    (measured : Datum ℝ) :
    Abreast (State.Beside controller (controller.refitted model' solver') n m ρ) (Fault.Inert m ρ)
      Eq (controller.residualNorm t measured)
      ((controller.refitted model' solver').residualNorm t measured) := by
  intro s s' hs
  rw [runOn_residualNorm_eq, runOn_residualNorm_eq, hs.initialized, checkState_beside hc]
  refine ⟨?_, hs⟩
  cases hinitialized : s.initialized with
  | false => exact .error (.same _)
  | true =>
      rw [if_pos rfl, if_pos rfl]
      refine .same_bind .same _ fun y hy => ?_
      obtain ⟨x, rfl⟩ := exists_state hc.serves hy
      obtain ⟨t₀, U, V, X, L, hstart, hstart', hcarries, hcarries'⟩ := hs.carries hinitialized
      rcases le_or_gt t₀ t with ht | ht
      · obtain ⟨residual, residual', hresidual, hresidual', hnorm⟩ :=
          residual_beside (x := x) hc hcarries hcarries' ht
        rw [hresidual, hresidual']
        exact .ok hnorm.symm
      · have hlt : (Datum.number (.real t)).lt (.number (.real t₀)) = .ok true := by
          rw [Datum.lt_of_scalar rfl rfl, decide_eq_true ht]
        rw [residual, residual, hstart, hstart', Problem.residual_of_lt _ _ _ hlt,
          Problem.residual_of_lt _ _ _ hlt]
        exact .error (.same _)

/-- The calls that follow a solution, at real times. -/
inductive Operation.Follows : Operation ℝ → Prop
  | seed (t : ℝ) (measured : Datum ℝ) : Follows (.seed t measured)
  | update (t : ℝ) (period measured : Datum ℝ) : Follows (.update t period measured)
  | residualNorm (t : ℝ) (measured : Datum ℝ) : Follows (.residualNorm t measured)

/-- Replies with the same controls and norms, and with outcomes that belong together. -/
inductive Reply.Beside (N m k : ℕ) : Reply ℝ → Reply ℝ → Prop
  | done : Beside N m k .done .done
  | array (control : Tensor ℝ) : Beside N m k (.array control) (.array control)
  | updated (control : Tensor ℝ) {outcome outcome' : Option (Krylov.Outcome ℝ)} :
      Option.Rel (Krylov.Outcome.Beside N m k) outcome outcome' →
        Beside N m k (.updated control outcome) (.updated control outcome')
  | scalar (norm : ℝ) : Beside N m k (.scalar norm) (.scalar norm)

/-- With and without inert constraints each call is answered by both controllers or refused by both.
-/
theorem perform_beside (hc : controller.Beside model' solver' r k h ζ T a)
    {operation : Operation ℝ} (hoperation : operation.Follows) :
    Abreast (State.Beside controller (controller.refitted model' solver') n m ρ) (Fault.Inert m ρ)
      (Reply.Beside controller.divisions m k) (controller.perform operation)
      ((controller.refitted model' solver').perform operation) := by
  cases hoperation with
  | seed t measured =>
      refine (seed_beside hc t measured).map ?_
      rintro control _ rfl
      exact .array control
  | update t period measured =>
      refine (update_beside hc t period measured).bind ?_
      rintro control _ rfl
      exact .get_bind fun s s' hs => .pure (.updated control hs.outcome)
  | residualNorm t measured =>
      refine (residualNorm_beside hc t measured).map ?_
      rintro norm _ rfl
      exact .scalar norm

/-- With and without inert constraints any sequence of calls is answered or refused call by call
alike, and leaves what belongs together. -/
theorem performAll_beside (hc : controller.Beside model' solver' r k h ζ T a)
    {operations : List (Operation ℝ)} (hoperations : ∀ o ∈ operations, o.Follows)
    (hs : State.Beside controller (controller.refitted model' solver') n m ρ s s') :
    List.Forall₂ (Tally (Fault.Inert m ρ) (Reply.Beside controller.divisions m k))
        (controller.performAll operations s).1
        ((controller.refitted model' solver').performAll operations s').1 ∧
      State.Beside controller (controller.refitted model' solver') n m ρ
        (controller.performAll operations s).2
        ((controller.refitted model' solver').performAll operations s').2 := by
  induction operations generalizing s s' with
  | nil => exact ⟨.nil, hs⟩
  | cons operation operations ih =>
      obtain ⟨hfirst, hrest⟩ := List.forall_mem_cons.1 hoperations
      obtain ⟨hreply, hleft⟩ := perform_beside hc hfirst s s' hs
      obtain ⟨hreplies, hend⟩ := ih hrest hleft
      exact ⟨.cons hreply hreplies, hend⟩

end Controller

end RecedingHorizon

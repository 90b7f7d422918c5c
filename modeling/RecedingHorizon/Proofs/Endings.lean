import RecedingHorizon.Proofs.Remembered

/-!
# How calls end

A call that fails leaves behind what it had changed by then.  Where each call can fail, and
what it has changed when it does, is said here once, and no later argument opens a call
again.

Seeding is a search and then a shot.  The search looks at the state and changes nothing.
The action it finds is planted before the trajectory is shot from it, so that a shot that
fails leaves the action behind without its trajectory.

A step is admitted or refused, solves for a direction, finds the rate of change of the
trajectory along it, and follows both for a sampling period.  The solution is remembered as
soon as there is one.  Nothing else is written before all that the model is asked for has been
answered.

* `Controller.search`, `Controller.shoot`, `Controller.planted`: the two parts of seeding,
  and what is left between them; `runOn_seed`, `seed_eq_ok`, `seed_eq_error`, and
  `preserves_seed_of` for what neither part touches.
* `Controller.admitted`, `Controller.solved`, `Controller.follow`: the parts of a step;
  `workspace_rates`, `preserves_follow`: what they leave alone.
* `Controller.worked`, `Controller.directed`: what is left between them; `update_eq_error`.
-/

namespace RecedingHorizon

variable {α : Type} [Scalar α]

namespace Controller

open Stateful

variable {controller : Controller α}

/-! ## What a controller is made from -/

/-- A controller keeps the model and the settings it is made from. -/
theorem model_ofSettings {model : Model α} {settings : Settings α}
    (h : ofSettings model settings = .ok controller) :
    controller.model = model ∧ controller.settings = settings := by
  obtain ⟨solver, -, h⟩ := bind_eq_ok_iff.1 h
  obtain ⟨_, -, h⟩ := bind_eq_ok_iff.1 h
  obtain ⟨_, -, h⟩ := bind_eq_ok_iff.1 h
  cases h
  exact ⟨rfl, rfl⟩

/-! ## Parameters -/

/-- Parameters that pass their checks, with a guess of the right length, are set. -/
theorem perform_setInitParams {given : Arguments α} {draft : InitParams.Draft α}
    {params : InitParams α} {state : State α}
    (hgiven : InitParams.Draft.ofArguments given = .ok draft)
    (hcheck : draft.check = .ok params)
    (hlength : (params.guess.length : ℤ) = controller.model.actionDim) :
    (controller.perform (.setInitParams given)).runOn state =
      (.ok .done, { state with params := some params }) := by
  rw [perform, hgiven, runOn_ok_bind, setInitParams, hcheck, runOn_bind, runOn_ok_bind,
    if_neg (not_not_intro hlength)]
  rfl

/-! ## Seeding -/

/-- The parameters of the initial solve: those that have been set, or the default ones. -/
def chosenParams (controller : Controller α) (state : State α) :
    Except (Fault α) (InitParams α) :=
  match state.params with
  | some params => .ok params
  | none => do (← controller.defaultInitParams).check

/-- The state that is seeded from, and what the search finds there. -/
def search (controller : Controller α) (t measured : Datum α) (state : State α) :
    Except (Fault α) (Tensor α × Newton.Solution α) := do
  let x ← controller.checkState measured
  let params ← controller.chosenParams state
  let found ← Newton.solve controller.model t x params (.number (.whole controller.divisions))
  return (x, found)

/-- The trajectory shot from an action that is taken at every step of a horizon that starts now. -/
def shoot (controller : Controller α) (t : Datum α) (x action : Tensor α) :
    Except (Fault α) (Trajectory α) := do
  let δ ← (controller.horizon t).step t
  controller.model.condense t x (action.replicate controller.divisions) (.number (.real δ)) none

/-- The state with an action planted at every step, and the horizon started. -/
def planted (controller : Controller α) (state : State α) (t : Datum α) (action : Tensor α) :
    State α :=
  { state with
    start := t
    actions := .pure (action.replicate controller.divisions)
    direction := Thunk.mk fun _ => controller.still }

/-- Seeding is a search, the planting of what it has found, and a shot. -/
theorem runOn_seed (t measured : Datum α) (state : State α) :
    (controller.seed t measured).runOn state =
      match controller.search t measured state with
      | .error fault => (.error fault, state)
      | .ok (x, found) =>
          match controller.shoot t x found.action with
          | .error fault => (.error fault, controller.planted state t found.action)
          | .ok trajectory =>
              (controller.model.control found.action,
                { controller.planted state t found.action with
                  trajectory := .pure trajectory
                  initialized := true }) := by
  rw [seed, search]
  rcases controller.checkState measured with fault | x
  · rfl
  · rw [runOn_ok_bind, runOn_get_bind, ok_bind, chosenParams]
    extract_lets rest
    have hrest (params : InitParams α) : (rest params).runOn state =
        match (do
          let found ← Newton.solve controller.model t x params
            (.number (.whole controller.divisions))
          return (x, found)) with
        | .error fault => (.error fault, state)
        | .ok (x, found) =>
            match controller.shoot t x found.action with
            | .error fault => (.error fault, controller.planted state t found.action)
            | .ok trajectory =>
                (controller.model.control found.action,
                  { controller.planted state t found.action with
                    trajectory := .pure trajectory
                    initialized := true }) := by
      rcases hsolve : Newton.solve controller.model t x params
        (.number (.whole controller.divisions)) with fault | found
      · simp only [rest, runOn_bind, runOn_liftM, hsolve]
        rfl
      · simp only [rest, runOn_bind, runOn_liftM, hsolve, runOn_modify, shoot, ok_bind,
          pure_eq_ok]
        rcases (controller.horizon t).step t with fault | δ
        · rfl
        · rw [ok_bind]
          dsimp only
          rcases controller.model.condense t x (found.action.replicate controller.divisions)
            (.number (.real δ)) none with fault | trajectory
          · rfl
          · rfl
    cases state.params with
    | some params => exact hrest params
    | none =>
        rcases controller.defaultInitParams with fault | draft
        · rfl
        · rcases hcheck : draft.check with fault | params
          · dsimp only
            rw [runOn_ok_bind, hcheck, ok_bind, hcheck]
            rfl
          · dsimp only
            rw [runOn_ok_bind, hcheck, ok_bind, hcheck, runOn_ok_bind]
            exact hrest params

/-- What a search that has answered has found. -/
theorem search_eq_ok {t measured : Datum α} {state : State α} {x : Tensor α}
    {found : Newton.Solution α} (h : controller.search t measured state = .ok (x, found)) :
    ∃ params, controller.checkState measured = .ok x ∧
      controller.chosenParams state = .ok params ∧
      Newton.solve controller.model t x params (.number (.whole controller.divisions)) =
        .ok found := by
  obtain ⟨y, hy, h⟩ := bind_eq_ok_iff.1 h
  obtain ⟨params, hparams, h⟩ := bind_eq_ok_iff.1 h
  obtain ⟨solution, hsolution, h⟩ := bind_eq_ok_iff.1 h
  cases h
  exact ⟨params, hy, hparams, hsolution⟩

/-- What a seeding that has answered has found, and left. -/
theorem seed_eq_ok {t measured : Datum α} {state state' : State α} {answer : Tensor α}
    (h : (controller.seed t measured).runOn state = (.ok answer, state')) :
    ∃ x params found trajectory, controller.checkState measured = .ok x ∧
      controller.chosenParams state = .ok params ∧
      Newton.solve controller.model t x params (.number (.whole controller.divisions)) =
        .ok found ∧
      controller.shoot t x found.action = .ok trajectory ∧
      state' = { controller.planted state t found.action with
        trajectory := .pure trajectory
        initialized := true } := by
  rw [runOn_seed] at h
  rcases hsearch : controller.search t measured state with fault | ⟨x, found⟩
  · rw [hsearch] at h
    cases h
  · rw [hsearch] at h
    dsimp only at h
    rcases hshoot : controller.shoot t x found.action with fault | trajectory
    · rw [hshoot] at h
      cases h
    · rw [hshoot] at h
      obtain ⟨-, rfl⟩ := Prod.mk.inj h
      obtain ⟨params, hx, hparams, hfound⟩ := search_eq_ok hsearch
      exact ⟨x, params, found, trajectory, hx, hparams, hfound, hshoot, rfl⟩

/-- A seeding that fails has failed to find an action, and left nothing; or to shoot the
trajectory from it. -/
theorem seed_eq_error {t measured : Datum α} {state state' : State α} {fault : Fault α}
    (h : (controller.seed t measured).runOn state = (.error fault, state')) :
    (controller.search t measured state = .error fault ∧ state' = state) ∨
      ∃ x found, controller.search t measured state = .ok (x, found) ∧
        controller.shoot t x found.action = .error fault ∧
        state' = controller.planted state t found.action := by
  rw [runOn_seed] at h
  rcases hsearch : controller.search t measured state with fault' | ⟨x, found⟩
  · rw [hsearch] at h
    cases h
    exact .inl ⟨rfl, rfl⟩
  · rw [hsearch] at h
    dsimp only at h
    rcases hshoot : controller.shoot t x found.action with fault' | trajectory
    · rw [hshoot] at h
      cases h
      exact .inr ⟨x, found, rfl, hshoot, rfl⟩
    · -- the action that is found has an index, and so a control part
      obtain ⟨params, -, -, hfound⟩ := search_eq_ok hsearch
      obtain ⟨u, hu⟩ := controller.model.exists_control (Newton.shape_solve hfound)
      rw [hshoot, hu] at h
      cases h

/-- A seeding preserves what planting an action and shooting a trajectory preserve. -/
theorem preserves_seed_of {I : State α → Prop} {t : Datum α}
    (hplant : ∀ s action, I s → I (controller.planted s t action))
    (hshoot : ∀ s trajectory, I s →
      I { s with trajectory := .pure trajectory, initialized := true }) (measured : Datum α) :
    Preserves I (controller.seed t measured) := by
  intro s hs
  rw [runOn_seed]
  split
  · exact hs
  · split
    · exact hplant s _ hs
    · exact hshoot _ _ (hplant s _ hs)

/-! ## A step -/

/-- What a step takes for the current state, unless it refuses. -/
def admitted (controller : Controller α) (period measured : Datum α) (state : State α) :
    Except (Fault α) (Tensor α) := do
  if !state.initialized then throw .uninitialized
  if !(← period.isPositive) then throw (.unmet .samplingPeriod .positive period)
  controller.checkState measured

/-- The linear solve of a step, and what it leaves in the workspace and in memory. -/
def solved (controller : Controller α) (t : Datum α) (x : Tensor α) (state : State α) :
    (Except (Fault α) (Krylov.Outcome α) × Krylov.Workspace α) × Continuation.Memory α :=
  match ((controller.continuation state.start).prepare t x state.actions.get
    state.trajectory.get).runOn state.memory with
  | (.error fault, memory) => ((.error fault, state.workspace), memory)
  | (.ok _, memory) =>
      (controller.solver.solve ((controller.continuation state.start).linearized t x
        state.actions.get.flat) (some state.direction.get.flat) state.workspace).run memory

/-- The state once the linear solve has come to its end. -/
def worked (state : State α) (w : Krylov.Workspace α) (memory : Continuation.Memory α) : State α :=
  { state with workspace := w, memory := memory }

/-- The state once the direction that was solved for is known. -/
def directed (state : State α) (w : Krylov.Workspace α) (memory : Continuation.Memory α)
    (outcome : Krylov.Outcome α) (direction : Tensor α) : State α :=
  { worked state w memory with outcome := some outcome, direction := .pure direction }

variable {t : Datum α} {x : Tensor α} {state : State α} {w : Krylov.Workspace α}
variable {memory : Continuation.Memory α}

/-- A solve that has come to an outcome has started where the point was set. -/
theorem solved_eq_ok {outcome : Krylov.Outcome α}
    (h : controller.solved t x state = ((.ok outcome, w), memory)) :
    ∃ placed, ((controller.continuation state.start).prepare t x state.actions.get
        state.trajectory.get).runOn state.memory = (.ok (), placed) ∧
      (controller.solver.solve ((controller.continuation state.start).linearized t x
        state.actions.get.flat) (some state.direction.get.flat) state.workspace).run placed =
          ((.ok outcome, w), memory) := by
  rw [solved] at h
  rcases hprepare : ((controller.continuation state.start).prepare t x state.actions.get
    state.trajectory.get).runOn state.memory with ⟨fault | _, placed⟩
  · rw [hprepare] at h
    cases h
  · rw [hprepare] at h
    exact ⟨placed, rfl, h⟩

/-- A step whose linear system has no solution has no rates of change. -/
theorem runOn_rates_of_error {fault : Fault α}
    (h : controller.solved t x state = ((.error fault, w), memory)) :
    (controller.rates t x).runOn state = (.error fault, worked state w memory) := by
  rw [rates, runOn_get_bind]
  rw [solved] at h
  rcases hprepare : ((controller.continuation state.start).prepare t x state.actions.get
    state.trajectory.get).runOn state.memory with ⟨fault' | _, memory'⟩
  · rw [hprepare] at h
    cases h
    simp only [hprepare, runOn_bind, runOn_modify, runOn_liftM]
    rfl
  · rw [hprepare] at h
    dsimp only at h
    simp only [hprepare, h, runOn_bind, runOn_modify, runOn_liftM]
    rfl

/-- A step whose linear system has a solution finds rates of change along its direction, which is
remembered. -/
theorem runOn_rates_of_ok {outcome : Krylov.Outcome α} {direction : Tensor α}
    (h : controller.solved t x state = ((.ok outcome, w), memory))
    (hdirection : (controller.continuation state.start).unflatten outcome.solution =
      .ok direction) :
    (controller.rates t x).runOn state =
      (((controller.continuation state.start).rateFrom memory state.actions.get direction).map
        fun rate => (direction, rate), directed state w memory outcome direction) := by
  obtain ⟨placed, hprepare, hsolve⟩ := solved_eq_ok h
  rw [rates, runOn_get_bind]
  simp only [hprepare, hsolve, runOn_bind, runOn_modify, runOn_liftM, hdirection,
    Continuation.runOn_trajectoryRate]
  rcases (controller.continuation state.start).rateFrom memory state.actions.get
    direction with fault | rate
  · rfl
  · rfl

/-- What a step does with the rates of change once they are found. -/
def follow (controller : Controller α) (period : Datum α) (rates : Tensor α × Trajectory α) :
    Stateful (State α) α (Tensor α) := do
  let (direction, rate) := rates
  let actions ← advanced period (← get).actions.get direction
  modify fun state => { state with actions := .pure actions }
  let trajectory := (← get).trajectory.get
  let states ← advanced period trajectory.states rate.states
  modify fun state => { state with trajectory := .pure { trajectory with states } }
  let costates ← advanced period trajectory.costates rate.costates
  modify fun state => { state with trajectory := .pure { states, costates } }
  controller.firstControl actions

/-- Where rates of change are followed, the actions and the trajectory change and nothing else. -/
theorem preserves_follow {I : State α → Prop}
    (h : ∀ s actions trajectory, I s → I { s with actions := actions, trajectory := trajectory })
    (period : Datum α) (rates : Tensor α × Trajectory α) :
    Preserves I (controller.follow period rates) := by
  refine Preserves.get_bind fun _ _ => Preserves.bind (Preserves.liftM _) fun _ => ?_
  refine Preserves.bind (Preserves.modify fun s hs => h s _ s.trajectory hs) fun _ => ?_
  refine Preserves.get_bind fun _ _ => Preserves.bind (Preserves.liftM _) fun _ => ?_
  refine Preserves.bind (Preserves.modify fun s hs => h s s.actions _ hs) fun _ => ?_
  refine Preserves.bind (Preserves.liftM _) fun _ => ?_
  refine Preserves.bind (Preserves.modify fun s hs => h s s.actions _ hs) fun _ => ?_
  exact Preserves.liftM _

omit [Scalar α] in
theorem runOn_requireInitialized (state : State α) :
    (requireInitialized : Stateful (State α) α Unit).runOn state =
      (if state.initialized = true then .ok ⟨⟩ else .error .uninitialized, state) := by
  rw [requireInitialized, runOn_get_bind]
  cases state.initialized with
  | false => rfl
  | true => rfl

/-- A step is admitted where there is a solution, for a positive period and an accepted state. -/
theorem of_admitted {period measured : Datum α} {state : State α} {x : Tensor α}
    (h : controller.admitted period measured state = .ok x) :
    state.initialized = true ∧ period.isPositive = .ok true ∧
      controller.checkState measured = .ok x := by
  rw [admitted] at h
  cases hinitialized : state.initialized with
  | false =>
      rw [hinitialized] at h
      cases h
  | true =>
      rw [hinitialized] at h
      obtain ⟨positive, hpositive, h⟩ := bind_eq_ok_iff.1 h
      cases positive with
      | false => cases h
      | true => exact ⟨rfl, hpositive, h⟩

/-- A step that is admitted has a period that is a number, and a state of its dimension. -/
theorem admitted_eq_ok {period measured : Datum α} {state : State α} {x : Tensor α}
    (h : controller.admitted period measured state = .ok x) :
    ∃ k, period.number? = some k ∧ x.shape = [controller.model.stateDim.toNat] := by
  obtain ⟨-, hpositive, hcheck⟩ := of_admitted h
  obtain ⟨k, hk⟩ := Datum.exists_number_of_isPositive hpositive
  exact ⟨k, hk, shape_checkState hcheck⟩

/-- A step is admitted, finds rates of change and follows them. -/
theorem runOn_update (t period measured : Datum α) (state : State α) :
    (controller.update t period measured).runOn state =
      match controller.admitted period measured state with
      | .error fault => (.error fault, state)
      | .ok x => (controller.rates t x >>= controller.follow period).runOn state := by
  rw [update, admitted, runOn_bind, runOn_requireInitialized]
  cases state.initialized with
  | false => rfl
  | true =>
      rw [if_pos rfl]
      dsimp only
      rcases period.isPositive with fault | positive
      · rfl
      · rw [runOn_ok_bind, ok_bind]
        cases positive with
        | false => rfl
        | true =>
            rw [if_neg (by decide), if_neg (by decide)]
            rcases controller.checkState measured with fault | x
            · rfl
            · rfl

/-- Followed for a period that has a scalar, an array has a value. -/
theorem exists_advanced {period : Datum α} {k : Number α} {c : α} {a rate : Tensor α}
    (hnumber : period.number? = some k) (hperiod : period.scalar = .ok c)
    (h : rate.shape = a.shape) : ∃ b, advanced period a rate = .ok b := by
  rw [advanced, Tensor.scaleBy, Tensor.meet_of_number _ _ hnumber, hperiod]
  exact Tensor.exists_increase h

omit [Scalar α] in
/-- A sequence of actions of the right shape has a control to apply first. -/
theorem exists_firstControl {actions : Tensor α} (ha : actions.shape = controller.actionsShape) :
    ∃ u, controller.firstControl actions = .ok u := by
  rw [firstControl]
  by_cases hN : controller.divisions = 0
  · rw [if_pos hN]
    exact ⟨_, rfl⟩
  · obtain ⟨action, haction⟩ := Tensor.exists_item ha (Nat.pos_of_ne_zero hN)
    rw [if_neg hN, haction, ok_bind]
    exact controller.model.exists_control (Tensor.shape_item ha haction)

/-- Rates of change that have been found can be followed, unless the period has no scalar; and then
nothing has changed. -/
theorem follow_eq_error {period : Datum α} {k : Number α} {direction : Tensor α}
    {rate : Trajectory α} {fault : Fault α} {state' : State α}
    (hnumber : period.number? = some k)
    (hactions : state.actions.get.shape = controller.actionsShape)
    (hdirection : direction.shape = state.actions.get.shape)
    (hstates : rate.states.shape = state.trajectory.get.states.shape)
    (hcostates : rate.costates.shape = state.trajectory.get.costates.shape)
    (h : (controller.follow period (direction, rate)).runOn state = (.error fault, state')) :
    period.scalar = .error fault ∧ state' = state := by
  rw [follow] at h
  dsimp only at h
  rw [runOn_get_bind] at h
  rcases hperiod : period.scalar with fault' | c
  · have hfailed : advanced period state.actions.get direction = .error fault' := by
      rw [advanced, Tensor.scaleBy, Tensor.meet_of_number _ _ hnumber, hperiod]
      rfl
    rw [hfailed] at h
    cases h
    exact ⟨rfl, rfl⟩
  · obtain ⟨actions, hadvanced⟩ := exists_advanced hnumber hperiod hdirection
    obtain ⟨states, hmoved⟩ := exists_advanced hnumber hperiod hstates
    obtain ⟨costates, hcomoved⟩ := exists_advanced hnumber hperiod hcostates
    obtain ⟨u, hu⟩ := exists_firstControl ((shape_advanced hadvanced).trans hactions)
    simp only [runOn_bind, runOn_get, runOn_liftM, runOn_modify, hadvanced, hmoved, hcomoved,
      hu] at h
    cases h

/-- A solution can be laid out as a direction. -/
theorem exists_direction (hc : controller.Regular) (hs : controller.Fits state)
    {outcome : Krylov.Outcome α} (h : controller.solved t x state = ((.ok outcome, w), memory)) :
    ∃ direction, (controller.continuation state.start).unflatten outcome.solution =
      .ok direction ∧ direction.shape = controller.actionsShape := by
  obtain ⟨placed, -, hsolve⟩ := solved_eq_ok h
  have hshape : outcome.solution.shape = state.direction.get.flat.shape :=
    Krylov.Solver.shape_solve (congrArg (fun run => run.1.1) hsolve)
  have hlength : outcome.solution.entries.length =
      volume [((controller.divisions : ℤ)).toNat, controller.model.actionDim.toNat] := by
    rw [outcome.solution.length_entries, hshape, ← Tensor.length_entries]
    show state.direction.get.entries.length = _
    rw [state.direction.get.length_entries, hs.direction]
    rfl
  have hdirection : (controller.continuation state.start).unflatten outcome.solution = _ :=
    Tensor.reshape_eq_ok (Int.natCast_nonneg _) hc.actionDim hlength hc.extents
  exact ⟨_, hdirection, (hc.continuation state.start).shape_unflatten hdirection⟩

/-- The workspace is left as the solve has left it. -/
theorem workspace_rates (hc : controller.Regular) (hs : controller.Fits state) (t : Datum α)
    (x : Tensor α) :
    ((controller.rates t x).runOn state).2.workspace = (controller.solved t x state).1.2 := by
  rcases hsolved : controller.solved t x state with ⟨⟨fault | outcome, w⟩, memory⟩
  · rw [runOn_rates_of_error hsolved]
    rfl
  · obtain ⟨direction, hdirection, -⟩ := exists_direction hc hs hsolved
    rw [runOn_rates_of_ok hsolved hdirection]
    rfl

/-- Where there is a solution, what is remembered of the point has its shape. -/
theorem fits_solved (hc : controller.Regular) (hm : controller.model.DynamicsFit)
    (hs : controller.Fits state) (hx : x.shape = [controller.model.stateDim.toNat])
    {outcome : Krylov.Outcome α} (h : controller.solved t x state = ((.ok outcome, w), memory)) :
    memory.Fits controller.divisions controller.model.stateDim.toNat := by
  obtain ⟨placed, hprepare, hsolve⟩ := solved_eq_ok h
  have hkept := controller.solver.preserves_solve
    ((controller.continuation state.start).linearized t x state.actions.get.flat)
    (fun v => Continuation.preserves_residual t x _ v)
    (fun v => Continuation.preserves_image _ v) (some state.direction.get.flat)
    state.workspace (Continuation.fits_prepare (hc.continuation state.start) hm hx hs.actions
      hs.states hs.costates hprepare)
  rw [hsolve] at hkept
  exact hkept

/-- A step that fails has been refused; or has failed before there was a solution, or with a
solution but without rates of change; or it has failed to follow these.  It has changed nothing
in the first case, nothing but what the solver works in and what is remembered of the linear
system in the second, and in the third nothing else but the outcome and the direction, which
are those of the solution. -/
theorem update_eq_error (hc : controller.Regular) (hs : controller.Fits state)
    {period measured : Datum α} {fault : Fault α} {state' : State α}
    (h : (controller.update t period measured).runOn state = (.error fault, state')) :
    (controller.admitted period measured state = .error fault ∧ state' = state) ∨
      ∃ x, controller.admitted period measured state = .ok x ∧
        ((∃ w memory, controller.solved t x state = ((.error fault, w), memory) ∧
            state' = worked state w memory) ∨
          ∃ outcome w memory direction,
            controller.solved t x state = ((.ok outcome, w), memory) ∧
            (controller.continuation state.start).unflatten outcome.solution = .ok direction ∧
            ((controller.continuation state.start).rateFrom memory state.actions.get direction =
                .error fault ∧ state' = directed state w memory outcome direction ∨
              ∃ rate, (controller.continuation state.start).rateFrom memory state.actions.get
                direction = .ok rate ∧ (controller.follow period (direction, rate)).runOn
                  (directed state w memory outcome direction) = (.error fault, state'))) := by
  rw [runOn_update] at h
  rcases hadmitted : controller.admitted period measured state with fault' | x
  · rw [hadmitted] at h
    cases h
    exact .inl ⟨rfl, rfl⟩
  · rw [hadmitted] at h
    dsimp only at h
    refine .inr ⟨x, rfl, ?_⟩
    rcases hsolved : controller.solved t x state with ⟨⟨fault' | outcome, w⟩, memory⟩
    · rw [runOn_bind, runOn_rates_of_error hsolved] at h
      cases h
      exact .inl ⟨w, memory, rfl, rfl⟩
    · obtain ⟨direction, hdirection, -⟩ := exists_direction hc hs hsolved
      refine .inr ⟨outcome, w, memory, direction, rfl, hdirection, ?_⟩
      rw [runOn_bind, runOn_rates_of_ok hsolved hdirection] at h
      rcases hrate : (controller.continuation state.start).rateFrom memory state.actions.get
        direction with fault' | rate
      · rw [hrate] at h
        cases h
        exact .inl ⟨rfl, rfl⟩
      · rw [hrate] at h
        exact .inr ⟨rate, rfl, h⟩

/-- For a model whose dynamics fits, a step that was admitted and has found rates of change
fails only where the period has no scalar. -/
theorem follow_rates_eq_error (hc : controller.Regular) (hm : controller.model.DynamicsFit)
    (hs : controller.Fits state) {period measured : Datum α} {fault : Fault α} {state' : State α}
    {outcome : Krylov.Outcome α} {direction : Tensor α} {rate : Trajectory α}
    (hadmitted : controller.admitted period measured state = .ok x)
    (hsolved : controller.solved t x state = ((.ok outcome, w), memory))
    (hdirection : (controller.continuation state.start).unflatten outcome.solution =
      .ok direction)
    (hrate : (controller.continuation state.start).rateFrom memory state.actions.get direction =
      .ok rate)
    (h : (controller.follow period (direction, rate)).runOn
      (directed state w memory outcome direction) = (.error fault, state')) :
    period.scalar = .error fault ∧ state' = directed state w memory outcome direction := by
  obtain ⟨k, hnumber, hx⟩ := admitted_eq_ok hadmitted
  have hshape := (hc.continuation state.start).shape_unflatten hdirection
  obtain ⟨hstates, hcostates⟩ := Continuation.shape_rateFrom (hc.continuation state.start)
    (fits_solved hc hm hs hx hsolved) hs.actions hshape hrate
  refine follow_eq_error hnumber ?_ ?_ ?_ ?_ h
  · exact hs.actions
  · exact hshape.trans hs.actions.symm
  · exact hstates.trans hs.states.symm
  · exact hcostates.trans hs.costates.symm

end Controller

end RecedingHorizon

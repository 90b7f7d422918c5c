import Mathlib
import RecedingHorizon.Proofs.Reachable
import RecedingHorizon.Proofs.Rows
import RecedingHorizon.Proofs.TwoRuns

/-!
# Calls on related states

What a controller carries may be exchanged, in part, without any call noticing it.  There
are two kinds of parts.  What the Krylov solver has left in its workspace, and what has been
remembered of the linear system, is written anew before it is read.  And of the arrays at
all nodes some entries are never looked at.  Both are said by relations: one of workspaces,
and one of arrays that the arithmetic of a step keeps and no residual tells apart.  Every
call then answers the same on states that are related by these, fails in the same way, and
leaves such states behind.

* `Interchange`: a relation of arrays of nodes that can be exchanged; equality is one.
* `Continuation.Memory.Set`, `Continuation.Memory.Asked`: what is remembered once the point
  is set, and once the residual has been asked for, whatever was remembered before.
* `Krylov.Workspace.Stable`: a relation of workspaces that a solve keeps.
* `Controller.Related`: the relation of states, and `performAll_parallel` for any calls.
-/

namespace RecedingHorizon

variable {α : Type} [Scalar α]

/-! ## Arrays that can be exchanged -/

/-- Arrays at all nodes of a horizon of `N` steps that can be exchanged for one another: the
arithmetic of a step keeps the relation, and no residual tells them apart. -/
structure Interchange (N : ℕ) (S : Tensor α → Tensor α → Prop) : Prop where
  refl : ∀ {a : Tensor α} {n : ℕ}, a.shape = [N + 1, n] → S a a
  pointwise : ∀ (op : α → α → α) {a a' b b' : Tensor α}, S a a' → S b b' →
    Agree S (a.pointwise op b) (a'.pointwise op b')
  meet : ∀ (op : α → α → α) {a a' : Tensor α} {c : Datum α} {k : Number α},
    c.number? = some k → S a a' → Agree S (a.meet op c) (a'.meet op c)
  increase : ∀ {a a' b b' : Tensor α}, S a a' → S b b' →
    Agree S (a.increase b) (a'.increase b')
  residual : ∀ (problem : Problem α) (t : Datum α) (x : Tensor α) {actions X X' L L' : Tensor α}
    {w : List ℕ}, actions.shape = N :: w → S X X' → S L L' →
    problem.residual t x actions ⟨X, L⟩ = problem.residual t x actions ⟨X', L'⟩

theorem Interchange.eq (N : ℕ) : Interchange N (Eq : Tensor α → Tensor α → Prop) where
  refl _ := rfl
  pointwise op _ _ _ _ ha hb := by
    subst ha hb
    exact .refl _
  meet op _ _ _ _ _ ha := by
    subst ha
    exact .refl _
  increase ha hb := by
    subst ha hb
    exact .refl _
  residual _ _ _ _ _ _ _ _ _ _ hX hL := by rw [hX, hL]

/-- States and costates of two trajectories can both be exchanged. -/
structure Trajectory.Both (S : Tensor α → Tensor α → Prop) (trajectory trajectory' : Trajectory α) :
    Prop where
  states : S trajectory.states trajectory'.states
  costates : S trajectory.costates trajectory'.costates

/-- What is positive is a number. -/
theorem Datum.exists_number_of_isPositive {d : Datum α} (h : d.isPositive = .ok true) :
    ∃ a, d.number? = some a := by
  obtain ⟨a, ha, -⟩ := bind_eq_ok_iff.1 h
  exact ⟨a, asNumber_eq_ok_iff.1 ha⟩

/-! ## The linear system -/

namespace Continuation

open Stateful

variable {S : Tensor α → Tensor α → Prop}

/-- Two memories agree on the point, up to an exchange of the trajectory. -/
structure Memory.Set (S : Tensor α → Tensor α → Prop) (memory memory' : Memory α) : Prop where
  trajectory : Option.Rel (Trajectory.Both S) memory.trajectory memory'.trajectory
  time : memory.time = memory'.time
  state : memory.state = memory'.state

/-- Two memories agree on the point, up to an exchange of the trajectory, and on the defects. -/
structure Memory.Found (S : Tensor α → Tensor α → Prop) (memory memory' : Memory α) : Prop
    extends Memory.Set S memory memory' where
  defects : memory.defects = memory'.defects

/-- Two memories agree on all that has been found once the residual has been asked for, up to an
exchange of the trajectory. -/
structure Memory.Asked (S : Tensor α → Tensor α → Prop) (memory memory' : Memory α) : Prop
    extends Memory.Found S memory memory' where
  stationarity : memory.stationarity = memory'.stationarity

/-- The point is set for either trajectory, whatever was remembered before. -/
theorem prepare_leads (system : Continuation α) {trajectory trajectory' : Trajectory α}
    (h : trajectory.Both S trajectory') (t : Datum α) (x actions : Tensor α) :
    Leads (fun _ _ => True) (Memory.Set S) Eq (system.prepare t x actions trajectory)
      (system.prepare t x actions trajectory') := by
  have hstate (ahead : Tensor α) : Leads
      (fun μ μ' : Memory α => Option.Rel (Trajectory.Both S) μ.trajectory μ'.trajectory ∧
        μ.time = μ'.time) (Memory.Set S) Eq
      (modify fun memory => { memory with state := some ahead } : Stateful (Memory α) α PUnit)
      (modify fun memory => { memory with state := some ahead }) :=
    Leads.modify fun _ _ hμ => ⟨hμ.1, hμ.2, rfl⟩
  refine Leads.modify_bind
    (fun μ μ' => Option.Rel (Trajectory.Both S) μ.trajectory μ'.trajectory)
    (fun _ _ _ => .some h) ?_
  refine Leads.liftM_bind fun time _ => ?_
  refine Leads.modify_bind (fun μ μ' => Option.Rel (Trajectory.Both S) μ.trajectory μ'.trajectory ∧
    μ.time = μ'.time) (fun _ _ hμ => ⟨hμ, rfl⟩) ?_
  refine Leads.liftM_bind fun steps _ => ?_
  split
  · exact hstate x
  · refine Leads.liftM_bind fun action _ => Leads.liftM_bind fun u _ => ?_
    refine Leads.liftM_bind fun rate _ => Leads.liftM_bind fun step _ => ?_
    exact Leads.liftM_bind fun ahead _ => hstate ahead

/-- To look one difference step ahead needs the point and the defects only, and finds the same from
memories that agree on these. -/
theorem ahead_parallel_of (system : Continuation α) {R : Memory α → Memory α → Prop}
    (hR : ∀ μ μ', R μ μ' → Memory.Found S μ μ') {actions : Tensor α}
    {Q : Tensor α × Trajectory α → Tensor α × Trajectory α → Prop}
    (hQ : ∀ {t x defects found},
      system.problem.condensedStationarity t x actions defects = .ok found → Q found found) :
    Parallel R Q (system.ahead actions) (system.ahead actions) := by
  refine Parallel.get_bind fun μ μ' hμ => ?_
  rw [← (hR μ μ' hμ).state, ← (hR μ μ' hμ).defects, ← (hR μ μ' hμ).time]
  refine Parallel.bind (Parallel.needed_self μ.state) ?_
  rintro state _ rfl
  refine Parallel.bind (Parallel.needed_self μ.defects) ?_
  rintro defects _ rfl
  refine Parallel.liftM ((Agree.refl _).answered.imp ?_)
  rintro found _ ⟨hfound, rfl⟩
  exact hQ hfound

theorem ahead_parallel (system : Continuation α) {R : Memory α → Memory α → Prop}
    (hR : ∀ μ μ', R μ μ' → Memory.Found S μ μ') (actions : Tensor α) :
    Parallel R Eq (system.ahead actions) (system.ahead actions) :=
  system.ahead_parallel_of hR fun _ => rfl

/-- A system on a horizon of `N` steps whose difference step is a number. -/
structure Regular (system : Continuation α) (N : ℕ) : Prop where
  divisions : system.problem.horizon.divisions = .number (.whole N)
  actionDim : 0 ≤ system.problem.model.actionDim
  differenceStep : ∃ a, system.differenceStep.number? = some a

namespace Regular

variable {system : Continuation α} {N : ℕ} {w : List ℕ} (hs : system.Regular N)
include hs

omit [Scalar α] in
theorem shape_unflatten {flat actions : Tensor α} (h : system.unflatten flat = .ok actions) :
    actions.shape = [N, system.problem.model.actionDim.toNat] := by
  rw [unflatten, hs.divisions] at h
  exact Tensor.shape_reshape (Int.natCast_nonneg N) hs.actionDim h

/-- Actions moved in a direction of their shape keep it. -/
theorem shape_moved {actions direction moved : Tensor α} {shape : List ℕ}
    (ha : actions.shape = shape) (hd : direction.shape = shape)
    (h : system.moved actions direction = .ok moved) : moved.shape = shape := by
  obtain ⟨a, hnumber⟩ := hs.differenceStep
  obtain ⟨step, hstep, h⟩ := bind_eq_ok_iff.1 h
  have hshape : step.shape = shape := by
    rw [Tensor.scaleBy, Tensor.meet_of_number _ _ hnumber] at hstep
    obtain ⟨c, -, hstep⟩ := bind_eq_ok_iff.1 hstep
    cases hstep
    exact hd
  rw [Tensor.plus, Tensor.pointwise, dif_pos (ha.trans hshape.symm)] at h
  cases h
  exact ha

/-- The residual of a guess finds all that was not set with the point. -/
theorem residual_leads (hS : Interchange N S) (t : Datum α) (x flat guess : Tensor α) :
    Leads (Memory.Set S) (Memory.Asked S) Eq (system.residual t x flat guess)
      (system.residual t x flat guess) := by
  refine Leads.get_bind fun μ μ' hμ => ?_
  refine Leads.bind (.of_parallel (Parallel.needed hμ.trajectory))
    fun trajectory trajectory' h => ?_
  refine Leads.liftM_bind fun actions hactions => ?_
  rw [show system.problem.residual t x actions trajectory = _ from
    hS.residual system.problem t x (hs.shape_unflatten hactions) h.states h.costates]
  refine Leads.liftM_bind fun now _ => Leads.liftM_bind fun factor _ => ?_
  refine Leads.liftM_bind fun defects _ => ?_
  refine Leads.modify_bind (Memory.Found S) (fun _ _ hμ => { hμ with defects := rfl }) ?_
  refine Leads.bind (.of_parallel (system.ahead_parallel (fun _ _ hμ => hμ) actions)) ?_
  rintro ⟨next, _⟩ _ rfl
  refine Leads.modify_bind (Memory.Asked S) (fun _ _ hμ => { hμ with stationarity := rfl }) ?_
  dsimp only
  split
  · exact .of_parallel (Parallel.liftM_bind fun _ _ => Parallel.pure rfl)
  · refine Leads.liftM_bind fun direction _ => Leads.liftM_bind fun moved _ => ?_
    refine Leads.bind (.of_parallel
      (system.ahead_parallel (fun _ _ hμ => Memory.Asked.toFound hμ) moved)) ?_
    rintro ⟨guessed, _⟩ _ rfl
    exact .of_parallel (Parallel.liftM_bind fun _ _ => Parallel.pure rfl)

omit hs in
/-- The image of a direction needs what the residual has found. -/
theorem image_parallel (system : Continuation α) (flat direction : Tensor α) :
    Parallel (Memory.Asked S) Eq (system.image flat direction) (system.image flat direction) := by
  refine Parallel.get_bind fun μ μ' hμ => ?_
  rw [← hμ.stationarity]
  refine Parallel.bind (Parallel.needed_self μ.stationarity) ?_
  rintro base _ rfl
  refine Parallel.liftM_bind fun actions _ => Parallel.liftM_bind fun step _ => ?_
  refine Parallel.liftM_bind fun moved _ => ?_
  refine Parallel.bind (system.ahead_parallel (fun _ _ hμ => Memory.Asked.toFound hμ) moved) ?_
  rintro ⟨next, _⟩ _ rfl
  refine Parallel.liftM_bind fun _ _ => ?_
  exact Parallel.liftM_bind fun _ _ => Parallel.pure rfl

/-- The linear system of a step is solved in the same way, whatever has been left in the workspace.
-/
theorem solve_match (hS : Interchange N S) (solver : Krylov.Solver α) (t : Datum α)
    (x flat : Tensor α) (guess : Option (Tensor α)) {v v' : Krylov.Workspace α}
    (hv : v.rotations.length = v'.rotations.length) {μ μ' : Memory α} (hμ : Memory.Set S μ μ') :
    Krylov.Solver.Match (Memory.Asked S) (v = v')
      ((solver.solve (system.linearized t x flat) guess v).run μ)
      ((solver.solve (system.linearized t x flat) guess v').run μ') :=
  solver.solve_match (hs.residual_leads hS t x flat)
    (fun direction => .of_parallel (image_parallel system flat direction)) guess hv hμ

/-- The rates of change of two trajectories that can be exchanged can be exchanged. -/
theorem trajectoryRate_parallel (hS : Interchange N S) {actions direction : Tensor α}
    (ha : actions.shape = N :: w) (hd : direction.shape = N :: w) :
    Parallel (Memory.Asked S) (Trajectory.Both S) (system.trajectoryRate actions direction)
      (system.trajectoryRate actions direction) := by
  obtain ⟨a, hnumber⟩ := hs.differenceStep
  refine Parallel.get_bind fun μ μ' hμ => ?_
  refine Parallel.bind (Parallel.needed hμ.trajectory) fun trajectory trajectory' htrajectory => ?_
  refine Parallel.liftM_bind fun moved hmoved => ?_
  have hmoved := hs.shape_moved ha hd hmoved
  -- one difference step ahead there is one trajectory, with as many rows as there are nodes
  have hahead : Parallel (Memory.Asked S) (fun p p' => p.2.Both S p'.2) (system.ahead moved)
      (system.ahead moved) := by
    refine system.ahead_parallel_of (fun _ _ hμ => Memory.Asked.toFound hμ) fun h => ?_
    obtain ⟨δ, -, h⟩ := bind_eq_ok_iff.1 h
    obtain ⟨next, hnext, h⟩ := bind_eq_ok_iff.1 h
    obtain ⟨F, -, h⟩ := bind_eq_ok_iff.1 h
    cases h
    obtain ⟨n, -, hstates, hcostates⟩ := Model.exists_shape_condense hmoved hnext
    exact ⟨hS.refl hstates, hS.refl hcostates⟩
  refine Parallel.bind hahead ?_
  rintro ⟨_, next⟩ ⟨_, next'⟩ hnext
  refine Parallel.bind (Parallel.liftM (hS.pointwise _ hnext.states htrajectory.states)) ?_
  intro states states' hstates
  refine Parallel.bind (Parallel.liftM (hS.meet _ hnumber hstates)) fun rate rate' hrate => ?_
  refine Parallel.bind (Parallel.liftM (hS.pointwise _ hnext.costates htrajectory.costates)) ?_
  intro costates costates' hcostates
  refine Parallel.bind (Parallel.liftM (hS.meet _ hnumber hcostates))
    fun corate corate' hcorate => ?_
  exact Parallel.pure ⟨hrate, hcorate⟩

end Regular

end Continuation

/-! ## Calls -/

/-- A relation of workspaces of one size that a solve keeps: solves that come to the same end
keep it if they end in the same workspace whenever they have started in the same one. -/
structure Krylov.Workspace.Stable (W : Workspace α → Workspace α → Prop) : Prop where
  length : ∀ {w w' : Workspace α}, W w w' → w.rotations.length = w'.rotations.length
  keep : ∀ {w w' v v' : Workspace α}, W w w' → (w = w' → v = v') →
    v.rotations.length = v'.rotations.length → W v v'

omit [Scalar α] in
theorem Krylov.Workspace.stable_eq : Stable (Eq : Workspace α → Workspace α → Prop) where
  length h := congrArg (fun w => w.rotations.length) h
  keep h hv _ := hv h

omit [Scalar α] in
/-- What a solver works in may be anything of its size: every solve writes it anew. -/
theorem Krylov.Workspace.stable_length :
    Stable fun w w' : Workspace α => w.rotations.length = w'.rotations.length where
  length h := h
  keep _ _ h := h

namespace Controller

open Stateful

/-- Two states of a controller are the same, but that arrays at all nodes are related by `S` and
workspaces by `W`.  What is remembered of the linear system may be anything. -/
structure Related (S : Tensor α → Tensor α → Prop)
    (W : Krylov.Workspace α → Krylov.Workspace α → Prop) (state state' : State α) : Prop where
  start : state.start = state'.start
  actions : state.actions.get = state'.actions.get
  direction : state.direction.get = state'.direction.get
  trajectory : state.trajectory.get.Both S state'.trajectory.get
  initialized : state.initialized = state'.initialized
  outcome : state.outcome = state'.outcome
  params : state.params = state'.params
  workspace : W state.workspace state'.workspace

/-- Two states that are the same, but that arrays at all nodes are related by `S` and workspaces by
`W`, and in which all arrays have their shapes. -/
def Twins (controller : Controller α) (S : Tensor α → Tensor α → Prop)
    (W : Krylov.Workspace α → Krylov.Workspace α → Prop) (state state' : State α) : Prop :=
  controller.Fits state ∧ Related S W state state'

/-- A controller whose difference step is a number and whose actions can be laid out. -/
structure Regular (controller : Controller α) : Prop where
  actionDim : 0 ≤ controller.model.actionDim
  differenceStep : ∃ a, controller.settings.differenceStep.number? = some a
  extents : Tensor.checkExtents [(controller.divisions : ℤ), controller.model.actionDim] =
    (.ok () : Except (Fault α) Unit)

/-- A controller that is made from checked settings is regular. -/
theorem regular_ofSettings {model : Model α} {draft : Settings.Draft α} {settings : Settings α}
    {controller : Controller α} (hsettings : draft.check = .ok settings)
    (hcontroller : ofSettings model settings = .ok controller) : controller.Regular := by
  obtain ⟨solver, -, hcontroller⟩ := bind_eq_ok_iff.1 hcontroller
  obtain ⟨_, hactions, hcontroller⟩ := bind_eq_ok_iff.1 hcontroller
  obtain ⟨_, -, hcontroller⟩ := bind_eq_ok_iff.1 hcontroller
  cases hcontroller
  obtain ⟨_, hextents, -⟩ := bind_eq_ok_iff.1 hactions
  exact {
    actionDim := Tensor.nonneg_of_checkExtents hextents _ (by simp)
    differenceStep :=
      Datum.exists_number_of_isPositive (Settings.Draft.checked hsettings).differenceStep
    extents := hextents }

variable {controller : Controller α} {S : Tensor α → Tensor α → Prop}
variable {W : Krylov.Workspace α → Krylov.Workspace α → Prop}

omit [Scalar α] in
theorem Regular.continuation (hc : controller.Regular) (start : Datum α) :
    (controller.continuation start).Regular controller.divisions :=
  ⟨rfl, hc.actionDim, hc.differenceStep⟩

omit [Scalar α] in
theorem requireInitialized_parallel :
    Parallel (Related S W) Eq (requireInitialized : Stateful (State α) α Unit)
      requireInitialized := by
  refine Parallel.get_bind fun s s' hs => ?_
  rw [hs.initialized]
  split
  · exact Parallel.throw _
  · exact Parallel.pure rfl

theorem setInitParams_parallel (draft : InitParams.Draft α) :
    Parallel (Related S W) Eq (controller.setInitParams draft)
      (controller.setInitParams draft) := by
  refine Parallel.liftM_bind fun params _ => ?_
  have hset : Parallel (Related S W) Eq
      (modify fun s : State α => { s with params := some params } : Stateful (State α) α PUnit)
      (modify fun s : State α => { s with params := some params }) :=
    Parallel.modify fun s s' hs => { hs with params := rfl }
  split
  · exact Parallel.throw_bind _ _ _
  · exact hset

theorem seed_parallel (hS : Interchange controller.divisions S) (t measured : Datum α) :
    Parallel (Related S W) Eq (controller.seed t measured) (controller.seed t measured) := by
  refine Parallel.liftM_bind fun x _ => Parallel.get_bind fun s s' hs => ?_
  rw [← hs.params]
  extract_lets rest
  have hrest : ∀ params, Parallel (Related S W) Eq (rest params) (rest params) := by
    refine fun params => Parallel.liftM_bind fun initial _ => ?_
    refine Parallel.bind (Parallel.modify fun s s' hs => ?_) fun _ _ _ => ?_
    · exact { hs with start := rfl, actions := rfl, direction := rfl }
    refine Parallel.liftM_bind fun δ _ => Parallel.liftM_bind fun trajectory htrajectory => ?_
    obtain ⟨n, -, hstates, hcostates⟩ := Model.exists_shape_condense rfl htrajectory
    refine Parallel.bind (Parallel.modify fun s s' hs => ?_) fun _ _ _ => ?_
    · exact { hs with
        trajectory := ⟨hS.refl hstates, hS.refl hcostates⟩
        initialized := rfl }
    exact Parallel.liftM (.refl _)
  cases s.params with
  | some params =>
      refine Parallel.bind (Parallel.pure rfl) ?_
      rintro params _ rfl
      exact hrest params
  | none =>
      refine Parallel.liftM_bind fun draft _ => Parallel.liftM_bind fun params _ => hrest params

/-- The rates of change that a controller finds in two related states can be exchanged. -/
theorem rates_parallel (hc : controller.Regular) (hS : Interchange controller.divisions S)
    (hW : Krylov.Workspace.Stable W) (t : Datum α) (x : Tensor α) :
    Parallel (controller.Twins S W) (fun p p' => p.1 = p'.1 ∧ p.2.Both S p'.2)
      (controller.rates t x) (controller.rates t x) := by
  refine Parallel.get_bind fun s s' hs => ?_
  dsimp only
  rw [← hs.2.start, ← hs.2.actions, ← hs.2.direction]
  have hsystem := hc.continuation s.start
  -- the point is set
  have hprepare := Continuation.prepare_leads (controller.continuation s.start) hs.2.trajectory t x
    s.actions.get s.memory s'.memory trivial
  generalize Stateful.runOn ((controller.continuation s.start).prepare t x s.actions.get
    s.trajectory.get) s.memory = run at hprepare ⊢
  generalize Stateful.runOn ((controller.continuation s.start).prepare t x s.actions.get
    s'.trajectory.get) s'.memory = run' at hprepare ⊢
  obtain ⟨prepared, memory⟩ := run
  obtain ⟨prepared', memory'⟩ := run'
  obtain ⟨hprepared, hmemory⟩ := hprepare
  obtain rfl := hprepared.eq
  refine Parallel.bind (Parallel.modify fun s₁ s₁' hs₁ => ?_) fun _ _ _ => ?_
  · exact ⟨{ hs₁.1 with }, { hs₁.2 with }⟩
  refine Parallel.liftM_bind fun _ hset => ?_
  -- the system is solved
  obtain ⟨linear, hlinear⟩ : ∃ linear, linear =
      (controller.continuation s.start).linearized t x s.actions.get.flat := ⟨_, rfl⟩
  have hlength : ((controller.solver.solve linear (some s.direction.get.flat) s.workspace).run
      memory).1.2.rotations.length = s.workspace.rotations.length :=
    Krylov.Solver.length_rotations_solve _ _
  have hsolve := hsystem.solve_match hS controller.solver t x s.actions.get.flat
    (some s.direction.get.flat) (hW.length hs.2.workspace) (hmemory _ hset)
  rw [← hlinear] at hsolve ⊢
  generalize (controller.solver.solve linear (some s.direction.get.flat) s.workspace).run memory =
    run at hsolve hlength ⊢
  generalize (controller.solver.solve linear (some s.direction.get.flat) s'.workspace).run memory' =
    run' at hsolve ⊢
  obtain ⟨⟨outcome, workspace⟩, memory₁⟩ := run
  obtain ⟨⟨outcome', workspace'⟩, memory₁'⟩ := run'
  obtain ⟨rfl, heven, hworkspace, hmemory⟩ := hsolve
  dsimp only at hlength hworkspace hmemory ⊢
  refine Parallel.bind (Parallel.modify fun s₁ s₁' hs₁ => ?_) fun _ _ _ => ?_
  · exact ⟨{ hs₁.1 with rotations := hlength.trans hs.1.rotations },
      { hs₁.2 with workspace := hW.keep hs.2.workspace hworkspace heven.length }⟩
  refine Parallel.liftM_bind fun outcome houtcome => ?_
  refine Parallel.bind (Parallel.modify fun s₁ s₁' hs₁ => ?_) fun _ _ _ => ?_
  · exact ⟨{ hs₁.1 with }, { hs₁.2 with outcome := rfl }⟩
  refine Parallel.liftM_bind fun direction hdirection => ?_
  have hshape := hsystem.shape_unflatten hdirection
  refine Parallel.bind (Parallel.modify fun s₁ s₁' hs₁ => ?_) fun _ _ _ => ?_
  · exact ⟨{ hs₁.1 with direction := hshape }, { hs₁.2 with direction := rfl }⟩
  have hrate := (hsystem.trajectoryRate_parallel hS hs.1.actions hshape memory₁ memory₁'
    (hmemory outcome houtcome)).1
  generalize Stateful.runOn ((controller.continuation s.start).trajectoryRate s.actions.get
    direction) memory₁ = run at hrate ⊢
  generalize Stateful.runOn ((controller.continuation s.start).trajectoryRate s.actions.get
    direction) memory₁' = run' at hrate ⊢
  obtain ⟨rate, _⟩ := run
  obtain ⟨rate', _⟩ := run'
  refine Parallel.bind (Parallel.liftM hrate) fun rate rate' hrate => ?_
  exact Parallel.pure ⟨rfl, hrate⟩

/-- After a sampling period, related arrays still are, and have the shape they had. -/
theorem advanced_agree (hS : Interchange controller.divisions S) {period : Datum α} {k : Number α}
    (hperiod : period.number? = some k) {a a' rate rate' : Tensor α} (ha : S a a')
    (hrate : S rate rate') :
    Agree (fun b b' => b.shape = a.shape ∧ S b b') (advanced period a rate)
      (advanced period a' rate') := by
  have h : Agree S (advanced period a rate) (advanced period a' rate') :=
    (hS.meet _ hperiod hrate).bind fun _ _ hstep => hS.increase ha hstep
  exact h.answered.imp fun _ _ hb => ⟨shape_advanced hb.1, hb.2⟩

/-- A step answers the same, and leaves related states behind. -/
theorem update_parallel (hc : controller.Regular) (hS : Interchange controller.divisions S)
    (hW : Krylov.Workspace.Stable W) (t period measured : Datum α) :
    Parallel (controller.Twins S W) Eq (controller.update t period measured)
      (controller.update t period measured) := by
  refine Parallel.bind (requireInitialized_parallel.and_preserves preserves_requireInitialized)
    fun _ _ _ => ?_
  refine Parallel.liftM_bind fun positive hpositive => ?_
  cases positive with
  | false => exact Parallel.throw_bind _ _ _
  | true =>
      obtain ⟨k, hperiod⟩ := Datum.exists_number_of_isPositive hpositive
      refine Parallel.liftM_bind fun x _ => ?_
      refine Parallel.bind (rates_parallel hc hS hW t x) ?_
      rintro ⟨direction, rate⟩ ⟨_, rate'⟩ ⟨rfl, hrate⟩
      refine Parallel.get_bind fun s s' hs => ?_
      rw [← hs.2.actions]
      refine Parallel.liftM_bind fun actions hactions => ?_
      have hactions := (shape_advanced hactions).trans hs.1.actions
      refine Parallel.bind (Parallel.modify fun s s' hs => ?_) fun _ _ _ => ?_
      · exact ⟨{ hs.1 with actions := hactions }, { hs.2 with actions := rfl }⟩
      -- the trajectory that is read is moved in two steps
      refine Parallel.get_bind fun s s' hs => ?_
      refine Parallel.bind
        (Parallel.liftM (advanced_agree hS hperiod hs.2.trajectory.states hrate.states))
        fun states states' hstates => ?_
      have hshape := hstates.1.trans hs.1.states
      refine Parallel.bind (Parallel.modify fun s₁ s₁' hs₁ => ?_) fun _ _ _ => ?_
      · exact ⟨{ hs₁.1 with states := hshape, costates := hs.1.costates },
          { hs₁.2 with trajectory := ⟨hstates.2, hs.2.trajectory.costates⟩ }⟩
      refine Parallel.bind
        (Parallel.liftM (advanced_agree hS hperiod hs.2.trajectory.costates hrate.costates))
        fun costates costates' hcostates => ?_
      have hcoshape := hcostates.1.trans hs.1.costates
      refine Parallel.bind (Parallel.modify fun s₁ s₁' hs₁ => ?_) fun _ _ _ => ?_
      · exact ⟨{ hs₁.1 with states := hshape, costates := hcoshape },
          { hs₁.2 with trajectory := ⟨hstates.2, hcostates.2⟩ }⟩
      exact Parallel.liftM (.refl _)

/-- The residual norm is the same in two related states. -/
theorem residualNorm_parallel (hS : Interchange controller.divisions S) (t measured : Datum α) :
    Parallel (controller.Twins S W) Eq (controller.residualNorm t measured)
      (controller.residualNorm t measured) := by
  refine Parallel.bind (requireInitialized_parallel.and_preserves preserves_requireInitialized)
    fun _ _ _ => ?_
  refine Parallel.liftM_bind fun x _ => Parallel.get_bind fun s s' hs => ?_
  dsimp only
  rw [← hs.2.start, ← hs.2.actions, show (controller.problem s.start).residual t x s.actions.get
    s.trajectory.get = _ from hS.residual _ t x hs.1.actions hs.2.trajectory.states
      hs.2.trajectory.costates]
  exact Parallel.liftM_bind fun _ _ => Parallel.pure rfl

theorem cycle_parallel (hc : controller.Regular) (hS : Interchange controller.divisions S)
    (hW : Krylov.Workspace.Stable W) (period : Datum α) (run : Simulation α) :
    Parallel (controller.Twins S W) Eq (controller.cycle period run)
      (controller.cycle period run) := by
  refine Parallel.bind (update_parallel hc hS hW _ _ _) ?_
  rintro control _ rfl
  refine Parallel.get_bind fun s s' hs => ?_
  rw [hs.2.outcome]
  refine Parallel.liftM_bind fun rate _ => Parallel.liftM_bind fun step _ => ?_
  refine Parallel.liftM_bind fun next _ => Parallel.liftM_bind fun time _ => Parallel.pure rfl

theorem simulate_parallel (hc : controller.Regular) (hS : Interchange controller.divisions S)
    (hW : Krylov.Workspace.Stable W) (period : Datum α) (cycles : ℕ) (run : Simulation α) :
    Parallel (controller.Twins S W) Eq (controller.simulate period cycles run)
      (controller.simulate period cycles run) := by
  induction cycles generalizing run with
  | zero => exact Parallel.pure rfl
  | succ cycles ih =>
      refine Parallel.bind (cycle_parallel hc hS hW period run) ?_
      rintro run _ rfl
      exact ih run

/-- From two related states every call answers the same.  That which asks for the trajectory itself
may answer with related arrays, which then have to be equal. -/
theorem perform_parallel (hc : controller.Regular) (hS : Interchange controller.divisions S)
    (hW : Krylov.Workspace.Stable W) {operation : Operation α}
    (h : operation = .trajectory → ∀ a a', S a a' → a = a') :
    Parallel (controller.Twins S W) Eq (controller.perform operation)
      (controller.perform operation) := by
  cases operation with
  | trajectory =>
      refine Parallel.get_bind fun s s' hs => Parallel.pure (congrArg Reply.trajectory ?_)
      have hstates := h rfl _ _ hs.2.trajectory.states
      have hcostates := h rfl _ _ hs.2.trajectory.costates
      exact congrArg₂ Trajectory.mk hstates hcostates
  | setInitParams given =>
      refine Parallel.liftM_bind fun draft _ => ?_
      exact Parallel.bind ((setInitParams_parallel draft).and_preserves
        (preserves_setInitParams draft)) fun _ _ _ => Parallel.pure rfl
  | seed t measured =>
      exact Parallel.map ((seed_parallel hS t measured).and_preserves (preserves_seed t measured))
        fun _ _ => congrArg Reply.array
  | update t period measured =>
      refine Parallel.bind (update_parallel hc hS hW t period measured) ?_
      rintro control _ rfl
      refine Parallel.get_bind fun s s' hs => Parallel.pure ?_
      rw [hs.2.outcome]
  | residualNorm t measured =>
      exact Parallel.map (residualNorm_parallel hS t measured) fun _ _ => congrArg Reply.scalar
  | control =>
      refine Parallel.get_bind fun s s' hs => ?_
      rw [hs.2.actions]
      exact Parallel.liftM_bind fun _ _ => Parallel.pure rfl
  | actions =>
      exact Parallel.get_bind fun s s' hs => Parallel.pure (congrArg Reply.array hs.2.actions)
  | direction =>
      exact Parallel.get_bind fun s s' hs => Parallel.pure (congrArg Reply.array hs.2.direction)
  | outcome =>
      exact Parallel.get_bind fun s s' hs => Parallel.pure (congrArg Reply.outcome hs.2.outcome)
  | horizon t =>
      refine Parallel.get_bind fun s s' hs => ?_
      rw [hs.2.start]
      exact Parallel.liftM_bind fun _ _ => Parallel.liftM_bind fun _ _ => Parallel.pure rfl
  | simulate t period measured cycles =>
      refine Parallel.liftM_bind fun x _ => ?_
      refine Parallel.bind (simulate_parallel hc hS hW period cycles _) ?_
      rintro run _ rfl
      refine Parallel.bind (residualNorm_parallel hS _ _) ?_
      rintro norm _ rfl
      exact Parallel.pure rfl

/-- From two related states every sequence of calls answers the same, and leaves related states
behind. -/
theorem performAll_parallel (hc : controller.Regular) (hS : Interchange controller.divisions S)
    (hW : Krylov.Workspace.Stable W) {operations : List (Operation α)}
    (h : .trajectory ∈ operations → ∀ a a', S a a' → a = a') {s s' : State α}
    (hs : controller.Twins S W s s') :
    (controller.performAll operations s).1 = (controller.performAll operations s').1 ∧
      controller.Twins S W (controller.performAll operations s).2
        (controller.performAll operations s').2 := by
  induction operations generalizing s s' with
  | nil => exact ⟨rfl, hs⟩
  | cons operation operations ih =>
      have hhead : operation = .trajectory → ∀ a a', S a a' → a = a' :=
        fun h' => h (List.mem_cons.2 (.inl h'.symm))
      obtain ⟨hreply, hstate⟩ := perform_parallel hc hS hW hhead s s' hs
      obtain ⟨hreplies, hend⟩ := ih (fun h' => h (List.mem_cons_of_mem _ h')) hstate
      exact ⟨congrArg₂ List.cons hreply.eq hreplies, hend⟩

end Controller

end RecedingHorizon

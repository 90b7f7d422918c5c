import RecedingHorizon.Proofs.Calls
import RecedingHorizon.Proofs.Search

/-!
# What the linear system remembers

The linear system of a step is prepared once, and what it has found since is remembered: the
trajectory that is stored, the state one difference step ahead, the defects that are to be had
there.  To look ahead, and to find the rate of change of the trajectory, changes nothing of
this, so that both are functions of what is remembered.  What is remembered of the trajectory
and of the state has the shape it should have as soon as the point is set, for a model whose
dynamics answers with vectors, and the rates of change that are found from it have the shape of
what changes.

* `Model.DynamicsFit`: what is asked of the dynamics of a model.
* `Continuation.Memory.Fits`: the shapes of what is remembered.
* `Continuation.aheadFrom`, `Continuation.rateFrom`: the functions.
* `Krylov.Solver.shape_solve`: the shape of a solution.
-/

namespace RecedingHorizon

variable {α : Type} [Scalar α]

/-! ## Shapes that are kept -/

namespace Tensor

variable {a b c : Tensor α} {shape : List ℕ}

omit [Scalar α] in
/-- An item has the shape that is left without the first index. -/
theorem shape_item {N i : ℕ} (ha : a.shape = N :: shape) (h : a.item i = .ok b) :
    b.shape = shape := by
  obtain ⟨_, entries, hlength⟩ := a
  cases ha
  rw [item] at h
  dsimp only at h
  split at h
  · cases h
    rfl
  · cases h

omit [Scalar α] in
/-- An array has an item at every place of its first index. -/
theorem exists_item {N i : ℕ} (ha : a.shape = N :: shape) (hi : i < N) :
    ∃ b, a.item i = .ok b := by
  obtain ⟨_, entries, hlength⟩ := a
  cases ha
  rw [item]
  dsimp only
  rw [dif_pos hi]
  exact ⟨_, rfl⟩

/-- To an array another one of its shape can be added. -/
theorem exists_increase (h : b.shape = a.shape) : ∃ c, a.increase b = .ok c := by
  have hplus : a.plus b = .ok ⟨a.shape, List.zipWith (· + ·) a.entries b.entries, by
      rw [List.length_zipWith, a.length_entries, b.length_entries, h, Nat.min_self]⟩ := by
    rw [plus, pointwise, dif_pos h.symm]
  rw [increase, Row.increase, row, hplus, ok_bind, dif_pos rfl]
  exact ⟨_, rfl⟩

/-- Arrays of one shape meet in this shape. -/
theorem shape_pointwise {op : α → α → α} (ha : a.shape = shape) (hb : b.shape = shape)
    (h : a.pointwise op b = .ok c) : c.shape = shape := by
  rw [pointwise, dif_pos (ha.trans hb.symm)] at h
  cases h
  exact ha

/-- Met by a number, an array keeps its shape. -/
theorem shape_meet {op : α → α → α} {d : Datum α} {k : Number α} (hd : d.number? = some k)
    (ha : a.shape = shape) (h : a.meet op d = .ok b) : b.shape = shape := by
  rw [meet_of_number op a hd] at h
  obtain ⟨y, -, h⟩ := bind_eq_ok_iff.1 h
  cases h
  exact ha

end Tensor

/-- What can be added to is a number. -/
theorem Datum.exists_number_of_plus {a b : Datum α} {c : Number α} (h : a.plus b = .ok c) :
    ∃ k, a.number? = some k := by
  obtain ⟨k, hk, -⟩ := bind_eq_ok_iff.1 h
  exact ⟨k, asNumber_eq_ok_iff.1 hk⟩

/-- What is asked of the dynamics of a model: no dimension is below zero, and asked with a
state and a control of the dimensions of the model, at a time that is a number, they answer, if
they do, with a rate of the dimension of the state. -/
structure Model.DynamicsFit (model : Model α) : Prop where
  controlDim : 0 ≤ model.controlDim
  constraintDim : 0 ≤ model.constraintDim
  dynamics : ∀ {x u rate : Tensor α} {t : Datum α} {k : Number α}, t.number? = some k →
    x.shape = [model.stateDim.toNat] → u.shape = [model.controlDim.toNat] →
    model.dynamics x u t = .ok rate → rate.shape = [model.stateDim.toNat]

omit [Scalar α] in
/-- An array with an index has a control part. -/
theorem Model.exists_control (model : Model α) {a : Tensor α} {k : ℕ} {shape : List ℕ}
    (ha : a.shape = k :: shape) : ∃ u, model.control a = .ok u := by
  obtain ⟨_, entries, hlength⟩ := a
  cases ha
  exact ⟨_, rfl⟩

omit [Scalar α] in
/-- The control part of an action has the dimension of the control. -/
theorem Model.shape_control {model : Model α} (hm : 0 ≤ model.controlDim)
    (hc : 0 ≤ model.constraintDim) {a u : Tensor α} (ha : a.shape = [model.actionDim.toNat])
    (h : model.control a = .ok u) : u.shape = [model.controlDim.toNat] := by
  rw [actionDim] at ha
  obtain ⟨_, entries, hlength⟩ := a
  cases ha
  rw [control, Tensor.front] at h
  cases h
  have hplace : Tensor.place (model.controlDim + model.constraintDim).toNat model.controlDim =
      model.controlDim.toNat := by
    rw [Tensor.place, if_neg (not_lt.2 hm)]
    omega
  exact congrArg (fun k => [k]) hplace

/-! ## The linear system -/

namespace Continuation

open Stateful

/-- What has been set of the point has its shape, on a horizon of `N` steps with states of
length `n`. -/
structure Memory.Fits (memory : Memory α) (N n : ℕ) : Prop where
  trajectory : ∀ p, memory.trajectory = some p →
    p.states.shape = [N + 1, n] ∧ p.costates.shape = [N + 1, n]
  state : ∀ x, memory.state = some x → x.shape = [n]

/-- What is found one difference step ahead, from what is remembered. -/
def aheadFrom (system : Continuation α) (memory : Memory α) (actions : Tensor α) :
    Except (Fault α) (Tensor α × Trajectory α) :=
  match memory.state, memory.defects with
  | some state, some defects =>
      system.problem.condensedStationarity memory.time state actions (some defects)
  | _, _ => .error .unprepared

/-- The rate of change of the trajectory along a direction, from what is remembered. -/
def rateFrom (system : Continuation α) (memory : Memory α) (actions direction : Tensor α) :
    Except (Fault α) (Trajectory α) :=
  match memory.trajectory with
  | none => .error .unprepared
  | some trajectory => do
      let (_, next) ← system.aheadFrom memory (← system.moved actions direction)
      let states ← next.states.minus trajectory.states
      let states ← states.divideBy system.differenceStep
      let costates ← next.costates.minus trajectory.costates
      return { states, costates := ← costates.divideBy system.differenceStep }

/-- To look one difference step ahead changes nothing that is remembered. -/
theorem runOn_ahead (system : Continuation α) (actions : Tensor α) (memory : Memory α) :
    (system.ahead actions).runOn memory = (system.aheadFrom memory actions, memory) := by
  rw [ahead, runOn_get_bind, runOn_bind, runOn_needed, aheadFrom]
  cases memory.state with
  | none => rfl
  | some state =>
      dsimp only
      rw [runOn_bind, runOn_needed]
      cases memory.defects with
      | none => rfl
      | some defects => rfl

theorem runOn_trajectoryRate (system : Continuation α) (actions direction : Tensor α)
    (memory : Memory α) :
    (system.trajectoryRate actions direction).runOn memory =
      (system.rateFrom memory actions direction, memory) := by
  rw [trajectoryRate, runOn_get_bind, runOn_bind, runOn_needed, rateFrom]
  cases memory.trajectory with
  | none => rfl
  | some trajectory =>
      refine runOn_liftM_bind fun moved => ?_
      rw [runOn_bind, runOn_ahead]
      rcases system.aheadFrom memory moved with fault | ⟨stationarity, next⟩
      · rfl
      · refine runOn_liftM_bind fun states => runOn_liftM_bind fun states => ?_
        exact runOn_liftM_bind fun costates => runOn_liftM_bind fun costates => rfl

/-- To look one difference step ahead keeps every property of what is remembered. -/
theorem preserves_ahead (system : Continuation α) {I : Memory α → Prop} (actions : Tensor α) :
    Preserves I (system.ahead actions) := by
  intro memory h
  rw [runOn_ahead]
  exact h

section Shapes

variable {system : Continuation α} {N n : ℕ}

/-- Once the point is set, what is remembered of it has its shape. -/
theorem fits_prepare (hs : system.Regular N) (hm : system.problem.model.DynamicsFit)
    {t : Datum α} {x actions : Tensor α} {p : Trajectory α} {memory memory' : Memory α}
    (hx : x.shape = [system.problem.model.stateDim.toNat])
    (ha : actions.shape = [N, system.problem.model.actionDim.toNat])
    (hX : p.states.shape = [N + 1, system.problem.model.stateDim.toNat])
    (hL : p.costates.shape = [N + 1, system.problem.model.stateDim.toNat])
    (h : (system.prepare t x actions p).runOn memory = (.ok ⟨⟩, memory')) :
    memory'.Fits N system.problem.model.stateDim.toNat := by
  have htrajectory : ∀ q, some p = some q →
      q.states.shape = [N + 1, system.problem.model.stateDim.toNat] ∧
        q.costates.shape = [N + 1, system.problem.model.stateDim.toNat] := by
    rintro q ⟨⟩
    exact ⟨hX, hL⟩
  obtain ⟨⟨⟩, _, hset, h⟩ := runOn_bind_eq_ok_iff.1 h
  cases hset
  obtain ⟨time, _, hread, h⟩ := runOn_bind_eq_ok_iff.1 h
  obtain ⟨htime, rfl⟩ := runOn_liftM_eq_ok_iff.1 hread
  obtain ⟨⟨⟩, _, hset, h⟩ := runOn_bind_eq_ok_iff.1 h
  cases hset
  obtain ⟨steps, _, hsteps, h⟩ := runOn_bind_eq_ok_iff.1 h
  obtain ⟨-, rfl⟩ := runOn_liftM_eq_ok_iff.1 hsteps
  split at h
  · cases h
    refine ⟨htrajectory, ?_⟩
    rintro y ⟨⟩
    exact hx
  · obtain ⟨k, hnumber⟩ := hs.differenceStep
    obtain ⟨action, _, hread, h⟩ := runOn_bind_eq_ok_iff.1 h
    obtain ⟨haction, rfl⟩ := runOn_liftM_eq_ok_iff.1 hread
    obtain ⟨u, _, hread, h⟩ := runOn_bind_eq_ok_iff.1 h
    obtain ⟨hu, rfl⟩ := runOn_liftM_eq_ok_iff.1 hread
    obtain ⟨rate, _, hread, h⟩ := runOn_bind_eq_ok_iff.1 h
    obtain ⟨hrate, rfl⟩ := runOn_liftM_eq_ok_iff.1 hread
    obtain ⟨step, _, hread, h⟩ := runOn_bind_eq_ok_iff.1 h
    obtain ⟨hstep, rfl⟩ := runOn_liftM_eq_ok_iff.1 hread
    obtain ⟨ahead, _, hread, h⟩ := runOn_bind_eq_ok_iff.1 h
    obtain ⟨hahead, rfl⟩ := runOn_liftM_eq_ok_iff.1 hread
    cases h
    have hcontrol := Model.shape_control hm.controlDim hm.constraintDim
      (Tensor.shape_item ha haction) hu
    obtain ⟨s, htime⟩ := Datum.exists_number_of_plus htime
    have hrate := hm.dynamics htime hx hcontrol hrate
    refine ⟨htrajectory, ?_⟩
    rintro y ⟨⟩
    exact Tensor.shape_pointwise hx (Tensor.shape_meet hnumber hrate hstep) hahead

theorem preserves_residual (t : Datum α) (x flat guess : Tensor α) :
    Preserves (fun memory => memory.Fits N n) (system.residual t x flat guess) := by
  refine Preserves.get_bind fun μ _ => Preserves.bind (Preserves.needed _) fun trajectory => ?_
  refine Preserves.bind (Preserves.liftM _) fun actions => ?_
  refine Preserves.bind (Preserves.liftM _) fun now => ?_
  refine Preserves.bind (Preserves.liftM _) fun factor => ?_
  refine Preserves.bind (Preserves.liftM _) fun defects => ?_
  refine Preserves.bind (Preserves.modify fun μ hμ => { hμ with }) fun _ => ?_
  refine Preserves.bind (system.preserves_ahead actions) fun next => ?_
  refine Preserves.bind (Preserves.modify fun μ hμ => { hμ with }) fun _ => ?_
  dsimp only
  split
  · exact Preserves.bind (Preserves.liftM _) fun _ => Preserves.pure _
  · refine Preserves.bind (Preserves.liftM _) fun direction => ?_
    refine Preserves.bind (Preserves.liftM _) fun moved => ?_
    refine Preserves.bind (system.preserves_ahead moved) fun guessed => ?_
    exact Preserves.bind (Preserves.liftM _) fun _ => Preserves.pure _

theorem preserves_image {I : Memory α → Prop} (flat direction : Tensor α) :
    Preserves I (system.image flat direction) := by
  refine Preserves.get_bind fun μ _ => Preserves.bind (Preserves.needed _) fun base => ?_
  refine Preserves.bind (Preserves.liftM _) fun actions => ?_
  refine Preserves.bind (Preserves.liftM _) fun step => ?_
  refine Preserves.bind (Preserves.liftM _) fun moved => ?_
  refine Preserves.bind (system.preserves_ahead moved) fun next => ?_
  refine Preserves.bind (Preserves.liftM _) fun change => ?_
  exact Preserves.bind (Preserves.liftM _) fun _ => Preserves.pure _

theorem shape_aheadFrom {memory : Memory α} (hmemory : memory.Fits N n)
    {actions : Tensor α} {w : List ℕ} (ha : actions.shape = N :: w) {next : Tensor α × Trajectory α}
    (h : system.aheadFrom memory actions = .ok next) :
    next.2.states.shape = [N + 1, n] ∧ next.2.costates.shape = [N + 1, n] := by
  rw [aheadFrom] at h
  cases hx : memory.state with
  | none =>
      rw [hx] at h
      cases h
  | some x =>
      cases hD : memory.defects with
      | none =>
          rw [hx, hD] at h
          cases h
      | some D =>
          rw [hx, hD] at h
          obtain ⟨δ, -, h⟩ := bind_eq_ok_iff.1 h
          obtain ⟨p, hp, h⟩ := bind_eq_ok_iff.1 h
          obtain ⟨F, -, h⟩ := bind_eq_ok_iff.1 h
          cases h
          exact Model.shape_condense (hmemory.state x hx) ha hp

/-- The rates of change have the shape of what changes. -/
theorem shape_rateFrom (hs : system.Regular N) {memory : Memory α} (hmemory : memory.Fits N n)
    {actions direction : Tensor α} {w : List ℕ} (ha : actions.shape = N :: w)
    (hd : direction.shape = N :: w) {rate : Trajectory α}
    (h : system.rateFrom memory actions direction = .ok rate) :
    rate.states.shape = [N + 1, n] ∧ rate.costates.shape = [N + 1, n] := by
  obtain ⟨k, hnumber⟩ := hs.differenceStep
  rw [rateFrom] at h
  cases hp : memory.trajectory with
  | none =>
      rw [hp] at h
      cases h
  | some p =>
      rw [hp] at h
      obtain ⟨hX, hL⟩ := hmemory.trajectory p hp
      obtain ⟨moved, hmoved, h⟩ := bind_eq_ok_iff.1 h
      obtain ⟨⟨_, next⟩, hnext, h⟩ := bind_eq_ok_iff.1 h
      obtain ⟨states, hstates, h⟩ := bind_eq_ok_iff.1 h
      obtain ⟨stateRate, hstateRate, h⟩ := bind_eq_ok_iff.1 h
      obtain ⟨costates, hcostates, h⟩ := bind_eq_ok_iff.1 h
      obtain ⟨costateRate, hcostateRate, h⟩ := bind_eq_ok_iff.1 h
      cases h
      obtain ⟨hX', hL'⟩ := shape_aheadFrom hmemory (hs.shape_moved ha hd hmoved) hnext
      exact ⟨Tensor.shape_meet hnumber (Tensor.shape_pointwise hX' hX hstates) hstateRate,
        Tensor.shape_meet hnumber (Tensor.shape_pointwise hL' hL hcostates) hcostateRate⟩

end Shapes

end Continuation

namespace Krylov.Solver

variable {σ : Type} {equation : Equation (StateM σ) α}

/-- What is added to a guess leaves it its shape. -/
theorem shape_solution {solver : Solver α} {guess v : Tensor α} {w : Workspace α}
    (h : solver.solution guess w = .ok v) : v.shape = guess.shape := by
  rw [solution] at h
  split at h
  · cases h
    rfl
  · obtain ⟨y, -, h⟩ := bind_eq_ok_iff.1 h
    exact Tensor.shape_increase h

/-- A solution has the shape of the guess. -/
theorem shape_solve {solver : Solver α} {guess : Option (Tensor α)} {w : Workspace α} {μ : σ}
    {outcome : Outcome α} (h : ((solver.solve equation guess w).run μ).1.1 = .ok outcome) :
    outcome.solution.shape = (guess.getD (.zeros [solver.dim])).shape := by
  rw [solve, Stateful.run_bind] at h
  generalize guess.getD (.zeros [solver.dim]) = guess at h ⊢
  generalize (equation.residual guess).run.run μ = run at h
  obtain ⟨fault | residual, μ₁⟩ := run
  · cases h
  · dsimp only at h
    split at h
    · cases h
      rfl
    · generalize (residual.divide residual.norm).vector solver.dim = first at h
      rcases first with fault | first
      · cases h
      · dsimp only at h
        rw [Stateful.run_bind] at h
        obtain ⟨ending, -, h⟩ := bind_eq_ok_iff.1 h
        obtain ⟨solution, hsolution, h⟩ := bind_eq_ok_iff.1 h
        obtain ⟨converged, -, h⟩ := bind_eq_ok_iff.1 h
        cases h
        exact shape_solution hsolution

end Krylov.Solver

end RecedingHorizon

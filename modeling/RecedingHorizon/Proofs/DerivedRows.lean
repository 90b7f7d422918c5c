import RecedingHorizon.Proofs.Calls
import RecedingHorizon.Proofs.Controller

/-!
# The first rows have no influence

Two controllers that carry the same but for the first rows of their trajectories are
told apart by looking at these rows, and by nothing else.  Whatever they are asked and
however often, they give the same answers and fail in the same way, and what they carry
stays the same but for the first rows.  This holds in any arithmetic, so a first row may
hold what is no number at all; it needs a step, since without one the first row is the
last.

* `Interchange.agreeRows`: on a horizon with a step, arrays that agree past their first rows
  can be exchanged for one another.
* `Controller.State.Alike`: states that are the same but for the first rows.
* `Controller.performAll_alike`: any calls, one after the other;
  `integrator_performAll_alike` for the integrator.
-/

namespace RecedingHorizon

variable {α : Type} [Scalar α]

/-- On a horizon with a step no residual looks at a first row. -/
theorem Interchange.agreeRows {N : ℕ} (hN : 0 < N) :
    Interchange N (Tensor.AgreeRows (N + 1) : Tensor α → Tensor α → Prop) where
  refl := Tensor.AgreeRows.refl
  pointwise op _ _ _ _ := Tensor.AgreeRows.pointwise op
  meet op _ _ _ _ := Tensor.AgreeRows.meet op
  increase := Tensor.AgreeRows.increase
  residual problem t x actions X X' L L' w ha hX hL := by
    have hsteps : actions.count ≠ .ok 0 := by
      rw [Tensor.count_of_shape ha]
      exact fun h => hN.ne' (Except.ok.inj h)
    exact Problem.residual_congr ⟨hX.agreePast, hL.agreePast⟩ hsteps

/-! ## Calls -/

namespace Controller

/-- The states are the same but for the first rows of the trajectory. -/
structure State.Alike (state state' : State α) : Prop where
  start : state.start = state'.start
  actions : state.actions.get = state'.actions.get
  direction : state.direction.get = state'.direction.get
  trajectory : state.trajectory.get.AgreePast state'.trajectory.get
  initialized : state.initialized = state'.initialized
  outcome : state.outcome = state'.outcome
  params : state.params = state'.params
  workspace : state.workspace = state'.workspace

omit [Scalar α] in
/-- A state with another trajectory that agrees past the first rows. -/
theorem State.alike_of_agreePast {state : State α} {trajectory : Trajectory α}
    (h : state.trajectory.get.AgreePast trajectory) :
    state.Alike { state with trajectory := .pure trajectory } where
  start := rfl
  actions := rfl
  direction := rfl
  trajectory := h
  initialized := rfl
  outcome := rfl
  params := rfl
  workspace := rfl

variable {controller : Controller α}

/-- The trajectories of two states that are the same but for the first rows can be exchanged, and
nothing else is different. -/
theorem State.Alike.twins {state state' : State α} (hfits : controller.Fits state)
    (h : state.Alike state') :
    controller.Twins (Tensor.AgreeRows (controller.divisions + 1)) Eq state state' where
  left := hfits
  right := {
    start := h.start
    actions := h.actions
    direction := h.direction
    trajectory := ⟨h.trajectory.states.agreeRows hfits.states,
      h.trajectory.costates.agreeRows hfits.costates⟩
    initialized := h.initialized
    outcome := h.outcome
    params := h.params
    workspace := h.workspace }

omit [Scalar α] in
theorem Twins.alike {state state' : State α}
    (h : controller.Twins (Tensor.AgreeRows (controller.divisions + 1)) Eq state state') :
    state.Alike state' where
  start := h.2.start
  actions := h.2.actions
  direction := h.2.direction
  trajectory := ⟨h.2.trajectory.states.agreePast, h.2.trajectory.costates.agreePast⟩
  initialized := h.2.initialized
  outcome := h.2.outcome
  params := h.2.params
  workspace := h.2.workspace

/-- Two states of a controller with a step that are the same but for the first rows of
their trajectories: whatever the controller is asked, except for the trajectory itself, and
however often, it answers the same from either and fails in the same way, and is left with
states that are the same but for the first rows. -/
theorem performAll_alike {model : Model α} {draft : Settings.Draft α} {settings : Settings α}
    {controller : Controller α} (hsettings : draft.check = .ok settings)
    (hcontroller : ofSettings model settings = .ok controller) (hN : 0 < controller.divisions)
    {s s' : State α} (hfits : controller.Fits s) (h : s.Alike s') (operations : List (Operation α))
    (hoperations : .trajectory ∉ operations) :
    (controller.performAll operations s).1 = (controller.performAll operations s').1 ∧
      (controller.performAll operations s).2.Alike (controller.performAll operations s').2 := by
  obtain ⟨hreplies, hend⟩ := performAll_parallel (regular_ofSettings hsettings hcontroller)
    (.agreeRows hN) Krylov.Workspace.stable_eq (fun h' => absurd h' hoperations) (h.twins hfits)
  exact ⟨hreplies, hend.alike⟩

end Controller

/-! ## The integrator -/

/-- The integrator, seeded at rest, and a copy of it with other first rows: they answer a
step, the residual norm after it and the question for the control in the same way. -/
theorem integrator_performAll_alike :
    ∃ (state state' : Controller.State ℝ) (operations : List (Controller.Operation ℝ)),
      unitController.Fits state ∧ state.initialized = true ∧ state.Alike state' ∧
      state.trajectory.get.states.item 0 ≠ state'.trajectory.get.states.item 0 ∧
      state.trajectory.get.costates.item 0 ≠ state'.trajectory.get.costates.item 0 ∧
      operations = [.update (.number (.real 0)) (.number (.real 3)) (.ofTensor (.ofFn ![1])),
        .residualNorm (.number (.real 3)) (.ofTensor (.ofFn ![1])), .control] ∧
      (unitController.performAll operations state).1 =
        (unitController.performAll operations state').1 ∧
      (unitController.performAll operations state).2.Alike
        (unitController.performAll operations state').2 := by
  obtain ⟨state, hfits, hinitialized, hstart⟩ := seeded_unitController
  obtain ⟨U, V, X, L, hs⟩ := hfits.carries serves_unitController hinitialized hstart
  -- the first rows are raised by one
  obtain ⟨trajectory, htrajectory⟩ : ∃ trajectory : Trajectory ℝ, trajectory =
      ⟨.ofNodes 2 (Function.update X 0 (X 0 + 1)), .ofNodes 2 (Function.update L 0 (L 0 + 1))⟩ :=
    ⟨_, rfl⟩
  have hagree : state.trajectory.get.AgreePast trajectory := by
    rw [hs.trajectory, htrajectory]
    exact ⟨(Tensor.AgreePast.update_ofNodes X _).symm, (Tensor.AgreePast.update_ofNodes L _).symm⟩
  have hraised (s : ℕ → Fin 1 → ℝ) : (Tensor.ofNodes 2 s).item 0 ≠
      (Tensor.ofNodes 2 (Function.update s 0 (s 0 + 1))).item 0 := by
    rw [Tensor.item_ofNodes s Nat.two_pos, Tensor.item_ofNodes _ Nat.two_pos, Function.update_self]
    intro h
    have h0 := congrFun (Tensor.ofFn_injective (Except.ok.inj h)) 0
    simp at h0
  have halike := Controller.State.alike_of_agreePast hagree
  obtain ⟨hreplies, hend⟩ := Controller.performAll_alike check_unitSettings ofSettings_unitSettings
    Nat.one_pos hfits halike
    [.update (.number (.real 0)) (.number (.real 3)) (.ofTensor (.ofFn ![1])),
      .residualNorm (.number (.real 3)) (.ofTensor (.ofFn ![1])), .control] (by simp)
  refine ⟨state, _, _, hfits, hinitialized, halike, ?_, ?_, rfl, hreplies, hend⟩
  · rw [hs.trajectory]
    show _ ≠ trajectory.states.item 0
    rw [htrajectory]
    exact hraised X
  · rw [hs.trajectory]
    show _ ≠ trajectory.costates.item 0
    rw [htrajectory]
    exact hraised L

end RecedingHorizon

import RecedingHorizon.Model.LinearQuadratic
import RecedingHorizon.Model.Pendulum
import RecedingHorizon.Proofs.Controller
import RecedingHorizon.Proofs.SymmetricCalls

/-!
# Runs that begin later

If the functions of a model do not look at the time, nothing does but the horizon, which asks how
much of it has passed since the controller was seeded.  So a run that begins later is the same run:
with the same amount added to the time of every call, each call has the same answer, and the
controller carries the same actions, rates and trajectory and the same outcome of its latest solve.
A call that is refused is refused for the same reason.  The one reason that quotes times quotes
the later ones.

This is the symmetry of the sign one, under a clock that is ahead.

* `Model.IgnoresTime`: the models in question; `StageModel.IgnoresTime.toModel` for a model by its
  stage, with `LinearQuadratic.ignoresTime` and `Pendulum.ignoresTime`.
* `Controller.Operation.Later`: the same call at a later time.
* `Controller.performAll_later`: any calls, to a new controller.
-/

namespace RecedingHorizon

/-! ## Models that do not look at the time -/

section Models

variable {α : Type}

/-- The functions of the model answer the same at all times. -/
structure Model.IgnoresTime (model : Model α) : Prop where
  dynamics : ∀ x u t t', model.dynamics x u t = model.dynamics x u t'
  terminalGradient : ∀ x t t', model.terminalGradient x t = model.terminalGradient x t'
  stateGradient : ∀ x u l t t', model.stateGradient x u l t = model.stateGradient x u l t'
  controlGradient : ∀ x u l t t', model.controlGradient x u l t = model.controlGradient x u l t'

/-- A function that may be left open ignores the time. -/
def Slot.IgnoresTime (slot : Slot α) : Prop :=
  ∀ f, slot = some f → ∀ x u t t', f x u t = f x u t'

/-- The partial derivatives of a stage answer the same at all times. -/
structure StageModel.IgnoresTime (stage : StageModel α) : Prop where
  dynamics : ∀ x u t t', stage.dynamics x u t = stage.dynamics x u t'
  dynamicsByState : ∀ x u t t', stage.dynamicsByState x u t = stage.dynamicsByState x u t'
  dynamicsByControl : ∀ x u t t', stage.dynamicsByControl x u t = stage.dynamicsByControl x u t'
  costByState : ∀ x u t t', stage.costByState x u t = stage.costByState x u t'
  costByControl : ∀ x u t t', stage.costByControl x u t = stage.costByControl x u t'
  terminalGradient : ∀ x t t', stage.terminalGradient x t = stage.terminalGradient x t'
  constraint : Slot.IgnoresTime stage.constraint?
  constraintByState : Slot.IgnoresTime stage.constraintByState?
  constraintByControl : Slot.IgnoresTime stage.constraintByControl?

variable [Scalar α]

namespace StageModel.IgnoresTime

variable {stage : StageModel α} (h : stage.IgnoresTime)

theorem forces {jacobian : Slot α} (hjacobian : jacobian.IgnoresTime) (width : ℤ)
    (x u : Tensor α) (t t' : Datum α) (multipliers : Tensor α) :
    stage.forces jacobian width x u t multipliers =
      stage.forces jacobian width x u t' multipliers := by
  cases jacobian with
  | none => rfl
  | some f => rw [StageModel.forces, StageModel.forces, hjacobian f rfl x u t t']

include h

theorem constraintResidual (x u : Tensor α) (t t' : Datum α) :
    stage.constraint x u t = stage.constraint x u t' := by
  unfold StageModel.constraint
  cases hslot : stage.constraint? with
  | none => rfl
  | some f => exact h.constraint f hslot x u t t'

/-- A model that is assembled from a stage that ignores the time ignores the time. -/
theorem toModel : stage.toModel.IgnoresTime where
  dynamics := h.dynamics
  terminalGradient := h.terminalGradient
  stateGradient x u l t t' := by
    show stage.stateGradient x u l t = stage.stateGradient x u l t'
    simp only [StageModel.stateGradient, h.costByState _ _ t t', h.dynamicsByState _ _ t t',
      forces h.constraintByState _ _ _ t t']
  controlGradient x u l t t' := by
    show stage.controlGradient x u l t = stage.controlGradient x u l t'
    simp only [StageModel.controlGradient, h.costByControl _ _ t t', h.dynamicsByControl _ _ t t',
      forces h.constraintByControl _ _ _ t t', h.constraintResidual _ _ t t']

end StageModel.IgnoresTime

theorem LinearQuadratic.ignoresTime (system : LinearQuadratic α) :
    system.stage.toModel.IgnoresTime :=
  StageModel.IgnoresTime.toModel {
    dynamics := fun _ _ _ _ => rfl
    dynamicsByState := fun _ _ _ _ => rfl
    dynamicsByControl := fun _ _ _ _ => rfl
    costByState := fun _ _ _ _ => rfl
    costByControl := fun _ _ _ _ => rfl
    terminalGradient := fun _ _ _ => rfl
    constraint := nofun
    constraintByState := nofun
    constraintByControl := nofun }

theorem Pendulum.ignoresTime (p : Pendulum α) : p.stage.toModel.IgnoresTime :=
  StageModel.IgnoresTime.toModel {
    dynamics := fun _ _ _ _ => rfl
    dynamicsByState := fun _ _ _ _ => rfl
    dynamicsByControl := fun _ _ _ _ => rfl
    costByState := fun _ _ _ _ => rfl
    costByControl := fun _ _ _ _ => rfl
    terminalGradient := fun _ _ _ => rfl
    constraint := by
      rintro _ ⟨⟩ x u t t'
      rfl
    constraintByState := nofun
    constraintByControl := by
      rintro _ ⟨⟩ x u t t'
      rfl }

end Models

/-! ## A clock that is ahead -/

/-- Two times are the same one by two clocks, the second of which is ahead by `d`. -/
def Datum.Ahead (d : ℝ) (t t' : Datum ℝ) : Prop :=
  ∃ x : ℝ, t = .number (.real x) ∧ t' = .number (.real (x + d))

/-- Two faults are the same but for the times that they quote, the second by a clock that is ahead
by `d`. -/
inductive Fault.Ahead (d : ℝ) : Fault ℝ → Fault ℝ → Prop
  | same (e : Fault ℝ) : Ahead d e e
  | beforeStart {t t' s s' : Datum ℝ} :
      t.Ahead d t' → s.Ahead d s' → Ahead d (.beforeStart t s) (.beforeStart t' s')

/-- Two faults that are the same but for the times that they quote are of one kind. -/
theorem Fault.Ahead.kind_eq {d : ℝ} {e e' : Fault ℝ} (h : e.Ahead d e') : e'.kind = e.kind := by
  cases h <;> rfl

section Clocks

variable {d : ℝ} {t t' s s' : Datum ℝ}

theorem Datum.Ahead.plus (h : t.Ahead d t') (b : Datum ℝ) :
    Tally (Fault.Ahead d) (fun k k' => (Datum.number k).Ahead d (.number k')) (t.plus b)
      (t'.plus b) := by
  obtain ⟨x, rfl, rfl⟩ := h
  refine .same_bind .same b.asNumber fun k _ => ?_
  rw [Number.plus, Number.combine_real_left, Number.combine_real_left]
  exact .ok ⟨x + k.toReal, rfl, by rw [add_right_comm]⟩

/-- What has passed since the start is the same by both clocks. -/
theorem Horizon.length_ahead (ht : t.Ahead d t') (hs : s.Ahead d s') (length rate divisions) :
    Tally (Fault.Ahead d) Eq (Horizon.length ⟨length, rate, divisions, s⟩ t)
      (Horizon.length ⟨length, rate, divisions, s'⟩ t') := by
  obtain ⟨x, rfl, rfl⟩ := ht
  obtain ⟨y, rfl, rfl⟩ := hs
  have hlt : (Datum.number (.real (x + d))).lt (.number (.real (y + d))) =
      (Datum.number (.real x)).lt (.number (.real y)) := by
    simp only [Datum.lt_number, Number.lt_real, add_lt_add_iff_right]
  have hgrown : Horizon.grown ⟨length, rate, divisions, .number (.real (y + d))⟩
      (.number (.real (x + d))) =
        Horizon.grown ⟨length, rate, divisions, .number (.real y)⟩ (.number (.real x)) := by
    simp only [Horizon.grown, Datum.minus_number, Number.minus_real, add_sub_add_right_eq_sub]
  unfold Horizon.length
  dsimp only
  rw [hlt, hgrown]
  refine .same_bind .same _ fun early _ => ?_
  cases early with
  | true => exact .error (.beforeStart ⟨x, rfl, rfl⟩ ⟨y, rfl, rfl⟩)
  | false => exact .refl .same _

end Clocks

/-- Nothing but the horizon looks at the clock. -/
theorem symmetry_ahead (d : ℝ) : Symmetry 1 (Datum.Ahead d) (Fault.Ahead d) where
  sign := .one
  fault := .same
  unconverged attempt := by
    have h : Vec.scale 1 attempt.solution = attempt.solution := by simp [Vec.scale]
    rw [h]
    exact .same _
  plus ht b := ht.plus b
  step ht hs length rate divisions := by
    refine (Horizon.length_ahead ht hs length rate divisions).bind ?_
    rintro reach _ rfl
    exact .refl .same _

/-- A model that ignores the time answers the same by either clock. -/
theorem Model.IgnoresTime.symmetric {model : Model ℝ} (h : model.IgnoresTime) (d : ℝ) :
    model.Symmetric 1 (Datum.Ahead d) (Fault.Ahead d) := by
  have hsame {r r' : Except (Fault ℝ) (Tensor ℝ)} (hr : r = r') :
      Tally (Fault.Ahead d) (Tensor.Signed 1) r r' := by
    subst hr
    exact (Tally.refl .same r).imp fun a a' ha => ha ▸ a.scale_one.symm
  exact {
    dynamics := fun _ x u => by
      rw [Tensor.scale_one, Tensor.scale_one]
      exact hsame (h.dynamics x u _ _)
    terminalGradient := fun _ x => by
      rw [Tensor.scale_one]
      exact hsame (h.terminalGradient x _ _)
    stateGradient := fun _ x u l => by
      rw [Tensor.scale_one, Tensor.scale_one, Tensor.scale_one]
      exact hsame (h.stateGradient x u l _ _)
    controlGradient := fun _ x u l => by
      rw [Tensor.scale_one, Tensor.scale_one, Tensor.scale_one]
      exact hsame (h.controlGradient x u l _ _) }

/-! ## Runs -/

/-- Multiplied by one, everything is itself. -/
theorem Datum.signed_one (d : Datum ℝ) : d.Signed 1 d := by
  rw [Datum.Signed]
  rcases d.tensor with fault | a
  · rfl
  · exact congrArg Except.ok a.scale_one.symm

theorem Arguments.signed_one (given : Arguments ℝ) : given.Signed 1 given := by
  refine List.forall₂_same.2 fun a _ => ⟨rfl, ?_⟩
  split
  · exact a.2.signed_one
  · rfl

theorem Trajectory.scale_one (p : Trajectory ℝ) : p.scale 1 = p := by
  rw [Trajectory.scale, Tensor.scale_one, Tensor.scale_one]

theorem Krylov.Outcome.map_scale_one (outcome : Option (Krylov.Outcome ℝ)) :
    outcome.map (Krylov.Outcome.scale 1) = outcome := by
  cases outcome with
  | none => rfl
  | some o => rw [Option.map_some, Krylov.Outcome.scale, Tensor.scale_one]

namespace Controller

/-- Two calls are the same, the second by a clock that is ahead by `d`. -/
inductive Operation.Later (d : ℝ) : Operation ℝ → Operation ℝ → Prop
  | setInitParams (given : Arguments ℝ) : Later d (.setInitParams given) (.setInitParams given)
  | seed (t : ℝ) (measured : Datum ℝ) :
      Later d (.seed (.number (.real t)) measured) (.seed (.number (.real (t + d))) measured)
  | update (t : ℝ) (period measured : Datum ℝ) :
      Later d (.update (.number (.real t)) period measured)
        (.update (.number (.real (t + d))) period measured)
  | residualNorm (t : ℝ) (measured : Datum ℝ) :
      Later d (.residualNorm (.number (.real t)) measured)
        (.residualNorm (.number (.real (t + d))) measured)
  | control : Later d .control .control
  | actions : Later d .actions .actions
  | trajectory : Later d .trajectory .trajectory
  | direction : Later d .direction .direction
  | outcome : Later d .outcome .outcome

theorem Operation.Later.signed {d : ℝ} {operation operation' : Operation ℝ}
    (h : operation.Later d operation') : operation.Signed 1 (Datum.Ahead d) operation' := by
  cases h with
  | setInitParams given => exact .setInitParams given.signed_one
  | seed t measured => exact .seed ⟨t, rfl, rfl⟩ measured.signed_one
  | update t period measured => exact .update period ⟨t, rfl, rfl⟩ measured.signed_one
  | residualNorm t measured => exact .residualNorm ⟨t, rfl, rfl⟩ measured.signed_one
  | control => exact .control
  | actions => exact .actions
  | trajectory => exact .trajectory
  | direction => exact .direction
  | outcome => exact .outcome

theorem Reply.Signed.eq {reply reply' : Reply ℝ} (h : reply.Signed 1 reply') :
    reply = reply' := by
  cases h with
  | done => rfl
  | array a => rw [Tensor.scale_one]
  | updated control outcome => rw [Tensor.scale_one, Krylov.Outcome.map_scale_one]
  | scalar a => rfl
  | trajectory p => rw [Trajectory.scale_one]
  | outcome outcome => rw [Krylov.Outcome.map_scale_one]

/-- The controllers carry the same, but for the time from which the horizon grows. -/
structure State.SameButStart (s s' : State ℝ) : Prop where
  actions : s'.actions.get = s.actions.get
  direction : s'.direction.get = s.direction.get
  trajectory : s'.trajectory.get = s.trajectory.get
  initialized : s'.initialized = s.initialized
  outcome : s'.outcome = s.outcome

theorem State.Signed.sameButStart {controller : Controller ℝ} {T : Datum ℝ → Datum ℝ → Prop}
    {s s' : State ℝ} (h : State.Signed controller 1 T s s') : s.SameButStart s' where
  actions := by rw [h.actions, Tensor.scale_one]
  direction := by rw [h.direction, Tensor.scale_one]
  trajectory := by rw [h.trajectory, Trajectory.scale_one]
  initialized := h.initialized
  outcome := by rw [h.outcome, Krylov.Outcome.map_scale_one]

/-- Any calls to a new controller, all of them later by the same amount, are answered the same, or
refused for the same reason, and leave the same behind. -/
theorem performAll_later {controller : Controller ℝ} (hmodel : controller.model.IgnoresTime)
    {d : ℝ} {operations operations' : List (Operation ℝ)}
    (h : List.Forall₂ (Operation.Later d) operations operations') :
    List.Forall₂ (Tally (Fault.Ahead d) Eq)
        (controller.performAll operations controller.blank).1
        (controller.performAll operations' controller.blank).1 ∧
      (controller.performAll operations controller.blank).2.SameButStart
        (controller.performAll operations' controller.blank).2 := by
  obtain ⟨hreplies, hstate⟩ := performAll_symmetric (symmetry_ahead d) (hmodel.symmetric d)
    (h.imp fun _ _ hoperation => hoperation.signed) (signed_blank controller 1 (Datum.Ahead d))
  refine ⟨hreplies.imp fun _ _ hreply => ?_, hstate.sameButStart⟩
  exact hreply.imp fun _ _ hsigned => hsigned.eq

/-- The integrator, seeded and moved five units later. -/
theorem performAll_later_integrator :
    unitController.model.IgnoresTime ∧
      List.Forall₂ (Tally (Fault.Ahead 5) Eq)
        (unitController.performAll
          [.seed (.number (.real 0)) (.ofTensor (.ofFn (0 : Fin 1 → ℝ))),
            .update (.number (.real 1)) 1 (.ofTensor (.ofFn (1 : Fin 1 → ℝ))), .actions]
          unitController.blank).1
        (unitController.performAll
          [.seed (.number (.real (0 + 5))) (.ofTensor (.ofFn (0 : Fin 1 → ℝ))),
            .update (.number (.real (1 + 5))) 1 (.ofTensor (.ofFn (1 : Fin 1 → ℝ))), .actions]
          unitController.blank).1 := by
  have hmodel : unitController.model.IgnoresTime :=
    LinearQuadratic.ignoresTime Regulator.integrator.system
  refine ⟨hmodel, (performAll_later hmodel ?_).1⟩
  exact .cons (.seed 0 _) (.cons (.update 1 _ _) (.cons .actions .nil))

end Controller

end RecedingHorizon

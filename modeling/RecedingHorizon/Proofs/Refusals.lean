import RecedingHorizon.Proofs.Detected
import RecedingHorizon.Proofs.Divisors

/-!
# When a controller answers

A step needs a solution to follow, a sampling period that is positive, a state of the right shape,
and a time that is not before the start of the horizon.  The norm of the residual needs the same
without the period.  If one of these is missing the call fails, with a fault that says so.  But
nothing else is needed.  In exact arithmetic, and for a model that answers, whatever has been
asked of the controller before and whether or not it was answered, on a horizon of any number of
steps, there is always an answer: nothing is asked of a part of the controller before it has been
prepared, no arrays fail to fit together, and nothing is divided by zero.

* `AnswersIff`: a computation that answers exactly under a condition.
* `Controller.Carries.update_of_le`: a step from the start of the horizon on.
* `Controller.answersIff_update`, `Controller.answersIff_residualNorm`: the calls.
* `Controller.answersIff_performAll`: in every state that can be reached.
-/

namespace RecedingHorizon

open Stateful

/-- A computation answers if and only if the condition `c` is met.  If it is not, the fault
satisfies `P`. -/
structure AnswersIff {α β : Type} (P : Fault α → Prop) (c : Prop) (r : Except (Fault α) β) :
    Prop where
  answers : (∃ b, r = .ok b) ↔ c
  fails : FailsWith P r

namespace AnswersIff

variable {α β : Type} {P : Fault α → Prop} {c : Prop} {r : Except (Fault α) β}

theorem of_ok {b : β} (h : r = .ok b) (hc : c) : AnswersIff P c r where
  answers := ⟨fun _ => hc, fun _ => ⟨b, h⟩⟩
  fails := .of_ok h

theorem of_error {fault : Fault α} (h : r = .error fault) (hP : P fault) (hc : ¬c) :
    AnswersIff P c r where
  answers := by
    refine ⟨?_, fun h => absurd h hc⟩
    rintro ⟨b, hb⟩
    cases hb.symm.trans h
  fails := h ▸ .error hP

end AnswersIff

/-- Whether a fault refuses what is given: it is wrong, it has the wrong dimension, or it comes too
early. -/
def Fault.IsRefusal {α : Type} (fault : Fault α) : Prop :=
  fault.kind = .configuration ∨ fault.kind = .dimension

namespace Controller

variable {n m c : ℕ} {controller : Controller ℝ} {state : State ℝ} {r : Responses n m c}
variable {h ζ T a t₀ t dt : ℝ} {period measured : Datum ℝ} {y : Tensor ℝ}

/-! ## A step -/

section Carried

variable {x : Fin n → ℝ} {U V : ℕ → Fin (m + c) → ℝ} {X L : ℕ → Fin n → ℝ}

open Continuation in
/-- From the start of the horizon on a step answers, be there steps in the horizon or not. -/
theorem Carries.update_of_le (hs : controller.Carries state t₀ U V X L)
    (hc : controller.Serves r h ζ T a) (ht : t₀ ≤ t) (hperiod : period.scalar = .ok dt)
    (hdt : 0 < dt) (hx : controller.checkState measured = .ok (.ofFn x)) :
    ∃ u state', (controller.update t period measured).runOn state = (.ok u, state') := by
  have hsystem := hc.replies_continuation state.start
  have hahead : t₀ ≤ t + h := ht.trans (le_add_of_nonneg_right hc.step_pos.le)
  have hnow := step_eq hc hs.start ht
  have hnext := step_eq hc hs.start hahead
  obtain ⟨τ, hτ⟩ := hc.relativeTolerance
  obtain ⟨δ, hδ⟩ : ∃ δ, Horizon.reach T a (t - t₀) / controller.divisions = δ := ⟨_, rfl⟩
  obtain ⟨δ', hδ'⟩ : ∃ δ', Horizon.reach T a (t + h - t₀) / controller.divisions = δ' := ⟨_, rfl⟩
  obtain ⟨E, hE⟩ : ∃ E, E = (1 - h * ζ) • r.stateDefects t δ x U X := ⟨_, rfl⟩
  obtain ⟨M, hM⟩ : ∃ M, M = (1 - h * ζ) • r.costateDefects t δ U X L controller.divisions :=
    ⟨_, rfl⟩
  rw [hδ] at hnow
  rw [hδ'] at hnext
  have hresidual : Stateful.runOn (((controller.continuation state.start).linearized t (.ofFn x)
      (.ofFn (flatten controller.divisions U))).residual (.ofFn (flatten controller.divisions V)))
      (.of controller.divisions X L (t + h) (predicted r controller.divisions h t x U)
        state.memory.defects state.memory.stationarity) = _ :=
    residual_of hsystem hnow hnext _ _ hE hM (flatten controller.divisions V)
  have himage := image_of_flat (a := U) (X := X) (L := L) (E := E) (M := M)
    (y := predicted r controller.divisions h t x U) hsystem hnext
  obtain ⟨outcome, w, v, hsolve, hlength, hsolution, -⟩ :=
    Krylov.Solver.solve_spec hc.dim hτ hresidual himage hs.rotations
  have hrates := rates_of_solve hc hs ht hsolve hsolution rfl hδ'.symm rfl
  have hshape : (Tensor.ofNodes controller.divisions
      (U + dt • RecedingHorizon.unflatten controller.divisions v)).shape =
        controller.actionsShape := by
    rw [Tensor.shape_ofNodes, actionsShape, hc.model.actionDim, Int.toNat_natCast]
  obtain ⟨u, hu⟩ := exists_firstControl hshape
  obtain ⟨state', hupdate, -⟩ := update_of_rates hs hx hperiod hdt hrates hlength hu
  exact ⟨u, state', hupdate⟩

end Carried

/-- What a step is refused for, in the order in which it is looked at. -/
theorem admitted_of_scalar (hmeasured : measured.tensor = .ok y)
    (hperiod : period.scalar = .ok dt) :
    controller.admitted period measured state =
      if state.initialized = true then
        if 0 < dt then
          if y.shape.map Int.ofNat = [controller.model.stateDim] then .ok y
          else .error (.stateShape y.shape controller.model.stateDim)
        else .error (.unmet .samplingPeriod .positive period)
      else .error .uninitialized := by
  rw [admitted, Datum.isPositive_of_scalar hperiod, checkState_of_tensor hmeasured]
  cases state.initialized with
  | false => rfl
  | true =>
      by_cases hdt : 0 < dt
      · rw [decide_eq_true hdt, if_pos rfl, if_pos hdt]
        rfl
      · rw [decide_eq_false hdt, if_pos rfl, if_neg hdt]
        rfl

/-- Where there is a solution to follow, a state of its shape is taken, and four sequences are
carried. -/
theorem exists_carries (hc : controller.Serves r h ζ T a) (hs : controller.Fits state)
    (hstart : state.start = .number (.real t₀)) (hinitialized : state.initialized = true)
    (hmeasured : measured.tensor = .ok y)
    (hshape : y.shape.map Int.ofNat = [controller.model.stateDim]) :
    ∃ (x : Fin n → ℝ) (U V : ℕ → Fin (m + c) → ℝ) (X L : ℕ → Fin n → ℝ),
      controller.checkState measured = .ok (.ofFn x) ∧ controller.Carries state t₀ U V X L := by
  have hcheck : controller.checkState measured = .ok y := by
    rw [checkState_of_tensor hmeasured, if_pos hshape]
  obtain ⟨x, rfl⟩ := exists_state hc hcheck
  have hscalar : state.start.scalar = .ok t₀ := by
    rw [hstart, Datum.scalar_number, Number.scalar_real]
  obtain ⟨U, V, X, L, hcarries⟩ := hs.carries hc hinitialized hscalar
  exact ⟨x, U, V, X, L, hcheck, hcarries⟩

/-- A step answers if and only if there is a solution to follow, the period is positive, the state
has its shape, and the time is not before the start. -/
theorem answersIff_update (hc : controller.Serves r h ζ T a) (hs : controller.Fits state)
    (hstart : state.start = .number (.real t₀)) (hmeasured : measured.tensor = .ok y)
    (hperiod : period.scalar = .ok dt) :
    AnswersIff Fault.IsRefusal (state.initialized = true ∧ 0 < dt ∧
        y.shape.map Int.ofNat = [controller.model.stateDim] ∧ t₀ ≤ t)
      ((controller.update t period measured).runOn state).1 := by
  have hadmitted : controller.admitted period measured state = _ :=
    admitted_of_scalar hmeasured hperiod
  have hrefused {fault : Fault ℝ} (h : controller.admitted period measured state = .error fault) :
      ((controller.update t period measured).runOn state).1 = .error fault := by
    rw [runOn_update, h]
  by_cases hinitialized : state.initialized = true
  swap
  · rw [if_neg hinitialized] at hadmitted
    exact .of_error (hrefused hadmitted) (.inl rfl) fun h => hinitialized h.1
  rw [if_pos hinitialized] at hadmitted
  by_cases hdt : 0 < dt
  swap
  · rw [if_neg hdt] at hadmitted
    exact .of_error (hrefused hadmitted) (.inl rfl) fun h => hdt h.2.1
  rw [if_pos hdt] at hadmitted
  by_cases hshape : y.shape.map Int.ofNat = [controller.model.stateDim]
  swap
  · rw [if_neg hshape] at hadmitted
    exact .of_error (hrefused hadmitted) (.inr rfl) fun h => hshape h.2.2.1
  obtain ⟨x, U, V, X, L, hcheck, hcarries⟩ :=
    exists_carries hc hs hstart hinitialized hmeasured hshape
  rcases le_or_gt t₀ t with ht | ht
  · obtain ⟨u, state', hupdate⟩ := hcarries.update_of_le hc ht hperiod hdt hcheck
    exact .of_ok (congrArg Prod.fst hupdate) ⟨hinitialized, hdt, hshape, ht⟩
  · obtain ⟨state', hupdate⟩ := hcarries.update_of_lt hc ht hperiod hdt hcheck
    rw [hstart] at hupdate
    exact .of_error (congrArg Prod.fst hupdate) (.inl rfl) fun h => ht.not_ge h.2.2.2

/-! ## The residual norm -/

/-- The residual norm is answered if and only if there is a solution to look at, the state has its
shape, and the time is not before the start. -/
theorem answersIff_residualNorm (hc : controller.Serves r h ζ T a) (hs : controller.Fits state)
    (hstart : state.start = .number (.real t₀)) (hmeasured : measured.tensor = .ok y) :
    AnswersIff Fault.IsRefusal (state.initialized = true ∧
        y.shape.map Int.ofNat = [controller.model.stateDim] ∧ t₀ ≤ t)
      ((controller.residualNorm t measured).runOn state).1 := by
  by_cases hinitialized : state.initialized = true
  swap
  · have hrun : ((controller.residualNorm t measured).runOn state).1 = .error .uninitialized := by
      rw [runOn_residualNorm_eq, if_neg hinitialized]
    exact .of_error hrun (.inl rfl) fun h => hinitialized h.1
  by_cases hshape : y.shape.map Int.ofNat = [controller.model.stateDim]
  swap
  · have hrun : ((controller.residualNorm t measured).runOn state).1 =
        .error (.stateShape y.shape controller.model.stateDim) := by
      rw [runOn_residualNorm_eq, if_pos hinitialized, checkState_of_tensor hmeasured,
        if_neg hshape]
      rfl
    exact .of_error hrun (.inr rfl) fun h => hshape h.2.1
  obtain ⟨x, U, V, X, L, hcheck, hcarries⟩ :=
    exists_carries hc hs hstart hinitialized hmeasured hshape
  rcases le_or_gt t₀ t with ht | ht
  · have hresidual := residual_spec (x := x) hc hcarries ht rfl
    exact .of_ok (congrArg Prod.fst (runOn_residualNorm hinitialized hcheck hresidual))
      ⟨hinitialized, hshape, ht⟩
  · have hlt : (t : Datum ℝ).lt state.start = .ok true := by
      rw [Datum.lt_of_scalar rfl hcarries.start, decide_eq_true ht]
    have hrun : ((controller.residualNorm t measured).runOn state).1 =
        .error (Horizon.early t state.start) := by
      rw [runOn_residualNorm_eq, if_pos hinitialized, hcheck, ok_bind, residual,
        Problem.residual_of_lt _ _ _ hlt]
      rfl
    rw [hstart] at hrun
    exact .of_error hrun (.inl rfl) fun h => ht.not_ge h.2.2

/-! ## Every state that can be reached -/

/-- A model for which there is a controller has states. -/
theorem stateDim_nonneg {model : Model ℝ} {settings : Settings ℝ}
    (hcontroller : ofSettings model settings = .ok controller) : 0 ≤ model.stateDim := by
  obtain ⟨_, -, hcontroller⟩ := bind_eq_ok_iff.1 hcontroller
  obtain ⟨_, -, hcontroller⟩ := bind_eq_ok_iff.1 hcontroller
  obtain ⟨_, hnodes, -⟩ := bind_eq_ok_iff.1 hcontroller
  obtain ⟨_, hextents, -⟩ := bind_eq_ok_iff.1 hnodes
  exact Tensor.nonneg_of_checkExtents hextents _ (by simp)

/-- Whatever has been asked of a controller before, in exact arithmetic, for a model that answers,
and if memory has room for what a search works in: a step answers if and only if a seeding has been
answered before, the period is positive, the state has its shape, and the time is not before the
start of the horizon; the residual norm is answered if and only if the same holds, whatever a period
might be; a seeding fails only where the state has not its shape or the search does not converge.
The control to apply can always be read off, and what is divided by is not zero. -/
theorem answersIff_performAll {model : Model ℝ} {draft : Settings.Draft ℝ} {settings : Settings ℝ}
    (hsettings : draft.check = .ok settings)
    (hcontroller : ofSettings model settings = .ok controller) (hm : model.Total)
    (hdim : 0 < model.actionDim)
    (hroom : ∀ limit, Krylov.Solver.HasRoom model.actionDim.toNat (limit : Datum ℝ))
    {operations : List (Operation ℝ)} (hoperations : ∀ operation ∈ operations, operation.IsExact)
    {replies : List (Except (Fault ℝ) (Reply ℝ))}
    (hrun : controller.performAll operations controller.blank = (replies, state)) :
    ∃ t₀ : ℝ, state.start = .number (.real t₀) ∧ controller.DividesByNonzero state ∧
      (∃ u, controller.firstControl state.actions.get = .ok u) ∧
      ∀ (t : ℝ) {measured : Datum ℝ} {y : Tensor ℝ}, measured.tensor = .ok y →
        (∀ {period : Datum ℝ} {dt : ℝ}, period.scalar = .ok dt →
          AnswersIff Fault.IsRefusal (Seeded operations replies ∧ 0 < dt ∧
              y.shape.map Int.ofNat = [model.stateDim] ∧ t₀ ≤ t)
            ((controller.update t period measured).runOn state).1) ∧
        AnswersIff Fault.IsRefusal (Seeded operations replies ∧
            y.shape.map Int.ofNat = [model.stateDim] ∧ t₀ ≤ t)
          ((controller.residualNorm t measured).runOn state).1 ∧
        FailsWith (fun fault => fault.kind = .dimension ∨ fault.kind = .convergence)
          ((controller.seed t measured).runOn state).1 := by
  have hregular := regular_ofSettings hsettings hcontroller
  have hsound := Settings.Draft.sound hsettings
  obtain ⟨h, hh, -⟩ := hsound.differenceStep
  obtain ⟨ζ, hζ, -⟩ := hsound.decayRate
  obtain ⟨T, hT, -⟩ := hsound.horizonLength
  obtain ⟨a, ha, -⟩ := hsound.growthRate
  obtain ⟨n, m, c, r, hr⟩ := hm.exists_answers (stateDim_nonneg hcontroller)
  have hc := serves_ofSettings hsound hcontroller hr hh hζ hT ha
  obtain ⟨rfl, rfl⟩ := model_ofSettings hcontroller
  -- what holds in every state that calls lead to
  have hfits := fits_performAll hregular.actionDim operations controller.fits_blank
  have hexact := preserves_performAll (fun operation hoperation =>
    preserves_exact (hoperations operation hoperation)) controller.exact_blank
  have hnormalized := normalized_performAll hc.scaled hregular operations
  have hseeded := controller.initialized_performAll operations controller.blank
  rw [hrun] at hfits hexact hnormalized hseeded
  have hinitialized : state.initialized = true ↔ Seeded operations replies :=
    hseeded.trans (or_iff_right Bool.false_ne_true)
  obtain ⟨t₀, hstart⟩ := hexact.start
  refine ⟨t₀, hstart, dividesByNonzero hc.scaled hm hsettings hdim hroom hexact hnormalized,
    exists_firstControl hfits.actions, fun t measured y hmeasured => ⟨fun hperiod => ?_, ?_, ?_⟩⟩
  · rw [← hinitialized]
    exact answersIff_update hc hfits hstart hmeasured hperiod
  · rw [← hinitialized]
    exact answersIff_residualNorm hc hfits hstart hmeasured
  · exact failsWith_seed hc hm hsettings hdim hroom hexact hmeasured t

end Controller

/-- The controller of the integrator, seeded at time zero.  It takes a step at time two, but not
one of length minus one, and not one at time minus one. -/
theorem unitController_answersIff_performAll :
    ∃ (replies : List (Except (Fault ℝ) (Controller.Reply ℝ))) (state : Controller.State ℝ),
      unitController.performAll [.seed (.number (.real 0)) (.ofTensor (.ofFn (0 : Fin 1 → ℝ)))]
        unitController.blank = (replies, state) ∧
      unitController.DividesByNonzero state ∧
      (∃ u, ((unitController.update (.number (.real 2)) (.number (.real 1))
        (.ofTensor (.ofFn (0 : Fin 1 → ℝ)))).runOn state).1 = .ok u) ∧
      (¬∃ u, ((unitController.update (.number (.real 2)) (.number (.real (-1)))
        (.ofTensor (.ofFn (0 : Fin 1 → ℝ)))).runOn state).1 = .ok u) ∧
      ¬∃ u, ((unitController.update (.number (.real (-1))) (.number (.real 1))
        (.ofTensor (.ofFn (0 : Fin 1 → ℝ)))).runOn state).1 = .ok u := by
  obtain ⟨answer, state, hseed⟩ := seed_unitController
  have hrun : unitController.performAll
      [.seed (.number (.real 0)) (.ofTensor (.ofFn (0 : Fin 1 → ℝ)))] unitController.blank =
        ([.ok (.array answer)], state) := by
    simp only [Controller.performAll, Controller.perform, runOn_map, hseed]
    rfl
  have hstart : state.start = .number (.real 0) := by
    obtain ⟨x, params, found, trajectory, -, -, -, -, rfl⟩ := Controller.seed_eq_ok hseed
    rfl
  have hmeasured : (Datum.ofTensor (.ofFn (0 : Fin 1 → ℝ))).tensor = .ok (.ofFn (0 : Fin 1 → ℝ)) :=
    Datum.tensor_ofTensor_ofVec _
  have hshape : (Tensor.ofFn (0 : Fin 1 → ℝ)).shape.map Int.ofNat =
      [Regulator.integrator.model.stateDim] := rfl
  have hdim : 0 < Regulator.integrator.model.actionDim := by
    rw [Regulator.integrator.answers.actionDim]
    exact Int.one_pos
  have hexact : ∀ operation ∈ [Controller.Operation.seed (.number (.real 0))
      (.ofTensor (.ofFn (0 : Fin 1 → ℝ)))], operation.IsExact :=
    List.forall_mem_singleton.2 ⟨0, rfl⟩
  obtain ⟨t₀, hzero, hdivides, -, hcalls⟩ := Controller.answersIff_performAll check_unitSettings
    ofSettings_unitSettings Regulator.integrator.total hdim hasRoom_actionDim_integrator hexact hrun
  obtain rfl : t₀ = 0 := by
    rw [hstart] at hzero
    cases hzero
    rfl
  refine ⟨_, state, hrun, hdivides, ?_, fun h => ?_, fun h => ?_⟩
  · exact ((hcalls 2 hmeasured).1 rfl).answers.2
      ⟨⟨0, _, _, .array answer, rfl, rfl⟩, one_pos, hshape, zero_le_two⟩
  · obtain ⟨-, hpositive, -⟩ := ((hcalls 2 hmeasured).1 rfl).answers.1 h
    exact absurd hpositive (by norm_num)
  · obtain ⟨-, -, -, hlate⟩ := ((hcalls (-1) hmeasured).1 rfl).answers.1 h
    exact absurd hlate (by norm_num)

end RecedingHorizon

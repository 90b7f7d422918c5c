import Mathlib
import RecedingHorizon.Proofs.Controller
import RecedingHorizon.Proofs.NewtonSystem
import RecedingHorizon.Proofs.RoundTrip

/-!
# The start of the horizon

A horizon that grows has no length when it starts.  A step along it moves no state and
pulls no costate back, whatever the model answers there, so that all nodes of the
trajectory that is shot coincide: the state is the measured one, the costate the terminal
gradient, and the time that of the start.  This is where the search for the initial action
has looked.  So the residual of a controller that has just been seeded has no defects, and
its stationarity repeats one gradient for every step, `√N` times as long as it is once.  The
search has measured this gradient over as many copies, and over one at least, and found it
below the tolerance.

* `Model.GradientsFit`, `Model.ReadsTime`: what is asked of the gradients of a model.
* `Horizon.step_self`: the length of a step at the start.
* `Model.condense_start`, `Model.stationarity_start`: the trajectory and its stationarity.
* `Controller.seed_residualNorm_lt`: the residual of a controller that has been seeded.
-/

namespace RecedingHorizon

open scoped Matrix

variable {n d N : ℕ}

/-! ## What is asked of a model -/

/-- Asked with vectors of the dimensions of the model, its gradients, if they answer, answer
with such vectors. -/
structure Model.GradientsFit {α : Type} (model : Model α) : Prop where
  terminalGradient : ∀ {x l : Tensor α} {t : Datum α}, x.shape = [model.stateDim.toNat] →
    model.terminalGradient x t = .ok l → l.shape = [model.stateDim.toNat]
  controlGradient : ∀ {x action l g : Tensor α} {t : Datum α}, x.shape = [model.stateDim.toNat] →
    action.shape = [model.actionDim.toNat] → l.shape = [model.stateDim.toNat] →
    model.controlGradient x action l t = .ok g → g.shape = [model.actionDim.toNat]

/-- The time that is given is the real number `s`, and the gradients of the model take no
notice of the way in which it is given. -/
structure Model.ReadsTime (model : Model ℝ) (t : Datum ℝ) (s : ℝ) : Prop where
  scalar : t.scalar = .ok s
  terminalGradient : ∀ x, model.terminalGradient x t = model.terminalGradient x s
  controlGradient : ∀ x action l,
    model.controlGradient x action l t = model.controlGradient x action l s

/-- A model takes no notice of the way in which a time is given that is given as a scalar. -/
theorem Model.readsTime_real (model : Model ℝ) (s : ℝ) : model.ReadsTime (s : ℝ) s where
  scalar := rfl
  terminalGradient _ := rfl
  controlGradient _ _ _ := rfl

/-! ## The length of a step -/

/-- Of a horizon that grows nothing is there at its start. -/
theorem Horizon.step_self {horizon : Horizon ℝ} {T a s : ℝ} {t : Datum ℝ}
    (hT : horizon.finalLength.scalar = .ok T) (ha : horizon.growthRate.scalar = .ok a)
    (hpos : 0 < a) (hstart : horizon.start = t) (ht : t.scalar = .ok s)
    (hN : horizon.divisions = .number (.whole N)) : horizon.step t = .ok 0 := by
  have hlt : t.lt horizon.start = .ok false := by
    rw [hstart, Datum.lt_of_scalar ht ht, decide_eq_false (lt_irrefl s)]
  have hgrows : horizon.growthRate.isZero = false := by
    rw [Datum.isZero_of_scalar ha, decide_eq_false hpos.ne']
  have hgrown : horizon.grown t = .ok 0 := by
    obtain ⟨k, hk, -⟩ := Datum.negate_of_scalar ha
    obtain ⟨l, hl, hzero⟩ := Datum.minus_of_scalar ht ht
    obtain ⟨e, he, hexponent⟩ := Number.combine_eq Int.cast_mul k l
    have hproduct : k.times l = .ok e := he
    rw [hzero, sub_self, mul_zero] at hexponent
    have hoperand : e.operand = .ok 0 := by
      cases e with
      | whole j =>
          obtain rfl : j = 0 := Int.cast_eq_zero.1 hexponent
          exact congrArg Except.ok Int.cast_zero
      | real y => exact congrArg Except.ok hexponent
    rw [grown, hk, hstart, hl]
    simp only [ok_bind, hproduct, hoperand, pure_eq_ok]
    exact congrArg Except.ok (sub_eq_zero.2 Real.exp_zero.symm)
  have hlength : horizon.length t = .ok 0 := by
    rw [length, hlt, hgrows, hgrown, hT]
    exact congrArg Except.ok (mul_zero T)
  rw [step, hlength, hN, ok_bind]
  split
  · rfl
  · exact congrArg Except.ok (zero_div (N : ℝ))

/-- At the start all nodes have the time of the start. -/
theorem nodeTime_start {t : Datum ℝ} {s : ℝ} (ht : t.scalar = .ok s) (i : ℕ) :
    nodeTime t (.number (.real 0)) i = .ok (.number (.real s)) := by
  obtain ⟨k, hk, rfl⟩ := Datum.asNumber_of_scalar ht
  have hsum : k.plus (.real ((i : ℝ) * 0)) = .ok (.real k.toReal) := by
    rw [Number.plus, Number.combine_real_right, mul_zero, add_zero]
  rw [nodeTime, Datum.multiple_number, Number.multiple_real, ok_bind, Datum.plus, hk, ok_bind,
    Datum.asNumber_number, ok_bind, hsum]
  rfl

/-! ## Steps of no length -/

/-- An array of zeros is zero as a vector. -/
theorem Tensor.eq_zero_of_spread {b : Tensor ℝ} (hb : ∀ y ∈ b.entries, y = 0) {v : Fin n → ℝ}
    (h : b.spread [n] = .ok (nodeRow v)) : v = 0 := by
  have hentry (i : ℕ) : b.entry i = 0 := by
    rw [entry]
    by_cases hi : i < b.entries.length
    · rw [List.getD_eq_getElem _ _ hi]
      exact hb _ (List.getElem_mem hi)
    · exact List.getD_eq_default _ _ (not_lt.1 hi)
  by_cases hs : b.shape = [n]
  · obtain ⟨w, rfl⟩ := exists_eq_ofFn hs
    rw [spread_ofFn] at h
    obtain rfl := nodeRow_injective (Except.ok.inj h)
    funext i
    rw [← entry_ofFn w i]
    exact hentry i
  · rw [spread_of_ne hs (stretches_of_spread h)] at h
    obtain rfl := nodeRow_injective (Except.ok.inj h)
    funext i
    exact hentry _

/-- What is found and multiplied by zero is zero, as a vector. -/
theorem Spreads.eq_zero {found : Except (Fault ℝ) (Tensor ℝ)} {v : Fin n → ℝ}
    (h : Spreads (found >>= fun b => b.scaleBy (.number (.real 0))) v) : v = 0 := by
  obtain ⟨c, hc, hv⟩ := bind_eq_ok_iff.1 h
  obtain ⟨b, -, hc⟩ := bind_eq_ok_iff.1 hc
  cases hc
  refine Tensor.eq_zero_of_spread (fun y hy => ?_) hv
  obtain ⟨z, -, rfl⟩ := List.mem_map.1 hy
  exact zero_mul z

namespace Model

variable {model : Model ℝ} {t : Datum ℝ} {s : ℝ} {actions : Tensor ℝ} {i : ℕ}
variable {x next l e : Fin n → ℝ}

/-- A step of no length moves no state. -/
theorem Steps.eq_add (h : model.Steps t (.number (.real 0)) actions i x next e) :
    next = x + e := by
  obtain ⟨v, hv, rfl⟩ := h
  have hform : model.driftAt t (.number (.real 0)) actions i (.ofFn x) = (do
      let τ ← nodeTime t (.number (.real 0)) i
      let action ← actions.item i
      model.dynamics (.ofFn x) (← model.control action) τ) >>=
        fun b => b.scaleBy (.number (.real 0)) := by
    simp only [driftAt, stateIncrement, bind_assoc]
  rw [hform] at hv
  rw [hv.eq_zero, add_zero]

/-- A step of no length pulls no costate back. -/
theorem Pulls.eq_add (h : model.Pulls t (.number (.real 0)) actions i x next l e) :
    l = next + e := by
  obtain ⟨v, hv, rfl⟩ := h
  have hform : model.pullAt t (.number (.real 0)) actions i (.ofFn x) (.ofFn next) = (do
      let τ ← nodeTime t (.number (.real 0)) i
      let action ← actions.item i
      model.stateGradient (.ofFn x) action (.ofFn next) τ) >>=
        fun b => b.scaleBy (.number (.real 0)) := by
    simp only [pullAt, costateIncrement, bind_assoc]
  rw [hform] at hv
  rw [hv.eq_zero, add_zero]

/-- The trajectory that is shot at the start has one state and one costate, and no
defects. -/
theorem condense_start (ht : model.ReadsTime t s) (ha : actions.count = .ok N)
    (hcostate : model.terminalGradient (.ofFn x) t = .ok (.ofFn l)) {trajectory : Trajectory ℝ}
    (h : model.condense t (.ofFn x) actions (.number (.real 0)) none = .ok trajectory) :
    trajectory = ⟨.ofNodes (N + 1) fun _ => x, .ofNodes (N + 1) fun _ => l⟩ ∧
      model.shootingDefects t (.ofFn x) actions trajectory (.number (.real 0)) =
        .ok ⟨.zeros [N + 1, n], .zeros [N + 1, n]⟩ := by
  have hzeros : (Tensor.zeros [N + 1, n] : Tensor ℝ) = .ofNodes (N + 1) (0 : ℕ → Fin n → ℝ) :=
    Tensor.zeros_eq_ofNodes
  rw [condense_none_ofNodes ha] at h
  obtain ⟨hroom, X, L, h0, hlinked, hfirst, rfl⟩ := (condense_eq_ok_iff ha).1 h
  refine ⟨?_, ?_⟩
  · have hstate : ∀ i ≤ N, X i = x := by
      intro i hi
      induction i with
      | zero => exact h0
      | succ i ih =>
          have hstep := hlinked.steps i hi
          rw [← h0, seen_self] at hstep
          rw [hstep.eq_add, ih (Nat.le_of_succ_le hi)]
          exact add_zero x
    -- the costate is found from the last node on
    have hcostates : ∀ i ≤ N, L i = l := by
      intro i hi
      induction hi using Nat.decreasingInduction with
      | self =>
          obtain ⟨v, hv, hend⟩ := hlinked.ends
          rw [finalAt, nodeTime_start ht.scalar, ok_bind, ← ht.terminalGradient, hstate N le_rfl,
            hcostate] at hv
          obtain rfl : l = v := by
            rw [Spreads, ok_bind, Tensor.spread_ofFn] at hv
            exact nodeRow_injective (Except.ok.inj hv)
          rw [hend]
          exact add_zero l
      | of_succ i hi ih =>
          by_cases hi0 : i = 0
          · subst hi0
            rw [(hfirst hi).eq_add, ih]
            exact add_zero l
          · rw [(hlinked.pulls i hi (Nat.pos_of_ne_zero hi0)).eq_add, ih]
            exact add_zero l
    rw [Tensor.ofNodes_congr fun i hi => hstate i (Nat.le_of_lt_succ hi),
      Tensor.ofNodes_congr fun i hi => hcostates i (Nat.le_of_lt_succ hi)]
  · exact (shootingDefects_eq_ok_iff ha).2
      ⟨hroom, 0, 0, rfl, fun _ => rfl, hlinked, by rw [hzeros]⟩

/-- The stationarity is found step by step. -/
theorem stationarity_eq_ofNodes {x : Tensor ℝ} {δ : Datum ℝ} {trajectory : Trajectory ℝ}
    {a g : ℕ → Fin d → ℝ}
    (h : ∀ i < N, (model.stationarityAt t x (Tensor.ofNodes N a).path trajectory.states.path
      trajectory.costates.path δ i >>= fun b => b.spread [d]) = .ok (Tensor.nodeRow (g i))) :
    model.stationarity t x (.ofNodes N a) trajectory δ = .ok (.ofNodes N g) := by
  have hcollect := Recurrence.collect_eq_ok h
  rw [stationarity, Tensor.count_ofNodes, ok_bind]
  generalize hs : (Tensor.ofNodes N a).shape.drop 1 = shape
  obtain rfl : [d] = shape := by rw [← hs, Tensor.shape_ofNodes]; rfl
  dsimp only
  rw [hcollect]
  rfl

/-- At the start, with one state and one costate at all nodes, the gradient is the same at every
step. -/
theorem stationarity_start (ht : model.ReadsTime t s) {u g : Fin d → ℝ}
    (hgradient : model.controlGradient (.ofFn x) (.ofFn u) (.ofFn l) t = .ok (.ofFn g)) :
    model.stationarity t (.ofFn x) (.ofNodes N fun _ => u)
        ⟨.ofNodes (N + 1) fun _ => x, .ofNodes (N + 1) fun _ => l⟩ (.number (.real 0)) =
      .ok (.ofNodes N fun _ => g) := by
  refine stationarity_eq_ofNodes fun i hi => ?_
  have hseen : seen x (fun _ => x) i = x := ite_self x
  rw [stationarityAt, stateAt_eq x hi.le, hseen, Path.node_path, Tensor.item_ofNodes _ hi,
    Path.node_path, Tensor.item_ofNodes _ (Nat.succ_lt_succ hi), nodeTime_start ht.scalar]
  simp only [ok_bind]
  rw [← ht.controlGradient, hgradient, ok_bind, Tensor.spread_ofFn]

end Model

/-- The residual of actions that repeat one, with the trajectory that is shot from them at the
start: it has no defects, and one gradient for every step. -/
theorem Problem.residual_start {problem : Problem ℝ} {t : Datum ℝ} {s : ℝ} {x l : Fin n → ℝ}
    {u g : Fin d → ℝ} {trajectory : Trajectory ℝ} (ht : problem.model.ReadsTime t s)
    (hstep : problem.horizon.step t = .ok 0)
    (hcostate : problem.model.terminalGradient (.ofFn x) t = .ok (.ofFn l))
    (hgradient : problem.model.controlGradient (.ofFn x) (.ofFn u) (.ofFn l) t = .ok (.ofFn g))
    (h : problem.model.condense t (.ofFn x) (.ofNodes N fun _ => u) (.number (.real 0)) none =
      .ok trajectory) :
    problem.residual t (.ofFn x) (.ofNodes N fun _ => u) trajectory =
      .ok ⟨.ofNodes N fun _ => g, .zeros [N + 1, n], .zeros [N + 1, n]⟩ := by
  obtain ⟨rfl, hdefects⟩ := Model.condense_start ht (Tensor.count_ofNodes _) hcostate h
  rw [residual, hstep, ok_bind]
  dsimp only
  rw [Model.stationarity_start ht hgradient, ok_bind, hdefects]
  rfl

/-! ## A controller that has been seeded -/

/-- Without defects, a residual whose stationarity repeats one vector is `√N` times as long
as the vector. -/
theorem Residual.norm_repeated (g : Fin d → ℝ) :
    norm ⟨.ofNodes N fun _ => g, .zeros [N + 1, n], .zeros [N + 1, n]⟩ =
      √N * (Tensor.ofFn g).norm := by
  rw [norm_flawless, flatten_dotProduct, Finset.sum_const, Finset.card_range, nsmul_eq_mul,
    Real.sqrt_mul N.cast_nonneg, Tensor.norm_ofFn]

theorem Datum.operand_whole {k : ℤ} {y : ℝ}
    (h : (Datum.number (.whole k) : Datum ℝ).operand = .ok y) : y = k := by
  rw [Datum.operand_number, Number.operand] at h
  split at h
  · exact (Except.ok.inj h).symm
  · cases h

/-- The search measures over as many copies as there are steps, and over one at least. -/
theorem Newton.sqrt_le_copyScale {scale : ℝ} (h : copyScale (.number (.whole N)) = .ok scale) :
    √N ≤ scale := by
  obtain ⟨bound, hbound, h⟩ := bind_eq_ok_iff.1 h
  obtain ⟨y, hy, h⟩ := bind_eq_ok_iff.1 h
  cases h
  have hle : (N : ℝ) ≤ y := by
    obtain ⟨fewer, hfewer, hbound⟩ := bind_eq_ok_iff.1 hbound
    cases fewer with
    | false =>
        cases hbound
        exact (Datum.operand_whole hy).ge
    | true =>
        cases hbound
        have hN : (N : ℤ) < 1 := of_decide_eq_true (Except.ok.inj hfewer)
        rw [show N = 0 by omega, Nat.cast_zero, Datum.operand_whole hy]
        exact Int.cast_nonneg zero_le_one
  exact Real.sqrt_le_sqrt hle

namespace Controller

variable {controller : Controller ℝ} {state state' : State ℝ} {t measured : Datum ℝ}

/-- Where the horizon grows, a controller that answers to a seeding, whatever it has carried
before, carries the action that was found at every step and a trajectory without defects.
The norm of its residual is `√N` times that of the gradient at this action, with the terminal
gradient for a costate, and below the tolerance of the search. -/
theorem seed_residualNorm_lt {model : Model ℝ} {draft : Settings.Draft ℝ}
    {settings : Settings ℝ} (hsettings : draft.check = .ok settings)
    (hcontroller : ofSettings model settings = .ok controller) (hmodel : model.GradientsFit)
    {a : ℝ} (ha : settings.growthRate.scalar = .ok a) (hpos : 0 < a) {s : ℝ}
    (ht : model.ReadsTime t s) {answer : Tensor ℝ}
    (hseed : (controller.seed t measured).runOn state = (.ok answer, state')) :
    ∃ x params found costate gradient tolerance,
      controller.checkState measured = .ok x ∧ controller.chosenParams state = .ok params ∧
      Newton.solve model t x params (.number (.whole controller.divisions)) = .ok found ∧
      (∀ i < controller.divisions, state'.actions.get.item i = .ok found.action) ∧
      (∃ stationarity, controller.residual state' t x = .ok ⟨stationarity,
        .zeros controller.nodesShape, .zeros controller.nodesShape⟩) ∧
      model.terminalGradient x t = .ok costate ∧
      model.controlGradient x found.action costate t = .ok gradient ∧
      params.residualTolerance.scalar = .ok tolerance ∧
      (controller.residualNorm t measured).runOn state' =
        (.ok (√controller.divisions * gradient.norm), state') ∧
      √controller.divisions * gradient.norm < tolerance := by
  obtain ⟨T, hT, -⟩ := (Settings.Draft.sound hsettings).horizonLength
  obtain ⟨hm, hs⟩ := model_ofSettings hcontroller
  subst hm hs
  obtain ⟨x, params, found, trajectory, hx, hparams, hfound, hshoot, hstate⟩ :=
    seed_eq_ok hseed
  obtain ⟨costate, gradient, scale, tolerance, hcostate, hgradient, hscale, htolerance, hnorm,
    hlt⟩ := Newton.exists_gradient_of_solve hfound
  have hstep : (controller.horizon t).step t = .ok 0 :=
    Horizon.step_self hT ha hpos rfl ht.scalar rfl
  -- everything that is found is a vector
  have hshapes := shape_checkState hx
  have hcostates := hmodel.terminalGradient hshapes hcostate
  have haction := Newton.shape_solve hfound
  have hgradients := hmodel.controlGradient hshapes haction hcostates hgradient
  obtain ⟨v, rfl⟩ := Tensor.exists_eq_ofFn hshapes
  obtain ⟨l, rfl⟩ := Tensor.exists_eq_ofFn hcostates
  obtain ⟨u, hu⟩ := Tensor.exists_eq_ofFn haction
  obtain ⟨g, rfl⟩ := Tensor.exists_eq_ofFn hgradients
  have hactions : found.action.replicate controller.divisions =
      .ofNodes controller.divisions fun _ => u := by
    rw [hu, Tensor.replicate_ofFn]
  rw [shoot, hstep, ok_bind, hactions] at hshoot
  rw [hu] at hgradient
  have hresidual : controller.residual state' t (.ofFn v) =
      .ok ⟨.ofNodes controller.divisions fun _ => g, .zeros controller.nodesShape,
        .zeros controller.nodesShape⟩ := by
    have hstored : controller.residual state' t (.ofFn v) = (controller.problem t).residual t
        (.ofFn v) (found.action.replicate controller.divisions) trajectory := by
      rw [hstate]
      rfl
    rw [hstored, hactions]
    refine Problem.residual_start ht ?_ hcostate hgradient hshoot
    exact hstep
  have hinitialized : state'.initialized = true := by rw [hstate]
  refine ⟨.ofFn v, params, found, .ofFn l, .ofFn g, tolerance, hx, hparams, hfound, fun i hi => ?_,
    ⟨_, hresidual⟩, hcostate, ?_, htolerance, ?_, ?_⟩
  · rw [hstate]
    show (found.action.replicate controller.divisions).item i = .ok found.action
    rw [hactions, Tensor.item_ofNodes _ hi, hu]
  · rw [hu]
    exact hgradient
  · rw [runOn_residualNorm hinitialized hx hresidual, nodesShape, Residual.norm_repeated]
  · refine lt_of_le_of_lt ?_ hlt
    rw [hnorm]
    exact mul_le_mul_of_nonneg_right (Newton.sqrt_le_copyScale hscale) (Real.sqrt_nonneg _)

end Controller

/-! ## The integrator -/

/-- The settings of the controller of the integrator, but that its horizon grows at rate one. -/
def growingSettings : Settings ℝ := { unitSettings with growthRate := 1 }

theorem check_growingSettings : growingSettings.draft.check = .ok growingSettings := rfl

/-- The controller of the integrator on a horizon that grows. -/
noncomputable def growingController : Controller ℝ :=
  { unitController with settings := growingSettings }

theorem ofSettings_growingSettings :
    Controller.ofSettings Regulator.integrator.model growingSettings = .ok growingController :=
  ofSettings_of_dims actionDim_unitController Regulator.integrator.answers.stateDim rfl rfl rfl

/-- The gradients of a regulator fit. -/
theorem Regulator.gradientsFit {m : ℕ} (r : Regulator n m) : r.model.GradientsFit where
  terminalGradient := by
    intro x l t hx h
    rw [r.stateDim_model, Int.toNat_natCast] at hx ⊢
    obtain ⟨v, rfl⟩ := Tensor.exists_eq_ofFn hx
    obtain rfl := Except.ok.inj ((r.weighted_deviation r.F v).symm.trans h)
    exact Tensor.shape_ofFn _
  controlGradient := by
    intro x action l g t hx ha hl h
    rw [r.stateDim_model, Int.toNat_natCast] at hx hl
    rw [r.answers.actionDim, Int.toNat_natCast] at ha ⊢
    obtain ⟨v, rfl⟩ := Tensor.exists_eq_ofFn hx
    obtain ⟨u, rfl⟩ := Tensor.exists_eq_ofFn ha
    obtain ⟨w, rfl⟩ := Tensor.exists_eq_ofFn hl
    obtain rfl := Except.ok.inj ((r.controlGradient_model v u w t).symm.trans h)
    exact Tensor.shape_ofFn _

theorem serves_growingController :
    growingController.Serves Regulator.integrator.responses 1 1 1 1 :=
  Controller.serves_ofSettings (Settings.Draft.sound check_growingSettings)
    ofSettings_growingSettings Regulator.integrator.answers (congrArg Except.ok Int.cast_one)
    (congrArg Except.ok Int.cast_one) (congrArg Except.ok Int.cast_one)
    (congrArg Except.ok Int.cast_one)

/-- The integrator on a horizon that grows, seeded at one.  The search takes one iteration. -/
theorem growingController_seed_residualNorm_lt :
    ∃ answer state' x params found costate gradient tolerance,
      (growingController.seed (.number (.real 0)) (.ofTensor (.ofFn (1 : Fin 1 → ℝ)))).runOn
        growingController.blank = (.ok answer, state') ∧
      growingController.checkState (.ofTensor (.ofFn (1 : Fin 1 → ℝ))) = .ok x ∧
      growingController.chosenParams growingController.blank = .ok params ∧
      Newton.solve Regulator.integrator.model (.number (.real 0)) x params
        (.number (.whole growingController.divisions)) = .ok found ∧
      (∀ i < growingController.divisions, state'.actions.get.item i = .ok found.action) ∧
      (∃ stationarity, growingController.residual state' (.number (.real 0)) x =
        .ok ⟨stationarity, .zeros growingController.nodesShape,
          .zeros growingController.nodesShape⟩) ∧
      Regulator.integrator.model.terminalGradient x (.number (.real 0)) = .ok costate ∧
      Regulator.integrator.model.controlGradient x found.action costate (.number (.real 0)) =
        .ok gradient ∧
      params.residualTolerance.scalar = .ok tolerance ∧
      (growingController.residualNorm (.number (.real 0))
        (.ofTensor (.ofFn (1 : Fin 1 → ℝ)))).runOn state' =
          (.ok (√growingController.divisions * gradient.norm), state') ∧
      √growingController.divisions * gradient.norm < tolerance ∧
      found.action = .ofFn (-1 : Fin 1 → ℝ) ∧ found.iterations = 1 := by
  have hone : growingSettings.growthRate.scalar = .ok 1 := congrArg Except.ok Int.cast_one
  obtain ⟨answer, state', hseed, -⟩ := seed_integrator serves_growingController rfl rfl rfl
  obtain ⟨x, params, found, costate, gradient, tolerance, hx, hparams, hfound, hactions, hresidual,
    hcostate, hgradient, htolerance, hnorm, hlt⟩ :=
    Controller.seed_residualNorm_lt check_growingSettings ofSettings_growingSettings
      Regulator.integrator.gradientsFit hone one_pos (Model.readsTime_real _ 0) hseed
  have hchosen : growingController.chosenParams growingController.blank = .ok unitParams :=
    chosenParams_of_dim actionDim_unitController rfl rfl
  -- what has been found is what is known of this search
  obtain rfl := Except.ok.inj ((Controller.checkState_eq serves_growingController 1).symm.trans hx)
  obtain rfl := Except.ok.inj (hchosen.symm.trans hparams)
  obtain rfl := Except.ok.inj (Newton.solve_integrator.symm.trans hfound)
  exact ⟨answer, state', _, _, _, costate, gradient, tolerance, hseed, hx, hparams, hfound,
    hactions, hresidual, hcostate, hgradient, htolerance, hnorm, hlt, rfl, rfl⟩

end RecedingHorizon

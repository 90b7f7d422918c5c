import Mathlib
import RecedingHorizon.Proofs.Agreement
import RecedingHorizon.Proofs.Linked
import RecedingHorizon.Proofs.Numbers
import RecedingHorizon.Proofs.Optimality

/-!
# From defects to a trajectory and back

Prescribing defects and reading them are inverse to one another, for any model and on
any horizon, one without a step included.  A trajectory with prescribed defects has
these.  The other way round a stored trajectory has the current state put in the place
of its first one, and the costate before the second one is found anew, since nothing
says what it should be; all else comes back, and the stationarity with it.

* `Model.shootingDefects_condense`: defects, a trajectory, and these defects again.
* `Problem.condensedStationarity_defects`: a trajectory, its defects, and this
  trajectory again.
* `integrator_shootingDefects_condense`, `integrator_condensedStationarity_defects`:
  both for the integrator.
-/

namespace RecedingHorizon

open scoped Matrix

variable {n N : ℕ}

namespace Model

variable {model : Model ℝ} {t δ : Datum ℝ} {x actions : Tensor ℝ}

/-! ## Without prescribed defects -/

/-- No defect and the defect zero are the same. -/
theorem addDefect_none {i : ℕ} (hi : i ≤ N) (r : Row ℝ [n]) :
    addDefect none i r =
      addDefect (some (Tensor.ofNodes (N + 1) (0 : ℕ → Fin n → ℝ)).path) i r := by
  obtain ⟨v, rfl⟩ := nodeRow_surjective r
  have hnone := addDefect_eq (N := N) (E := 0) (p := none) rfl hi v
  have hzero := addDefect_eq (N := N) (E := 0)
    (p := some (Tensor.ofNodes (N + 1) (0 : ℕ → Fin n → ℝ))) rfl hi v
  rw [Option.map_none] at hnone
  rw [Option.map_some] at hzero
  rw [hnone, hzero]

theorem shootStates_none (hx : x.shape = [n]) (ha : actions.count = .ok N) :
    model.shootStates t x actions δ none =
      model.shootStates t x actions δ
        (some (Tensor.ofNodes (N + 1) (0 : ℕ → Fin n → ℝ))) := by
  obtain ⟨x, rfl⟩ := Tensor.exists_eq_ofFn hx
  have hrun (first : Row ℝ [n]) :
      Recurrence.run (model.nextState t δ actions.path none) N first =
        Recurrence.run (model.nextState t δ actions.path
          (some (Tensor.ofNodes (N + 1) (0 : ℕ → Fin n → ℝ)).path)) N first := by
    refine Recurrence.run_congr fun i hi r => ?_
    simp only [nextState, addDefect_none (Nat.succ_le_of_lt hi)]
  -- by single rewrites: `simp` would make the kernel evaluate the size of the array
  rw [shootStates, shootStates, ha, ok_bind, ok_bind, Tensor.count_ofFn, ok_bind, ok_bind,
    Tensor.spread_ofFn]
  refine congrArg (Tensor.checkRoom [(N : ℤ) + 1, (n : ℤ)] >>= ·) (funext fun _ => ?_)
  rw [ok_bind, ok_bind, Option.map_none, Option.map_some]
  exact congrArg (· >>= fun rows => Except.ok (Tensor.ofRows rows)) (hrun (Tensor.nodeRow x))

theorem shootCostates_none {X : ℕ → Fin n → ℝ} (ha : actions.count = .ok N) :
    model.shootCostates t (.ofNodes (N + 1) X) actions δ none =
      model.shootCostates t (.ofNodes (N + 1) X) actions δ
        (some (Tensor.ofNodes (N + 1) (0 : ℕ → Fin n → ℝ))) := by
  rw [shootCostates, shootCostates, ha]
  generalize hs : (Tensor.ofNodes (N + 1) X).shape.drop 1 = shape
  obtain rfl : [n] = shape := by rw [← hs, Tensor.shape_ofNodes]; rfl
  have hterminal : model.terminalCostate t δ (Tensor.ofNodes (N + 1) X).path none [n] N =
      model.terminalCostate t δ (Tensor.ofNodes (N + 1) X).path
        (some (Tensor.ofNodes (N + 1) (0 : ℕ → Fin n → ℝ)).path) [n] N := by
    simp only [terminalCostate, addDefect_none (le_refl N)]
  have hrun (final : Row ℝ [n]) :
      Recurrence.run (fun j (next : Row ℝ [n]) => model.previousCostate t δ
          (Tensor.ofNodes (N + 1) X).path actions.path none (N - 1 - j) next) N final =
        Recurrence.run (fun j (next : Row ℝ [n]) => model.previousCostate t δ
          (Tensor.ofNodes (N + 1) X).path actions.path
          (some (Tensor.ofNodes (N + 1) (0 : ℕ → Fin n → ℝ)).path) (N - 1 - j) next) N final := by
    refine Recurrence.run_congr fun j hj next => ?_
    simp only [previousCostate, addDefect_none (show N - 1 - j ≤ N by omega)]
  simp only [ok_bind, Option.map_none, Option.map_some, hterminal, hrun]

/-- Without prescribed defects the defects are zero. -/
theorem condense_none (hx : x.shape = [n]) (ha : actions.count = .ok N) :
    model.condense t x actions δ none =
      model.condense t x actions δ (some ⟨.zeros [N + 1, n], .zeros [N + 1, n]⟩) := by
  have hzeros : (Tensor.zeros [N + 1, n] : Tensor ℝ) = .ofNodes (N + 1) (0 : ℕ → Fin n → ℝ) :=
    Tensor.zeros_eq_ofNodes
  simp only [condense, Option.map_none, Option.map_some, hzeros, shootStates_none hx ha]
  rcases hstates : model.shootStates t x actions δ
      (some (Tensor.ofNodes (N + 1) (0 : ℕ → Fin n → ℝ))) with e | states
  · rfl
  · obtain ⟨x, rfl⟩ := Tensor.exists_eq_ofFn hx
    obtain ⟨-, X, -, -, rfl⟩ := (shootStates_eq_ok_iff ha).1 hstates
    simp only [ok_bind, shootCostates_none ha]

/-- Without prescribed defects they are zero at every node. -/
theorem condense_none_ofNodes (ha : actions.count = .ok N) (x : Fin n → ℝ) :
    model.condense t (.ofFn x) actions δ none =
      model.condense t (.ofFn x) actions δ
        (some ⟨.ofNodes (N + 1) (0 : ℕ → Fin n → ℝ), .ofNodes (N + 1) (0 : ℕ → Fin n → ℝ)⟩) := by
  have hzeros : (Tensor.zeros [N + 1, n] : Tensor ℝ) = .ofNodes (N + 1) (0 : ℕ → Fin n → ℝ) :=
    Tensor.zeros_eq_ofNodes
  rw [condense_none (Tensor.shape_ofFn x) ha, hzeros]

/-! ## Defects, a trajectory, and these defects again -/

/-- A trajectory that has defects prescribed begins at the current state, and its defects
are the prescribed ones if those are zero at node zero.  On a horizon with a step it does
not depend on what is prescribed there.  Nothing prescribed is zero prescribed; and a
model that answers on vectors lets every defects be prescribed. -/
theorem shootingDefects_condense (model : Model ℝ) (t δ : Datum ℝ) {x actions : Tensor ℝ}
    {n N : ℕ} (hx : x.shape = [n]) (ha : actions.count = .ok N) (D : Defects ℝ)
    (hstates : D.states.shape = [N + 1, n]) (hcostates : D.costates.shape = [N + 1, n]) :
    (∀ trajectory, model.condense t x actions δ (some D) = .ok trajectory →
      trajectory.states.item 0 = .ok x ∧
      (D.states.item 0 = .ok (.zeros [n]) → D.costates.item 0 = .ok (.zeros [n]) →
        model.shootingDefects t x actions trajectory δ = .ok D)) ∧
    (0 < N → ∀ D', D.AgreePast D' →
      model.condense t x actions δ (some D') = model.condense t x actions δ (some D)) ∧
    model.condense t x actions δ none =
      model.condense t x actions δ (some ⟨.zeros [N + 1, n], .zeros [N + 1, n]⟩) ∧
    (∀ {m c : ℕ} (r : Responses n m c) (s d : ℝ), model.Answers r → t = s → δ = d →
      actions.shape = [N, m + c] → Room N n →
      ∃ trajectory, model.condense t x actions δ (some D) = .ok trajectory) := by
  obtain ⟨v, rfl⟩ := Tensor.exists_eq_ofFn hx
  obtain ⟨E, hE⟩ := Tensor.exists_eq_ofNodes hstates
  obtain ⟨M, hM⟩ := Tensor.exists_eq_ofNodes hcostates
  obtain rfl : D = ⟨.ofNodes (N + 1) E, .ofNodes (N + 1) M⟩ := by
    obtain ⟨states, costates⟩ := D
    exact congrArg₂ Defects.mk hE hM
  refine ⟨fun trajectory h => ?_, fun hN D' hD => ?_, condense_none hx ha, ?_⟩
  · obtain ⟨hroom, X, L, h0, hlinked, -, rfl⟩ := (condense_eq_ok_iff ha).1 h
    refine ⟨?_, fun hE0 hM0 => ?_⟩
    · show (Tensor.ofNodes (N + 1) X).item 0 = .ok (.ofFn v)
      rw [Tensor.item_ofNodes X (Nat.succ_pos N), h0]
    · rw [Tensor.item_ofNodes _ (Nat.succ_pos N), Tensor.zeros_eq_ofFn] at hE0 hM0
      have hE0 : E 0 = 0 := Tensor.ofFn_injective (Except.ok.inj hE0)
      have hM0 : M 0 = 0 := Tensor.ofFn_injective (Except.ok.inj hM0)
      exact (shootingDefects_eq_ok_iff ha).2 ⟨hroom, E, M, hE0, fun _ => hM0, hlinked, rfl⟩
  · have hsteps : actions.count ≠ .ok 0 := by
      rw [ha]
      exact fun h => hN.ne' (Except.ok.inj h)
    exact (condense_congr hD hsteps).symm
  · rintro m c r s d hm rfl rfl hshape hroom
    obtain ⟨a, rfl⟩ := Tensor.exists_eq_ofNodes hshape
    exact ⟨_, condense_eq hm hroom (D := some ⟨.ofNodes (N + 1) E, .ofNodes (N + 1) M⟩) rfl rfl v⟩

end Model

/-- The integrator on two steps, with defects at both of them. -/
theorem integrator_shootingDefects_condense :
    ∃ trajectory, Regulator.integrator.model.condense (0 : ℝ) (.ofFn ![1])
        (.ofNodes 2 fun _ => ![1]) (1 : ℝ)
        (some ⟨.ofNodes 3 fun i (_ : Fin 1) => (i : ℝ), .ofNodes 3 fun i (_ : Fin 1) => -(i : ℝ)⟩) =
          .ok trajectory ∧
      trajectory.states.item 0 = .ok (.ofFn ![1]) ∧
      Regulator.integrator.model.shootingDefects (0 : ℝ) (.ofFn ![1]) (.ofNodes 2 fun _ => ![1])
        trajectory (1 : ℝ) = .ok ⟨.ofNodes 3 fun i (_ : Fin 1) => (i : ℝ),
          .ofNodes 3 fun i (_ : Fin 1) => -(i : ℝ)⟩ := by
  obtain ⟨hround, -, -, hanswers⟩ := Model.shootingDefects_condense Regulator.integrator.model
    (0 : ℝ) (1 : ℝ) (Tensor.shape_ofFn (![1] : Fin 1 → ℝ))
    (Tensor.count_ofNodes (N := 2) fun _ => (![1] : Fin 1 → ℝ))
    ⟨.ofNodes 3 fun i (_ : Fin 1) => (i : ℝ), .ofNodes 3 fun i (_ : Fin 1) => -(i : ℝ)⟩
    (Tensor.shape_ofNodes _) (Tensor.shape_ofNodes _)
  have hroom : Room 2 1 := .of_le_two le_rfl
  obtain ⟨trajectory, hcondense⟩ := hanswers Regulator.integrator.responses 0 1
    Regulator.integrator.answers rfl rfl (Tensor.shape_ofNodes _) hroom
  obtain ⟨hfirst, hdefects⟩ := hround trajectory hcondense
  refine ⟨trajectory, hcondense, hfirst, hdefects ?_ ?_⟩
  · rw [Tensor.item_ofNodes _ (Nat.succ_pos 2), Tensor.zeros_eq_ofFn, Nat.cast_zero]
  · rw [Tensor.item_ofNodes _ (Nat.succ_pos 2), Tensor.zeros_eq_ofFn, Nat.cast_zero, neg_zero]

/-! ## A trajectory, its defects, and this trajectory again -/

/-- A trajectory is linked by its defects with the current state in the place of its first
one, and with any costate before the second one. -/
theorem Model.Linked.update {model : Model ℝ} {t δ : Datum ℝ} {actions : Tensor ℝ}
    {x : Fin n → ℝ} {X L E M : ℕ → Fin n → ℝ} (hN : 0 < N)
    (h : model.Linked t δ actions N x X L E M) (first : Fin n → ℝ) :
    model.Linked t δ actions N x (Function.update X 0 x) (Function.update L 0 first) E M := by
  have hseen (i : ℕ) : seen x (Function.update X 0 x) i = seen x X i := by
    cases i with
    | zero => rfl
    | succ i => rw [seen_succ, seen_succ, Function.update_of_ne (Nat.succ_ne_zero i)]
  refine ⟨fun i hi => ?_, ?_, fun i hi h0 => ?_⟩
  · rw [hseen, Function.update_of_ne (Nat.succ_ne_zero i)]
    exact h.steps i hi
  · rw [Function.update_of_ne hN.ne', Function.update_of_ne hN.ne']
    exact h.ends
  · rw [Function.update_of_ne h0.ne', Function.update_of_ne h0.ne',
      Function.update_of_ne (Nat.succ_ne_zero i)]
    exact h.pulls i hi h0

namespace Problem

/-- The costate at node zero, by the equation there, from a stored costate at node one. -/
def firstCostate {α : Type} [Scalar α] (problem : Problem α) (t : Datum α) (x actions : Tensor α)
    (trajectory : Trajectory α) : Except (Fault α) (Tensor α) := do
  let δ := Datum.number (.real (← problem.horizon.step t))
  let next ← trajectory.costates.item 1
  let increment ← problem.model.pullAt t δ actions 0 x next
  let first ← (← next.plus increment).spread next.shape
  return first.1

variable {problem : Problem ℝ} {t : Datum ℝ}

/-- The costate at node zero is the one that the step there leads back to. -/
theorem exists_pulls_of_firstCostate {δ : ℝ} {x : Fin n → ℝ} {actions first states : Tensor ℝ}
    {L : ℕ → Fin n → ℝ} (hN : 0 < N) (hδ : problem.horizon.step t = .ok δ)
    (h : problem.firstCostate t (.ofFn x) actions ⟨states, .ofNodes (N + 1) L⟩ = .ok first) :
    ∃ l : Fin n → ℝ, first = .ofFn l ∧
      problem.model.Pulls t (.number (.real δ)) actions 0 x (L 1) l 0 := by
  rw [firstCostate, hδ, ok_bind] at h
  dsimp only at h
  rw [Tensor.item_ofNodes L (Nat.succ_lt_succ hN), ok_bind, Tensor.shape_ofFn] at h
  obtain ⟨increment, hincrement, h⟩ := bind_eq_ok_iff.1 h
  obtain ⟨sum, hsum, h⟩ := bind_eq_ok_iff.1 h
  obtain ⟨row, hrow, h⟩ := bind_eq_ok_iff.1 h
  obtain ⟨l, rfl⟩ := nodeRow_surjective row
  have hspreads : Spreads (problem.model.pullAt t (.number (.real δ)) actions 0 (.ofFn x)
      (.ofFn (L 1)) >>= fun b => (Tensor.ofFn (L 1)).plus b) l := by
    rw [Spreads, hincrement, ok_bind, hsum, ok_bind, hrow]
  obtain ⟨v, hv, rfl⟩ := spreads_plus_iff.1 hspreads
  exact ⟨L 1 + v, (Except.ok.inj h).symm, v, hv, (add_zero _).symm⟩

/-- Under the defects of a stored trajectory this trajectory comes back, but for the current
state in the place of its first one and a costate before the second one that is found anew,
and the stationarity is that of the stored one. -/
theorem condensedStationarity_of_residual {x actions : Tensor ℝ} {trajectory : Trajectory ℝ}
    (hx : x.shape = [n]) (ha : actions.count = .ok N) (hN : 0 < N)
    (hstates : trajectory.states.shape = [N + 1, n])
    (hcostates : trajectory.costates.shape = [N + 1, n]) {residual : Residual ℝ}
    {first : Tensor ℝ} (hresidual : problem.residual t x actions trajectory = .ok residual)
    (hfirst : problem.firstCostate t x actions trajectory = .ok first) :
    ∃ trajectory', problem.condensedStationarity t x actions (some residual.defects) =
        .ok (residual.stationarity, trajectory') ∧
      trajectory'.AgreePast trajectory ∧ trajectory'.states.item 0 = .ok x ∧
      trajectory'.costates.item 0 = .ok first := by
  obtain ⟨x, rfl⟩ := Tensor.exists_eq_ofFn hx
  obtain ⟨X, hX⟩ := Tensor.exists_eq_ofNodes hstates
  obtain ⟨L, hL⟩ := Tensor.exists_eq_ofNodes hcostates
  obtain rfl : trajectory = ⟨.ofNodes (N + 1) X, .ofNodes (N + 1) L⟩ := by
    obtain ⟨states, costates⟩ := trajectory
    exact congrArg₂ Trajectory.mk hX hL
  obtain ⟨δ, hδ, hresidual⟩ := bind_eq_ok_iff.1 hresidual
  obtain ⟨F, hF, hresidual⟩ := bind_eq_ok_iff.1 hresidual
  obtain ⟨D, hD, hresidual⟩ := bind_eq_ok_iff.1 hresidual
  obtain rfl : (⟨F, D⟩ : Residual ℝ) = residual := Except.ok.inj hresidual
  obtain ⟨hroom, E, M, -, -, hlinked, rfl⟩ := (Model.shootingDefects_eq_ok_iff ha).1 hD
  obtain ⟨l, rfl, hpull⟩ := exists_pulls_of_firstCostate hN hδ hfirst
  have hpull' : 0 < N → problem.model.Pulls t (.number (.real δ)) actions 0 x
      (Function.update L 0 l 1) (Function.update L 0 l 0) 0 := by
    intro _
    rw [Function.update_self, Function.update_of_ne one_ne_zero]
    exact hpull
  have hcondense := (Model.condense_eq_ok_iff ha).2 ⟨hroom, Function.update X 0 x,
    Function.update L 0 l, Function.update_self 0 x X, hlinked.update hN l, hpull', rfl⟩
  have hagree : Trajectory.AgreePast
      ⟨.ofNodes (N + 1) (Function.update X 0 x), .ofNodes (N + 1) (Function.update L 0 l)⟩
      ⟨.ofNodes (N + 1) X, .ofNodes (N + 1) L⟩ :=
    ⟨Tensor.AgreePast.update_ofNodes X x, Tensor.AgreePast.update_ofNodes L l⟩
  refine ⟨_, ?_, hagree, ?_, ?_⟩
  · rw [condensedStationarity, hδ, ok_bind]
    dsimp only
    rw [hcondense, ok_bind, Model.stationarity_congr hagree, hF]
    rfl
  · rw [Tensor.item_ofNodes _ (Nat.succ_pos N), Function.update_self]
  · rw [Tensor.item_ofNodes _ (Nat.succ_pos N), Function.update_self]

/-- The costate at node zero for a model that answers on vectors. -/
theorem firstCostate_eq {m c : ℕ} {r : Responses n m c} {s δ : ℝ} (hm : problem.model.Answers r)
    (hN : 0 < N) (hδ : problem.horizon.step s = .ok δ) (x : Fin n → ℝ)
    (a : ℕ → Fin (m + c) → ℝ) (states : Tensor ℝ) (L : ℕ → Fin n → ℝ) :
    problem.firstCostate s (.ofFn x) (.ofNodes N a) ⟨states, .ofNodes (N + 1) L⟩ =
      .ok (.ofFn (L 1 + δ • r.stateGradient x (a 0) (L 1) s)) := by
  have htime : s + ((0 : ℕ) : ℝ) * δ = s := by rw [Nat.cast_zero, zero_mul, add_zero]
  rw [firstCostate, hδ, ok_bind]
  dsimp only
  rw [Tensor.item_ofNodes L (Nat.succ_lt_succ hN), ok_bind, Model.pullAt, nodeTime_real, ok_bind,
    htime, Tensor.item_ofNodes a hN, ok_bind, Model.costateIncrement_eq hm, ok_bind,
    Tensor.plus_ofFn, ok_bind, Tensor.shape_ofFn, Tensor.spread_ofFn]
  rfl

/-- Under the defects of a stored trajectory, consistent or not, this trajectory comes back
but for its rows at node zero, and with it the stationarity.  The state there is the current
one, and the costate is the one that the first step leads back to.  On a model that answers
on vectors this is what happens at every time from the start of the horizon on. -/
theorem condensedStationarity_defects (problem : Problem ℝ) (t : Datum ℝ) {x actions : Tensor ℝ}
    {trajectory : Trajectory ℝ} {n N : ℕ} (hx : x.shape = [n]) (ha : actions.count = .ok N)
    (hN : 0 < N) (hstates : trajectory.states.shape = [N + 1, n])
    (hcostates : trajectory.costates.shape = [N + 1, n]) :
    (∀ residual first, problem.residual t x actions trajectory = .ok residual →
      problem.firstCostate t x actions trajectory = .ok first →
      ∃ trajectory', problem.condensedStationarity t x actions (some residual.defects) =
          .ok (residual.stationarity, trajectory') ∧
        trajectory'.AgreePast trajectory ∧ trajectory'.states.item 0 = .ok x ∧
        trajectory'.costates.item 0 = .ok first) ∧
    (∀ {m c : ℕ} (r : Responses n m c) (T a t₀ s δ : ℝ) (k : ℕ) (v : Fin n → ℝ)
      (U : ℕ → Fin (m + c) → ℝ) (X L : ℕ → Fin n → ℝ), problem.model.Answers r →
      problem.horizon.finalLength.scalar = .ok T → problem.horizon.growthRate.scalar = .ok a →
      problem.horizon.start.scalar = .ok t₀ → problem.horizon.divisions = .number (.whole k) →
      δ = (if k = 0 then 0 else Horizon.reach T a (s - t₀) / k) → t = s → t₀ ≤ s →
      x = .ofFn v → actions = .ofNodes N U →
      trajectory = ⟨.ofNodes (N + 1) X, .ofNodes (N + 1) L⟩ → Room N n →
      ∃ residual trajectory', problem.residual t x actions trajectory = .ok residual ∧
        problem.condensedStationarity t x actions (some residual.defects) =
          .ok (residual.stationarity, trajectory') ∧
        trajectory'.AgreePast trajectory ∧ trajectory'.states.item 0 = .ok x ∧
        trajectory'.costates.item 0 =
          .ok (.ofFn (L 1 + δ • r.stateGradient v (U 0) (L 1) s))) := by
  refine ⟨fun residual first hresidual hfirst =>
    condensedStationarity_of_residual hx ha hN hstates hcostates hresidual hfirst, ?_⟩
  rintro m c r T a t₀ s δ k v U X L hm hT hgrowth hstart hdivisions hδ rfl hs rfl rfl rfl hroom
  have hstep : problem.horizon.step s = .ok δ := by
    rw [hδ]
    exact Horizon.step_of_scalar hT hgrowth hstart hdivisions hs
  have hresidual := residual_eq hm hroom hstep v U X L
  have hfirst := firstCostate_eq hm hN hstep v U (.ofNodes (N + 1) X) L
  obtain ⟨trajectory', hcondensed, hagree, hstate, hcostate⟩ :=
    condensedStationarity_of_residual hx ha hN hstates hcostates hresidual hfirst
  exact ⟨_, trajectory', hresidual, hcondensed, hagree, hstate, hcostate⟩

/-- The integrator on one step with an inconsistent trajectory. -/
theorem integrator_condensedStationarity_defects :
    ∃ residual trajectory', (Problem.mk Regulator.integrator.model unitHorizon).residual (0 : ℝ)
        (.ofFn ![1]) (.ofNodes 1 fun _ => ![2])
        ⟨.ofNodes 2 fun _ => ![5], .ofNodes 2 fun _ => ![7]⟩ = .ok residual ∧
      (Problem.mk Regulator.integrator.model unitHorizon).condensedStationarity (0 : ℝ)
        (.ofFn ![1]) (.ofNodes 1 fun _ => ![2]) (some residual.defects) =
          .ok (residual.stationarity, trajectory') ∧
      trajectory'.AgreePast ⟨.ofNodes 2 fun _ => ![5], .ofNodes 2 fun _ => ![7]⟩ ∧
      trajectory'.states.item 0 = .ok (.ofFn ![1]) ∧
      trajectory'.costates.item 0 = .ok (.ofFn
        (![7] + (1 : ℝ) • Regulator.integrator.responses.stateGradient ![1] ![2] ![7] 0)) := by
  have hroom : Room 1 1 := .of_le_two one_le_two
  have hcount : (Tensor.ofNodes 1 fun _ => (![2] : Fin 1 → ℝ)).count = .ok 1 :=
    Tensor.count_ofNodes _
  have hstates : (Trajectory.mk (.ofNodes 2 fun _ => (![5] : Fin 1 → ℝ))
      (.ofNodes 2 fun _ => (![7] : Fin 1 → ℝ))).states.shape = [1 + 1, 1] := Tensor.shape_ofNodes _
  have hcostates : (Trajectory.mk (.ofNodes 2 fun _ => (![5] : Fin 1 → ℝ))
      (.ofNodes 2 fun _ => (![7] : Fin 1 → ℝ))).costates.shape = [1 + 1, 1] :=
    Tensor.shape_ofNodes _
  have hδ : (1 : ℝ) = if 1 = 0 then 0 else Horizon.reach 1 0 (0 - 0) / (1 : ℕ) := by
    rw [if_neg one_ne_zero, Horizon.reach_zero, Nat.cast_one, div_one]
  exact (condensedStationarity_defects (Problem.mk Regulator.integrator.model unitHorizon) (0 : ℝ)
    (Tensor.shape_ofFn (![1] : Fin 1 → ℝ)) hcount Nat.one_pos hstates hcostates).2
    Regulator.integrator.responses 1 0 0 0 1 1 ![1] (fun _ => ![2]) (fun _ => ![5]) (fun _ => ![7])
    Regulator.integrator.answers rfl rfl rfl rfl hδ rfl le_rfl rfl rfl rfl hroom

end Problem

end RecedingHorizon

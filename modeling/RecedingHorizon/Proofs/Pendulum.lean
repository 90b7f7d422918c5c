import RecedingHorizon.Proofs.Gradients
import RecedingHorizon.Proofs.Numbers
import RecedingHorizon.Proofs.TimeShift

/-!
# The pendulum in real numbers

If its constants are numbers, and the length is not zero, a pendulum is a smooth stage: a weight
on the deviation from the target, an effort, the motion and the excess over the bound, which
depend on the state or on the inputs.  The constants may be whole numbers or scalars, and wide
ones among them are kept in the Jacobian and in the gradient of the cost until these are computed
with; either way the answers are the partial derivatives.  So the gradients that are put together
of them are those of the Hamiltonian.

* `Gathered.tensor_ofNumbers`: an array gathered from numbers, kept or not.
* `Pendulum.Constants`, `Pendulum.Reads`: the constants as real numbers.
* `Constants.hamiltonian`: the Hamiltonian in torque, dummy input and multiplier.
* `Constants.smooth`, `Reads.evaluates`: the smooth stage, and that the pendulum evaluates it.
* `assembled_gradients`: pendulums and linear systems answer with the gradients of their
  Hamiltonians.
-/

namespace RecedingHorizon

open scoped Matrix

/-- Whatever numbers an array is gathered from, wide ones among them or not. -/
theorem Gathered.tensor_ofNumbers (a : Tensor (Number ℝ)) :
    (ofNumbers a >>= tensor) = .ok (a.map Number.toReal) := by
  have hentries : ∀ ks : Vec (Number ℝ), ks.mapM Number.scalar =
      (.ok (ks.map Number.toReal) : Except (Fault ℝ) (Vec ℝ)) := by
    intro ks
    induction ks with
    | nil => rfl
    | cons k ks ih =>
        rw [List.mapM_cons, Number.scalar_eq, ok_bind, ih]
        rfl
  have hscalars : toScalars a = .ok (a.map Number.toReal) := by
    rw [toScalars, hentries, ok_bind, dif_pos (by rw [List.length_map, a.length_entries])]
    rfl
  rw [ofNumbers]
  split
  · exact hscalars
  · rw [hscalars]
    rfl

/-! ## The constants -/

namespace Pendulum

/-- The constants of a pendulum as real numbers, with a length that is not zero. -/
structure Constants where
  gravity : ℝ
  length : ℝ
  damping : ℝ
  bound : ℝ
  target : ℝ
  stageWeight : Fin 2 → ℝ
  terminalWeight : Fin 2 → ℝ
  torqueWeight : ℝ
  reward : ℝ
  length_ne_zero : length ≠ 0

/-- The constants of the standard pendulum. -/
noncomputable def Constants.standard : Constants where
  gravity := 9.80665
  length := 1
  damping := 0.1
  bound := 2.0
  target := 0
  stageWeight := ![1, 0.1]
  terminalWeight := ![1, 0.1]
  torqueWeight := 1
  reward := 0.1
  length_ne_zero := one_ne_zero

/-- The constants of the pendulum `p` are those in `k`, given as whole numbers or as scalars. -/
structure Reads (p : Pendulum ℝ) (k : Constants) : Prop where
  gravity : p.gravity.scalar = .ok k.gravity
  length : p.length.scalar = .ok k.length
  damping : p.damping.scalar = .ok k.damping
  bound : p.bound.scalar = .ok k.bound
  target : p.target.scalar = .ok k.target
  stageWeight : p.stageWeight = .ofFn k.stageWeight
  terminalWeight : p.terminalWeight = .ofFn k.terminalWeight
  torqueWeight : p.torqueWeight.scalar = .ok k.torqueWeight
  reward : p.reward.scalar = .ok k.reward

namespace Constants

variable (k : Constants)

/-- Angle and speed as seen from the target. -/
def deviation (x : Fin 2 → ℝ) : Fin 2 → ℝ := ![x 0 - k.target, x 1]

/-- Half the sum of the squares of the deviation, each with its weight. -/
noncomputable def weighted (q x : Fin 2 → ℝ) : ℝ := 0.5 * ∑ i, q i * k.deviation x i ^ 2

/-- The rate of change of angle and speed. -/
noncomputable def motion (x u : Fin 2 → ℝ) : Fin 2 → ℝ :=
  ![x 1, -(k.gravity / k.length) * Real.sin (x 0) - k.damping * x 1 + u 0]

/-- What torque and dummy input cost. -/
noncomputable def effort (u : Fin 2 → ℝ) : ℝ := 0.5 * k.torqueWeight * u 0 ^ 2 - k.reward * u 1

/-- How far torque and dummy input are from the bound. -/
def excess (u : Fin 2 → ℝ) : ℝ := u 0 ^ 2 + u 1 ^ 2 - k.bound ^ 2

/-- The Hamiltonian of the pendulum at the torque `a 0`, the dummy input `a 1` and the
multiplier `a 2`. -/
noncomputable def hamiltonian (x : Fin 2 → ℝ) (a : Fin 3 → ℝ) (l : Fin 2 → ℝ) : ℝ :=
  k.weighted k.stageWeight x + 0.5 * k.torqueWeight * a 0 ^ 2 - k.reward * a 1 +
    l ⬝ᵥ k.motion x ![a 0, a 1] + a 2 * (a 0 ^ 2 + a 1 ^ 2 - k.bound ^ 2)

theorem half_eq : (0.5 : ℝ) = 2⁻¹ := by norm_num

theorem deviation_eq (x : Fin 2 → ℝ) : k.deviation x = x - ![k.target, 0] :=
  funext (Fin.forall_fin_two.2 ⟨rfl, (sub_zero (x 1)).symm⟩)

/-- The weights as a matrix. -/
theorem diagonal_mulVec (q z : Fin 2 → ℝ) : Matrix.diagonal q *ᵥ z = q * z :=
  funext fun i => Matrix.mulVec_diagonal q z i

theorem weighted_eq (q x : Fin 2 → ℝ) :
    k.weighted q x = halfSquare (Matrix.diagonal q) (x - ![k.target, 0]) := by
  have hsum : ∑ i, q i * (x - ![k.target, 0]) i ^ 2 =
      (x - ![k.target, 0]) ⬝ᵥ (q * (x - ![k.target, 0])) :=
    Finset.sum_congr rfl fun i _ => by rw [Pi.mul_apply, sq, mul_left_comm]
  rw [weighted, halfSquare, diagonal_mulVec, deviation_eq, hsum, half_eq, ← div_eq_inv_mul]

/-! ## The derivatives -/

section Derivatives

variable (x u : Fin 2 → ℝ)

/-- An entry of the state, and one of the control, as functions of both. -/
theorem hasFDerivAt_state (i : Fin 2) :
    HasFDerivAt (fun p : (Fin 2 → ℝ) × (Fin 2 → ℝ) => p.1 i)
      ((ContinuousLinearMap.proj i).comp (ContinuousLinearMap.fst ℝ _ _)) (x, u) :=
  hasFDerivAt_pi'.1 hasFDerivAt_fst i

theorem hasFDerivAt_input (i : Fin 2) :
    HasFDerivAt (fun p : (Fin 2 → ℝ) × (Fin 2 → ℝ) => p.2 i)
      ((ContinuousLinearMap.proj i).comp (ContinuousLinearMap.snd ℝ _ _)) (x, u) :=
  hasFDerivAt_pi'.1 hasFDerivAt_snd i

/-- The angle is changed by the speed, and the speed by angle, speed and torque. -/
theorem hasPartials_motion :
    HasPartials k.motion
      !![0, 1; -(k.gravity / k.length) * Real.cos (x 0), -k.damping].mulVecLin
      !![(0 : ℝ), 0; 1, 0].mulVecLin x u := by
  have hspeed := hasFDerivAt_state x u 1
  have hpull := (hasFDerivAt_state x u 0).sin.const_mul (-(k.gravity / k.length))
  have hrate := (hpull.sub (hspeed.const_mul k.damping)).add (hasFDerivAt_input x u 0)
  refine .of_rows (Fin.forall_fin_two.2 ⟨?_, ?_⟩)
  · refine .of_hasFDerivAt hspeed fun y v => ?_
    simp [Matrix.vec2_dotProduct]
  · refine .of_hasFDerivAt hrate fun y v => ?_
    simp [Matrix.vec2_dotProduct]
    ring

theorem hasPartials_excess :
    HasPartials (fun _ u => ![k.excess u]) (0 : Matrix (Fin 1) (Fin 2) ℝ).mulVecLin
      !![2.0 * u 0, 2.0 * u 1].mulVecLin x u := by
  have hsquares := ((hasFDerivAt_input x u 0).pow 2).add ((hasFDerivAt_input x u 1).pow 2)
  refine .of_rows (Fin.forall_fin_one.2 ?_)
  refine .of_hasFDerivAt (hsquares.sub_const (k.bound ^ 2)) fun y v => ?_
  have htwo : (2.0 : ℝ) = 2 := by norm_num
  simp [Matrix.vec2_dotProduct, htwo]

theorem isGradient_weighted (q : Fin 2 → ℝ) : IsGradient (k.weighted q) (q * k.deviation x) x := by
  have hshift : HasFDerivAt (fun x => x - ![k.target, 0])
      (ContinuousLinearMap.id ℝ (Fin 2 → ℝ)) x :=
    (hasFDerivAt_id x).sub_const ![k.target, 0]
  have hsquare := (hasFDerivAt_halfSquare (Matrix.isSymm_diagonal q) (x - ![k.target, 0])).comp x
    hshift
  have hfunction : k.weighted q = halfSquare (Matrix.diagonal q) ∘ fun x => x - ![k.target, 0] :=
    funext (k.weighted_eq q)
  rw [hfunction]
  refine .of_hasFDerivAt hsquare fun y => ?_
  rw [deviation_eq, ← diagonal_mulVec]
  rfl

theorem hasPartials_cost :
    HasPartials (fun x u => k.weighted k.stageWeight x + k.effort u)
      (dotProductBilin ℝ ℝ (k.stageWeight * k.deviation x))
      (dotProductBilin ℝ ℝ ![k.torqueWeight * u 0, -k.reward]) x u := by
  have hweighted : HasFDerivAt (k.weighted k.stageWeight) _ x :=
    k.isGradient_weighted x k.stageWeight
  have hstate := hweighted.comp (x, u) (hasFDerivAt_fst (𝕜 := ℝ) (p := (x, u)))
  have htorque := ((hasFDerivAt_input x u 0).pow 2).const_mul (0.5 * k.torqueWeight)
  have hreward := (hasFDerivAt_input x u 1).const_mul k.reward
  refine .of_hasFDerivAt (hstate.add (htorque.sub hreward)) fun y v => ?_
  have hinput : ![k.torqueWeight * u 0, -k.reward] ⬝ᵥ v =
      k.torqueWeight * u 0 * v 0 - k.reward * v 1 := by
    rw [Matrix.vec2_dotProduct]
    exact (congrArg _ (neg_mul _ _)).trans (sub_eq_add_neg _ _).symm
  rw [hinput]
  simp [half_eq]
  ring

end Derivatives

/-- The pendulum as a smooth stage. -/
noncomputable def smooth : SmoothStage 2 2 1 where
  dynamics x u _ := k.motion x u
  constraint _ u _ := ![k.excess u]
  cost x u _ := k.weighted k.stageWeight x + k.effort u
  terminalCost x _ := k.weighted k.terminalWeight x
  dynamicsByState x _ _ := !![0, 1; -(k.gravity / k.length) * Real.cos (x 0), -k.damping]
  dynamicsByControl _ _ _ := !![0, 0; 1, 0]
  constraintByState _ _ _ := 0
  constraintByControl _ u _ := !![2.0 * u 0, 2.0 * u 1]
  costByState x _ _ := k.stageWeight * k.deviation x
  costByControl _ u _ := ![k.torqueWeight * u 0, -k.reward]
  terminalGradient x _ := k.terminalWeight * k.deviation x
  dynamics_partials x u _ := k.hasPartials_motion x u
  constraint_partials x u _ := k.hasPartials_excess x u
  cost_partials x u _ := k.hasPartials_cost x u
  terminalCost_gradient x _ := k.isGradient_weighted x k.terminalWeight

/-- The Hamiltonian of the pendulum as a smooth stage, the parts of an action by their names. -/
theorem hamiltonian_smooth (x : Fin 2 → ℝ) (a : Fin 3 → ℝ) (l : Fin 2 → ℝ) (t : ℝ) :
    k.smooth.hamiltonian x a l t = k.hamiltonian x a l := by
  have hcontrol : control (m := 2) (c := 1) a = ![a 0, a 1] :=
    funext (Fin.forall_fin_two.2 ⟨rfl, rfl⟩)
  have hmultiplier : multipliers (m := 2) (c := 1) a = ![a 2] := funext (Fin.forall_fin_one.2 rfl)
  rw [SmoothStage.hamiltonian, SmoothStage.stageCost, hcontrol, hmultiplier]
  show k.weighted k.stageWeight x + k.effort ![a 0, a 1] + ![a 2] ⬝ᵥ ![k.excess ![a 0, a 1]] +
    l ⬝ᵥ k.motion x ![a 0, a 1] = _
  simp [effort, excess, hamiltonian]
  ring

end Constants

/-! ## What the functions answer -/

theorem item_zero (x : Fin 2 → ℝ) : (Tensor.ofFn x).item 0 = .ok (.single (x 0)) :=
  Tensor.item_ofFn x 0

theorem item_one (x : Fin 2 → ℝ) : (Tensor.ofFn x).item 1 = .ok (.single (x 1)) :=
  Tensor.item_ofFn x 1

namespace Reads

variable {p : Pendulum ℝ} {k : Constants} (h : p.Reads k) (x u : Fin 2 → ℝ)

include h

theorem stiffness : p.gravity.quotient p.length = .ok (k.gravity / k.length) :=
  Datum.quotient_of_scalar h.gravity h.length k.length_ne_zero

theorem motion : p.motion (.ofFn x) (.ofFn u) = .ok (.ofFn (k.motion x u)) := by
  have hparts : angleAndSpeed (.ofFn x) = .ok (.single (x 0), .single (x 1)) := rfl
  rw [Pendulum.motion, hparts, ok_bind]
  dsimp only
  rw [h.stiffness, ok_bind, Tensor.scaleItemBy_of_scalar _ h.damping, ok_bind]
  exact Tensor.ofItems_ofFn (k.motion x u)

theorem motionByState (t : ℝ) : (p.motionByState (.ofFn x) >>= Gathered.tensor) =
    .ok (.ofMatrix (k.smooth.dynamicsByState x u t)) := by
  obtain ⟨drag, hdrag, hvalue⟩ := Datum.negate_of_scalar h.damping
  rw [Pendulum.motionByState, h.stiffness, ok_bind, item_zero, ok_bind, hdrag]
  refine (Gathered.tensor_ofNumbers _).trans (congrArg Except.ok ?_)
  refine Tensor.ext_of_entries (by simp) ?_
  show [0, 1, -(k.gravity / k.length) * Real.cos (x 0), drag.toReal] = _
  rw [hvalue]
  rfl

theorem deviation : p.deviation (.ofFn x) = .ok (.ofFn (k.deviation x)) := by
  rw [Pendulum.deviation, item_zero, ok_bind, Tensor.minusDatum_of_scalar _ h.target, ok_bind,
    item_one]
  exact Tensor.ofItems_ofFn (k.deviation x)

theorem weighted (q : Fin 2 → ℝ) :
    (p.deviation (.ofFn x) >>= fun d => (Tensor.ofFn q).times d) =
      .ok (.ofFn (q * k.deviation x)) := by
  rw [h.deviation, ok_bind]
  exact Tensor.times_ofFn q (k.deviation x)

theorem costByControl : (p.costByControl (.ofFn u) >>= Gathered.tensor) =
    .ok (.ofFn ![k.torqueWeight * u 0, -k.reward]) := by
  obtain ⟨reward, hreward, hvalue⟩ := Datum.negate_of_scalar h.reward
  rw [Pendulum.costByControl, item_zero, ok_bind, Tensor.scaleItemBy_of_scalar _ h.torqueWeight,
    ok_bind, hreward]
  refine (Gathered.tensor_ofNumbers _).trans (congrArg Except.ok ?_)
  refine Tensor.ext_of_entries (by simp) ?_
  show [k.torqueWeight * u 0, reward.toReal] = _
  rw [hvalue]
  rfl

theorem constraint : p.constraint (.ofFn u) = .ok (.ofFn ![k.excess u]) := by
  obtain ⟨square, hsquare, hvalue⟩ := Datum.square_of_scalar h.bound
  have hscalar : (Datum.number square).scalar = .ok (k.bound * k.bound) := by
    rw [← hvalue]
    exact Datum.scalar_number_toReal square
  have hexcess : k.excess u = u 0 * u 0 + u 1 * u 1 - k.bound * k.bound := by
    rw [Constants.excess, sq, sq, sq]
  rw [Pendulum.constraint, item_zero, ok_bind, item_one, ok_bind, hexcess]
  show ((squares (.single (u 0))).plus (squares (.single (u 1))) >>= fun sum =>
    p.bound.square >>= fun square => sum.minusDatum (.number square) >>= fun rest =>
      Tensor.ofItems [rest]) = _
  have hsum : (squares (.single (u 0))).plus (squares (.single (u 1))) =
      .ok (.single (u 0 * u 0 + u 1 * u 1)) := rfl
  rw [hsum, ok_bind, hsquare, ok_bind, Tensor.minusDatum_of_scalar _ hscalar, ok_bind]
  exact Tensor.ofItems_ofFn ![u 0 * u 0 + u 1 * u 1 - k.bound * k.bound]

omit h in
theorem constraintByControl (x : Tensor ℝ) (t : Datum ℝ) :
    p.stage.constraintByControl x (.ofFn u) t = .ok (.ofMatrix !![2.0 * u 0, 2.0 * u 1]) := by
  have hrow : Tensor.ofItems [.single (2.0 * u 0), .single (2.0 * u 1)] =
      .ok (.ofFn ![2.0 * u 0, 2.0 * u 1]) := Tensor.ofItems_ofFn ![2.0 * u 0, 2.0 * u 1]
  show ((Tensor.ofFn u).item 0 >>= fun torque => (Tensor.ofFn u).item 1 >>= fun dummy =>
    Tensor.ofItems [torque.scale 2.0, dummy.scale 2.0] >>= fun row => Tensor.ofItems [row]) = _
  rw [item_zero, ok_bind, item_one, ok_bind]
  show (Tensor.ofItems [.single (2.0 * u 0), .single (2.0 * u 1)] >>= fun row =>
    Tensor.ofItems [row]) = _
  rw [hrow, ok_bind]
  exact Tensor.ofItems_singleton ![2.0 * u 0, 2.0 * u 1]

/-- The stage of the pendulum evaluates the smooth one. -/
theorem evaluates : p.stage.Evaluates k.smooth where
  stateDim := rfl
  controlDim := rfl
  constraintDim := rfl
  dynamics x u _ := h.motion x u
  dynamicsByState x u t := h.motionByState x u t
  dynamicsByControl _ _ _ := congrArg Except.ok (Tensor.ext_of_entries (by simp) rfl)
  constraint _ u _ := h.constraint u
  constraintByState _ _ _ :=
    Tensor.blank_matrix (m := 1) (n := 2) (Tensor.checkRoom_of_lt rfl (by decide))
  constraintByControl _ u _ := constraintByControl u _ _
  costByState x _ _ := by
    show (p.deviation (.ofFn x) >>= fun d => p.stageWeight.times d) = _
    rw [h.stageWeight]
    exact h.weighted x k.stageWeight
  costByControl _ u _ := h.costByControl u
  terminalGradient x _ := by
    show (p.deviation (.ofFn x) >>= fun d => p.terminalWeight.times d) = _
    rw [h.terminalWeight]
    exact h.weighted x k.terminalWeight

/-- The model of the pendulum answers with the gradients, whatever stands for the time. -/
theorem differentiates (x : Fin 2 → ℝ) (a : Fin 3 → ℝ) (l : Fin 2 → ℝ) (t : Datum ℝ) :
    p.stage.toModel.Differentiates (fun x a => k.hamiltonian x a l) x a l t := by
  obtain ⟨⟨v, hv, hstate⟩, w, hw, haction⟩ := h.evaluates.differentiates x a l 0
  simp only [Constants.hamiltonian_smooth] at hstate haction
  rw [p.ignoresTime.stateGradient _ _ _ _ t] at hv
  rw [p.ignoresTime.controlGradient _ _ _ _ t] at hw
  exact ⟨⟨v, hv, hstate⟩, w, hw, haction⟩

end Reads

end Pendulum

/-! ## The models of the library -/

/-- Pendulums and linear systems answer with the gradients of their Hamiltonians.  The dynamics in
these are those the models answer with. -/
theorem assembled_gradients :
    (∀ (p : Pendulum ℝ) (k : Pendulum.Constants), p.Reads k →
      ∀ (x : Fin 2 → ℝ) (u v ρ : ℝ) (l : Fin 2 → ℝ) (t : Datum ℝ),
        p.stage.toModel.dynamics (.ofFn x) (.ofFn ![u, v]) t = .ok (.ofFn (k.motion x ![u, v])) ∧
        p.stage.toModel.Differentiates (fun x a => k.hamiltonian x a l) x ![u, v, ρ] l t) ∧
    ∀ (n m : ℕ) (system : LinearQuadratic ℝ), system.A.shape = [n, n] → system.B.shape = [n, m] →
      system.Q.shape = [n, n] → system.R.shape = [m, m] → system.F.shape = [n, n] →
      system.reference.shape = [n] →
      ∃ g : Regulator n m, system = g.system ∧
        (g.Q.IsSymm → g.R.IsSymm → g.F.IsSymm →
          ∀ (x : Fin n → ℝ) (u : Fin m → ℝ) (l : Fin n → ℝ) (t : Datum ℝ),
            system.stage.toModel.dynamics (.ofFn x) (.ofFn u) t =
              .ok (.ofFn (g.A *ᵥ x + g.B *ᵥ u)) ∧
            system.stage.toModel.Differentiates (fun x u => g.hamiltonian x u l) x u l t ∧
            ∃ v, system.stage.toModel.terminalGradient (.ofFn x) t = .ok (.ofFn v) ∧
              IsGradient (fun x => halfSquare g.F (x - g.reference)) v x) := by
  refine ⟨fun p k h x u v ρ l t => ⟨h.motion x ![u, v], h.differentiates x ![u, v, ρ] l t⟩, ?_⟩
  intro n m system hA hB hQ hR hF hreference
  obtain ⟨g, rfl⟩ := Regulator.exists_eq_system hA hB hQ hR hF hreference
  refine ⟨g, rfl, fun hQ hR hF x u l t => ⟨g.dynamics_model x u t, ?_, ?_⟩⟩
  · exact Regulator.differentiates hQ hR hF x u l t
  · exact ⟨_, g.weighted_deviation g.F x, g.hasFDerivAt_terminalCost hF x⟩

/-- The standard pendulum and the integrator, at one point each. -/
theorem assembled_gradients_standard :
    (Pendulum.standard : Pendulum ℝ).Reads .standard ∧
    (Pendulum.standard : Pendulum ℝ).stage.toModel.Differentiates
      (fun x a => Pendulum.Constants.standard.hamiltonian x a ![1, 2]) ![0, 1] ![0.6, 0.8, 0.25]
        ![1, 2] 0 ∧
    ∃ g : Regulator 1 1, Regulator.integrator.system = g.system ∧
      g.model.Differentiates (fun x u => g.hamiltonian x u ![3]) ![1] ![2] ![3] 0 := by
  have hreads : (Pendulum.standard : Pendulum ℝ).Reads .standard :=
    ⟨rfl, rfl, rfl, rfl, rfl, rfl, rfl, rfl, rfl⟩
  have hsymm : ∀ W : Matrix (Fin 1) (Fin 1) ℝ, W.IsSymm := by
    intro W
    ext i j
    rw [Matrix.transpose_apply, Subsingleton.elim i j]
  obtain ⟨hpendulum, hregulator⟩ := assembled_gradients
  obtain ⟨g, hg, hgradients⟩ := hregulator 1 1 Regulator.integrator.system (Tensor.shape_ofMatrix _)
    (Tensor.shape_ofMatrix _) (Tensor.shape_ofMatrix _) (Tensor.shape_ofMatrix _)
    (Tensor.shape_ofMatrix _) (Tensor.shape_ofFn _)
  refine ⟨hreads, (hpendulum _ _ hreads ![0, 1] 0.6 0.8 0.25 ![1, 2] 0).2, g, hg, ?_⟩
  rw [hg] at hgradients
  exact (hgradients (hsymm _) (hsymm _) (hsymm _) ![1] ![2] ![3] 0).2.1

end RecedingHorizon

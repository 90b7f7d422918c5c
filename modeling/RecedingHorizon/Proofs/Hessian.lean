import RecedingHorizon.Proofs.Continuation
import RecedingHorizon.Proofs.Optimality

/-!
# The linear system of a regulator is the Hessian of its cost

For a regulator the stationarity is affine in the actions, and so the difference quotient of a
continuation step is exact.  It is the rate at which the stationarity changes along a direction; and
since neither the state nor the defects have a part in this rate, it is the same at every point: one
linear map for all horizons with steps of one length.

The stationarity is the first order of the cost, for each step and divided by the length of the
steps.  So the map is the second order of the cost, divided by this length: summed by parts along
the horizon, its pairing with a direction is a symmetric form in the states and the controls of the
two directions.  With weights that are semidefinite the form is no less than what it takes from the
controls alone.

* `Regulator.hessian`: the linear map.
* `Regulator.curvature`, `mul_hessian_dotProduct`: the form, and that it is that of the map.
* `cost_flat_add`: the cost to second order.
* `Horizon.step_pos`: a growing horizon has steps once it has started.
* `Regulator.image_hessian`: images at any point, and what they are like.
-/

namespace RecedingHorizon

open scoped Matrix

variable {n m N : ℕ}

/-! ## The map -/

namespace Regulator

/-- The rate at which the stationarity of condensed actions changes along a direction, on `N` steps
of length `δ`. -/
noncomputable def hessian (g : Regulator n m) (N : ℕ) (δ : ℝ) :
    (Fin (N * (m + 0)) → ℝ) →ₗ[ℝ] Fin (N * (m + 0)) → ℝ where
  toFun v := flatten N (g.centred.responses.condensed 0 δ 0 (unflatten N v) 0 0 N)
  map_add' u v := by
    rw [unflatten_add, g.linear.condensed_add]
    rfl
  map_smul' s v := by
    rw [unflatten_smul, g.linear.condensed_smul]
    rfl

theorem hessian_apply (g : Regulator n m) (δ : ℝ) (v : Fin (N * (m + 0)) → ℝ) :
    g.hessian N δ v =
      flatten N (g.centred.responses.condensed 0 δ 0 (unflatten N v) 0 0 N) := rfl

/-- The difference quotient of the stationarity, whatever the point and the defects. -/
theorem quotient_condensed (g : Regulator n m) {h : ℝ} (hh : h ≠ 0) (t δ : ℝ) (x : Fin n → ℝ)
    (a : ℕ → Fin (m + 0) → ℝ) (E M : ℕ → Fin n → ℝ) (v : Fin (N * (m + 0)) → ℝ) :
    flatten N (h⁻¹ • (g.responses.condensed t δ x (a + h • unflatten N v) E M N -
      g.responses.condensed t δ x a E M N)) = g.hessian N δ v := by
  rw [g.varies.condensed_actions, add_sub_cancel_left, inv_smul_smul₀ hh, condensed_time t 0,
    hessian_apply]

/-! ## The form -/

/-- The mixed second order of the cost in two directions. -/
noncomputable def curvature (g : Regulator n m) (N : ℕ) (δ : ℝ) (v w : ℕ → Fin m → ℝ) : ℝ :=
  g.F *ᵥ g.centred.euler δ 0 v N ⬝ᵥ g.centred.euler δ 0 w N +
    δ * ∑ i ∈ Finset.range N, (g.Q *ᵥ g.centred.euler δ 0 v i ⬝ᵥ g.centred.euler δ 0 w i +
      g.R *ᵥ v i ⬝ᵥ w i)

variable {g : Regulator n m} {δ : ℝ}

/-- Summed by parts, the pairing with the Hessian is the mixed second order of the cost, but for the
length of a step. -/
theorem mul_hessian_dotProduct (g : Regulator n m) (δ : ℝ) (v w : Fin (N * (m + 0)) → ℝ) :
    δ * (g.hessian N δ v ⬝ᵥ w) = g.curvature N δ (unflatten N v) (unflatten N w) := by
  obtain ⟨a, ha⟩ : ∃ a : ℕ → Fin (m + 0) → ℝ, a = unflatten N v := ⟨_, rfl⟩
  obtain ⟨b, hb⟩ : ∃ b : ℕ → Fin (m + 0) → ℝ, b = unflatten N w := ⟨_, rfl⟩
  have hpaired : g.hessian N δ v ⬝ᵥ w = ∑ i ∈ Finset.range N,
      g.centred.responses.condensed 0 δ 0 a 0 0 N i ⬝ᵥ b i := by
    rw [hessian_apply, ← ha, ← flatten_dotProduct, hb, flatten_unflatten]
  set Z := g.centred.euler δ 0 a
  set Y := g.centred.euler δ 0 b
  set L := g.centred.responses.costates 0 δ Z a 0 N
  have hstationarity : ∀ i, g.centred.responses.condensed 0 δ 0 a 0 0 N i ⬝ᵥ b i =
      g.R *ᵥ a i ⬝ᵥ b i + L (i + 1) ⬝ᵥ g.B *ᵥ b i :=
    fun i => g.centred.condensed_dotProduct δ 0 0 a i (b i)
  have hpairing : L N ⬝ᵥ Y N + δ * ∑ i ∈ Finset.range N, g.Q *ᵥ (Z i - 0) ⬝ᵥ Y i =
      δ * ∑ i ∈ Finset.range N, L (i + 1) ⬝ᵥ g.B *ᵥ b i :=
    pairing_eq (g.centred.carried_euler δ b) (g.centred.pulledBack_costates δ 0 Z a) le_rfl
  have hlast : L N = g.F *ᵥ (Z N - 0) :=
    (g.centred.responses.costates_last 0 δ Z a 0 N).trans (add_zero _)
  rw [hlast] at hpairing
  simp only [sub_zero] at hpairing
  have hcurvature : g.curvature N δ a b = g.F *ᵥ Z N ⬝ᵥ Y N +
      δ * ∑ i ∈ Finset.range N, (g.Q *ᵥ Z i ⬝ᵥ Y i + g.R *ᵥ a i ⬝ᵥ b i) := rfl
  rw [← ha, ← hb, hcurvature, hpaired]
  simp only [hstationarity, Finset.sum_add_distrib]
  linarith

/-- A symmetric weight pairs in either order. -/
theorem mulVec_dotProduct_comm {W : Matrix (Fin n) (Fin n) ℝ} (hW : W.IsSymm) (z y : Fin n → ℝ) :
    W *ᵥ z ⬝ᵥ y = W *ᵥ y ⬝ᵥ z := by
  rw [← hW.eq, transpose_mulVec_dotProduct, hW.eq, dotProduct_comm]

theorem curvature_comm (hQ : g.Q.IsSymm) (hR : g.R.IsSymm) (hF : g.F.IsSymm)
    (v w : ℕ → Fin m → ℝ) : g.curvature N δ v w = g.curvature N δ w v := by
  rw [curvature, curvature, mulVec_dotProduct_comm hF]
  refine congrArg (fun s => _ + δ * s) (Finset.sum_congr rfl fun i _ => ?_)
  rw [mulVec_dotProduct_comm hQ, mulVec_dotProduct_comm hR]

/-- In one direction the mixed second order of the cost is twice its second order. -/
theorem curvature_self (v : ℕ → Fin m → ℝ) :
    g.curvature N δ v v = 2 * g.centred.cost δ 0 N v := by
  have hdouble {k : ℕ} (W : Matrix (Fin k) (Fin k) ℝ) (z : Fin k → ℝ) :
      W *ᵥ z ⬝ᵥ z = 2 * halfSquare W z := by
    rw [halfSquare, dotProduct_comm, mul_div_cancel₀ _ two_ne_zero]
  have hreference : g.centred.reference = 0 := rfl
  simp only [curvature, cost, hdouble, hreference, sub_zero, ← mul_add, ← Finset.mul_sum]
  have hweights : g.centred.Q = g.Q ∧ g.centred.R = g.R ∧ g.centred.F = g.F := ⟨rfl, rfl, rfl⟩
  rw [hweights.1, hweights.2.1, hweights.2.2]
  ring

/-- With semidefinite weights the second order of the cost is no less than what the controls put
into it. -/
theorem le_curvature_self (hQ : g.Q.PosSemidef) (hF : g.F.PosSemidef) (hδ : 0 ≤ δ)
    (v : ℕ → Fin m → ℝ) :
    δ * ∑ i ∈ Finset.range N, v i ⬝ᵥ g.R *ᵥ v i ≤ g.curvature N δ v v := by
  have hnonneg {W : Matrix (Fin n) (Fin n) ℝ} (hW : W.PosSemidef) (z : Fin n → ℝ) :
      0 ≤ W *ᵥ z ⬝ᵥ z := by
    have h := hW.dotProduct_mulVec_nonneg z
    rwa [star_trivial, dotProduct_comm] at h
  refine le_add_of_nonneg_of_le (hnonneg hF _) (mul_le_mul_of_nonneg_left ?_ hδ)
  refine Finset.sum_le_sum fun i _ => ?_
  rw [dotProduct_comm]
  exact le_add_of_nonneg_left (hnonneg hQ _)

/-! ## The map by the form -/

section Map

variable (hδ : 0 < δ)
include hδ

theorem hessian_comm (hQ : g.Q.IsSymm) (hR : g.R.IsSymm) (hF : g.F.IsSymm)
    (v w : Fin (N * (m + 0)) → ℝ) : w ⬝ᵥ g.hessian N δ v = v ⬝ᵥ g.hessian N δ w := by
  refine mul_left_cancel₀ hδ.ne' ?_
  rw [dotProduct_comm, mul_hessian_dotProduct, curvature_comm hQ hR hF, ← mul_hessian_dotProduct,
    dotProduct_comm]

theorem le_hessian (hQ : g.Q.PosSemidef) (hF : g.F.PosSemidef) (v : Fin (N * (m + 0)) → ℝ) :
    ∑ i ∈ Finset.range N, unflatten N v i ⬝ᵥ g.R *ᵥ unflatten N v i ≤ v ⬝ᵥ g.hessian N δ v := by
  refine le_of_mul_le_mul_left ?_ hδ
  rw [dotProduct_comm v, mul_hessian_dotProduct]
  exact le_curvature_self hQ hF hδ.le _

/-- With semidefinite weights of the states and a definite weight of the controls the Hessian is
definite. -/
theorem hessian_pos (hQ : g.Q.PosSemidef) (hF : g.F.PosSemidef) (hR : g.R.PosDef)
    {v : Fin (N * (m + 0)) → ℝ} (hv : v ≠ 0) : 0 < v ⬝ᵥ g.hessian N δ v := by
  refine lt_of_lt_of_le ?_ (le_hessian hδ hQ hF v)
  have hnonneg : ∀ i ∈ Finset.range N, 0 ≤ unflatten N v i ⬝ᵥ g.R *ᵥ unflatten N v i := by
    intro i _
    have h := hR.posSemidef.dotProduct_mulVec_nonneg (unflatten N v i)
    rwa [star_trivial] at h
  obtain ⟨i, hi, hne⟩ : ∃ i < N, unflatten N v i ≠ 0 := by
    by_contra hzero
    push Not at hzero
    refine hv ?_
    rw [← flatten_unflatten v, ← dotProduct_self_eq_zero, flatten_dotProduct]
    exact sum_dotProduct_self_eq_zero.2 hzero
  have hpos := hR.dotProduct_mulVec_pos hne
  rw [star_trivial] at hpos
  exact Finset.sum_pos' hnonneg ⟨i, Finset.mem_range.2 hi, hpos⟩

end Map

/-- The cost to second order: the first order is the stationarity, and the second order is that of
the Hessian, both times the length of a step. -/
theorem cost_flat_add (hQ : g.Q.IsSymm) (hR : g.R.IsSymm) (hF : g.F.IsSymm) (t : ℝ)
    (x : Fin n → ℝ) (a : ℕ → Fin (m + 0) → ℝ) (v : Fin (N * (m + 0)) → ℝ) :
    g.cost δ x N (a + unflatten N v) = g.cost δ x N a +
      δ * (flatten N (g.responses.condensed t δ x a 0 0 N) ⬝ᵥ v) +
      δ * (v ⬝ᵥ g.hessian N δ v) / 2 := by
  have hfirst : flatten N (g.responses.condensed t δ x a 0 0 N) ⬝ᵥ v =
      ∑ i ∈ Finset.range N, g.responses.condensed t δ x a 0 0 N i ⬝ᵥ unflatten N v i := by
    rw [← flatten_dotProduct, flatten_unflatten]
  rw [dotProduct_comm v, mul_hessian_dotProduct, curvature_self, mul_div_cancel_left₀ _ two_ne_zero,
    hfirst]
  exact cost_add hQ hR hF t a (unflatten N v)

end Regulator

/-! ## Steps of a growing horizon -/

namespace Horizon

/-- Past its start a horizon has a length. -/
theorem reach_pos {T a s : ℝ} (hT : 0 < T) (ha : 0 ≤ a) (hs : 0 < s) : 0 < reach T a s := by
  rw [reach]
  split
  · exact hT
  · next h0 =>
      have hrate : 0 < a * s := mul_pos (lt_of_le_of_ne ha (Ne.symm h0)) hs
      have hexp : Real.exp (-a * s) < 1 := by
        rw [Real.exp_lt_one_iff, neg_mul]
        exact neg_neg_of_pos hrate
      exact mul_pos hT (sub_pos.2 hexp)

/-- Past its start a horizon that is cut has steps. -/
theorem exists_step_pos {horizon : Horizon ℝ} {T a t₀ t : ℝ}
    (hT : horizon.finalLength.scalar = .ok T) (ha : horizon.growthRate.scalar = .ok a)
    (hstart : horizon.start.scalar = .ok t₀) (hdivisions : horizon.divisions = .number (.whole N))
    (hT0 : 0 < T) (ha0 : 0 ≤ a) (hN : 0 < N) (ht : t₀ < t) :
    ∃ δ, 0 < δ ∧ horizon.step t = .ok δ := by
  refine ⟨_, ?_, step_of_scalar hT ha hstart hdivisions ht.le⟩
  rw [if_neg hN.ne']
  exact div_pos (reach_pos hT0 ha0 (sub_pos.2 ht)) (Nat.cast_pos.2 hN)

end Horizon

/-! ## Images -/

/-- **Images are those of the Hessian.**  For a regulator with symmetric weights, on a growing
horizon, the point may be set at any time from the start on, at any state, actions and trajectory
and whatever was remembered before, and the residual of any guess may be asked for; then the image
of every direction is that under one and the same linear map, which depends on the point only
through the length of the steps one difference step ahead.  The map is symmetric and the second
order of the cost, divided by this length; and with semidefinite weights of the states it is no less
than the weight of the controls, and so definite with it. -/
theorem Regulator.image_hessian (g : Regulator n m) (hQ : g.Q.IsSymm) (hR : g.R.IsSymm)
    (hF : g.F.IsSymm) {system : Continuation ℝ} (hmodel : system.problem.model = g.model)
    {h ζ : ℝ} (hs : system.Scaled N (m + 0) h ζ) (hroom : Room N n) (hN : 0 < N) {T a t₀ t : ℝ}
    (hT : system.problem.horizon.finalLength.scalar = .ok T)
    (ha : system.problem.horizon.growthRate.scalar = .ok a)
    (hstart : system.problem.horizon.start.scalar = .ok t₀) (hT0 : 0 < T) (ha0 : 0 ≤ a)
    (ht : t₀ ≤ t) :
    ∃ δ : ℝ, 0 < δ ∧ system.problem.horizon.step (t + h) = .ok δ ∧
      (∀ (x : Fin n → ℝ) (U : ℕ → Fin (m + 0) → ℝ) (X L : ℕ → Fin n → ℝ)
          (guess : Fin (N * (m + 0)) → ℝ) (before : Continuation.Memory ℝ),
        ∃ prepared residual found,
          (system.prepare t (.ofFn x) (.ofNodes N U)
            ⟨.ofNodes (N + 1) X, .ofNodes (N + 1) L⟩).runOn before = (.ok (), prepared) ∧
          (system.residual t (.ofFn x) (.ofFn (flatten N U)) (.ofFn guess)).runOn prepared =
            (.ok residual, found) ∧
          ∀ v, (system.image (.ofFn (flatten N U)) (.ofFn v)).runOn found =
            (.ok (.ofFn (g.hessian N δ v)), found)) ∧
      (∀ v w, w ⬝ᵥ g.hessian N δ v = v ⬝ᵥ g.hessian N δ w) ∧
      (∀ (x : Fin n → ℝ) (U : ℕ → Fin (m + 0) → ℝ) (v : Fin (N * (m + 0)) → ℝ),
        g.cost δ x N (U + unflatten N v) = g.cost δ x N U +
          δ * (flatten N (g.responses.condensed (t + h) δ x U 0 0 N) ⬝ᵥ v) +
          δ * (v ⬝ᵥ g.hessian N δ v) / 2) ∧
      (g.Q.PosSemidef → g.F.PosSemidef →
        (∀ v, ∑ i ∈ Finset.range N, unflatten N v i ⬝ᵥ g.R *ᵥ unflatten N v i ≤
          v ⬝ᵥ g.hessian N δ v) ∧
        (g.R.PosDef → ∀ v ≠ 0, 0 < v ⬝ᵥ g.hessian N δ v)) := by
  have hreplies : system.Replies g.responses N h ζ :=
    { hs with
      model := by
        rw [hmodel]
        exact g.answers
      room := hroom }
  have hnow := Horizon.step_of_scalar hT ha hstart hs.divisions ht
  obtain ⟨δ, hδ, hnext⟩ := Horizon.exists_step_pos hT ha hstart hs.divisions hT0 ha0 hN
    (lt_add_of_le_of_pos ht hs.step_pos)
  refine ⟨δ, hδ, hnext, fun x U X L guess before => ?_, hessian_comm hδ hQ hR hF,
    cost_flat_add hQ hR hF (t + h),
    fun hQ hF => ⟨le_hessian hδ hQ hF, fun hR v hv => hessian_pos hδ hQ hF hR hv⟩⟩
  have hprepared := Continuation.prepare_of (t := t) (x := x) (a := U) (X := X) (L := L) hreplies
    before
  have hresidual := Continuation.residual_of (x := x) (a := U) (X := X) (L := L)
    (y := Continuation.predicted g.responses N h t x U) hreplies hnow hnext before.defects
    before.stationarity rfl rfl guess
  refine ⟨_, _, _, hprepared, hresidual, fun v => ?_⟩
  rw [Continuation.image_of_flat hreplies hnext v, g.quotient_condensed hs.step_pos.ne']

/-- The integrator on a horizon of one step. -/
theorem integrator_image_hessian :
    ∃ δ : ℝ, 0 < δ ∧ unitHorizon.step (0 + 1 : ℝ) = .ok δ ∧
      (∀ (x : Fin 1 → ℝ) (U : ℕ → Fin 1 → ℝ) (X L : ℕ → Fin 1 → ℝ) (guess : Fin (1 * 1) → ℝ)
          (before : Continuation.Memory ℝ), ∃ prepared residual found,
        ((⟨⟨Regulator.integrator.model, unitHorizon⟩, 1, 1⟩ : Continuation ℝ).prepare (0 : ℝ)
          (.ofFn x) (.ofNodes 1 U) ⟨.ofNodes 2 X, .ofNodes 2 L⟩).runOn before =
            (.ok (), prepared) ∧
        ((⟨⟨Regulator.integrator.model, unitHorizon⟩, 1, 1⟩ : Continuation ℝ).residual (0 : ℝ)
          (.ofFn x) (.ofFn (flatten 1 U)) (.ofFn guess)).runOn prepared = (.ok residual, found) ∧
        ∀ v, ((⟨⟨Regulator.integrator.model, unitHorizon⟩, 1, 1⟩ : Continuation ℝ).image
          (.ofFn (flatten 1 U)) (.ofFn v)).runOn found =
            (.ok (.ofFn (Regulator.integrator.hessian 1 δ v)), found)) ∧
      ∀ v ≠ 0, 0 < v ⬝ᵥ Regulator.integrator.hessian 1 δ v := by
  have hone : Matrix.IsSymm (1 : Matrix (Fin 1) (Fin 1) ℝ) := Matrix.transpose_one
  have hscaled : (⟨⟨Regulator.integrator.model, unitHorizon⟩, 1, 1⟩ : Continuation ℝ).Scaled 1
      (1 + 0) 1 1 :=
    { divisions := rfl
      actionDim := Regulator.integrator.answers.actionDim
      differenceStep := congrArg Except.ok Int.cast_one
      decayRate := congrArg Except.ok Int.cast_one
      extents := rfl
      step_pos := one_pos }
  have hroom : Room 1 1 := .of_le_two one_le_two
  obtain ⟨δ, hδ, hstep, himages, -, -, hdefinite⟩ := Regulator.image_hessian Regulator.integrator
    hone hone hone rfl hscaled hroom one_pos rfl rfl rfl one_pos le_rfl (le_refl (0 : ℝ))
  exact ⟨δ, hδ, hstep, himages,
    (hdefinite Matrix.PosSemidef.one Matrix.PosSemidef.one).2 Matrix.PosDef.one⟩

end RecedingHorizon

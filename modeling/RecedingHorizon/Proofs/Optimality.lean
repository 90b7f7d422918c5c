import RecedingHorizon.Proofs.Condensing
import RecedingHorizon.Proofs.Numbers
import RecedingHorizon.Proofs.Regulator
import RecedingHorizon.Proofs.Shooting

/-!
# A residual of zero certifies the optimum

What a sequence of controls costs a regulator, discretised by Euler steps, is a
quadratic function of the controls.  Its first order is the stationarity of the
condensed trajectory, and with weights that are semidefinite, and definite for the
control, its second order is positive.  So the stationarity vanishes at one sequence
at most, the one that costs least.

The norm of the residual is zero if the stationarity is and the trajectory has no
defects.  Then the trajectory is the condensed one, but for node zero, where there
are no defects to be had.

* `Regulator.euler`, `Regulator.cost`: states and cost of a sequence of controls.
* `cost_add`: the cost to second order.
* `CostsLeast`, `costsLeast_iff`: the sequence that costs least.
* `Residual.norm_eq_zero_iff`: a residual of norm zero.
* `Regulator.residual_norm_eq_zero_iff`: the certificate.
-/

namespace RecedingHorizon

open scoped Matrix

variable {n m c N : ℕ}

/-! ## Quadratic forms -/

theorem halfSquare_smul (W : Matrix (Fin n) (Fin n) ℝ) (s : ℝ) (z : Fin n → ℝ) :
    halfSquare W (s • z) = s ^ 2 * halfSquare W z := by
  simp only [halfSquare, Matrix.mulVec_smul, dotProduct_smul, smul_dotProduct, smul_eq_mul]
  ring

theorem halfSquare_nonneg {W : Matrix (Fin n) (Fin n) ℝ} (hW : W.PosSemidef) (z : Fin n → ℝ) :
    0 ≤ halfSquare W z := by
  have h := hW.dotProduct_mulVec_nonneg z
  rw [star_trivial] at h
  exact div_nonneg h zero_le_two

theorem eq_zero_of_halfSquare_eq_zero {W : Matrix (Fin n) (Fin n) ℝ} (hW : W.PosDef)
    {z : Fin n → ℝ} (h : halfSquare W z = 0) : z = 0 := by
  by_contra hz
  have hpos := hW.dotProduct_mulVec_pos hz
  rw [star_trivial] at hpos
  rw [halfSquare] at h
  linarith

/-! ## The cost -/

namespace Regulator

variable (g : Regulator n m) (δ : ℝ) (x : Fin n → ℝ)

/-- The Euler states from `x` on, under the controls `w`. -/
def euler (w : ℕ → Fin m → ℝ) : ℕ → Fin n → ℝ
  | 0 => x
  | i + 1 => euler w i + δ • (g.A *ᵥ euler w i + g.B *ᵥ w i)

/-- What the controls `w` cost over `N` steps. -/
noncomputable def cost (N : ℕ) (w : ℕ → Fin m → ℝ) : ℝ :=
  halfSquare g.F (g.euler δ x w N - g.reference) +
    δ * ∑ i ∈ Finset.range N,
      (halfSquare g.Q (g.euler δ x w i - g.reference) + halfSquare g.R (w i))

/-- The Euler states under controls are the states that are shot under them. -/
theorem states_eq_euler (t : ℝ) (w : ℕ → Fin m → ℝ) :
    g.responses.states t δ x w 0 = g.euler δ x w := by
  funext i
  induction i with
  | zero => rfl
  | succ i ih =>
      rw [Responses.states_succ, ih, Pi.zero_apply, add_zero]
      rfl

/-- The Euler states of controls that are moved along a direction. -/
theorem euler_add_smul (s : ℝ) (w v : ℕ → Fin m → ℝ) :
    g.euler δ x (w + s • v) = g.euler δ x w + s • g.centred.euler δ 0 v := by
  have h := g.varies.states_add_smul 0 δ s x 0 w v
  rw [smul_zero, add_zero] at h
  simpa only [states_eq_euler] using h

theorem carried_euler (v : ℕ → Fin m → ℝ) :
    Carried N δ (fun _ => g.A) (fun i => g.B *ᵥ v i) (g.centred.euler δ 0 v) where
  start := rfl
  step _ _ := rfl

theorem pulledBack_costates (t : ℝ) (X : ℕ → Fin n → ℝ) (w : ℕ → Fin m → ℝ) :
    PulledBack N δ (fun _ => g.A) (fun i => g.Q *ᵥ (X i - g.reference))
      (g.responses.costates t δ X w 0 N) := by
  intro i hi
  rw [g.responses.costates_of_lt t δ X w 0 hi, Responses.pulled, Pi.zero_apply, ite_self, add_zero]
  rfl

/-- The stationarity in a direction. -/
theorem condensed_dotProduct (t : ℝ) (w : ℕ → Fin m → ℝ) (i : ℕ) (u : Fin m → ℝ) :
    g.responses.condensed t δ x w 0 0 N i ⬝ᵥ u = g.R *ᵥ w i ⬝ᵥ u +
      g.responses.costates t δ (g.euler δ x w) w 0 N (i + 1) ⬝ᵥ g.B *ᵥ u := by
  have hgradient : g.responses.condensed t δ x w 0 0 N i = g.R *ᵥ w i +
      g.Bᵀ *ᵥ g.responses.costates t δ (g.euler δ x w) w 0 N (i + 1) := by
    rw [Responses.condensed, states_eq_euler]
    rfl
  rw [hgradient, add_dotProduct, transpose_mulVec_dotProduct]

variable {g δ x}

/-- The cost to second order: the first order is the stationarity. -/
theorem cost_add (hQ : g.Q.IsSymm) (hR : g.R.IsSymm) (hF : g.F.IsSymm) (t : ℝ)
    (w v : ℕ → Fin m → ℝ) :
    g.cost δ x N (w + v) = g.cost δ x N w +
      δ * ∑ i ∈ Finset.range N, g.responses.condensed t δ x w 0 0 N i ⬝ᵥ v i +
      g.centred.cost δ 0 N v := by
  have heuler : g.euler δ x (w + v) = g.euler δ x w + g.centred.euler δ 0 v := by
    simpa only [one_smul] using g.euler_add_smul δ x 1 w v
  set X := g.euler δ x w
  set Z := g.centred.euler δ 0 v
  set L := g.responses.costates t δ X w 0 N
  have hterminal : halfSquare g.F (g.euler δ x (w + v) N - g.reference) =
      halfSquare g.F (X N - g.reference) + L N ⬝ᵥ Z N + halfSquare g.F (Z N) := by
    have hlast : L N = g.F *ᵥ (X N - g.reference) :=
      (g.responses.costates_last t δ X w 0 N).trans (add_zero _)
    rw [heuler, hlast, Pi.add_apply, add_sub_right_comm, halfSquare_add hF]
  have hstage : ∀ i, halfSquare g.Q (g.euler δ x (w + v) i - g.reference) +
      halfSquare g.R ((w + v) i) =
        halfSquare g.Q (X i - g.reference) + halfSquare g.R (w i) +
          (g.Q *ᵥ (X i - g.reference) ⬝ᵥ Z i + g.R *ᵥ w i ⬝ᵥ v i) +
          (halfSquare g.Q (Z i) + halfSquare g.R (v i)) := by
    intro i
    rw [heuler, Pi.add_apply, Pi.add_apply, add_sub_right_comm, halfSquare_add hQ,
      halfSquare_add hR]
    ring
  have hpairing : L N ⬝ᵥ Z N + δ * ∑ i ∈ Finset.range N, g.Q *ᵥ (X i - g.reference) ⬝ᵥ Z i =
      δ * ∑ i ∈ Finset.range N, L (i + 1) ⬝ᵥ g.B *ᵥ v i :=
    pairing_eq (g.carried_euler δ v) (g.pulledBack_costates δ t X w) le_rfl
  have hstationarity : ∀ i, g.responses.condensed t δ x w 0 0 N i ⬝ᵥ v i =
      g.R *ᵥ w i ⬝ᵥ v i + L (i + 1) ⬝ᵥ g.B *ᵥ v i :=
    fun i => g.condensed_dotProduct δ x t w i (v i)
  have hcentred : g.centred.cost δ 0 N v = halfSquare g.F (Z N) +
      δ * ∑ i ∈ Finset.range N, (halfSquare g.Q (Z i) + halfSquare g.R (v i)) := by
    simp only [cost, centred, sub_zero]
    rfl
  have hcost : g.cost δ x N w = halfSquare g.F (X N - g.reference) +
      δ * ∑ i ∈ Finset.range N, (halfSquare g.Q (X i - g.reference) + halfSquare g.R (w i)) := rfl
  rw [hcost, hcentred, cost, hterminal]
  simp only [hstage, hstationarity, Finset.sum_add_distrib]
  linarith

/-! ## The second order -/

theorem centred_euler_smul (s : ℝ) (v : ℕ → Fin m → ℝ) :
    g.centred.euler δ 0 (s • v) = s • g.centred.euler δ 0 v := by
  funext i
  induction i with
  | zero => exact (smul_zero s).symm
  | succ i ih =>
      rw [Pi.smul_apply] at ih ⊢
      simp only [euler, ih, Pi.smul_apply, Matrix.mulVec_smul, smul_add, smul_comm δ s]

theorem centred_cost_smul (s : ℝ) (v : ℕ → Fin m → ℝ) :
    g.centred.cost δ 0 N (s • v) = s ^ 2 * g.centred.cost δ 0 N v := by
  have hreference : g.centred.reference = 0 := rfl
  simp only [cost, hreference, sub_zero, centred_euler_smul, Pi.smul_apply, halfSquare_smul,
    ← mul_add, ← Finset.mul_sum]
  ring

section Definite

variable (hQ : g.Q.PosSemidef) (hF : g.F.PosSemidef) (hR : g.R.PosDef) (hδ : 0 < δ)
include hQ hF hR hδ

theorem centred_cost_nonneg (v : ℕ → Fin m → ℝ) : 0 ≤ g.centred.cost δ 0 N v := by
  refine add_nonneg (halfSquare_nonneg hF _) (mul_nonneg hδ.le (Finset.sum_nonneg fun i _ => ?_))
  exact add_nonneg (halfSquare_nonneg hQ _) (halfSquare_nonneg hR.posSemidef _)

/-- Only no change of the controls has no second order. -/
theorem eq_zero_of_centred_cost_eq_zero {v : ℕ → Fin m → ℝ} (h : g.centred.cost δ 0 N v = 0) :
    ∀ i < N, v i = 0 := by
  intro i hi
  have hterm : ∀ j ∈ Finset.range N, 0 ≤ halfSquare g.centred.Q
      (g.centred.euler δ 0 v j - g.centred.reference) + halfSquare g.centred.R (v j) :=
    fun j _ => add_nonneg (halfSquare_nonneg hQ _) (halfSquare_nonneg hR.posSemidef _)
  have hterminal := halfSquare_nonneg hF (g.centred.euler δ 0 v N - g.centred.reference)
  have hsum := mul_nonneg hδ.le (Finset.sum_nonneg hterm)
  have hzero : δ * ∑ j ∈ Finset.range N, (halfSquare g.centred.Q
      (g.centred.euler δ 0 v j - g.centred.reference) + halfSquare g.centred.R (v j)) = 0 := by
    change halfSquare g.F _ + _ = 0 at h
    linarith
  have hall := (Finset.sum_eq_zero_iff_of_nonneg hterm).1
    ((mul_eq_zero.1 hzero).resolve_left hδ.ne')
  have hstate := halfSquare_nonneg hQ (g.centred.euler δ 0 v i - g.centred.reference)
  have hcontrol := halfSquare_nonneg hR.posSemidef (v i)
  have hi0 : halfSquare g.Q _ + halfSquare g.R (v i) = 0 := hall i (Finset.mem_range.2 hi)
  refine eq_zero_of_halfSquare_eq_zero hR ?_
  linarith

end Definite

/-! ## The optimum -/

/-- The controls `w` cost less than any others over `N` steps. -/
def CostsLeast (g : Regulator n m) (δ : ℝ) (x : Fin n → ℝ) (N : ℕ) (w : ℕ → Fin m → ℝ) : Prop :=
  ∀ v, g.cost δ x N w ≤ g.cost δ x N v ∧ (g.cost δ x N v = g.cost δ x N w → ∀ i < N, v i = w i)

/-- If no controls cost less, then the stationarity vanishes. -/
theorem condensed_eq_zero_of_le (hQ : g.Q.IsSymm) (hR : g.R.IsSymm) (hF : g.F.IsSymm) (hδ : 0 < δ)
    {w : ℕ → Fin m → ℝ} (hw : ∀ v, g.cost δ x N w ≤ g.cost δ x N v) (t : ℝ) {i : ℕ} (hi : i < N) :
    g.responses.condensed t δ x w 0 0 N i = 0 := by
  set F := g.responses.condensed t δ x w 0 0 N
  set D := ∑ j ∈ Finset.range N, F j ⬝ᵥ F j with hD
  set q := g.centred.cost δ 0 N F
  have hline : ∀ s : ℝ, 0 ≤ δ * (s * D) + s ^ 2 * q := by
    intro s
    have hcost := cost_add (N := N) (δ := δ) (x := x) hQ hR hF t w (s • F)
    have hfirst : ∑ j ∈ Finset.range N, F j ⬝ᵥ (s • F) j = s * D := by
      simp only [hD, Pi.smul_apply, dotProduct_smul, smul_eq_mul, Finset.mul_sum]
    rw [centred_cost_smul] at hcost
    change _ = _ + δ * ∑ j ∈ Finset.range N, F j ⬝ᵥ (s • F) j + _ at hcost
    rw [hfirst] at hcost
    have := hw (w + s • F)
    linarith
  -- a parabola through zero that is nowhere negative has no slope there
  have hparabola : ∀ s : ℝ, 0 ≤ q * (s * s) + δ * D * s + 0 := by
    intro s
    have := hline s
    linarith
  have hslope : (δ * D) ^ 2 ≤ 0 := by
    have := discrim_le_zero hparabola
    rwa [discrim, mul_zero, sub_zero] at this
  have hzero : D = 0 := by
    rcases mul_eq_zero.1 (pow_eq_zero_iff two_ne_zero |>.1 (le_antisymm hslope (sq_nonneg _))) with
      h | h
    · exact absurd h hδ.ne'
    · exact h
  exact sum_dotProduct_self_eq_zero.1 hzero i hi

/-- The controls that cost least are those at which the stationarity vanishes. -/
theorem costsLeast_iff (hQ : g.Q.PosSemidef) (hF : g.F.PosSemidef) (hR : g.R.PosDef) (hδ : 0 < δ)
    (t : ℝ) {w : ℕ → Fin m → ℝ} :
    g.CostsLeast δ x N w ↔ ∀ i < N, g.responses.condensed t δ x w 0 0 N i = 0 := by
  have hQs : g.Q.IsSymm := hQ.isHermitian
  have hFs : g.F.IsSymm := hF.isHermitian
  have hRs : g.R.IsSymm := hR.isHermitian
  constructor
  · intro hw i hi
    exact condensed_eq_zero_of_le hQs hRs hFs hδ (fun v => (hw v).1) t hi
  · intro hzero v
    have hcost := cost_add (N := N) (δ := δ) (x := x) hQs hRs hFs t w (v - w)
    have hfirst : ∑ j ∈ Finset.range N,
        g.responses.condensed t δ x w 0 0 N j ⬝ᵥ (v - w) j = 0 := by
      refine Finset.sum_eq_zero fun j hj => ?_
      rw [hzero j (Finset.mem_range.1 hj)]
      exact zero_dotProduct _
    rw [add_sub_cancel, hfirst, mul_zero, add_zero] at hcost
    have hsecond := centred_cost_nonneg (N := N) hQ hF hR hδ (v - w)
    refine ⟨by linarith, fun heq i hi => ?_⟩
    have hdiff := eq_zero_of_centred_cost_eq_zero hQ hF hR hδ (v := v - w) (by linarith) i hi
    exact sub_eq_zero.1 hdiff

/-! ## The certificate -/

/-- The defects vanish if the trajectory is the condensed one past node zero. -/
theorem defects_eq_zero_iff (hN : 0 < N) (t : ℝ) (w : ℕ → Fin m → ℝ) (X L : ℕ → Fin n → ℝ) :
    ((∀ i < N + 1, g.responses.stateDefects t δ x w X i = 0) ∧
        ∀ i < N + 1, g.responses.costateDefects t δ w X L N i = 0) ↔
      ∀ i ≤ N, 0 < i → X i = g.responses.states t δ x w 0 i ∧
        L i = g.responses.costates t δ (g.responses.states t δ x w 0) w 0 N i := by
  set Y := g.responses.states t δ x w 0 with hY
  constructor
  · rintro ⟨hstates, hcostates⟩
    have hX : ∀ i ≤ N, 0 < i → X i = Y i := by
      intro i hi h0
      have hseen := g.responses.seen_eq_states t δ (E := 0) (N := N)
        (fun j hj => hstates (j + 1) (Nat.succ_lt_succ hj)) hi
      rwa [seen, if_neg h0.ne'] at hseen
    have hzero : ∀ i ≤ N, 0 < i →
        g.responses.costateDefects t δ w Y L N i = (0 : ℕ → Fin n → ℝ) i := by
      intro i hi _
      rw [← g.responses.costateDefects_congr t δ hX (fun _ _ _ => rfl) hN hi]
      exact hcostates i (Nat.lt_succ_of_le hi)
    exact fun i hi h0 => ⟨hX i hi h0, g.responses.eq_costates t δ hzero hi h0⟩
  · intro h
    have hX : ∀ i ≤ N, 0 < i → X i = Y i := fun i hi h0 => (h i hi h0).1
    constructor
    · intro i hi
      rw [g.responses.stateDefects_congr t δ hX (Nat.le_of_lt_succ hi),
        g.responses.stateDefects_states t δ rfl]
      rfl
    · intro i hi
      rw [g.responses.costateDefects_congr t δ hX (fun i hi h0 => (h i hi h0).2) hN
        (Nat.le_of_lt_succ hi), g.responses.costateDefects_costates t δ (fun _ => rfl)
        (Nat.le_of_lt_succ hi)]
      rfl

/-- The norm of the residual is zero if the controls cost least and the trajectory is
the condensed one past node zero. -/
theorem residual_norm_eq_zero_iff (g : Regulator n m) (hQ : g.Q.PosSemidef)
    (hF : g.F.PosSemidef) (hR : g.R.PosDef) {horizon : Horizon ℝ} {t δ : ℝ}
    (hstep : horizon.step t = .ok δ) (hδ : 0 < δ) (hN : 0 < N) (hroom : Room N n)
    (x : Fin n → ℝ) (w : ℕ → Fin m → ℝ) (X L : ℕ → Fin n → ℝ) :
    ∃ (residual : Residual ℝ) (X' L' : ℕ → Fin n → ℝ),
      (Problem.mk g.model horizon).residual t (.ofFn x) (.ofNodes N w)
        ⟨.ofNodes (N + 1) X, .ofNodes (N + 1) L⟩ = .ok residual ∧
      g.model.condense t (.ofFn x) (.ofNodes N w) δ none =
        .ok ⟨.ofNodes (N + 1) X', .ofNodes (N + 1) L'⟩ ∧
      (residual.norm = 0 ↔
        (∀ i ≤ N, 0 < i → X i = X' i ∧ L i = L' i) ∧ g.CostsLeast δ x N w) := by
  have hanswers : (Problem.mk g.model horizon).model.Answers g.responses := g.answers
  have hresidual := Problem.residual_eq hanswers hroom hstep x w X L
  have hcondense := Model.condense_eq (a := w) (δ := δ) (t := t) g.answers hroom (D := none)
    (E := 0) (M := 0) rfl rfl x
  refine ⟨_, _, _, hresidual, hcondense, ?_⟩
  rw [Residual.norm_eq_zero_iff, defects_eq_zero_iff hN, costsLeast_iff hQ hF hR hδ t, and_comm]
  refine and_congr_right fun htrajectory => forall₂_congr fun i hi => ?_
  have hX : seen x X i = seen x (g.responses.states t δ x w 0) i :=
    Responses.seen_congr (fun j hj h0 => (htrajectory j hj h0).1) hi.le
  have hL := (htrajectory (i + 1) hi (Nat.succ_pos i)).2
  rw [g.responses.stationarity_congr t δ hX hL]
  rfl

end Regulator

/-- A horizon of one step of length one, at any time from zero on. -/
def unitHorizon : Horizon ℝ where
  finalLength := .number (.real 1)
  growthRate := .number (.real 0)
  divisions := .number (.whole 1)
  start := .number (.real 0)

theorem unitHorizon_step : unitHorizon.step (0 : ℝ) = .ok 1 := by
  have h : unitHorizon.step (0 : ℝ) =
      .ok (if 1 = 0 then 0 else Horizon.reach 1 0 (0 - 0) / (1 : ℕ)) :=
    Horizon.step_of_scalar rfl rfl rfl rfl le_rfl
  simpa [Horizon.reach] using h

/-- The certificate on a horizon of one step, from the state eight to the reference state seven.  To
steer by minus one half costs least, which leads half of the way. -/
theorem steered_residual_norm_eq_zero_iff :
    ∃ (residual : Residual ℝ) (X' L' : ℕ → Fin 1 → ℝ),
      (Problem.mk Regulator.steered.model unitHorizon).residual (0 : ℝ) (.ofFn ![8])
        (.ofNodes 1 fun _ => ![-1 / 2])
        ⟨.ofNodes 2 fun _ => ![15 / 2], .ofNodes 2 fun _ => ![1 / 2]⟩ = .ok residual ∧
      Regulator.steered.model.condense (0 : ℝ) (.ofFn ![8])
        (.ofNodes 1 fun _ => ![-1 / 2]) (1 : ℝ) none = .ok ⟨.ofNodes 2 X', .ofNodes 2 L'⟩ ∧
      (residual.norm = 0 ↔
        (∀ i ≤ 1, 0 < i → ![15 / 2] = X' i ∧ ![1 / 2] = L' i) ∧
          Regulator.steered.CostsLeast 1 ![8] 1 fun _ => ![-1 / 2]) ∧
      residual.norm = 0 := by
  have hroom : Room 1 1 := .of_le_two one_le_two
  obtain ⟨residual, X', L', hresidual, hcondense, hiff⟩ :=
    Regulator.residual_norm_eq_zero_iff Regulator.steered Matrix.PosSemidef.one
      Matrix.PosSemidef.one Matrix.PosDef.one unitHorizon_step one_pos one_pos hroom ![8]
      (fun _ => ![-1 / 2]) (fun _ => ![15 / 2]) fun _ => ![1 / 2]
  refine ⟨residual, X', L', hresidual, hcondense, hiff, ?_⟩
  have hanswers : (Problem.mk Regulator.steered.model unitHorizon).model.Answers
      Regulator.steered.responses := Regulator.steered.answers
  have hexplicit := Problem.residual_eq hanswers hroom unitHorizon_step ![8]
    (fun _ => ![-1 / 2]) (fun _ => ![15 / 2]) fun _ => ![1 / 2]
  obtain rfl := Except.ok.inj (hexplicit.symm.trans hresidual)
  refine Residual.norm_eq_zero_iff.2 ⟨fun i hi => ?_, fun i hi => ?_, fun i hi => ?_⟩
  · obtain rfl := Nat.lt_one_iff.1 hi
    ext j
    fin_cases j
    norm_num [Responses.stationarity, Regulator.responses, Regulator.steered, Regulator.integrator,
      control]
  · interval_cases i
    · rfl
    · ext j
      fin_cases j
      norm_num [Responses.stateDefects, Regulator.responses, Regulator.steered,
        Regulator.integrator, control]
  · interval_cases i
    · rfl
    · ext j
      fin_cases j
      norm_num [Responses.costateDefects, Regulator.responses, Regulator.steered,
        Regulator.integrator]

end RecedingHorizon

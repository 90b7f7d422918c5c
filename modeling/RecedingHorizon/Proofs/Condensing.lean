import RecedingHorizon.Proofs.Matrices
import RecedingHorizon.Proofs.Responses

/-!
# Defects, trajectories and their variations

A trajectory with prescribed defects has them, and it is the only one that does.
What a trajectory holds at node zero takes no part in this: the state there is the
current one, and there is no equation for the costate.

A variation of the states is carried forward by the Jacobians of the dynamics, and
the costates are carried backward by their transposes.  So the pairing of the two
changes from node to node by what enters on either side, and nothing else.  Summed
up, what the variation is worth at the nodes is what the costates say of that which
caused it.

* `stateDefects_states`, `costateDefects_costates`: the prescribed defects come
  back.
* `seen_eq_states`, `eq_costates`: the trajectory comes back.
* `stateDefects_congr`, `costateDefects_congr`, `stationarity_congr`: what defects and
  stationarity look at.
* `Carried`, `PulledBack`: the recursions of variations and costates.
* `pairing_succ`, `pairing_eq`: their pairing over a step and at a node.
-/

namespace RecedingHorizon

namespace Responses

variable {n m c N : ℕ} (r : Responses n m c) (t δ : ℝ)
variable {x : Fin n → ℝ} {a : ℕ → Fin (m + c) → ℝ} {X X' L L' E M : ℕ → Fin n → ℝ}

/-! ## States -/

/-- Shot from the current state, the states are seen as they are. -/
@[simp] theorem seen_states : seen x (r.states t δ x a E) = r.states t δ x a E :=
  seen_self (r.states t δ x a E)

/-- The states that are shot with prescribed defects have these defects. -/
theorem stateDefects_states (h0 : E 0 = 0) : r.stateDefects t δ x a (r.states t δ x a E) = E := by
  funext i
  cases i with
  | zero => exact h0.symm
  | succ i =>
      rw [stateDefects, seen_states, states_succ]
      abel

/-- States are those with the defects they have. -/
theorem seen_eq_states (h : ∀ i < N, r.stateDefects t δ x a X (i + 1) = E (i + 1)) {i : ℕ}
    (hi : i ≤ N) : seen x X i = r.states t δ x a E i := by
  induction i with
  | zero => rfl
  | succ i ih =>
      have hdefect := h i hi
      rw [stateDefects, ih (Nat.le_of_succ_le hi), sub_sub, sub_eq_iff_eq_add'] at hdefect
      rw [seen_succ, hdefect, states_succ]

/-- States are seen alike if they agree past node zero. -/
theorem seen_congr (hX : ∀ i ≤ N, 0 < i → X i = X' i) {i : ℕ} (hi : i ≤ N) :
    seen x X i = seen x X' i := by
  cases i with
  | zero => rfl
  | succ i => rw [seen_succ, seen_succ, hX (i + 1) hi (Nat.succ_pos i)]

theorem stateDefects_congr (hX : ∀ i ≤ N, 0 < i → X i = X' i) {i : ℕ} (hi : i ≤ N) :
    r.stateDefects t δ x a X i = r.stateDefects t δ x a X' i := by
  cases i with
  | zero => rfl
  | succ i =>
      rw [stateDefects, stateDefects, hX (i + 1) hi (Nat.succ_pos i),
        seen_congr hX (Nat.le_of_succ_le hi)]

/-! ## Costates -/

/-- The costates that are shot with prescribed defects have these defects. -/
theorem costateDefects_costates (h0 : 0 < N → M 0 = 0) {i : ℕ} (hi : i ≤ N) :
    r.costateDefects t δ a X (r.costates t δ X a M N) N i = M i := by
  rw [costateDefects]
  by_cases hN : i = N
  · rw [if_pos hN, costates_last, add_sub_cancel_left, hN]
  · have hlt : i < N := lt_of_le_of_ne hi hN
    rw [if_neg hN]
    by_cases hz : i = 0
    · rw [if_pos hz, hz, h0 (by omega)]
    · rw [if_neg hz, costates_of_lt r t δ X a M hlt, pulled, if_neg hz]
      abel

/-- Costates are those with the defects they have, but for the one at node zero. -/
theorem eq_costates (h : ∀ i ≤ N, 0 < i → r.costateDefects t δ a X L N i = M i) {i : ℕ}
    (hi : i ≤ N) (h0 : 0 < i) : L i = r.costates t δ X a M N i := by
  induction hi using Nat.decreasingInduction with
  | self =>
      have hdefect := h N le_rfl h0
      rw [costateDefects, if_pos rfl, sub_eq_iff_eq_add'] at hdefect
      rw [costates_last, hdefect]
  | of_succ i hi ih =>
      have hdefect := h i hi.le h0
      rw [costateDefects, if_neg hi.ne, if_neg h0.ne', ih (Nat.succ_pos i), sub_sub,
        sub_eq_iff_eq_add'] at hdefect
      rw [hdefect, costates_of_lt r t δ X a M hi, pulled, if_neg h0.ne']

/-- The costates look at the defects of the nodes of the horizon only. -/
theorem costates_congr {M' : ℕ → Fin n → ℝ} (h : ∀ i ≤ N, M i = M' i) :
    r.costates t δ X a M N = r.costates t δ X a M' N := by
  have hback : ∀ j, r.costateBack t δ X a M N j = r.costateBack t δ X a M' N j := by
    intro j
    induction j with
    | zero => rw [costateBack, costateBack, h N le_rfl]
    | succ j ih => rw [costateBack, costateBack, pulled, pulled, ih, h (N - 1 - j) (by omega)]
  funext i
  exact hback (N - i)

/-- The defects look at the trajectory past node zero only. -/
theorem costateDefects_congr (hX : ∀ i ≤ N, 0 < i → X i = X' i)
    (hL : ∀ i ≤ N, 0 < i → L i = L' i) (hN : 0 < N) {i : ℕ} (hi : i ≤ N) :
    r.costateDefects t δ a X L N i = r.costateDefects t δ a X' L' N i := by
  rw [costateDefects, costateDefects, hX N le_rfl hN, hL N le_rfl hN]
  by_cases hlast : i = N
  · rw [if_pos hlast, if_pos hlast]
  · rw [if_neg hlast, if_neg hlast]
    by_cases hz : i = 0
    · rw [if_pos hz, if_pos hz]
    · have h0 := Nat.pos_of_ne_zero hz
      rw [hX i hi h0, hL i hi h0, hL (i + 1) (Nat.lt_of_le_of_ne hi hlast) (Nat.succ_pos i)]

/-! ## Stationarity -/

/-- The stationarity looks at the states that are seen and at the costates past node
zero. -/
theorem stationarity_congr {i : ℕ} (hX : seen x X i = seen x X' i) (hL : L (i + 1) = L' (i + 1)) :
    r.stationarity t δ x a X L i = r.stationarity t δ x a X' L' i := by
  rw [stationarity, stationarity, hX, hL]

/-- The stationarity of actions with the trajectory that has the prescribed defects. -/
def condensed (x : Fin n → ℝ) (a : ℕ → Fin (m + c) → ℝ) (E M : ℕ → Fin n → ℝ) (N : ℕ) :
    ℕ → Fin (m + c) → ℝ :=
  r.stationarity t δ x a (r.states t δ x a E) (r.costates t δ (r.states t δ x a E) a M N)

end Responses

/-! ## Summation by parts along a horizon -/

open scoped Matrix

variable {n N : ℕ} {δ : ℝ} {A : ℕ → Matrix (Fin n) (Fin n) ℝ} {b g Z L : ℕ → Fin n → ℝ}

/-- A variation that is carried forward from zero, while `b` enters at each step. -/
structure Carried (N : ℕ) (δ : ℝ) (A : ℕ → Matrix (Fin n) (Fin n) ℝ) (b Z : ℕ → Fin n → ℝ) :
    Prop where
  start : Z 0 = 0
  step : ∀ i < N, Z (i + 1) = Z i + δ • (A i *ᵥ Z i + b i)

/-- Costates that are pulled back, while `g` enters at each step. -/
def PulledBack (N : ℕ) (δ : ℝ) (A : ℕ → Matrix (Fin n) (Fin n) ℝ) (g L : ℕ → Fin n → ℝ) : Prop :=
  ∀ i < N, L i = L (i + 1) + δ • (g i + (A i)ᵀ *ᵥ L (i + 1))

/-- The pairing of costate and variation changes over a step by what enters. -/
theorem pairing_succ (hZ : Carried N δ A b Z) (hL : PulledBack N δ A g L) {i : ℕ} (hi : i < N) :
    L (i + 1) ⬝ᵥ Z (i + 1) = L i ⬝ᵥ Z i - δ * (g i ⬝ᵥ Z i) + δ * (L (i + 1) ⬝ᵥ b i) := by
  rw [hZ.step i hi, hL i hi]
  simp only [dotProduct_add, add_dotProduct, dotProduct_smul, smul_dotProduct, smul_eq_mul,
    transpose_mulVec_dotProduct]
  ring

/-- The pairing at a node, by what has entered up to there. -/
theorem pairing_eq (hZ : Carried N δ A b Z) (hL : PulledBack N δ A g L) {k : ℕ} (hk : k ≤ N) :
    L k ⬝ᵥ Z k + δ * ∑ i ∈ Finset.range k, g i ⬝ᵥ Z i =
      δ * ∑ i ∈ Finset.range k, L (i + 1) ⬝ᵥ b i := by
  induction k with
  | zero => simp [hZ.start]
  | succ k ih =>
      have hprev := ih (Nat.le_of_succ_le hk)
      rw [Finset.sum_range_succ, Finset.sum_range_succ, pairing_succ hZ hL hk]
      linarith

end RecedingHorizon

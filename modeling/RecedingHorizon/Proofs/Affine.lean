import RecedingHorizon.Proofs.Condensing

/-!
# Affine responses

Responses are affine if they change along a line at a constant rate.  The rates are
again the values of responses, which are linear.  Then states, costates and
stationarity, shot from the current state under the actions and with prescribed
defects, are affine in all of these together, and their rates are what the linear
responses shoot.

* `Responses.Varies`: the responses change along lines at the rate of others.
* `states_defects_add_smul`, `costates_defects_add_smul`, `stationarity_add_smul`,
  `condensed_defects_add_smul`: so does what is shot; `states_add_smul` and the like
  where there are no defects, `condensed_actions` where these and the state are kept.
* `Varies.condensed_add`, `Varies.condensed_smul`: responses that vary like themselves
  are linear.
-/

namespace RecedingHorizon

variable {n m c N : ℕ}

/-- Seen along a line, states change like the states they are seen from. -/
theorem seen_add_smul (s : ℝ) (x y : Fin n → ℝ) (X Y : ℕ → Fin n → ℝ) (i : ℕ) :
    seen (x + s • y) (X + s • Y) i = seen x X i + s • seen y Y i := by
  cases i <;> simp

namespace Responses

/-- Along a line the responses `r` change at the rate of the responses `r₀`. -/
structure Varies (r r₀ : Responses n m c) : Prop where
  dynamics (s : ℝ) (x y : Fin n → ℝ) (u v : Fin m → ℝ) (t : ℝ) :
    r.dynamics (x + s • y) (u + s • v) t = r.dynamics x u t + s • r₀.dynamics y v t
  terminalGradient (s : ℝ) (x y : Fin n → ℝ) (t : ℝ) :
    r.terminalGradient (x + s • y) t = r.terminalGradient x t + s • r₀.terminalGradient y t
  stateGradient (s : ℝ) (x y : Fin n → ℝ) (a b : Fin (m + c) → ℝ) (l k : Fin n → ℝ) (t : ℝ) :
    r.stateGradient (x + s • y) (a + s • b) (l + s • k) t =
      r.stateGradient x a l t + s • r₀.stateGradient y b k t
  controlGradient (s : ℝ) (x y : Fin n → ℝ) (a b : Fin (m + c) → ℝ) (l k : Fin n → ℝ) (t : ℝ) :
    r.controlGradient (x + s • y) (a + s • b) (l + s • k) t =
      r.controlGradient x a l t + s • r₀.controlGradient y b k t

namespace Varies

variable {r r₀ : Responses n m c} (h : r.Varies r₀) (t δ s : ℝ)
include h

/-- States change along a line, and so do their defects. -/
theorem states_defects_add_smul (x y : Fin n → ℝ) (a b : ℕ → Fin (m + c) → ℝ)
    (E E' : ℕ → Fin n → ℝ) :
    r.states t δ (x + s • y) (a + s • b) (E + s • E') =
      r.states t δ x a E + s • r₀.states t δ y b E' := by
  funext i
  induction i with
  | zero => rfl
  | succ i ih =>
      have hcontrol : control ((a + s • b) i) = control (a i) + s • control (b i) := rfl
      have hdefects : (E + s • E') (i + 1) = E (i + 1) + s • E' (i + 1) := rfl
      rw [Pi.add_apply, Pi.smul_apply] at ih ⊢
      rw [states_succ, states_succ, states_succ, ih, hcontrol, h.dynamics, hdefects, smul_add,
        smul_add, smul_add, smul_comm δ s]
      abel

theorem states_add_smul (x y : Fin n → ℝ) (a b : ℕ → Fin (m + c) → ℝ) :
    r.states t δ (x + s • y) (a + s • b) 0 = r.states t δ x a 0 + s • r₀.states t δ y b 0 := by
  have hline := h.states_defects_add_smul t δ s x y a b 0 0
  rwa [smul_zero, add_zero] at hline

/-- Costates change along a line, and so do their defects. -/
theorem costates_defects_add_smul (X Y : ℕ → Fin n → ℝ) (a b : ℕ → Fin (m + c) → ℝ)
    (M M' : ℕ → Fin n → ℝ) :
    r.costates t δ (X + s • Y) (a + s • b) (M + s • M') N =
      r.costates t δ X a M N + s • r₀.costates t δ Y b M' N := by
  have hback : ∀ j, r.costateBack t δ (X + s • Y) (a + s • b) (M + s • M') N j =
      r.costateBack t δ X a M N j + s • r₀.costateBack t δ Y b M' N j := by
    intro j
    induction j with
    | zero =>
        have hdefects : (M + s • M') N = M N + s • M' N := rfl
        have hlast : r.terminalGradient ((X + s • Y) N) (t + N * δ) = _ :=
          h.terminalGradient s (X N) (Y N) (t + N * δ)
        rw [costateBack, costateBack, costateBack, hlast, hdefects, smul_add]
        exact add_add_add_comm _ _ _ _
    | succ j ih =>
        have hdefects : (if N - 1 - j = 0 then 0 else (M + s • M') (N - 1 - j)) =
            (if N - 1 - j = 0 then 0 else M (N - 1 - j)) +
              s • if N - 1 - j = 0 then 0 else M' (N - 1 - j) := by
          by_cases h0 : N - 1 - j = 0
          · rw [if_pos h0, if_pos h0, if_pos h0, smul_zero, add_zero]
          · rw [if_neg h0, if_neg h0, if_neg h0]
            rfl
        have hgradient := h.stateGradient s (X (N - 1 - j)) (Y (N - 1 - j)) (a (N - 1 - j))
          (b (N - 1 - j)) (r.costateBack t δ X a M N j) (r₀.costateBack t δ Y b M' N j)
          (t + (N - 1 - j : ℕ) * δ)
        rw [costateBack, costateBack, costateBack, pulled, pulled, pulled, ih, hdefects,
          Pi.add_apply, Pi.add_apply, Pi.smul_apply, Pi.smul_apply, hgradient, smul_add, smul_add,
          smul_add, smul_comm δ s]
        abel
  funext i
  exact hback (N - i)

theorem costates_add_smul (X Y : ℕ → Fin n → ℝ) (a b : ℕ → Fin (m + c) → ℝ) :
    r.costates t δ (X + s • Y) (a + s • b) 0 N =
      r.costates t δ X a 0 N + s • r₀.costates t δ Y b 0 N := by
  have hline := h.costates_defects_add_smul (N := N) t δ s X Y a b 0 0
  rwa [smul_zero, add_zero] at hline

theorem stationarity_add_smul (x y : Fin n → ℝ) (a b : ℕ → Fin (m + c) → ℝ)
    (X Y L K : ℕ → Fin n → ℝ) :
    r.stationarity t δ (x + s • y) (a + s • b) (X + s • Y) (L + s • K) =
      r.stationarity t δ x a X L + s • r₀.stationarity t δ y b Y K := by
  funext i
  rw [Pi.add_apply, Pi.smul_apply, stationarity, stationarity, stationarity, seen_add_smul]
  exact h.controlGradient s _ _ _ _ _ _ _

/-- The stationarity of condensed actions is affine in the current state, the actions and the
defects. -/
theorem condensed_defects_add_smul (x y : Fin n → ℝ) (a b : ℕ → Fin (m + c) → ℝ)
    (E E' M M' : ℕ → Fin n → ℝ) :
    r.condensed t δ (x + s • y) (a + s • b) (E + s • E') (M + s • M') N =
      r.condensed t δ x a E M N + s • r₀.condensed t δ y b E' M' N := by
  rw [condensed, condensed, condensed, h.states_defects_add_smul, h.costates_defects_add_smul,
    h.stationarity_add_smul]

theorem condensed_add_smul (x y : Fin n → ℝ) (a b : ℕ → Fin (m + c) → ℝ) :
    r.condensed t δ (x + s • y) (a + s • b) 0 0 N =
      r.condensed t δ x a 0 0 N + s • r₀.condensed t δ y b 0 0 N := by
  have hline := h.condensed_defects_add_smul (N := N) t δ s x y a b 0 0 0 0
  rwa [smul_zero, add_zero] at hline

/-- Along a direction of the actions the stationarity of condensed actions changes at a rate that
neither the state nor the defects have a part in. -/
theorem condensed_actions (x : Fin n → ℝ) (a b : ℕ → Fin (m + c) → ℝ) (E M : ℕ → Fin n → ℝ) :
    r.condensed t δ x (a + s • b) E M N =
      r.condensed t δ x a E M N + s • r₀.condensed t δ 0 b 0 0 N := by
  have hline := h.condensed_defects_add_smul (N := N) t δ s x 0 a b E 0 M 0
  rwa [smul_zero, smul_zero, add_zero, add_zero, add_zero] at hline

end Varies

/-! ## Linear responses -/

section Linear

variable {r : Responses n m c} (h : r.Varies r) (t δ : ℝ)
include h

/-- Linear responses shoot nothing from nothing. -/
theorem Varies.condensed_zero : r.condensed t δ 0 0 0 0 N = 0 := by
  have h := h.condensed_add_smul (N := N) t δ 1 0 0 0 0
  rw [smul_zero, smul_zero, add_zero, add_zero, one_smul] at h
  exact left_eq_add.1 h

theorem Varies.condensed_add (x : Fin n → ℝ) (u v : ℕ → Fin (m + c) → ℝ) :
    r.condensed t δ x (u + v) 0 0 N = r.condensed t δ x u 0 0 N + r.condensed t δ 0 v 0 0 N := by
  have h := h.condensed_add_smul (N := N) t δ 1 x 0 u v
  rwa [smul_zero, add_zero, one_smul, one_smul] at h

/-- The stationarity of condensed actions without defects is the part of the state and the part of
the actions together. -/
theorem Varies.condensed_split (x : Fin n → ℝ) (v : ℕ → Fin (m + c) → ℝ) :
    r.condensed t δ x v 0 0 N = r.condensed t δ x 0 0 0 N + r.condensed t δ 0 v 0 0 N := by
  rw [← h.condensed_add, zero_add]

theorem Varies.condensed_smul (s : ℝ) (v : ℕ → Fin (m + c) → ℝ) :
    r.condensed t δ 0 (s • v) 0 0 N = s • r.condensed t δ 0 v 0 0 N := by
  have hline := h.condensed_add_smul (N := N) t δ s 0 0 0 v
  rwa [smul_zero, add_zero, zero_add, h.condensed_zero, zero_add] at hline

end Linear

end Responses

end RecedingHorizon

import Mathlib
import RecedingHorizon.Model.Basic
import RecedingHorizon.Proofs.Nodes
import RecedingHorizon.Proofs.Real

/-!
# Models as functions on vectors

A model whose functions answer vectors of its dimensions for vectors of its
dimensions is as good as four functions on vectors, its responses.  What the
shooting equations, their defects and the stationarity come to is written down
here for responses, node by node: these are the functions of mathematics which the
library computes with arrays.

* `Responses`, `Model.Answers`: the four functions, and that a model has them.
* `Responses.states`, `Responses.costates`: the trajectory that has prescribed
  defects, forward and backward.
* `Responses.stateDefects`, `Responses.costateDefects`: the defects of a
  trajectory.
* `Responses.stationarity`: the control gradient at every step.
-/

namespace RecedingHorizon

variable {n m c : ℕ}

/-- What a model answers on vectors: `n` states, `m` controls, `c` multipliers. -/
structure Responses (n m c : ℕ) where
  dynamics (x : Fin n → ℝ) (u : Fin m → ℝ) (t : ℝ) : Fin n → ℝ
  terminalGradient (x : Fin n → ℝ) (t : ℝ) : Fin n → ℝ
  stateGradient (x : Fin n → ℝ) (action : Fin (m + c) → ℝ) (costate : Fin n → ℝ) (t : ℝ) :
    Fin n → ℝ
  controlGradient (x : Fin n → ℝ) (action : Fin (m + c) → ℝ) (costate : Fin n → ℝ) (t : ℝ) :
    Fin (m + c) → ℝ

/-- The model has the dimensions of the responses, and on vectors of these
dimensions it answers with them. -/
structure Model.Answers (model : Model ℝ) (r : Responses n m c) : Prop where
  stateDim : model.stateDim = n
  controlDim : model.controlDim = m
  constraintDim : model.constraintDim = c
  dynamics (x : Fin n → ℝ) (u : Fin m → ℝ) (t : ℝ) :
    model.dynamics (.ofFn x) (.ofFn u) t = .ok (.ofFn (r.dynamics x u t))
  terminalGradient (x : Fin n → ℝ) (t : ℝ) :
    model.terminalGradient (.ofFn x) t = .ok (.ofFn (r.terminalGradient x t))
  stateGradient (x : Fin n → ℝ) (a : Fin (m + c) → ℝ) (l : Fin n → ℝ) (t : ℝ) :
    model.stateGradient (.ofFn x) (.ofFn a) (.ofFn l) t = .ok (.ofFn (r.stateGradient x a l t))
  controlGradient (x : Fin n → ℝ) (a : Fin (m + c) → ℝ) (l : Fin n → ℝ) (t : ℝ) :
    model.controlGradient (.ofFn x) (.ofFn a) (.ofFn l) t = .ok (.ofFn (r.controlGradient x a l t))

/-- The control part of an action. -/
def control (a : Fin (m + c) → ℝ) : Fin m → ℝ := fun i => a (Fin.castAdd c i)

@[simp] theorem control_add (a b : Fin (m + c) → ℝ) : control (a + b) = control a + control b :=
  rfl

@[simp] theorem control_smul (s : ℝ) (a : Fin (m + c) → ℝ) : control (s • a) = s • control a :=
  rfl

/-- The control part of an action depends on nothing of the model but the number of controls. -/
theorem Model.control_ofFn {model : Model ℝ} (hdim : model.controlDim = m) (a : Fin (m + c) → ℝ) :
    model.control (.ofFn a) = .ok (.ofFn (RecedingHorizon.control a)) := by
  rw [Model.control, hdim]
  exact Tensor.front_ofFn a

namespace Model.Answers

variable {model : Model ℝ} {r : Responses n m c}

theorem actionDim (hm : model.Answers r) : model.actionDim = (m + c : ℕ) := by
  rw [Model.actionDim, hm.controlDim, hm.constraintDim, Nat.cast_add]

theorem control (hm : model.Answers r) (a : Fin (m + c) → ℝ) :
    model.control (.ofFn a) = .ok (.ofFn (RecedingHorizon.control a)) :=
  Model.control_ofFn hm.controlDim a

end Model.Answers

/-- The state seen at a node: the current one at node zero. -/
def seen (x : Fin n → ℝ) (X : ℕ → Fin n → ℝ) (i : ℕ) : Fin n → ℝ := if i = 0 then x else X i

@[simp] theorem seen_zero (x : Fin n → ℝ) (X : ℕ → Fin n → ℝ) : seen x X 0 = x := if_pos rfl

@[simp] theorem seen_succ (x : Fin n → ℝ) (X : ℕ → Fin n → ℝ) (i : ℕ) :
    seen x X (i + 1) = X (i + 1) := if_neg (Nat.succ_ne_zero i)

/-- Seen from its own first state, a sequence of states is what it is. -/
theorem seen_self (X : ℕ → Fin n → ℝ) : seen (X 0) X = X := by
  funext i
  cases i <;> simp

namespace Responses

variable (r : Responses n m c) (t δ : ℝ)

/-! ## Trajectories -/

/-- The states from `x` on, under the actions `a` and with the defects `E`. -/
def states (x : Fin n → ℝ) (a : ℕ → Fin (m + c) → ℝ) (E : ℕ → Fin n → ℝ) : ℕ → Fin n → ℝ
  | 0 => x
  | i + 1 =>
      states x a E i + δ • r.dynamics (states x a E i) (control (a i)) (t + i * δ) + E (i + 1)

@[simp] theorem states_zero (x : Fin n → ℝ) (a : ℕ → Fin (m + c) → ℝ) (E : ℕ → Fin n → ℝ) :
    r.states t δ x a E 0 = x := rfl

theorem states_succ (x : Fin n → ℝ) (a : ℕ → Fin (m + c) → ℝ) (E : ℕ → Fin n → ℝ) (i : ℕ) :
    r.states t δ x a E (i + 1) =
      r.states t δ x a E i +
        δ • r.dynamics (r.states t δ x a E i) (control (a i)) (t + i * δ) + E (i + 1) := rfl

/-- The costate at node `i` by the equation there, from the costate at node `i + 1`. -/
def pulled (X : ℕ → Fin n → ℝ) (a : ℕ → Fin (m + c) → ℝ) (E : ℕ → Fin n → ℝ) (i : ℕ)
    (next : Fin n → ℝ) : Fin n → ℝ :=
  next + δ • r.stateGradient (X i) (a i) next (t + i * δ) + if i = 0 then 0 else E i

/-- The costate `j` nodes before the last one of `N` steps. -/
def costateBack (X : ℕ → Fin n → ℝ) (a : ℕ → Fin (m + c) → ℝ) (E : ℕ → Fin n → ℝ) (N : ℕ) :
    ℕ → Fin n → ℝ
  | 0 => r.terminalGradient (X N) (t + N * δ) + E N
  | j + 1 => r.pulled t δ X a E (N - 1 - j) (costateBack X a E N j)

/-- The costates of the states `X` under the actions `a` and with the defects `E`, on a
horizon of `N` steps. -/
def costates (X : ℕ → Fin n → ℝ) (a : ℕ → Fin (m + c) → ℝ) (E : ℕ → Fin n → ℝ) (N i : ℕ) :
    Fin n → ℝ := r.costateBack t δ X a E N (N - i)

/-- The costate at the last node. -/
theorem costates_last (X : ℕ → Fin n → ℝ) (a : ℕ → Fin (m + c) → ℝ) (E : ℕ → Fin n → ℝ)
    (N : ℕ) :
    r.costates t δ X a E N N = r.terminalGradient (X N) (t + N * δ) + E N := by
  rw [costates, Nat.sub_self, costateBack]

/-- The costate at a node before the last one. -/
theorem costates_of_lt (X : ℕ → Fin n → ℝ) (a : ℕ → Fin (m + c) → ℝ) (E : ℕ → Fin n → ℝ)
    {N i : ℕ} (hi : i < N) :
    r.costates t δ X a E N i = r.pulled t δ X a E i (r.costates t δ X a E N (i + 1)) := by
  obtain ⟨j, rfl⟩ : ∃ j, N = i + 1 + j := ⟨N - (i + 1), by omega⟩
  rw [costates, costates]
  have h1 : i + 1 + j - i = j + 1 := by omega
  have h2 : i + 1 + j - (i + 1) = j := by omega
  have h3 : i + 1 + j - 1 - j = i := by omega
  rw [h1, h2, costateBack, h3]

/-! ## Defects and stationarity -/

/-- The defects of the states `X`, seen from the current state `x`. -/
def stateDefects (x : Fin n → ℝ) (a : ℕ → Fin (m + c) → ℝ) (X : ℕ → Fin n → ℝ) :
    ℕ → Fin n → ℝ
  | 0 => 0
  | i + 1 =>
      X (i + 1) - seen x X i - δ • r.dynamics (seen x X i) (control (a i)) (t + i * δ)

/-- The defects of the costates `L` of the states `X`, on a horizon of `N` steps.  At node
zero, unless it is the last one, there is none. -/
def costateDefects (a : ℕ → Fin (m + c) → ℝ) (X L : ℕ → Fin n → ℝ) (N i : ℕ) : Fin n → ℝ :=
  if i = N then L N - r.terminalGradient (X N) (t + N * δ)
  else if i = 0 then 0
  else L i - L (i + 1) - δ • r.stateGradient (X i) (a i) (L (i + 1)) (t + i * δ)

/-- The control gradient at the action of step `i`. -/
def stationarity (x : Fin n → ℝ) (a : ℕ → Fin (m + c) → ℝ) (X L : ℕ → Fin n → ℝ) (i : ℕ) :
    Fin (m + c) → ℝ :=
  r.controlGradient (seen x X i) (a i) (L (i + 1)) (t + i * δ)

end Responses

end RecedingHorizon

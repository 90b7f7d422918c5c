import RecedingHorizon.Proofs.Continuation
import RecedingHorizon.Proofs.Krylov.Carried
import RecedingHorizon.Proofs.Stage

/-!
# Constraints that say nothing

A stage may have constraints that are left open.  These are zero wherever they are asked for, and
so are their derivatives.  Their multipliers exert no force, and the residuals of the constraints,
with which the control gradient ends, are zero.  So a model with inert constraints does with actions
what the model without them does with their control parts: states, costates and their defects are
the same, and the stationarity is the same with zeros behind it.

* `extended`, `extension`, `embedding`: an action with multipliers, and actions and sequences of
  actions with multipliers that are zero, by which inner products are kept.
* `Responses.inert`, `states_inert`, `costates_inert`, `stationarity_inert` and so on: what is
  answered, and what is shot.
* `StageModel.inert`, `StageModel.answers_inert`: the stage.
-/

namespace RecedingHorizon

open scoped Matrix

variable {n m k N : ℕ}

/-! ## Actions with multipliers -/

/-- The action without multipliers, with the multipliers `ρ`. -/
def extended (ρ : Fin k → ℝ) (a : Fin (m + 0) → ℝ) : Fin (m + k) → ℝ := Fin.append (control a) ρ

/-- Without multipliers, an action is its control part. -/
theorem control_self (a : Fin (m + 0) → ℝ) : control a = a := rfl

@[simp] theorem control_extended (ρ : Fin k → ℝ) (a : Fin (m + 0) → ℝ) :
    control (extended ρ a) = a := by
  funext i
  exact Fin.append_left (control a) ρ i

@[simp] theorem multipliers_extended (ρ : Fin k → ℝ) (a : Fin (m + 0) → ℝ) :
    multipliers (extended ρ a) = ρ := by
  funext i
  exact Fin.append_right (control a) ρ i

/-- An action is known by its two parts. -/
theorem action_ext {c : ℕ} {a b : Fin (m + c) → ℝ} (hcontrol : control a = control b)
    (hmultipliers : multipliers a = multipliers b) : a = b := by
  funext i
  refine Fin.addCases (fun j => ?_) (fun j => ?_) i
  · exact congrFun hcontrol j
  · exact congrFun hmultipliers j

theorem extended_add (ρ ρ' : Fin k → ℝ) (a b : Fin (m + 0) → ℝ) :
    extended ρ a + extended ρ' b = extended (ρ + ρ') (a + b) :=
  action_ext (by simp) (by simp)

theorem smul_extended (s : ℝ) (ρ : Fin k → ℝ) (a : Fin (m + 0) → ℝ) :
    s • extended ρ a = extended (s • ρ) (s • a) := action_ext (by simp) (by simp)

theorem extended_dotProduct (ρ ρ' : Fin k → ℝ) (a b : Fin (m + 0) → ℝ) :
    extended ρ a ⬝ᵥ extended ρ' b = a ⬝ᵥ b + ρ ⬝ᵥ ρ' := by
  rw [extended, append_dotProduct, control_extended, multipliers_extended, control_self]

/-- Actions with multipliers that are zero. -/
def extension (m k : ℕ) : (Fin (m + 0) → ℝ) →ₗ[ℝ] Fin (m + k) → ℝ where
  toFun := extended 0
  map_add' a b := by rw [extended_add, add_zero (0 : Fin k → ℝ)]
  map_smul' s a := by rw [RingHom.id_apply, smul_extended, smul_zero]

theorem extended_add_extension (ρ : Fin k → ℝ) (a b : Fin (m + 0) → ℝ) :
    extended ρ a + extension m k b = extended ρ (a + b) := by
  have h : extension m k b = extended 0 b := rfl
  rw [h, extended_add, add_zero ρ]

theorem isIsometric_extension : Krylov.IsIsometric (extension m k) := by
  intro a b
  have h : extension m k a ⬝ᵥ extension m k b = extended 0 a ⬝ᵥ extended 0 b := rfl
  rw [h, extended_dotProduct, zero_dotProduct, add_zero (_ : ℝ)]

/-- A sequence of actions, each with multipliers that are zero. -/
def widened (k : ℕ) (s : ℕ → Fin (m + 0) → ℝ) : ℕ → Fin (m + k) → ℝ :=
  fun i => extension m k (s i)

theorem widened_zero : widened k (0 : ℕ → Fin (m + 0) → ℝ) = 0 :=
  funext fun _ => map_zero (extension m k)

theorem widened_add (s s' : ℕ → Fin (m + 0) → ℝ) :
    widened k (s + s') = widened k s + widened k s' :=
  funext fun i => map_add (extension m k) (s i) (s' i)

theorem widened_sub (s s' : ℕ → Fin (m + 0) → ℝ) :
    widened k (s - s') = widened k s - widened k s' :=
  funext fun i => map_sub (extension m k) (s i) (s' i)

theorem widened_smul (x : ℝ) (s : ℕ → Fin (m + 0) → ℝ) : widened k (x • s) = x • widened k s :=
  funext fun i => map_smul (extension m k) x (s i)

/-- A sequence of actions, each with the multipliers `ρ`. -/
def prolonged (ρ : Fin k → ℝ) (s : ℕ → Fin (m + 0) → ℝ) : ℕ → Fin (m + k) → ℝ :=
  fun i => extended ρ (s i)

theorem control_prolonged (ρ : Fin k → ℝ) (s : ℕ → Fin (m + 0) → ℝ) :
    (fun i => control (prolonged ρ s i)) = s := funext fun i => control_extended ρ (s i)

theorem prolonged_add_widened (ρ : Fin k → ℝ) (s v : ℕ → Fin (m + 0) → ℝ) :
    prolonged ρ s + widened k v = prolonged ρ (s + v) :=
  funext fun i => extended_add_extension ρ (s i) (v i)

/-- Actions with multipliers that are zero, read as one long vector. -/
noncomputable def embedding (N m k : ℕ) :
    (Fin (N * (m + 0)) → ℝ) →ₗ[ℝ] Fin (N * (m + k)) → ℝ where
  toFun v := flatten N (widened k (unflatten N v))
  map_add' u v := by
    rw [unflatten_add, widened_add]
    rfl
  map_smul' s v := by
    rw [unflatten_smul, widened_smul]
    rfl

theorem embedding_flatten (s : ℕ → Fin (m + 0) → ℝ) :
    embedding N m k (flatten N s) = flatten N (widened k s) := by
  have h : Tensor.ofNodes N (widened k (unflatten N (flatten N s))) = .ofNodes N (widened k s) :=
    Tensor.ofNodes_congr fun i hi => congrArg (extension m k) (unflatten_flatten s hi)
  have hflat := congrArg Tensor.flat h
  rw [Tensor.flat_ofNodes, Tensor.flat_ofNodes] at hflat
  exact Tensor.ofFn_injective hflat

theorem unflatten_embedding (v : Fin (N * (m + 0)) → ℝ) :
    unflatten N (embedding N m k v) = widened k (unflatten N v) := by
  funext i
  by_cases hi : i < N
  · exact unflatten_flatten (widened k (unflatten N v)) hi
  · have hnone {l : ℕ} (v : Fin (N * l) → ℝ) : unflatten N v i = 0 :=
      funext fun j => dif_neg hi
    rw [hnone, widened, hnone]
    exact (map_zero (extension m k)).symm

theorem isIsometric_embedding : Krylov.IsIsometric (embedding N m k) := by
  intro u v
  have hu : u = flatten N (unflatten N u) := (flatten_unflatten u).symm
  have hv : v = flatten N (unflatten N v) := (flatten_unflatten v).symm
  rw [hu, hv, embedding_flatten, embedding_flatten, flatten_dotProduct, flatten_dotProduct]
  refine Finset.sum_congr rfl fun i _ => ?_
  exact isIsometric_extension _ _

/-! ## Responses -/

namespace Responses

/-- The responses of a model to which `k` constraints are added that say nothing. -/
def inert (r : Responses n m 0) (k : ℕ) : Responses n m k where
  dynamics := r.dynamics
  terminalGradient := r.terminalGradient
  stateGradient x a l t := r.stateGradient x (control a) l t
  controlGradient x a l t := extension m k (r.controlGradient x (control a) l t)

variable (r : Responses n m 0) (t δ : ℝ) (x : Fin n → ℝ) (a : ℕ → Fin (m + k) → ℝ)
  (X L E M : ℕ → Fin n → ℝ)

/-- The gradient at an action with multipliers is the one without, followed by zeros. -/
theorem controlGradient_extended (ρ : Fin k → ℝ) (a : Fin (m + 0) → ℝ) (l : Fin n → ℝ) :
    (r.inert k).controlGradient x (extended ρ a) l t =
      extension m k (r.controlGradient x a l t) := by
  rw [inert]
  dsimp only
  rw [control_extended]

theorem states_inert :
    (r.inert k).states t δ x a E = r.states t δ x (fun i => control (a i)) E := by
  funext i
  induction i with
  | zero => rfl
  | succ i ih =>
      rw [states_succ, states_succ, ih]
      rfl

theorem costates_inert (N : ℕ) :
    (r.inert k).costates t δ X a M N = r.costates t δ X (fun i => control (a i)) M N := by
  have hback (j : ℕ) : (r.inert k).costateBack t δ X a M N j =
      r.costateBack t δ X (fun i => control (a i)) M N j := by
    induction j with
    | zero => rfl
    | succ j ih =>
        rw [costateBack, costateBack, ih]
        rfl
  exact funext fun i => hback (N - i)

theorem stateDefects_inert :
    (r.inert k).stateDefects t δ x a X = r.stateDefects t δ x (fun i => control (a i)) X := by
  funext i
  cases i <;> rfl

theorem costateDefects_inert (N : ℕ) :
    (r.inert k).costateDefects t δ a X L N =
      r.costateDefects t δ (fun i => control (a i)) X L N := rfl

theorem stationarity_inert :
    (r.inert k).stationarity t δ x a X L =
      widened k (r.stationarity t δ x (fun i => control (a i)) X L) := rfl

theorem condensed_inert (N : ℕ) :
    (r.inert k).condensed t δ x a E M N =
      widened k (r.condensed t δ x (fun i => control (a i)) E M N) := by
  rw [condensed, condensed, stationarity_inert, states_inert, costates_inert]

end Responses

/-! ## Stages -/

namespace StageModel

/-- The stage with `k` constraints that are left open. -/
def inert {α : Type} (stage : StageModel α) (k : ℕ) : StageModel α :=
  { stage with
    constraintDim := k
    constraint? := none
    constraintByState? := none
    constraintByControl? := none }

/-- Memory has room for the zeros that `k` inert constraints are asked for. -/
structure HasInertRoom (stage : StageModel ℝ) (k : ℕ) : Prop where
  constraint : Tensor.checkRoom [(k : ℤ)] = (.ok () : Except (Fault ℝ) Unit)
  byState : Tensor.checkRoom [(k : ℤ), stage.stateDim] = (.ok () : Except (Fault ℝ) Unit)
  byControl : Tensor.checkRoom [(k : ℤ), stage.controlDim] = (.ok () : Except (Fault ℝ) Unit)

variable {stage : StageModel ℝ} {r : Responses n m 0}

/-- Multipliers of constraints that are left open exert no force. -/
theorem forces_inert (stage : StageModel ℝ) {width : ℕ}
    (hroom : Tensor.checkRoom [(k : ℤ), (width : ℤ)] = (.ok () : Except (Fault ℝ) Unit))
    (x u : Tensor ℝ) (t : Datum ℝ) (ρ : Fin k → ℝ) :
    (stage.inert k).forces none width x u t (.ofFn ρ) = .ok (.ofFn (0 : Fin width → ℝ)) := by
  have hinner : (Tensor.ofFn ρ).inner? = some k := by
    rw [Tensor.inner?, Tensor.shape_ofFn]
    rfl
  have hdim : (stage.inert k).constraintDim = k := rfl
  rw [forces, hdim, Tensor.pullbackZeros, hroom, ok_bind, hinner, Int.toNat_natCast,
    Int.toNat_natCast, if_pos rfl, Tensor.zeros_eq_ofMatrix, Tensor.pullback_ofMatrix,
    Matrix.transpose_zero,
    Matrix.zero_mulVec]

/-- The action that is left without the multipliers has the same control part. -/
theorem split_inert (hm : stage.toModel.Answers r) (a : Fin (m + k) → ℝ) :
    (∃ rest, stage.split (.ofFn (control a)) = .ok (.ofFn (control a), rest)) ∧
      (stage.inert k).split (.ofFn a) = .ok (.ofFn (control a), .ofFn (multipliers a)) := by
  have hdim : stage.controlDim = m := hm.controlDim
  have hdim' : (stage.inert k).controlDim = m := hm.controlDim
  have hfront : (Tensor.ofFn (control a)).front m = .ok (.ofFn (control a)) :=
    Tensor.front_ofFn (n := 0) (control a)
  have hback : (Tensor.ofFn (control a)).back m =
      .ok (.ofFn fun i : Fin 0 => control a (Fin.natAdd m i)) :=
    Tensor.back_ofFn (n := 0) (control a)
  refine ⟨⟨.ofFn fun i : Fin 0 => control a (Fin.natAdd m i), ?_⟩, ?_⟩
  · rw [split, hdim, hfront, ok_bind, hback]
    rfl
  · rw [split, hdim', Tensor.front_ofFn, ok_bind, Tensor.back_ofFn]
    rfl

theorem stateGradient_inert (hzero : stage.constraintDim = 0) (hm : stage.toModel.Answers r)
    (hk : 0 < k) (hroom : stage.HasInertRoom k) (x : Fin n → ℝ) (a : Fin (m + k) → ℝ)
    (l : Fin n → ℝ) (t : ℝ) :
    (stage.inert k).stateGradient (.ofFn x) (.ofFn a) (.ofFn l) t =
      .ok (.ofFn ((r.inert k).stateGradient x a l t)) := by
  obtain ⟨⟨rest, hsplit⟩, hsplit'⟩ := split_inert (k := k) hm a
  have hplain : stage.stateGradient (.ofFn x) (.ofFn (control a)) (.ofFn l) t =
      .ok (.ofFn (r.stateGradient x (control a) l t)) := hm.stateGradient x (control a) l t
  rw [stateGradient, hsplit, ok_bind] at hplain
  obtain ⟨cost, hcost, hplain⟩ := bind_eq_ok_iff.1 hplain
  obtain ⟨jacobian, hjacobian, hplain⟩ := bind_eq_ok_iff.1 hplain
  obtain ⟨flow, hflow, hplain⟩ := bind_eq_ok_iff.1 hplain
  obtain ⟨gradient, hgradient, hplain⟩ := bind_eq_ok_iff.1 hplain
  rw [if_pos hzero] at hplain
  obtain rfl := Except.ok.inj hplain
  have hstate : stage.stateDim = n := hm.stateDim
  have hwidth : (stage.inert k).stateDim = n := hm.stateDim
  have hforces := forces_inert stage (hstate ▸ hroom.byState) (.ofFn x) (.ofFn (control a)) t
    (multipliers a)
  have hcost' : (stage.inert k).costByState (.ofFn x) (.ofFn (control a)) t = .ok cost := hcost
  have hjacobian' : (stage.inert k).dynamicsByState (.ofFn x) (.ofFn (control a)) t =
      .ok jacobian := hjacobian
  have hslot : (stage.inert k).constraintByState? = none := rfl
  have hsome : (stage.inert k).constraintDim ≠ 0 := Int.natCast_ne_zero.2 hk.ne'
  rw [stateGradient, hsplit', ok_bind]
  dsimp only
  rw [hcost', ok_bind, hjacobian', ok_bind, hflow, ok_bind, hgradient, ok_bind, if_neg hsome,
    hslot, hwidth, hforces, ok_bind, Tensor.plus_ofFn, add_zero (_ : Fin n → ℝ)]
  rfl

theorem controlGradient_inert (hzero : stage.constraintDim = 0) (hm : stage.toModel.Answers r)
    (hk : 0 < k) (hroom : stage.HasInertRoom k) (x : Fin n → ℝ) (a : Fin (m + k) → ℝ)
    (l : Fin n → ℝ) (t : ℝ) :
    (stage.inert k).controlGradient (.ofFn x) (.ofFn a) (.ofFn l) t =
      .ok (.ofFn ((r.inert k).controlGradient x a l t)) := by
  obtain ⟨⟨rest, hsplit⟩, hsplit'⟩ := split_inert (k := k) hm a
  have hplain : stage.controlGradient (.ofFn x) (.ofFn (control a)) (.ofFn l) t =
      .ok (.ofFn (r.controlGradient x (control a) l t)) := hm.controlGradient x (control a) l t
  rw [controlGradient, hsplit, ok_bind] at hplain
  obtain ⟨cost, hcost, hplain⟩ := bind_eq_ok_iff.1 hplain
  obtain ⟨jacobian, hjacobian, hplain⟩ := bind_eq_ok_iff.1 hplain
  obtain ⟨flow, hflow, hplain⟩ := bind_eq_ok_iff.1 hplain
  obtain ⟨gradient, hgradient, hplain⟩ := bind_eq_ok_iff.1 hplain
  rw [if_pos hzero] at hplain
  obtain rfl := Except.ok.inj hplain
  have hcontrol : stage.controlDim = m := hm.controlDim
  have hwidth : (stage.inert k).controlDim = m := hm.controlDim
  have hforces := forces_inert stage (hcontrol ▸ hroom.byControl) (.ofFn x) (.ofFn (control a)) t
    (multipliers a)
  have hcost' : (stage.inert k).costByControl (.ofFn x) (.ofFn (control a)) t = .ok cost := hcost
  have hjacobian' : (stage.inert k).dynamicsByControl (.ofFn x) (.ofFn (control a)) t =
      .ok jacobian := hjacobian
  have hslot : (stage.inert k).constraintByControl? = none := rfl
  have hsome : (stage.inert k).constraintDim ≠ 0 := Int.natCast_ne_zero.2 hk.ne'
  have hresidual : (stage.inert k).constraint (.ofFn x) (.ofFn (control a)) t =
      .ok (.ofFn (0 : Fin k → ℝ)) := by
    show Tensor.blank [(k : ℤ)] = _
    rw [Tensor.blank, hroom.constraint, ok_bind]
    exact congrArg Except.ok Tensor.zeros_eq_ofFn
  have hplus : (Tensor.ofFn (r.controlGradient x (control a) l t)).plus
      (.ofFn (0 : Fin m → ℝ)) = .ok (.ofFn (r.controlGradient x (control a) l t)) := by
    rw [Tensor.plus_ofFn (n := m), add_zero (_ : Fin m → ℝ)]
  rw [controlGradient, hsplit', ok_bind]
  dsimp only
  rw [hcost', ok_bind, hjacobian', ok_bind, hflow, ok_bind, hgradient, ok_bind, if_neg hsome,
    hslot, hwidth, hforces, ok_bind, hplus, ok_bind, hresidual, ok_bind, Tensor.append_ofFn]
  rfl

/-- The model of a stage with inert constraints answers accordingly. -/
theorem answers_inert (hzero : stage.constraintDim = 0) (hm : stage.toModel.Answers r)
    (hk : 0 < k) (hroom : stage.HasInertRoom k) :
    (stage.inert k).toModel.Answers (r.inert k) where
  stateDim := hm.stateDim
  controlDim := hm.controlDim
  constraintDim := rfl
  dynamics := hm.dynamics
  terminalGradient := hm.terminalGradient
  stateGradient := stateGradient_inert hzero hm hk hroom
  controlGradient := controlGradient_inert hzero hm hk hroom

end StageModel

end RecedingHorizon

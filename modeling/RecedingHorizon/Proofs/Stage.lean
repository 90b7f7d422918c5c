import RecedingHorizon.Proofs.Matrices
import RecedingHorizon.Proofs.Responses

/-!
# Stages on vectors

A stage of mathematics is dynamics, constraints and costs as functions of vectors,
together with their derivatives.  A stage of the library evaluates it if each of its
functions answers with the array of that derivative.  Its model then answers with
the gradients of the Hamiltonian.

* `HasPartials`: the partial derivatives of a function of state and control.
* `IsGradient`: the vector whose pairing is the derivative of a function.
* `SmoothStage`: functions with their derivatives.
* `SmoothStage.responses`: the gradients of the Hamiltonian.
* `StageModel.Evaluates`, `StageModel.Evaluates.answers`: the stage of the library,
  and what its model answers.
-/

namespace RecedingHorizon

open scoped Matrix

variable {n m c : ℕ}

/-! ## Gathered arrays -/

namespace Gathered

/-- The array that is gathered, its numbers as scalars. -/
def tensor {α : Type} [Scalar α] : Gathered α → Except (Fault α) (Tensor α)
  | scalars a => .ok a
  | numbers a => toScalars a

/-- Numbers as scalars stand in an array of the same shape. -/
theorem shape_of_toScalars {a : Tensor (Number ℝ)} {b : Tensor ℝ} (h : toScalars a = .ok b) :
    b.shape = a.shape := by
  rw [toScalars] at h
  rcases hs : a.entries.mapM Number.scalar with fault | entries
  · rw [hs] at h
    cases h
  · rw [hs, ok_bind] at h
    by_cases hl : entries.length = volume a.shape
    · rw [dif_pos hl] at h
      exact congrArg Tensor.shape (Except.ok.inj h).symm
    · rw [dif_neg hl] at h
      cases h

/-- What is computed with a gathered array is computed with the array, if the
computation on zeros can stand for it whenever that has no entries. -/
theorem apply_of_tensor {op : Tensor ℝ → Except (Fault ℝ) (Tensor ℝ)} {g : Gathered ℝ}
    {a trial : Tensor ℝ} (hg : g.tensor = .ok a) (ht : op (.zeros a.shape) = .ok trial)
    (h : trial.entries = [] → op a = .ok trial) : g.apply op = op a := by
  cases g with
  | scalars b =>
      obtain rfl : b = a := Except.ok.inj hg
      rfl
  | numbers b =>
      have hs : toScalars b = .ok a := hg
      rw [shape_of_toScalars hs] at ht
      rw [apply, ht, ok_bind]
      by_cases he : trial.entries = []
      · rw [if_pos (List.isEmpty_iff.2 he), h he]
        rfl
      · rw [if_neg fun hc => he (List.isEmpty_iff.1 hc), hs, ok_bind]

theorem plus_of_tensor {g : Gathered ℝ} {v : Fin n → ℝ} (hg : g.tensor = .ok (.ofFn v))
    (w : Fin n → ℝ) : g.plus (.ofFn w) = .ok (.ofFn (v + w)) := by
  have ht : (Tensor.zeros (Tensor.ofFn v).shape).plus (.ofFn w) =
      .ok (.ofFn ((fun _ => 0) + w)) := by
    rw [Tensor.shape_ofFn, Tensor.zeros_eq_ofFn, Tensor.plus_ofFn]
  rw [plus, apply_of_tensor hg ht, Tensor.plus_ofFn]
  intro he
  obtain rfl : n = 0 := by simpa using he
  rw [Tensor.plus_ofFn, Subsingleton.elim v]

theorem pullback_of_tensor {g : Gathered ℝ} {M : Matrix (Fin m) (Fin n) ℝ}
    (hg : g.tensor = .ok (.ofMatrix M)) (v : Fin m → ℝ) :
    g.pullback (.ofFn v) = .ok (.ofFn (Mᵀ *ᵥ v)) := by
  have ht : (Tensor.zeros (Tensor.ofMatrix M).shape).pullback (.ofFn v) =
      .ok (.ofFn ((0 : Matrix (Fin m) (Fin n) ℝ)ᵀ *ᵥ v)) := by
    rw [Tensor.shape_ofMatrix, Tensor.zeros_eq_ofNodes]
    exact Tensor.pullback_ofMatrix 0 v
  rw [pullback, apply_of_tensor hg ht, Tensor.pullback_ofMatrix]
  intro he
  obtain rfl : n = 0 := by simpa using he
  rw [Tensor.pullback_ofMatrix]
  exact congrArg (fun w => Except.ok (Tensor.ofFn w)) (Subsingleton.elim _ _)

end Gathered

/-! ## Stages -/

/-- At `(x, u)` the function `f` has the partial derivatives `dx` and `du`. -/
def HasPartials {W : Type} [NormedAddCommGroup W] [NormedSpace ℝ W]
    (f : (Fin n → ℝ) → (Fin m → ℝ) → W) (dx : (Fin n → ℝ) →ₗ[ℝ] W) (du : (Fin m → ℝ) →ₗ[ℝ] W)
    (x : Fin n → ℝ) (u : Fin m → ℝ) : Prop :=
  HasFDerivAt (fun p : (Fin n → ℝ) × (Fin m → ℝ) => f p.1 p.2)
    (LinearMap.toContinuousLinearMap (dx.coprod du)) (x, u)

/-- The derivative of the function at `x` is the pairing with `v`. -/
def IsGradient (f : (Fin n → ℝ) → ℝ) (v x : Fin n → ℝ) : Prop :=
  HasFDerivAt f (LinearMap.toContinuousLinearMap (dotProductBilin ℝ ℝ v)) x

/-- A derivative that pairs with a vector. -/
theorem IsGradient.of_hasFDerivAt {f : (Fin n → ℝ) → ℝ} {f' : (Fin n → ℝ) →L[ℝ] ℝ}
    {v x : Fin n → ℝ} (hf : HasFDerivAt f f' x) (hv : ∀ y, f' y = v ⬝ᵥ y) : IsGradient f v x :=
  hf.congr_fderiv (ContinuousLinearMap.ext hv)

/-- A derivative in both arguments together that is a pairing in each. -/
theorem HasPartials.of_hasFDerivAt {f : (Fin n → ℝ) → (Fin m → ℝ) → ℝ}
    {f' : (Fin n → ℝ) × (Fin m → ℝ) →L[ℝ] ℝ} {v x : Fin n → ℝ} {w u : Fin m → ℝ}
    (hf : HasFDerivAt (fun p : (Fin n → ℝ) × (Fin m → ℝ) => f p.1 p.2) f' (x, u))
    (h : ∀ y z, f' (y, z) = v ⬝ᵥ y + w ⬝ᵥ z) :
    HasPartials f (dotProductBilin ℝ ℝ v) (dotProductBilin ℝ ℝ w) x u :=
  hf.congr_fderiv (ContinuousLinearMap.ext fun p => h p.1 p.2)

/-- A function with values in vectors, entry by entry. -/
theorem HasPartials.of_rows {f : (Fin n → ℝ) → (Fin m → ℝ) → Fin c → ℝ}
    {A : Matrix (Fin c) (Fin n) ℝ} {B : Matrix (Fin c) (Fin m) ℝ} {x : Fin n → ℝ} {u : Fin m → ℝ}
    (h : ∀ i, HasPartials (fun x u => f x u i) (dotProductBilin ℝ ℝ (A i))
      (dotProductBilin ℝ ℝ (B i)) x u) : HasPartials f A.mulVecLin B.mulVecLin x u :=
  hasFDerivAt_pi'.2 fun i => (h i).congr_fderiv (ContinuousLinearMap.ext fun _ => rfl)

section OneArgument

variable {W : Type} [NormedAddCommGroup W] [NormedSpace ℝ W] {f : (Fin n → ℝ) → (Fin m → ℝ) → W}
  {dx : (Fin n → ℝ) →ₗ[ℝ] W} {du : (Fin m → ℝ) →ₗ[ℝ] W} {x : Fin n → ℝ} {u : Fin m → ℝ}

/-- The derivative in the state, the control being kept. -/
theorem HasPartials.byState (hf : HasPartials f dx du x u) :
    HasFDerivAt (fun x => f x u) (LinearMap.toContinuousLinearMap dx) x := by
  have hpair : HasFDerivAt (fun x : Fin n → ℝ => (x, u)) (ContinuousLinearMap.inl ℝ _ _) x :=
    hasFDerivAt_prodMk_left x u
  refine (HasFDerivAt.comp (f := fun x => (x, u)) x hf hpair).congr_fderiv ?_
  ext1 y
  simp

/-- The derivative in the control, the state being kept. -/
theorem HasPartials.byControl (hf : HasPartials f dx du x u) :
    HasFDerivAt (fun u => f x u) (LinearMap.toContinuousLinearMap du) u := by
  have hpair : HasFDerivAt (fun u : Fin m → ℝ => (x, u)) (ContinuousLinearMap.inr ℝ _ _) u :=
    hasFDerivAt_prodMk_right x u
  refine (HasFDerivAt.comp (f := fun u => (x, u)) u hf hpair).congr_fderiv ?_
  ext1 y
  simp

end OneArgument

/-- Along a curve of states and controls through the point, a function changes by its
partial derivatives. -/
theorem HasPartials.hasDerivAt {W : Type} [NormedAddCommGroup W] [NormedSpace ℝ W]
    {f : (Fin n → ℝ) → (Fin m → ℝ) → W} {dx : (Fin n → ℝ) →ₗ[ℝ] W} {du : (Fin m → ℝ) →ₗ[ℝ] W}
    {x₀ : Fin n → ℝ} {u₀ : Fin m → ℝ} (hf : HasPartials f dx du x₀ u₀) {x : ℝ → Fin n → ℝ}
    {u : ℝ → Fin m → ℝ} {ε : ℝ} {x' : Fin n → ℝ} {u' : Fin m → ℝ} (hx : HasDerivAt x x' ε)
    (hu : HasDerivAt u u' ε) (hx₀ : x₀ = x ε) (hu₀ : u₀ = u ε) :
    HasDerivAt (fun ε => f (x ε) (u ε)) (dx x' + du u') ε := by
  have hpoint : (x₀, u₀) = (x ε, u ε) := Prod.ext hx₀ hu₀
  exact HasFDerivAt.comp_hasDerivAt_of_eq (f := fun ε => (x ε, u ε)) ε hf (hx.prodMk hu) hpoint

/-- The multiplier part of an action. -/
def multipliers (a : Fin (m + c) → ℝ) : Fin c → ℝ := fun i => a (Fin.natAdd m i)

@[simp] theorem multipliers_add (a b : Fin (m + c) → ℝ) :
    multipliers (a + b) = multipliers a + multipliers b := rfl

@[simp] theorem multipliers_smul (s : ℝ) (a : Fin (m + c) → ℝ) :
    multipliers (s • a) = s • multipliers a := rfl

/-- Paired with an action, an array of both parts is paired part by part. -/
theorem append_dotProduct (u : Fin m → ℝ) (v : Fin c → ℝ) (a : Fin (m + c) → ℝ) :
    Fin.append u v ⬝ᵥ a = u ⬝ᵥ control a + v ⬝ᵥ multipliers a := by
  simp only [dotProduct, Fin.sum_univ_add, Fin.append_left, Fin.append_right]
  rfl

/-- Dynamics, constraints and costs of a stage, with their derivatives. -/
structure SmoothStage (n m c : ℕ) where
  dynamics (x : Fin n → ℝ) (u : Fin m → ℝ) (t : ℝ) : Fin n → ℝ
  constraint (x : Fin n → ℝ) (u : Fin m → ℝ) (t : ℝ) : Fin c → ℝ
  cost (x : Fin n → ℝ) (u : Fin m → ℝ) (t : ℝ) : ℝ
  terminalCost (x : Fin n → ℝ) (t : ℝ) : ℝ
  dynamicsByState (x : Fin n → ℝ) (u : Fin m → ℝ) (t : ℝ) : Matrix (Fin n) (Fin n) ℝ
  dynamicsByControl (x : Fin n → ℝ) (u : Fin m → ℝ) (t : ℝ) : Matrix (Fin n) (Fin m) ℝ
  constraintByState (x : Fin n → ℝ) (u : Fin m → ℝ) (t : ℝ) : Matrix (Fin c) (Fin n) ℝ
  constraintByControl (x : Fin n → ℝ) (u : Fin m → ℝ) (t : ℝ) : Matrix (Fin c) (Fin m) ℝ
  costByState (x : Fin n → ℝ) (u : Fin m → ℝ) (t : ℝ) : Fin n → ℝ
  costByControl (x : Fin n → ℝ) (u : Fin m → ℝ) (t : ℝ) : Fin m → ℝ
  terminalGradient (x : Fin n → ℝ) (t : ℝ) : Fin n → ℝ
  dynamics_partials (x : Fin n → ℝ) (u : Fin m → ℝ) (t : ℝ) :
    HasPartials (fun x u => dynamics x u t) (dynamicsByState x u t).mulVecLin
      (dynamicsByControl x u t).mulVecLin x u
  constraint_partials (x : Fin n → ℝ) (u : Fin m → ℝ) (t : ℝ) :
    HasPartials (fun x u => constraint x u t) (constraintByState x u t).mulVecLin
      (constraintByControl x u t).mulVecLin x u
  cost_partials (x : Fin n → ℝ) (u : Fin m → ℝ) (t : ℝ) :
    HasPartials (fun x u => cost x u t) (dotProductBilin ℝ ℝ (costByState x u t))
      (dotProductBilin ℝ ℝ (costByControl x u t)) x u
  terminalCost_gradient (x : Fin n → ℝ) (t : ℝ) :
    HasFDerivAt (fun x => terminalCost x t)
      (LinearMap.toContinuousLinearMap (dotProductBilin ℝ ℝ (terminalGradient x t))) x

/-- The gradients of the Hamiltonian. -/
def SmoothStage.responses (s : SmoothStage n m c) : Responses n m c where
  dynamics := s.dynamics
  terminalGradient := s.terminalGradient
  stateGradient x a l t :=
    s.costByState x (control a) t + (s.dynamicsByState x (control a) t)ᵀ *ᵥ l +
      (s.constraintByState x (control a) t)ᵀ *ᵥ multipliers a
  controlGradient x a l t :=
    Fin.append
      (s.costByControl x (control a) t + (s.dynamicsByControl x (control a) t)ᵀ *ᵥ l +
        (s.constraintByControl x (control a) t)ᵀ *ᵥ multipliers a)
      (s.constraint x (control a) t)

/-! ## Stages of the library -/

/-- The stage has the dimensions of the smooth one, and on vectors of these
dimensions its functions answer with dynamics, constraints and derivatives. -/
structure StageModel.Evaluates (stage : StageModel ℝ) (s : SmoothStage n m c) : Prop where
  stateDim : stage.stateDim = n
  controlDim : stage.controlDim = m
  constraintDim : stage.constraintDim = c
  dynamics (x : Fin n → ℝ) (u : Fin m → ℝ) (t : ℝ) :
    stage.dynamics (.ofFn x) (.ofFn u) t = .ok (.ofFn (s.dynamics x u t))
  dynamicsByState (x : Fin n → ℝ) (u : Fin m → ℝ) (t : ℝ) :
    (stage.dynamicsByState (.ofFn x) (.ofFn u) t >>= Gathered.tensor) =
      .ok (.ofMatrix (s.dynamicsByState x u t))
  dynamicsByControl (x : Fin n → ℝ) (u : Fin m → ℝ) (t : ℝ) :
    stage.dynamicsByControl (.ofFn x) (.ofFn u) t = .ok (.ofMatrix (s.dynamicsByControl x u t))
  constraint (x : Fin n → ℝ) (u : Fin m → ℝ) (t : ℝ) :
    stage.constraint (.ofFn x) (.ofFn u) t = .ok (.ofFn (s.constraint x u t))
  constraintByState (x : Fin n → ℝ) (u : Fin m → ℝ) (t : ℝ) :
    stage.constraintByState (.ofFn x) (.ofFn u) t = .ok (.ofMatrix (s.constraintByState x u t))
  constraintByControl (x : Fin n → ℝ) (u : Fin m → ℝ) (t : ℝ) :
    stage.constraintByControl (.ofFn x) (.ofFn u) t =
      .ok (.ofMatrix (s.constraintByControl x u t))
  costByState (x : Fin n → ℝ) (u : Fin m → ℝ) (t : ℝ) :
    stage.costByState (.ofFn x) (.ofFn u) t = .ok (.ofFn (s.costByState x u t))
  costByControl (x : Fin n → ℝ) (u : Fin m → ℝ) (t : ℝ) :
    (stage.costByControl (.ofFn x) (.ofFn u) t >>= Gathered.tensor) =
      .ok (.ofFn (s.costByControl x u t))
  terminalGradient (x : Fin n → ℝ) (t : ℝ) :
    stage.terminalGradient (.ofFn x) t = .ok (.ofFn (s.terminalGradient x t))

namespace StageModel.Evaluates

variable {stage : StageModel ℝ} {s : SmoothStage n m c}

/-- An action is split into control and multipliers. -/
theorem split (hs : stage.Evaluates s) (a : Fin (m + c) → ℝ) :
    stage.split (.ofFn a) = .ok (.ofFn (control a), .ofFn (multipliers a)) := by
  rw [StageModel.split, hs.controlDim, Tensor.front_ofFn, ok_bind, Tensor.back_ofFn, ok_bind]
  rfl

/-- The forces of the multipliers are those of the Jacobian, given or not. -/
theorem forces_eq (hs : stage.Evaluates s) {slot : Slot ℝ} {width : ℕ} {x u : Tensor ℝ}
    {t : Datum ℝ} {M : Matrix (Fin c) (Fin width) ℝ}
    (hsome : ∀ f, slot = some f → f x u t = .ok (.ofMatrix M))
    (hnone : slot = none → Tensor.blank [(c : ℤ), (width : ℤ)] = .ok (.ofMatrix M))
    (v : Fin c → ℝ) :
    stage.forces slot width x u t (.ofFn v) = .ok (.ofFn (Mᵀ *ᵥ v)) := by
  cases slot with
  | some f => rw [forces, hsome f rfl, ok_bind, Tensor.pullback_ofMatrix]
  | none =>
      obtain ⟨⟨⟩, hroom, hanswer⟩ := bind_eq_ok_iff.1 (hnone rfl)
      have hzeros : Tensor.zeros [c, width] = Tensor.ofMatrix M := Except.ok.inj hanswer
      have hinner : (Tensor.ofFn v).inner? = some c := by
        rw [Tensor.inner?, Tensor.shape_ofFn]
        rfl
      rw [forces, hs.constraintDim, Tensor.pullbackZeros, hinner, hroom, ok_bind,
        Int.toNat_natCast, Int.toNat_natCast, if_pos rfl, hzeros, Tensor.pullback_ofMatrix]

theorem forces_byState (hs : stage.Evaluates s) (x : Fin n → ℝ) (u : Fin m → ℝ) (v : Fin c → ℝ)
    (t : ℝ) :
    stage.forces stage.constraintByState? n (.ofFn x) (.ofFn u) t (.ofFn v) =
      .ok (.ofFn ((s.constraintByState x u t)ᵀ *ᵥ v)) := by
  have h := hs.constraintByState x u t
  rw [StageModel.constraintByState, hs.stateDim, hs.constraintDim] at h
  refine hs.forces_eq (fun f hf => ?_) (fun hf => ?_) v
  · simpa only [hf] using h
  · simpa only [hf] using h

theorem forces_byControl (hs : stage.Evaluates s) (x : Fin n → ℝ) (u : Fin m → ℝ)
    (v : Fin c → ℝ) (t : ℝ) :
    stage.forces stage.constraintByControl? m (.ofFn x) (.ofFn u) t (.ofFn v) =
      .ok (.ofFn ((s.constraintByControl x u t)ᵀ *ᵥ v)) := by
  have h := hs.constraintByControl x u t
  rw [StageModel.constraintByControl, hs.controlDim, hs.constraintDim] at h
  refine hs.forces_eq (fun f hf => ?_) (fun hf => ?_) v
  · simpa only [hf] using h
  · simpa only [hf] using h

/-- The gradient of the Hamiltonian in the state. -/
theorem stateGradient (hs : stage.Evaluates s) (x : Fin n → ℝ) (a : Fin (m + c) → ℝ)
    (l : Fin n → ℝ) (t : ℝ) :
    stage.stateGradient (.ofFn x) (.ofFn a) (.ofFn l) t =
      .ok (.ofFn (s.responses.stateGradient x a l t)) := by
  obtain ⟨jacobian, hjacobian, htensor⟩ :=
    bind_eq_ok_iff.1 (hs.dynamicsByState x (control a) t)
  rw [StageModel.stateGradient, hs.split, ok_bind]
  dsimp only
  rw [hs.costByState, ok_bind, hjacobian, ok_bind, Gathered.pullback_of_tensor htensor, ok_bind,
    Tensor.plus_ofFn, ok_bind, hs.constraintDim]
  by_cases hc : c = 0
  · subst hc
    have hnone : (s.constraintByState x (control a) t)ᵀ *ᵥ multipliers a = 0 := by
      rw [Subsingleton.elim (multipliers a) 0, Matrix.mulVec_zero]
    have hresponse : s.responses.stateGradient x a l t =
        s.costByState x (control a) t + (s.dynamicsByState x (control a) t)ᵀ *ᵥ l := by
      simp only [SmoothStage.responses, hnone, add_zero]
    rw [if_pos Nat.cast_zero, hresponse]
    rfl
  · rw [if_neg (Int.natCast_ne_zero.2 hc), hs.stateDim, hs.forces_byState, ok_bind,
      Tensor.plus_ofFn]
    rfl

/-- The gradient of the Hamiltonian in the control and the multipliers. -/
theorem controlGradient (hs : stage.Evaluates s) (x : Fin n → ℝ) (a : Fin (m + c) → ℝ)
    (l : Fin n → ℝ) (t : ℝ) :
    stage.controlGradient (.ofFn x) (.ofFn a) (.ofFn l) t =
      .ok (.ofFn (s.responses.controlGradient x a l t)) := by
  obtain ⟨cost, hcost, htensor⟩ := bind_eq_ok_iff.1 (hs.costByControl x (control a) t)
  rw [StageModel.controlGradient, hs.split, ok_bind]
  dsimp only
  rw [hcost, ok_bind, hs.dynamicsByControl, ok_bind, Tensor.pullback_ofMatrix, ok_bind,
    Gathered.plus_of_tensor htensor, ok_bind, hs.constraintDim]
  by_cases hc : c = 0
  · subst hc
    have hnone : (s.constraintByControl x (control a) t)ᵀ *ᵥ multipliers a = 0 := by
      rw [Subsingleton.elim (multipliers a) 0, Matrix.mulVec_zero]
    have hresponse : s.responses.controlGradient x a l t =
        s.costByControl x (control a) t + (s.dynamicsByControl x (control a) t)ᵀ *ᵥ l := by
      simp only [SmoothStage.responses, hnone, add_zero]
      rw [Subsingleton.elim (s.constraint x (control a) t) Fin.elim0, Fin.append_elim0]
      rfl
    rw [if_pos Nat.cast_zero, hresponse]
    rfl
  · rw [if_neg (Int.natCast_ne_zero.2 hc), hs.controlDim, hs.forces_byControl, ok_bind,
      Tensor.plus_ofFn, ok_bind, hs.constraint, ok_bind, Tensor.append_ofFn]
    rfl

/-- The model of a stage answers with the gradients of the Hamiltonian. -/
theorem answers (hs : stage.Evaluates s) : stage.toModel.Answers s.responses where
  stateDim := hs.stateDim
  controlDim := hs.controlDim
  constraintDim := hs.constraintDim
  dynamics := hs.dynamics
  terminalGradient := hs.terminalGradient
  stateGradient := hs.stateGradient
  controlGradient := hs.controlGradient

end StageModel.Evaluates

end RecedingHorizon

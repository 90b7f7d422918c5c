import Mathlib
import RecedingHorizon.Continuation
import RecedingHorizon.Proofs.Numbers
import RecedingHorizon.Proofs.Shooting

/-!
# The linear system of a continuation step, exactly

For a model that answers on vectors, what a continuation step asks for succeeds, and
is the difference quotient written down for the responses.  Its residual takes one
and the same form whether the guess is zero or not: the difference between the two
ways of computing it is one of rounding only.

* `Continuation.Scaled`: what the arithmetic of a system needs; `Continuation.Replies` and
  `Continuation.Answers`: the system of a model with responses, and on a horizon with steps.
* `Continuation.Point`: the time, the state and the trajectory of a step.
* `Point.next`: the stationarity one difference step ahead, as a function of the
  actions; `Point.remaining` and `Point.image` are the residual of a guess and the
  image of a direction.
* `prepare_of`, `residual_of`, `image_of`, `trajectoryRate_of`: what the calls answer and remember,
  whatever state has been predicted; `prepare_eq`, `residual_eq`, `image_eq` where it is that of the
  point.
* `leftover`: the residual that a direction leaves, asked of a new system.
-/

namespace RecedingHorizon

variable {n m c N : ℕ}

/-- A vector is zero if the array of it is. -/
theorem Tensor.isZero_ofFn {v : Fin n → ℝ} : (Tensor.ofFn v).isZero = true ↔ v = 0 := by
  rw [isZero, entries_ofFn, Vec.isZero_ofFn]

@[simp] theorem unflatten_zero : unflatten N (0 : Fin (N * n) → ℝ) = 0 := by
  funext i j
  rw [unflatten]
  split <;> rfl

@[simp] theorem unflatten_add (u v : Fin (N * n) → ℝ) :
    unflatten N (u + v) = unflatten N u + unflatten N v := by
  funext i j
  rw [Pi.add_apply, Pi.add_apply, unflatten, unflatten, unflatten]
  split
  · rfl
  · exact (add_zero (0 : ℝ)).symm

@[simp] theorem unflatten_smul (s : ℝ) (v : Fin (N * n) → ℝ) :
    unflatten N (s • v) = s • unflatten N v := by
  funext i j
  rw [Pi.smul_apply, Pi.smul_apply, unflatten, unflatten]
  split
  · rfl
  · exact (smul_zero s).symm

namespace Continuation

/-- The system of a model with responses, on `N` steps, with differences of step `h` and
rate of decay `ζ`. -/
structure Answers (system : Continuation ℝ) (r : Responses n m c) (N : ℕ) (h ζ : ℝ) : Prop where
  model : system.problem.model.Answers r
  divisions : system.problem.horizon.divisions = .number (.whole N)
  differenceStep : system.differenceStep.scalar = .ok h
  decayRate : system.decayRate.scalar = .ok ζ
  room : Room N n
  extents : Tensor.checkExtents [(N : ℤ), ((m + c : ℕ) : ℤ)] = (.ok () : Except (Fault ℝ) Unit)
  steps_pos : 0 < N
  step_pos : 0 < h

/-- What the arithmetic of a system needs to be known of it: its actions, `N` of `k` entries each,
can be laid out, and its differences of step `h` and its rate of decay `ζ` are scalars. -/
structure Scaled (system : Continuation ℝ) (N k : ℕ) (h ζ : ℝ) : Prop where
  divisions : system.problem.horizon.divisions = .number (.whole N)
  actionDim : system.problem.model.actionDim = k
  differenceStep : system.differenceStep.scalar = .ok h
  decayRate : system.decayRate.scalar = .ok ζ
  extents : Tensor.checkExtents [(N : ℤ), (k : ℤ)] = (.ok () : Except (Fault ℝ) Unit)
  step_pos : 0 < h

/-- The system of a model with responses, on a horizon that may be without steps. -/
structure Replies (system : Continuation ℝ) (r : Responses n m c) (N : ℕ) (h ζ : ℝ) : Prop
    extends Scaled system N (m + c) h ζ where
  model : system.problem.model.Answers r
  room : Room N n

theorem Answers.replies {system : Continuation ℝ} {r : Responses n m c} {h ζ : ℝ}
    (hs : system.Answers r N h ζ) : system.Replies r N h ζ where
  divisions := hs.divisions
  actionDim := hs.model.actionDim
  differenceStep := hs.differenceStep
  decayRate := hs.decayRate
  extents := hs.extents
  step_pos := hs.step_pos
  model := hs.model
  room := hs.room

/-- The memory of a stored trajectory and of the state `y` predicted for time `t`. -/
def Memory.of (N : ℕ) (X L : ℕ → Fin n → ℝ) (t : ℝ) (y : Fin n → ℝ) (defects : Option (Defects ℝ))
    (stationarity : Option (Tensor ℝ)) : Memory ℝ where
  trajectory := some ⟨.ofNodes (N + 1) X, .ofNodes (N + 1) L⟩
  time := .number (.real t)
  state := some (.ofFn y)
  defects := defects
  stationarity := stationarity

/-- Where a step starts: the time with the step lengths now and one difference step
ahead, the state, and the actions and trajectory that are stored. -/
structure Point (n m c : ℕ) where
  time : ℝ
  state : Fin n → ℝ
  actions : ℕ → Fin (m + c) → ℝ
  states : ℕ → Fin n → ℝ
  costates : ℕ → Fin n → ℝ
  /-- The length of a step of the horizon now. -/
  δ : ℝ
  /-- The length of a step of the horizon one difference step ahead. -/
  δ' : ℝ

namespace Point

variable (p : Point n m c) (r : Responses n m c) (N : ℕ) (h ζ : ℝ)

/-- The stored trajectory. -/
def trajectory : Trajectory ℝ := ⟨.ofNodes (N + 1) p.states, .ofNodes (N + 1) p.costates⟩

/-- The stationarity now. -/
def present : ℕ → Fin (m + c) → ℝ :=
  r.stationarity p.time p.δ p.state p.actions p.states p.costates

/-- The defects of the states now. -/
def stateDefects : ℕ → Fin n → ℝ := r.stateDefects p.time p.δ p.state p.actions p.states

/-- The defects of the costates now. -/
def costateDefects : ℕ → Fin n → ℝ :=
  r.costateDefects p.time p.δ p.actions p.states p.costates N

/-- The rate of change of the state. -/
def rate : Fin n → ℝ := r.dynamics p.state (control (p.actions 0)) p.time

/-- The state predicted one difference step ahead. -/
def ahead : Fin n → ℝ := p.state + h • p.rate r

/-- The states of actions one difference step ahead, under the decayed defects. -/
def nextStates (a : ℕ → Fin (m + c) → ℝ) : ℕ → Fin n → ℝ :=
  r.states (p.time + h) p.δ' (p.ahead r h) a ((1 - h * ζ) • p.stateDefects r)

/-- The costates of actions one difference step ahead, under the decayed defects. -/
def nextCostates (a : ℕ → Fin (m + c) → ℝ) : ℕ → Fin n → ℝ :=
  r.costates (p.time + h) p.δ' (p.nextStates r h ζ a) a
    ((1 - h * ζ) • p.costateDefects r N) N

/-- The stationarity of actions one difference step ahead, under the decayed defects. -/
def next (a : ℕ → Fin (m + c) → ℝ) : ℕ → Fin (m + c) → ℝ :=
  r.condensed (p.time + h) p.δ' (p.ahead r h) a ((1 - h * ζ) • p.stateDefects r)
    ((1 - h * ζ) • p.costateDefects r N) N

/-- The residual that a direction leaves. -/
noncomputable def remaining (v : ℕ → Fin (m + c) → ℝ) : ℕ → Fin (m + c) → ℝ :=
  (h⁻¹ - ζ) • p.present r - h⁻¹ • p.next r N h ζ (p.actions + h • v)

/-- How long the residual is that a direction leaves. -/
noncomputable def remainingNorm (v : ℕ → Fin (m + c) → ℝ) : ℝ :=
  √(flatten N (p.remaining r N h ζ v) ⬝ᵥ flatten N (p.remaining r N h ζ v))

/-- The image of a direction. -/
noncomputable def image (v : ℕ → Fin (m + c) → ℝ) : ℕ → Fin (m + c) → ℝ :=
  h⁻¹ • (p.next r N h ζ (p.actions + h • v) - p.next r N h ζ p.actions)

/-- Images are linear, read as one long vector. -/
def HasLinearImage : Prop :=
  IsLinearMap ℝ fun v => flatten N (p.image r N h ζ (RecedingHorizon.unflatten N v))

/-- What a direction leaves is what is left without it, less its image. -/
theorem remaining_eq_sub (v : ℕ → Fin (m + c) → ℝ) :
    p.remaining r N h ζ v = p.remaining r N h ζ 0 - p.image r N h ζ v := by
  rw [remaining, remaining, image, smul_zero, add_zero, smul_sub]
  abel

variable {r N h ζ} in
/-- If images are linear, what the guess leaves and the image of the change tell what is
left. -/
theorem remaining_sub_image (hg : p.HasLinearImage r N h ζ) (v₀ v : Fin (N * (m + c)) → ℝ) :
    flatten N (p.remaining r N h ζ (RecedingHorizon.unflatten N v₀)) -
        flatten N (p.image r N h ζ (RecedingHorizon.unflatten N (v - v₀))) =
      flatten N (p.remaining r N h ζ (RecedingHorizon.unflatten N v)) := by
  have hsub : ∀ u, flatten N (p.remaining r N h ζ (RecedingHorizon.unflatten N u)) =
      flatten N (p.remaining r N h ζ 0) -
        flatten N (p.image r N h ζ (RecedingHorizon.unflatten N u)) :=
    fun u => congrArg (flatten N) (p.remaining_eq_sub r N h ζ _)
  have himage := IsLinearMap.map_sub hg v v₀
  rw [himage, hsub, hsub, sub_sub_sub_cancel_right]

/-- The memory once the point is set, whatever it was before. -/
def set (before : Memory ℝ) : Memory ℝ where
  trajectory := some (p.trajectory N)
  time := .number (.real (p.time + h))
  state := some (.ofFn (p.ahead r h))
  defects := before.defects
  stationarity := before.stationarity

/-- The memory once the defects have been found, with the stationarity found next. -/
def found (stationarity : Option (Tensor ℝ)) : Memory ℝ where
  trajectory := some (p.trajectory N)
  time := .number (.real (p.time + h))
  state := some (.ofFn (p.ahead r h))
  defects := some ⟨.ofNodes (N + 1) ((1 - h * ζ) • p.stateDefects r),
    .ofNodes (N + 1) ((1 - h * ζ) • p.costateDefects r N)⟩
  stationarity := stationarity

/-- The memory once the residual has been asked for. -/
def asked : Memory ℝ := p.found r N h ζ (some (.ofNodes N (p.next r N h ζ p.actions)))

end Point

/-! ## Parts of the calls -/

section Parts

variable {system : Continuation ℝ} {k : ℕ} {h ζ : ℝ}

theorem unflatten_eq (hs : system.Scaled N k h ζ) (v : Fin (N * k) → ℝ) :
    system.unflatten (.ofFn v) = .ok (.ofNodes N (RecedingHorizon.unflatten N v)) := by
  rw [unflatten, hs.divisions, hs.actionDim]
  exact Tensor.reshape_ofFn v hs.extents

/-- Actions laid out flat are laid out again. -/
theorem unflatten_flat (hs : system.Scaled N k h ζ) (a : ℕ → Fin k → ℝ) :
    system.unflatten (.ofFn (flatten N a)) = .ok (.ofNodes N a) := by
  rw [unflatten_eq hs]
  exact congrArg Except.ok (Tensor.ofNodes_congr fun i hi => unflatten_flatten a hi)

theorem moved_eq (hs : system.Scaled N k h ζ) (a v : ℕ → Fin k → ℝ) :
    system.moved (.ofNodes N a) (.ofNodes N v) = .ok (.ofNodes N (a + h • v)) := by
  rw [moved, Tensor.scaleBy_of_scalar _ hs.differenceStep, ok_bind, Tensor.scale_ofNodes,
    Tensor.plus_ofNodes]

/-- The time one difference step ahead. -/
theorem plus_differenceStep (hs : system.Scaled N k h ζ) (t : ℝ) :
    (Datum.number (.real t)).plus system.differenceStep = .ok (.real (t + h)) := by
  obtain ⟨d, hd, hx⟩ := Datum.asNumber_of_scalar hs.differenceStep
  rw [Datum.plus, hd, ← hx]
  exact Number.combine_real_left _ _ t d

theorem decayed_eq (hs : system.Scaled N k h ζ) :
    system.decayed = .ok (.number (.real (1 - h * ζ))) := by
  obtain ⟨d, hd, hx⟩ := Datum.times_of_scalar hs.differenceStep hs.decayRate
  have hminus : (Number.real (1 : ℝ)).minus d = .ok (.real (1 - h * ζ)) := by
    rw [← hx]
    exact Number.combine_real_left _ _ 1 d
  rw [decayed, hd, ok_bind, hminus, ok_bind]
  rfl

theorem scaled_eq (s : ℝ) (E M : ℕ → Fin n → ℝ) :
    (Defects.mk (.ofNodes (N + 1) E) (.ofNodes (N + 1) M)).scaled (.number (.real s)) =
      .ok ⟨.ofNodes (N + 1) (s • E), .ofNodes (N + 1) (s • M)⟩ := by
  rw [Defects.scaled, Tensor.scaleBy_real, ok_bind, Tensor.scaleBy_real, ok_bind,
    Tensor.scale_ofNodes, Tensor.scale_ofNodes]
  rfl

theorem divideBy_eq {K l : ℕ} (hs : system.Scaled N k h ζ) (F : ℕ → Fin l → ℝ) :
    (Tensor.ofNodes K F).divideBy system.differenceStep = .ok (.ofNodes K (h⁻¹ • F)) := by
  rw [Tensor.divideBy_of_scalar _ hs.differenceStep, Tensor.divide_ofNodes]
  refine congrArg (fun s => Except.ok (Tensor.ofNodes K s)) ?_
  funext i j
  exact div_eq_inv_mul (F i j) h

theorem unguessed_eq (hs : system.Scaled N k h ζ) (F G : ℕ → Fin k → ℝ) :
    system.unguessed (.ofNodes N F) (.ofNodes N G) =
      .ok (.ofNodes N ((h⁻¹ - ζ) • F - h⁻¹ • G)) := by
  obtain ⟨d, hd, hx⟩ := Datum.negate_of_scalar hs.decayRate
  have hscale : (Tensor.ofNodes N F).scaleBy (.number d) = .ok (.ofNodes N (-ζ • F)) := by
    rw [Tensor.scaleBy_of_scalar _ (Datum.scalar_number_toReal d), hx, Tensor.scale_ofNodes]
  rw [unguessed, hd, ok_bind, hscale, ok_bind, Tensor.minus_ofNodes, ok_bind,
    divideBy_eq hs, ok_bind, Tensor.minus_ofNodes, sub_smul, smul_sub, neg_smul]
  refine congrArg (fun s => Except.ok (Tensor.ofNodes N s)) ?_
  abel

theorem guessedResidual_eq (hs : system.Scaled N k h ζ) (F G : ℕ → Fin k → ℝ) :
    system.guessedResidual (.ofNodes N F) (.ofNodes N G) =
      .ok (.ofNodes N ((h⁻¹ - ζ) • F - h⁻¹ • G)) := by
  have hinverse : (Datum.number (.real (1 : ℝ))).quotient system.differenceStep = .ok h⁻¹ := by
    rw [Datum.quotient_of_scalar rfl hs.differenceStep hs.step_pos.ne', one_div]
  obtain ⟨d, hd, hx⟩ := Datum.asNumber_of_scalar hs.decayRate
  have hweight : (Datum.number (.real h⁻¹)).minus system.decayRate = .ok (.real (h⁻¹ - ζ)) := by
    rw [Datum.minus, hd, ← hx]
    exact Number.combine_real_left _ _ h⁻¹ d
  rw [guessedResidual, hinverse, ok_bind, hweight, ok_bind, Tensor.scaleBy_real, ok_bind,
    divideBy_eq hs, ok_bind, Tensor.scale_ofNodes, Tensor.minus_ofNodes]

end Parts

/-! ## The calls -/

section Answered

variable {system : Continuation ℝ} {r : Responses n m c} {h ζ t t' δ δ' : ℝ} {x y : Fin n → ℝ}
variable {a : ℕ → Fin (m + c) → ℝ} {X L E M : ℕ → Fin n → ℝ}

/-- Stationarity and trajectory one difference step ahead. -/
theorem ahead_of (hs : system.Replies r N h ζ)
    (hnext : system.problem.horizon.step t' = .ok δ') (s : Option (Tensor ℝ)) :
    Stateful.runOn (system.ahead (.ofNodes N a))
        (.of N X L t' y (some ⟨.ofNodes (N + 1) E, .ofNodes (N + 1) M⟩) s) =
      (.ok (.ofNodes N (r.condensed t' δ' y a E M N), ⟨.ofNodes (N + 1) (r.states t' δ' y a E),
        .ofNodes (N + 1) (r.costates t' δ' (r.states t' δ' y a E) a M N)⟩),
        .of N X L t' y (some ⟨.ofNodes (N + 1) E, .ofNodes (N + 1) M⟩) s) := by
  simp only [Continuation.ahead, Stateful.runOn_bind, Stateful.runOn_get, Stateful.runOn_needed,
    Stateful.runOn_liftM, Memory.of]
  rw [Problem.condensedStationarity_eq hs.model hs.room hnext]

/-- The residual of a guess, be it zero or not. -/
theorem residual_of (hs : system.Replies r N h ζ)
    (hnow : system.problem.horizon.step t = .ok δ)
    (hnext : system.problem.horizon.step t' = .ok δ') (D : Option (Defects ℝ))
    (s : Option (Tensor ℝ)) (hE : E = (1 - h * ζ) • r.stateDefects t δ x a X)
    (hM : M = (1 - h * ζ) • r.costateDefects t δ a X L N) (v : Fin (N * (m + c)) → ℝ) :
    Stateful.runOn (system.residual t (.ofFn x) (.ofFn (flatten N a)) (.ofFn v))
        (.of N X L t' y D s) =
      (.ok (.ofFn (flatten N ((h⁻¹ - ζ) • r.stationarity t δ x a X L -
          h⁻¹ • r.condensed t' δ' y (a + h • RecedingHorizon.unflatten N v) E M N))),
        .of N X L t' y (some ⟨.ofNodes (N + 1) E, .ofNodes (N + 1) M⟩)
          (some (.ofNodes N (r.condensed t' δ' y a E M N)))) := by
  have hpresent := Problem.residual_eq hs.model hs.room hnow x a X L
  have hfirst := ahead_of (X := X) (L := L) (y := y) (a := a) (E := E) (M := M) hs hnext s
  have hguess := ahead_of (X := X) (L := L) (y := y) (E := E) (M := M)
    (a := a + h • RecedingHorizon.unflatten N v) hs hnext
    (some (.ofNodes N (r.condensed t' δ' y a E M N)))
  simp only [Memory.of] at hfirst hguess ⊢
  simp only [Continuation.residual, Stateful.runOn_bind, Stateful.runOn_get,
    Stateful.runOn_needed, Stateful.runOn_liftM, Stateful.runOn_modify, unflatten_flat hs.toScaled,
    hpresent, decayed_eq hs.toScaled, scaled_eq, ← hE, ← hM, hfirst]
  by_cases hv : (Tensor.ofFn v).isZero = true
  · obtain rfl := Tensor.isZero_ofFn.1 hv
    have hstill : a + h • RecedingHorizon.unflatten N 0 = a := by
      rw [unflatten_zero, smul_zero, add_zero]
    rw [if_pos hv, hstill]
    simp only [Stateful.runOn_bind, Stateful.runOn_liftM, unguessed_eq hs.toScaled,
      Tensor.flat_ofNodes]
    rfl
  · rw [if_neg hv]
    simp only [Stateful.runOn_bind, Stateful.runOn_liftM, unflatten_eq hs.toScaled,
      moved_eq hs.toScaled, hguess, guessedResidual_eq hs.toScaled, Tensor.flat_ofNodes]
    rfl

/-- The image of a direction, once the residual has been asked for. -/
theorem image_of (hs : system.Replies r N h ζ)
    (hnext : system.problem.horizon.step t' = .ok δ') (v : ℕ → Fin (m + c) → ℝ) :
    Stateful.runOn (system.image (.ofFn (flatten N a)) (.ofFn (flatten N v)))
        (.of N X L t' y (some ⟨.ofNodes (N + 1) E, .ofNodes (N + 1) M⟩)
          (some (.ofNodes N (r.condensed t' δ' y a E M N)))) =
      (.ok (.ofFn (flatten N (h⁻¹ • (r.condensed t' δ' y (a + h • v) E M N -
          r.condensed t' δ' y a E M N)))),
        .of N X L t' y (some ⟨.ofNodes (N + 1) E, .ofNodes (N + 1) M⟩)
          (some (.ofNodes N (r.condensed t' δ' y a E M N)))) := by
  have hahead := ahead_of (X := X) (L := L) (y := y) (E := E) (M := M) (a := a + h • v) hs hnext
    (some (.ofNodes N (r.condensed t' δ' y a E M N)))
  simp only [Memory.of] at hahead ⊢
  simp only [Continuation.image, Stateful.runOn_bind, Stateful.runOn_get, Stateful.runOn_needed,
    Stateful.runOn_liftM, unflatten_flat hs.toScaled, moved_eq hs.toScaled, hahead,
    Tensor.minus_ofNodes, divideBy_eq hs.toScaled, Tensor.flat_ofNodes]
  rfl

/-- The image of a direction that is given flat, once the residual has been asked for. -/
theorem image_of_flat (hs : system.Replies r N h ζ)
    (hnext : system.problem.horizon.step t' = .ok δ') (v : Fin (N * (m + c)) → ℝ) :
    Stateful.runOn (system.image (.ofFn (flatten N a)) (.ofFn v))
        (.of N X L t' y (some ⟨.ofNodes (N + 1) E, .ofNodes (N + 1) M⟩)
          (some (.ofNodes N (r.condensed t' δ' y a E M N)))) =
      (.ok (.ofFn (flatten N (h⁻¹ • (r.condensed t' δ' y
          (a + h • RecedingHorizon.unflatten N v) E M N - r.condensed t' δ' y a E M N)))),
        .of N X L t' y (some ⟨.ofNodes (N + 1) E, .ofNodes (N + 1) M⟩)
          (some (.ofNodes N (r.condensed t' δ' y a E M N)))) := by
  have himage := image_of (X := X) (L := L) (y := y) (a := a) (E := E) (M := M) hs hnext
    (RecedingHorizon.unflatten N v)
  rwa [flatten_unflatten] at himage

/-- The rate of change of the trajectory, once the residual has been asked for. -/
theorem trajectoryRate_of (hs : system.Replies r N h ζ)
    (hnext : system.problem.horizon.step t' = .ok δ') (s : Option (Tensor ℝ))
    (v : ℕ → Fin (m + c) → ℝ) :
    Stateful.runOn (system.trajectoryRate (.ofNodes N a) (.ofNodes N v))
        (.of N X L t' y (some ⟨.ofNodes (N + 1) E, .ofNodes (N + 1) M⟩) s) =
      (.ok ⟨.ofNodes (N + 1) (h⁻¹ • (r.states t' δ' y (a + h • v) E - X)),
          .ofNodes (N + 1) (h⁻¹ • (r.costates t' δ' (r.states t' δ' y (a + h • v) E) (a + h • v)
            M N - L))⟩,
        .of N X L t' y (some ⟨.ofNodes (N + 1) E, .ofNodes (N + 1) M⟩) s) := by
  have hahead := ahead_of (X := X) (L := L) (y := y) (E := E) (M := M) (a := a + h • v) hs hnext s
  simp only [Memory.of] at hahead ⊢
  simp only [Continuation.trajectoryRate, Stateful.runOn_bind, Stateful.runOn_get,
    Stateful.runOn_needed, Stateful.runOn_liftM, moved_eq hs.toScaled, hahead,
    Tensor.minus_ofNodes, divideBy_eq hs.toScaled]
  rfl

/-- The state predicted one difference step ahead, which on a horizon without steps is the state
itself. -/
def predicted (r : Responses n m c) (N : ℕ) (h t : ℝ) (x : Fin n → ℝ)
    (a : ℕ → Fin (m + c) → ℝ) : Fin n → ℝ :=
  if N = 0 then x else x + h • r.dynamics x (control (a 0)) t

/-- Setting the point leaves the state that is predicted. -/
theorem prepare_of (hs : system.Replies r N h ζ) (before : Memory ℝ) :
    Stateful.runOn (system.prepare t (.ofFn x) (.ofNodes N a)
        ⟨.ofNodes (N + 1) X, .ofNodes (N + 1) L⟩) before =
      (.ok (), .of N X L (t + h) (predicted r N h t x a) before.defects before.stationarity) := by
  simp only [prepare, Stateful.runOn_bind, Stateful.runOn_modify, Stateful.runOn_liftM,
    plus_differenceStep hs.toScaled, Tensor.count_ofNodes]
  by_cases hN : N = 0
  · rw [if_pos hN, predicted, if_pos hN]
    rfl
  · rw [if_neg hN, predicted, if_neg hN]
    simp only [Stateful.runOn_bind, Stateful.runOn_modify, Stateful.runOn_liftM,
      Tensor.item_ofNodes _ (Nat.pos_of_ne_zero hN), hs.model.control, hs.model.dynamics,
      Tensor.scaleBy_of_scalar _ hs.differenceStep, Tensor.scale_ofFn, Tensor.plus_ofFn]
    rfl

end Answered

section Calls

variable {system : Continuation ℝ} {r : Responses n m c} {h ζ : ℝ} (p : Point n m c)

/-- Setting the point leaves the memory of the point. -/
theorem prepare_eq (hs : system.Answers r N h ζ) (before : Memory ℝ) :
    Stateful.runOn (system.prepare p.time (.ofFn p.state) (.ofNodes N p.actions) (p.trajectory N))
      before = (.ok (), p.set r N h before) := by
  have h := prepare_of (t := p.time) (x := p.state) (a := p.actions) (X := p.states)
    (L := p.costates) hs.replies before
  rwa [predicted, if_neg hs.steps_pos.ne'] at h

/-- The residual of a guess, be it zero or not. -/
theorem residual_eq (hs : system.Answers r N h ζ) (before : Memory ℝ)
    (hnow : system.problem.horizon.step p.time = .ok p.δ)
    (hnext : system.problem.horizon.step (p.time + h) = .ok p.δ') (v : Fin (N * (m + c)) → ℝ) :
    Stateful.runOn
        (system.residual p.time (.ofFn p.state) (.ofFn (flatten N p.actions)) (.ofFn v))
        (p.set r N h before) =
      (.ok (.ofFn (flatten N (p.remaining r N h ζ (RecedingHorizon.unflatten N v)))),
        p.asked r N h ζ) :=
  residual_of hs.replies hnow hnext before.defects before.stationarity rfl rfl v

/-- The image of a direction, once the residual has been asked for. -/
theorem image_eq (hs : system.Answers r N h ζ)
    (hnext : system.problem.horizon.step (p.time + h) = .ok p.δ') (v : ℕ → Fin (m + c) → ℝ) :
    Stateful.runOn (system.image (.ofFn (flatten N p.actions)) (.ofFn (flatten N v)))
        (p.asked r N h ζ) =
      (.ok (.ofFn (flatten N (p.image r N h ζ v))), p.asked r N h ζ) :=
  image_of hs.replies hnext v

/-- The residual that a direction leaves, asked of a new system: the residual without a
guess, less the image of the direction. -/
def leftover {α : Type} [Scalar α] (system : Continuation α) (t : Datum α) (x actions : Tensor α)
    (trajectory : Trajectory α) (direction : Tensor α) : Stateful (Memory α) α (Tensor α) := do
  system.prepare t x actions trajectory
  let constant ← system.residual t x actions.flat (.zeros actions.flat.shape)
  constant.minus (← system.image actions.flat direction.flat)

theorem leftover_eq (hs : system.Answers r N h ζ)
    (hnow : system.problem.horizon.step p.time = .ok p.δ)
    (hnext : system.problem.horizon.step (p.time + h) = .ok p.δ') (v : ℕ → Fin (m + c) → ℝ) :
    Stateful.runOn (system.leftover p.time (.ofFn p.state) (.ofNodes N p.actions)
        (p.trajectory N) (.ofNodes N v)) Memory.blank =
      (.ok (.ofFn (flatten N (p.remaining r N h ζ v))), p.asked r N h ζ) := by
  have hconstant := residual_eq p hs Memory.blank hnow hnext 0
  have hzeros : Tensor.zeros (Tensor.ofFn (flatten N p.actions)).shape =
      .ofFn (0 : Fin (N * (m + c)) → ℝ) := by
    rw [Tensor.shape_ofFn]
    exact Tensor.zeros_eq_ofFn
  rw [unflatten_zero] at hconstant
  simp only [leftover, Stateful.runOn_bind, prepare_eq p hs, Tensor.flat_ofNodes, hzeros, hconstant,
    image_eq p hs hnext, Stateful.runOn_liftM, Tensor.minus_ofFn, p.remaining_eq_sub r N h ζ v]
  rfl

end Calls

end Continuation

end RecedingHorizon

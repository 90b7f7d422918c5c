import RecedingHorizon.Proofs.Nodes
import RecedingHorizon.Residual

/-!
# What is read past node zero

The first rows of a stored trajectory are never asked for.  The state there is the
current one and stands in its place, and no equation leads to the costate there; the
first rows of prescribed defects go the same way.  So two arrays that agree past node
zero are as good as one another wherever there is a step: the stationarity, the
defects and the trajectory with prescribed defects are the same, and so are the faults
if there are any.

* `Tensor.AgreePast`: arrays that differ at node zero at most.
* `Model.condense_congr`, `Model.stationarity_congr`, `Model.shootingDefects_congr`,
  `Problem.residual_congr`: what is computed from such arrays is the same.
-/

namespace RecedingHorizon

namespace Recurrence

variable {ε β : Type}

theorem continued_congr {step step' : Nat → β → Except ε β} {left i : Nat} {b : β}
    {found : List β} (h : ∀ j, i ≤ j → j < i + left → ∀ b, step j b = step' j b) :
    continued step left i b found = continued step' left i b found := by
  induction left generalizing i b found with
  | zero => rfl
  | succ left ih =>
      rw [continued, continued, h i (Nat.le_refl i) (by omega) b]
      rcases step' i b with e | next
      · rfl
      · exact ih fun j hle hlt => h j (by omega) (by omega)

/-- A run depends on those of its steps that are taken, and on no others. -/
theorem run_congr {step step' : Nat → β → Except ε β} {n : Nat} {b : β}
    (h : ∀ i < n, ∀ b, step i b = step' i b) : run step n b = run step' n b :=
  continued_congr fun i _ hi => h i (by omega)

theorem collectFrom_congr {f g : Nat → Except ε β} {left i : Nat} {found : List β}
    (h : ∀ j, i ≤ j → j < i + left → f j = g j) :
    collectFrom f left i found = collectFrom g left i found := by
  induction left generalizing i found with
  | zero => rfl
  | succ left ih =>
      rw [collectFrom, collectFrom, h i (Nat.le_refl i) (by omega)]
      rcases g i with e | b
      · rfl
      · exact ih fun j hle hlt => h j (by omega) (by omega)

/-- What is collected depends on the values at its places, and on no others. -/
theorem collect_congr {f g : Nat → Except ε β} {n : Nat} (h : ∀ i < n, f i = g i) :
    collect f n = collect g n :=
  collectFrom_congr fun i _ hi => h i (by omega)

end Recurrence

variable {α : Type}

/-- The arrays have one shape, and they differ at node zero at most. -/
structure Tensor.AgreePast (a b : Tensor α) : Prop where
  shape : a.shape = b.shape
  item : ∀ i, 0 < i → a.item i = b.item i

namespace Tensor.AgreePast

variable {a b : Tensor α}

theorem refl (a : Tensor α) : a.AgreePast a := ⟨rfl, fun _ _ => rfl⟩

theorem symm (h : a.AgreePast b) : b.AgreePast a :=
  ⟨h.shape.symm, fun i hi => (h.item i hi).symm⟩

theorem count (h : a.AgreePast b) : a.count = b.count := by
  rw [Tensor.count, Tensor.count, h.shape]

theorem node (h : a.AgreePast b) {i : Nat} (hi : 0 < i) : a.path.node i = b.path.node i := by
  rw [Path.node_path, Path.node_path, h.item i hi]

/-- An array of nodes with its first row exchanged. -/
theorem update_ofNodes {n N : Nat} (s : Nat → Fin n → α) (v : Fin n → α) :
    (ofNodes N (Function.update s 0 v)).AgreePast (ofNodes N s) := by
  refine ⟨by rw [shape_ofNodes, shape_ofNodes], fun i hi => ?_⟩
  by_cases hlt : i < N
  · rw [item_ofNodes _ hlt, item_ofNodes _ hlt, Function.update_of_ne hi.ne']
  · have hle : N ≤ i := Nat.le_of_not_lt hlt
    rw [item_ofNodes_of_le _ hle, item_ofNodes_of_le _ hle]

end Tensor.AgreePast

/-- The trajectories agree past node zero. -/
structure Trajectory.AgreePast (trajectory trajectory' : Trajectory α) : Prop where
  states : trajectory.states.AgreePast trajectory'.states
  costates : trajectory.costates.AgreePast trajectory'.costates

/-- The defects agree past node zero. -/
structure Defects.AgreePast (defects defects' : Defects α) : Prop where
  states : defects.states.AgreePast defects'.states
  costates : defects.costates.AgreePast defects'.costates

variable [Scalar α]

namespace Model

variable {model : Model α} {t δ : Datum α} {x actions : Tensor α}

/-! ## Prescribed defects -/

theorem shootStates_congr {E E' : Tensor α} (h : E.AgreePast E') :
    model.shootStates t x actions δ (some E) = model.shootStates t x actions δ (some E') := by
  have hstep {n : Nat} : model.nextState (n := n) t δ actions.path (some E.path) =
      model.nextState t δ actions.path (some E'.path) := by
    funext i r
    simp only [nextState, addDefect, h.node (Nat.succ_pos i)]
  simp only [shootStates, Option.map_some, hstep]

theorem shootCostates_congr {M M' states : Tensor α} (h : M.AgreePast M')
    (hsteps : actions.count ≠ .ok 0) :
    model.shootCostates t states actions δ (some M) =
      model.shootCostates t states actions δ (some M') := by
  have hprevious {shape : List Nat} (i : Nat) (next : Row α shape) :
      model.previousCostate t δ states.path actions.path (some M.path) i next =
        model.previousCostate t δ states.path actions.path (some M'.path) i next := by
    rcases Nat.eq_zero_or_pos i with rfl | hi
    · simp only [previousCostate, if_true]
    · simp only [previousCostate, addDefect, h.node hi]
  rcases hcount : actions.count with e | steps
  · rw [shootCostates, shootCostates, hcount]
    rfl
  · have hpos : 0 < steps := Nat.pos_of_ne_zero fun h0 => hsteps (by rw [hcount, h0])
    have hterminal {shape : List Nat} :
        model.terminalCostate t δ states.path (some M.path) shape steps =
          model.terminalCostate t δ states.path (some M'.path) shape steps := by
      simp only [terminalCostate, addDefect, h.node hpos]
    simp only [shootCostates, hcount, ok_bind, Option.map_some, hterminal, hprevious]

/-- A trajectory has nothing of the defects prescribed at node zero. -/
theorem condense_congr {D D' : Defects α} (h : D.AgreePast D') (hsteps : actions.count ≠ .ok 0) :
    model.condense t x actions δ (some D) = model.condense t x actions δ (some D') := by
  simp only [condense, Option.map_some, shootStates_congr h.states,
    shootCostates_congr h.costates hsteps]

/-! ## Stored trajectories -/

omit [Scalar α] in
theorem stateAt_congr {X X' : Tensor α} (h : X.AgreePast X') (i : Nat) :
    stateAt x X.path i = stateAt x X'.path i := by
  rcases Nat.eq_zero_or_pos i with rfl | hi
  · rfl
  · rw [stateAt, stateAt, if_neg (Nat.ne_of_gt hi), if_neg (Nat.ne_of_gt hi), h.node hi]

/-- The stationarity looks at nothing stored at node zero. -/
theorem stationarity_congr {trajectory trajectory' : Trajectory α}
    (h : trajectory.AgreePast trajectory') :
    model.stationarity t x actions trajectory δ = model.stationarity t x actions trajectory' δ := by
  have hgradient (i : Nat) :
      model.stationarityAt t x actions.path trajectory.states.path trajectory.costates.path δ i =
        model.stationarityAt t x actions.path trajectory'.states.path trajectory'.costates.path
          δ i := by
    simp only [stationarityAt, stateAt_congr h.states, h.costates.node (Nat.succ_pos i)]
  simp only [stationarity, hgradient]

theorem stateDefects_congr {X X' : Tensor α} (h : X.AgreePast X') :
    model.stateDefects t x actions X δ = model.stateDefects t x actions X' δ := by
  have hdefect (i : Nat) : model.stateDefect t x actions.path X.path δ i =
      model.stateDefect t x actions.path X'.path δ i := by
    simp only [stateDefect, stateAt_congr h, h.node (Nat.succ_pos i)]
  simp only [stateDefects, hdefect]

theorem costateDefects_congr {X X' L L' : Tensor α} (hX : X.AgreePast X') (hL : L.AgreePast L')
    (hsteps : actions.count ≠ .ok 0) :
    model.costateDefects t actions X L δ = model.costateDefects t actions X' L' δ := by
  rcases hcount : actions.count with e | steps
  · rw [costateDefects, costateDefects, hcount]
    rfl
  · have hpos : 0 < steps := Nat.pos_of_ne_zero fun h0 => hsteps (by rw [hcount, h0])
    have hterminal : model.terminalDefect t X.path L.path δ steps =
        model.terminalDefect t X'.path L'.path δ steps := by
      simp only [terminalDefect, hX.node hpos, hL.node hpos]
    have hbetween {shape : List Nat} :
        Recurrence.collect (fun j => do
            (← model.costateDefect t actions.path X.path L.path δ (steps - 1 - j)).spread shape)
          (steps - 1) =
        Recurrence.collect (fun j => do
            (← model.costateDefect t actions.path X'.path L'.path δ (steps - 1 - j)).spread shape)
          (steps - 1) := by
      refine Recurrence.collect_congr fun j hj => ?_
      have hi : 0 < steps - 1 - j := by omega
      simp only [costateDefect, hX.node hi, hL.node hi, hL.node (Nat.succ_pos _)]
    have hshape := hL.shape
    simp only [costateDefects, hcount, ok_bind, hL.count, hterminal, hbetween]
    generalize L.shape = shape at hshape
    subst hshape
    rfl

/-- The defects of a trajectory have nothing of what it holds at node zero. -/
theorem shootingDefects_congr {trajectory trajectory' : Trajectory α}
    (h : trajectory.AgreePast trajectory') (hsteps : actions.count ≠ .ok 0) :
    model.shootingDefects t x actions trajectory δ =
      model.shootingDefects t x actions trajectory' δ := by
  simp only [shootingDefects, stateDefects_congr h.states,
    costateDefects_congr h.states h.costates hsteps]

end Model

/-- The residual of a trajectory has nothing of what it holds at node zero. -/
theorem Problem.residual_congr {problem : Problem α} {t : Datum α} {x actions : Tensor α}
    {trajectory trajectory' : Trajectory α} (h : trajectory.AgreePast trajectory')
    (hsteps : actions.count ≠ .ok 0) :
    problem.residual t x actions trajectory = problem.residual t x actions trajectory' := by
  simp only [residual, Model.stationarity_congr h, Model.shootingDefects_congr h hsteps]

end RecedingHorizon

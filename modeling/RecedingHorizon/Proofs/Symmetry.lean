import RecedingHorizon.Residual
import RecedingHorizon.Proofs.Mapped
import RecedingHorizon.Proofs.Tally

/-!
# Symmetries of a model and of its residual

Two things may be changed of everything that a controller is told: all arrays may be multiplied by
a sign, and all times may be told by another clock.  A model has the symmetry if its functions
answer accordingly.  The functions that walk along a horizon then do, one after the other,
since none of them looks at an array except by operations that are linear in it, and none looks at a
time except by adding to it and by the length of the horizon.

The faults need not be the same, as some quote a time or an array.  They are related, and each
fault is related to itself.

* `Symmetry`, `Model.Symmetric`: the sign and the clocks, and a model that has the symmetry.
* `Model.Symmetric.shootStates`, `condense`, `shootingDefects`, `stationarity`: the arrays of a
  horizon.
* `Problem.residual_symmetric`, `Problem.condensedStationarity_symmetric`.
-/

namespace RecedingHorizon

open Stateful

/-- The second array is the first one multiplied. -/
abbrev Tensor.Signed (σ : ℝ) (a a' : Tensor ℝ) : Prop := a' = a.scale σ

/-- The second row is the first one multiplied. -/
abbrev Row.Signed (σ : ℝ) {shape : List ℕ} (r r' : Row ℝ shape) : Prop := r' = r.map (σ * ·)

/-- A trajectory, its defects or a residual with all arrays multiplied. -/
def Trajectory.scale {α : Type} [Scalar α] (σ : α) (p : Trajectory α) : Trajectory α :=
  ⟨p.states.scale σ, p.costates.scale σ⟩

@[inherit_doc Trajectory.scale]
def Defects.scale {α : Type} [Scalar α] (σ : α) (d : Defects α) : Defects α :=
  ⟨d.states.scale σ, d.costates.scale σ⟩

@[inherit_doc Trajectory.scale]
def Residual.scale {α : Type} [Scalar α] (σ : α) (r : Residual α) : Residual α :=
  ⟨r.stationarity.scale σ, r.defects.scale σ⟩

abbrev Trajectory.Signed (σ : ℝ) (p p' : Trajectory ℝ) : Prop := p' = p.scale σ

abbrev Defects.Signed (σ : ℝ) (d d' : Defects ℝ) : Prop := d' = d.scale σ

abbrev Residual.Signed (σ : ℝ) (r r' : Residual ℝ) : Prop := r' = r.scale σ

/-- The norm of a residual does not see a sign. -/
theorem Residual.norm_scale {σ : ℝ} (hσ : IsSign σ) (r : Residual ℝ) :
    (r.scale σ).norm = r.norm := by
  have h (a : Tensor ℝ) : Vec.sumSquares (a.scale σ).entries = Vec.sumSquares a.entries :=
    hσ.sumSquares_scale a.entries
  simp only [Residual.norm, Residual.scale, Defects.scale, Defects.squaredNorm, h]

/-- A sign, and two clocks with the times they show together, as far as the solver depends on
them. -/
structure Symmetry (σ : ℝ) (T : Datum ℝ → Datum ℝ → Prop) (E : Fault ℝ → Fault ℝ → Prop) :
    Prop where
  sign : IsSign σ
  fault : ∀ e, E e e
  unconverged : ∀ attempt : Attempt ℝ, E (.unconverged attempt)
    (.unconverged { attempt with solution := Vec.scale σ attempt.solution })
  plus : ∀ {t t' : Datum ℝ}, T t t' → ∀ d,
    Tally E (fun k k' => T (.number k) (.number k')) (t.plus d) (t'.plus d)
  step : ∀ {t t' start start' : Datum ℝ}, T t t' → T start start' → ∀ length rate divisions,
    Tally E Eq (Horizon.step ⟨length, rate, divisions, start⟩ t)
      (Horizon.step ⟨length, rate, divisions, start'⟩ t')

/-- A model whose functions answer arrays that are multiplied, at a time by the other clock, with
what they answer multiplied. -/
structure Model.Symmetric (model : Model ℝ) (σ : ℝ) (T : Datum ℝ → Datum ℝ → Prop)
    (E : Fault ℝ → Fault ℝ → Prop) : Prop where
  dynamics : ∀ {t t'}, T t t' → ∀ x u, Tally E (Tensor.Signed σ) (model.dynamics x u t)
    (model.dynamics (x.scale σ) (u.scale σ) t')
  terminalGradient : ∀ {t t'}, T t t' → ∀ x, Tally E (Tensor.Signed σ)
    (model.terminalGradient x t) (model.terminalGradient (x.scale σ) t')
  stateGradient : ∀ {t t'}, T t t' → ∀ x u l, Tally E (Tensor.Signed σ)
    (model.stateGradient x u l t) (model.stateGradient (x.scale σ) (u.scale σ) (l.scale σ) t')
  controlGradient : ∀ {t t'}, T t t' → ∀ x u l, Tally E (Tensor.Signed σ)
    (model.controlGradient x u l t)
    (model.controlGradient (x.scale σ) (u.scale σ) (l.scale σ) t')

variable {σ : ℝ} {T : Datum ℝ → Datum ℝ → Prop} {E : Fault ℝ → Fault ℝ → Prop}
  {model : Model ℝ} {t t' δ τ τ' : Datum ℝ}

/-! ## Nodes -/

namespace Symmetry

variable (hs : Symmetry σ T E)

include hs

theorem nodeTime (ht : T t t') (δ : Datum ℝ) (i : ℕ) :
    Tally E T (nodeTime t δ i) (nodeTime t' δ i) :=
  .same_bind hs.fault _ fun k _ => (hs.plus ht (.number k)).bind fun _ _ h => .ok h

theorem node (a : Tensor ℝ) (i : ℕ) :
    Tally E (Tensor.Signed σ) (a.path.node i) ((a.scale σ).path.node i) := by
  rw [Path.node_path, Path.node_path]
  exact .of_map hs.fault (Tensor.item_map _ a i)

theorem control (model : Model ℝ) (u : Tensor ℝ) :
    Tally E (Tensor.Signed σ) (model.control u) (model.control (u.scale σ)) :=
  .of_map hs.fault (Tensor.front_map _ _ u)

theorem scaleBy (d : Datum ℝ) (a : Tensor ℝ) :
    Tally E (Tensor.Signed σ) (a.scaleBy d) ((a.scale σ).scaleBy d) :=
  .of_map hs.fault (Tensor.scaleBy_scale σ a d)

theorem divideBy (d : Datum ℝ) (a : Tensor ℝ) :
    Tally E (Tensor.Signed σ) (a.divideBy d) ((a.scale σ).divideBy d) :=
  .of_map hs.fault (Tensor.divideBy_scale σ a d)

theorem plusArray (a b : Tensor ℝ) :
    Tally E (Tensor.Signed σ) (a.plus b) ((a.scale σ).plus (b.scale σ)) :=
  .of_map hs.fault (Tensor.plus_scale σ a b)

theorem minusArray (a b : Tensor ℝ) :
    Tally E (Tensor.Signed σ) (a.minus b) ((a.scale σ).minus (b.scale σ)) :=
  .of_map hs.fault (Tensor.minus_scale σ a b)

theorem increase (a b : Tensor ℝ) :
    Tally E (Tensor.Signed σ) (a.increase b) ((a.scale σ).increase (b.scale σ)) :=
  .of_map hs.fault (Tensor.increase_scale σ a b)

theorem spread (shape : List ℕ) (a : Tensor ℝ) :
    Tally E (Row.Signed σ) (a.spread shape) ((a.scale σ).spread shape) :=
  .of_map hs.fault (Tensor.spread_map (mul_zero σ) shape a)

theorem addDefect {shape : List ℕ} (prescribed : Option (Tensor ℝ)) (i : ℕ) (r : Row ℝ shape) :
    Tally E (Row.Signed σ)
      (addDefect (prescribed.map Tensor.path) i r)
      (RecedingHorizon.addDefect ((prescribed.map (Tensor.scale σ)).map Tensor.path) i
        (r.map (σ * ·))) := by
  cases prescribed with
  | none => exact .ok rfl
  | some p =>
      refine (hs.node p i).bind ?_
      rintro d _ rfl
      exact .of_map hs.fault (Tensor.increase_row_scale σ d r)

omit hs in
/-- Rows that are multiplied make up an array that is. -/
theorem ofRows {shape : List ℕ} {rows rows' : List (Row ℝ shape)}
    (h : List.Forall₂ (Row.Signed σ) rows rows') :
    Tensor.Signed σ (.ofRows rows) (.ofRows rows') := Tensor.ofRows_map _ h

omit hs in
theorem zeroRow (σ : ℝ) (shape : List ℕ) :
    (Tensor.zeros shape : Tensor ℝ).row = Row.map (σ * ·) (Tensor.zeros shape).row :=
  Subtype.ext (Tensor.zeros_map (mul_zero σ) shape).symm

omit hs in
theorem zeroRows (σ : ℝ) (count : ℕ) (shape : List ℕ) :
    List.Forall₂ (Row.Signed σ) (zeroRows (α := ℝ) count shape)
      (RecedingHorizon.zeroRows count shape) := by
  induction count with
  | zero => exact .nil
  | succ count ih => exact .cons (zeroRow σ shape) ih

end Symmetry

/-! ## Shooting -/

namespace Model.Symmetric

variable (hs : Symmetry σ T E) (hm : model.Symmetric σ T E)

include hs hm

theorem stateIncrement (hτ : T τ τ') (x u : Tensor ℝ) (δ : Datum ℝ) :
    Tally E (Tensor.Signed σ) (model.stateIncrement x u τ δ)
      (model.stateIncrement (x.scale σ) (u.scale σ) τ' δ) := by
  refine (hs.control model u).bind ?_
  rintro v _ rfl
  refine (hm.dynamics hτ x v).bind ?_
  rintro rate _ rfl
  exact hs.scaleBy δ rate

theorem nextState (ht : T t t') (δ : Datum ℝ) (u : Tensor ℝ) (prescribed : Option (Tensor ℝ))
    {n : ℕ} (i : ℕ) (x : Row ℝ [n]) :
    Tally E (Row.Signed σ)
      (model.nextState t δ u.path (prescribed.map Tensor.path) i x)
      (model.nextState t' δ (u.scale σ).path
        ((prescribed.map (Tensor.scale σ)).map Tensor.path) i (x.map (σ * ·))) := by
  refine (hs.nodeTime ht δ i).bind fun τ τ' hτ => ?_
  refine (hs.node u i).bind ?_
  rintro v _ rfl
  refine (hm.stateIncrement hs hτ x.1 v δ).bind ?_
  rintro increment _ rfl
  refine (hs.plusArray x.1 increment).bind ?_
  rintro next _ rfl
  refine (hs.spread [n] next).bind ?_
  rintro row _ rfl
  exact hs.addDefect prescribed (i + 1) row

theorem shootStates (ht : T t t') (x u : Tensor ℝ) (δ : Datum ℝ)
    (prescribed : Option (Tensor ℝ)) :
    Tally E (Tensor.Signed σ) (model.shootStates t x u δ prescribed)
      (model.shootStates t' (x.scale σ) (u.scale σ) δ (prescribed.map (Tensor.scale σ))) := by
  refine .same_bind hs.fault u.count fun steps _ => ?_
  refine .same_bind hs.fault x.count fun n _ => ?_
  refine .same_bind hs.fault _ fun _ _ => ?_
  refine (hs.spread [n] x).bind ?_
  rintro first _ rfl
  refine (Recurrence.run_tally (Q := Row.Signed σ) (fun i r r' hr => ?_) steps rfl).bind
    fun rows rows' hrows => .ok (Symmetry.ofRows hrows)
  subst hr
  exact hm.nextState hs ht δ u prescribed i r

omit hm in
theorem stateAt (x states : Tensor ℝ) (i : ℕ) :
    Tally E (Tensor.Signed σ) (stateAt x states.path i)
      (Model.stateAt (x.scale σ) (states.scale σ).path i) := by
  unfold Model.stateAt
  split
  · exact .ok rfl
  · exact hs.node states i

theorem stateDefect (ht : T t t') (x u states : Tensor ℝ) (δ : Datum ℝ) (i : ℕ) :
    Tally E (Tensor.Signed σ) (model.stateDefect t x u.path states.path δ i)
      (model.stateDefect t' (x.scale σ) (u.scale σ).path (states.scale σ).path δ i) := by
  refine (hs.nodeTime ht δ i).bind fun τ τ' hτ => ?_
  refine (hs.node states (i + 1)).bind ?_
  rintro next _ rfl
  refine (stateAt hs x states i).bind ?_
  rintro here _ rfl
  refine (hs.minusArray next here).bind ?_
  rintro change _ rfl
  refine (hs.node u i).bind ?_
  rintro v _ rfl
  refine (hm.stateIncrement hs hτ here v δ).bind ?_
  rintro increment _ rfl
  exact hs.minusArray change increment

theorem stateDefects (ht : T t t') (x u states : Tensor ℝ) (δ : Datum ℝ) :
    Tally E (Tensor.Signed σ) (model.stateDefects t x u states δ)
      (model.stateDefects t' (x.scale σ) (u.scale σ) (states.scale σ) δ) := by
  refine .same_bind hs.fault u.count fun steps _ => ?_
  refine .same_bind hs.fault x.count fun n _ => ?_
  refine .same_bind hs.fault _ fun _ _ => ?_
  refine (Recurrence.collect_tally (Q := Row.Signed σ) (fun i => ?_) steps).bind
    fun rows rows' hrows => .ok (Symmetry.ofRows (.cons (Symmetry.zeroRow σ [n]) hrows))
  refine (hm.stateDefect hs ht x u states δ i).bind ?_
  rintro defect _ rfl
  exact hs.spread [n] defect

theorem costateIncrement (hτ : T τ τ') (x u next : Tensor ℝ) (δ : Datum ℝ) :
    Tally E (Tensor.Signed σ) (model.costateIncrement x u next τ δ)
      (model.costateIncrement (x.scale σ) (u.scale σ) (next.scale σ) τ' δ) := by
  refine (hm.stateGradient hτ x u next).bind ?_
  rintro gradient _ rfl
  exact hs.scaleBy δ gradient

theorem terminalCostate (ht : T t t') (δ : Datum ℝ) (states : Tensor ℝ)
    (prescribed : Option (Tensor ℝ)) (shape : List ℕ) (i : ℕ) :
    Tally E (Row.Signed σ)
      (model.terminalCostate t δ states.path (prescribed.map Tensor.path) shape i)
      (model.terminalCostate t' δ (states.scale σ).path
        ((prescribed.map (Tensor.scale σ)).map Tensor.path) shape i) := by
  refine (hs.node states i).bind ?_
  rintro state _ rfl
  refine (hs.nodeTime ht δ i).bind fun τ τ' hτ => ?_
  refine (hm.terminalGradient hτ state).bind ?_
  rintro final _ rfl
  refine (hs.spread shape final).bind ?_
  rintro row _ rfl
  exact hs.addDefect prescribed i row

theorem previousCostate (ht : T t t') (δ : Datum ℝ) (states u : Tensor ℝ)
    (prescribed : Option (Tensor ℝ)) {shape : List ℕ} (i : ℕ) (next : Row ℝ shape) :
    Tally E (Row.Signed σ)
      (model.previousCostate t δ states.path u.path (prescribed.map Tensor.path) i next)
      (model.previousCostate t' δ (states.scale σ).path (u.scale σ).path
        ((prescribed.map (Tensor.scale σ)).map Tensor.path) i (next.map (σ * ·))) := by
  refine (hs.nodeTime ht δ i).bind fun τ τ' hτ => ?_
  refine (hs.node states i).bind ?_
  rintro state _ rfl
  refine (hs.node u i).bind ?_
  rintro v _ rfl
  refine (hm.costateIncrement hs hτ state v next.1 δ).bind ?_
  rintro increment _ rfl
  refine (hs.plusArray next.1 increment).bind ?_
  rintro here _ rfl
  refine (hs.spread shape here).bind ?_
  rintro row _ rfl
  by_cases hi : i = 0
  · rw [if_pos hi, if_pos hi]
    exact .ok rfl
  · rw [if_neg hi, if_neg hi]
    exact hs.addDefect prescribed i row

theorem shootCostates (ht : T t t') (states u : Tensor ℝ) (δ : Datum ℝ)
    (prescribed : Option (Tensor ℝ)) :
    Tally E (Tensor.Signed σ) (model.shootCostates t states u δ prescribed)
      (model.shootCostates t' (states.scale σ) (u.scale σ) δ
        (prescribed.map (Tensor.scale σ))) := by
  refine .same_bind hs.fault u.count fun last _ => ?_
  refine (hm.terminalCostate hs ht δ states prescribed (states.shape.drop 1) last).bind ?_
  rintro final _ rfl
  refine (Recurrence.run_tally (Q := Row.Signed σ) (fun j r r' hr => ?_) last rfl).bind
    fun rows rows' hrows => ?_
  · subst hr
    exact hm.previousCostate hs ht δ states u prescribed (last - 1 - j) r
  · refine .same_bind hs.fault states.count fun count _ => .ok (Symmetry.ofRows ?_)
    exact List.rel_append (List.rel_reverse hrows) (Symmetry.zeroRows σ _ _)

theorem costateDefect (ht : T t t') (u states costates : Tensor ℝ) (δ : Datum ℝ) (i : ℕ) :
    Tally E (Tensor.Signed σ) (model.costateDefect t u.path states.path costates.path δ i)
      (model.costateDefect t' (u.scale σ).path (states.scale σ).path (costates.scale σ).path δ
        i) := by
  refine (hs.nodeTime ht δ i).bind fun τ τ' hτ => ?_
  refine (hs.node costates i).bind ?_
  rintro here _ rfl
  refine (hs.node costates (i + 1)).bind ?_
  rintro next _ rfl
  refine (hs.minusArray here next).bind ?_
  rintro change _ rfl
  refine (hs.node states i).bind ?_
  rintro state _ rfl
  refine (hs.node u i).bind ?_
  rintro v _ rfl
  refine (hm.costateIncrement hs hτ state v next δ).bind ?_
  rintro increment _ rfl
  exact hs.minusArray change increment

theorem terminalDefect (ht : T t t') (states costates : Tensor ℝ) (δ : Datum ℝ) (i : ℕ) :
    Tally E (Tensor.Signed σ) (model.terminalDefect t states.path costates.path δ i)
      (model.terminalDefect t' (states.scale σ).path (costates.scale σ).path δ i) := by
  refine (hs.node costates i).bind ?_
  rintro here _ rfl
  refine (hs.node states i).bind ?_
  rintro state _ rfl
  refine (hs.nodeTime ht δ i).bind fun τ τ' hτ => ?_
  refine (hm.terminalGradient hτ state).bind ?_
  rintro final _ rfl
  exact hs.minusArray here final

theorem costateDefects (ht : T t t') (u states costates : Tensor ℝ) (δ : Datum ℝ) :
    Tally E (Tensor.Signed σ) (model.costateDefects t u states costates δ)
      (model.costateDefects t' (u.scale σ) (states.scale σ) (costates.scale σ) δ) := by
  refine .same_bind hs.fault u.count fun last _ => ?_
  refine (hm.terminalDefect hs ht states costates δ last).bind ?_
  rintro final _ rfl
  refine (hs.spread (costates.shape.drop 1) final).bind ?_
  rintro last' _ rfl
  refine (Recurrence.collect_tally (Q := Row.Signed σ) (fun j => ?_) (last - 1)).bind
    fun rows rows' hrows => ?_
  · refine (hm.costateDefect hs ht u states costates δ (last - 1 - j)).bind ?_
    rintro defect _ rfl
    exact hs.spread (costates.shape.drop 1) defect
  · refine .same_bind hs.fault costates.count fun count _ => .ok (Symmetry.ofRows ?_)
    exact List.rel_append (List.rel_append (Symmetry.zeroRows σ _ _) (List.rel_reverse hrows))
      (.cons rfl (Symmetry.zeroRows σ _ _))

theorem condense (ht : T t t') (x u : Tensor ℝ) (δ : Datum ℝ) (prescribed : Option (Defects ℝ)) :
    Tally E (Trajectory.Signed σ) (model.condense t x u δ prescribed)
      (model.condense t' (x.scale σ) (u.scale σ) δ (prescribed.map (Defects.scale σ))) := by
  unfold Model.condense
  have hdefects (part : Defects ℝ → Tensor ℝ)
      (hpart : ∀ d : Defects ℝ, part (d.scale σ) = (part d).scale σ) :
      (prescribed.map (Defects.scale σ)).map part = (prescribed.map part).map (Tensor.scale σ) := by
    rw [Option.map_map, Option.map_map]
    exact Option.map_congr fun d _ => hpart d
  rw [hdefects Defects.states fun _ => rfl, hdefects Defects.costates fun _ => rfl]
  refine (hm.shootStates hs ht x u δ _).bind ?_
  rintro states _ rfl
  refine (hm.shootCostates hs ht states u δ _).bind ?_
  rintro costates _ rfl
  exact .ok rfl

theorem shootingDefects (ht : T t t') (x u : Tensor ℝ) (p : Trajectory ℝ) (δ : Datum ℝ) :
    Tally E (Defects.Signed σ) (model.shootingDefects t x u p δ)
      (model.shootingDefects t' (x.scale σ) (u.scale σ) (p.scale σ) δ) := by
  refine (hm.stateDefects hs ht x u p.states δ).bind ?_
  rintro states _ rfl
  refine (hm.costateDefects hs ht u p.states p.costates δ).bind ?_
  rintro costates _ rfl
  exact .ok rfl

/-! ## The residual -/

theorem stationarityAt (ht : T t t') (x u states costates : Tensor ℝ) (δ : Datum ℝ) (i : ℕ) :
    Tally E (Tensor.Signed σ) (model.stationarityAt t x u.path states.path costates.path δ i)
      (model.stationarityAt t' (x.scale σ) (u.scale σ).path (states.scale σ).path
        (costates.scale σ).path δ i) := by
  refine (stateAt hs x states i).bind ?_
  rintro state _ rfl
  refine (hs.node u i).bind ?_
  rintro v _ rfl
  refine (hs.node costates (i + 1)).bind ?_
  rintro next _ rfl
  exact (hs.nodeTime ht δ i).bind fun τ τ' hτ => hm.controlGradient hτ state v next

theorem stationarity (ht : T t t') (x u : Tensor ℝ) (p : Trajectory ℝ) (δ : Datum ℝ) :
    Tally E (Tensor.Signed σ) (model.stationarity t x u p δ)
      (model.stationarity t' (x.scale σ) (u.scale σ) (p.scale σ) δ) := by
  refine .same_bind hs.fault u.count fun steps _ => ?_
  refine (Recurrence.collect_tally (Q := Row.Signed σ) (fun i => ?_) steps).bind
    fun rows rows' hrows => .ok (Symmetry.ofRows hrows)
  refine (hm.stationarityAt hs ht x u p.states p.costates δ i).bind ?_
  rintro gradient _ rfl
  exact hs.spread (u.shape.drop 1) gradient

end Model.Symmetric

/-- The problem on a horizon that starts at another time. -/
def Problem.restarted (problem : Problem ℝ) (start : Datum ℝ) : Problem ℝ :=
  { problem with horizon := { problem.horizon with start } }

section Problem

variable (hs : Symmetry σ T E) {problem : Problem ℝ} (hm : problem.model.Symmetric σ T E)
  {start' : Datum ℝ} (hstart : T problem.horizon.start start')

include hs hm hstart

theorem Problem.residual_symmetric (ht : T t t') (x u : Tensor ℝ) (p : Trajectory ℝ) :
    Tally E (Residual.Signed σ) (problem.residual t x u p)
      ((problem.restarted start').residual t' (x.scale σ) (u.scale σ) (p.scale σ)) := by
  refine (hs.step ht hstart _ _ _).bind ?_
  rintro δ _ rfl
  refine (hm.stationarity hs ht x u p _).bind ?_
  rintro F _ rfl
  refine (hm.shootingDefects hs ht x u p _).bind ?_
  rintro defects _ rfl
  exact .ok rfl

theorem Problem.condensedStationarity_symmetric (ht : T t t') (x u : Tensor ℝ)
    (prescribed : Option (Defects ℝ)) :
    Tally E (fun r r' => r' = (r.1.scale σ, r.2.scale σ))
      (problem.condensedStationarity t x u prescribed)
      ((problem.restarted start').condensedStationarity t' (x.scale σ) (u.scale σ)
        (prescribed.map (Defects.scale σ))) := by
  refine (hs.step ht hstart _ _ _).bind ?_
  rintro δ _ rfl
  refine (hm.condense hs ht x u _ prescribed).bind ?_
  rintro p _ rfl
  refine (hm.stationarity hs ht x u p _).bind ?_
  rintro F _ rfl
  exact .ok rfl

end Problem

end RecedingHorizon

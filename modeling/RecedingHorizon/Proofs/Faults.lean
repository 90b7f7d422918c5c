import RecedingHorizon.Proofs.Regulator
import RecedingHorizon.Proofs.Remembered

/-!
# Faults by where they come from

Some faults the solver finds out by itself: that it was given what it refuses, that its search
did not converge, that a triangular system is not finite.  Others come up below it, where
numbers leave their range, arrays do not fit together or a value is no number at all.  An
operation of arithmetic raises none of the first kind, and neither does anything that is made
up of such operations and of calls of a model that answers them.  So a trajectory that is shot,
or the residual of one, does not fail in a way that the solver has to find out.

* `FailsWith`: what a computation can fail with, with one rule for each way of forming it.
* `Fault.isDetected`, `Undetected`: the faults that the solver finds out, and computations
  without one.
* `Model.Total`: a model that answers; `undetected_condense`, `undetected_stationarity`.
* `Horizon.undetected_step`: nor does the length of a step raise such a fault, from the start of
  the horizon on.
-/

namespace RecedingHorizon

variable {α : Type}

/-- What a computation can fail with. -/
def FailsWith {β : Type} (P : Fault α → Prop) (r : Except (Fault α) β) : Prop :=
  ∀ fault, r = .error fault → P fault

namespace FailsWith

variable {β γ : Type} {P : Fault α → Prop} {r : Except (Fault α) β}

theorem of_ok {b : β} (h : r = .ok b) : FailsWith P r := by
  rw [h]
  intro fault hfault
  cases hfault

theorem ok (b : β) : FailsWith P (.ok b) := of_ok rfl

theorem error {fault : Fault α} (h : P fault) :
    FailsWith P (.error fault : Except (Fault α) β) := by
  intro fault' hfault
  cases hfault
  exact h

theorem bind {next : β → Except (Fault α) γ} (h : FailsWith P r)
    (hnext : ∀ b, r = .ok b → FailsWith P (next b)) : FailsWith P (r >>= next) := by
  cases r with
  | error fault => exact error (h fault rfl)
  | ok b => exact hnext b rfl

theorem ite {c : Prop} [Decidable c] {r' : Except (Fault α) β} (h : c → FailsWith P r)
    (h' : ¬c → FailsWith P r') : FailsWith P (if c then r else r') := by
  split
  · next hc => exact h hc
  · next hc => exact h' hc

/-- A run fails with what one of its steps fails with. -/
theorem run {step : ℕ → β → Except (Fault α) β} (h : ∀ i b, FailsWith P (step i b)) (n : ℕ)
    (b : β) : FailsWith P (Recurrence.run step n b) := by
  have hcontinued (left i : ℕ) (b : β) (found : List β) :
      FailsWith P (Recurrence.continued step left i b found) := by
    induction left generalizing i b found with
    | zero => exact ok _
    | succ left ih =>
        rw [Recurrence.continued]
        rcases hstep : step i b with fault | next
        · exact error (h i b fault hstep)
        · exact ih _ _ _
  exact hcontinued n 0 b [b]

theorem collect {f : ℕ → Except (Fault α) β} (h : ∀ i, FailsWith P (f i)) (n : ℕ) :
    FailsWith P (Recurrence.collect f n) := by
  have hcollect (left i : ℕ) (found : List β) :
      FailsWith P (Recurrence.collectFrom f left i found) := by
    induction left generalizing i found with
    | zero => exact ok _
    | succ left ih =>
        rw [Recurrence.collectFrom]
        rcases hstep : f i with fault | next
        · exact error (h i fault hstep)
        · exact ih _ _
  exact hcollect n 0 []

end FailsWith

/-- Whether a fault is one that the solver finds out by itself: one of its own kinds, or a
triangular system that is not finite.  A time too long to be quoted is found out as well. -/
def Fault.isDetected (fault : Fault α) : Bool :=
  match fault with
  | .nonFiniteSystem | .unquotable => true
  | fault => .solver ∈ fault.kind.lineage

/-- A computation whose faults are not found out by the solver. -/
abbrev Undetected {β : Type} (r : Except (Fault α) β) : Prop :=
  FailsWith (fun fault => fault.isDetected = false) r

namespace Undetected

variable {β : Type}

/-- A computation whose faults are not found out by the solver does not fail with one that is. -/
theorem ne_error {r : Except (Fault α) β} (h : Undetected r) {fault : Fault α}
    (hfault : fault.isDetected = true) : r ≠ .error fault := by
  intro hr
  have hundetected : fault.isDetected = false := h fault hr
  rw [hfault] at hundetected
  cases hundetected

theorem asNumber (d : Datum α) : Undetected d.asNumber := by
  rw [Datum.asNumber]
  cases d.number? with
  | some a => exact .ok a
  | none => exact .error rfl

theorem count (a : Tensor α) : Undetected (a.count : Except (Fault α) ℕ) := by
  rw [Tensor.count]
  split
  · exact .error rfl
  · exact .ok _

theorem node (p : Path α) (i : ℕ) : Undetected (p.node i) := by
  obtain ⟨shape, entries, hlength⟩ := p
  rw [Path.node]
  dsimp only
  split
  · exact .error rfl
  · split
    · exact .ok _
    · exact .error rfl

variable [Scalar α]

theorem checkRoom (extents : List ℤ) :
    Undetected (Tensor.checkRoom extents : Except (Fault α) Unit) := by
  refine FailsWith.bind ?_ fun _ _ => ?_
  · rw [Tensor.checkExtents]
    repeat' refine FailsWith.ite (fun _ => ?_) fun _ => ?_
    all_goals first | exact .error rfl | exact .ok _
  · split
    · exact .error rfl
    · exact .ok _

theorem ofWhole (n : ℤ) : Undetected (Number.ofWhole n : Except (Fault α) α) :=
  FailsWith.ite (fun _ => .ok _) fun _ => .error rfl

theorem combine (onWhole : ℤ → ℤ → ℤ) (onScalars : α → α → α) (a b : Number α) :
    Undetected (Number.combine onWhole onScalars a b) := by
  cases a with
  | whole m =>
      cases b with
      | whole n => exact .ok _
      | real y => exact FailsWith.bind (ofWhole m) fun _ _ => .ok _
  | real x =>
      cases b with
      | whole n => exact FailsWith.bind (ofWhole n) fun _ _ => .ok _
      | real y => exact .ok _

theorem plus (a b : Datum α) : Undetected (a.plus b) :=
  FailsWith.bind (asNumber a) fun _ _ => FailsWith.bind (asNumber b) fun _ _ => combine _ _ _ _

theorem minus (a b : Datum α) : Undetected (a.minus b) :=
  FailsWith.bind (asNumber a) fun _ _ => FailsWith.bind (asNumber b) fun _ _ => combine _ _ _ _

theorem scalar (d : Datum α) : Undetected d.scalar := by
  refine FailsWith.bind (asNumber d) fun a _ => ?_
  cases a with
  | whole n => exact ofWhole n
  | real x => exact .ok x

theorem operand (a : Number α) : Undetected a.operand := by
  cases a with
  | whole n => exact FailsWith.ite (fun _ => .ok _) fun _ => .error rfl
  | real x => exact .ok x

theorem nodeTime (t δ : Datum α) (i : ℕ) : Undetected (nodeTime t δ i) :=
  FailsWith.bind (FailsWith.bind (asNumber δ) fun _ _ => .ok _) fun _ _ =>
    FailsWith.bind (plus _ _) fun _ _ => .ok _

theorem pointwise (op : α → α → α) (a b : Tensor α) : Undetected (a.pointwise op b) := by
  rw [Tensor.pointwise]
  split
  · exact .ok _
  · cases broadcast? a.shape b.shape with
    | none => exact .error rfl
    | some shape => exact .ok _

theorem spread (shape : List ℕ) (a : Tensor α) : Undetected (a.spread shape) := by
  rw [Tensor.spread]
  split
  · exact .ok _
  · exact FailsWith.ite (fun _ => .ok _) fun _ => .error rfl

theorem increase {shape : List ℕ} (r : Row α shape) (b : Tensor α) :
    Undetected (r.increase b) := by
  refine FailsWith.bind (pointwise _ _ _) fun sum _ => ?_
  split
  · exact .ok _
  · exact .error rfl

theorem meet (op : α → α → α) (a : Tensor α) {c : Datum α} {k : Number α}
    (hc : c.number? = some k) : Undetected (a.meet op c) := by
  rw [Tensor.meet_of_number op a hc]
  exact FailsWith.bind (scalar c) fun _ _ => .ok _

theorem addDefect (prescribed : Option (Path α)) (i : ℕ) {shape : List ℕ} (r : Row α shape) :
    Undetected (addDefect prescribed i r) := by
  cases prescribed with
  | none => exact .ok _
  | some defects =>
      exact FailsWith.bind (node defects i) fun b _ => increase r b

end Undetected

/-- The time of a node is a number. -/
theorem exists_number_of_nodeTime [Scalar α] {t δ τ : Datum α} {i : ℕ}
    (h : nodeTime t δ i = .ok τ) : ∃ k, τ.number? = some k := by
  obtain ⟨a, -, h⟩ := bind_eq_ok_iff.1 h
  obtain ⟨b, -, h⟩ := bind_eq_ok_iff.1 h
  cases h
  exact ⟨b, rfl⟩

/-- What is asked of a model: no dimension is below zero, and asked with vectors of its
dimensions, at a time that is a number, all its functions answer with such vectors. -/
structure Model.Total [Scalar α] (model : Model α) : Prop where
  controlDim : 0 ≤ model.controlDim
  constraintDim : 0 ≤ model.constraintDim
  dynamics : ∀ {x u : Tensor α} {t : Datum α} {k : Number α}, t.number? = some k →
    x.shape = [model.stateDim.toNat] → u.shape = [model.controlDim.toNat] →
    ∃ rate, model.dynamics x u t = .ok rate ∧ rate.shape = [model.stateDim.toNat]
  terminalGradient : ∀ {x : Tensor α} {t : Datum α} {k : Number α}, t.number? = some k →
    x.shape = [model.stateDim.toNat] →
    ∃ l, model.terminalGradient x t = .ok l ∧ l.shape = [model.stateDim.toNat]
  stateGradient : ∀ {x action l : Tensor α} {t : Datum α} {k : Number α}, t.number? = some k →
    x.shape = [model.stateDim.toNat] → action.shape = [model.actionDim.toNat] →
    l.shape = [model.stateDim.toNat] →
    ∃ g, model.stateGradient x action l t = .ok g ∧ g.shape = [model.stateDim.toNat]
  controlGradient : ∀ {x action l : Tensor α} {t : Datum α} {k : Number α}, t.number? = some k →
    x.shape = [model.stateDim.toNat] → action.shape = [model.actionDim.toNat] →
    l.shape = [model.stateDim.toNat] →
    ∃ g, model.controlGradient x action l t = .ok g ∧ g.shape = [model.actionDim.toNat]

namespace Model.Total

variable [Scalar α] {model : Model α} (hm : model.Total)
include hm

theorem dynamicsFit : model.DynamicsFit where
  controlDim := hm.controlDim
  constraintDim := hm.constraintDim
  dynamics ht hx hu hrate := by
    obtain ⟨rate, h, hshape⟩ := hm.dynamics ht hx hu
    rw [h] at hrate
    cases hrate
    exact hshape

theorem actionDim : 0 ≤ model.actionDim := add_nonneg hm.controlDim hm.constraintDim

variable {N : ℕ} {t : Datum α} {δ : α} {x actions : Tensor α} {i : ℕ}
variable {prescribed : Option (Path α)}

theorem undetected_nextState (ha : actions.shape = [N, model.actionDim.toNat])
    (x : Row α [model.stateDim.toNat]) :
    Undetected (model.nextState t (.number (.real δ)) actions.path prescribed i x) := by
  refine FailsWith.bind (Undetected.nodeTime _ _ _) fun τ hτ => ?_
  obtain ⟨k, hk⟩ := exists_number_of_nodeTime hτ
  refine FailsWith.bind (Undetected.node _ _) fun action haction => ?_
  rw [Path.node_path] at haction
  refine FailsWith.bind ?_ fun increment _ => ?_
  · obtain ⟨u, hu⟩ := model.exists_control (Tensor.shape_item ha haction)
    obtain ⟨rate, hrate, -⟩ := hm.dynamics hk x.2
      (Model.shape_control hm.controlDim hm.constraintDim (Tensor.shape_item ha haction) hu)
    rw [stateIncrement, hu, ok_bind, hrate, ok_bind]
    exact Undetected.meet _ _ rfl
  refine FailsWith.bind (Undetected.pointwise _ _ _) fun next _ => ?_
  exact FailsWith.bind (Undetected.spread _ _) fun row _ => Undetected.addDefect _ _ _

theorem undetected_shootStates (hx : x.shape = [model.stateDim.toNat])
    (ha : actions.shape = [N, model.actionDim.toNat]) (p : Option (Tensor α)) :
    Undetected (model.shootStates t x actions (.number (.real δ)) p) := by
  refine FailsWith.bind (Undetected.count _) fun steps _ => ?_
  rw [Tensor.count_of_shape hx, ok_bind]
  refine FailsWith.bind (Undetected.checkRoom _) fun _ _ => ?_
  refine FailsWith.bind (Undetected.spread _ _) fun first _ => ?_
  refine FailsWith.bind (FailsWith.run (fun i r => ?_) _ _) fun _ _ => .ok _
  exact hm.undetected_nextState ha r

theorem undetected_terminalCostate {states : Tensor α}
    (hX : states.shape = [N + 1, model.stateDim.toNat]) (shape : List ℕ) :
    Undetected (model.terminalCostate t (.number (.real δ)) states.path prescribed shape i) := by
  refine FailsWith.bind (Undetected.node _ _) fun x hx => ?_
  rw [Path.node_path] at hx
  refine FailsWith.bind (Undetected.nodeTime _ _ _) fun τ hτ => ?_
  obtain ⟨k, hk⟩ := exists_number_of_nodeTime hτ
  obtain ⟨l, hl, -⟩ := hm.terminalGradient hk (Tensor.shape_item hX hx)
  rw [hl, ok_bind]
  exact FailsWith.bind (Undetected.spread _ _) fun row _ => Undetected.addDefect _ _ _

theorem undetected_previousCostate {states : Tensor α}
    (hX : states.shape = [N + 1, model.stateDim.toNat])
    (ha : actions.shape = [N, model.actionDim.toNat]) (l : Row α [model.stateDim.toNat]) :
    Undetected (model.previousCostate t (.number (.real δ)) states.path actions.path prescribed i
      l) := by
  refine FailsWith.bind (Undetected.nodeTime _ _ _) fun τ hτ => ?_
  obtain ⟨k, hk⟩ := exists_number_of_nodeTime hτ
  refine FailsWith.bind (Undetected.node _ _) fun x hx => ?_
  refine FailsWith.bind (Undetected.node _ _) fun action haction => ?_
  rw [Path.node_path] at hx haction
  obtain ⟨g, hg, -⟩ := hm.stateGradient hk (Tensor.shape_item hX hx)
    (Tensor.shape_item ha haction) l.2
  refine FailsWith.bind ?_ fun increment _ => ?_
  · rw [costateIncrement, hg, ok_bind]
    exact Undetected.meet _ _ rfl
  refine FailsWith.bind (Undetected.pointwise _ _ _) fun here _ => ?_
  refine FailsWith.bind (Undetected.spread _ _) fun row _ => ?_
  exact FailsWith.ite (fun _ => .ok _) fun _ => Undetected.addDefect _ _ _

theorem undetected_shootCostates {states : Tensor α}
    (hX : states.shape = [N + 1, model.stateDim.toNat])
    (ha : actions.shape = [N, model.actionDim.toNat]) (p : Option (Tensor α)) :
    Undetected (model.shootCostates t states actions (.number (.real δ)) p) := by
  refine FailsWith.bind (Undetected.count _) fun last _ => ?_
  generalize hs : states.shape.drop 1 = shape
  obtain rfl : [model.stateDim.toNat] = shape := by rw [← hs, hX]; rfl
  refine FailsWith.bind (hm.undetected_terminalCostate hX _) fun final _ => ?_
  refine FailsWith.bind (FailsWith.run (fun j r => hm.undetected_previousCostate hX ha r) _ _)
    fun found _ => ?_
  exact FailsWith.bind (Undetected.count _) fun _ _ => .ok _

/-- A trajectory is shot, or the fault is one of arithmetic. -/
theorem undetected_condense (hx : x.shape = [model.stateDim.toNat])
    (ha : actions.shape = [N, model.actionDim.toNat]) (p : Option (Defects α)) :
    Undetected (model.condense t x actions (.number (.real δ)) p) := by
  refine FailsWith.bind (hm.undetected_shootStates hx ha _) fun states hstates => ?_
  have hX := Model.shape_shootStates (Tensor.count_of_shape hx) ha hstates
  exact FailsWith.bind (hm.undetected_shootCostates hX ha _) fun _ _ => .ok _

theorem undetected_stationarity (hx : x.shape = [model.stateDim.toNat])
    (ha : actions.shape = [N, model.actionDim.toNat]) {p : Trajectory α}
    (hX : p.states.shape = [N + 1, model.stateDim.toNat])
    (hL : p.costates.shape = [N + 1, model.stateDim.toNat]) :
    Undetected (model.stationarity t x actions p (.number (.real δ))) := by
  refine FailsWith.bind (Undetected.count _) fun steps _ => ?_
  refine FailsWith.bind (FailsWith.collect (fun i => ?_) _) fun _ _ => .ok _
  refine FailsWith.bind ?_ fun g _ => Undetected.spread _ _
  refine FailsWith.bind ?_ fun state hstate => ?_
  · exact FailsWith.ite (fun _ => .ok _) fun _ => Undetected.node _ _
  have hstate : state.shape = [model.stateDim.toNat] := by
    rw [stateAt] at hstate
    split at hstate
    · cases hstate
      exact hx
    · rw [Path.node_path] at hstate
      exact Tensor.shape_item hX hstate
  refine FailsWith.bind (Undetected.node _ _) fun action haction => ?_
  refine FailsWith.bind (Undetected.node _ _) fun next hnext => ?_
  rw [Path.node_path] at haction hnext
  refine FailsWith.bind (Undetected.nodeTime _ _ _) fun τ hτ => ?_
  obtain ⟨k, hk⟩ := exists_number_of_nodeTime hτ
  obtain ⟨g, hg, -⟩ := hm.controlGradient hk hstate (Tensor.shape_item ha haction)
    (Tensor.shape_item hL hnext)
  exact .of_ok hg

end Model.Total

/-- The functions of a regulator answer whatever fits. -/
theorem Regulator.total {n m : ℕ} (g : Regulator n m) : g.model.Total where
  controlDim := by
    rw [g.controlDim_model]
    exact Int.natCast_nonneg m
  constraintDim := g.unconstrained.ge
  dynamics := by
    intro x u t k _ hx hu
    rw [g.stateDim_model, Int.toNat_natCast] at hx ⊢
    rw [g.controlDim_model, Int.toNat_natCast] at hu
    obtain ⟨v, rfl⟩ := Tensor.exists_eq_ofFn hx
    obtain ⟨w, rfl⟩ := Tensor.exists_eq_ofFn hu
    exact ⟨_, g.dynamics_model v w t, Tensor.shape_ofFn _⟩
  terminalGradient := by
    intro x t k _ hx
    rw [g.stateDim_model, Int.toNat_natCast] at hx ⊢
    obtain ⟨v, rfl⟩ := Tensor.exists_eq_ofFn hx
    exact ⟨_, g.weighted_deviation g.F v, Tensor.shape_ofFn _⟩
  stateGradient := by
    intro x action l t k _ hx ha hl
    rw [g.stateDim_model, Int.toNat_natCast] at hx hl ⊢
    rw [g.answers.actionDim, Int.toNat_natCast] at ha
    obtain ⟨v, rfl⟩ := Tensor.exists_eq_ofFn hx
    obtain ⟨u, rfl⟩ := Tensor.exists_eq_ofFn ha
    obtain ⟨w, rfl⟩ := Tensor.exists_eq_ofFn hl
    exact ⟨_, g.stateGradient_model v u w t, Tensor.shape_ofFn _⟩
  controlGradient := by
    intro x action l t k _ hx ha hl
    rw [g.stateDim_model, Int.toNat_natCast] at hx hl
    rw [g.answers.actionDim, Int.toNat_natCast] at ha ⊢
    obtain ⟨v, rfl⟩ := Tensor.exists_eq_ofFn hx
    obtain ⟨u, rfl⟩ := Tensor.exists_eq_ofFn ha
    obtain ⟨w, rfl⟩ := Tensor.exists_eq_ofFn hl
    exact ⟨_, g.controlGradient_model v u w t, Tensor.shape_ofFn _⟩

variable [Scalar α]

/-- The length of a step is found from the start on, or the fault is one of arithmetic. -/
theorem Horizon.undetected_step {horizon : Horizon α} {t : Datum α}
    (h : t.lt horizon.start ≠ .ok true) : Undetected (horizon.step t) := by
  have hgrown : Undetected (horizon.grown t) := by
    refine FailsWith.bind (FailsWith.bind (Undetected.asNumber _) fun _ _ => .ok _) fun rate _ => ?_
    refine FailsWith.bind (Undetected.minus _ _) fun elapsed _ => ?_
    refine FailsWith.bind (Undetected.combine _ _ _ _) fun exponent _ => ?_
    exact FailsWith.bind (Undetected.operand _) fun _ _ => .ok _
  have hlength : Undetected (horizon.length t) := by
    refine FailsWith.bind ?_ fun early hearly => ?_
    · exact FailsWith.bind (Undetected.asNumber _) fun _ _ =>
        FailsWith.bind (Undetected.asNumber _) fun _ _ => .ok _
    cases early with
    | true => exact absurd hearly h
    | false =>
        rw [if_neg (by decide)]
        refine FailsWith.ite (fun _ => Undetected.scalar _) fun _ => ?_
        refine FailsWith.bind hgrown fun part _ => ?_
        exact FailsWith.bind (Undetected.scalar _) fun _ _ => .ok _
  refine FailsWith.bind hlength fun length _ => ?_
  refine FailsWith.ite (fun _ => .ok _) fun _ => ?_
  exact FailsWith.bind (Undetected.scalar _) fun _ _ => .ok _

/-- Now is not before now. -/
theorem Datum.self_lt_ne (hirrefl : ∀ a : α, ¬a < a) (t : Datum α) : t.lt t ≠ .ok true := by
  intro h
  obtain ⟨a, ha, h⟩ := bind_eq_ok_iff.1 h
  obtain ⟨b, hb, h⟩ := bind_eq_ok_iff.1 h
  obtain rfl : a = b := Except.ok.inj (ha.symm.trans hb)
  have hlt : a.lt a = true := Except.ok.inj h
  cases a with
  | whole n => exact lt_irrefl n (of_decide_eq_true hlt)
  | real x => exact hirrefl x (of_decide_eq_true hlt)

end RecedingHorizon

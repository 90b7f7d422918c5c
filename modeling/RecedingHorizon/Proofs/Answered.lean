import RecedingHorizon.Proofs.Faults

/-!
# A search that is answered

Where a model answers with vectors, so does everything that is built on it.  The linear system of
a Newton step has a residual and an image for every vector of its dimension.  The directions that
the solver grows its space by are then vectors of that dimension, and the growth comes to an end
without a fault.  One thing is left that can go wrong: the triangular system has to be finite for
the coefficients of a solution to be read off.  And so it is with the whole search.  How that
fails depends on the arithmetic, and is left open here.

* `Krylov.Workspace.Directed`: what is kept while the space grows.
* `Krylov.Equation.Answers`, `Krylov.Solver.failsWith_solve`: the solve of an equation that
  answers; `failsWith_coefficients`: in any arithmetic.
* `ZeroHorizon.exists_image`, `ZeroHorizon.exists_residual`, `ZeroHorizon.answers_linearized`: the
  linear system of a Newton step.
* `Newton.Search.Ready`, `failsWith_advance`, `failsWith_run`: one iteration, and the search.
-/

namespace RecedingHorizon

variable {α : Type} [Scalar α]

open Stateful

/-! ## Arrays of one shape -/

namespace Tensor

variable {a b : Tensor α} {shape : List ℕ}

/-- Arrays of one shape can be put together entry by entry. -/
theorem exists_pointwise (op : α → α → α) (ha : a.shape = shape) (hb : b.shape = shape) :
    ∃ c, a.pointwise op b = .ok c ∧ c.shape = shape := by
  rw [pointwise, dif_pos (ha.trans hb.symm)]
  exact ⟨_, rfl, ha⟩

/-- A value that has a scalar meets every array. -/
theorem exists_meet (op : α → α → α) {d : Datum α} {y : α} (hd : d.scalar = .ok y)
    (ha : a.shape = shape) : ∃ c, a.meet op d = .ok c ∧ c.shape = shape := by
  obtain ⟨k, hk, -⟩ := bind_eq_ok_iff.1 hd
  rw [meet_of_number op a (Datum.asNumber_eq_ok_iff.1 hk), hd]
  exact ⟨_, rfl, ha⟩

/-- An array with one index is a vector. -/
theorem exists_vector {n : ℕ} (ha : a.shape = [n]) :
    ∃ v, a.vector n = .ok v ∧ v.length = n := by
  rw [vector, spread, dif_pos ha]
  exact ⟨a.entries, rfl, length_entries_of_shape ha⟩

end Tensor

/-! ## A solve that is answered -/

namespace Krylov

variable {σ : Type}

/-- All directions have the dimension of the system, and there is one. -/
structure Workspace.Directed (w : Workspace α) (n : ℕ) : Prop where
  length : ∀ v ∈ w.basis, v.length = n
  nonempty : w.basis ≠ []

namespace Workspace.Directed

variable {w : Workspace α} {n : ℕ}

omit [Scalar α] in
theorem shape_direction (hw : w.Directed n) : (Tensor.ofVec w.direction).shape = [n] := by
  rw [Tensor.shape_ofVec, direction, List.getLastD_eq_getLast?,
    List.getLast?_eq_some_getLast hw.nonempty, Option.getD_some,
    hw.length _ (List.getLast_mem hw.nonempty)]

theorem absorb (hw : w.Directed n) {image : Vec α} (himage : image.length = n) :
    (w.absorb image).1.Directed n := by
  have hbasis : (w.absorb image).1.basis = w.basis ∨ ∃ c, (w.absorb image).1.basis =
      w.basis ++ [Vec.divide (orthogonalize w.basis image).2 c] := by
    have hgrown (breakdown : Bool) (v : Vec α) :
        (if breakdown then w.basis else w.basis ++ [v]) = w.basis ∨
          (if breakdown then w.basis else w.basis ++ [v]) = w.basis ++ [v] := by
      cases breakdown with
      | false => exact .inr rfl
      | true => exact .inl rfl
    rw [Workspace.absorb]
    dsimp only
    split
    · exact (hgrown _ _).imp id fun h => ⟨_, h⟩
    · exact (hgrown _ _).imp id fun h => ⟨_, h⟩
  rcases hbasis with hbasis | ⟨c, hbasis⟩
  · exact ⟨by rw [hbasis]; exact hw.length, by rw [hbasis]; exact hw.nonempty⟩
  · refine ⟨fun v hv => ?_, by rw [hbasis]; simp⟩
    rw [hbasis, List.mem_append, List.mem_singleton] at hv
    rcases hv with hv | rfl
    · exact hw.length v hv
    · rw [Vec.length_divide, length_orthogonalize_snd hw.length himage]

end Workspace.Directed

/-- An equation that answers: with the residual of a vector where `I` holds of what is remembered,
which makes `J` hold, and with the image of a vector where `J` does. -/
structure Equation.Answers (equation : Equation (StateM σ) α) (n : ℕ) (I J : σ → Prop) : Prop where
  residual : ∀ {v : Tensor α} {μ : σ}, v.shape = [n] → I μ →
    ∃ b μ', runOn (equation.residual v) μ = (.ok b, μ') ∧ b.shape = [n] ∧ J μ'
  image : ∀ {v : Tensor α} {μ : σ}, v.shape = [n] → J μ →
    ∃ b μ', runOn (equation.image v) μ = (.ok b, μ') ∧ b.shape = [n] ∧ J μ'

namespace Solver

variable {solver : Solver α} {equation : Equation (StateM σ) α} {I J : σ → Prop} {τ β : α}
variable {w : Workspace α}

theorem exists_within (hτ : solver.relativeTolerance.scalar = .ok τ) (β : α) (w : Workspace α) :
    ∃ reached, solver.within β w = .ok reached := by
  rw [within, hτ]
  exact ⟨_, rfl⟩

/-- A step answers if it is given an image that is a vector of the dimension of the system. -/
theorem exists_step (hτ : solver.relativeTolerance.scalar = .ok τ) {image : Tensor α}
    (himage : image.shape = [solver.dim]) (hw : w.Directed solver.dim) :
    ∃ ending w', solver.step β image w = (.ok ending, w') ∧ w'.Directed solver.dim := by
  have hnext := hw.absorb (Tensor.length_entries_of_shape himage)
  rw [step, imageVector, if_pos himage]
  dsimp only
  generalize w.absorb image.entries = next at hnext ⊢
  obtain ⟨w', _ | ending⟩ := next
  · obtain ⟨reached, hreached⟩ := exists_within hτ β w'
    dsimp only
    rw [hreached]
    exact ⟨_, w', rfl, hnext⟩
  · exact ⟨some ending, w', rfl, hnext⟩

/-- The space grows to an end. -/
theorem exists_iterate (he : equation.Answers solver.dim I J)
    (hτ : solver.relativeTolerance.scalar = .ok τ) (left : ℕ) (hw : w.Directed solver.dim) {μ : σ}
    (hμ : J μ) :
    ∃ ending w' μ', (solver.iterate equation β left w).run μ = ((.ok ending, w'), μ') ∧
      w'.Directed solver.dim := by
  induction left generalizing w μ with
  | zero => exact ⟨.limit, w, μ, rfl, hw⟩
  | succ left ih =>
      obtain ⟨image, μ₁, himage, hshape, hμ₁⟩ := he.image hw.shape_direction hμ
      obtain ⟨ending, w₁, hstep, hw₁⟩ := exists_step (β := β) hτ hshape hw
      have hrun : (equation.image (.ofVec w.direction)).run.run μ = (.ok image, μ₁) := himage
      rw [iterate, run_bind, hrun]
      dsimp only
      rw [hstep]
      cases ending with
      | some ending => exact ⟨ending, w₁, μ₁, rfl, hw₁⟩
      | none => exact ih hw₁ hμ₁

/-- The coefficients are found unless the triangular system is not finite. -/
theorem failsWith_coefficients (w : Workspace α) :
    FailsWith (· = .nonFiniteSystem) w.coefficients :=
  FailsWith.ite (fun _ => .ok _) fun _ => .error rfl

/-- Among real numbers the coefficients are always found. -/
theorem failsWith_coefficients_real {P : Fault ℝ → Prop} (w : Workspace ℝ) :
    FailsWith P w.coefficients := .of_ok w.coefficients_eq

variable {P : Fault α → Prop} (hP : ∀ w : Workspace α, FailsWith P w.coefficients)

include hP

/-- From a workspace that has come to its end there is an outcome, or there are no coefficients. -/
theorem failsWith_conclude (hτ : solver.relativeTolerance.scalar = .ok τ) {guess : Tensor α}
    (hguess : guess.shape = [solver.dim]) (hw : w.Directed solver.dim) (ending : Ending) :
    FailsWith P (solver.conclude guess β w ending) := by
  refine FailsWith.bind ?_ fun solution _ => ?_
  · refine FailsWith.ite (fun _ => .ok _) fun _ => ?_
    refine FailsWith.bind (hP w) fun y _ => ?_
    have hshape : (Tensor.ofVec (Vec.combine solver.dim w.basis y)).shape = guess.shape := by
      rw [Tensor.shape_ofVec, Vec.length_combine hw.length, hguess]
    obtain ⟨c, hc⟩ := Tensor.exists_increase hshape
    exact .of_ok hc
  · refine FailsWith.bind ?_ fun _ _ => .ok _
    obtain ⟨reached, hreached⟩ := exists_within hτ β w
    cases ending with
    | singular => exact .ok _
    | breakdown => exact .ok _
    | limit => exact .of_ok hreached
    | tolerance => exact .of_ok hreached

/-- A solve of an equation that answers has an outcome, or there are no coefficients. -/
theorem failsWith_solve (he : equation.Answers solver.dim I J)
    (hτ : solver.relativeTolerance.scalar = .ok τ) (w : Workspace α) {μ : σ} (hμ : I μ) :
    FailsWith P ((solver.solve equation none w).run μ).1.1 := by
  have hguess : (Tensor.zeros [solver.dim] : Tensor α).shape = [solver.dim] := rfl
  obtain ⟨residual, μ₁, hresidual, hshape, hμ₁⟩ := he.residual hguess hμ
  have hrun : (equation.residual (.zeros [solver.dim])).run.run μ = (.ok residual, μ₁) := hresidual
  rw [solve, run_bind, Option.getD_none, hrun]
  dsimp only
  split
  · exact .ok _
  · obtain ⟨first, hfirst, hlength⟩ :=
      Tensor.exists_vector (a := residual.divide residual.norm) hshape
    have hw : (w.cleared.seeded first residual.norm).Directed solver.dim := by
      refine ⟨fun v hv => ?_, List.cons_ne_nil _ _⟩
      rw [List.mem_singleton.1 hv, hlength]
    obtain ⟨ending, w', μ', hiterate, hw'⟩ := exists_iterate (β := residual.norm) he hτ solver.limit
      hw hμ₁
    rw [hfirst]
    dsimp only
    rw [run_bind, hiterate]
    exact failsWith_conclude hP hτ hguess hw' ending

end Solver

end Krylov

/-! ## The horizon of length zero -/

namespace ZeroHorizon

variable {system : ZeroHorizon α} {t : Datum α} {x costate action : Tensor α} {k : Number α} {h : α}

section Answers

variable (hm : system.model.Total) (ht : t.number? = some k)
  (hx : x.shape = [system.model.stateDim.toNat])
  (hcostate : costate.shape = [system.model.stateDim.toNat])
  (haction : action.shape = [system.model.actionDim.toNat])
  (hh : system.differenceStep.scalar = .ok h)
  (hzero : system.model.keepsNumbers = false ∨ system.differenceStep.isZero = false)
include hm ht hx hcostate haction hh hzero

/-- The image of a direction, once the costate and the gradient at the action are known. -/
theorem exists_image {v base : Tensor α} {μ : Memory α}
    (hv : v.shape = [system.model.actionDim.toNat]) (hμ : μ.costate = some costate)
    (hbase : μ.base = some base) (hshape : base.shape = [system.model.actionDim.toNat]) :
    ∃ b, (system.image t x action v).runOn μ = (.ok b, μ) ∧
      b.shape = [system.model.actionDim.toNat] := by
  obtain ⟨step, hstep, hstepShape⟩ := Tensor.exists_meet (fun x c => c * x) hh hv
  obtain ⟨moved, hmoved, hmovedShape⟩ := Tensor.exists_pointwise (· + ·) haction hstepShape
  obtain ⟨g, hg, hgShape⟩ := hm.controlGradient ht hx hmovedShape hcostate
  obtain ⟨change, hchange, hchangeShape⟩ := Tensor.exists_pointwise (· - ·) hgShape hshape
  obtain ⟨b, hb, hbShape⟩ := Tensor.exists_meet (· / ·) hh hchangeShape
  have hscale : v.scaleBy system.differenceStep = .ok step := hstep
  have hplus : action.plus step = .ok moved := hmoved
  have hminus : g.minus base = .ok change := hchange
  have hquotient : system.quotient change = .ok b := by
    rw [quotient, if_neg]
    · exact hb
    · rcases hzero with h | h
      · simp [h]
      · simp [h]
  refine ⟨b, ?_, hbShape⟩
  simp only [image, runOn_bind, runOn_get, runOn_needed, runOn_liftM, hbase, hscale, hplus,
    runOn_gradient hμ, hg, hminus, hquotient]

/-- The residual of a guess, which leaves the gradient at the action to be remembered. -/
theorem exists_residual {v : Tensor α} {μ : Memory α}
    (hv : v.shape = [system.model.actionDim.toNat]) (hμ : μ.costate = some costate) :
    ∃ b base, (system.residual t x action v).runOn μ = (.ok b, { μ with base := some base }) ∧
      b.shape = [system.model.actionDim.toNat] ∧
      base.shape = [system.model.actionDim.toNat] := by
  obtain ⟨base, hbase, hshape⟩ := hm.controlGradient ht hx haction hcostate
  have hneg : base.neg.shape = [system.model.actionDim.toNat] := hshape
  rw [residual, runOn_bind, runOn_gradient hμ, hbase]
  dsimp only
  rw [runOn_bind, runOn_modify]
  dsimp only
  by_cases hv0 : v.isZero = true
  · rw [if_pos hv0]
    exact ⟨base.neg, base, rfl, hneg, hshape⟩
  · obtain ⟨b, hb, hbShape⟩ := exists_image hm ht hx hcostate haction hh hzero
      (μ := { μ with base := some base }) hv hμ rfl hshape
    obtain ⟨r, hr, hrShape⟩ := Tensor.exists_pointwise (· - ·) hneg hbShape
    rw [if_neg hv0, runOn_bind, hb]
    exact ⟨r, base, congrArg (fun answer => (answer, _)) hr, hrShape, hshape⟩

/-- Once the costate is known, the linear system of a Newton step answers. -/
theorem answers_linearized :
    (system.linearized t x action).Answers system.model.actionDim.toNat
      (fun μ => μ.costate = some costate)
      (fun μ => μ.costate = some costate ∧
        ∃ base, μ.base = some base ∧ base.shape = [system.model.actionDim.toNat]) where
  residual {v μ} hv hμ := by
    obtain ⟨b, base, hb, hbShape, hshape⟩ :=
      exists_residual hm ht hx hcostate haction hh hzero hv hμ
    exact ⟨b, _, hb, hbShape, hμ, base, rfl, hshape⟩
  image {v μ} hv hμ := by
    obtain ⟨hμ, base, hbase, hshape⟩ := hμ
    obtain ⟨b, hb, hbShape⟩ :=
      exists_image hm ht hx hcostate haction hh hzero hv hμ hbase hshape
    exact ⟨b, μ, hb, hbShape, hμ, base, hbase, hshape⟩

end Answers

end ZeroHorizon

/-! ## The search -/

namespace Newton

/-- What a search needs in order to go on: a model that answers at its time and state, a
difference step that has a scalar and can be divided by, and a solver of its dimension. -/
structure Search.Ready (search : Search α) (costate : Tensor α) : Prop where
  model : search.system.model.Total
  time : ∃ k, search.time.number? = some k
  state : search.state.shape = [search.system.model.stateDim.toNat]
  costate : costate.shape = [search.system.model.stateDim.toNat]
  differenceStep : ∃ h, search.system.differenceStep.scalar = .ok h
  divisible : search.system.model.keepsNumbers = false ∨
    search.system.differenceStep.isZero = false
  dim : search.solver.dim = search.system.model.actionDim.toNat
  relativeTolerance : ∃ τ, search.solver.relativeTolerance.scalar = .ok τ

namespace Search

variable {search : Search α} {costate : Tensor α} {it : Iterate α}

/-- The norm at an action is found. -/
theorem exists_measure (hs : search.Ready costate) {action : Tensor α}
    (haction : action.shape = [search.system.model.actionDim.toNat]) {memory : ZeroHorizon.Memory α}
    (hmemory : memory.costate = some costate) (w : Krylov.Workspace α) :
    ∃ it, search.measure action memory w = .ok it := by
  obtain ⟨k, ht⟩ := hs.time
  obtain ⟨g, hg, -⟩ := hs.model.controlGradient ht hs.state haction hs.costate
  rw [measure, ZeroHorizon.runOn_gradient hmemory, hg]
  exact ⟨_, rfl⟩

variable {P : Fault α → Prop} (hP : ∀ w : Krylov.Workspace α, FailsWith P w.coefficients)

include hP

/-- An iteration leads on, or there are no coefficients for its solution. -/
theorem failsWith_advance (hs : search.Ready costate) (hit : it.Measured search costate)
    (haction : it.action.shape = [search.system.model.actionDim.toNat]) :
    FailsWith P (search.advance it) := by
  obtain ⟨k, ht⟩ := hs.time
  obtain ⟨h, hh⟩ := hs.differenceStep
  obtain ⟨τ, hτ⟩ := hs.relativeTolerance
  have hanswers := ZeroHorizon.answers_linearized hs.model ht hs.state hs.costate haction hh
    hs.divisible
  rw [← hs.dim] at hanswers
  have hsolve := Krylov.Solver.failsWith_solve hP hanswers hτ it.workspace hit.remembered
  have hkept := search.solver.preserves_solve
    (search.system.linearized search.time search.state it.action)
    (fun v => ZeroHorizon.preserves_residual _ _ _ v)
    (fun v => ZeroHorizon.preserves_image _ _ _ v) none it.workspace hit.remembered
  have hshape (outcome : Krylov.Outcome α) :
      ((search.solver.solve (search.system.linearized search.time search.state it.action) none
        it.workspace).run it.memory).1.1 = .ok outcome →
        outcome.solution.shape = [search.solver.dim] := Krylov.Solver.shape_solve
  rw [advance]
  generalize (search.solver.solve (search.system.linearized search.time search.state it.action) none
    it.workspace).run it.memory = run at hsolve hkept hshape ⊢
  obtain ⟨⟨answer, w⟩, memory⟩ := run
  dsimp only at hsolve hkept hshape ⊢
  refine FailsWith.bind hsolve fun outcome houtcome => ?_
  have hfits : outcome.solution.shape = it.action.shape := by
    rw [hshape outcome houtcome, hs.dim, haction]
  obtain ⟨action, hincrease⟩ := Tensor.exists_increase hfits
  rw [hincrease, ok_bind]
  obtain ⟨next, hnext⟩ :=
    exists_measure hs ((Tensor.shape_increase hincrease).trans haction) hkept w
  exact .of_ok hnext

theorem failsWith_run (hs : search.Ready costate) (hit : it.Measured search costate)
    (haction : it.action.shape = [search.system.model.actionDim.toNat]) (tolerance : α)
    (left count : ℕ) : FailsWith P (search.run tolerance left count it) := by
  induction left generalizing count it with
  | zero => exact .ok _
  | succ left ih =>
      rw [run]
      refine FailsWith.ite (fun _ => ?_) fun _ => .ok _
      refine FailsWith.bind (failsWith_advance hP hs hit haction) fun next hnext => ?_
      exact ih (measured_advance hit hnext) ((shape_advance hnext).trans haction) _

end Search

end Newton

end RecedingHorizon

import RecedingHorizon.Proofs.InertConstraints
import RecedingHorizon.Proofs.Krylov.Embedded
import RecedingHorizon.Proofs.NewtonSystem

/-!
# Linear systems and the search with constraints that say nothing

With inert constraints the control gradient ends with zeros wherever it is asked for.  So residual
and images of the linear system of a continuation step are those without the constraints, in a
larger space, and the solve finds the same rates of change, with multipliers that are zero.

So it is with each iteration of the search for the initial action, which asks for a direction
starting from zero.  What is added to the action has multipliers that are zero, and the multipliers
of the guess stay as they are.  The norms are the same, and so is what the search comes to.

* `Continuation.solve_beside`: the solve of a continuation step.
* `ZeroHorizon.Replies`, `gradient_of`, `residual_of`, `image_of`: the system of a Newton step for a
  model with responses.
* `Newton.Search.Beside`, `Newton.Iterate.Beside`: searches with and without the constraints.
* `measure_beside`, `advance_beside`, `run_beside`: they go the same way.
* `InitParams.Beside`, `Newton.solve_beside`: what they find.
-/

namespace RecedingHorizon

open Stateful

open scoped Matrix

variable {n m c k : ℕ}

/-! ## The system of a continuation step -/

namespace Continuation

variable {N : ℕ} {r : Responses n m 0} {h ζ t t' δ δ' : ℝ} {x y : Fin n → ℝ} {ρ : Fin k → ℝ}
  {U V : ℕ → Fin (m + 0) → ℝ} {X L E M : ℕ → Fin n → ℝ}

theorem predicted_prolonged (r : Responses n m 0) (N : ℕ) (h t : ℝ) (x : Fin n → ℝ)
    (ρ : Fin k → ℝ) (U : ℕ → Fin (m + 0) → ℝ) :
    predicted (r.inert k) N h t x (prolonged ρ U) = predicted r N h t x U := by
  have hfirst : control (prolonged ρ U 0) = control (U 0) := control_extended ρ (U 0)
  rw [predicted, predicted, hfirst]
  rfl

/-- The residual of a guess whose multipliers are zero is the residual without multipliers, with
zeros. -/
theorem residual_inert {system : Continuation ℝ} (hs : system.Replies (r.inert k) N h ζ)
    (hnow : system.problem.horizon.step t = .ok δ)
    (hnext : system.problem.horizon.step t' = .ok δ') (D : Option (Defects ℝ))
    (F : Option (Tensor ℝ)) (hE : E = (1 - h * ζ) • r.stateDefects t δ x U X)
    (hM : M = (1 - h * ζ) • r.costateDefects t δ U X L N) (v : Fin (N * (m + 0)) → ℝ) :
    runOn (system.residual t (.ofFn x) (.ofFn (flatten N (prolonged ρ U)))
        (.ofFn (embedding N m k v))) (.of N X L t' y D F) =
      (.ok (.ofFn (embedding N m k (flatten N ((h⁻¹ - ζ) • r.stationarity t δ x U X L -
          h⁻¹ • r.condensed t' δ' y (U + h • RecedingHorizon.unflatten N v) E M N)))),
        .of N X L t' y (some ⟨.ofNodes (N + 1) E, .ofNodes (N + 1) M⟩)
          (some (.ofNodes N (widened k (r.condensed t' δ' y U E M N))))) := by
  have hE' : E = (1 - h * ζ) • (r.inert k).stateDefects t δ x (prolonged ρ U) X := by
    rw [Responses.stateDefects_inert, control_prolonged, hE]
  have hM' : M = (1 - h * ζ) • (r.inert k).costateDefects t δ (prolonged ρ U) X L N := by
    rw [Responses.costateDefects_inert, control_prolonged, hM]
  rw [residual_of hs hnow hnext D F hE' hM', unflatten_embedding, ← widened_smul,
    prolonged_add_widened, Responses.stationarity_inert, Responses.condensed_inert,
    Responses.condensed_inert, control_prolonged, control_prolonged, ← widened_smul,
    ← widened_smul, ← widened_sub, ← embedding_flatten]

/-- The image of a direction whose multipliers are zero is the image without multipliers, with
zeros. -/
theorem image_inert {system : Continuation ℝ} (hs : system.Replies (r.inert k) N h ζ)
    (hnext : system.problem.horizon.step t' = .ok δ') (v : Fin (N * (m + 0)) → ℝ) :
    runOn (system.image (.ofFn (flatten N (prolonged ρ U))) (.ofFn (embedding N m k v)))
        (.of N X L t' y (some ⟨.ofNodes (N + 1) E, .ofNodes (N + 1) M⟩)
          (some (.ofNodes N (widened k (r.condensed t' δ' y U E M N))))) =
      (.ok (.ofFn (embedding N m k (flatten N (h⁻¹ • (r.condensed t' δ' y
          (U + h • RecedingHorizon.unflatten N v) E M N - r.condensed t' δ' y U E M N))))),
        .of N X L t' y (some ⟨.ofNodes (N + 1) E, .ofNodes (N + 1) M⟩)
          (some (.ofNodes N (widened k (r.condensed t' δ' y U E M N))))) := by
  have himage := image_of_flat (X := X) (L := L) (y := y) (a := prolonged ρ U) (E := E) (M := M) hs
    hnext (embedding N m k v)
  rw [unflatten_embedding, ← widened_smul, prolonged_add_widened, Responses.condensed_inert,
    Responses.condensed_inert, control_prolonged, control_prolonged, ← widened_sub, ← widened_smul,
    ← embedding_flatten] at himage
  exact himage

/-- The solves find the same rates of change, with multipliers that are zero. -/
theorem solve_beside {system system' : Continuation ℝ} (hs : system.Replies r N h ζ)
    (hs' : system'.Replies (r.inert k) N h ζ) (hnow : system.problem.horizon.step t = .ok δ)
    (hnow' : system'.problem.horizon.step t = .ok δ)
    (hnext : system.problem.horizon.step t' = .ok δ')
    (hnext' : system'.problem.horizon.step t' = .ok δ')
    (hE : E = (1 - h * ζ) • r.stateDefects t δ x U X)
    (hM : M = (1 - h * ζ) • r.costateDefects t δ U X L N) {solver solver' : Krylov.Solver ℝ}
    (hsolver : solver.Beside solver' (N * (m + 0)) (N * (m + k))) {w w' : Krylov.Workspace ℝ}
    (hw : w.rotations.length = solver.limit) (hw' : w'.rotations.length = solver'.limit)
    (D D' : Option (Defects ℝ)) (F F' : Option (Tensor ℝ)) :
    ∃ (o : Krylov.Outcome ℝ) (v : Fin (N * (m + 0)) → ℝ) (u u' : Krylov.Workspace ℝ)
      (G G' : Option (Tensor ℝ)),
      (solver.solve (system.linearized t (.ofFn x) (.ofFn (flatten N U)))
          (some (.ofFn (flatten N V))) w).run (.of N X L t' y D F) =
        ((.ok o, u), .of N X L t' y (some ⟨.ofNodes (N + 1) E, .ofNodes (N + 1) M⟩) G) ∧
      (solver'.solve (system'.linearized t (.ofFn x) (.ofFn (flatten N (prolonged ρ U))))
          (some (.ofFn (flatten N (widened k V)))) w').run (.of N X L t' y D' F') =
        ((.ok { o with solution := .ofFn (embedding N m k v) }, u'),
          .of N X L t' y (some ⟨.ofNodes (N + 1) E, .ofNodes (N + 1) M⟩) G') ∧
      o.solution = .ofFn v ∧ u.rotations.length = solver.limit ∧
      u'.rotations.length = solver'.limit := by
  have hresidual : runOn ((system.linearized t (.ofFn x) (.ofFn (flatten N U))).residual
      (.ofFn (flatten N V))) (.of N X L t' y D F) = _ :=
    residual_of hs hnow hnext D F hE hM (flatten N V)
  have hresidual' : runOn ((system'.linearized t (.ofFn x) (.ofFn (flatten N (prolonged ρ U)))
      ).residual (.ofFn (embedding N m k (flatten N V)))) (.of N X L t' y D' F') = _ :=
    residual_inert hs' hnow' hnext' D' F' hE hM (flatten N V)
  have himage (v : Fin (N * (m + 0)) → ℝ) :
      runOn ((system.linearized t (.ofFn x) (.ofFn (flatten N U))).image (.ofFn v))
        (.of N X L t' y (some ⟨.ofNodes (N + 1) E, .ofNodes (N + 1) M⟩)
          (some (.ofNodes N (r.condensed t' δ' y U E M N)))) = _ := image_of_flat hs hnext v
  have himage' (v : Fin (N * (m + 0)) → ℝ) :
      runOn ((system'.linearized t (.ofFn x) (.ofFn (flatten N (prolonged ρ U)))).image
        (.ofFn (embedding N m k v))) (.of N X L t' y
          (some ⟨.ofNodes (N + 1) E, .ofNodes (N + 1) M⟩)
          (some (.ofNodes N (widened k (r.condensed t' δ' y U E M N))))) = _ :=
    image_inert hs' hnext' v
  obtain ⟨o, u, u', d, hrun, hrun', hsolution, hu, hu'⟩ := Krylov.Solver.solve_embedded
    isIsometric_embedding hsolver hresidual hresidual' himage himage' hw hw'
  rw [← map_add, embedding_flatten] at hrun'
  exact ⟨o, flatten N V + d, u, u', _, _, hrun, hrun', hsolution, hu, hu'⟩

end Continuation

/-! ## The system of a Newton step -/

namespace ZeroHorizon

/-- The linear system of the initial search, of a model with responses and with differences of step
`h`. -/
structure Replies (system : ZeroHorizon ℝ) (r : Responses n m c) (h : ℝ) : Prop where
  model : system.model.Answers r
  differenceStep : system.differenceStep.scalar = .ok h
  step_pos : 0 < h

variable {system : ZeroHorizon ℝ} {r : Responses n m c} {h t : ℝ} {x l : Fin n → ℝ}
  {μ : Memory ℝ}

theorem Replies.repliesAt (hs : system.Replies r h) (t : ℝ) (x l : Fin n → ℝ) :
    system.RepliesAt t (.ofFn x) (.ofFn l) (fun a => r.controlGradient x a l t) h where
  controlGradient a := hs.model.controlGradient x a l t
  differenceStep := hs.differenceStep
  step_pos := hs.step_pos

theorem gradient_of (hs : system.Replies r h) (hμ : μ.costate = some (.ofFn l))
    (a : Fin (m + c) → ℝ) :
    runOn (system.gradient t (.ofFn x) (.ofFn a)) μ =
      (.ok (.ofFn (r.controlGradient x a l t)), μ) :=
  gradient_at (hs.repliesAt t x l) hμ a

theorem image_of (hs : system.Replies r h) (hμ : μ.costate = some (.ofFn l))
    {a F : Fin (m + c) → ℝ} (hbase : μ.base = some (.ofFn F)) (v : Fin (m + c) → ℝ) :
    runOn ((system.linearized t (.ofFn x) (.ofFn a)).image (.ofFn v)) μ =
      (.ok (.ofFn (h⁻¹ • (r.controlGradient x (a + h • v) l t - F))), μ) :=
  image_at (hs.repliesAt t x l) hμ hbase v

theorem residual_of (hs : system.Replies r h) (hμ : μ.costate = some (.ofFn l))
    (a : Fin (m + c) → ℝ) :
    runOn ((system.linearized t (.ofFn x) (.ofFn a)).residual (.ofFn (0 : Fin (m + c) → ℝ))) μ =
      (.ok (.ofFn (-r.controlGradient x a l t)),
        { μ with base := some (.ofFn (r.controlGradient x a l t)) }) :=
  residual_at (hs.repliesAt t x l) hμ a

end ZeroHorizon

/-! ## Two searches -/

/-- Two faults are the same, or those of two searches that find no action, where the one has ended
at an action and the other at the same with the multipliers `ρ`. -/
inductive Fault.Inert (m : ℕ) (ρ : Fin k → ℝ) : Fault ℝ → Fault ℝ → Prop
  | same (e : Fault ℝ) : Inert m ρ e e
  | unconverged (residualNorm : ℝ) (iterations : ℕ) (tolerance : ℝ) (a : Fin (m + 0) → ℝ) :
      Inert m ρ (.unconverged ⟨List.ofFn a, residualNorm, iterations, tolerance⟩)
        (.unconverged ⟨List.ofFn (extended ρ a), residualNorm, iterations, tolerance⟩)

/-- Two faults that are the same but for the multipliers of an action are of one kind. -/
theorem Fault.Inert.kind_eq {ρ : Fin k → ℝ} {e e' : Fault ℝ} (h : e.Inert m ρ e') :
    e'.kind = e.kind := by
  cases h <;> rfl

/-- Parameters of two searches that start from a guess and from the same with the multipliers `ρ`.
-/
structure InitParams.Beside (m : ℕ) (ρ : Fin k → ℝ) (params params' : InitParams ℝ) : Prop where
  guess : ∃ g : Fin (m + 0) → ℝ,
    params.guess = List.ofFn g ∧ params'.guess = List.ofFn (extended ρ g)
  residualTolerance : params'.residualTolerance = params.residualTolerance
  iterationLimit : params'.iterationLimit = params.iterationLimit
  differenceStep : params'.differenceStep = params.differenceStep
  step : ∃ h, params.differenceStep.scalar = .ok h ∧ 0 < h
  solvers : ∃ solver solver', Krylov.Solver.ofExtents (.number (.whole (m + 0 : ℕ)))
      params.krylovLimit defaultRelativeTolerance = .ok solver ∧
    Krylov.Solver.ofExtents (.number (.whole (m + k : ℕ))) params'.krylovLimit
      defaultRelativeTolerance = .ok solver' ∧ solver.Beside solver' (m + 0) (m + k)

namespace Newton

/-- Searches at one time and one state, for a model with responses and with inert constraints. -/
structure Search.Beside (search search' : Search ℝ) (r : Responses n m 0) (k : ℕ) (h t : ℝ)
    (x : Fin n → ℝ) : Prop where
  system : search.system.Replies r h
  system' : search'.system.Replies (r.inert k) h
  solver : search.solver.Beside search'.solver (m + 0) (m + k)
  time : search.time = t
  time' : search'.time = t
  state : search.state = .ofFn x
  state' : search'.state = .ofFn x
  scale : search'.scale = search.scale

/-- Iterates at an action and at the same with the multipliers `ρ`, with one norm. -/
structure Iterate.Beside (m : ℕ) (search search' : Search ℝ) (ρ : Fin k → ℝ) (l : Fin n → ℝ)
    (it it' : Iterate ℝ) : Prop where
  action : ∃ a : Fin (m + 0) → ℝ, it.action = .ofFn a ∧ it'.action = .ofFn (extended ρ a)
  residualNorm : it'.residualNorm = it.residualNorm
  costate : it.memory.costate = some (.ofFn l)
  costate' : it'.memory.costate = some (.ofFn l)
  rotations : it.workspace.rotations.length = search.solver.limit
  rotations' : it'.workspace.rotations.length = search'.solver.limit

variable {search search' : Search ℝ} {r : Responses n m 0} {h t : ℝ} {x l : Fin n → ℝ}
  {ρ : Fin k → ℝ} {E : Fault ℝ → Fault ℝ → Prop} {model model' : Model ℝ}
  {params params' : InitParams ℝ}

theorem measure_beside (hs : search.Beside search' r k h t x) (a : Fin (m + 0) → ℝ)
    {μ μ' : ZeroHorizon.Memory ℝ} (hμ : μ.costate = some (.ofFn l))
    (hμ' : μ'.costate = some (.ofFn l)) {w w' : Krylov.Workspace ℝ}
    (hw : w.rotations.length = search.solver.limit)
    (hw' : w'.rotations.length = search'.solver.limit) :
    Tally E (Iterate.Beside m search search' ρ l) (search.measure (.ofFn a) μ w)
      (search'.measure (.ofFn (extended ρ a)) μ' w') := by
  have hnorm : (Tensor.ofFn (extension m k (r.controlGradient x a l t))).norm =
      (Tensor.ofFn (r.controlGradient x a l t)).norm := by
    rw [Tensor.norm_ofFn, Tensor.norm_ofFn, isIsometric_extension]
  rw [Search.measure, Search.measure, hs.time, hs.time', hs.state, hs.state', hs.scale,
    ZeroHorizon.gradient_of hs.system hμ, ZeroHorizon.gradient_of hs.system' hμ',
    r.controlGradient_extended]
  dsimp only
  rw [ok_bind, ok_bind, hnorm]
  exact .ok ⟨⟨a, rfl, rfl⟩, rfl, hμ, hμ', hw, hw'⟩

/-- An iteration adds multipliers that are zero. -/
theorem advance_beside (hs : search.Beside search' r k h t x) {it it' : Iterate ℝ}
    (hit : it.Beside m search search' ρ l it') :
    Tally E (Iterate.Beside m search search' ρ l) (search.advance it)
      (search'.advance it') := by
  obtain ⟨a, ha, ha'⟩ := hit.action
  have hresidual := ZeroHorizon.residual_of (t := t) (x := x) hs.system hit.costate a
  have hresidual' := ZeroHorizon.residual_of (t := t) (x := x) hs.system' hit.costate'
    (extended ρ a)
  rw [r.controlGradient_extended, ← map_neg] at hresidual'
  have himage (v : Fin (m + 0) → ℝ) := ZeroHorizon.image_of (t := t) (x := x) hs.system
    (μ := { it.memory with base := some (.ofFn (r.controlGradient x a l t)) }) hit.costate
    (a := a) rfl v
  have himage' (v : Fin (m + 0) → ℝ) := ZeroHorizon.image_of (t := t) (x := x) hs.system'
    (μ := { it'.memory with
      base := some (.ofFn (extension m k (r.controlGradient x a l t))) }) hit.costate'
    (a := extended ρ a) rfl (extension m k v)
  simp only [← map_smul, extended_add_extension, r.controlGradient_extended, ← map_sub]
    at himage'
  obtain ⟨o, w, w', y, hrun, hrun', hsolution, hw, hw'⟩ := Krylov.Solver.solve_embedded
    isIsometric_extension hs.solver hresidual hresidual' himage himage' hit.rotations
    hit.rotations'
  rw [zero_add] at hsolution
  rw [Search.advance, Search.advance, hs.time, hs.time', hs.state, hs.state', ha, ha']
  rw [Krylov.Solver.solve_none hs.solver.dim, Krylov.Solver.solve_none hs.solver.dim', hrun, hrun']
  dsimp only
  rw [ok_bind, ok_bind, hsolution, Tensor.increase_ofFn, Tensor.increase_ofFn, ok_bind, ok_bind,
    zero_add, extended_add_extension]
  refine measure_beside hs (a + y) ?_ ?_ hw hw'
  · exact hit.costate
  · exact hit.costate'

/-- With and without inert constraints searches go on for as many iterations. -/
theorem run_beside (hs : search.Beside search' r k h t x) (tolerance : ℝ) (left count : ℕ)
    {it it' : Iterate ℝ} (hit : it.Beside m search search' ρ l it') :
    Tally E (fun last last' => last.1.Beside m search search' ρ l last'.1 ∧
        last'.2 = last.2)
      (search.run tolerance left count it) (search'.run tolerance left count it') := by
  induction left generalizing count it it' with
  | zero => exact .ok ⟨hit, rfl⟩
  | succ left ih =>
      rw [Search.run, Search.run, hit.residualNorm]
      split
      · exact (advance_beside hs hit).bind fun _ _ hnext => ih (count + 1) hnext
      · exact .ok ⟨hit, rfl⟩

/-- Solutions with and without multipliers. -/
structure Solution.Beside (m : ℕ) (ρ : Fin k → ℝ) (solution solution' : Solution ℝ) : Prop where
  action : ∃ a : Fin (m + 0) → ℝ,
    solution.action = .ofFn a ∧ solution'.action = .ofFn (extended ρ a)
  residualNorm : solution'.residualNorm = solution.residualNorm
  iterations : solution'.iterations = solution.iterations

theorem conclude_beside (tolerance : ℝ) {it it' : Iterate ℝ}
    (hit : it.Beside m search search' ρ l it') (count : ℕ) :
    Tally (Fault.Inert m ρ) (Solution.Beside m ρ) (conclude tolerance it count)
      (conclude tolerance it' count) := by
  obtain ⟨a, ha, ha'⟩ := hit.action
  rw [conclude, conclude, hit.residualNorm, ha, ha']
  split
  · exact .ok ⟨⟨a, rfl, rfl⟩, rfl, rfl⟩
  · exact .error (.unconverged _ _ _ a)

/-- Searches set out beside one another. -/
theorem start_beside (hm : model.Answers r) (hm' : model'.Answers (r.inert k))
    (hparams : params.Beside m ρ params') (t : ℝ) (x : Fin n → ℝ) (copies : Datum ℝ) :
    ∃ h, Tally (Fault.Inert m ρ) (fun start start' =>
        start.1.Beside start'.1 r k h t x ∧
        start.2.Beside m start.1 start'.1 ρ (r.terminalGradient x t) start'.2)
      (start model t (.ofFn x) params copies) (start model' t (.ofFn x) params' copies) := by
  obtain ⟨g, hg, hg'⟩ := hparams.guess
  obtain ⟨h, hh, hpos⟩ := hparams.step
  obtain ⟨solver, solver', hsolver, hsolver', hbeside⟩ := hparams.solvers
  have hcostate : model'.terminalGradient (.ofFn x) t = .ok (.ofFn (r.terminalGradient x t)) :=
    hm'.terminalGradient x t
  refine ⟨h, ?_⟩
  rw [start, start]
  simp only [ZeroHorizon.runOn_prepare, hm.terminalGradient, hcostate, hm.actionDim, hm'.actionDim,
    hsolver, hsolver', ok_bind]
  refine .same_bind .same _ fun scale _ => ?_
  have hsearch : Search.Beside ⟨⟨model, params.differenceStep⟩, solver, t, .ofFn x, scale⟩
      ⟨⟨model', params'.differenceStep⟩, solver', t, .ofFn x, scale⟩ r k h t x := by
    refine ⟨⟨hm, hh, hpos⟩, ⟨hm', ?_, hpos⟩, hbeside, rfl, rfl, rfl, rfl, rfl⟩
    rw [hparams.differenceStep]
    exact hh
  rw [hg, hg']
  refine (measure_beside (ρ := ρ) hsearch g rfl rfl List.length_replicate
    List.length_replicate).bind fun first first' hfirst => .ok ⟨hsearch, hfirst⟩

/-- **The search with inert constraints** finds what the search without them does, with the
multipliers of its guess; or neither converges. -/
theorem solve_beside (hm : model.Answers r) (hm' : model'.Answers (r.inert k))
    (hparams : params.Beside m ρ params') (t : ℝ) (x : Fin n → ℝ) (copies : Datum ℝ) :
    Tally (Fault.Inert m ρ) (Solution.Beside m ρ) (solve model t (.ofFn x) params copies)
      (solve model' t (.ofFn x) params' copies) := by
  obtain ⟨h, hstart⟩ := start_beside hm hm' hparams t x copies
  obtain ⟨g, hg, hg'⟩ := hparams.guess
  have hlength : (params.guess.length : ℤ) = model.actionDim := by
    rw [hg, List.length_ofFn, hm.actionDim]
  have hlength' : (params'.guess.length : ℤ) = model'.actionDim := by
    rw [hg', List.length_ofFn, hm'.actionDim]
  rw [solve, solve, if_neg (not_not.2 hlength), if_neg (not_not.2 hlength'),
    hparams.residualTolerance, hparams.iterationLimit]
  refine hstart.bind ?_
  rintro ⟨search, first⟩ ⟨search', first'⟩ ⟨hsearch, hfirst⟩
  refine .same_bind .same _ fun tolerance _ => ?_
  refine (run_beside hsearch tolerance _ 0 hfirst).bind ?_
  rintro ⟨last, _⟩ ⟨last', count⟩ ⟨hlast, rfl⟩
  exact conclude_beside tolerance hlast count

end Newton

end RecedingHorizon

import RecedingHorizon.Newton

/-!
# What a search has found

The search for the initial action carries its residual norm along from one iterate to the
next, and a memory in which the costate was put before the first.  No Krylov solve touches
that costate.  So the norm of every iterate is that of the control gradient at its action,
with the terminal gradient for a costate, measured over the copies that the action will
have; and an action that is found has this norm below the tolerance.  Nothing here depends
on the arithmetic.

* `Krylov.Solver.preserves_solve`: what the residual and the images keep of a memory, a
  solve keeps.
* `Newton.Iterate.Measured`: the norm of an iterate is that of its gradient.
* `Newton.Search.Reaches`: the iterates that a search comes to; `Search.Ran` is what is known of a
  run, and `ran_of_run` says it of every run.
* `Newton.exists_gradient_of_solve`: what is known of an action that was found.
-/

namespace RecedingHorizon

variable {α : Type} [Scalar α]

/-! ## Memories along a solve -/

namespace Krylov.Solver

open Stateful

variable {σ : Type} {equation : Equation (StateM σ) α} {I : σ → Prop}

theorem preserves_iterate (solver : Solver α) (himage : ∀ v, Preserves I (equation.image v))
    (β : α) (left : Nat) (w : Workspace α) {μ : σ} (hμ : I μ) :
    I ((solver.iterate equation β left w).run μ).2 := by
  induction left generalizing w μ with
  | zero => exact hμ
  | succ left ih =>
      rw [iterate, run_bind]
      have hnext := himage (.ofVec w.direction) μ hμ
      unfold runOn at hnext
      rcases ((equation.image (.ofVec w.direction)).run.run μ).1 with fault | image
      · exact hnext
      · dsimp only
        rcases solver.step β image w with ⟨fault | ending | ending, w'⟩
        · exact hnext
        · exact ih w' hnext
        · exact hnext

/-- A solve keeps what the residual and every image keep. -/
theorem preserves_solve (solver : Solver α) (equation : Equation (StateM σ) α)
    (hresidual : ∀ v, Preserves I (equation.residual v))
    (himage : ∀ v, Preserves I (equation.image v)) (guess : Option (Tensor α)) (w : Workspace α)
    {μ : σ} (hμ : I μ) : I ((solver.solve equation guess w).run μ).2 := by
  rw [solve, run_bind]
  have hnext := hresidual (guess.getD (Tensor.zeros [solver.dim])) μ hμ
  unfold runOn at hnext
  rcases ((equation.residual (guess.getD (Tensor.zeros [solver.dim]))).run.run μ).1 with
    fault | residual
  · exact hnext
  · dsimp only
    split
    · exact hnext
    · rcases (residual.divide residual.norm).vector solver.dim with fault | first
      · exact hnext
      · dsimp only
        rw [run_bind]
        exact preserves_iterate solver himage _ _ _ hnext

end Krylov.Solver

namespace ZeroHorizon

open Stateful

variable {system : ZeroHorizon α} {costate : Tensor α}

omit [Scalar α] in
/-- The costate is found, and remembered if there is one. -/
theorem runOn_prepare (system : ZeroHorizon α) (t : Datum α) (x : Tensor α) (μ : Memory α) :
    (system.prepare t x).runOn μ =
      match system.model.terminalGradient x t with
      | .ok costate => (.ok (), { μ with costate := some costate })
      | .error fault => (.error fault, μ) := by
  rw [prepare, runOn_bind, runOn_liftM]
  rcases system.model.terminalGradient x t with fault | costate
  · rfl
  · rfl

omit [Scalar α] in
theorem preserves_gradient {I : Memory α → Prop} (t : Datum α) (x action : Tensor α) :
    Preserves I (system.gradient t x action) := by
  refine Preserves.get_bind fun μ _ => ?_
  exact Preserves.bind (Preserves.needed μ.costate) fun _ => Preserves.liftM _

/-- No image changes what is remembered. -/
theorem preserves_image {I : Memory α → Prop} (t : Datum α) (x action direction : Tensor α) :
    Preserves I (system.image t x action direction) := by
  refine Preserves.get_bind fun μ _ => Preserves.bind (Preserves.needed μ.base) fun base => ?_
  refine Preserves.bind (Preserves.liftM _) fun step => ?_
  refine Preserves.bind (Preserves.liftM _) fun moved => ?_
  refine Preserves.bind (preserves_gradient t x moved) fun next => ?_
  exact Preserves.bind (Preserves.liftM _) fun change => Preserves.liftM _

/-- The residual remembers its base and leaves the costate as it is. -/
theorem preserves_residual (t : Datum α) (x action guess : Tensor α) :
    Preserves (fun μ : Memory α => μ.costate = some costate)
      (system.residual t x action guess) := by
  refine Preserves.bind (preserves_gradient t x action) fun base => ?_
  refine Preserves.bind (Preserves.modify fun μ hμ => hμ) fun _ => ?_
  split
  · exact Preserves.pure _
  · refine Preserves.bind (preserves_image t x action guess) fun image => Preserves.liftM _

omit [Scalar α] in
/-- Where the costate is remembered, the gradient is that of the model. -/
theorem runOn_gradient {t : Datum α} {x : Tensor α} {μ : Memory α} (hμ : μ.costate = some costate)
    (action : Tensor α) :
    (system.gradient t x action).runOn μ =
      (system.model.controlGradient x action costate t, μ) := by
  rw [gradient, runOn_get_bind, runOn_bind, runOn_needed, hμ]
  rfl

end ZeroHorizon

namespace Newton

variable {model : Model α} {t copies : Datum α} {x : Tensor α} {params : InitParams α}

/-! ## The norm of an iterate -/

/-- The norm of an iterate is that of the control gradient at its action. -/
structure Iterate.Measured (it : Iterate α) (search : Search α) (costate : Tensor α) : Prop where
  remembered : it.memory.costate = some costate
  residualNorm : ∃ gradient, search.system.model.controlGradient search.state it.action costate
    search.time = .ok gradient ∧ it.residualNorm = search.scale * gradient.norm

namespace Search

variable {search : Search α} {costate : Tensor α} {it it' : Iterate α}

theorem measured_measure {memory : ZeroHorizon.Memory α} (hmemory : memory.costate = some costate)
    {action : Tensor α} {w : Krylov.Workspace α} (h : search.measure action memory w = .ok it) :
    it.action = action ∧ it.Measured search costate := by
  rw [measure, ZeroHorizon.runOn_gradient hmemory] at h
  obtain ⟨gradient, hgradient, h⟩ := bind_eq_ok_iff.1 h
  cases h
  exact ⟨rfl, hmemory, gradient, hgradient, rfl⟩

/-- An iteration leads to an iterate that is measured as the one before it. -/
theorem measured_advance (hit : it.Measured search costate) (h : search.advance it = .ok it') :
    it'.Measured search costate := by
  obtain ⟨outcome, -, h⟩ := bind_eq_ok_iff.1 h
  obtain ⟨action, -, h⟩ := bind_eq_ok_iff.1 h
  refine (measured_measure ?_ h).2
  exact search.solver.preserves_solve
    (search.system.linearized search.time search.state it.action)
    (fun v => ZeroHorizon.preserves_residual _ _ _ v)
    (fun v => ZeroHorizon.preserves_image _ _ _ v) none it.workspace hit.remembered

/-- After so many iterations a search comes from one iterate to another one. -/
inductive Reaches (search : Search α) : Iterate α → Nat → Iterate α → Prop
  | here (it : Iterate α) : Reaches search it 0 it
  | next {it it' last : Iterate α} {count : Nat} (step : search.advance it = .ok it')
      (rest : Reaches search it' count last) : Reaches search it (count + 1) last

/-- What an iteration preserves holds of every iterate that a search comes to. -/
theorem Reaches.holds {I : Iterate α → Prop}
    (hadvance : ∀ {it it' : Iterate α}, I it → search.advance it = .ok it' → I it') {count : Nat}
    (h : search.Reaches it count it') (hit : I it) : I it' := by
  induction h with
  | here it => exact hit
  | next step _ ih => exact ih (hadvance hit step)

/-- What is known of a run with `left` iterations to go that has taken `count` of them: it has come
to its last iterate, those before have not been below the tolerance, and it has stopped at its limit
or because the last one is not above. -/
structure Ran (search : Search α) (tolerance : α) (left count : Nat) (it last : Iterate α) :
    Prop where
  le : count ≤ left
  reaches : search.Reaches it count last
  earlier : ∀ i u, i < count → search.Reaches it i u → tolerance ≤ u.residualNorm
  stopped : count = left ∨ ¬tolerance ≤ last.residualNorm

theorem ran_of_run {tolerance : α} {left count count' : Nat}
    (h : search.run tolerance left count it = .ok (it', count')) :
    ∃ taken, count' = count + taken ∧ search.Ran tolerance left taken it it' := by
  induction left generalizing count it with
  | zero =>
      cases h
      exact ⟨0, rfl, Nat.le_refl 0, .here _, fun i _ hi => absurd hi (Nat.not_lt_zero i), .inl rfl⟩
  | succ left ih =>
      rw [run] at h
      by_cases hover : tolerance ≤ it.residualNorm
      · rw [if_pos hover] at h
        obtain ⟨next, hnext, h⟩ := bind_eq_ok_iff.1 h
        obtain ⟨taken, rfl, hle, hreaches, hearlier, hstopped⟩ := ih h
        refine ⟨taken + 1, by omega, Nat.succ_le_succ hle, .next hnext hreaches, ?_,
          hstopped.imp_left (congrArg (· + 1))⟩
        intro i u hi hu
        cases hu with
        | here => exact hover
        | next step rest =>
            obtain rfl := Except.ok.inj (hnext.symm.trans step)
            exact hearlier _ u (Nat.lt_of_succ_lt_succ hi) rest
      · rw [if_neg hover] at h
        cases h
        exact ⟨0, rfl, Nat.zero_le _, .here _, fun i _ hi => absurd hi (Nat.not_lt_zero i),
          .inr hover⟩

/-- A search whose iterations lead on comes to its end. -/
theorem exists_run {I : Iterate α → Prop}
    (hadvance : ∀ {it : Iterate α}, I it → ∃ next, search.advance it = .ok next ∧ I next)
    (tolerance : α) (left count : Nat) (hit : I it) :
    ∃ last count', search.run tolerance left count it = .ok (last, count') := by
  induction left generalizing count it with
  | zero => exact ⟨it, count, rfl⟩
  | succ left ih =>
      rw [run]
      by_cases hover : tolerance ≤ it.residualNorm
      · obtain ⟨next, hstep, hnext⟩ := hadvance hit
        rw [if_pos hover, hstep]
        exact ih (count + 1) hnext
      · rw [if_neg hover]
        exact ⟨it, count, rfl⟩

theorem holds_run {I : Iterate α → Prop}
    (hadvance : ∀ {it it' : Iterate α}, I it → search.advance it = .ok it' → I it')
    {tolerance : α} {left count count' : Nat} (hit : I it)
    (h : search.run tolerance left count it = .ok (it', count')) : I it' := by
  obtain ⟨_, -, hran⟩ := ran_of_run h
  exact hran.reaches.holds hadvance hit

theorem measured_run {tolerance : α} {left count count' : Nat} (hit : it.Measured search costate)
    (h : search.run tolerance left count it = .ok (it', count')) : it'.Measured search costate :=
  holds_run measured_advance hit h

end Search

/-! ## The search -/

/-- What a search starts with: the costate is the terminal gradient. -/
theorem start_eq_ok {search : Search α} {first : Iterate α}
    (h : start model t x params copies = .ok (search, first)) :
    ∃ costate, model.terminalGradient x t = .ok costate ∧ search.system.model = model ∧
      search.time = t ∧ search.state = x ∧ copyScale copies = .ok search.scale ∧
      first.Measured search costate := by
  rw [start] at h
  rcases hcostate : model.terminalGradient x t with fault | costate
  · simp only [ZeroHorizon.runOn_prepare, hcostate] at h
    cases h
  · simp only [ZeroHorizon.runOn_prepare, hcostate, ok_bind] at h
    obtain ⟨solver, -, h⟩ := bind_eq_ok_iff.1 h
    obtain ⟨scale, hscale, h⟩ := bind_eq_ok_iff.1 h
    obtain ⟨it, hit, h⟩ := bind_eq_ok_iff.1 h
    cases h
    exact ⟨costate, rfl, rfl, rfl, rfl, hscale, (Search.measured_measure rfl hit).2⟩

theorem conclude_eq_ok_iff {tolerance : α} {it : Iterate α} {count : Nat} :
    conclude tolerance it count = .ok ⟨it.action, it.residualNorm, count⟩ ↔
      it.residualNorm < tolerance := by
  unfold conclude
  split
  · next h => exact iff_of_true rfl h
  · next h => exact iff_of_false (fun h => nomatch h) h

/-- What a search that has started comes to: the verdict on the last iterate of its run. -/
theorem solve_of_start {search : Search α} {first : Iterate α}
    (hguess : (params.guess.length : Int) = model.actionDim)
    (hstart : start model t x params copies = .ok (search, first)) :
    solve model t x params copies = params.residualTolerance.scalar >>= fun tolerance =>
      search.run tolerance params.iterationLimit.toNat 0 first >>= fun run =>
        conclude tolerance run.1 run.2 := by
  rw [solve, if_neg (not_not_intro hguess), hstart]
  rfl

/-- An action that is found is accepted by the tolerance: the norm of the control gradient at
it, with the terminal gradient for a costate and over all copies, is below. -/
theorem exists_gradient_of_solve {found : Solution α}
    (h : solve model t x params copies = .ok found) :
    ∃ costate gradient scale tolerance, model.terminalGradient x t = .ok costate ∧
      model.controlGradient x found.action costate t = .ok gradient ∧
      copyScale copies = .ok scale ∧ params.residualTolerance.scalar = .ok tolerance ∧
      found.residualNorm = scale * gradient.norm ∧ found.residualNorm < tolerance := by
  rw [solve] at h
  by_cases hlength : (params.guess.length : Int) = model.actionDim
  · rw [if_neg (not_not_intro hlength)] at h
    obtain ⟨⟨search, first⟩, hstart, h⟩ := bind_eq_ok_iff.1 h
    obtain ⟨tolerance, htolerance, h⟩ := bind_eq_ok_iff.1 h
    obtain ⟨⟨last, count⟩, hrun, h⟩ := bind_eq_ok_iff.1 h
    obtain ⟨costate, hcostate, hmodel, htime, hstate, hscale, hfirst⟩ := start_eq_ok hstart
    obtain ⟨-, gradient, hgradient, hnorm⟩ := Search.measured_run hfirst hrun
    rw [hmodel, htime, hstate] at hgradient
    dsimp only at h
    rw [conclude] at h
    by_cases hlt : last.residualNorm < tolerance
    · rw [if_pos hlt] at h
      cases h
      exact ⟨costate, gradient, search.scale, tolerance, hcostate, hgradient, hscale, htolerance,
        hnorm, hlt⟩
    · rw [if_neg hlt] at h
      cases h
  · rw [if_pos hlength] at h
    cases h

end Newton

end RecedingHorizon

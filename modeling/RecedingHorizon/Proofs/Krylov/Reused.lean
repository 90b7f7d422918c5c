import RecedingHorizon.Proofs.Krylov.Reported

/-!
# Solves in a used workspace

A solver keeps its workspace from one solve to the next.  A solve clears the directions, the columns
and the right-hand side before it asks anything, but not the rotations, and so it starts among those
of earlier solves, some of them set by a solve that has failed half-way.  It is not aware of them.
With `j` columns there are `j` rotations that it has set itself; a step reads these and sets the
next one, so that what has been left further on is never read.

What is said of two solves is therefore said of *even* workspaces, which are equal but for the
rotations past their columns, and it is said of whatever comes after the solve, provided that this
does not tell even workspaces apart.  In this form it holds in any monad, and so for a solve whose
queries are recorded.  To keep such a record does not change a solve.

* `Solver.Used`: the workspaces that earlier solves may have left.
* `Solver.transcript`: the answer of a solve and everything it has asked; by
  `Solver.fst_transcript` the answer is that of the solve without a record.
* `Solver.iterate_bind_even`, `Solver.solve_bind_eq`: what goes on from a solve.
* `Solver.transcript_used`: in a used workspace a solve has the transcript it has in a fresh one.
-/

namespace RecedingHorizon

namespace Krylov

/-! ## Records -/

namespace Equation

variable {α : Type} {m : Type → Type} [Monad m] [LawfulMonad m] {equation : Equation m α}

theorem run_residual_recorded (guess : Tensor α) (log : List (Query α)) :
    (equation.recorded.residual guess).run.run log =
      (·, log ++ [.residual guess]) <$> (equation.residual guess).run := by
  simp [recorded]

theorem run_image_recorded (direction : Tensor α) (log : List (Query α)) :
    (equation.recorded.image direction).run.run log =
      (·, log ++ [.image direction]) <$> (equation.image direction).run := by
  simp [recorded]

end Equation

namespace Solver

variable {α : Type} [Scalar α] {solver : Solver α} {w w' : Workspace α}

/-! ## What earlier solves leave -/

/-- The workspaces of a solver after any solves, of equations that may remember anything and answer
in any way, or fail, or lead to a solve that fails. -/
inductive Used (solver : Solver α) : Workspace α → Prop
  | fresh : Used solver solver.workspace
  | solved {w : Workspace α} (earlier : Used solver w) {σ : Type} (equation : Equation (StateM σ) α)
      (guess : Option (Tensor α)) (μ : σ) :
      Used solver ((solver.solve equation guess w).run μ).1.2

/-- However a workspace has been used, it has as many rotations as there can be columns. -/
theorem Used.length_rotations (h : solver.Used w) : w.rotations.length = solver.limit := by
  induction h with
  | fresh => exact List.length_replicate
  | solved _ equation guess μ ih => exact (length_rotations_solve guess μ).trans ih

/-- A workspace that has been used can be used by the solve of an equation that remembers nothing.
-/
theorem Used.solved_id (earlier : solver.Used w) (equation : Equation Id α)
    (guess : Option (Tensor α)) : solver.Used (solver.solve equation guess w).run.2 := by
  have hused := earlier.solved (equation.withMemory Unit) guess ()
  rwa [solve_withMemory] at hused

/-! ## What a solve asks and answers -/

variable {m : Type → Type} [Monad m]

/-- The answer of a solve, and what has been asked of the equation until then. -/
def transcript (solver : Solver α) (equation : Equation m α) (guess : Option (Tensor α))
    (w : Workspace α) : m (Except (Fault α) (Outcome α) × List (Query α)) :=
  (Prod.fst <$> solver.solve equation.recorded guess w).run []

variable [LawfulMonad m]

theorem fst_iterate_recorded (equation : Equation m α) (β : α) (left : ℕ) (w : Workspace α)
    (log : List (Query α)) :
    Prod.fst <$> (solver.iterate equation.recorded β left w).run log =
      solver.iterate equation β left w := by
  induction left generalizing w log with
  | zero => rw [iterate, iterate, StateT.run_pure, map_pure]
  | succ left ih =>
      rw [iterate, iterate, StateT.run_bind, Equation.run_image_recorded, map_bind, bind_map_left]
      refine bind_congr fun answer => ?_
      rcases answer with fault | image
      · rw [StateT.run_pure, map_pure]
      · dsimp only
        rcases solver.step β image w with ⟨fault | _ | ending, u⟩
        · rw [StateT.run_pure, map_pure]
        · exact ih u _
        · rw [StateT.run_pure, map_pure]

/-- A solve is not changed by keeping a record of it. -/
theorem fst_solve_recorded (equation : Equation m α) (guess : Option (Tensor α))
    (w : Workspace α) (log : List (Query α)) :
    Prod.fst <$> (solver.solve equation.recorded guess w).run log =
      solver.solve equation guess w := by
  rw [solve, solve, StateT.run_bind, Equation.run_residual_recorded, map_bind, bind_map_left]
  refine bind_congr fun answer => ?_
  rcases answer with fault | residual
  · rw [StateT.run_pure, map_pure]
  · dsimp only
    split
    · rw [StateT.run_pure, map_pure]
    · rcases (residual.divide residual.norm).vector solver.dim with fault | first
      · dsimp only
        rw [StateT.run_pure, map_pure]
      · dsimp only
        rw [StateT.run_bind, map_bind, ← fst_iterate_recorded equation _ _ _
          (log ++ [.residual (guess.getD (Tensor.zeros [solver.dim]))]), bind_map_left]
        refine bind_congr fun run => ?_
        rw [StateT.run_pure, map_pure]

/-- The answer in a transcript is that of the solve. -/
theorem fst_transcript (equation : Equation m α) (guess : Option (Tensor α))
    (w : Workspace α) :
    Prod.fst <$> solver.transcript equation guess w =
      Prod.fst <$> solver.solve equation guess w := by
  rw [transcript, StateT.run_map, ← fst_solve_recorded equation guess w [], ← comp_map, ← comp_map]
  rfl

/-! ## Two solves -/

variable {γ : Type} {equation : Equation m α}

/-- In even workspaces the space grows by the same steps. -/
theorem iterate_bind_even (β : α) (left : ℕ) (hw : w.Even w')
    {next next' : Except (Fault α) Ending × Workspace α → m γ}
    (hnext : ∀ answer u u', u.Even u' → next (answer, u) = next' (answer, u')) :
    solver.iterate equation β left w >>= next = solver.iterate equation β left w' >>= next' := by
  induction left generalizing w w' with
  | zero =>
      rw [iterate, iterate, pure_bind, pure_bind]
      exact hnext _ _ _ hw
  | succ left ih =>
      have hdirection : w'.direction = w.direction := by
        rw [Workspace.direction, Workspace.direction, hw.basis]
      rw [iterate, iterate, bind_assoc, bind_assoc, hdirection]
      refine bind_congr fun answer => ?_
      rcases answer with fault | image
      · rw [pure_bind, pure_bind]
        exact hnext _ _ _ hw
      · obtain ⟨hstep, heven⟩ := solver.step_even hw β image
        dsimp only
        generalize solver.step β image w = run at hstep heven ⊢
        generalize solver.step β image w' = run' at hstep heven ⊢
        obtain ⟨answer, u⟩ := run
        obtain ⟨answer', u'⟩ := run'
        obtain rfl : answer = answer' := hstep
        rcases answer with fault | ending | ending
        · rw [pure_bind, pure_bind]
          exact hnext _ _ _ heven
        · exact ih heven
        · rw [pure_bind, pure_bind]
          exact hnext _ _ _ heven

/-- What goes on with the answer of a solve goes on in the same way from any workspace. -/
theorem solve_bind_eq (hw : w.rotations.length = w'.rotations.length)
    (guess : Option (Tensor α)) (next : Except (Fault α) (Outcome α) → m γ) :
    (solver.solve equation guess w >>= fun run => next run.1) =
      solver.solve equation guess w' >>= fun run => next run.1 := by
  rw [solve, solve, bind_assoc, bind_assoc]
  refine bind_congr fun answer => ?_
  rcases answer with fault | residual
  · rw [pure_bind, pure_bind]
  · dsimp only
    split
    · rw [pure_bind, pure_bind]
    · rcases (residual.divide residual.norm).vector solver.dim with fault | first
      · dsimp only
        rw [pure_bind, pure_bind]
      · dsimp only
        rw [bind_assoc, bind_assoc]
        refine iterate_bind_even _ _ ((Workspace.Even.cleared hw).seeded first _) ?_
        intro answer u u' heven
        rw [pure_bind, pure_bind]
        cases answer with
        | error fault => rfl
        | ok ending => exact congrArg next (solver.conclude_even heven _ _ ending)

/-- Of a workspace no more is seen than how many rotations it has. -/
theorem transcript_eq (hw : w.rotations.length = w'.rotations.length) (equation : Equation m α)
    (guess : Option (Tensor α)) :
    solver.transcript equation guess w = solver.transcript equation guess w' := by
  rw [transcript, transcript, map_eq_pure_bind, map_eq_pure_bind]
  exact congrArg (StateT.run · []) (solve_bind_eq hw guess pure)

/-- **Reuse of a workspace is invisible.**  After any solves a solve gives the answer, or the fault,
that it gives in a fresh workspace, and it has asked the same. -/
theorem transcript_used (hw : solver.Used w) (equation : Equation m α)
    (guess : Option (Tensor α)) :
    solver.transcript equation guess w = solver.transcript equation guess solver.workspace :=
  transcript_eq (hw.length_rotations.trans Used.fresh.length_rotations.symm) equation guess

/-- An equation that has a right-hand side, and no images. -/
noncomputable def imageless : Equation Id ℝ :=
  Equation.ofOperator (fun _ => .error .shapeMismatch) (.ofFn ![1])

/-- The equation of a number whose multiple by `a` is `b`. -/
noncomputable def multiple (a b : ℝ) : Equation Id ℝ :=
  Equation.ofOperator (fun v => .ok (v.scale a)) (.ofFn ![b])

/-- A solve fails with the image of its first direction, which it leaves behind.  The next one, for
the number whose double is three, is not aware of it. -/
theorem transcript_used_failed :
    ∃ w : Workspace ℝ,
      (single.solve imageless none single.workspace).run = (.error .shapeMismatch, w) ∧
      w ≠ single.workspace ∧
      single.transcript (multiple 2 3) none w =
        single.transcript (multiple 2 3) none single.workspace := by
  have hdim : single.dim = 1 := rfl
  have hnorm : (Tensor.ofFn ![(1 : ℝ)]).norm = 1 := by
    rw [Tensor.norm_ofFn]
    simp
  have hrun : (single.solve imageless none single.workspace).run = (.error .shapeMismatch,
      single.workspace.cleared.seeded (List.ofFn ((1 : ℝ)⁻¹ • ![1])) 1) := by
    have hzero : (Tensor.zeros [single.dim] : Tensor ℝ).isZero = true :=
      (congrArg Tensor.isZero Tensor.zeros_eq_ofFn).trans (Tensor.isZero_ofFn.2 rfl)
    have hresidual : (imageless.residual (Tensor.zeros [single.dim])).run =
        (pure (.ok (.ofFn ![1])) : Id _) := congrArg pure (if_pos hzero)
    rw [solve, Option.getD_none, hresidual, pure_bind]
    dsimp only
    rw [hnorm, if_neg (not_lt.2 tiny_le_one), vector_divide_ofFn hdim]
    rfl
  refine ⟨_, hrun, fun hsame => ?_, ?_⟩
  · exact List.cons_ne_nil _ _ (congrArg Workspace.basis hsame)
  · have hfresh : single.Used single.workspace := .fresh
    have hused := hfresh.solved_id imageless none
    rw [hrun] at hused
    exact transcript_used hused _ none

end Solver

end Krylov

end RecedingHorizon

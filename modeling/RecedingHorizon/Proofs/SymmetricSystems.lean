import RecedingHorizon.Continuation
import RecedingHorizon.Newton
import RecedingHorizon.Proofs.Krylov.Carried
import RecedingHorizon.Proofs.Symmetry

/-!
# Symmetries of the linear systems and of the search

The systems that are given to the Krylov solver remember what they have found.  Beside memories of
which one is the other multiplied, told by the other clock, they answer residuals and images that
are multiplied as well.  A multiplication by a sign keeps inner products, so a solve finds the same
components, columns and rotations, and a solution that is multiplied.  So does each iteration of
the search for the initial action, which stops at the same norms.

* `Krylov.Solver.solve_signed`: the solve of a system that has the symmetry.
* `Continuation.Memory.Signed`, `Continuation.residual_symmetric`, `Continuation.image_symmetric`,
  `Continuation.trajectoryRate_symmetric`: the system of a continuation step.
* `ZeroHorizon.residual_symmetric`, `ZeroHorizon.image_symmetric`: that of the search.
* `Newton.solve_symmetric`: the search.
-/

namespace RecedingHorizon

open Stateful

variable {σ : ℝ} {T : Datum ℝ → Datum ℝ → Prop} {E : Fault ℝ → Fault ℝ → Prop}

/-! ## Solves -/

namespace Krylov

/-- The outcome with its solution multiplied. -/
def Outcome.scale {α : Type} [Scalar α] (σ : α) (o : Outcome α) : Outcome α :=
  { o with solution := o.solution.scale σ }

abbrev Outcome.Signed (σ : ℝ) (o o' : Outcome ℝ) : Prop := o' = o.scale σ

theorem isIsometric_sign (hσ : IsSign σ) (n : ℕ) :
    IsIsometric (σ • LinearMap.id : (Fin n → ℝ) →ₗ[ℝ] Fin n → ℝ) := by
  intro u v
  show (σ • u) ⬝ᵥ (σ • v) = u ⬝ᵥ v
  rw [smul_dotProduct, dotProduct_smul, smul_smul, hσ, one_smul]

theorem carriedImage_scale (n : ℕ) (a : Tensor ℝ) :
    CarriedImage (σ • LinearMap.id : (Fin n → ℝ) →ₗ[ℝ] Fin n → ℝ) 1 a (a.scale σ) := by
  by_cases ha : a.shape = [n]
  · obtain ⟨v, rfl⟩ := Tensor.exists_eq_ofFn ha
    left
    refine ⟨v, rfl, ?_⟩
    rw [one_smul, Tensor.scale_ofFn]
    rfl
  · exact .inr ⟨ha, ha⟩

theorem carriedResidual_scale (hσ : IsSign σ) (n : ℕ) (a : Tensor ℝ) :
    CarriedResidual (σ • LinearMap.id : (Fin n → ℝ) →ₗ[ℝ] Fin n → ℝ) 1 a (a.scale σ) where
  norm := by rw [hσ.norm_scale, one_mul]
  tiny := by rw [hσ.norm_scale]
  first := by
    rw [hσ.norm_scale, Tensor.divide_scale, Tensor.vector_scale, Tensor.vector]
    rcases (a.divide a.norm).spread [n] with fault | r
    · exact .error fault
    · obtain ⟨u, hu⟩ := Tensor.exists_eq_ofFn r.2
      have hentries : r.1.entries = List.ofFn u := congrArg Tensor.entries hu
      refine .ok ⟨u, hentries, ?_⟩
      show Vec.scale σ r.1.entries = List.ofFn (σ • u)
      rw [hentries, Vec.scale_ofFn]

/-- Two solves have come to ends that belong together, each in a workspace of its size. -/
structure SignedRun {τ τ' : Type} (σ : ℝ) (E : Fault ℝ → Fault ℝ → Prop) (R : τ → τ' → Prop)
    (limit : ℕ) (run : (Except (Fault ℝ) (Outcome ℝ) × Workspace ℝ) × τ)
    (run' : (Except (Fault ℝ) (Outcome ℝ) × Workspace ℝ) × τ') : Prop where
  answer : Tally E (Outcome.Signed σ) run.1.1 run'.1.1
  memory : R run.2 run'.2
  rotations : run.1.2.rotations.length = limit
  rotations' : run'.1.2.rotations.length = limit

/-- A solve of a system that has the symmetry. -/
theorem Solver.solve_signed (hs : Symmetry σ T E) {τ τ' : Type} {R : τ → τ' → Prop}
    (solver : Solver ℝ) (equation : Equation (StateM τ) ℝ) (equation' : Equation (StateM τ') ℝ)
    (guess : Option (Tensor ℝ))
    (hresidual : ∀ v, Abreast R E (Tensor.Signed σ) (equation.residual v)
      (equation'.residual (v.scale σ)))
    (himage : ∀ v, Abreast R E (Tensor.Signed σ) (equation.image v) (equation'.image (v.scale σ)))
    {w w' : Workspace ℝ} (hw : w.rotations.length = solver.limit)
    (hw' : w'.rotations.length = solver.limit) {μ : τ} {μ' : τ'} (hμ : R μ μ') :
    SignedRun σ E R solver.limit ((solver.solve equation guess w).run μ)
      ((solver.solve equation' (guess.map (Tensor.scale σ)) w').run μ') := by
  have hzeros : (guess.map (Tensor.scale σ)).getD (.zeros [solver.dim]) =
      (guess.getD (.zeros [solver.dim])).scale σ := by
    cases guess with
    | none => exact (Tensor.zeros_map (mul_zero σ) _).symm
    | some g => rfl
  have hvector (v : Fin solver.dim → ℝ) :
      Tensor.ofFn ((σ • LinearMap.id : (Fin solver.dim → ℝ) →ₗ[ℝ] Fin solver.dim → ℝ) v) =
        (Tensor.ofFn v).scale σ := (Tensor.scale_ofFn σ v).symm
  have hrun := solve_carried (P := σ • LinearMap.id) (s := 1) (c := 1) (R := R)
    (G := Tensor.Signed σ) hs.fault (isIsometric_sign hs.sign solver.dim) one_pos one_pos rfl rfl
    rfl rfl guess (guess.map (Tensor.scale σ)) hzeros
    (fun u => by
      rw [hzeros, div_one, one_smul, hvector]
      exact hs.increase _ _)
    (by
      rw [hzeros]
      intro s s' h
      obtain ⟨hanswer, hmemory⟩ := hresidual (guess.getD (.zeros [solver.dim])) s s' h
      refine ⟨hanswer.imp ?_, hmemory⟩
      rintro a _ rfl
      exact carriedResidual_scale hs.sign solver.dim a)
    (fun v => by
      rw [hvector]
      intro s s' h
      obtain ⟨hanswer, hmemory⟩ := himage (.ofFn v) s s' h
      refine ⟨hanswer.imp ?_, hmemory⟩
      rintro a _ rfl
      exact carriedImage_scale solver.dim a)
    hw hw' hμ
  refine ⟨hrun.answer.imp fun o o' h => ?_, hrun.memory, (length_rotations_solve _ _).trans hw,
    (length_rotations_solve _ _).trans hw'⟩
  obtain ⟨solution, iterations, initial, residual, converged, breakdown⟩ := o
  obtain ⟨solution', iterations', initial', residual', converged', breakdown'⟩ := o'
  obtain ⟨hsolution, hiterations, hinitial, hresidual, hconverged, hbreakdown⟩ := h
  dsimp only at hsolution hiterations hinitial hresidual hconverged hbreakdown
  rw [one_mul] at hinitial hresidual
  subst hsolution hiterations hinitial hresidual hconverged hbreakdown
  rfl

end Krylov

/-! ## Continuation -/

namespace Continuation

/-- The linear system of a step on a horizon that starts at another time. -/
def restarted (system : Continuation ℝ) (start : Datum ℝ) : Continuation ℝ :=
  { system with problem := system.problem.restarted start }

/-- Two memories of a step of which the second has all arrays multiplied. -/
structure Memory.Signed (σ : ℝ) (μ μ' : Memory ℝ) : Prop where
  trajectory : μ'.trajectory = μ.trajectory.map (Trajectory.scale σ)
  state : μ'.state = μ.state.map (Tensor.scale σ)
  defects : μ'.defects = μ.defects.map (Defects.scale σ)
  stationarity : μ'.stationarity = μ.stationarity.map (Tensor.scale σ)

/-- Two memories of a step of which the second has all arrays multiplied, and its time told by the
other clock. -/
structure Memory.Timed (σ : ℝ) (T : Datum ℝ → Datum ℝ → Prop) (μ μ' : Memory ℝ) : Prop
    extends Memory.Signed σ μ μ' where
  time : T μ.time μ'.time

variable (hs : Symmetry σ T E) {system : Continuation ℝ}
  (hm : system.problem.model.Symmetric σ T E) {start' : Datum ℝ}
  (hstart : T system.problem.horizon.start start') {t t' : Datum ℝ}

section Arrays

include hs

theorem unflatten_symmetric (system : Continuation ℝ) (start' : Datum ℝ) (flat : Tensor ℝ) :
    Tally E (Tensor.Signed σ) (system.unflatten flat)
      ((system.restarted start').unflatten (flat.scale σ)) :=
  .of_map hs.fault (Tensor.reshape_map _ _ _ flat)

theorem moved_symmetric (system : Continuation ℝ) (start' : Datum ℝ) (u v : Tensor ℝ) :
    Tally E (Tensor.Signed σ) (system.moved u v)
      ((system.restarted start').moved (u.scale σ) (v.scale σ)) := by
  refine (hs.scaleBy system.differenceStep v).bind ?_
  rintro step _ rfl
  exact hs.plusArray u step

theorem scaled_symmetric (d : Defects ℝ) (factor : Datum ℝ) :
    Tally E (Defects.Signed σ) (d.scaled factor) ((d.scale σ).scaled factor) := by
  refine (hs.scaleBy factor d.states).bind ?_
  rintro states _ rfl
  refine (hs.scaleBy factor d.costates).bind ?_
  rintro costates _ rfl
  exact .ok rfl

theorem unguessed_symmetric (system : Continuation ℝ) (start' : Datum ℝ) (present next : Tensor ℝ) :
    Tally E (Tensor.Signed σ) (system.unguessed present next)
      ((system.restarted start').unguessed (present.scale σ) (next.scale σ)) := by
  refine .same_bind hs.fault system.decayRate.negate fun rate _ => ?_
  refine (hs.scaleBy _ present).bind ?_
  rintro decay _ rfl
  refine (hs.minusArray next present).bind ?_
  rintro difference _ rfl
  refine (hs.divideBy system.differenceStep difference).bind ?_
  rintro change _ rfl
  exact hs.minusArray decay change

theorem guessedResidual_symmetric (system : Continuation ℝ) (start' : Datum ℝ)
    (present guessed : Tensor ℝ) :
    Tally E (Tensor.Signed σ) (system.guessedResidual present guessed)
      ((system.restarted start').guessedResidual (present.scale σ) (guessed.scale σ)) := by
  refine .same_bind hs.fault _ fun inverse _ => ?_
  refine .same_bind hs.fault _ fun weight _ => ?_
  refine (hs.scaleBy _ present).bind ?_
  rintro weighted _ rfl
  refine (hs.divideBy system.differenceStep guessed).bind ?_
  rintro change _ rfl
  exact hs.minusArray weighted change

end Arrays

include hs hm

omit hs hm in
/-- Once the point is set, the time that is remembered is one difference step ahead. -/
theorem time_of_prepare {x u : Tensor ℝ} {p : Trajectory ℝ} {μ : Memory ℝ}
    (h : ((system.prepare t x u p).runOn μ).1 = .ok ⟨⟩) :
    ∃ k, t.plus system.differenceStep = .ok k ∧
      ((system.prepare t x u p).runOn μ).2.time = .number k := by
  rcases hk : t.plus system.differenceStep with fault | k
  · rw [prepare, hk] at h
    cases h
  · refine ⟨k, rfl, ?_⟩
    have hkept : Preserves (fun μ : Memory ℝ => μ.time = .number k) (α := ℝ) (do
        if (← u.count) = 0 then modify fun memory => { memory with state := some x }
        else
          let model := system.problem.model
          let rate ← model.dynamics x (← model.control (← u.item 0)) t
          let ahead ← x.plus (← rate.scaleBy system.differenceStep)
          modify fun memory => { memory with state := some ahead }) := by
      refine .liftM_bind fun count _ => ?_
      split
      · exact .modify fun _ hμ => hμ
      · refine .liftM_bind fun first _ => .liftM_bind fun v _ => .liftM_bind fun rate _ => ?_
        refine .liftM_bind fun increment _ => .liftM_bind fun ahead _ => ?_
        exact .modify fun _ hμ => hμ
    rw [prepare, hk]
    exact hkept _ rfl

/-- Setting the point: the arrays stay multiplied, and the time is told by the other clock. -/
theorem prepare_symmetric (start' : Datum ℝ) (ht : T t t') (x u : Tensor ℝ) (p : Trajectory ℝ) :
    Abreast (Memory.Signed σ) E Eq (system.prepare t x u p)
      ((system.restarted start').prepare t' (x.scale σ) (u.scale σ) (p.scale σ)) := by
  refine .modify_bind (fun μ μ' hμ => { hμ with trajectory := rfl }) ?_
  refine .liftM_bind (hs.plus ht system.differenceStep) fun time time' htime => ?_
  refine .modify_bind (fun μ μ' hμ => { hμ with }) ?_
  refine .liftM_bind (.refl hs.fault u.count) ?_
  rintro count _ rfl
  by_cases hcount : count = 0
  · rw [if_pos hcount, if_pos hcount]
    exact .modify fun μ μ' hμ => { hμ with state := rfl }
  · rw [if_neg hcount, if_neg hcount]
    refine .liftM_bind (.of_map hs.fault (Tensor.item_map _ u 0)) ?_
    rintro first _ rfl
    refine .liftM_bind (hs.control system.problem.model first) ?_
    rintro v _ rfl
    refine .liftM_bind (hm.dynamics ht x v) ?_
    rintro rate _ rfl
    refine .liftM_bind (hs.scaleBy system.differenceStep rate) ?_
    rintro increment _ rfl
    refine .liftM_bind (hs.plusArray x increment) ?_
    rintro ahead _ rfl
    exact .modify fun μ μ' hμ => { hμ with state := rfl }

theorem prepare_timed (start' : Datum ℝ) (ht : T t t') {x u : Tensor ℝ} {p : Trajectory ℝ}
    {μ μ' : Memory ℝ} (hμ : μ.Signed σ μ')
    (h : ((system.prepare t x u p).runOn μ).1 = .ok ⟨⟩) :
    Memory.Timed σ T ((system.prepare t x u p).runOn μ).2
      (((system.restarted start').prepare t' (x.scale σ) (u.scale σ) (p.scale σ)).runOn μ').2 := by
  obtain ⟨hanswer, hsigned⟩ := prepare_symmetric hs hm start' ht x u p μ μ' hμ
  obtain ⟨_, h', rfl⟩ := hanswer.exists_ok h
  obtain ⟨k, hk, htime⟩ := time_of_prepare h
  obtain ⟨k', hk', htime'⟩ := time_of_prepare h'
  have htimes := hs.plus ht system.differenceStep
  have hk' : t'.plus system.differenceStep = .ok k' := hk'
  rw [hk, hk'] at htimes
  refine { hsigned with time := ?_ }
  rw [htime, htime']
  cases htimes with
  | ok h => exact h

include hstart

theorem ahead_symmetric (u : Tensor ℝ) :
    Abreast (Memory.Timed σ T) E (fun r r' => r' = (r.1.scale σ, r.2.scale σ)) (system.ahead u)
      ((system.restarted start').ahead (u.scale σ)) := by
  refine .get_bind fun μ μ' hμ => ?_
  rw [hμ.state, hμ.defects]
  refine (Abreast.needed hs.fault _ _).bind ?_
  rintro x _ rfl
  refine (Abreast.needed hs.fault _ _).bind ?_
  rintro defects _ rfl
  exact .liftM (Problem.condensedStationarity_symmetric hs hm hstart hμ.time x u (some defects))

theorem image_symmetric (flat direction : Tensor ℝ) :
    Abreast (Memory.Timed σ T) E (Tensor.Signed σ) (system.image flat direction)
      ((system.restarted start').image (flat.scale σ) (direction.scale σ)) := by
  refine .get_bind fun μ μ' hμ => ?_
  rw [hμ.stationarity]
  refine (Abreast.needed hs.fault _ _).bind ?_
  rintro base _ rfl
  refine .liftM_bind (unflatten_symmetric hs system start' flat) ?_
  rintro u _ rfl
  refine .liftM_bind (unflatten_symmetric hs system start' direction) ?_
  rintro v _ rfl
  refine .liftM_bind (moved_symmetric hs system start' u v) ?_
  rintro moved _ rfl
  refine (ahead_symmetric hs hm hstart moved).bind ?_
  rintro ⟨next, p⟩ _ rfl
  refine .liftM_bind (hs.minusArray next base) ?_
  rintro change _ rfl
  refine .liftM_bind (hs.divideBy system.differenceStep change) ?_
  rintro quotient _ rfl
  exact .pure (Tensor.flat_map _ quotient)

theorem residual_symmetric (ht : T t t') (x flat guess : Tensor ℝ) :
    Abreast (Memory.Timed σ T) E (Tensor.Signed σ) (system.residual t x flat guess)
      ((system.restarted start').residual t' (x.scale σ) (flat.scale σ) (guess.scale σ)) := by
  refine .get_bind fun μ μ' hμ => ?_
  rw [hμ.trajectory]
  refine (Abreast.needed hs.fault _ _).bind ?_
  rintro p _ rfl
  refine .liftM_bind (unflatten_symmetric hs system start' flat) ?_
  rintro u _ rfl
  refine .liftM_bind (Problem.residual_symmetric hs hm hstart ht x u p) ?_
  rintro now _ rfl
  refine .liftM_bind (.refl hs.fault system.decayed) ?_
  rintro factor _ rfl
  refine .liftM_bind (scaled_symmetric hs now.defects factor) ?_
  rintro defects _ rfl
  refine .modify_bind (fun μ μ' hμ => { hμ with defects := rfl }) ?_
  refine (ahead_symmetric hs hm hstart u).bind ?_
  rintro ⟨next, _⟩ _ rfl
  refine .modify_bind (fun μ μ' hμ => { hμ with stationarity := rfl }) ?_
  by_cases hzero : guess.isZero = true
  · rw [if_pos hzero, if_pos ((hs.sign.isZero_scale guess).trans hzero)]
    refine .liftM_bind (unguessed_symmetric hs system start' now.stationarity next) ?_
    rintro b _ rfl
    exact .pure (Tensor.flat_map _ b)
  · rw [if_neg hzero, if_neg ((hs.sign.isZero_scale guess).symm ▸ hzero)]
    refine .liftM_bind (unflatten_symmetric hs system start' guess) ?_
    rintro v _ rfl
    refine .liftM_bind (moved_symmetric hs system start' u v) ?_
    rintro moved _ rfl
    refine (ahead_symmetric hs hm hstart moved).bind ?_
    rintro ⟨guessed, _⟩ _ rfl
    refine .liftM_bind (guessedResidual_symmetric hs system start' now.stationarity guessed) ?_
    rintro b _ rfl
    exact .pure (Tensor.flat_map _ b)

theorem trajectoryRate_symmetric (u v : Tensor ℝ) :
    Abreast (Memory.Timed σ T) E (Trajectory.Signed σ) (system.trajectoryRate u v)
      ((system.restarted start').trajectoryRate (u.scale σ) (v.scale σ)) := by
  refine .get_bind fun μ μ' hμ => ?_
  rw [hμ.trajectory]
  refine (Abreast.needed hs.fault _ _).bind ?_
  rintro p _ rfl
  refine .liftM_bind (moved_symmetric hs system start' u v) ?_
  rintro moved _ rfl
  refine (ahead_symmetric hs hm hstart moved).bind ?_
  rintro ⟨_, next⟩ _ rfl
  refine .liftM_bind (hs.minusArray next.states p.states) ?_
  rintro change _ rfl
  refine .liftM_bind (hs.divideBy system.differenceStep change) ?_
  rintro states _ rfl
  refine .liftM_bind (hs.minusArray next.costates p.costates) ?_
  rintro change _ rfl
  refine .liftM_bind (hs.divideBy system.differenceStep change) ?_
  rintro costates _ rfl
  exact .pure rfl

end Continuation

/-! ## The search -/

namespace ZeroHorizon

/-- Two memories of the initial search of which the second has all arrays multiplied. -/
def Memory.Signed (σ : ℝ) (μ μ' : Memory ℝ) : Prop :=
  μ' = ⟨μ.costate.map (Tensor.scale σ), μ.base.map (Tensor.scale σ)⟩

variable (hs : Symmetry σ T E) {system : ZeroHorizon ℝ} (hm : system.model.Symmetric σ T E)
  {t t' : Datum ℝ}

include hm

theorem prepare_symmetric (ht : T t t') (x : Tensor ℝ) :
    Abreast (Memory.Signed σ) E Eq (system.prepare t x) (system.prepare t' (x.scale σ)) := by
  refine .liftM_bind (hm.terminalGradient ht x) ?_
  rintro costate _ rfl
  refine .modify fun μ μ' hμ => ?_
  obtain rfl := hμ
  rfl

include hs

theorem gradient_symmetric (ht : T t t') (x u : Tensor ℝ) :
    Abreast (Memory.Signed σ) E (Tensor.Signed σ) (system.gradient t x u)
      (system.gradient t' (x.scale σ) (u.scale σ)) := by
  refine .get_bind ?_
  rintro μ _ rfl
  refine (Abreast.needed hs.fault _ _).bind ?_
  rintro costate _ rfl
  exact .liftM (hm.controlGradient ht x u costate)

theorem image_symmetric (ht : T t t') (x u direction : Tensor ℝ) :
    Abreast (Memory.Signed σ) E (Tensor.Signed σ) (system.image t x u direction)
      (system.image t' (x.scale σ) (u.scale σ) (direction.scale σ)) := by
  refine .get_bind ?_
  rintro μ _ rfl
  refine (Abreast.needed hs.fault _ _).bind ?_
  rintro base _ rfl
  refine .liftM_bind (hs.scaleBy system.differenceStep direction) ?_
  rintro step _ rfl
  refine .liftM_bind (hs.plusArray u step) ?_
  rintro moved _ rfl
  refine (gradient_symmetric hs hm ht x moved).bind ?_
  rintro gradient _ rfl
  refine .liftM_bind (hs.minusArray gradient base) ?_
  rintro change _ rfl
  refine .liftM ?_
  unfold quotient
  split
  · exact .error (hs.fault _)
  · exact hs.divideBy system.differenceStep change

theorem residual_symmetric (ht : T t t') (x u guess : Tensor ℝ) :
    Abreast (Memory.Signed σ) E (Tensor.Signed σ) (system.residual t x u guess)
      (system.residual t' (x.scale σ) (u.scale σ) (guess.scale σ)) := by
  refine (gradient_symmetric hs hm ht x u).bind ?_
  rintro base _ rfl
  refine .modify_bind ?_ ?_
  · rintro μ _ rfl
    rfl
  · by_cases hzero : guess.isZero = true
    · rw [if_pos hzero, if_pos ((hs.sign.isZero_scale guess).trans hzero)]
      exact .pure (Tensor.neg_scale σ base)
    · rw [if_neg hzero, if_neg ((hs.sign.isZero_scale guess).symm ▸ hzero)]
      refine (image_symmetric hs hm ht x u guess).bind ?_
      rintro image _ rfl
      refine .liftM ?_
      rw [Tensor.neg_scale]
      exact hs.minusArray base.neg image

end ZeroHorizon

/-- The parameters with the guess multiplied. -/
def InitParams.scale {α : Type} [Scalar α] (σ : α) (params : InitParams α) :
    InitParams α := { params with guess := Vec.scale σ params.guess }

namespace Newton

/-- Searches by two clocks, at states of which the second is the first multiplied. -/
structure Search.Signed (σ : ℝ) (T : Datum ℝ → Datum ℝ → Prop) (search search' : Search ℝ) :
    Prop where
  system : search'.system = search.system
  solver : search'.solver = search.solver
  time : T search.time search'.time
  state : search'.state = search.state.scale σ
  scale : search'.scale = search.scale

/-- Iterates of which the second is the first multiplied, at the same norm. -/
structure Iterate.Signed (σ : ℝ) (search : Search ℝ) (it it' : Iterate ℝ) : Prop where
  action : it'.action = it.action.scale σ
  residualNorm : it'.residualNorm = it.residualNorm
  memory : ZeroHorizon.Memory.Signed σ it.memory it'.memory
  rotations : it.workspace.rotations.length = search.solver.limit
  rotations' : it'.workspace.rotations.length = search.solver.limit

/-- A solution with its action multiplied. -/
def Solution.scale {α : Type} [Scalar α] (σ : α) (solution : Solution α) : Solution α :=
  { solution with action := solution.action.scale σ }

variable (hs : Symmetry σ T E) {search search' : Search ℝ}
  (hm : search.system.model.Symmetric σ T E) (h : search.Signed σ T search')

include hs hm h

theorem measure_symmetric (u : Tensor ℝ) {μ μ' : ZeroHorizon.Memory ℝ}
    (hμ : ZeroHorizon.Memory.Signed σ μ μ') {w w' : Krylov.Workspace ℝ}
    (hw : w.rotations.length = search.solver.limit)
    (hw' : w'.rotations.length = search.solver.limit) :
    Tally E (Iterate.Signed σ search) (search.measure u μ w)
      (search'.measure (u.scale σ) μ' w') := by
  obtain ⟨system, solver, time', state', scale⟩ := search'
  obtain ⟨rfl, rfl, htime, rfl, rfl⟩ := h
  obtain ⟨hanswer, hmemory⟩ := ZeroHorizon.gradient_symmetric hs hm htime search.state u μ μ' hμ
  refine hanswer.bind ?_
  rintro gradient _ rfl
  exact .ok ⟨rfl, congrArg (search.scale * ·) (hs.sign.norm_scale gradient), hmemory, hw, hw'⟩

theorem advance_symmetric {it it' : Iterate ℝ} (hit : it.Signed σ search it') :
    Tally E (Iterate.Signed σ search) (search.advance it) (search'.advance it') := by
  have hsearch := h
  obtain ⟨system, solver, time', state', scale⟩ := search'
  obtain ⟨rfl, rfl, htime, rfl, rfl⟩ := h
  obtain ⟨action', norm', memory', workspace'⟩ := it'
  obtain ⟨rfl, rfl, hmemory, hw, hw'⟩ := hit
  obtain ⟨hanswer, hleft, hlength, hlength'⟩ := Krylov.Solver.solve_signed hs search.solver
    (search.system.linearized search.time search.state it.action)
    (search.system.linearized time' (search.state.scale σ) (it.action.scale σ)) none
    (fun v => ZeroHorizon.residual_symmetric hs hm htime search.state it.action v)
    (fun v => ZeroHorizon.image_symmetric hs hm htime search.state it.action v) hw hw' hmemory
  unfold Search.advance
  dsimp only [Option.map_none] at hanswer hleft hlength' ⊢
  generalize (search.solver.solve (search.system.linearized search.time search.state it.action)
    none it.workspace).run it.memory = run at hanswer hleft hlength ⊢
  generalize (search.solver.solve (search.system.linearized time' (search.state.scale σ)
    (it.action.scale σ)) none workspace').run memory' = run' at hanswer hleft hlength' ⊢
  obtain ⟨⟨answer, w₁⟩, μ₁⟩ := run
  obtain ⟨⟨answer', w₁'⟩, μ₁'⟩ := run'
  refine hanswer.bind ?_
  rintro outcome _ rfl
  refine (hs.increase it.action outcome.solution).bind ?_
  rintro action _ rfl
  exact measure_symmetric hs hm hsearch action hleft hlength hlength'

/-- The iterations belong together, and are as many. -/
theorem run_symmetric (tolerance : ℝ) (left count : ℕ) {it it' : Iterate ℝ}
    (hit : it.Signed σ search it') :
    Tally E (fun last last' => last.1.Signed σ search last'.1 ∧ last'.2 = last.2)
      (search.run tolerance left count it) (search'.run tolerance left count it') := by
  induction left generalizing count it it' with
  | zero => exact .ok ⟨hit, rfl⟩
  | succ left ih =>
      rw [Search.run, Search.run, hit.residualNorm]
      split
      · exact (advance_symmetric hs hm h hit).bind fun _ _ hnext => ih (count + 1) hnext
      · exact .ok ⟨hit, rfl⟩

omit hs hm h

/-- The verdict on iterates that belong together. -/
theorem conclude_symmetric (hs : Symmetry σ T E) {search : Search ℝ} (tolerance : ℝ)
    {it it' : Iterate ℝ} (hit : it.Signed σ search it') (count : ℕ) :
    Tally E (fun solution solution' => solution' = solution.scale σ)
      (conclude tolerance it count) (conclude tolerance it' count) := by
  unfold conclude
  rw [hit.action, hit.residualNorm]
  split
  · exact .ok rfl
  · exact .error (hs.unconverged _)

/-- Searches set out from iterates that belong together. -/
theorem start_symmetric (hs : Symmetry σ T E) {model : Model ℝ} (hm : model.Symmetric σ T E)
    {t t' : Datum ℝ} (ht : T t t') (x : Tensor ℝ) (params : InitParams ℝ) (copies : Datum ℝ) :
    Tally E (fun start start' => start.1.system.model = model ∧ start.1.Signed σ T start'.1 ∧
        start.2.Signed σ start.1 start'.2)
      (start model t x params copies) (start model t' (x.scale σ) (params.scale σ) copies) := by
  have hsystem : (⟨model, params.differenceStep⟩ : ZeroHorizon ℝ).model.Symmetric σ T E := hm
  obtain ⟨hanswer, hmemory⟩ := ZeroHorizon.prepare_symmetric hsystem ht x {} {} rfl
  unfold start
  dsimp only
  refine hanswer.bind fun _ _ _ => ?_
  refine .same_bind hs.fault _ fun solver _ => .same_bind hs.fault _ fun scale _ => ?_
  have hguess : Tensor.ofVec (params.scale σ).guess = (Tensor.ofVec params.guess).scale σ :=
    Tensor.ext_of_entries (by simp [InitParams.scale, Tensor.scale]) rfl
  rw [hguess]
  have hfresh : solver.workspace.rotations.length = solver.limit := List.length_replicate
  have hsearch : Search.Signed σ T ⟨⟨model, params.differenceStep⟩, solver, t, x, scale⟩
      ⟨⟨model, params.differenceStep⟩, solver, t', x.scale σ, scale⟩ := ⟨rfl, rfl, ht, rfl, rfl⟩
  refine (measure_symmetric hs hm hsearch (.ofVec params.guess) hmemory hfresh hfresh).bind
    fun first first' hfirst => .ok ⟨rfl, hsearch, hfirst⟩

/-- A search finds what another one finds multiplied. -/
theorem solve_symmetric (hs : Symmetry σ T E) {model : Model ℝ} (hm : model.Symmetric σ T E)
    {t t' : Datum ℝ} (ht : T t t') (x : Tensor ℝ) (params : InitParams ℝ) (copies : Datum ℝ) :
    Tally E (fun solution solution' => solution' = solution.scale σ)
      (solve model t x params copies) (solve model t' (x.scale σ) (params.scale σ) copies) := by
  have hlength : (params.scale σ).guess.length = params.guess.length := Vec.length_scale _ _
  unfold solve
  rw [hlength]
  split
  · exact .error (hs.fault _)
  · refine (start_symmetric hs hm ht x params copies).bind ?_
    rintro ⟨search, first⟩ ⟨search', first'⟩ ⟨hmodel, hsearch, hfirst⟩
    have hsymmetric : search.system.model.Symmetric σ T E := hmodel ▸ hm
    refine .same_bind hs.fault _ fun tolerance _ => ?_
    refine (run_symmetric hs hsymmetric hsearch tolerance _ 0 hfirst).bind ?_
    rintro ⟨last, _⟩ ⟨last', count⟩ ⟨hlast, rfl⟩
    exact conclude_symmetric hs tolerance hlast count

end Newton

end RecedingHorizon

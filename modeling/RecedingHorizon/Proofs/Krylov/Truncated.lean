import RecedingHorizon.Proofs.Krylov.Reused
import RecedingHorizon.Proofs.Krylov.Termination

/-!
# Solves that are cut short

The number of directions that a solver may use is no part of any of its steps.  A solve that may use
more of them asks for the same directions in the same order, and then perhaps for more; where the
other one has stopped for a reason of its own, it stops as well.  This needs nothing of the equation
but that it answers the same question in the same way, and in particular it need not be linear.

The two solves work in workspaces of different sizes.  As used workspaces cannot be told apart from
fresh ones, the larger one may be taken to be the smaller one *padded* with rotations that are not
set; and what a growth does in a workspace it does in the padded one, as long as the room there was
is enough.  The rest is bookkeeping along a `Growth`: how many directions have been asked for, how
many columns there are, and that a rotation never lengthens what it leaves of the right-hand side.

* `Solver.Growth`: a growth with the directions it asks for; `Growth.extend` lets it go on.
* `Workspace.padded`, `Growth.padded`: growth in a larger workspace.
* `Solver.Advanced`, `Workspace.Step`, `Solver.Counts`: what a step can do, and what a step and a
  growth do to the numbers that are reported.
* `Solver.Solves`: a solve with the directions it asks for, and `Solves.extend`.
* `Outcome.Counted`: the numbers that an outcome reports.
* `Solver.transcript_truncated`: two solves with different limits.
-/

namespace RecedingHorizon

namespace Krylov

namespace Solver

variable {α : Type} {next : Workspace α → Except (Fault α) (Option Ending) × Workspace α}
  {left more : ℕ} {w w' u : Workspace α} {asked : List (Tensor α)}
  {answer : Except (Fault α) Ending}

/-! ## Growth -/

/-- The growth by steps `next` of at most so many directions: those that are asked for, how it ends,
and the workspace it leaves. -/
inductive Growth (next : Workspace α → Except (Fault α) (Option Ending) × Workspace α) :
    ℕ → Workspace α → List (Tensor α) → Except (Fault α) Ending → Workspace α → Prop
  | limit (w : Workspace α) : Growth next 0 w [] (.ok .limit) w
  | failed {left : ℕ} {w u : Workspace α} {fault : Fault α} (step : next w = (.error fault, u)) :
      Growth next (left + 1) w [.ofVec w.direction] (.error fault) u
  | ended {left : ℕ} {w u : Workspace α} {ending : Ending}
      (step : next w = (.ok (some ending), u)) :
      Growth next (left + 1) w [.ofVec w.direction] (.ok ending) u
  | grown {left : ℕ} {w w' u : Workspace α} {asked : List (Tensor α)}
      {answer : Except (Fault α) Ending} (step : next w = (.ok none, w'))
      (rest : Growth next left w' asked answer u) :
      Growth next (left + 1) w (.ofVec w.direction :: asked) answer u

namespace Growth

theorem exists_growth (next : Workspace α → Except (Fault α) (Option Ending) × Workspace α)
    (left : ℕ) (w : Workspace α) : ∃ asked answer u, Growth next left w asked answer u := by
  induction left generalizing w with
  | zero => exact ⟨_, _, _, .limit w⟩
  | succ left ih =>
      rcases hstep : next w with ⟨fault | _ | ending, w'⟩
      · exact ⟨_, _, _, .failed hstep⟩
      · obtain ⟨asked, answer, u, h⟩ := ih w'
        exact ⟨_, _, _, .grown hstep h⟩
      · exact ⟨_, _, _, .ended hstep⟩

/-- A growth with more directions goes on from its limit, and is the same if it has ended before. -/
theorem extend (h : Growth next left w asked answer u)
    (hnext : ∀ w u, next w ≠ (.ok (some .limit), u)) (more : ℕ) :
    ∃ rest answer' u', Growth next (left + more) w (asked ++ rest) answer' u' ∧
      (answer ≠ .ok .limit → rest = [] ∧ answer' = answer ∧ u' = u) ∧
      (answer = .ok .limit → Growth next more u rest answer' u') := by
  induction h with
  | limit w =>
      obtain ⟨rest, answer', u', h⟩ := exists_growth next more w
      refine ⟨rest, answer', u', ?_, fun hlimit => absurd rfl hlimit, fun _ => h⟩
      rwa [Nat.zero_add]
  | @failed left w u fault step =>
      refine ⟨[], .error fault, u, ?_, fun _ => ⟨rfl, rfl, rfl⟩, fun h => nomatch h⟩
      rw [Nat.add_right_comm]
      exact .failed step
  | @ended left w u ending step =>
      refine ⟨[], .ok ending, u, ?_, fun _ => ⟨rfl, rfl, rfl⟩, fun h => ?_⟩
      · rw [Nat.add_right_comm]
        exact .ended step
      · cases h
        exact absurd step (hnext w u)
  | @grown left w w' u asked answer step _ ih =>
      obtain ⟨rest, answer', u', hgrowth, hsame, hmore⟩ := ih
      refine ⟨rest, answer', u', ?_, hsame, hmore⟩
      rw [Nat.add_right_comm]
      exact .grown step hgrowth

end Growth

variable [Scalar α] {solver : Solver α} {equation : Equation Id α} {β : α}

/-- One step: the image of the latest direction is asked for and taken in. -/
def advance (solver : Solver α) (equation : Equation Id α) (β : α) (w : Workspace α) :
    Except (Fault α) (Option Ending) × Workspace α :=
  match (equation.image (.ofVec w.direction)).run.run with
  | .error fault => (.error fault, w)
  | .ok image => solver.step β image w

/-- What a step can do: it is refused, it ends the growth, or the growth goes on unless the residual
is within the tolerance. -/
inductive Advanced (solver : Solver α) (β : α) (w : Workspace α) :
    Except (Fault α) (Option Ending) → Workspace α → Prop
  | refused (fault : Fault α) : Advanced solver β w (.error fault) w
  | ended (image : Vec α) {ending : Ending} (h : (w.absorb image).2 = some ending) :
      Advanced solver β w (.ok (some ending)) (w.absorb image).1
  | grown (image : Vec α) (h : (w.absorb image).2 = none) :
      Advanced solver β w ((solver.within β (w.absorb image).1).map fun reached =>
        if reached then some .tolerance else none) (w.absorb image).1

theorem advanced_of_advance {step : Except (Fault α) (Option Ending)}
    (h : solver.advance equation β w = (step, u)) : solver.Advanced β w step u := by
  rw [advance] at h
  rcases himage : (equation.image (.ofVec w.direction)).run.run with fault | image
  · rw [himage] at h
    cases h
    exact .refused fault
  · rw [himage] at h
    dsimp only at h
    rw [Solver.step] at h
    rcases hvector : solver.imageVector image with fault | v
    · rw [hvector] at h
      cases h
      exact .refused fault
    · rw [hvector] at h
      dsimp only at h
      rcases habsorb : w.absorb v with ⟨w', _ | ending⟩
      · rw [habsorb] at h
        cases h
        have hgrown : solver.Advanced β w _ _ := .grown v (congrArg Prod.snd habsorb)
        rwa [habsorb] at hgrown
      · rw [habsorb] at h
        cases h
        have hended : solver.Advanced β w _ _ := .ended v (congrArg Prod.snd habsorb)
        rwa [habsorb] at hended

theorem advance_ne_limit (w u : Workspace α) :
    solver.advance equation β w ≠ (.ok (some .limit), u) := by
  intro h
  obtain ⟨answer, hanswer⟩ : ∃ answer : Except (Fault α) (Option Ending),
      answer = .ok (some .limit) := ⟨_, rfl⟩
  rw [← hanswer] at h
  cases advanced_of_advance h with
  | refused fault => cases hanswer
  | ended image hending =>
      cases hanswer
      rcases w.absorb_ending image with h | h | h
      all_goals cases hending.symm.trans h
  | grown image _ =>
      rcases hwithin : solver.within β (w.absorb image).1 with fault | _ | _
      all_goals
        rw [hwithin] at hanswer
        cases hanswer

theorem run_iterate_recorded_succ (solver : Solver α) (equation : Equation Id α) (β : α) (left : ℕ)
    (w : Workspace α) (log : List (Query α)) :
    (solver.iterate equation.recorded β (left + 1) w).run log =
      match solver.advance equation β w with
      | (.error fault, u) => ((.error fault, u), log ++ [.image (.ofVec w.direction)])
      | (.ok (some ending), u) => ((.ok ending, u), log ++ [.image (.ofVec w.direction)])
      | (.ok none, u) => (solver.iterate equation.recorded β left u).run
          (log ++ [.image (.ofVec w.direction)]) := by
  have himage : (equation.recorded.image (.ofVec w.direction)).run.run log =
      ((equation.image (.ofVec w.direction)).run.run, log ++ [.image (.ofVec w.direction)]) := rfl
  rw [iterate, Stateful.run_bind, himage, advance]
  rcases (equation.image (.ofVec w.direction)).run.run with fault | image
  · rfl
  · dsimp only
    rcases solver.step β image w with ⟨_ | _ | _, u⟩ <;> rfl

/-- The record of a growth. -/
theorem Growth.run_iterate (h : Growth (solver.advance equation β) left w asked answer u)
    (log : List (Query α)) :
    (solver.iterate equation.recorded β left w).run log =
      ((answer, u), log ++ asked.map .image) := by
  induction h generalizing log with
  | limit w =>
      rw [List.map_nil, List.append_nil]
      rfl
  | failed step =>
      rw [run_iterate_recorded_succ, step]
      rfl
  | ended step =>
      rw [run_iterate_recorded_succ, step]
      rfl
  | grown step _ ih =>
      rw [run_iterate_recorded_succ, step]
      dsimp only
      rw [ih, List.append_assoc]
      rfl

end Solver

/-! ## Columns -/

/-- The images that have been asked for but have no column: that of a singular step, if there was
one. -/
def Ending.columnless : Option Ending → ℕ
  | some .singular => 1
  | _ => 0

/-- What a step does to the numbers of rotations and columns. -/
structure Workspace.Step {α : Type} (w : Workspace α) (answer : Except (Fault α) (Option Ending))
    (u : Workspace α) : Prop where
  rotations : u.rotations.length = w.rotations.length
  columns_le : w.columns.length ≤ u.columns.length
  columns : ∀ ending, answer = .ok ending →
    u.columns.length + Ending.columnless ending = w.columns.length + 1

namespace Workspace

variable {α : Type} [Scalar α] {w : Workspace α}

theorem step_absorb (w : Workspace α) (image : Vec α) :
    w.Step (.ok (w.absorb image).2) (w.absorb image).1 := by
  refine ⟨length_rotations_absorb w image, ?_, fun ending h => ?_⟩
  · unfold absorb
    dsimp only
    split
    · exact le_rfl
    · rw [List.length_append]
      exact Nat.le_add_right _ _
  · obtain rfl := Except.ok.inj h
    unfold absorb
    dsimp only
    split
    · rfl
    · rw [List.length_append]
      split <;> rfl

end Workspace

namespace Solver

variable {α : Type} [Scalar α] {solver : Solver α} {equation : Equation Id α} {β : α}
  {left : ℕ} {w u : Workspace α} {asked : List (Tensor α)} {answer : Except (Fault α) Ending}

theorem Advanced.step {answer : Except (Fault α) (Option Ending)}
    (h : solver.Advanced β w answer u) : w.Step answer u := by
  cases h with
  | refused fault => exact ⟨rfl, le_rfl, fun _ h => nomatch h⟩
  | ended image hending => exact hending ▸ w.step_absorb image
  | grown image hending =>
      obtain ⟨hrotations, hle, hcolumns⟩ := w.step_absorb image
      refine ⟨hrotations, hle, fun ending h => ?_⟩
      rcases hwithin : solver.within β (w.absorb image).1 with fault | _ | _
      all_goals
        rw [hwithin] at h
        cases h
      all_goals exact hcolumns none (congrArg Except.ok hending)

/-- What a growth does to the number of columns. -/
structure Counts (left : ℕ) (w : Workspace α) (asked : List (Tensor α))
    (answer : Except (Fault α) Ending) (u : Workspace α) : Prop where
  asked_le : asked.length ≤ left
  limit : answer = .ok .limit → asked.length = left
  columns_le : w.columns.length ≤ u.columns.length
  columns : ∀ ending, answer = .ok ending →
    u.columns.length + Ending.columnless (some ending) = w.columns.length + asked.length

theorem Growth.counts (h : Growth (solver.advance equation β) left w asked answer u) :
    Counts left w asked answer u := by
  induction h with
  | limit w =>
      refine ⟨le_rfl, fun _ => rfl, le_rfl, fun ending h => ?_⟩
      cases h
      rfl
  | @failed left w u fault step =>
      have hstep := (advanced_of_advance step).step
      exact ⟨Nat.le_add_left _ _, (nomatch ·), hstep.columns_le, fun _ h => nomatch h⟩
  | @ended left w u ending step =>
      have hstep := (advanced_of_advance step).step
      refine ⟨Nat.le_add_left _ _, fun h => ?_, hstep.columns_le, fun ending' h => ?_⟩
      · cases h
        exact absurd step (advance_ne_limit w u)
      · cases h
        exact hstep.columns _ rfl
  | @grown left w w' u asked answer step _ ih =>
      have hstep := (advanced_of_advance step).step
      have hcolumns : w'.columns.length = w.columns.length + 1 := hstep.columns none rfl
      refine ⟨Nat.succ_le_succ ih.asked_le, fun h => congrArg (· + 1) (ih.limit h),
        hstep.columns_le.trans ih.columns_le, fun ending h => ?_⟩
      rw [ih.columns ending h, hcolumns, List.length_cons]
      omega

end Solver

/-! ## Growth in a larger workspace -/

namespace Workspace

variable {α : Type} [Scalar α] {w : Workspace α}

/-- The workspace with room for more rotations. -/
def padded (w : Workspace α) (more : ℕ) : Workspace α :=
  { w with rotations := w.rotations ++ List.replicate more Rotation.unset }

theorem length_rotations_padded (w : Workspace α) (more : ℕ) :
    (w.padded more).rotations.length = w.rotations.length + more := by
  rw [padded, List.length_append, List.length_replicate]

/-- A step that finds room for its rotation does not need more. -/
theorem absorb_padded (hroom : w.columns.length < w.rotations.length) (more : ℕ)
    (image : Vec α) :
    (w.padded more).absorb image =
      ((w.absorb image).1.padded more, (w.absorb image).2) := by
  unfold absorb padded
  dsimp only
  rw [List.take_append_of_le_length hroom.le]
  split
  · rfl
  · rw [List.set_append_left _ _ hroom]

end Workspace

namespace Solver

variable {α : Type} [Scalar α] {solver : Solver α} {equation : Equation Id α} {β : α}
  {left more : ℕ} {w w' u : Workspace α} {asked : List (Tensor α)}
  {answer : Except (Fault α) Ending}

theorem step_padded (hroom : w.columns.length < w.rotations.length) (more : ℕ)
    (image : Tensor α) :
    solver.step β image (w.padded more) =
      ((solver.step β image w).1, (solver.step β image w).2.padded more) := by
  rw [step, step]
  rcases solver.imageVector image with fault | v
  · rfl
  · dsimp only
    rw [Workspace.absorb_padded hroom]
    rcases w.absorb v with ⟨u, _ | ending⟩ <;> rfl

theorem advance_padded (hroom : w.columns.length < w.rotations.length) (more : ℕ) :
    solver.advance equation β (w.padded more) =
      ((solver.advance equation β w).1, (solver.advance equation β w).2.padded more) := by
  have hdirection : (w.padded more).direction = w.direction := rfl
  rw [advance, advance, hdirection]
  rcases (equation.image (.ofVec w.direction)).run.run with fault | image
  · rfl
  · exact step_padded hroom more image

/-- A growth that finds room for its rotations does not need more. -/
theorem Growth.padded (h : Growth (solver.advance equation β) left w asked answer u)
    (hroom : w.columns.length + left ≤ w.rotations.length) (more : ℕ) :
    Growth (solver.advance equation β) left (w.padded more) asked answer (u.padded more) := by
  induction h with
  | limit w => exact .limit _
  | @failed left w u fault step =>
      refine .failed ?_
      rw [advance_padded (by omega), step]
  | @ended left w u ending step =>
      refine .ended ?_
      rw [advance_padded (by omega), step]
  | @grown left w w' u asked answer step _ ih =>
      have hstep := (advanced_of_advance step).step
      have hcolumns : w'.columns.length = w.columns.length + 1 := hstep.columns none rfl
      have hrotations := hstep.rotations
      refine .grown ?_ (ih (by omega))
      rw [advance_padded (by omega), step]

end Solver

/-! ## Solves -/

/-- Whether a solve has ended with a singular step: its space has stopped growing, and it has not
succeeded. -/
def Outcome.isSingular {α : Type} (outcome : Outcome α) : Bool :=
  outcome.breakdown && !outcome.converged

namespace Solver

section Solves

variable {α : Type} [Scalar α] {solver : Solver α} {equation : Equation Id α} {β : α}
  {guess : Tensor α} {w u : Workspace α} {asked : List (Tensor α)}
  {answer : Except (Fault α) (Outcome α)} {outcome : Outcome α} {ending : Ending}

theorem iterations_conclude (h : solver.conclude guess β w ending = .ok outcome) :
    outcome.iterations = w.columns.length := by
  obtain ⟨_, -, h⟩ := bind_eq_ok_iff.1 h
  obtain ⟨_, -, h⟩ := bind_eq_ok_iff.1 h
  cases h
  rfl

theorem breakdown_conclude (h : solver.conclude guess β w ending = .ok outcome) :
    outcome.breakdown = (ending == .breakdown || ending == .singular) := by
  obtain ⟨_, -, h⟩ := bind_eq_ok_iff.1 h
  obtain ⟨_, -, h⟩ := bind_eq_ok_iff.1 h
  cases h
  rfl

/-- A singular ending shows in the outcome, and no other one is taken for it. -/
theorem isSingular_conclude (h : solver.conclude guess β w ending = .ok outcome) :
    outcome.isSingular = (ending == .singular) := by
  obtain ⟨_, -, h⟩ := bind_eq_ok_iff.1 h
  obtain ⟨success, hsuccess, h⟩ := bind_eq_ok_iff.1 h
  cases h
  cases ending with
  | limit => rfl
  | tolerance => rfl
  | breakdown =>
      cases hsuccess
      rfl
  | singular =>
      cases hsuccess
      rfl

/-- A solve from a guess: the directions that are asked for, and the answer. -/
inductive Solves (solver : Solver α) (equation : Equation Id α) (guess : Tensor α)
    (w : Workspace α) : List (Tensor α) → Except (Fault α) (Outcome α) → Prop
  | failed {fault : Fault α} (residual : (equation.residual guess).run.run = .error fault) :
      Solves solver equation guess w [] (.error fault)
  | tiny {r : Tensor α} (residual : (equation.residual guess).run.run = .ok r)
      (small : r.norm < Scalar.tiny) :
      Solves solver equation guess w [] (.ok (exact guess r.norm))
  | refused {r : Tensor α} {fault : Fault α}
      (residual : (equation.residual guess).run.run = .ok r) (large : ¬r.norm < Scalar.tiny)
      (first : (r.divide r.norm).vector solver.dim = .error fault) :
      Solves solver equation guess w [] (.error fault)
  | grown {r : Tensor α} {v : Vec α} {asked : List (Tensor α)} {ending : Except (Fault α) Ending}
      {u : Workspace α} (residual : (equation.residual guess).run.run = .ok r)
      (large : ¬r.norm < Scalar.tiny) (first : (r.divide r.norm).vector solver.dim = .ok v)
      (growth : Growth (solver.advance equation r.norm) solver.limit
        (w.cleared.seeded v r.norm) asked ending u) :
      Solves solver equation guess w asked (ending.bind (solver.conclude guess r.norm u))

namespace Solves

theorem exists_solves (solver : Solver α) (equation : Equation Id α) (guess : Tensor α)
    (w : Workspace α) : ∃ asked answer, solver.Solves equation guess w asked answer := by
  rcases hresidual : (equation.residual guess).run.run with fault | r
  · exact ⟨_, _, .failed hresidual⟩
  · by_cases hsmall : r.norm < Scalar.tiny
    · exact ⟨_, _, .tiny hresidual hsmall⟩
    · rcases hfirst : (r.divide r.norm).vector solver.dim with fault | v
      · exact ⟨_, _, .refused hresidual hsmall hfirst⟩
      · obtain ⟨asked, ending, u, hgrowth⟩ := Growth.exists_growth
          (solver.advance equation r.norm) solver.limit (w.cleared.seeded v r.norm)
        exact ⟨_, _, .grown hresidual hsmall hfirst hgrowth⟩

/-- The residual is asked for once, before any image, and then the images of the directions. -/
theorem run_transcript {guess : Option (Tensor α)}
    (h : solver.Solves equation (guess.getD (Tensor.zeros [solver.dim])) w asked answer) :
    (solver.transcript equation guess w).run =
      (answer, .residual (guess.getD (Tensor.zeros [solver.dim])) :: asked.map .image) := by
  have hasked : (equation.recorded.residual (guess.getD (Tensor.zeros [solver.dim]))).run.run [] =
      ((equation.residual (guess.getD (Tensor.zeros [solver.dim]))).run.run,
        [.residual (guess.getD (Tensor.zeros [solver.dim]))]) := rfl
  have hrun : (solver.transcript equation guess w).run =
      (((solver.solve equation.recorded guess w).run []).1.1,
        ((solver.solve equation.recorded guess w).run []).2) := rfl
  rw [hrun, solve, Stateful.run_bind, hasked]
  cases h with
  | failed residual =>
      rw [residual]
      rfl
  | tiny residual small =>
      rw [residual]
      dsimp only
      rw [if_pos small]
      rfl
  | refused residual large first =>
      rw [residual]
      dsimp only
      rw [if_neg large, first]
      rfl
  | grown residual large first growth =>
      rw [residual]
      dsimp only
      rw [if_neg large, first]
      dsimp only
      rw [Stateful.run_bind, growth.run_iterate]
      rfl

end Solves

end Solves

end Solver

/-! ## What is left of the right-hand side -/

/-- A rotation onto an axis leaves no more of a number than there was. -/
theorem Rotation.abs_turn_toAxis_le (pivot height a : ℝ) :
    |((Rotation.toAxis pivot height (Scalar.hypot pivot height)).turn a 0).2| ≤ |a| := by
  have hsine : |height / Scalar.hypot pivot height| ≤ 1 := by
    rw [abs_div]
    refine div_le_one_of_le₀ ?_ (abs_nonneg _)
    calc |height| ≤ √(pivot ^ 2 + height ^ 2) :=
          Real.abs_le_sqrt (le_add_of_nonneg_left (sq_nonneg pivot))
      _ ≤ |Scalar.hypot pivot height| := le_abs_self _
  rw [Workspace.turn_zero, abs_mul, abs_neg]
  exact mul_le_of_le_one_left (abs_nonneg a) hsine

theorem Workspace.abs_remainder_absorb (w : Workspace ℝ) (image : Vec ℝ) :
    |(w.absorb image).1.remainder| ≤ |w.remainder| := by
  unfold absorb
  dsimp only
  split
  · exact le_rfl
  · exact Rotation.abs_turn_toAxis_le _ _ _

namespace Solver

variable {solver : Solver ℝ} {equation : Equation Id ℝ} {β τ : ℝ} {left more : ℕ}
  {w u : Workspace ℝ} {asked : List (Tensor ℝ)}

theorem Advanced.abs_remainder_le {answer : Except (Fault ℝ) (Option Ending)}
    (h : solver.Advanced β w answer u) : |u.remainder| ≤ |w.remainder| := by
  cases h with
  | refused fault => exact le_rfl
  | ended image _ => exact w.abs_remainder_absorb image
  | grown image _ => exact w.abs_remainder_absorb image

theorem Growth.abs_remainder_le {answer : Except (Fault ℝ) Ending}
    (h : Growth (solver.advance equation β) left w asked answer u) :
    |u.remainder| ≤ |w.remainder| := by
  induction h with
  | limit w => exact le_rfl
  | failed step => exact (advanced_of_advance step).abs_remainder_le
  | ended step => exact (advanced_of_advance step).abs_remainder_le
  | grown step _ ih => exact ih.trans (advanced_of_advance step).abs_remainder_le

/-- A step ends the growth at the tolerance if it has come within it. -/
theorem Advanced.within (hτ : solver.relativeTolerance.scalar = .ok τ)
    {answer : Except (Fault ℝ) (Option Ending)} (h : solver.Advanced β w answer u)
    (hanswer : answer = .ok (some .tolerance)) : |u.remainder| ≤ τ * β := by
  cases h with
  | refused fault => cases hanswer
  | ended image hending =>
      cases hanswer
      rcases w.absorb_ending image with h | h | h
      all_goals cases hending.symm.trans h
  | grown image _ =>
      rw [within_eq hτ] at hanswer
      by_contra hover
      rw [decide_eq_false hover] at hanswer
      cases hanswer

theorem Growth.within (hτ : solver.relativeTolerance.scalar = .ok τ)
    {answer : Except (Fault ℝ) Ending}
    (h : Growth (solver.advance equation β) left w asked answer u)
    (hanswer : answer = .ok .tolerance) : |u.remainder| ≤ τ * β := by
  induction h with
  | limit w => cases hanswer
  | failed step => cases hanswer
  | ended step =>
      cases hanswer
      exact (advanced_of_advance step).within hτ rfl
  | grown _ _ ih => exact ih hanswer

end Solver

/-! ## What an outcome counts -/

/-- The numbers of an outcome beside the directions that were asked for: there is one direction for
each iteration, and one more if the last step was singular; no more is left of the residual than
there was; and a solve that has used less than its limit has broken down or come within the
tolerance. -/
structure Outcome.Counted (τ : ℝ) (limit : ℕ) (asked : List (Tensor ℝ)) (outcome : Outcome ℝ) :
    Prop where
  length : asked.length = outcome.iterations + if outcome.isSingular then 1 else 0
  residualNorm_le : outcome.residualNorm ≤ outcome.initialResidualNorm
  stopped : Scalar.tiny ≤ outcome.initialResidualNorm → outcome.iterations < limit →
    outcome.breakdown = true ∨ outcome.residualNorm ≤ τ * outcome.initialResidualNorm

theorem Outcome.Counted.iterations_le {τ : ℝ} {limit : ℕ} {asked : List (Tensor ℝ)}
    {outcome : Outcome ℝ} (h : outcome.Counted τ limit asked) :
    outcome.iterations ≤ asked.length := by
  rw [h.length]
  exact Nat.le_add_right _ _

namespace Solver

variable {solver : Solver ℝ} {equation : Equation Id ℝ} {guess : Tensor ℝ} {β τ : ℝ}
  {w u : Workspace ℝ} {asked : List (Tensor ℝ)} {answer : Except (Fault ℝ) (Outcome ℝ)}
  {outcome : Outcome ℝ}

theorem Solves.length_le (h : solver.Solves equation guess w asked answer) :
    asked.length ≤ solver.limit := by
  cases h with
  | failed _ => exact Nat.zero_le _
  | tiny _ _ => exact Nat.zero_le _
  | refused _ _ _ => exact Nat.zero_le _
  | grown _ _ _ growth => exact growth.counts.asked_le

theorem Solves.counted (hτ : solver.relativeTolerance.scalar = .ok τ)
    (h : solver.Solves equation guess w asked answer) (houtcome : answer = .ok outcome) :
    outcome.Counted τ solver.limit asked := by
  cases h with
  | failed _ => cases houtcome
  | @tiny r _ small =>
      cases houtcome
      exact ⟨rfl, le_rfl, fun hlarge => absurd small (not_lt.2 hlarge)⟩
  | refused _ _ _ => cases houtcome
  | @grown r v asked answer u _ large _ growth =>
      obtain ⟨ending, rfl, hconclude⟩ := bind_eq_ok_iff.1 houtcome
      have hcounts := growth.counts
      have hcolumns : u.columns.length + Ending.columnless (some ending) = 0 + asked.length :=
        hcounts.columns ending rfl
      have hiterations := iterations_conclude hconclude
      have hinitial := initialResidualNorm_conclude hconclude
      have hnorm := residualNorm_conclude hconclude
      have hpos : 0 < r.norm := tiny_pos.trans_le (not_lt.1 large)
      refine ⟨?_, ?_, fun _ hless => ?_⟩
      · rw [hiterations, isSingular_conclude hconclude, ← asked.length.zero_add, ← hcolumns]
        cases ending <;> rfl
      · rw [hnorm, hinitial]
        exact growth.abs_remainder_le.trans (abs_of_pos hpos).le
      · -- of the four endings, the one at the limit has used as many directions as there may be
        rw [hnorm, hinitial, breakdown_conclude hconclude]
        cases ending with
        | limit =>
            have hlimit := hcounts.limit rfl
            have hall : u.columns.length + 0 = 0 + asked.length := hcolumns
            omega
        | tolerance => exact .inr (growth.within hτ rfl)
        | breakdown => exact .inl rfl
        | singular => exact .inl rfl

end Solver

/-! ## Two solves -/

/-- The second of two outcomes has gone on from where the first one has come to its limit. -/
structure Outcome.Further (limit : ℕ) (outcome outcome' : Outcome ℝ) : Prop where
  iterations : outcome.iterations = limit
  le_iterations : limit ≤ outcome'.iterations
  initialResidualNorm : outcome'.initialResidualNorm = outcome.initialResidualNorm
  residualNorm_le : outcome'.residualNorm ≤ outcome.residualNorm

namespace Solver

variable {solver : Solver ℝ} {equation : Equation Id ℝ} {guess : Tensor ℝ} {w : Workspace ℝ}
  {asked : List (Tensor ℝ)} {answer : Except (Fault ℝ) (Outcome ℝ)}

/-- What becomes of a solve if it may use more directions: nothing, or it has come to its limit and
goes on from there. -/
inductive Extends (limit : ℕ) (asked : List (Tensor ℝ)) (answer : Except (Fault ℝ) (Outcome ℝ)) :
    List (Tensor ℝ) → Except (Fault ℝ) (Outcome ℝ) → Prop
  | same (enough : asked.length ≤ limit) : Extends limit asked answer asked answer
  | more {rest : List (Tensor ℝ)} {answer' : Except (Fault ℝ) (Outcome ℝ)}
      (full : asked.length = limit)
      (further : ∀ outcome outcome', answer = .ok outcome → answer' = .ok outcome' →
        outcome.Further limit outcome') :
      Extends limit asked answer (asked ++ rest) answer'

theorem Solves.extend (h : solver.Solves equation guess w asked answer)
    (hw : w.rotations.length = solver.limit) (more : ℕ) :
    ∃ asked' answer', Solves { solver with limit := solver.limit + more } equation guess
        (w.padded more) asked' answer' ∧ Extends solver.limit asked answer asked' answer' := by
  cases h with
  | failed residual => exact ⟨[], _, .failed residual, .same (Nat.zero_le _)⟩
  | tiny residual small => exact ⟨[], _, .tiny residual small, .same (Nat.zero_le _)⟩
  | refused residual large first =>
      exact ⟨[], _, .refused residual large first, .same (Nat.zero_le _)⟩
  | @grown r v asked ending u residual large first growth =>
      have hcounts := growth.counts
      have hroom : 0 + solver.limit ≤ w.rotations.length := by rw [hw, Nat.zero_add]
      obtain ⟨rest, ending', u', hgrowth, hsame, hmore⟩ :=
        (growth.padded hroom more).extend advance_ne_limit more
      refine ⟨asked ++ rest, ending'.bind (solver.conclude guess r.norm u'),
        .grown residual large first hgrowth, ?_⟩
      by_cases hlimit : ending = .ok .limit
      · refine .more (hcounts.limit hlimit) fun outcome outcome' h h' => ?_
        have hrest := hmore hlimit
        subst hlimit
        obtain ⟨stop, -, hconclude'⟩ := bind_eq_ok_iff.1 h'
        have hcolumns : u.columns.length + 0 = 0 + asked.length := hcounts.columns _ rfl
        have hconclude : solver.conclude guess r.norm u .limit = .ok outcome := h
        have hall : u.columns.length = solver.limit := by
          rw [← hcounts.limit rfl]
          omega
        refine ⟨(iterations_conclude hconclude).trans hall, ?_, ?_, ?_⟩
        · rw [iterations_conclude hconclude', ← hall]
          exact hrest.counts.columns_le
        · rw [initialResidualNorm_conclude hconclude, initialResidualNorm_conclude hconclude']
        · rw [residualNorm_conclude hconclude, residualNorm_conclude hconclude']
          exact hrest.abs_remainder_le
      · obtain ⟨rfl, rfl, rfl⟩ := hsame hlimit
        rw [List.append_nil]
        exact .same hcounts.asked_le

theorem Extends.eq_take {limit k : ℕ} {asked' : List (Tensor ℝ)}
    {answer' : Except (Fault ℝ) (Outcome ℝ)} (h : Extends limit asked answer asked' answer')
    (hlimit : limit ≤ k) (hk : k = limit ∨ asked'.length ≤ limit) : asked = asked'.take k := by
  cases h with
  | same enough => exact (List.take_of_length_le (enough.trans hlimit)).symm
  | @more rest answer' full _ =>
      rcases hk with rfl | hlength
      · rw [← full, List.take_left]
      · obtain rfl : rest = [] := by
          rw [List.length_append, full] at hlength
          exact List.eq_nil_of_length_eq_zero (by omega)
        rw [List.append_nil]
        exact (List.take_of_length_le (full.le.trans hlimit)).symm

theorem Extends.outcomes {limit : ℕ} {τ : ℝ} {asked' : List (Tensor ℝ)}
    {answer' : Except (Fault ℝ) (Outcome ℝ)} {outcome outcome' : Outcome ℝ}
    (h : Extends limit asked answer asked' answer') (ho : answer = .ok outcome)
    (ho' : answer' = .ok outcome') (hcounted : outcome.Counted τ limit asked) :
    outcome.iterations = min limit outcome'.iterations ∧
      outcome.initialResidualNorm = outcome'.initialResidualNorm ∧
      outcome'.residualNorm ≤ outcome.residualNorm := by
  cases h with
  | same enough =>
      obtain rfl : outcome = outcome' := Except.ok.inj (ho.symm.trans ho')
      have hle := hcounted.iterations_le.trans enough
      exact ⟨(min_eq_right hle).symm, rfl, le_rfl⟩
  | more _ further =>
      obtain ⟨hiterations, hle, hinitial, hnorm⟩ := further _ _ ho ho'
      exact ⟨hiterations.trans (min_eq_left hle).symm, hinitial.symm, hnorm⟩

/-- An equation that answers vectors with vectors is answered with an outcome. -/
theorem exists_outcome {n : ℕ} {τ : ℝ} (hdim : solver.dim = n)
    (hτ : solver.relativeTolerance.scalar = .ok τ) (hw : w.rotations.length = solver.limit)
    {x₀ : Option (Fin n → ℝ)}
    (hresidual : ∃ r : Fin n → ℝ, (equation.residual (.ofFn (x₀.getD 0))).run.run = .ok (.ofFn r))
    (himage : ∀ v : Fin n → ℝ, ∃ z : Fin n → ℝ,
      (equation.image (.ofFn v)).run.run = .ok (.ofFn z)) :
    ∃ outcome, (solver.transcript equation (x₀.map .ofFn) w).run.1 = .ok outcome := by
  obtain ⟨r, hr⟩ := hresidual
  choose g hg using himage
  have hresidual : Stateful.runOn ((equation.withMemory Unit).residual (.ofFn (x₀.getD 0))) () =
      (.ok (.ofFn r), ()) := congrArg (·, ()) hr
  obtain ⟨outcome, w', x, hrun, -⟩ :=
    solve_spec hdim hτ hresidual (fun v => congrArg (·, ()) (hg v)) hw
  rw [← solve_map hdim, solve_withMemory] at hrun
  have hsame := congrArg Id.run (solver.fst_transcript equation (x₀.map .ofFn) w)
  exact ⟨outcome, hsame.trans (congrArg (fun run => run.1.1) hrun)⟩

/-- **Truncation is a prefix.**  Two solves of an equation from the same guess, laid out for `k₁`
and for at least as many directions: the residual is asked for once, before any image, and the
directions that the first asks for are the first `k₁` that the second one does.  Where both are
answered, the first has used the smaller of `k₁` and the number of directions the second has used,
and no less is left of the residual. -/
theorem transcript_truncated {n k₁ k₂ : ℕ} (hk : k₁ ≤ k₂) {rtol : Datum ℝ} {τ : ℝ}
    (hτ : rtol.scalar = .ok τ) {solver₁ solver₂ : Solver ℝ}
    (h₁ : ofExtents (.number (.whole n)) (.number (.whole k₁)) rtol = .ok solver₁)
    (h₂ : ofExtents (.number (.whole n)) (.number (.whole k₂)) rtol = .ok solver₂)
    {w₁ w₂ : Workspace ℝ} (hw₁ : solver₁.Used w₁) (hw₂ : solver₂.Used w₂)
    (equation : Equation Id ℝ) (guess : Option (Tensor ℝ)) :
    ∃ (asked₁ asked₂ : List (Tensor ℝ)) (answer₁ answer₂ : Except (Fault ℝ) (Outcome ℝ)),
      (solver₁.transcript equation guess w₁).run =
        (answer₁, .residual (guess.getD (Tensor.zeros [n])) :: asked₁.map .image) ∧
      (solver₂.transcript equation guess w₂).run =
        (answer₂, .residual (guess.getD (Tensor.zeros [n])) :: asked₂.map .image) ∧
      asked₁ = asked₂.take k₁ ∧
      (∀ outcome, answer₁ = .ok outcome → outcome.Counted τ (min k₁ n) asked₁) ∧
      (∀ outcome, answer₂ = .ok outcome → outcome.Counted τ (min k₂ n) asked₂) ∧
      (∀ outcome₁ outcome₂, answer₁ = .ok outcome₁ → answer₂ = .ok outcome₂ →
        outcome₁.iterations = min k₁ outcome₂.iterations ∧
        outcome₁.initialResidualNorm = outcome₂.initialResidualNorm ∧
        outcome₂.residualNorm ≤ outcome₁.residualNorm) ∧
      ∀ x₀ : Option (Fin n → ℝ), guess = x₀.map .ofFn →
        (∃ r : Fin n → ℝ, (equation.residual (.ofFn (x₀.getD 0))).run.run = .ok (.ofFn r)) →
        (∀ v : Fin n → ℝ, ∃ z : Fin n → ℝ,
          (equation.image (.ofFn v)).run.run = .ok (.ofFn z)) →
        (∃ outcome, answer₁ = .ok outcome) ∧ ∃ outcome, answer₂ = .ok outcome := by
  obtain rfl := eq_of_ofExtents_whole h₁
  obtain rfl := eq_of_ofExtents_whole h₂
  have hrotations₁ := hw₁.length_rotations
  have hrotations₂ := hw₂.length_rotations
  -- the second solve might as well work in the workspace of the first, padded
  obtain ⟨more, hmore⟩ : ∃ more, min k₂ n = min k₁ n + more :=
    Nat.exists_eq_add_of_le (min_le_min_right n hk)
  have hpadded : w₂.rotations.length = (w₁.padded more).rotations.length := by
    rw [Workspace.length_rotations_padded, hrotations₁, hrotations₂, hmore]
  obtain ⟨asked₁, answer₁, hsolves₁⟩ := Solves.exists_solves ⟨n, min k₁ n, rtol⟩ equation
    (guess.getD (Tensor.zeros [n])) w₁
  obtain ⟨asked₂, answer₂, hsolves₂, hextends⟩ := hsolves₁.extend hrotations₁ more
  rw [← hmore] at hsolves₂
  have hrun₁ := hsolves₁.run_transcript
  have hrun₂ := hsolves₂.run_transcript
  rw [← transcript_eq hpadded] at hrun₂
  have hmany : asked₂.length ≤ n := hsolves₂.length_le.trans (min_le_right _ _)
  refine ⟨asked₁, asked₂, answer₁, answer₂, hrun₁, hrun₂, ?_,
    fun _ h => hsolves₁.counted hτ h, fun _ h => hsolves₂.counted hτ h, fun o₁ o₂ h₁ h₂ => ?_,
    fun x₀ hx hresidual himage => ?_⟩
  · refine hextends.eq_take (min_le_left _ _) ?_
    rcases le_total k₁ n with hle | hle
    · exact .inl (min_eq_left hle).symm
    · exact .inr (hmany.trans (min_eq_right hle).ge)
  · obtain ⟨hiterations, hnorms⟩ := hextends.outcomes h₁ h₂ (hsolves₁.counted hτ h₁)
    have hle : o₂.iterations ≤ n := (hsolves₂.counted hτ h₂).iterations_le.trans hmany
    rw [min_assoc, min_eq_right hle] at hiterations
    exact ⟨hiterations, hnorms⟩
  · subst hx
    obtain ⟨o₁, ho₁⟩ := exists_outcome rfl hτ hrotations₁ hresidual himage
    obtain ⟨o₂, ho₂⟩ := exists_outcome rfl hτ hrotations₂ hresidual himage
    rw [hrun₁] at ho₁
    rw [hrun₂] at ho₂
    exact ⟨⟨o₁, ho₁⟩, o₂, ho₂⟩

/-- An equation with the residual `r` that is not linear: the image of a direction has its entries
squared. -/
noncomputable def squares {n : ℕ} (r : Fin n → ℝ) : Equation Id ℝ where
  residual _ := pure (.ofFn r)
  image v := pure (.ofVec (v.entries.map fun x => x * x))

theorem image_squares {n : ℕ} (r v : Fin n → ℝ) :
    (squares r).image (.ofFn v) = pure (.ofFn (v * v)) :=
  congrArg (fun v => pure (Tensor.ofVec v)) (List.map_ofFn (f := v) (g := fun x => x * x))

/-- The squares of two entries are asked for the same first direction, with one direction and with
two. -/
theorem transcript_truncated_squares :
    ∃ (asked₁ asked₂ : List (Tensor ℝ)) (o₁ o₂ : Outcome ℝ),
      ((⟨2, 1, .number (.real 0)⟩ : Solver ℝ).transcript (squares ![3, 4]) none
          (Workspace.fresh 1)).run =
        (.ok o₁, .residual (Tensor.zeros [2]) :: asked₁.map .image) ∧
      ((⟨2, 2, .number (.real 0)⟩ : Solver ℝ).transcript (squares ![3, 4]) none
          (Workspace.fresh 2)).run =
        (.ok o₂, .residual (Tensor.zeros [2]) :: asked₂.map .image) ∧
      asked₁ = asked₂.take 1 ∧ o₁.iterations = min 1 o₂.iterations ∧
      o₂.residualNorm ≤ o₁.residualNorm ∧ o₁.residualNorm ≤ o₁.initialResidualNorm := by
  have hτ : (Datum.number (.real 0)).scalar = (.ok 0 : Except (Fault ℝ) ℝ) := rfl
  obtain ⟨asked₁, asked₂, answer₁, answer₂, hrun₁, hrun₂, htake, hcounted₁, -, hboth, hanswers⟩ :=
    transcript_truncated (Nat.le_succ 1) hτ (ofExtents_whole (hasRoom_two _))
      (ofExtents_whole (hasRoom_two _)) .fresh .fresh (squares ![3, 4]) none
  have himages (v : Fin 2 → ℝ) : ∃ z : Fin 2 → ℝ,
      ((squares ![3, 4]).image (.ofFn v)).run.run = .ok (.ofFn z) :=
    ⟨v * v, by rw [image_squares]; rfl⟩
  obtain ⟨⟨o₁, rfl⟩, o₂, rfl⟩ := hanswers none rfl ⟨![3, 4], rfl⟩ himages
  obtain ⟨hiterations, -, hnorm⟩ := hboth o₁ o₂ rfl rfl
  exact ⟨asked₁, asked₂, o₁, o₂, hrun₁, hrun₂, htake, hiterations, hnorm,
    (hcounted₁ o₁ rfl).residualNorm_le⟩

end Solver

end Krylov

end RecedingHorizon

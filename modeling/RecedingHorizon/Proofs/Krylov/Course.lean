import RecedingHorizon.Proofs.Krylov.Truncated

/-!
# The course of a solve

A step splits the image of the latest direction into its components along the directions and what is
left of it.  The components make a column, and the length of the rest stands below them.  But the
column does not stay as it is: it is turned, and the length is turned away.  What is said of the
columns before that is said of what the steps have had in their hands, and so the solve is followed
along its *course*.  Each state of it holds the directions that have been asked for, the *raw*
columns of the images that have been taken in, what the last step has answered, and the workspace.

The steps of a course are those of the solve.  The one that ends a solve is among them, and so is
the one in which a question is not answered, or not with a vector: then nothing is taken in.  As
long as nothing has gone wrong there is a raw column for each direction that has been asked for.

* `Workspace.rawColumn`, `Workspace.basis_absorb`: the column of a step before it is turned, and the
  direction that a step adds.
* `Solver.BrokeDown`: the answers of a step in which the space has stopped growing.
* `Solver.Course`: the states that a solve passes through.
* `Solver.Growth.course`, `Solver.exists_course`: a solve has a course, and all that it asks for and
  reports is found at the end of it.
* `parabola`, `course_parabola`: an equation that is not linear, and a course that ends with a
  singular step.
-/

namespace RecedingHorizon

/-- The entry that has been put at the end. -/
theorem Vec.getD_concat {α : Type} [Zero α] {v : Vec α} {k : ℕ} (hv : v.length = k) (a : α) :
    (v ++ [a]).getD k 0 = a := by
  rw [← hv, List.getD_append_right _ _ _ _ le_rfl, Nat.sub_self]
  rfl

/-- What is found after something has been put at the end. -/
theorem getElem?_concat_eq_some {β : Type} {l : List β} {a b : β} {j : ℕ}
    (h : (l ++ [a])[j]? = some b) : l[j]? = some b ∨ j = l.length ∧ a = b := by
  by_cases hj : j < l.length
  · rw [List.getElem?_append_left hj] at h
    exact .inl h
  · have hle := (List.getElem?_eq_some_iff.1 h).1
    rw [List.length_append, List.length_singleton] at hle
    obtain rfl : j = l.length := by omega
    rw [List.getElem?_concat_length] at h
    exact .inr ⟨rfl, Option.some.inj h⟩

namespace Krylov

variable {α : Type} {d : ℕ}

/-! ## Answers of a step -/

/-- The space has stopped growing with the step that has answered so. -/
def Solver.BrokeDown (answer : Except (Fault α) (Option Ending)) : Prop :=
  answer = .ok (some .breakdown) ∨ answer = .ok (some .singular)

/-- A growth that goes on has not broken down. -/
theorem Solver.not_brokeDown_none :
    ¬BrokeDown (.ok none : Except (Fault α) (Option Ending)) := by
  rintro (h | h)
  all_goals cases h

theorem Solver.not_brokeDown_error (fault : Fault α) : ¬BrokeDown (.error fault) := by
  rintro (h | h)
  all_goals cases h

variable [Scalar α]

/-! ## Raw columns -/

namespace Workspace

/-- The column of a step before it is turned: the components of the image along the directions, and
below them the length of what is left of it. -/
def rawColumn (w : Workspace α) (image : Vec α) : Vec α :=
  (orthogonalize w.basis image).1 ++ [Vec.norm (w.rest image)]

@[simp] theorem length_rawColumn (w : Workspace α) (image : Vec α) :
    (w.rawColumn image).length = w.basis.length + 1 := by
  rw [rawColumn, List.length_append, length_orthogonalize_fst, List.length_singleton]

/-- The last entry of a raw column is the length of what is left of the image. -/
theorem getD_rawColumn (w : Workspace α) (image : Vec α) :
    (w.rawColumn image).getD w.basis.length 0 = Vec.norm (w.rest image) :=
  Vec.getD_concat (length_orthogonalize_fst w.basis image) _

/-- What is left of an image gives a new direction, unless it counts as nothing. -/
theorem basis_absorb (w : Workspace α) (image : Vec α) :
    (w.absorb image).1.basis =
      if Vec.norm (w.rest image) ≤ negligible * Vec.norm image then w.basis
      else w.basis ++ [Vec.divide (w.rest image) (Vec.norm (w.rest image))] := by
  unfold absorb rest
  dsimp only
  split
  all_goals simp only [decide_eq_true_eq]

/-- A step ends the growth if what is left of the image counts as nothing. -/
theorem absorb_ne_none_iff (w : Workspace ℝ) (image : Vec ℝ) :
    (w.absorb image).2 ≠ none ↔ Vec.norm (w.rest image) ≤ negligible * Vec.norm image := by
  obtain ⟨d, rest, hrest⟩ : ∃ (d : ℕ) (rest : Fin d → ℝ), w.rest image = List.ofFn rest :=
    ⟨_, (w.rest image).get, (List.ofFn_get _).symm⟩
  obtain ⟨y, hsplit⟩ : ∃ y, orthogonalize w.basis image = (y, List.ofFn rest) :=
    ⟨_, Prod.ext rfl hrest⟩
  have hnonneg : 0 ≤ negligible * Vec.norm image :=
    mul_nonneg negligible_pos.le (Real.sqrt_nonneg _)
  rw [absorb_eq hsplit rfl rfl rfl, hrest, Vec.norm_ofFn]
  split
  · next hν =>
      -- a diagonal that vanishes leaves no length
      rw [Real.sqrt_eq_zero (add_nonneg (sq_nonneg _) (sq_nonneg _)),
        add_eq_zero_iff_of_nonneg (sq_nonneg _) (sq_nonneg _), sq_eq_zero_iff, sq_eq_zero_iff] at hν
      rw [hν.2]
      exact ⟨fun _ => hnonneg, fun _ => Option.some_ne_none _⟩
  · split
    · next hsmall => exact ⟨fun _ => hsmall, fun _ => Option.some_ne_none _⟩
    · next hlarge => exact ⟨fun h => absurd rfl h, fun h => absurd h hlarge⟩

/-- Nothing is left of zero, and it has no components. -/
theorem orthogonalize_zero (vs : List (Fin d → ℝ)) :
    orthogonalize (vs.map List.ofFn) (List.ofFn (0 : Fin d → ℝ)) =
      (List.replicate vs.length 0, List.ofFn (0 : Fin d → ℝ)) := by
  induction vs with
  | nil => rfl
  | cons v vs ih =>
      rw [List.map_cons, orthogonalize, Vec.dot_ofFn, zero_dotProduct, Vec.scale_ofFn,
        Vec.sub_ofFn, zero_smul, sub_zero, ih]
      rfl

theorem turnColumn_zero (rs : List (Rotation ℝ)) (k : ℕ) :
    turnColumn rs (List.replicate (k + 1) 0) = (List.replicate (min rs.length k) 0, 0) := by
  induction rs generalizing k with
  | nil =>
      rw [List.length_nil, Nat.zero_min]
      rfl
  | cons r rs ih =>
      cases k with
      | zero => rfl
      | succ k =>
          have hturned := ih k
          rw [List.replicate_succ] at hturned
          rw [List.replicate_succ, List.replicate_succ, turnColumn_cons]
          simp only [mul_zero, add_zero]
          rw [hturned, List.length_cons, Nat.succ_min_succ]
          rfl

/-- A direction whose image is zero makes the step a singular one. -/
theorem absorb_zero {w : Workspace ℝ} {vs : List (Fin d → ℝ)} (hbasis : w.basis = vs.map List.ofFn)
    (hvs : vs ≠ []) : w.absorb (List.ofFn (0 : Fin d → ℝ)) = (w, some .singular) := by
  obtain ⟨v, vs, rfl⟩ := List.exists_cons_of_ne_nil hvs
  have hsplit := orthogonalize_zero (v :: vs)
  rw [← hbasis, List.length_cons] at hsplit
  have hzero : √((0 : Fin d → ℝ) ⬝ᵥ 0) = 0 := by rw [zero_dotProduct, Real.sqrt_zero]
  have hν : √((0 : ℝ) ^ 2 + 0 ^ 2) = 0 := by simp
  rw [absorb_eq hsplit (turnColumn_zero _ _) hzero hν, if_pos rfl, Vec.norm_ofFn, hzero, mul_zero,
    if_pos le_rfl]

theorem rawColumn_zero {w : Workspace ℝ} {vs : List (Fin d → ℝ)}
    (hbasis : w.basis = vs.map List.ofFn) :
    w.rawColumn (List.ofFn (0 : Fin d → ℝ)) = List.replicate (vs.length + 1) 0 := by
  rw [rawColumn, rest, hbasis, orthogonalize_zero, Vec.norm_ofFn, zero_dotProduct, Real.sqrt_zero,
    List.replicate_succ']

end Workspace

namespace Solver

variable {solver : Solver α} {equation : Equation Id α} {guess : Tensor α} {w₀ w w' u : Workspace α}
  {β : α} {asked asked' : List (Tensor α)} {raws : List (Vec α)}
  {answer : Except (Fault α) (Option Ending)} {image : Tensor α} {v : Vec α}

/-! ## Steps -/

/-- A step that takes in a vector leaves what has been made of it, and breaks down if the vector has
ended the growth. -/
theorem step_of_vector (hvector : solver.imageVector image = .ok v)
    (hstep : solver.step β image w = (answer, w')) :
    w' = (w.absorb v).1 ∧ (BrokeDown answer ↔ (w.absorb v).2 ≠ none) := by
  rw [step, hvector] at hstep
  dsimp only at hstep
  have hending := w.absorb_ending v
  rcases habsorb : w.absorb v with ⟨w₁, _ | ending⟩
  · rw [habsorb] at hstep
    dsimp only at hstep
    obtain ⟨rfl, rfl⟩ := Prod.mk.inj hstep
    refine ⟨rfl, fun hbroke => ?_, fun h => absurd rfl h⟩
    rcases hwithin : solver.within β w₁ with fault | _ | _
    all_goals
      rw [hwithin] at hbroke
      rcases hbroke with h | h
      all_goals cases h
  · rw [habsorb] at hstep hending
    obtain ⟨rfl, rfl⟩ := Prod.mk.inj hstep
    refine ⟨rfl, fun _ => Option.some_ne_none _, fun _ => ?_⟩
    rcases hending with h | h | h
    · exact .inr (congrArg Except.ok h)
    · exact .inl (congrArg Except.ok h)
    · cases h

/-! ## Courses -/

/-- The states that a solve passes through: the norm of the residual of the guess, the directions
that have been asked for, the raw columns of the images that have been taken in, the answer of the
last step, and the workspace. -/
inductive Course (solver : Solver α) (equation : Equation Id α) (guess : Tensor α)
    (w₀ : Workspace α) : α → List (Tensor α) → List (Vec α) →
      Except (Fault α) (Option Ending) → Workspace α → Prop
  | seeded {r : Tensor α} {v : Vec α} (residual : (equation.residual guess).run.run = .ok r)
      (large : ¬r.norm < Scalar.tiny) (first : (r.divide r.norm).vector solver.dim = .ok v) :
      Course solver equation guess w₀ r.norm [] [] (.ok none) (w₀.cleared.seeded v r.norm)
  | refused {β : α} {asked : List (Tensor α)} {raws : List (Vec α)} {w : Workspace α}
      {fault : Fault α} (earlier : Course solver equation guess w₀ β asked raws (.ok none) w)
      (room : raws.length < solver.limit)
      (refusal : (equation.image (.ofVec w.direction)).run.run >>= solver.imageVector =
        .error fault) :
      Course solver equation guess w₀ β (asked ++ [.ofVec w.direction]) raws (.error fault) w
  | taken {β : α} {asked : List (Tensor α)} {raws : List (Vec α)} {w w' : Workspace α}
      {image : Tensor α} {v : Vec α} {answer : Except (Fault α) (Option Ending)}
      (earlier : Course solver equation guess w₀ β asked raws (.ok none) w)
      (room : raws.length < solver.limit)
      (image_eq : (equation.image (.ofVec w.direction)).run.run = .ok image)
      (vector : solver.imageVector image = .ok v)
      (step_eq : solver.step β image w = (answer, w')) :
      Course solver equation guess w₀ β (asked ++ [.ofVec w.direction])
        (raws ++ [w.rawColumn v]) answer w'

/-- A course goes on with one more question. -/
theorem Course.advance (h : solver.Course equation guess w₀ β asked raws (.ok none) w)
    (hroom : raws.length < solver.limit) (hstep : solver.advance equation β w = (answer, u)) :
    ∃ raws', solver.Course equation guess w₀ β (asked ++ [.ofVec w.direction]) raws' answer u ∧
      (answer = .ok none → raws'.length = raws.length + 1) := by
  rw [Solver.advance] at hstep
  rcases himage : (equation.image (.ofVec w.direction)).run.run with fault | image
  · rw [himage] at hstep
    obtain ⟨rfl, rfl⟩ := Prod.mk.inj hstep
    exact ⟨raws, .refused h hroom (by rw [himage]; rfl), fun h => by cases h⟩
  · rw [himage] at hstep
    dsimp only at hstep
    rcases hvector : solver.imageVector image with fault | v
    · rw [step, hvector] at hstep
      obtain ⟨rfl, rfl⟩ := Prod.mk.inj hstep
      exact ⟨raws, .refused h hroom (by rw [himage]; exact hvector), fun h => by cases h⟩
    · refine ⟨_, .taken h hroom himage hvector hstep, fun _ => ?_⟩
      rw [List.length_append, List.length_singleton]

/-- A growth goes along a course, and asks for the directions that are found on it. -/
theorem Growth.course {left : ℕ} {stop : Except (Fault α) Ending}
    (h : Growth (solver.advance equation β) left w asked' stop u)
    (hcourse : solver.Course equation guess w₀ β asked raws (.ok none) w)
    (hleft : raws.length + left = solver.limit) :
    ∃ raws' answer, solver.Course equation guess w₀ β (asked ++ asked') raws' answer u := by
  induction h generalizing asked raws with
  | limit w => exact ⟨raws, .ok none, by rwa [List.append_nil]⟩
  | failed step =>
      obtain ⟨raws', hnext, -⟩ := hcourse.advance (by omega) step
      exact ⟨raws', _, hnext⟩
  | ended step =>
      obtain ⟨raws', hnext, -⟩ := hcourse.advance (by omega) step
      exact ⟨raws', _, hnext⟩
  | grown step _ ih =>
      obtain ⟨raws', hnext, hlength⟩ := hcourse.advance (by omega) step
      obtain ⟨raws'', answer, hlast⟩ := ih hnext (by rw [hlength rfl]; omega)
      rw [List.append_assoc] at hlast
      exact ⟨raws'', answer, hlast⟩

/-- Every solve has a course to its end, unless it asks for no direction at all and reports, if
anything, a residual that counts as zero. -/
theorem exists_course (solver : Solver α) (equation : Equation Id α) (guess : Option (Tensor α))
    (w₀ : Workspace α) :
    ∃ asked result,
      (solver.transcript equation guess w₀).run =
        (result, .residual (guess.getD (Tensor.zeros [solver.dim])) :: asked.map .image) ∧
      ((asked = [] ∧ ∀ outcome, result = .ok outcome → outcome.initialResidualNorm < Scalar.tiny) ∨
        ∃ (β : α) (raws : List (Vec α)) (answer : Except (Fault α) (Option Ending))
            (w : Workspace α) (stop : Except (Fault α) Ending),
          solver.Course equation (guess.getD (Tensor.zeros [solver.dim])) w₀ β asked raws answer w ∧
          result = stop.bind (solver.conclude (guess.getD (Tensor.zeros [solver.dim])) β w)) := by
  obtain ⟨asked, result, hsolves⟩ := Solves.exists_solves solver equation
    (guess.getD (Tensor.zeros [solver.dim])) w₀
  refine ⟨asked, result, hsolves.run_transcript, ?_⟩
  cases hsolves with
  | failed _ => exact .inl ⟨rfl, fun outcome h => by cases h⟩
  | tiny _ small =>
      refine .inl ⟨rfl, fun outcome h => ?_⟩
      cases h
      exact small
  | refused _ _ _ => exact .inl ⟨rfl, fun outcome h => by cases h⟩
  | grown residual large first growth =>
      obtain ⟨raws, answer, hcourse⟩ := growth.course
        (Course.seeded residual large first) (Nat.zero_add _)
      exact .inr ⟨_, raws, answer, _, _, hcourse, rfl⟩

/-! ## An equation that is not linear -/

section Parabola

open Matrix

variable {solver : Solver ℝ}

/-- The equation whose residual is always `r`, and whose images are multiples of `z`, by the square
of the first entry. -/
noncomputable def parabola (r z : Fin d → ℝ) : Equation Id ℝ where
  residual _ := pure (.ofFn r)
  image v := pure (.ofFn ((v.entries.headD 0 * v.entries.headD 0) • z))

theorem image_parabola {n : ℕ} (r z : Fin d → ℝ) (v : Fin (n + 1) → ℝ) :
    ((parabola r z).image (.ofFn v)).run.run = .ok (.ofFn ((v 0 * v 0) • z)) := by
  show Except.ok (Tensor.ofFn (((List.ofFn v).headD 0 * (List.ofFn v).headD 0) • z)) = _
  rw [List.ofFn_succ, List.headD_cons]

/-- The image `(3, 4)` of the first unit vector has the component three along it, and leaves a
multiple of the second unit vector. -/
theorem splits_parabola {w : Workspace ℝ} (hbasis : w.basis = [List.ofFn ![1, 0]]) :
    orthogonalize w.basis (List.ofFn ![(3 : ℝ), 4]) = ([3], List.ofFn ![(0 : ℝ), 4]) := by
  rw [hbasis, orthogonalize, orthogonalize, Vec.dot_ofFn, Vec.scale_ofFn, Vec.sub_ofFn]
  simp

theorem sqrt_parabola : √(![(0 : ℝ), 4] ⬝ᵥ ![0, 4]) = 4 := by
  rw [Real.sqrt_eq_iff_mul_self_eq_of_pos four_pos]
  simp

/-- A step that takes in the image `(3, 4)` of the first unit vector adds the second unit vector,
and does not end the growth. -/
theorem absorb_parabola {w : Workspace ℝ} (hbasis : w.basis = [List.ofFn ![1, 0]])
    (hcolumns : w.columns = []) :
    w.absorb (List.ofFn ![3, 4]) = (w.extended ([![1, 0], ![0, 1]].map List.ofFn) [] 5
      (Rotation.toAxis 3 4 5), none) := by
  have hturn : turnColumn (w.rotations.take w.columns.length) [3] = ([], 3) := by
    rw [hcolumns]
    rfl
  have hν : √((3 : ℝ) ^ 2 + 4 ^ 2) = 5 := by
    rw [Real.sqrt_eq_iff_mul_self_eq_of_pos (by norm_num)]
    norm_num
  have hlarge : ¬(4 : ℝ) ≤ Workspace.negligible * Vec.norm (List.ofFn ![(3 : ℝ), 4]) := by
    have hnorm : Vec.norm (List.ofFn ![(3 : ℝ), 4]) = 5 := by
      rw [Vec.norm_ofFn, ← hν]
      simp [sq]
    rw [hnorm, Workspace.negligible]
    norm_num
  have hnext : Vec.divide (List.ofFn ![(0 : ℝ), 4]) 4 = List.ofFn ![0, 1] := by
    rw [Vec.divide_ofFn]
    simp
  rw [Workspace.absorb_eq (splits_parabola hbasis) hturn sqrt_parabola hν, if_neg (by norm_num),
    if_neg hlarge, if_neg hlarge, hbasis, hnext]
  rfl

/-- The course of the parabola begins with the first unit vector. -/
theorem seeded_parabola (hdim : solver.dim = 2) (guess : Tensor ℝ) (w₀ : Workspace ℝ) :
    solver.Course (parabola ![1, 0] ![3, 4]) guess w₀ 1 [] [] (.ok none)
      (w₀.cleared.seeded (List.ofFn ![1, 0]) 1) := by
  have hnorm : (Tensor.ofFn ![(1 : ℝ), 0]).norm = 1 := by
    rw [Tensor.norm_ofFn]
    simp
  have hseeded : solver.Course (parabola ![1, 0] ![3, 4]) guess w₀ (Tensor.ofFn ![(1 : ℝ), 0]).norm
      [] [] (.ok none) _ :=
    .seeded rfl (by rw [hnorm]; exact not_lt.2 tiny_le_one) (vector_divide_ofFn hdim _ _)
  rwa [hnorm, inv_one, one_smul] at hseeded

/-- The course of the parabola goes on with the second unit vector, as the tolerance is zero. -/
theorem grown_parabola (hdim : solver.dim = 2) (hlimit : 0 < solver.limit)
    (hτ : solver.relativeTolerance.scalar = .ok 0) (guess : Tensor ℝ) (w₀ : Workspace ℝ) :
    ∃ w, solver.Course (parabola ![1, 0] ![3, 4]) guess w₀ 1 [.ofFn ![1, 0]] [[3, 4]] (.ok none) w ∧
      w.basis = [![1, 0], ![0, 1]].map List.ofFn ∧ w.columns = [[5]] ∧ w.settled = [3 / 5] ∧
      w.remainder = -(4 / 5) := by
  obtain ⟨w, hw⟩ : ∃ w, w = w₀.cleared.seeded (List.ofFn ![(1 : ℝ), 0]) 1 := ⟨_, rfl⟩
  have hbasis : w.basis = [List.ofFn ![(1 : ℝ), 0]] := by rw [hw]; rfl
  have hcolumns : w.columns = [] := by rw [hw]; rfl
  have hdirection : Tensor.ofVec w.direction = .ofFn ![(1 : ℝ), 0] := by rw [hw]; rfl
  have hseeded := seeded_parabola hdim guess w₀
  rw [← hw] at hseeded
  obtain ⟨w', hw'⟩ : ∃ w', w' = w.extended ([![(1 : ℝ), 0], ![0, 1]].map List.ofFn) [] 5
    (Rotation.toAxis 3 4 5) := ⟨_, rfl⟩
  have hturned : (w'.settled, w'.remainder) = ([3 / 5], -(4 / 5)) := by
    rw [hw', hw]
    show ([((Rotation.toAxis 3 4 5).turn 1 0).1], ((Rotation.toAxis 3 4 5).turn 1 0).2) = _
    rw [Workspace.turn_zero, Rotation.toAxis, mul_one, mul_one]
  obtain ⟨hsettled, hremainder⟩ := Prod.mk.inj hturned
  have himage := image_parabola ![1, 0] ![3, 4] ![(1 : ℝ), 0]
  rw [Matrix.cons_val_zero, mul_one, one_smul, ← hdirection] at himage
  have hstep : solver.step 1 (.ofFn ![3, 4]) w = (.ok none, w') := by
    have hwithin : ¬|w'.remainder| ≤ 0 * 1 := by
      rw [hremainder]
      norm_num
    rw [step, imageVector_ofFn hdim]
    dsimp only
    rw [absorb_parabola hbasis hcolumns, ← hw']
    dsimp only
    rw [within_eq hτ, decide_eq_false hwithin]
    rfl
  have hgrown := hseeded.taken hlimit himage (imageVector_ofFn hdim _) hstep
  have hraw : w.rawColumn (List.ofFn ![(3 : ℝ), 4]) = [3, 4] := by
    rw [Workspace.rawColumn, Workspace.rest, splits_parabola hbasis, Vec.norm_ofFn, sqrt_parabola]
    rfl
  rw [hraw, hdirection] at hgrown
  exact ⟨w', hgrown, by rw [hw']; rfl, by rw [hw', Workspace.extended, hcolumns]; rfl, hsettled,
    hremainder⟩

/-- The parabola takes the second unit vector to zero, and the second step of the course is
singular. -/
theorem course_parabola (guess : Tensor ℝ) (w₀ : Workspace ℝ) :
    ∃ w, Course ⟨2, 2, .number (.real 0)⟩ (parabola ![1, 0] ![3, 4]) guess w₀ 1
        [.ofFn ![1, 0], .ofFn ![0, 1]] [[3, 4], [0, 0, 0]] (.ok (some .singular)) w ∧
      w.columns = [[5]] ∧ w.settled = [3 / 5] ∧ w.remainder = -(4 / 5) := by
  obtain ⟨solver, hsolver⟩ : ∃ solver : Solver ℝ, solver = ⟨2, 2, .number (.real 0)⟩ := ⟨_, rfl⟩
  have hdim : solver.dim = 2 := by rw [hsolver]
  have hlimit : solver.limit = 2 := by rw [hsolver]
  have hτ : solver.relativeTolerance.scalar = .ok 0 := by rw [hsolver]; rfl
  rw [← hsolver]
  obtain ⟨w, hgrown, hbasis, hfound⟩ :=
    grown_parabola hdim (by rw [hlimit]; exact Nat.two_pos) hτ guess w₀
  have hdirection : Tensor.ofVec w.direction = .ofFn ![(0 : ℝ), 1] := by
    rw [Workspace.direction, hbasis]
    rfl
  have himage := image_parabola ![1, 0] ![3, 4] ![(0 : ℝ), 1]
  rw [Matrix.cons_val_zero, mul_zero, zero_smul, ← hdirection] at himage
  have hstep : solver.step 1 (.ofFn (0 : Fin 2 → ℝ)) w = (.ok (some .singular), w) := by
    rw [step, imageVector_ofFn hdim]
    dsimp only
    rw [Workspace.absorb_zero hbasis (List.cons_ne_nil _ _)]
  have hended := hgrown.taken (by rw [hlimit]; exact Nat.one_lt_two) himage
    (imageVector_ofFn hdim _) hstep
  rw [Workspace.rawColumn_zero hbasis, hdirection] at hended
  exact ⟨w, hended, hfound⟩

end Parabola

end Solver

end Krylov

end RecedingHorizon
